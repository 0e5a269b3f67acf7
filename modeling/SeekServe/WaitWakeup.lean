import SeekServe.ByteSource

/-!
# Waking the reader of a byte source

The wait inside `ByteSource::read` against the threads that complete pieces and cancel the
source. The evaluation of the predicate is one step and going to sleep is another; the
notifications are sent without the reader's mutex and reach a reader that is asleep.
-/

namespace SeekServe.WaitWakeup

set_option autoImplicit false

inductive Waiter where
  | evaluating (timedOut : Bool)
  /-- the predicate was false, and the reader goes to sleep -/
  | deciding
  | asleep
  /-- `wait_for` has returned -/
  | returned (ok : Bool)
  deriving DecidableEq, Repr

structure State where
  avail : PieceAvailabilityIndex
  cancelled : Bool
  waiter : Waiter
  /-- the calls that have changed a flag and not yet notified -/
  pending : Nat

inductive Action where
  | evaluate
  | sleep
  | timeout
  /-- `mark_complete`, which `notify_piece_complete` follows -/
  | markComplete (piece : Int)
  /-- the store in `cancel`, which its notification follows -/
  | cancel
  | notify
  deriving DecidableEq, Repr

section
variable (src : ByteSource) (offset len : Int)

def State.predicate (s : State) : Bool := s.cancelled || src.isAvailable s.avail offset len

def next (s : State) : Action → Option State
  | .evaluate =>
    match s.waiter with
    | .evaluating timedOut =>
      some { s with
        waiter := if s.predicate src offset len then .returned true
          else if timedOut then .returned false
          else .deciding }
    | _ => none
  | .sleep =>
    match s.waiter with
    | .deciding => some { s with waiter := .asleep }
    | _ => none
  | .timeout =>
    match s.waiter with
    | .asleep => some { s with waiter := .evaluating true }
    | _ => none
  | .markComplete piece =>
    some { s with avail := s.avail.markComplete piece, pending := s.pending + 1 }
  | .cancel => some { s with cancelled := true, pending := s.pending + 1 }
  | .notify =>
    match s.pending with
    | 0 => none
    | n + 1 =>
      some { s with
        waiter := if s.waiter = .asleep then .evaluating false else s.waiter
        pending := n }

def system : Runs.System State Action := ⟨next src offset len⟩

def start (avail : PieceAvailabilityIndex) (cancelled : Bool) : State :=
  ⟨avail, cancelled, .evaluating false, 0⟩

/-- Where the reader of `ByteSource` is after an evaluation. -/
def outcome (ready timedOut : Bool) : ByteSource.Pc :=
  if ready then .woken true else if timedOut then .woken false else .asleep

theorem scan_steps (s : ByteSource.ReadState) (timedOut : Bool) (n : Nat) (piece : Int)
    (hn : ((src.span offset len).last - piece + 1).toNat = n) :
    ∃ k, (src.reader offset len).exec { s with pc := .scan timedOut piece }
      (List.replicate k .step) =
        some { s with pc := outcome (s.avail.allCompleteFrom piece n) timedOut } := by
  induction n generalizing piece with
  | zero =>
    have hend : piece > (src.span offset len).last := by omega
    refine ⟨1, ?_⟩
    simp [ByteSource.reader, Runs.System.exec, ByteSource.next, ByteSource.advance, hend, outcome,
      PieceAvailabilityIndex.allCompleteFrom]
  | succ n ih =>
    have hmore : ¬piece > (src.span offset len).last := by omega
    by_cases hc : s.avail.isComplete piece = true
    · obtain ⟨k, hk⟩ := ih (piece + 1) (by omega)
      refine ⟨k + 1, (Runs.System.exec_cons_iff _).mpr
        ⟨{ s with pc := .scan timedOut (piece + 1) }, ?_, ?_⟩⟩
      · simp [ByteSource.reader, ByteSource.next, ByteSource.advance, hmore, hc]
      · rw [hk]
        simp [PieceAvailabilityIndex.allCompleteFrom, hc]
    · refine ⟨1, ?_⟩
      simp [ByteSource.reader, Runs.System.exec, ByteSource.next, ByteSource.advance, hmore, hc,
        outcome, PieceAvailabilityIndex.allCompleteFrom]

/-- An evaluation is what the reader of `ByteSource` does when nothing comes between. -/
theorem evaluation_steps (s : ByteSource.ReadState) (timedOut : Bool) :
    ∃ k, (src.reader offset len).exec { s with pc := .predicate timedOut }
      (List.replicate k .step) =
        some { s with
          pc := outcome (s.cancelled || src.isAvailable s.avail offset len) timedOut } := by
  cases hc : s.cancelled with
  | true =>
    refine ⟨1, ?_⟩
    simp [ByteSource.reader, Runs.System.exec, ByteSource.next, ByteSource.advance, outcome]
  | false =>
    obtain ⟨k, hk⟩ := scan_steps src offset len s timedOut _ (src.span offset len).first rfl
    refine ⟨k + 1, (Runs.System.exec_cons_iff _).mpr
      ⟨{ s with pc := .scan timedOut (src.span offset len).first }, ?_, ?_⟩⟩
    · simp [ByteSource.reader, ByteSource.next, ByteSource.advance, hc]
    · rw [hk, hc]
      rfl

/-- The reader sleeps though it could go on, and nobody is going to wake it. -/
structure Stuck (s : State) : Prop where
  asleep : s.waiter = .asleep
  ready : s.predicate src offset len = true
  silent : s.pending = 0

/-- The reader sleeps or goes to sleep though it could go on, and nobody is going to wake it. -/
structure Lost (s : State) : Prop where
  waiter : s.waiter = .deciding ∨ s.waiter = .asleep
  ready : s.predicate src offset len = true
  silent : s.pending = 0

/-- No last notification of a change comes between an evaluation that did not see the change
and the sleep that follows it. -/
def NotifiesInTime (s : State) (a : Action) : Prop :=
  a = .notify → s.waiter = .deciding → s.predicate src offset len = true → s.pending ≠ 1

/-- The reader is not stuck, and going to sleep would not make it so. -/
def NotLeft (s : State) : Prop :=
  ¬Stuck src offset len s ∧
    ∀ s', next src offset len s .sleep = some s' → ¬Stuck src offset len s'

theorem notLeft_iff (s : State) : NotLeft src offset len s ↔ ¬Lost src offset len s := by
  constructor
  · rintro ⟨hstuck, hsleep⟩ ⟨hwaiter, hready, hsilent⟩
    rcases hwaiter with hdeciding | hasleep
    · have hnext : next src offset len s .sleep = some { s with waiter := .asleep } := by
        simp only [next, hdeciding]
      exact hsleep _ hnext ⟨rfl, hready, hsilent⟩
    · exact hstuck ⟨hasleep, hready, hsilent⟩
  · intro hlost
    constructor
    · rintro ⟨hasleep, hready, hsilent⟩
      exact hlost ⟨Or.inr hasleep, hready, hsilent⟩
    · rintro s' hn ⟨_, hready, hsilent⟩
      simp only [next] at hn
      split at hn
      · rename_i hdeciding
        cases hn
        exact hlost ⟨Or.inl hdeciding, hready, hsilent⟩
      · cases hn

theorem lost_next_iff {s s' : State} {a : Action} (h : ¬Lost src offset len s)
    (hn : next src offset len s a = some s') :
    ¬Lost src offset len s' ↔ NotifiesInTime src offset len s a := by
  cases a with
  | evaluate =>
    refine ⟨fun _ ha => (by cases ha), fun _ hlost => ?_⟩
    simp only [next] at hn
    split at hn
    · cases hn
      have hready : s.predicate src offset len = true := hlost.ready
      have hwaiter := hlost.waiter
      simp [hready] at hwaiter
    · cases hn
  | sleep =>
    refine ⟨fun _ ha => (by cases ha), fun _ hlost => ?_⟩
    simp only [next] at hn
    split at hn
    · rename_i hdeciding
      cases hn
      exact h ⟨Or.inl hdeciding, hlost.ready, hlost.silent⟩
    · cases hn
  | timeout =>
    refine ⟨fun _ ha => (by cases ha), fun _ hlost => ?_⟩
    simp only [next] at hn
    split at hn
    · cases hn
      have hwaiter := hlost.waiter
      simp at hwaiter
    · cases hn
  | markComplete piece | cancel =>
    refine ⟨fun _ ha => (by cases ha), fun _ hlost => ?_⟩
    cases hn
    have hsilent := hlost.silent
    simp at hsilent
  | notify =>
    simp only [next] at hn
    split at hn
    · cases hn
    · rename_i n hpending
      cases hn
      constructor
      · intro hnot _ hdeciding hready hone
        apply hnot
        refine ⟨Or.inl ?_, hready, ?_⟩
        · simp [hdeciding]
        · show n = 0
          omega
      · intro htime hlost
        have hn0 : n = 0 := hlost.silent
        by_cases hasleep : s.waiter = .asleep
        · have hwaiter := hlost.waiter
          simp [hasleep] at hwaiter
        · have hdeciding : s.waiter = .deciding := by
            have hwaiter := hlost.waiter
            simpa [hasleep] using hwaiter
          exact htime rfl hdeciding hlost.ready (by omega)

/-- No reader is left asleep in a run exactly when the last notification never comes between
the evaluation and the sleep of a reader that it concerns. -/
theorem no_reader_left_asleep_iff (avail : PieceAvailabilityIndex) (cancelled : Bool)
    {acts : List Action} {s : State}
    (hs : (system src offset len).exec (start avail cancelled) acts = some s) :
    (system src offset len).Always (NotLeft src offset len) (start avail cancelled) acts ↔
      (system src offset len).EachStep (NotifiesInTime src offset len) (start avail cancelled)
        acts := by
  refine Runs.System.always_iff_eachStep _ (fun _ => True) _ _ ?_ ?_ trivial ?_ hs
  · intro u a u' _ _
    trivial
  · intro u a u' _ hu hn
    rw [notLeft_iff] at hu ⊢
    exact lost_next_iff src offset len hu hn
  · rw [notLeft_iff]
    intro hlost
    have hwaiter := hlost.waiter
    simp [start] at hwaiter

theorem no_reader_left_asleep_iff_tenBytes :
    (system ByteSource.tenBytes 5 1).Always (NotLeft ByteSource.tenBytes 5 1)
      (start (.reset 3 4 2) false) [.evaluate, .sleep, .markComplete 1, .notify, .evaluate] := by
  apply (no_reader_left_asleep_iff ByteSource.tenBytes 5 1 (.reset 3 4 2) false rfl).mpr
  refine .cons _ (fun h => nomatch h) fun s1 h1 => ?_
  cases h1
  refine .cons _ (fun h => nomatch h) fun s2 h2 => ?_
  cases h2
  refine .cons _ (fun h => nomatch h) fun s3 h3 => ?_
  cases h3
  refine .cons _ (fun _ h => nomatch h) fun s4 h4 => ?_
  cases h4
  exact .cons _ (fun h => nomatch h) fun s5 _ => Runs.System.eachStep_nil _ _ s5

/-- The piece completes and its notification is sent before the reader has gone to sleep. -/
theorem notification_before_sleep :
    ((system ByteSource.tenBytes 5 1).exec (start (.reset 3 4 2) false)
        [.evaluate, .markComplete 1, .notify, .sleep]).map
      (fun s => (s.waiter, s.predicate ByteSource.tenBytes 5 1, s.pending)) =
      some (.asleep, true, 0) := by decide

end

end SeekServe.WaitWakeup
