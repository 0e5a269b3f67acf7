import SeekServe.Lib.Runs
import SeekServe.Types

/-!
# The connection limit

The accept loop reads `active_connections_` and starts a thread for a connection that it
admits; the thread raises the counter as its first step and lowers it as its last.
-/

namespace SeekServe.ConnectionLimit

set_option autoImplicit false

inductive ThreadPc where
  | spawned
  | counted
  | handled
  | finished
  deriving DecidableEq, Repr

structure State where
  /-- `active_connections_` -/
  active : Int
  /-- The loop has found room for a connection whose thread it has not started yet. -/
  admitting : Bool
  threads : List ThreadPc
  deriving DecidableEq, Repr

inductive Action where
  | compare
  | spawn
  | step (thread : Nat)
  deriving DecidableEq, Repr

variable (config : ServerConfig)

def next (s : State) : Action → Option State
  | .compare =>
    if s.admitting then none
    else if s.active ≥ config.maxConcurrentStreams then some s
    else some { s with admitting := true }
  | .spawn =>
    if s.admitting then some { s with admitting := false, threads := s.threads ++ [.spawned] }
    else none
  | .step i =>
    match s.threads[i]? with
    | some .spawned => some { s with active := s.active + 1, threads := s.threads.set i .counted }
    | some .counted => some { s with threads := s.threads.set i .handled }
    | some .handled => some { s with active := s.active - 1, threads := s.threads.set i .finished }
    | some .finished | none => none

def system : Runs.System State Action := ⟨next config⟩

def initial : State := ⟨0, false, []⟩

def ThreadPc.raised : ThreadPc → Bool
  | .counted | .handled => true
  | .spawned | .finished => false

/-- Threads that have been started and have not raised the counter. -/
def State.uncounted (s : State) : Nat := s.threads.countP (· == .spawned)

/-- Connections that have been admitted and have not finished. -/
def State.unfinished (s : State) : Nat :=
  s.threads.countP (· != .finished) + if s.admitting then 1 else 0

def Within (s : State) : Prop := s.unfinished ≤ config.maxConcurrentStreams

/-- A connection is admitted only while the threads that have not raised the counter yet
leave room for it. -/
def LeavesRoom (s : State) (a : Action) : Prop :=
  a = .compare → s.active < config.maxConcurrentStreams →
    s.active + s.uncounted < config.maxConcurrentStreams

/-- The counter counts the threads between their first and their last step. -/
def Counted (s : State) : Prop := s.active = s.threads.countP ThreadPc.raised

theorem unfinished_eq (s : State) :
    s.unfinished =
      s.uncounted + s.threads.countP ThreadPc.raised + if s.admitting then 1 else 0 := by
  unfold State.unfinished State.uncounted
  congr 1
  induction s.threads with
  | nil => rfl
  | cons t ts ih =>
    simp only [List.countP_cons, ih]
    cases t <;> simp [ThreadPc.raised] <;> omega

/-- A thread that goes on changes the counter as much as the number of threads it counts. -/
theorem thread_step {s s' : State} {i : Nat} (hn : next config s (.step i) = some s') :
    ∃ old new, s.threads[i]? = some old ∧ old ≠ .finished ∧
      s' = { s with
        active := s.active + (if new.raised then 1 else 0) - if old.raised then 1 else 0
        threads := s.threads.set i new } := by
  simp only [next] at hn
  split at hn
  · rename_i hi
    cases hn
    exact ⟨.spawned, .counted, hi, by decide, by simp [ThreadPc.raised]⟩
  · rename_i hi
    cases hn
    exact ⟨.counted, .handled, hi, by decide, by simp [ThreadPc.raised]⟩
  · rename_i hi
    cases hn
    exact ⟨.handled, .finished, hi, by decide, by simp [ThreadPc.raised]⟩
  · cases hn
  · cases hn

theorem counted_next {s s' : State} {a : Action} (h : Counted s)
    (hn : next config s a = some s') : Counted s' := by
  unfold Counted at h ⊢
  cases a with
  | compare =>
    simp only [next] at hn
    split at hn
    · cases hn
    split at hn <;> cases hn <;> exact h
  | spawn =>
    simp only [next] at hn
    split at hn <;> cases hn
    simp [h, ThreadPc.raised]
  | step i =>
    obtain ⟨old, new, hi, -, rfl⟩ := thread_step config hn
    have hcount := Runs.countP_set_of_getElem (p := ThreadPc.raised) new hi
    cases hold : old.raised <;> cases hnew : new.raised <;>
      simp only [hold, hnew, Bool.false_eq_true, if_true, if_false] at hcount ⊢ <;> omega

theorem unfinished_step_le {s s' : State} {i : Nat} (hn : next config s (.step i) = some s') :
    s'.unfinished ≤ s.unfinished := by
  obtain ⟨old, new, hi, hold, rfl⟩ := thread_step config hn
  have hcount := Runs.countP_set_of_getElem (p := (· != .finished)) new hi
  have hp : (old != .finished) = true := bne_iff_ne.mpr hold
  rw [if_pos hp] at hcount
  have hle : (s.threads.set i new).countP (· != .finished) ≤
      s.threads.countP (· != .finished) := by
    split at hcount <;> omega
  unfold State.unfinished
  exact Nat.add_le_add_right hle _

theorem within_next_iff {s s' : State} {a : Action} (hc : Counted s) (hw : Within config s)
    (hn : next config s a = some s') : Within config s' ↔ LeavesRoom config s a := by
  cases a with
  | compare =>
    have hsum := unfinished_eq s
    have hactive : s.active = s.threads.countP ThreadPc.raised := hc
    simp only [next] at hn
    split at hn
    · cases hn
    rename_i hadm
    split at hn
    · rename_i hfull
      cases hn
      refine ⟨fun _ _ hlt => ?_, fun _ => hw⟩
      omega
    · rename_i hroom
      cases hn
      have hidle : s.admitting = false := Bool.eq_false_iff.mpr hadm
      have hnew : State.unfinished { s with admitting := true } = s.unfinished + 1 := by
        simp [State.unfinished, hidle]
      unfold Within LeavesRoom
      rw [hnew, hsum, hidle]
      simp only [Bool.false_eq_true, if_false, forall_const]
      omega
  | spawn =>
    refine ⟨fun _ h => (by cases h), fun _ => ?_⟩
    simp only [next] at hn
    split at hn <;> cases hn
    rename_i hadm
    unfold Within State.unfinished at hw ⊢
    simpa [hadm] using hw
  | step i =>
    refine ⟨fun _ h => (by cases h), fun _ => ?_⟩
    have hle := unfinished_step_le config hn
    unfold Within at hw ⊢
    omega

/-- The limit holds throughout a run exactly when no burst of accepts overtakes the
threads that it started. -/
theorem limit_holds_iff (hm : 1 ≤ config.maxConcurrentStreams) {acts : List Action} {s : State}
    (hs : (system config).exec initial acts = some s) :
    (system config).Always (Within config) initial acts ↔
      (system config).EachStep (LeavesRoom config) initial acts := by
  refine Runs.System.always_iff_eachStep _ Counted (Within config) (LeavesRoom config)
    ?_ ?_ rfl ?_ hs
  · intro u a u' hu hn
    exact counted_next config hu hn
  · intro u a u' hu hw hn
    exact within_next_iff config hu hw hn
  · exact Int.le_trans (by decide) hm

theorem limit_holds_iff_one :
    (system { maxConcurrentStreams := 1 }).Always (Within { maxConcurrentStreams := 1 }) initial
      [.compare, .spawn, .step 0, .compare] := by
  refine (limit_holds_iff { maxConcurrentStreams := 1 } (by decide) rfl).mpr ?_
  refine .cons _ (fun _ _ => by decide) fun s1 h1 => ?_
  cases h1
  refine .cons _ (fun h => nomatch h) fun s2 h2 => ?_
  cases h2
  refine .cons _ (fun h => nomatch h) fun s3 h3 => ?_
  cases h3
  refine .cons _ (fun _ h => absurd h (by decide)) fun s4 h4 => ?_
  exact Runs.System.eachStep_nil _ _ _

/-- Two connections are accepted before the first thread has raised the counter. -/
theorem burst_exceeds_limit :
    ∃ s, (system { maxConcurrentStreams := 1 }).exec initial
        [.compare, .spawn, .compare, .spawn] = some s ∧ s.unfinished = 2 :=
  ⟨_, rfl, rfl⟩

end SeekServe.ConnectionLimit
