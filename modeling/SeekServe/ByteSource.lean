import SeekServe.Lib.Runs
import SeekServe.FileStorage
import SeekServe.PieceAvailability

/-!
# Reading bytes of a file that is still downloading

`ByteSource::read` as the steps of one reader thread, interleaved with the calls
that mark pieces complete and cancel the source. Each load of a flag is a step of its own.
-/

namespace SeekServe

set_option autoImplicit false

/-- A `ByteSource` object without its cancellation flag. `addr` is its identity. -/
structure ByteSource where
  addr : Nat
  handle : TorrentHandle
  fileIdx : Int
  filePath : CxxString
  mapper : ByteRangeMapper

namespace ByteSource

def fileSize (src : ByteSource) : Int := src.mapper.fileSize

def span (src : ByteSource) (offset len : Int) : PieceSpan :=
  src.mapper.map ⟨offset, offset + len - 1⟩

def isAvailable (src : ByteSource) (avail : PieceAvailabilityIndex) (offset len : Int) : Bool :=
  avail.isSpanComplete (src.span offset len)

/-- `read_from_disk` on the file as the stream finds it; `none` when it does not open. -/
def readFromDisk (file : Option (List Byte)) (offset len : Int) : Result (List Byte) :=
  match file with
  | none => .error .ioError
  | some bytes =>
    if offset < 0 then .error .ioError
    else .ok ((bytes.drop offset.toNat).take len.toNat)

/-- What other threads may do to the state that a read looks at. -/
inductive Outside where
  | markComplete (piece : Int)
  | cancel
  deriving DecidableEq, Repr

/-- Where the reader is. `timedOut` says that the wait has passed its deadline, so that
the predicate is being evaluated for the last time. -/
inductive Pc where
  | entry
  | predicate (timedOut : Bool)
  | scan (timedOut : Bool) (piece : Int)
  | asleep
  | woken (ok : Bool)
  | reading
  | done (result : Result (List Byte))

structure ReadState where
  avail : PieceAvailabilityIndex
  cancelled : Bool
  pc : Pc

inductive Action where
  | outside (call : Outside)
  | step
  | wake
  | timeout
  | readFile (file : Option (List Byte))

def ReadState.apply (s : ReadState) : Outside → ReadState
  | .markComplete piece => { s with avail := s.avail.markComplete piece }
  | .cancel => { s with cancelled := true }

section Reader
variable (src : ByteSource) (offset len : Int)

/-- The next step of the thread inside `read(offset, len)`. -/
def advance (s : ReadState) : Pc → Option Pc
  | .entry => some (if s.cancelled then .done (.error .cancelled) else .predicate false)
  | .predicate timedOut =>
    some (if s.cancelled then .woken true else .scan timedOut (src.span offset len).first)
  | .scan timedOut piece =>
    some (if piece > (src.span offset len).last then .woken true
      else if s.avail.isComplete piece then .scan timedOut (piece + 1)
      else if timedOut then .woken false
      else .asleep)
  | .woken ok =>
    some (if s.cancelled then .done (.error .cancelled)
      else if ok then .reading
      else .done (.error .timeoutWaitingForPiece))
  | .asleep | .reading | .done _ => none

def next (s : ReadState) : Action → Option ReadState
  | .outside call => some (s.apply call)
  | .step => (src.advance offset len s s.pc).map fun pc => { s with pc := pc }
  | .wake =>
    match s.pc with
    | .asleep => some { s with pc := .predicate false }
    | _ => none
  | .timeout =>
    match s.pc with
    | .asleep => some { s with pc := .predicate true }
    | _ => none
  | .readFile file =>
    match s.pc with
    | .reading => some { s with pc := .done (readFromDisk file offset len) }
    | _ => none

def reader : Runs.System ReadState Action := ⟨src.next offset len⟩

def spanComplete (s : ReadState) : Prop := src.isAvailable s.avail offset len = true

theorem spanComplete_apply {s : ReadState} (h : src.spanComplete offset len s) (call : Outside) :
    src.spanComplete offset len (s.apply call) := by
  cases call with
  | markComplete piece => exact PieceAvailabilityIndex.isSpanComplete_markComplete h piece
  | cancel => exact h

theorem cancelled_apply {s : ReadState} (h : s.cancelled = true) (call : Outside) :
    (s.apply call).cancelled = true := by
  cases call with
  | markComplete piece => exact h
  | cancel => rfl

theorem next_cases {s s' : ReadState} {a : Action} (h : src.next offset len s a = some s') :
    (∃ call, a = .outside call ∧ s' = s.apply call) ∨ ∃ pc, s' = { s with pc := pc } := by
  cases a with
  | outside call => exact Or.inl ⟨call, rfl, (Option.some.inj h).symm⟩
  | step =>
    obtain ⟨pc, _, rfl⟩ := Option.map_eq_some_iff.mp h
    exact Or.inr ⟨pc, rfl⟩
  | wake | timeout | readFile file =>
    simp only [next] at h
    split at h <;> cases h
    exact Or.inr ⟨_, rfl⟩

theorem spanComplete_next {s s' : ReadState} {a : Action} (hs : src.spanComplete offset len s)
    (h : src.next offset len s a = some s') : src.spanComplete offset len s' := by
  rcases src.next_cases offset len h with ⟨call, _, rfl⟩ | ⟨pc, rfl⟩
  · exact src.spanComplete_apply offset len hs call
  · exact hs

theorem cancelled_next {s s' : ReadState} {a : Action} (hs : s.cancelled = true)
    (h : src.next offset len s a = some s') : s'.cancelled = true := by
  rcases src.next_cases offset len h with ⟨call, _, rfl⟩ | ⟨pc, rfl⟩
  · exact cancelled_apply hs call
  · exact hs

/-- The step by which `wait_for` returns with its predicate true. -/
def WaitEnds (u v : ReadState) : Prop := (∀ ok, u.pc ≠ .woken ok) ∧ v.pc = .woken true

/-- What a reader knows at each point of `read`, from the steps taken so far. -/
structure Sound (s0 : ReadState) (acts : List Action) (s : ReadState) : Prop where
  scan : ∀ timedOut piece, s.pc = .scan timedOut piece →
    ∀ p, (src.span offset len).first ≤ p → p < piece → s.avail.isComplete p = true
  woken : s.pc = .woken true →
    (src.reader offset len).Took (fun u v => WaitEnds u v ∧
      (v.cancelled = true → s.cancelled = true) ∧
      (v.cancelled = false → src.spanComplete offset len v)) s0 acts
  served : (s.pc = .reading ∨ ∃ data, s.pc = .done (.ok data)) →
    (src.reader offset len).Took (fun u v => WaitEnds u v ∧ v.cancelled = false ∧
      src.spanComplete offset len v) s0 acts

theorem sound_outside {s0 s : ReadState} {acts : List Action}
    (h : src.Sound offset len s0 acts s) (call : Outside) :
    src.Sound offset len s0 (acts ++ [.outside call]) (s.apply call) := by
  have hpc : (s.apply call).pc = s.pc := by cases call <;> rfl
  constructor
  · intro timedOut piece hp p h1 h2
    have hold := h.scan timedOut piece (hpc ▸ hp) p h1 h2
    cases call with
    | markComplete q => exact PieceAvailabilityIndex.isComplete_markComplete_of_isComplete hold q
    | cancel => exact hold
  · intro hp
    refine ((h.woken (hpc ▸ hp)).concat _ _).mono _ ?_
    intro u v hv
    exact ⟨hv.1, fun hc => cancelled_apply (hv.2.1 hc) call, hv.2.2⟩
  · intro hp
    rw [hpc] at hp
    exact (h.served hp).concat _ _

section Step
variable {s0 s : ReadState} {acts : List Action} {pc : Pc}
  (hs : (src.reader offset len).exec s0 acts = some s) (h : src.Sound offset len s0 acts s)
  (hn : (src.reader offset len).next s .step = some { s with pc := pc })
include hs hn

theorem sound_predicate {timedOut : Bool} (hpc : s.pc = .predicate timedOut)
    (hadv : src.advance offset len s (.predicate timedOut) = some pc) :
    src.Sound offset len s0 (acts ++ [.step]) { s with pc := pc } := by
  cases hadv
  cases hc : s.cancelled with
  | true =>
    rw [hc] at hn
    constructor
    · simp
    · intro _
      apply Runs.System.Took.last _ hs hn
      refine ⟨⟨by simp [hpc], by simp⟩, fun _ => rfl, ?_⟩
      intro hv
      cases hv
    · simp
  | false =>
    constructor
    · intro t piece hp p h1 h2
      simp only [Bool.false_eq_true, if_false, Pc.scan.injEq] at hp
      omega
    · simp
    · simp

include h

theorem sound_scan {timedOut : Bool} {piece : Int} (hpc : s.pc = .scan timedOut piece)
    (hadv : src.advance offset len s (.scan timedOut piece) = some pc) :
    src.Sound offset len s0 (acts ++ [.step]) { s with pc := pc } := by
  have hseen := h.scan timedOut piece hpc
  cases hadv
  by_cases hend : piece > (src.span offset len).last
  -- past the last piece of the span: every piece up to it was seen complete
  · constructor
    · simp [hend]
    · intro _
      apply Runs.System.Took.last _ hs hn
      refine ⟨⟨by simp [hpc], by simp [hend]⟩, fun hv => hv, fun _ => ?_⟩
      apply (PieceAvailabilityIndex.isSpanComplete_eq_true_iff _ _).mpr
      intro p h1 h2
      exact hseen p h1 (Int.lt_of_le_of_lt h2 hend)
    · simp [hend]
  · by_cases hc : s.avail.isComplete piece = true
    · constructor
      · intro t q hp p h1 h2
        simp only [hend, hc, if_true, if_false, Pc.scan.injEq] at hp
        by_cases he : p = piece
        · exact he ▸ hc
        · exact hseen p h1 (by omega)
      · simp [hend, hc]
      · simp [hend, hc]
    · cases timedOut <;> constructor <;> simp [hend, hc]

omit hs hn in
theorem sound_woken {ok : Bool} (hpc : s.pc = .woken ok)
    (hadv : src.advance offset len s (.woken ok) = some pc) :
    src.Sound offset len s0 (acts ++ [.step]) { s with pc := pc } := by
  cases hadv
  constructor
  · cases hc : s.cancelled <;> cases ok <;> simp
  · cases hc : s.cancelled <;> cases ok <;> simp
  · intro hp
    cases hc : s.cancelled with
    | true => simp [hc] at hp
    | false =>
      cases ok with
      | false => simp [hc] at hp
      | true =>
        -- not cancelled now, so not cancelled when the wait ended
        refine ((h.woken hpc).concat _ _).mono _ ?_
        intro u v hv
        have hvc : v.cancelled = false := by
          cases hv' : v.cancelled with
          | false => rfl
          | true => exact absurd (hc.symm.trans (hv.2.1 hv')) (by simp)
        exact ⟨hv.1, hvc, hv.2.2 hvc⟩

end Step

theorem sound_step {s0 s s' : ReadState} {acts : List Action}
    (hs : (src.reader offset len).exec s0 acts = some s) (h : src.Sound offset len s0 acts s)
    (hn : src.next offset len s .step = some s') :
    src.Sound offset len s0 (acts ++ [.step]) s' := by
  obtain ⟨pc, hadv, rfl⟩ := Option.map_eq_some_iff.mp hn
  cases hpc : s.pc with
  | entry =>
    rw [hpc] at hadv
    cases hadv
    cases hc : s.cancelled <;> constructor <;> simp
  | predicate timedOut => exact src.sound_predicate offset len hs hn hpc (hpc ▸ hadv)
  | scan timedOut piece => exact src.sound_scan offset len hs h hn hpc (hpc ▸ hadv)
  | woken ok => exact src.sound_woken offset len h hpc (hpc ▸ hadv)
  | asleep | reading | done r =>
    rw [hpc] at hadv
    cases hadv

theorem sound_next {s0 s s' : ReadState} {acts : List Action} {a : Action}
    (hs : (src.reader offset len).exec s0 acts = some s) (h : src.Sound offset len s0 acts s)
    (hn : src.next offset len s a = some s') : src.Sound offset len s0 (acts ++ [a]) s' := by
  cases a with
  | outside call =>
    cases hn
    exact src.sound_outside offset len h call
  | step => exact src.sound_step offset len hs h hn
  | wake | timeout =>
    simp only [next] at hn
    split at hn <;> cases hn
    constructor <;> simp
  | readFile file =>
    simp only [next] at hn
    split at hn <;> cases hn
    rename_i hpc
    constructor
    · simp
    · simp
    · intro _
      exact (h.served (Or.inl hpc)).concat _ _

theorem sound_exec {s0 s : ReadState} {acts : List Action} (h0 : s0.pc = .entry)
    (hs : (src.reader offset len).exec s0 acts = some s) : src.Sound offset len s0 acts s := by
  apply Runs.System.exec_history _ (src.Sound offset len s0) _ _ hs
  · constructor <;> simp [h0]
  · intro es u e u' hu hsound hn
    exact src.sound_next offset len hu hsound hn

theorem advance_ne_ok (s : ReadState) (pc : Pc) (data : List Byte) :
    src.advance offset len s pc ≠ some (.done (.ok data)) := by
  cases pc with
  | entry | predicate timedOut => cases hc : s.cancelled <;> simp [advance, hc]
  | scan timedOut piece =>
    by_cases hend : piece > (src.span offset len).last
    · simp [advance, hend]
    · by_cases hc : s.avail.isComplete piece = true
      · simp [advance, hend, hc]
      · cases timedOut <;> simp [advance, hend, hc]
  | woken ok => cases hc : s.cancelled <;> cases ok <;> simp [advance, hc]
  | asleep | reading | done r => simp [advance]

/-- Points of `read` that are passed when the span is complete from the start. -/
def Pc.Prompt (first : Int) : Pc → Prop
  | .scan _ piece => first ≤ piece
  | .asleep => False
  | .woken ok => ok = true
  | .done r => r ≠ .error .timeoutWaitingForPiece
  | .entry | .predicate _ | .reading => True

structure Ready (s : ReadState) : Prop where
  complete : src.spanComplete offset len s
  clear : s.cancelled = false
  prompt : s.pc.Prompt (src.span offset len).first

theorem ready_next {s s' : ReadState} {a : Action} (h : src.Ready offset len s)
    (ha : a ≠ .outside .cancel) (hn : src.next offset len s a = some s') :
    src.Ready offset len s' := by
  have hcomplete := src.spanComplete_next offset len h.complete hn
  have hprompt := h.prompt
  cases a with
  | outside call =>
    cases hn
    cases call with
    | markComplete piece => exact ⟨hcomplete, h.clear, hprompt⟩
    | cancel => exact absurd rfl ha
  | step =>
    obtain ⟨pc, hadv, rfl⟩ := Option.map_eq_some_iff.mp hn
    refine ⟨hcomplete, h.clear, ?_⟩
    cases hpc : s.pc with
    | entry | predicate timedOut =>
      rw [hpc] at hadv
      cases hadv
      simp [h.clear, Pc.Prompt]
    | scan timedOut piece =>
      rw [hpc] at hadv hprompt
      cases hadv
      by_cases hend : piece > (src.span offset len).last
      · simp [hend, Pc.Prompt]
      · have hall := (PieceAvailabilityIndex.isSpanComplete_eq_true_iff _ _).mp h.complete
        have hc := hall piece hprompt (by omega)
        simp only [Pc.Prompt] at hprompt
        simp only [hend, hc, if_true, if_false, Pc.Prompt]
        omega
    | woken ok =>
      rw [hpc] at hadv hprompt
      cases hadv
      have hok : ok = true := hprompt
      simp [h.clear, hok, Pc.Prompt]
    | asleep | reading | done r =>
      rw [hpc] at hadv
      cases hadv
  | wake | timeout =>
    simp only [next] at hn
    split at hn <;> cases hn
    exact ⟨hcomplete, h.clear, trivial⟩
  | readFile file =>
    simp only [next] at hn
    split at hn <;> cases hn
    refine ⟨hcomplete, h.clear, ?_⟩
    simp only [Pc.Prompt, readFromDisk]
    split
    · simp
    · split <;> simp

theorem not_timeout_of_ready {s0 s : ReadState} {acts : List Action}
    (h : src.Ready offset len s0) (hacts : ∀ a ∈ acts, a ≠ .outside .cancel)
    (hs : (src.reader offset len).exec s0 acts = some s) :
    s.pc ≠ .done (.error .timeoutWaitingForPiece) := by
  have hready : src.Ready offset len s := by
    apply Runs.System.exec_invariant _ (src.Ready offset len) (fun _ a => a ≠ .outside .cancel)
      _ h _ hs
    · intro u a u' hu ha hn
      exact src.ready_next offset len hu ha hn
    · intro pre a post u hes _
      exact hacts a (by simp [hes])
  intro hpc
  have hp := hready.prompt
  rw [hpc] at hp
  exact hp rfl

/-- A read of a cancelled source has not begun, or has answered `cancelled`. -/
structure Refused (s : ReadState) : Prop where
  cancelled : s.cancelled = true
  pc : s.pc = .entry ∨ s.pc = .done (.error .cancelled)

theorem refused_next {s s' : ReadState} {a : Action} (h : Refused s)
    (hn : src.next offset len s a = some s') : Refused s' := by
  have hc := src.cancelled_next offset len h.cancelled hn
  refine ⟨hc, ?_⟩
  cases a with
  | outside call =>
    cases hn
    have hpc : (s.apply call).pc = s.pc := by cases call <;> rfl
    rw [hpc]
    exact h.pc
  | step =>
    obtain ⟨pc, hadv, rfl⟩ := Option.map_eq_some_iff.mp hn
    rcases h.pc with he | hd
    · rw [he] at hadv
      cases hadv
      exact Or.inr (by simp [h.cancelled])
    · rw [hd] at hadv
      cases hadv
  | wake | timeout | readFile file =>
    rcases h.pc with he | hd
    · simp [next, he] at hn
    · simp [next, hd] at hn

def started (w : ReadState) (history : List Outside) : ReadState :=
  { history.foldl ReadState.apply w with pc := .entry }

theorem cancelled_foldl {history : List Outside} {w : ReadState}
    (h : w.cancelled = true ∨ .cancel ∈ history) :
    (history.foldl ReadState.apply w).cancelled = true := by
  induction history generalizing w with
  | nil => simpa using h
  | cons call rest ih =>
    apply ih
    rcases h with hc | hm
    · exact Or.inl (cancelled_apply hc call)
    · rcases List.mem_cons.mp hm with rfl | hr
      · exact Or.inl rfl
      · exact Or.inr hr

theorem spanComplete_foldl {history : List Outside} {w : ReadState}
    (h : src.spanComplete offset len w) :
    src.spanComplete offset len (history.foldl ReadState.apply w) := by
  induction history generalizing w with
  | nil => exact h
  | cons call rest ih => exact ih (src.spanComplete_apply offset len h call)

/-- The span of a read is complete exactly on pieces that hold its bytes. -/
theorem byte_complete_of_spanComplete (hm : src.mapper.WellFormed) (h0 : 0 ≤ offset)
    (hlen : 1 ≤ len) (hend : offset + len ≤ src.fileSize) {v : ReadState}
    (hv : src.spanComplete offset len v) {byte : Int}
    (h1 : src.mapper.fileOffset + offset ≤ byte)
    (h2 : byte ≤ src.mapper.fileOffset + offset + len - 1) :
    v.avail.isComplete (byte / src.mapper.fs.pieceLength) = true := by
  unfold fileSize at hend
  have hmem := ByteRangeMapper.piece_mem_map hm ⟨offset, offset + len - 1⟩ h0
    (by simp only; omega) (by simp only; omega) h1 (by simp only; omega)
  exact (PieceAvailabilityIndex.isSpanComplete_eq_true_iff _ _).mp hv _ hmem.1 hmem.2

/-- The file on disk agrees with its final content `D` wherever a piece is complete. -/
def HoldsPieces (D : List Byte) (avail : PieceAvailabilityIndex) (file : List Byte) : Prop :=
  ∀ i : Nat, avail.isComplete ((src.mapper.fileOffset + i) / src.mapper.fs.pieceLength) = true →
    file[i]? = D[i]?

def FindsPieces (D : List Byte) (s : ReadState) (a : Action) : Prop :=
  ∀ file, a = .readFile (some file) → src.HoldsPieces D s.avail file

theorem readFromDisk_of_holdsPieces (hm : src.mapper.WellFormed) (h0 : 0 ≤ offset)
    (hlen : 1 ≤ len) (hend : offset + len ≤ src.fileSize) {D file data : List Byte}
    {s : ReadState} (hs : src.spanComplete offset len s) (hfile : src.HoldsPieces D s.avail file)
    (hread : readFromDisk (some file) offset len = .ok data) :
    data = (D.drop offset.toNat).take len.toNat := by
  have hneg : ¬offset < 0 := by omega
  simp only [readFromDisk, if_neg hneg, Except.ok.injEq] at hread
  rw [← hread]
  apply List.ext_getElem?
  intro i
  by_cases hi : i < len.toNat
  · rw [List.getElem?_take_of_lt hi, List.getElem?_take_of_lt hi, List.getElem?_drop,
      List.getElem?_drop]
    apply hfile
    apply src.byte_complete_of_spanComplete offset len hm h0 hlen hend hs
    · omega
    · omega
  · rw [List.getElem?_take_eq_none (by omega), List.getElem?_take_eq_none (by omega)]

/-- The run has read `data` from the file, after its wait. -/
def Fetched (s0 : ReadState) (acts : List Action) (data : List Byte) : Prop :=
  ∃ pre file post u, acts = pre ++ .readFile file :: post ∧
    (src.reader offset len).exec s0 pre = some u ∧ u.pc = .reading ∧
    readFromDisk file offset len = .ok data

theorem fetched_of_done {s0 s : ReadState} {acts : List Action} {data : List Byte}
    (hentry : s0.pc = .entry) (hs : (src.reader offset len).exec s0 acts = some s)
    (hpc : s.pc = .done (.ok data)) : src.Fetched offset len s0 acts data := by
  revert hpc
  apply Runs.System.exec_history _
    (fun acts s => s.pc = .done (.ok data) → src.Fetched offset len s0 acts data) _ _ hs
  · intro hpc
    rw [hentry] at hpc
    cases hpc
  · intro es u a u' hu ih hn hpc
    have hn : src.next offset len u a = some u' := hn
    cases a with
    | outside call =>
      cases hn
      have hsame : (u.apply call).pc = u.pc := by cases call <;> rfl
      obtain ⟨pre, file, post, v, rfl, hv⟩ := ih (hsame ▸ hpc)
      exact ⟨pre, file, post ++ [.outside call], v, by simp, hv⟩
    | step =>
      obtain ⟨pc, hadv, rfl⟩ := Option.map_eq_some_iff.mp hn
      have hdone : pc = .done (.ok data) := hpc
      exact absurd (hdone ▸ hadv) (src.advance_ne_ok offset len u u.pc data)
    | wake | timeout =>
      simp only [next] at hn
      split at hn <;> cases hn
      cases hpc
    | readFile file =>
      simp only [next] at hn
      split at hn <;> cases hn
      rename_i hreading
      exact ⟨es, file, [], u, rfl, hu, hreading, Pc.done.inj hpc⟩

theorem nonneg_of_readFromDisk {file : Option (List Byte)} {data : List Byte}
    (h : readFromDisk file offset len = .ok data) : 0 ≤ offset := by
  cases file with
  | none => cases h
  | some bytes =>
    by_contra hneg
    simp only [readFromDisk, if_pos (Int.not_le.mp hneg)] at h
    cases h

/-- A read that succeeds while the file is downloading returns the final bytes. -/
theorem read_returns_final (hm : src.mapper.WellFormed) (hlen : 1 ≤ len)
    (hend : offset + len ≤ src.fileSize) {D data : List Byte} {s0 s : ReadState}
    {acts : List Action} (hentry : s0.pc = .entry)
    (hs : (src.reader offset len).exec s0 acts = some s)
    (hfinds : (src.reader offset len).EachStep (src.FindsPieces D) s0 acts)
    (hpc : s.pc = .done (.ok data)) : data = (D.drop offset.toNat).take len.toNat := by
  obtain ⟨pre, file, post, u, hacts, hu, hreading, hread⟩ :=
    src.fetched_of_done offset len hentry hs hpc
  have hcomplete : src.spanComplete offset len u := by
    have hsound := src.sound_exec offset len hentry hu
    have htook := (hsound.served (Or.inl hreading)).mono _ fun a b hb => hb.2.2
    exact htook.remains _ (fun a e b ha hb => src.spanComplete_next offset len ha hb) hu
  have h0 := nonneg_of_readFromDisk offset len hread
  cases file with
  | none => cases hread
  | some file =>
    have hfile : src.HoldsPieces D u.avail file := hfinds pre _ post u hacts hu file rfl
    exact src.readFromDisk_of_holdsPieces offset len hm h0 hlen hend hcomplete hfile hread

/-- No byte is served before its piece is complete; a complete span is served without a
timeout and stays complete; a cancelled source serves nothing. -/
theorem read_serves_downloaded (hm : src.mapper.WellFormed) (hlen : 1 ≤ len)
    (hend : offset + len ≤ src.fileSize) (w : ReadState) (history : List Outside) :
    (∀ acts s data, (src.reader offset len).exec (started w history) acts = some s →
      s.pc = .done (.ok data) →
      (src.reader offset len).Took (fun u v => WaitEnds u v ∧ v.cancelled = false ∧
        ∀ byte, src.mapper.fileOffset + offset ≤ byte →
          byte ≤ src.mapper.fileOffset + offset + len - 1 →
          v.avail.isComplete (byte / src.mapper.fs.pieceLength) = true)
        (started w history) acts) ∧
    (src.isAvailable (started w history).avail offset len = true →
      (started w history).cancelled = false →
      ∀ acts s, (∀ a ∈ acts, a ≠ .outside .cancel) →
        (src.reader offset len).exec (started w history) acts = some s →
        s.pc ≠ .done (.error .timeoutWaitingForPiece)) ∧
    (src.isAvailable w.avail offset len = true →
      src.isAvailable (history.foldl ReadState.apply w).avail offset len = true) ∧
    (.cancel ∈ history →
      ∀ acts s, (src.reader offset len).exec (started w history) acts = some s →
        s.pc = .done (.error .cancelled) ∨
          s.pc = .entry ∧ src.next offset len s .step =
            some { s with pc := .done (.error .cancelled) }) := by
  refine ⟨?_, ?_, fun h => src.spanComplete_foldl offset len h, ?_⟩
  · intro acts s data hs hpc
    have hsound := src.sound_exec offset len rfl hs
    obtain ⟨pre, file, post, _, _, _, _, hread⟩ := src.fetched_of_done offset len rfl hs hpc
    have h0 := nonneg_of_readFromDisk offset len hread
    refine (hsound.served (Or.inr ⟨data, hpc⟩)).mono _ ?_
    intro u v hv
    refine ⟨hv.1, hv.2.1, ?_⟩
    intro byte h1 h2
    exact src.byte_complete_of_spanComplete offset len hm h0 hlen hend hv.2.2 h1 h2
  · intro havail hclear acts s hacts hs
    exact src.not_timeout_of_ready offset len ⟨havail, hclear, trivial⟩ hacts hs
  · intro hcancel acts s hs
    have href : Refused s := by
      apply Runs.System.exec_invariant_of_step _ _ _ hs
      · intro u a u' hu hn
        exact src.refused_next offset len hu hn
      · exact ⟨cancelled_foldl (Or.inr hcancel), Or.inl rfl⟩
    rcases href.pc with he | hd
    · refine Or.inr ⟨he, ?_⟩
      simp [next, advance, he, href.cancelled]
    · exact Or.inl hd

end Reader

def tenBytes : ByteSource where
  addr := 0
  handle := ⟨0, "downloads".toList⟩
  fileIdx := 0
  filePath := "downloads/a.mp4".toList
  mapper := ⟨.ofFiles 4 [⟨"a.mp4".toList, 10⟩], 0⟩

/-- The middle byte of the file, read once its piece completes during the wait. -/
theorem read_serves_downloaded_tenBytes :
    (tenBytes.reader 5 1).Took (fun u v => WaitEnds u v ∧ v.cancelled = false ∧
      ∀ byte, 5 ≤ byte → byte ≤ 5 → v.avail.isComplete (byte / 4) = true)
      (started ⟨.reset 3 4 2, false, .entry⟩ [])
      [.step, .step, .step, .outside (.markComplete 1), .wake, .step, .step, .step, .step,
        .readFile (some [0, 1, 2, 3, 4, 5, 6, 7, 8, 9])] := by
  have hm : tenBytes.mapper.WellFormed :=
    ⟨FileStorage.wellFormed_ofFiles (by decide) (by decide), by decide, by decide⟩
  have h := read_serves_downloaded tenBytes 5 1 hm (by decide) (by decide)
    ⟨.reset 3 4 2, false, .entry⟩ []
  exact h.1 _ _ [5] rfl rfl

end ByteSource

end SeekServe
