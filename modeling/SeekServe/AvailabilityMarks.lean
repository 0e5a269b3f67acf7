import SeekServe.Lib.Runs
import SeekServe.PieceAvailability

/-!
# Marks from several threads

A call of `mark_complete` sets the flag with one step and counts it with another. The calls of
any number of threads are interleaved; a reset waits until none is in progress.
-/

namespace SeekServe

set_option autoImplicit false

namespace PieceAvailabilityIndex
variable {a b : PieceAvailabilityIndex}

theorem length_set_completed (a : PieceAvailabilityIndex) (piece : Int) :
    (a.completed.set piece.toNat true).length = a.numPieces.toNat := by
  rw [List.length_set]
  exact a.size_eq

/-- `completed_[piece].compare_exchange_strong(false, true)`; `none` when the flag was set. -/
def compareExchange (a : PieceAvailabilityIndex) (piece : Int) : Option PieceAvailabilityIndex :=
  if a.flag piece then none
  else
    some
      { a with
        completed := a.completed.set piece.toNat true
        size_eq := a.length_set_completed piece }

/-- `completed_count_.fetch_add(1)` -/
def fetchAdd (a : PieceAvailabilityIndex) : PieceAvailabilityIndex :=
  { a with completedCount := a.completedCount + 1 }

/-- The steps of one call, with no other call in between. -/
theorem markComplete_eq (a : PieceAvailabilityIndex) (p : Int) :
    a.markComplete p =
      if a.inRange p then
        match a.compareExchange p with
        | some b => b.fetchAdd
        | none => a
      else a := by
  unfold markComplete compareExchange
  by_cases hp : a.inRange p
  · by_cases hf : a.flag p = true
    · rw [if_pos hp, if_pos hp, if_pos hf, if_pos hf]
    · rw [if_pos hp, if_pos hp, if_neg hf, if_neg hf]
      rfl
  · rw [if_neg hp, if_neg hp]

/-- The pieces that are reported complete. -/
def completePieces (a : PieceAvailabilityIndex) : Finset Int :=
  ((Finset.range a.numPieces.toNat).image Int.ofNat).filter fun p => a.isComplete p = true

theorem inRange_of_isComplete {p : Int} (h : a.isComplete p = true) : a.inRange p := by
  by_contra hp
  rw [isComplete, if_neg hp] at h
  cases h

theorem mem_completePieces {p : Int} : p ∈ a.completePieces ↔ a.isComplete p = true := by
  unfold completePieces
  rw [Finset.mem_filter, Finset.mem_image]
  constructor
  · exact And.right
  · intro h
    obtain ⟨h0, hlt⟩ := inRange_of_isComplete h
    refine ⟨⟨p.toNat, ?_, Int.toNat_of_nonneg h0⟩, h⟩
    rw [Finset.mem_range]
    omega

theorem card_completePieces_le : (a.completePieces.card : Int) ≤ max 0 a.numPieces := by
  have hfilter := Finset.card_filter_le ((Finset.range a.numPieces.toNat).image Int.ofNat)
    fun p => a.isComplete p = true
  have himage := Finset.card_image_le (s := Finset.range a.numPieces.toNat) (f := Int.ofNat)
  rw [Finset.card_range] at himage
  unfold completePieces
  omega

theorem isComplete_reset (n l last p : Int) : (reset n l last).isComplete p = false := by
  unfold isComplete
  split
  · unfold flag reset
    rw [List.getD_eq_getElem?_getD, List.getElem?_replicate]
    split <;> rfl
  · rfl

theorem completePieces_reset (n l last : Int) : (reset n l last).completePieces = ∅ := by
  apply Finset.eq_empty_of_forall_notMem
  intro p hp
  rw [mem_completePieces, isComplete_reset] at hp
  cases hp

/-- An exchange that succeeds completes the piece, which was not complete. -/
theorem compareExchange_some {p : Int} (hp : a.inRange p) (h : a.compareExchange p = some b) :
    (b.numPieces = a.numPieces ∧ b.pieceLength = a.pieceLength ∧
        b.lastPieceLength = a.lastPieceLength ∧ b.completedCount = a.completedCount) ∧
      (∀ q, b.isComplete q = true ↔ q = p ∨ a.isComplete q = true) ∧
      a.isComplete p = false := by
  have hmark : a.markComplete p = b.fetchAdd := by
    rw [markComplete_eq, if_pos hp, h]
  have hcomplete : ∀ q, b.isComplete q = (a.markComplete p).isComplete q := by
    intro q
    rw [hmark]
    rfl
  unfold compareExchange at h
  split at h
  · cases h
  · rename_i hflag
    cases h
    refine ⟨⟨rfl, rfl, rfl, rfl⟩, ?_, ?_⟩
    · intro q
      rw [hcomplete, isComplete_markComplete, and_iff_left hp]
    · rw [isComplete, if_pos hp]
      exact Bool.eq_false_of_not_eq_true hflag

theorem isComplete_of_compareExchange_none {p : Int} (hp : a.inRange p)
    (h : a.compareExchange p = none) : a.isComplete p = true := by
  unfold compareExchange at h
  split at h
  · rename_i hflag
    rw [isComplete, if_pos hp]
    exact hflag
  · cases h

theorem completePieces_of_compareExchange {p : Int} (hp : a.inRange p)
    (h : a.compareExchange p = some b) :
    b.completePieces.card = a.completePieces.card + 1 := by
  obtain ⟨-, hiff, hnew⟩ := compareExchange_some hp h
  have hinsert : b.completePieces = insert p a.completePieces := by
    ext q
    rw [Finset.mem_insert, mem_completePieces, mem_completePieces, hiff]
  rw [hinsert, Finset.card_insert_of_notMem]
  rw [mem_completePieces, hnew]
  exact Bool.false_ne_true

theorem count_markComplete (h : a.completedCount = (a.completePieces.card : Int)) (p : Int) :
    (a.markComplete p).completedCount = ((a.markComplete p).completePieces.card : Int) := by
  rw [markComplete_eq]
  by_cases hp : a.inRange p
  · rw [if_pos hp]
    cases hx : a.compareExchange p with
    | none => exact h
    | some b =>
      have hsame := (compareExchange_some hp hx).1.2.2.2
      have hcard := completePieces_of_compareExchange hp hx
      change b.completedCount + 1 = (b.completePieces.card : Int)
      omega
  · rw [if_neg hp]
    exact h

theorem count_foldl_markComplete (marks : List Int)
    (h : a.completedCount = (a.completePieces.card : Int)) :
    (marks.foldl markComplete a).completedCount =
      ((marks.foldl markComplete a).completePieces.card : Int) := by
  induction marks generalizing a with
  | nil => exact h
  | cons p marks ih => exact ih (count_markComplete h p)

theorem geometry_foldl_markComplete (marks : List Int) :
    (marks.foldl markComplete a).numPieces = a.numPieces ∧
      (marks.foldl markComplete a).pieceLength = a.pieceLength ∧
      (marks.foldl markComplete a).lastPieceLength = a.lastPieceLength := by
  induction marks generalizing a with
  | nil => exact ⟨rfl, rfl, rfl⟩
  | cons p marks ih =>
    obtain ⟨hnum, hlen, hlast⟩ := ih (a := a.markComplete p)
    have hstep : (a.markComplete p).pieceLength = a.pieceLength ∧
        (a.markComplete p).lastPieceLength = a.lastPieceLength := by
      unfold markComplete
      split
      · split
        · exact ⟨rfl, rfl⟩
        · exact ⟨rfl, rfl⟩
      · exact ⟨rfl, rfl⟩
    exact ⟨hnum.trans (a.numPieces_markComplete p), hlen.trans hstep.1, hlast.trans hstep.2⟩

/-- The flags are what `is_complete` says of the pieces that exist. -/
theorem completed_eq (hnum : a.numPieces = b.numPieces)
    (h : ∀ p, a.isComplete p = true ↔ b.isComplete p = true) : a.completed = b.completed := by
  have hlength : a.completed.length = b.completed.length := by
    rw [a.size_eq, b.size_eq, hnum]
  apply List.ext_getElem hlength
  intro i h1 h2
  have hsize := a.size_eq
  have hia : a.inRange i := ⟨by omega, by omega⟩
  have hib : b.inRange i := ⟨by omega, by omega⟩
  have hi := h i
  simp only [isComplete, if_pos hia, if_pos hib, flag, Int.toNat_natCast,
    List.getD_eq_getElem _ _ h1, List.getD_eq_getElem _ _ h2] at hi
  exact Bool.eq_iff_iff.mpr hi

theorem eq_of_isComplete
    (hsame : a.numPieces = b.numPieces ∧ a.pieceLength = b.pieceLength ∧
      a.lastPieceLength = b.lastPieceLength)
    (h : ∀ p, a.isComplete p = true ↔ b.isComplete p = true)
    (ha : a.completedCount = (a.completePieces.card : Int))
    (hb : b.completedCount = (b.completePieces.card : Int)) : a = b := by
  have hflags := completed_eq hsame.1 h
  have hcard : a.completePieces = b.completePieces := by
    ext p
    rw [mem_completePieces, mem_completePieces, h]
  have hcount : a.completedCount = b.completedCount := by
    rw [ha, hb, hcard]
  obtain ⟨hnum, hlen, hlast⟩ := hsame
  cases a
  cases b
  simp only at hnum hlen hlast hflags hcount
  subst hnum hlen hlast hflags hcount
  rfl

end PieceAvailabilityIndex

namespace AvailabilityMarks

/-- Where a call of `mark_complete` is. -/
inductive Call where
  | entered (piece : Int)
  | comparing (piece : Int)
  | counting
  | finished
  deriving DecidableEq, Repr

structure State where
  index : PieceAvailabilityIndex
  calls : List Call

inductive Action where
  | reset (numPieces : Nat) (pieceLength lastPieceLength : Int)
  | call (piece : Int)
  | step (i : Nat)
  deriving DecidableEq, Repr

def callStep (a : PieceAvailabilityIndex) : Call → Option (PieceAvailabilityIndex × Call)
  | .entered piece => some (a, if a.inRange piece then .comparing piece else .finished)
  | .comparing piece =>
    match a.compareExchange piece with
    | some b => some (b, .counting)
    | none => some (a, .finished)
  | .counting => some (a.fetchAdd, .finished)
  | .finished => none

def next (s : State) : Action → Option State
  | .reset numPieces pieceLength lastPieceLength =>
    if s.calls.all (· == .finished) then
      some { s with index := .reset numPieces pieceLength lastPieceLength }
    else none
  | .call piece => some { s with calls := s.calls ++ [.entered piece] }
  | .step i =>
    match s.calls[i]? with
    | none => none
    | some c => (callStep s.index c).map fun r => ⟨r.1, s.calls.set i r.2⟩

def system : Runs.System State Action := ⟨next⟩

/-- The index that the default constructor makes. -/
def initial : State := ⟨.reset 0 0 0, []⟩

/-- The calls that have set a flag and not counted it yet. -/
def State.pending (s : State) : Nat := s.calls.countP (· == .counting)

/-- No call is in progress. -/
def Quiet (s : State) : Prop := ∀ c ∈ s.calls, c = .finished

instance (s : State) : Decidable (Quiet s) := inferInstanceAs (Decidable (∀ c ∈ s.calls, c = _))

/-- The last reset, and the pieces of the calls since then. -/
structure History where
  numPieces : Nat := 0
  pieceLength : Int := 0
  lastPieceLength : Int := 0
  marks : List Int := []
  deriving DecidableEq, Repr

def History.note (h : History) : Action → History
  | .reset numPieces pieceLength lastPieceLength =>
    ⟨numPieces, pieceLength, lastPieceLength, []⟩
  | .call piece => { h with marks := piece :: h.marks }
  | .step _ => h

def history (acts : List Action) : History := acts.foldl History.note {}

/-- The counter lags behind the flags by the calls that have not counted yet; a piece is
complete, or a call for it is on its way to the flag. -/
structure Inv (h : History) (s : State) : Prop where
  numPieces : s.index.numPieces = h.numPieces
  pieceLength : s.index.pieceLength = h.pieceLength
  lastPieceLength : s.index.lastPieceLength = h.lastPieceLength
  count : s.index.completedCount + s.pending = (s.index.completePieces.card : Int)
  marked : ∀ p, s.index.isComplete p = true → p ∈ h.marks
  underWay : ∀ p, .entered p ∈ s.calls ∨ .comparing p ∈ s.calls → p ∈ h.marks
  checked : ∀ p, .comparing p ∈ s.calls → s.index.inRange p
  arrives : ∀ p ∈ h.marks, s.index.inRange p →
    s.index.isComplete p = true ∨ .entered p ∈ s.calls ∨ .comparing p ∈ s.calls

theorem pending_of_quiet {s : State} (hs : Quiet s) : s.pending = 0 := by
  unfold State.pending
  rw [List.countP_eq_zero]
  intro c hc
  rw [hs c hc]
  decide

theorem inv_reset (numPieces : Nat) (pieceLength lastPieceLength : Int) {s : State}
    (hquiet : Quiet s) :
    Inv ⟨numPieces, pieceLength, lastPieceLength, []⟩
      { s with index := .reset numPieces pieceLength lastPieceLength } := by
  have hnone : ∀ c : Call, c ≠ .finished → c ∉ s.calls := fun c hc hm => hc (hquiet c hm)
  constructor
  · rfl
  · rfl
  · rfl
  · have hcount : State.pending { s with index := .reset numPieces pieceLength lastPieceLength } =
        0 := pending_of_quiet hquiet
    rw [PieceAvailabilityIndex.completePieces_reset, hcount]
    rfl
  · intro p hp
    rw [PieceAvailabilityIndex.isComplete_reset] at hp
    cases hp
  · intro p hp
    rcases hp with hp | hp
    · exact absurd hp (hnone _ (by simp))
    · exact absurd hp (hnone _ (by simp))
  · intro p hp
    exact absurd hp (hnone _ (by simp))
  · intro p hp
    exact absurd hp List.not_mem_nil

theorem inv_call {h : History} {s : State} (hs : Inv h s) (p : Int) :
    Inv (h.note (.call p)) { s with calls := s.calls ++ [.entered p] } := by
  have hmem : ∀ c : Call, c ∈ s.calls ++ [Call.entered p] ↔ c ∈ s.calls ∨ c = .entered p := by
    intro c
    rw [List.mem_append, List.mem_singleton]
  constructor
  · exact hs.numPieces
  · exact hs.pieceLength
  · exact hs.lastPieceLength
  · have hcount : State.pending { s with calls := s.calls ++ [.entered p] } = s.pending := by
      simp [State.pending]
    rw [hcount]
    exact hs.count
  · intro q hq
    exact List.mem_cons_of_mem p (hs.marked q hq)
  · intro q hq
    simp only [hmem, Call.entered.injEq, reduceCtorEq, or_false] at hq
    rcases hq with (hq | rfl) | hq
    · exact List.mem_cons_of_mem p (hs.underWay q (.inl hq))
    · exact List.mem_cons_self
    · exact List.mem_cons_of_mem p (hs.underWay q (.inr hq))
  · intro q hq
    simp only [hmem, reduceCtorEq, or_false] at hq
    exact hs.checked q hq
  · intro q hq hrange
    simp only [hmem, Call.entered.injEq, reduceCtorEq, or_false]
    rcases List.mem_cons.mp hq with rfl | hq
    · exact .inr (.inl (.inr rfl))
    · rcases hs.arrives q hq hrange with hc | hc | hc
      · exact .inl hc
      · exact .inr (.inl (.inl hc))
      · exact .inr (.inr hc)

section Step
variable {h : History} {s : State} {i : Nat}

theorem mem_set_of_mem {c old new : Call} (hi : s.calls[i]? = some old) (hm : c ∈ s.calls)
    (hne : c ≠ old) : c ∈ s.calls.set i new := by
  obtain ⟨j, hj, rfl⟩ := List.getElem_of_mem hm
  obtain ⟨hlt, hold⟩ := List.getElem?_eq_some_iff.mp hi
  have hij : i ≠ j := by
    rintro rfl
    exact hne hold
  have hj' : j < (s.calls.set i new).length := by
    rw [List.length_set]
    exact hj
  rw [← List.getElem_set_ne hij hj']
  exact List.getElem_mem hj'

theorem pending_set {old : Call} (hi : s.calls[i]? = some old) (b : PieceAvailabilityIndex)
    (new : Call) :
    State.pending ⟨b, s.calls.set i new⟩ + (if old = .counting then 1 else 0) =
      s.pending + if new = .counting then 1 else 0 := by
  have hcount := Runs.countP_set_of_getElem (p := (· == Call.counting)) new hi
  simp only [beq_iff_eq] at hcount
  exact hcount

theorem inv_entered (hs : Inv h s) {p : Int} (hi : s.calls[i]? = some (.entered p)) {new : Call}
    (hnew : new = if s.index.inRange p then .comparing p else .finished) :
    Inv h ⟨s.index, s.calls.set i new⟩ := by
  have hp : p ∈ h.marks := hs.underWay p (.inl (List.mem_of_getElem? hi))
  have hcount := pending_set hi s.index new
  have hquiet : new ≠ .counting := by
    subst new
    split <;> simp
  rw [if_neg (by simp), if_neg hquiet] at hcount
  constructor
  · exact hs.numPieces
  · exact hs.pieceLength
  · exact hs.lastPieceLength
  · rw [show State.pending _ = s.pending from hcount]
    exact hs.count
  · exact hs.marked
  · intro q hq
    rcases hq with hq | hq
    · rcases List.mem_or_eq_of_mem_set hq with hq | rfl
      · exact hs.underWay q (.inl hq)
      · split at hnew <;> cases hnew
    · rcases List.mem_or_eq_of_mem_set hq with hq | rfl
      · exact hs.underWay q (.inr hq)
      · split at hnew <;> cases hnew
        exact hp
  · intro q hq
    rcases List.mem_or_eq_of_mem_set hq with hq | rfl
    · exact hs.checked q hq
    · split at hnew <;> cases hnew
      assumption
  · intro q hq hrange
    rcases hs.arrives q hq hrange with hc | hc | hc
    · exact .inl hc
    · by_cases hqp : q = p
      · subst q
        rw [if_pos hrange] at hnew
        refine .inr (.inr ?_)
        rw [← hnew]
        exact List.mem_set (List.getElem?_eq_some_iff.mp hi).1 new
      · refine .inr (.inl (mem_set_of_mem hi hc ?_))
        intro heq
        exact hqp (Call.entered.inj heq)
    · exact .inr (.inr (mem_set_of_mem hi hc (by simp)))

/-- A call that is past the flag: its piece, if it came from the exchange, is complete. -/
theorem inv_passed (hs : Inv h s) {old new : Call} (hi : s.calls[i]? = some old)
    (hnew : new = .counting ∨ new = .finished) {b : PieceAvailabilityIndex}
    (hsame : b.numPieces = s.index.numPieces ∧ b.pieceLength = s.index.pieceLength ∧
      b.lastPieceLength = s.index.lastPieceLength)
    (hcount : b.completedCount + State.pending ⟨b, s.calls.set i new⟩ =
      (b.completePieces.card : Int))
    (hflags : ∀ q, b.isComplete q = true ↔ s.index.isComplete q = true ∨ old = .comparing q)
    (hpast : ∀ q, old ≠ .entered q) : Inv h ⟨b, s.calls.set i new⟩ := by
  obtain ⟨hnum, hlen, hlast⟩ := hsame
  have hkept : ∀ q, b.inRange q ↔ s.index.inRange q := by
    intro q
    unfold PieceAvailabilityIndex.inRange
    rw [hnum]
  have hmem : ∀ c : Call, c ≠ .counting → c ≠ .finished → c ∈ s.calls.set i new →
      c ∈ s.calls := by
    intro c hc hf hm
    apply (List.mem_or_eq_of_mem_set hm).resolve_right
    rcases hnew with rfl | rfl
    · exact hc
    · exact hf
  constructor
  · exact hnum.trans hs.numPieces
  · exact hlen.trans hs.pieceLength
  · exact hlast.trans hs.lastPieceLength
  · exact hcount
  · intro q hq
    rcases (hflags q).mp hq with hq | rfl
    · exact hs.marked q hq
    · exact hs.underWay q (.inr (List.mem_of_getElem? hi))
  · intro q hq
    apply hs.underWay q
    rcases hq with hq | hq
    · exact .inl (hmem _ (by simp) (by simp) hq)
    · exact .inr (hmem _ (by simp) (by simp) hq)
  · intro q hq
    exact (hkept q).mpr (hs.checked q (hmem _ (by simp) (by simp) hq))
  · intro q hq hrange
    rcases hs.arrives q hq ((hkept q).mp hrange) with hc | hc | hc
    · exact .inl ((hflags q).mpr (.inl hc))
    · exact .inr (.inl (mem_set_of_mem hi hc (hpast q).symm))
    · by_cases hold : old = .comparing q
      · exact .inl ((hflags q).mpr (.inr hold))
      · exact .inr (.inr (mem_set_of_mem hi hc (Ne.symm hold)))

/-- The exchange succeeds: one more piece is complete, and one more call has to count. -/
theorem inv_exchanged (hs : Inv h s) {p : Int} (hi : s.calls[i]? = some (.comparing p))
    {b : PieceAvailabilityIndex} (hb : s.index.compareExchange p = some b) :
    Inv h ⟨b, s.calls.set i .counting⟩ := by
  have hp := hs.checked p (List.mem_of_getElem? hi)
  obtain ⟨⟨hnum, hlen, hlast, hsame⟩, hiff, -⟩ :=
    PieceAvailabilityIndex.compareExchange_some hp hb
  apply inv_passed hs hi (.inl rfl) ⟨hnum, hlen, hlast⟩
  · have hcard := PieceAvailabilityIndex.completePieces_of_compareExchange hp hb
    have hcount := pending_set hi b .counting
    rw [if_neg (by simp), if_pos rfl] at hcount
    have hold := hs.count
    omega
  · intro q
    rw [hiff, Call.comparing.injEq, or_comm, eq_comm (a := q)]
  · intro q
    simp

/-- The flag was set before: the call ends without counting. -/
theorem inv_found (hs : Inv h s) {p : Int} (hi : s.calls[i]? = some (.comparing p))
    (hc : s.index.isComplete p = true) : Inv h ⟨s.index, s.calls.set i .finished⟩ := by
  apply inv_passed hs hi (.inr rfl) ⟨rfl, rfl, rfl⟩
  · have hcount := pending_set hi s.index .finished
    rw [if_neg (by simp), if_neg (by simp)] at hcount
    rw [show State.pending _ = s.pending from hcount]
    exact hs.count
  · intro q
    rw [Call.comparing.injEq]
    constructor
    · exact .inl
    · rintro (hq | rfl)
      · exact hq
      · exact hc
  · intro q
    simp

/-- A call counts the flag that it has set. -/
theorem inv_counted (hs : Inv h s) (hi : s.calls[i]? = some .counting) :
    Inv h ⟨s.index.fetchAdd, s.calls.set i .finished⟩ := by
  refine inv_passed hs hi (.inr rfl) (b := s.index.fetchAdd) ⟨rfl, rfl, rfl⟩ ?_ ?_ ?_
  · have hcount := pending_set hi s.index.fetchAdd .finished
    rw [if_pos rfl, if_neg (by simp)] at hcount
    have hold := hs.count
    change s.index.completedCount + 1 + _ = (s.index.completePieces.card : Int)
    omega
  · intro q
    rw [or_iff_left (by simp)]
    rfl
  · intro q
    simp

end Step

theorem callStep_eq {a : PieceAvailabilityIndex} {c : Call}
    {r : PieceAvailabilityIndex × Call} (hr : callStep a c = some r) :
    (∃ p, c = .entered p ∧ r = (a, if a.inRange p then .comparing p else .finished)) ∨
      (∃ p, c = .comparing p ∧ ∃ b, a.compareExchange p = some b ∧ r = (b, .counting)) ∨
      (∃ p, c = .comparing p ∧ a.compareExchange p = none ∧ r = (a, .finished)) ∨
      (c = .counting ∧ r = (a.fetchAdd, .finished)) := by
  cases c with
  | entered p =>
    cases hr
    exact .inl ⟨p, rfl, rfl⟩
  | comparing p =>
    simp only [callStep] at hr
    split at hr
    · rename_i b hb
      cases hr
      exact .inr (.inl ⟨p, rfl, b, hb, rfl⟩)
    · rename_i hb
      cases hr
      exact .inr (.inr (.inl ⟨p, rfl, hb, rfl⟩))
  | counting =>
    cases hr
    exact .inr (.inr (.inr ⟨rfl, rfl⟩))
  | finished => cases hr

/-- What one step does, guards included. -/
theorem next_cases {s s' : State} {e : Action} (hn : next s e = some s') :
    (∃ n l last, e = .reset n l last ∧ Quiet s ∧ s' = { s with index := .reset n l last }) ∨
      (∃ p, e = .call p ∧ s' = { s with calls := s.calls ++ [.entered p] }) ∨
      (∃ i c r, e = .step i ∧ s.calls[i]? = some c ∧ callStep s.index c = some r ∧
        s' = ⟨r.1, s.calls.set i r.2⟩) := by
  cases e with
  | reset n l last =>
    simp only [next] at hn
    split at hn
    · rename_i hall
      cases hn
      refine .inl ⟨n, l, last, rfl, ?_, rfl⟩
      intro c hc
      exact eq_of_beq (List.all_eq_true.mp hall c hc)
    · cases hn
  | call p =>
    cases hn
    exact .inr (.inl ⟨p, rfl, rfl⟩)
  | step i =>
    simp only [next] at hn
    split at hn
    · cases hn
    · rename_i c hc
      obtain ⟨r, hr, rfl⟩ := Option.map_eq_some_iff.mp hn
      exact .inr (.inr ⟨i, c, r, rfl, hc, hr, rfl⟩)

theorem inv_next {h : History} {s s' : State} {e : Action} (hs : Inv h s)
    (hn : next s e = some s') : Inv (h.note e) s' := by
  rcases next_cases hn with ⟨n, l, last, rfl, hquiet, rfl⟩ | ⟨p, rfl, rfl⟩ |
    ⟨i, c, r, rfl, hi, hr, rfl⟩
  · exact inv_reset n l last hquiet
  · exact inv_call hs p
  · rcases callStep_eq hr with ⟨p, rfl, rfl⟩ | ⟨p, rfl, b, hb, rfl⟩ | ⟨p, rfl, hb, rfl⟩ |
      ⟨rfl, rfl⟩
    · exact inv_entered hs hi rfl
    · exact inv_exchanged hs hi hb
    · have hp := hs.checked p (List.mem_of_getElem? hi)
      exact inv_found hs hi (PieceAvailabilityIndex.isComplete_of_compareExchange_none hp hb)
    · exact inv_counted hs hi

theorem quiet_initial : Quiet initial := fun _ hc => absurd hc List.not_mem_nil

theorem inv_run {acts : List Action} {s : State} (ht : system.exec initial acts = some s) :
    Inv (history acts) s := by
  refine system.exec_history (fun acts s => Inv (history acts) s) ?_ ?_ ht
  · exact inv_reset 0 0 0 quiet_initial
  · intro acts s e s' _ hs hn
    unfold history
    rw [List.foldl_concat]
    exact inv_next hs hn

/-- The same last reset, and the same pieces marked since. -/
structure History.SameMarks (h h' : History) : Prop where
  numPieces : h'.numPieces = h.numPieces
  pieceLength : h'.pieceLength = h.pieceLength
  lastPieceLength : h'.lastPieceLength = h.lastPieceLength
  marks : ∀ p : Int, 0 ≤ p → p < h.numPieces → (p ∈ h'.marks ↔ p ∈ h.marks)

section Settled
variable {h : History} {s : State}

theorem count_of_quiet (hs : Inv h s) (hq : Quiet s) :
    s.index.completedCount = (s.index.completePieces.card : Int) := by
  have hcount := hs.count
  rw [pending_of_quiet hq] at hcount
  omega

theorem isComplete_of_quiet (hs : Inv h s) (hq : Quiet s) (p : Int) :
    s.index.isComplete p = true ↔ (0 ≤ p ∧ p < h.numPieces) ∧ p ∈ h.marks := by
  rw [← hs.numPieces]
  constructor
  · intro hp
    exact ⟨PieceAvailabilityIndex.inRange_of_isComplete hp, hs.marked p hp⟩
  · rintro ⟨hrange, hp⟩
    rcases hs.arrives p hp hrange with hc | hc | hc
    · exact hc
    · cases hq _ hc
    · cases hq _ hc

/-- What the calls leave behind is a function of the set of marks. -/
theorem index_of_quiet {h' : History} {s' : State} (hs : Inv h s) (hs' : Inv h' s') (hq : Quiet s)
    (hq' : Quiet s') (hsame : h.SameMarks h') : s'.index = s.index := by
  have hiff : ∀ p, s'.index.isComplete p = true ↔ s.index.isComplete p = true := by
    intro p
    rw [isComplete_of_quiet hs hq, isComplete_of_quiet hs' hq', hsame.numPieces]
    constructor
    · rintro ⟨hrange, hp⟩
      exact ⟨hrange, (hsame.marks p hrange.1 hrange.2).mp hp⟩
    · rintro ⟨hrange, hp⟩
      exact ⟨hrange, (hsame.marks p hrange.1 hrange.2).mpr hp⟩
  have hnum : s'.index.numPieces = s.index.numPieces := by
    rw [hs.numPieces, hs'.numPieces, hsame.numPieces]
  have hlen : s'.index.pieceLength = s.index.pieceLength := by
    rw [hs.pieceLength, hs'.pieceLength, hsame.pieceLength]
  have hlast : s'.index.lastPieceLength = s.index.lastPieceLength := by
    rw [hs.lastPieceLength, hs'.lastPieceLength, hsame.lastPieceLength]
  exact PieceAvailabilityIndex.eq_of_isComplete ⟨hnum, hlen, hlast⟩ hiff (count_of_quiet hs' hq')
    (count_of_quiet hs hq)

/-- The threads together do what the same marks do one after the other. -/
theorem index_eq_foldl (hs : Inv h s) (hq : Quiet s) :
    s.index = h.marks.foldl PieceAvailabilityIndex.markComplete
      (.reset h.numPieces h.pieceLength h.lastPieceLength) := by
  let fresh := PieceAvailabilityIndex.reset h.numPieces h.pieceLength h.lastPieceLength
  obtain ⟨hnum, hlen, hlast⟩ :=
    PieceAvailabilityIndex.geometry_foldl_markComplete (a := fresh) h.marks
  apply PieceAvailabilityIndex.eq_of_isComplete
  · exact ⟨hs.numPieces.trans hnum.symm, hs.pieceLength.trans hlen.symm,
      hs.lastPieceLength.trans hlast.symm⟩
  · intro p
    rw [isComplete_of_quiet hs hq, PieceAvailabilityIndex.isComplete_foldl_markComplete,
      PieceAvailabilityIndex.isComplete_reset, or_iff_left Bool.false_ne_true]
    exact and_comm
  · exact count_of_quiet hs hq
  · apply PieceAvailabilityIndex.count_foldl_markComplete
    rw [PieceAvailabilityIndex.completePieces_reset]
    rfl

end Settled

theorem isComplete_next {h : History} {s s' : State} {e : Action} (hs : Inv h s)
    (hn : next s e = some s') (he : ∀ n l last, e ≠ .reset n l last) {p : Int}
    (hp : s.index.isComplete p = true) : s'.index.isComplete p = true := by
  rcases next_cases hn with ⟨n, l, last, rfl, -, -⟩ | ⟨q, rfl, rfl⟩ | ⟨i, c, r, rfl, hi, hr, rfl⟩
  · exact absurd rfl (he n l last)
  · exact hp
  · rcases callStep_eq hr with ⟨q, rfl, rfl⟩ | ⟨q, rfl, b, hb, rfl⟩ | ⟨q, rfl, -, rfl⟩ |
      ⟨rfl, rfl⟩
    · exact hp
    · have hq := hs.checked q (List.mem_of_getElem? hi)
      obtain ⟨-, hiff, -⟩ := PieceAvailabilityIndex.compareExchange_some hq hb
      exact (hiff p).mpr (.inr hp)
    · exact hp
    · exact hp

theorem isComplete_run {h : History} {s t : State} (hs : Inv h s) {more : List Action}
    (ht : system.exec s more = some t) (hmore : ∀ e ∈ more, ∀ n l last, e ≠ .reset n l last)
    {p : Int} (hp : s.index.isComplete p = true) : t.index.isComplete p = true := by
  have hkept := system.exec_invariant (fun u => (∃ h, Inv h u) ∧ u.index.isComplete p = true)
    (fun _ e => ∀ n l last, e ≠ .reset n l last) ?_ ⟨⟨h, hs⟩, hp⟩
    (.of_forall system (fun e he _ => hmore e he) s) ht
  · exact hkept.2
  · rintro u e u' ⟨⟨h, hu⟩, hc⟩ he hn
    exact ⟨⟨h.note e, inv_next hu hn⟩, isComplete_next hu hn he hc⟩

/-- Once every call has ended, the index is the set of the pieces marked since the last reset,
whatever the threads did in between. -/
theorem index_is_set {acts : List Action} {s : State} (ht : system.exec initial acts = some s) :
    (Quiet s →
      s.index.completedCount = (s.index.completePieces.card : Int) ∧
      (0 ≤ s.index.completedCount ∧ s.index.completedCount ≤ (history acts).numPieces) ∧
      (∀ p, s.index.isComplete p = true ↔
        (0 ≤ p ∧ p < (history acts).numPieces) ∧ p ∈ (history acts).marks) ∧
      ∀ acts' s', system.exec initial acts' = some s' → Quiet s' →
        (history acts).SameMarks (history acts') → s'.index = s.index) ∧
    (∀ more t, system.exec s more = some t → (∀ e ∈ more, ∀ n l last, e ≠ .reset n l last) →
      ∀ p, s.index.isComplete p = true → t.index.isComplete p = true) ∧
    ∀ span, s.index.isSpanComplete span = true ↔
      ∀ p, span.first ≤ p → p ≤ span.last → s.index.isComplete p = true := by
  have hs := inv_run ht
  refine ⟨?_, ?_, s.index.isSpanComplete_eq_true_iff⟩
  · intro hq
    have hcount := count_of_quiet hs hq
    have hle := s.index.card_completePieces_le
    rw [hs.numPieces] at hle
    refine ⟨hcount, ⟨by omega, by omega⟩, isComplete_of_quiet hs hq, ?_⟩
    intro acts' s' ht' hq' hsame
    exact index_of_quiet hs (inv_run ht') hq hq' hsame
  · intro more t hmore hreset p hp
    exact isComplete_run hs hmore hreset hp

/-- Two threads mark piece 1 at once, a third marks a piece that does not exist. -/
def racingMarks : List Action :=
  [.reset 3 10 4, .call 1, .call 1, .call 7, .step 0, .step 1, .step 1, .step 0, .step 2, .step 1]

theorem index_is_set_racing :
    ∃ s, system.exec initial racingMarks = some s ∧ Quiet s ∧
      s.index.completedCount = (s.index.completePieces.card : Int) ∧
      (∀ p, s.index.isComplete p = true ↔ (0 ≤ p ∧ p < 3) ∧ p ∈ [7, 1, 1]) ∧
      ∀ acts' s', system.exec initial acts' = some s' → Quiet s' →
        History.SameMarks ⟨3, 10, 4, [7, 1, 1]⟩ (history acts') → s'.index = s.index := by
  have hends : ∀ s ∈ system.exec initial racingMarks, Quiet s := by decide
  obtain ⟨s, hs⟩ := Option.isSome_iff_exists.mp
    (show (system.exec initial racingMarks).isSome = true by decide)
  obtain ⟨hcount, -, hpieces, hother⟩ := (index_is_set hs).1 (hends s hs)
  exact ⟨s, hs, hends s hs, hcount, hpieces, hother⟩

end AvailabilityMarks

end SeekServe
