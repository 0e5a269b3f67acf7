import SeekServe.Types

/-!
# The piece availability index

One flag for every piece, and a count of the flags that are set. A flag is set at
most once and never cleared while the index lives.
-/

namespace SeekServe

set_option autoImplicit false

structure PieceAvailabilityIndex where
  numPieces : Int
  pieceLength : Int
  lastPieceLength : Int
  completed : List Bool
  completedCount : Int
  /-- The flag vector has one flag for every piece. -/
  size_eq : completed.length = numPieces.toNat
  deriving DecidableEq

namespace PieceAvailabilityIndex

def reset (numPieces pieceLength lastPieceLength : Int) : PieceAvailabilityIndex where
  numPieces := numPieces
  pieceLength := pieceLength
  lastPieceLength := lastPieceLength
  completed := List.replicate numPieces.toNat false
  completedCount := 0
  size_eq := List.length_replicate

def inRange (a : PieceAvailabilityIndex) (piece : Int) : Prop :=
  0 ≤ piece ∧ piece < a.numPieces

instance (a : PieceAvailabilityIndex) (piece : Int) : Decidable (a.inRange piece) :=
  inferInstanceAs (Decidable (_ ∧ _))

def flag (a : PieceAvailabilityIndex) (piece : Int) : Bool :=
  a.completed.getD piece.toNat false

/-- The compare-and-set and the counter update as one step. -/
def markComplete (a : PieceAvailabilityIndex) (piece : Int) : PieceAvailabilityIndex :=
  if a.inRange piece then
    if a.flag piece then a
    else
      { a with
        completed := a.completed.set piece.toNat true
        completedCount := a.completedCount + 1
        size_eq := by rw [List.length_set]; exact a.size_eq }
  else a

def isComplete (a : PieceAvailabilityIndex) (piece : Int) : Bool :=
  if a.inRange piece then a.flag piece else false

/-- The loop `for (p = first; p <= last; ++p)` over `n` pieces. -/
def allCompleteFrom (a : PieceAvailabilityIndex) (first : Int) : Nat → Bool
  | 0 => true
  | n + 1 => if a.isComplete first then a.allCompleteFrom (first + 1) n else false

def isSpanComplete (a : PieceAvailabilityIndex) (span : PieceSpan) : Bool :=
  a.allCompleteFrom span.first (span.last - span.first + 1).toNat

def lengthOf (a : PieceAvailabilityIndex) (piece : Int) : Int :=
  if piece = a.numPieces - 1 then a.lastPieceLength else a.pieceLength

/-- The loop of `contiguous_bytes_from`, over `n` pieces. -/
def bytesFrom (a : PieceAvailabilityIndex) (piece : Int) : Nat → Int
  | 0 => 0
  | n + 1 =>
    if a.isComplete piece then a.lengthOf piece + a.bytesFrom (piece + 1) n else 0

def contiguousBytesFrom (a : PieceAvailabilityIndex) (startPiece offsetInPiece : Int) : Int :=
  if a.isComplete startPiece then
    a.lengthOf startPiece - offsetInPiece +
      a.bytesFrom (startPiece + 1) (a.numPieces - (startPiece + 1)).toNat
  else 0

/-- `select_file` marks every piece whose bit libtorrent reports as set. -/
def populate (a : PieceAvailabilityIndex) (getBit : Int → Bool) :
    PieceAvailabilityIndex :=
  (List.range a.numPieces.toNat).foldl
    (fun (a : PieceAvailabilityIndex) (p : Nat) => if getBit p then a.markComplete p else a) a

@[simp] theorem numPieces_markComplete (a : PieceAvailabilityIndex) (p : Int) :
    (a.markComplete p).numPieces = a.numPieces := by
  unfold markComplete
  split <;> try split
  all_goals rfl

theorem inRange_markComplete (a : PieceAvailabilityIndex) (p q : Int) :
    (a.markComplete p).inRange q ↔ a.inRange q := by
  simp [inRange]

theorem flag_markComplete {a : PieceAvailabilityIndex} {p q : Int}
    (hp : a.inRange p) (hq : a.inRange q) :
    (a.markComplete p).flag q = (decide (q = p) || a.flag q) := by
  have hlen := a.size_eq
  obtain ⟨hp0, hpn⟩ := hp
  obtain ⟨hq0, hqn⟩ := hq
  have hq' : q.toNat < a.completed.length := by omega
  unfold markComplete
  rw [if_pos ⟨hp0, hpn⟩]
  by_cases hqp : q = p
  · subst q
    split
    · simp_all
    · simp [flag, List.getD_eq_getElem?_getD, hq']
  · have hne : p.toNat ≠ q.toNat := by omega
    split
    · simp [hqp]
    · simp [flag, List.getD_eq_getElem?_getD, hne, hqp]

/-- Marking a piece adds that piece, when it exists, and nothing else. -/
@[simp] theorem isComplete_markComplete (a : PieceAvailabilityIndex) (p q : Int) :
    (a.markComplete p).isComplete q = true ↔ (q = p ∧ a.inRange p) ∨ a.isComplete q = true := by
  by_cases hp : a.inRange p
  · by_cases hq : a.inRange q
    · simp [isComplete, inRange_markComplete, hq, flag_markComplete hp hq, hp]
    · have hne : q ≠ p := fun h => hq (h ▸ hp)
      simp [isComplete, inRange_markComplete, hq, hne]
  · simp [markComplete, hp]

theorem isComplete_markComplete_of_isComplete {a : PieceAvailabilityIndex} {q : Int}
    (h : a.isComplete q = true) (p : Int) : (a.markComplete p).isComplete q = true :=
  (a.isComplete_markComplete p q).mpr (Or.inr h)

theorem allCompleteFrom_eq_true_iff (a : PieceAvailabilityIndex) (first : Int) (n : Nat) :
    a.allCompleteFrom first n = true ↔
      ∀ p, first ≤ p → p < first + n → a.isComplete p = true := by
  induction n generalizing first with
  | zero =>
    simp only [allCompleteFrom, true_iff]
    intro p h1 h2
    omega
  | succ n ih =>
    simp only [allCompleteFrom]
    by_cases hf : a.isComplete first
    · rw [if_pos hf, ih]
      constructor
      · intro h p h1 h2
        by_cases hp : p = first
        · exact hp ▸ hf
        · exact h p (by omega) (by omega)
      · intro h p h1 h2
        exact h p (by omega) (by omega)
    · rw [if_neg hf]
      constructor
      · intro h
        cases h
      · intro h
        exact absurd (h first (by omega) (by omega)) hf

theorem isSpanComplete_eq_true_iff (a : PieceAvailabilityIndex) (span : PieceSpan) :
    a.isSpanComplete span = true ↔
      ∀ p, span.first ≤ p → p ≤ span.last → a.isComplete p = true := by
  unfold isSpanComplete
  rw [allCompleteFrom_eq_true_iff]
  constructor
  · intro h p h1 h2
    exact h p h1 (by omega)
  · intro h p h1 h2
    exact h p h1 (by omega)

theorem isSpanComplete_markComplete {a : PieceAvailabilityIndex} {span : PieceSpan}
    (h : a.isSpanComplete span = true) (p : Int) :
    (a.markComplete p).isSpanComplete span = true := by
  rw [isSpanComplete_eq_true_iff] at h ⊢
  intro q h1 h2
  exact isComplete_markComplete_of_isComplete (h q h1 h2) p

theorem isComplete_foldl_markComplete (avail : PieceAvailabilityIndex)
    (pieces : List Int) (q : Int) :
    (pieces.foldl markComplete avail).isComplete q = true ↔
      (q ∈ pieces ∧ avail.inRange q) ∨ avail.isComplete q = true := by
  induction pieces generalizing avail with
  | nil => simp
  | cons p pieces ih =>
    rw [List.foldl_cons, ih, isComplete_markComplete, inRange_markComplete, List.mem_cons]
    constructor
    · rintro (⟨hq, hr⟩ | ⟨rfl, hr⟩ | hq)
      · exact .inl ⟨.inr hq, hr⟩
      · exact .inl ⟨.inl rfl, hr⟩
      · exact .inr hq
    · rintro (⟨rfl | hq, hr⟩ | hq)
      · exact .inr (.inl ⟨rfl, hr⟩)
      · exact .inl ⟨hq, hr⟩
      · exact .inr (.inr hq)

theorem isComplete_foldl_mark (getBit : Int → Bool) (ps : List Nat)
    (a : PieceAvailabilityIndex) (q : Int) :
    (ps.foldl (fun (a : PieceAvailabilityIndex) (p : Nat) =>
        if getBit p then a.markComplete p else a) a).isComplete q = true ↔
      (∃ p ∈ ps, q = p ∧ a.inRange q ∧ getBit q = true) ∨ a.isComplete q = true := by
  induction ps generalizing a with
  | nil => simp
  | cons p ps ih =>
    rw [List.foldl_cons, ih]
    by_cases hb : getBit p = true
    · rw [if_pos hb, isComplete_markComplete]
      simp only [inRange_markComplete, List.mem_cons]
      constructor
      · rintro (⟨r, hr, hq⟩ | ⟨rfl, hin⟩ | h)
        · exact Or.inl ⟨r, Or.inr hr, hq⟩
        · exact Or.inl ⟨p, Or.inl rfl, rfl, hin, hb⟩
        · exact Or.inr h
      · rintro (⟨r, rfl | hr, rfl, hin, hq⟩ | h)
        · exact Or.inr (Or.inl ⟨rfl, hin⟩)
        · exact Or.inl ⟨r, hr, rfl, hin, hq⟩
        · exact Or.inr (Or.inr h)
    · rw [if_neg hb]
      simp only [List.mem_cons]
      constructor
      · rintro (⟨r, hr, hq⟩ | h)
        · exact Or.inl ⟨r, Or.inr hr, hq⟩
        · exact Or.inr h
      · rintro (⟨r, rfl | hr, rfl, hin, hq⟩ | h)
        · exact absurd hq hb
        · exact Or.inl ⟨r, hr, rfl, hin, hq⟩
        · exact Or.inr h

/-- The snapshot holds exactly the pieces whose bit was set, and what was there before. -/
theorem isComplete_populate (a : PieceAvailabilityIndex) (getBit : Int → Bool)
    (q : Int) :
    (a.populate getBit).isComplete q = true ↔
      (a.inRange q ∧ getBit q = true) ∨ a.isComplete q = true := by
  unfold populate
  rw [isComplete_foldl_mark]
  constructor
  · rintro (⟨p, _, _, hin, hb⟩ | h)
    · exact Or.inl ⟨hin, hb⟩
    · exact Or.inr h
  · rintro (⟨hin, hb⟩ | h)
    · refine Or.inl ⟨q.toNat, List.mem_range.mpr ?_, ?_, hin, hb⟩
      · have := hin.1
        have := hin.2
        omega
      · have := hin.1
        omega
    · exact Or.inr h

@[simp] theorem numPieces_populate (a : PieceAvailabilityIndex) (getBit : Int → Bool) :
    (a.populate getBit).numPieces = a.numPieces := by
  unfold populate
  generalize List.range a.numPieces.toNat = ps
  induction ps generalizing a with
  | nil => rfl
  | cons p ps ih =>
    rw [List.foldl_cons, ih]
    split
    · exact a.numPieces_markComplete p
    · rfl

end PieceAvailabilityIndex

end SeekServe
