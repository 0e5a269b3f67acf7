import SeekServe.FileStorage
import SeekServe.PieceAvailability

/-!
# The streaming scheduler

Each operation returns the calls it makes on the libtorrent handle. The availability index is
a reference in the code and comes in as an argument; times are steady-clock nanoseconds. Sizes,
deadlines and counts are `int`s; a sum or product that does not fit wraps.
-/

namespace SeekServe

set_option autoImplicit false

/-- What an `int` holds after arithmetic with the result `n`. -/
def wrapInt (n : Int) : Int := (n + 2147483648) % 4294967296 - 2147483648

theorem wrapInt_of_fits {n : Int} (hle : -2 ^ 31 ≤ n) (hlt : n < 2 ^ 31) : wrapInt n = n := by
  unfold wrapInt
  omega

theorem wrapInt_zero : wrapInt 0 = 0 := by decide

theorem wrapInt_le {n : Int} (h : 0 ≤ n) : wrapInt n ≤ n := by
  unfold wrapInt
  omega

theorem wrapInt_add_one (n : Int) : wrapInt (wrapInt n + 1) = wrapInt (n + 1) := by
  unfold wrapInt
  omega

structure SchedulerConfig where
  hotWindowPieces : Int := 5
  lookaheadPieces : Int := 20
  seekBoostPieces : Int := 10
  deadlineBudget : Int := 30
  seekBoostDurationMs : Int := 3000
  minContiguousBytes : Int := 2 * 1024 * 1024
  stallCountThreshold : Int := 3
  minSustainedRate : Rat := 500000
  deriving DecidableEq, Repr

inductive StreamMode where
  | streamingFirst
  | downloadAssist
  | downloadFirst
  deriving DecidableEq, Repr

inductive HandleCall where
  | clearPieceDeadlines
  | setPieceDeadline (piece deadlineMs : Int)
  deriving DecidableEq, Repr

/-- The pieces that hold a deadline, after a call. -/
def HandleCall.apply (deadlines : Finset Int) : HandleCall → Finset Int
  | .clearPieceDeadlines => ∅
  | .setPieceDeadline piece _ => insert piece deadlines

structure StreamingScheduler where
  config : SchedulerConfig
  mapper : ByteRangeMapper
  mode : StreamMode
  playheadPiece : Int
  activeDeadlines : Int
  seekBoosting : Bool
  seekBoostStart : Int
  stallCount : Int

namespace StreamingScheduler

def create (config : SchedulerConfig) (mapper : ByteRangeMapper) (now : Int) :
    StreamingScheduler where
  config := config
  mapper := mapper
  mode := .streamingFirst
  playheadPiece := mapper.firstPiece
  activeDeadlines := 0
  seekBoosting := false
  seekBoostStart := now
  stallCount := 0

def hotSize (s : StreamingScheduler) : Int :=
  let size :=
    if s.seekBoosting then wrapInt (s.config.hotWindowPieces + s.config.seekBoostPieces)
    else s.config.hotWindowPieces
  match s.mode with
  | .streamingFirst | .downloadAssist => size
  | .downloadFirst => max 3 (size.tdiv 2)

def lookaheadSize (s : StreamingScheduler) : Int :=
  match s.mode with
  | .streamingFirst => s.config.lookaheadPieces
  | .downloadAssist => wrapInt (s.config.lookaheadPieces * 2)
  | .downloadFirst => s.hotSize

/-- The pieces that the two loops of `set_deadlines` do not skip. -/
def Wanted (mapper : ByteRangeMapper) (avail : PieceAvailabilityIndex) (p : Int) : Prop :=
  ¬(p < mapper.firstPiece ∨ p ≥ mapper.endPiece) ∧ avail.isComplete p = false

instance (mapper : ByteRangeMapper) (avail : PieceAvailabilityIndex) (p : Int) :
    Decidable (Wanted mapper avail p) := inferInstanceAs (Decidable (_ ∧ _))

/-- One of the two loops, from its round `i` on and with `n` rounds left: the deadlines it
sets and its final count. A piece past the range of `int` is past the file. -/
def deadlineLoop (s : StreamingScheduler) (avail : PieceAvailabilityIndex)
    (start base step : Int) (i count : Int) : Nat → List HandleCall × Int
  | 0 => ([], count)
  | n + 1 =>
    if count < s.config.deadlineBudget then
      let p := start + i
      if p < s.mapper.firstPiece ∨ p ≥ s.mapper.endPiece then
        s.deadlineLoop avail start base step (i + 1) count n
      else if avail.isComplete p then s.deadlineLoop avail start base step (i + 1) count n
      else
        let (calls, total) := s.deadlineLoop avail start base step (i + 1) (count + 1) n
        (.setPieceDeadline p (wrapInt (base + i * step)) :: calls, total)
    else ([], count)

def setDeadlines (s : StreamingScheduler) (avail : PieceAvailabilityIndex) :
    List HandleCall × StreamingScheduler :=
  let hotSize := s.hotSize
  let (hot, count) := s.deadlineLoop avail s.playheadPiece 100 50 0 0 hotSize.toNat
  let (ahead, count) :=
    s.deadlineLoop avail (s.playheadPiece + hotSize) 2000 200 0 count s.lookaheadSize.toNat
  (hot ++ ahead, { s with activeDeadlines := count })

/-- The request moves the playhead by more than the hot window. -/
def IsSeek (s : StreamingScheduler) (newPlayhead : Int) : Prop :=
  |newPlayhead - s.playheadPiece| > s.config.hotWindowPieces

instance (s : StreamingScheduler) (newPlayhead : Int) : Decidable (s.IsSeek newPlayhead) :=
  inferInstanceAs (Decidable (_ > _))

/-- `on_range_request` up to its pass of `set_deadlines`. -/
def moveTo (s : StreamingScheduler) (now newPlayhead : Int) :
    List HandleCall × StreamingScheduler :=
  if s.IsSeek newPlayhead then
    ([.clearPieceDeadlines],
      { s with seekBoosting := true, seekBoostStart := now, playheadPiece := newPlayhead })
  else ([], { s with playheadPiece := newPlayhead })

def onRangeRequest (s : StreamingScheduler) (avail : PieceAvailabilityIndex) (now : Int)
    (range : ByteRange) : List HandleCall × StreamingScheduler :=
  let (cleared, s) := s.moveTo now (s.mapper.map range).first
  let (calls, s) := s.setDeadlines avail
  (cleared ++ calls, s)

def onPieceComplete (s : StreamingScheduler) (piece : Int) : StreamingScheduler :=
  if piece ≥ s.playheadPiece then
    if s.activeDeadlines > 0 then { s with activeDeadlines := s.activeDeadlines - 1 } else s
  else s

/-- `duration_cast<milliseconds>` drops the rest. -/
def expireBoost (s : StreamingScheduler) (now : Int) : StreamingScheduler :=
  if s.seekBoosting ∧ (now - s.seekBoostStart).tdiv 1000000 ≥ s.config.seekBoostDurationMs then
    { s with seekBoosting := false }
  else s

def detectStall (s : StreamingScheduler) (avail : PieceAvailabilityIndex) : StreamingScheduler :=
  if avail.isComplete s.playheadPiece then { s with stallCount := 0 }
  else { s with stallCount := wrapInt (s.stallCount + 1) }

/-- The mode that `evaluate_mode_switch` ends with. In `DownloadAssist` both conditions are
looked at, and the second wins. -/
def nextMode (s : StreamingScheduler) (avail : PieceAvailabilityIndex) (downloadRate : Int) :
    StreamMode :=
  let span := s.mapper.map ⟨0, 0⟩
  let contig := avail.contiguousBytesFrom s.playheadPiece span.firstOffset
  match s.mode with
  | .streamingFirst =>
    if s.stallCount ≥ s.config.stallCountThreshold then .downloadAssist else .streamingFirst
  | .downloadAssist =>
    if contig ≥ s.config.minContiguousBytes ∧ s.stallCount = 0 then .streamingFirst
    else if downloadRate < s.config.minSustainedRate ∧
        s.stallCount ≥ wrapInt (s.config.stallCountThreshold * 2) then .downloadFirst
    else .downloadAssist
  | .downloadFirst =>
    if contig ≥ s.config.minContiguousBytes then .downloadAssist else .downloadFirst

def evaluateModeSwitch (s : StreamingScheduler) (avail : PieceAvailabilityIndex)
    (downloadRate : Int) : StreamingScheduler :=
  let mode := s.nextMode avail downloadRate
  if mode ≠ s.mode then { s with mode := mode, stallCount := 0 } else s

/-- `tick` up to its pass of `set_deadlines`. -/
def evaluate (s : StreamingScheduler) (avail : PieceAvailabilityIndex) (now downloadRate : Int) :
    StreamingScheduler :=
  ((s.expireBoost now).detectStall avail).evaluateModeSwitch avail downloadRate

def tick (s : StreamingScheduler) (avail : PieceAvailabilityIndex) (now downloadRate : Int) :
    List HandleCall × StreamingScheduler :=
  (s.evaluate avail now downloadRate).setDeadlines avail

/-- The wanted ones among the `n` pieces from `p` on. -/
def missingFrom (mapper : ByteRangeMapper) (avail : PieceAvailabilityIndex) (p : Int) :
    Nat → List Int
  | 0 => []
  | n + 1 =>
    if Wanted mapper avail p then p :: missingFrom mapper avail (p + 1) n
    else missingFrom mapper avail (p + 1) n

/-- The length of the two windows together. -/
def windowSize (s : StreamingScheduler) : Nat := s.hotSize.toNat + s.lookaheadSize.toNat

/-- The pieces to which a pass of `set_deadlines` gives a deadline. -/
def chosen (s : StreamingScheduler) (avail : PieceAvailabilityIndex) : List Int :=
  (missingFrom s.mapper avail s.playheadPiece s.windowSize).take s.config.deadlineBudget.toNat

theorem missingFrom_add (mapper : ByteRangeMapper) (avail : PieceAvailabilityIndex) (p : Int)
    (n m : Nat) :
    missingFrom mapper avail p (n + m) =
      missingFrom mapper avail p n ++ missingFrom mapper avail (p + n) m := by
  induction n generalizing p with
  | zero => simp [missingFrom]
  | succ n ih =>
    have hsucc : n + 1 + m = n + m + 1 := by omega
    have hend : p + 1 + (n : Int) = p + ((n + 1 : Nat) : Int) := by omega
    rw [hsucc, missingFrom, missingFrom, ih, hend]
    split <;> rfl

theorem mem_missingFrom_iff {mapper : ByteRangeMapper} {avail : PieceAvailabilityIndex} {p q : Int}
    {n : Nat} :
    q ∈ missingFrom mapper avail p n ↔ p ≤ q ∧ q < p + n ∧ Wanted mapper avail q := by
  induction n generalizing p with
  | zero =>
    simp only [missingFrom, List.not_mem_nil, false_iff]
    omega
  | succ n ih =>
    have hrest : q ∈ missingFrom mapper avail (p + 1) n ↔
        p + 1 ≤ q ∧ q < p + 1 + n ∧ Wanted mapper avail q := ih
    by_cases hp : Wanted mapper avail p
    · rw [missingFrom, if_pos hp, List.mem_cons, hrest]
      constructor
      · rintro (rfl | ⟨h1, h2, h3⟩)
        · exact ⟨by omega, by omega, hp⟩
        · exact ⟨by omega, by omega, h3⟩
      · rintro ⟨h1, h2, h3⟩
        by_cases hq : q = p
        · exact Or.inl hq
        · exact Or.inr ⟨by omega, by omega, h3⟩
    · rw [missingFrom, if_neg hp, hrest]
      constructor
      · rintro ⟨h1, h2, h3⟩
        exact ⟨by omega, by omega, h3⟩
      · rintro ⟨h1, h2, h3⟩
        have hq : q ≠ p := fun h => hp (h ▸ h3)
        exact ⟨by omega, by omega, h3⟩

theorem nodup_missingFrom (mapper : ByteRangeMapper) (avail : PieceAvailabilityIndex) (p : Int)
    (n : Nat) : (missingFrom mapper avail p n).Nodup := by
  induction n generalizing p with
  | zero => exact List.nodup_nil
  | succ n ih =>
    rw [missingFrom]
    split
    · refine List.nodup_cons.mpr ⟨fun h => ?_, ih (p + 1)⟩
      have hle := (mem_missingFrom_iff.mp h).1
      omega
    · exact ih (p + 1)

theorem missingFrom_eq_nil {mapper : ByteRangeMapper} {avail : PieceAvailabilityIndex} {p : Int}
    {n : Nat} (h : ∀ q, p ≤ q → q < p + n → ¬Wanted mapper avail q) :
    missingFrom mapper avail p n = [] := by
  apply List.eq_nil_iff_forall_not_mem.mpr
  intro q hq
  obtain ⟨h1, h2, h3⟩ := mem_missingFrom_iff.mp hq
  exact h q h1 h2 h3

/-- Past the end of the file nothing is wanted. -/
theorem missingFrom_to_end {mapper : ByteRangeMapper} {avail : PieceAvailabilityIndex} {p : Int}
    {n : Nat} (h : mapper.endPiece ≤ p + n) :
    missingFrom mapper avail p n = missingFrom mapper avail p (mapper.endPiece - p).toNat := by
  obtain ⟨k, hk⟩ : ∃ k, n = (mapper.endPiece - p).toNat + k :=
    ⟨n - (mapper.endPiece - p).toNat, by omega⟩
  have hnil : missingFrom mapper avail (p + (mapper.endPiece - p).toNat) k = [] := by
    apply missingFrom_eq_nil
    intro q h1 _ hq
    exact hq.1 (Or.inr (by omega))
  rw [hk, missingFrom_add, hnil, List.append_nil]

theorem missingFrom_markComplete (mapper : ByteRangeMapper) (avail : PieceAvailabilityIndex)
    (piece p : Int) (n : Nat) :
    missingFrom mapper (avail.markComplete piece) p n =
      (missingFrom mapper avail p n).filter
        fun q => decide (Wanted mapper (avail.markComplete piece) q) := by
  have hless : ∀ q, Wanted mapper (avail.markComplete piece) q → Wanted mapper avail q := by
    intro q hq
    refine ⟨hq.1, Bool.eq_false_iff.mpr fun hc => ?_⟩
    have hmark := avail.isComplete_markComplete_of_isComplete hc piece
    rw [hq.2] at hmark
    cases hmark
  induction n generalizing p with
  | zero => rfl
  | succ n ih =>
    rw [missingFrom, missingFrom, ih]
    by_cases hp : Wanted mapper (avail.markComplete piece) p
    · rw [if_pos hp, if_pos (hless p hp), List.filter_cons_of_pos (by simpa using hp)]
    · rw [if_neg hp]
      split
      · rw [List.filter_cons_of_neg (by simpa using hp)]
      · rfl

/-- A loop in closed form. -/
theorem deadlineLoop_eq (s : StreamingScheduler) (avail : PieceAvailabilityIndex)
    (start base step i count : Int) (n : Nat) :
    s.deadlineLoop avail start base step i count n =
      let pieces := (missingFrom s.mapper avail (start + i) n).take
        (s.config.deadlineBudget - count).toNat
      (pieces.map fun p => .setPieceDeadline p (wrapInt (base + (p - start) * step)),
        count + pieces.length) := by
  induction n generalizing i count with
  | zero => simp [deadlineLoop, missingFrom]
  | succ n ih =>
    have hnext : start + i + 1 = start + (i + 1) := by omega
    rw [deadlineLoop, missingFrom, hnext]
    by_cases hroom : count < s.config.deadlineBudget
    · have hskip : ∀ m : Nat, m = (s.config.deadlineBudget - count).toNat →
          m = (s.config.deadlineBudget - (count + 1)).toNat + 1 := by omega
      have hat : start + i - start = i := by omega
      rw [if_pos hroom]
      by_cases hfile : start + i < s.mapper.firstPiece ∨ start + i ≥ s.mapper.endPiece
      · have hnot : ¬Wanted s.mapper avail (start + i) := fun h => h.1 hfile
        rw [if_pos hfile, if_neg hnot, ih]
      · by_cases hc : avail.isComplete (start + i) = true
        · have hnot : ¬Wanted s.mapper avail (start + i) := fun h => by
            rw [h.2] at hc
            cases hc
          rw [if_neg hfile, if_pos hc, if_neg hnot, ih]
        · have hwant : Wanted s.mapper avail (start + i) := ⟨hfile, Bool.eq_false_iff.mpr hc⟩
          rw [if_neg hfile, if_neg hc, if_pos hwant, ih, hskip _ rfl]
          simp only [List.take_succ_cons, List.map_cons, List.length_cons, hat, Nat.cast_add,
            Nat.cast_one]
          congr 1
          omega
    · have hzero : (s.config.deadlineBudget - count).toNat = 0 := by omega
      rw [if_neg hroom, hzero]
      simp

/-- The deadline that a piece gets when it is given one. -/
def deadlineOf (s : StreamingScheduler) (p : Int) : Int :=
  if p < s.playheadPiece + s.hotSize then wrapInt (100 + (p - s.playheadPiece) * 50)
  else wrapInt (2000 + (p - (s.playheadPiece + s.hotSize)) * 200)

theorem chosen_eq_append (s : StreamingScheduler) (avail : PieceAvailabilityIndex)
    (hhot : 0 ≤ s.hotSize) :
    s.chosen avail =
      (missingFrom s.mapper avail s.playheadPiece s.hotSize.toNat).take
          s.config.deadlineBudget.toNat ++
        (missingFrom s.mapper avail (s.playheadPiece + s.hotSize) s.lookaheadSize.toNat).take
          (s.config.deadlineBudget.toNat -
            (missingFrom s.mapper avail s.playheadPiece s.hotSize.toNat).length) := by
  have hcast : (s.hotSize.toNat : Int) = s.hotSize := Int.toNat_of_nonneg hhot
  rw [chosen, windowSize, missingFrom_add, hcast, List.take_append]

/-- A pass sets a deadline on each chosen piece, in their order, and calls nothing else. -/
theorem setDeadlines_calls (s : StreamingScheduler) (avail : PieceAvailabilityIndex)
    (hhot : 0 ≤ s.hotSize) :
    (s.setDeadlines avail).1 =
      (s.chosen avail).map fun p => .setPieceDeadline p (s.deadlineOf p) := by
  have hroom : ∀ pieces : List Int,
      (s.config.deadlineBudget -
          (0 + ((pieces.take s.config.deadlineBudget.toNat).length : Int))).toNat =
        s.config.deadlineBudget.toNat - pieces.length := by
    intro pieces
    rw [List.length_take]
    omega
  rw [chosen_eq_append s avail hhot, List.map_append]
  simp only [setDeadlines, deadlineLoop_eq, Int.add_zero, Int.sub_zero, hroom]
  congr 1
  · apply List.map_congr_left
    intro p hp
    obtain ⟨_, hlt, _⟩ := mem_missingFrom_iff.mp (List.mem_of_mem_take hp)
    have hin : p < s.playheadPiece + s.hotSize := by omega
    rw [deadlineOf, if_pos hin]
  · apply List.map_congr_left
    intro p hp
    obtain ⟨hle, _, _⟩ := mem_missingFrom_iff.mp (List.mem_of_mem_take hp)
    have hout : ¬p < s.playheadPiece + s.hotSize := by omega
    rw [deadlineOf, if_neg hout]

theorem foldl_apply_map (deadlines : Finset Int) (pieces : List Int) (ms : Int → Int) :
    (pieces.map fun p => HandleCall.setPieceDeadline p (ms p)).foldl HandleCall.apply deadlines =
      deadlines ∪ pieces.toFinset := by
  induction pieces generalizing deadlines with
  | nil => simp
  | cons p pieces ih =>
    rw [List.map_cons, List.foldl_cons, ih, HandleCall.apply, List.toFinset_cons,
      Finset.insert_union, Finset.union_insert]

/-- What a pass leaves on the handle. -/
theorem foldl_apply_setDeadlines (s : StreamingScheduler) (avail : PieceAvailabilityIndex)
    (hhot : 0 ≤ s.hotSize) (deadlines : Finset Int) :
    (s.setDeadlines avail).1.foldl HandleCall.apply deadlines =
      deadlines ∪ (s.chosen avail).toFinset := by
  rw [setDeadlines_calls s avail hhot, foldl_apply_map]

end StreamingScheduler

structure SchedulerConfig.NonNegative (config : SchedulerConfig) : Prop where
  hotWindowPieces : 0 ≤ config.hotWindowPieces
  lookaheadPieces : 0 ≤ config.lookaheadPieces
  seekBoostPieces : 0 ≤ config.seekBoostPieces
  deadlineBudget : 0 ≤ config.deadlineBudget

/-- The sizes of the windows, and the pieces up to their end, are `int`s in every mode. -/
structure SchedulerConfig.FitsInt (config : SchedulerConfig) (mapper : ByteRangeMapper) :
    Prop where
  hot : config.hotWindowPieces + config.seekBoostPieces < 2 ^ 31
  window : mapper.endPiece + max 6 (config.hotWindowPieces + config.seekBoostPieces) +
    2 * config.lookaheadPieces < 2 ^ 31

namespace StreamingScheduler

theorem le_hotSize {s : StreamingScheduler} {n : Int} (hn : n ≤ 3)
    (hhot : n ≤ s.config.hotWindowPieces)
    (hboost : n ≤ wrapInt (s.config.hotWindowPieces + s.config.seekBoostPieces)) :
    n ≤ s.hotSize := by
  simp only [hotSize]
  split <;> split <;> omega

theorem hotSize_nonneg {s : StreamingScheduler} (hconfig : s.config.NonNegative)
    (hfits : s.config.hotWindowPieces + s.config.seekBoostPieces < 2 ^ 31) : 0 ≤ s.hotSize := by
  have hhot := hconfig.hotWindowPieces
  have hboost := hconfig.seekBoostPieces
  have hsum := wrapInt_of_fits (show -2 ^ 31 ≤ _ by omega) hfits
  exact le_hotSize (by decide) hhot (by omega)

theorem setDeadlines_snd (s : StreamingScheduler) (avail : PieceAvailabilityIndex) :
    ∃ count, (s.setDeadlines avail).2 = { s with activeDeadlines := count } := ⟨_, rfl⟩

theorem moveTo_snd (s : StreamingScheduler) (now newPlayhead : Int) :
    ∃ boosting boostStart, (s.moveTo now newPlayhead).2 =
      { s with
        seekBoosting := boosting
        seekBoostStart := boostStart
        playheadPiece := newPlayhead } := by
  unfold moveTo
  split
  · exact ⟨true, now, rfl⟩
  · exact ⟨s.seekBoosting, s.seekBoostStart, rfl⟩

theorem expireBoost_eq (s : StreamingScheduler) (now : Int) :
    ∃ boosting, s.expireBoost now = { s with seekBoosting := boosting } := by
  unfold expireBoost
  split
  · exact ⟨false, rfl⟩
  · exact ⟨s.seekBoosting, rfl⟩

theorem evaluate_eq (s : StreamingScheduler) (avail : PieceAvailabilityIndex)
    (now downloadRate : Int) :
    ∃ mode boosting stall, s.evaluate avail now downloadRate =
      { s with mode := mode, seekBoosting := boosting, stallCount := stall } := by
  obtain ⟨boosting, hboost⟩ := s.expireBoost_eq now
  have hdetect : ∃ stall, (s.expireBoost now).detectStall avail =
      { s with seekBoosting := boosting, stallCount := stall } := by
    rw [hboost]
    unfold detectStall
    split
    · exact ⟨0, rfl⟩
    · exact ⟨wrapInt (s.stallCount + 1), rfl⟩
  obtain ⟨stall, hdet⟩ := hdetect
  unfold evaluate
  rw [hdet]
  unfold evaluateModeSwitch
  simp only
  split
  · exact ⟨_, boosting, 0, rfl⟩
  · exact ⟨s.mode, boosting, stall, rfl⟩

theorem playhead_mem_chosen {s : StreamingScheduler} {avail : PieceAvailabilityIndex}
    (hhot : 1 ≤ s.hotSize) (hbudget : 1 ≤ s.config.deadlineBudget)
    (h : Wanted s.mapper avail s.playheadPiece) : s.playheadPiece ∈ s.chosen avail := by
  obtain ⟨n, hn⟩ : ∃ n, s.windowSize = n + 1 := ⟨s.windowSize - 1, by
    unfold windowSize
    omega⟩
  obtain ⟨b, hb⟩ : ∃ b, s.config.deadlineBudget.toNat = b + 1 :=
    ⟨s.config.deadlineBudget.toNat - 1, by omega⟩
  rw [chosen, hn, hb, missingFrom, if_pos h, List.take_succ_cons]
  exact List.mem_cons_self

/-- The first wanted pieces from the playhead on, as many as the budget allows. -/
def nearest (s : StreamingScheduler) (avail : PieceAvailabilityIndex) : List Int :=
  (missingFrom s.mapper avail s.playheadPiece (s.mapper.endPiece - s.playheadPiece).toNat).take
    s.config.deadlineBudget.toNat

theorem mem_nearest_of_mem_chosen {s : StreamingScheduler} {avail : PieceAvailabilityIndex}
    {q : Int} (h : q ∈ s.chosen avail) : q ∈ s.nearest avail := by
  have hpre : missingFrom s.mapper avail s.playheadPiece s.windowSize <+:
      missingFrom s.mapper avail s.playheadPiece (s.mapper.endPiece - s.playheadPiece).toNat := by
    by_cases hend : s.mapper.endPiece ≤ s.playheadPiece + s.windowSize
    · rw [missingFrom_to_end hend]
    · obtain ⟨k, hk⟩ : ∃ k, (s.mapper.endPiece - s.playheadPiece).toNat = s.windowSize + k :=
        ⟨(s.mapper.endPiece - s.playheadPiece).toNat - s.windowSize, by omega⟩
      rw [hk, missingFrom_add]
      exact List.prefix_append _ _
  exact (hpre.take _).subset h

theorem mem_nearest_markComplete {s : StreamingScheduler} {avail : PieceAvailabilityIndex}
    {piece q : Int} (hne : q ≠ piece) (h : q ∈ s.nearest avail) :
    q ∈ s.nearest (avail.markComplete piece) := by
  have hwanted : Wanted s.mapper avail q := (mem_missingFrom_iff.mp (List.mem_of_mem_take h)).2.2
  have hstill : Wanted s.mapper (avail.markComplete piece) q := by
    refine ⟨hwanted.1, Bool.eq_false_iff.mpr fun hc => ?_⟩
    rcases (avail.isComplete_markComplete piece q).mp hc with ⟨heq, _⟩ | hold
    · exact hne heq
    · rw [hwanted.2] at hold
      cases hold
  unfold nearest
  rw [missingFrom_markComplete]
  -- the pieces before `q` in the filtered list are some of those before it in the old one
  have hsub := (List.take_prefix s.config.deadlineBudget.toNat
    (missingFrom s.mapper avail s.playheadPiece
      (s.mapper.endPiece - s.playheadPiece).toNat)).filter
        fun q => decide (Wanted s.mapper (avail.markComplete piece) q)
  apply (List.prefix_take_iff.mpr ⟨hsub, _⟩).subset
  · exact List.mem_filter.mpr ⟨h, decide_eq_true hstill⟩
  · exact (List.length_filter_le _ _).trans (List.length_take_le _ _)

/-- Pieces that are not wanted may be passed over in either direction. -/
theorem missingFrom_moved {mapper : ByteRangeMapper} {avail : PieceAvailabilityIndex} {p p' : Int}
    (hle : p ≤ p') (h : ∀ q, p ≤ q → q < p' → ¬Wanted mapper avail q) :
    missingFrom mapper avail p (mapper.endPiece - p).toNat =
      missingFrom mapper avail p' (mapper.endPiece - p').toNat := by
  have hcast : p + ((p' - p).toNat : Int) = p' := by omega
  have hnil : missingFrom mapper avail p (p' - p).toNat = [] :=
    missingFrom_eq_nil fun q h1 h2 => h q h1 (by omega)
  have hfar : mapper.endPiece ≤ p + ((p' - p).toNat + (mapper.endPiece - p').toNat : Nat) := by
    omega
  rw [← missingFrom_to_end hfar, missingFrom_add, hnil, hcast, List.nil_append]

end StreamingScheduler

end SeekServe
