import SeekServe.DeadlineWindow

/-!
# The count of active deadlines between two passes

`on_piece_complete` counts down for every piece at or after the playhead, whether a pass has
given it a deadline or not.
-/

namespace SeekServe

set_option autoImplicit false

namespace StreamingScheduler

/-- The pieces to which a pass of `set_deadlines` gives a deadline, whatever the window sizes. -/
def given (s : StreamingScheduler) (avail : PieceAvailabilityIndex) : Finset Int :=
  (s.setDeadlines avail).1.foldl HandleCall.apply ∅

/-- The pieces that both loops of a pass find, before and after the hot window. -/
theorem given_eq (s : StreamingScheduler) (avail : PieceAvailabilityIndex) :
    ∃ hot ahead : List Int,
      hot.Sublist (missingFrom s.mapper avail s.playheadPiece s.hotSize.toNat) ∧
      ahead.Sublist (missingFrom s.mapper avail (s.playheadPiece + s.hotSize)
        s.lookaheadSize.toNat) ∧
      s.given avail = (hot ++ ahead).toFinset ∧
      (s.setDeadlines avail).2.activeDeadlines = (hot ++ ahead).length := by
  refine ⟨_, _, List.take_sublist s.config.deadlineBudget.toNat _,
    List.take_sublist (s.config.deadlineBudget -
      ((missingFrom s.mapper avail s.playheadPiece s.hotSize.toNat).take
        s.config.deadlineBudget.toNat).length).toNat _, ?_, ?_⟩
  · unfold given
    simp only [setDeadlines, deadlineLoop_eq, List.foldl_append, foldl_apply_map,
      List.toFinset_append, Finset.empty_union, Int.add_zero, Int.sub_zero, Int.zero_add]
  · simp only [setDeadlines, deadlineLoop_eq, List.length_append, Int.add_zero, Int.sub_zero,
      Int.zero_add, Nat.cast_add]

theorem card_given (s : StreamingScheduler) (avail : PieceAvailabilityIndex) :
    ((s.given avail).card : Int) = (s.setDeadlines avail).2.activeDeadlines := by
  obtain ⟨hot, ahead, hhot, hahead, hgiven, hcount⟩ := s.given_eq avail
  have hnodup : (hot ++ ahead).Nodup := by
    apply List.Nodup.append
    · exact (nodup_missingFrom _ _ _ _).sublist hhot
    · exact (nodup_missingFrom _ _ _ _).sublist hahead
    · intro p hp hp'
      obtain ⟨h1, h2, -⟩ := mem_missingFrom_iff.mp (hhot.subset hp)
      obtain ⟨h3, h4, -⟩ := mem_missingFrom_iff.mp (hahead.subset hp')
      omega
  rw [hgiven, hcount, List.toFinset_card_of_nodup hnodup]

theorem wanted_of_mem_given {s : StreamingScheduler} {avail : PieceAvailabilityIndex} {p : Int}
    (hp : p ∈ s.given avail) : Wanted s.mapper avail p := by
  obtain ⟨hot, ahead, hhot, hahead, hgiven, -⟩ := s.given_eq avail
  rw [hgiven, List.mem_toFinset, List.mem_append] at hp
  rcases hp with hp | hp
  · exact (mem_missingFrom_iff.mp (hhot.subset hp)).2.2
  · exact (mem_missingFrom_iff.mp (hahead.subset hp)).2.2

theorem le_of_mem_given {s : StreamingScheduler} {avail : PieceAvailabilityIndex}
    (hsize : 0 ≤ s.hotSize) {p : Int} (hp : p ∈ s.given avail) : s.playheadPiece ≤ p := by
  obtain ⟨hot, ahead, hhot, hahead, hgiven, -⟩ := s.given_eq avail
  rw [hgiven, List.mem_toFinset, List.mem_append] at hp
  rcases hp with hp | hp
  · exact (mem_missingFrom_iff.mp (hhot.subset hp)).1
  · have hle := (mem_missingFrom_iff.mp (hahead.subset hp)).1
    omega

theorem onPieceComplete_eq {s : StreamingScheduler} (h : 0 ≤ s.activeDeadlines) (piece : Int) :
    s.onPieceComplete piece =
      { s with
        activeDeadlines :=
          max 0 (s.activeDeadlines - if s.playheadPiece ≤ piece then 1 else 0) } := by
  have hkeep : max 0 (s.activeDeadlines - 0) = s.activeDeadlines := by omega
  unfold onPieceComplete
  by_cases hle : s.playheadPiece ≤ piece
  · rw [if_pos hle, if_pos hle]
    by_cases hpos : s.activeDeadlines > 0
    · have hless : max 0 (s.activeDeadlines - 1) = s.activeDeadlines - 1 := by omega
      rw [if_pos hpos, hless]
    · have hzero : max 0 (s.activeDeadlines - 1) = s.activeDeadlines := by omega
      rw [if_neg hpos, hzero]
  · rw [if_neg hle, if_neg hle, hkeep]

/-- Completions count down once for each piece at or after the playhead. -/
theorem foldl_onPieceComplete (pieces : List Int) {s : StreamingScheduler}
    (h : 0 ≤ s.activeDeadlines) :
    pieces.foldl onPieceComplete s =
      { s with
        activeDeadlines :=
          max 0 (s.activeDeadlines - pieces.countP fun p => s.playheadPiece ≤ p) } := by
  induction pieces generalizing s with
  | nil =>
    have hkeep : max 0 (s.activeDeadlines - 0) = s.activeDeadlines := by omega
    simp only [List.foldl_nil, List.countP_nil, Nat.cast_zero, hkeep]
  | cons piece pieces ih =>
    rw [List.foldl_cons, onPieceComplete_eq h, ih (Int.le_max_left 0 _), List.countP_cons]
    congr 1
    by_cases hle : s.playheadPiece ≤ piece
    · simp only [hle, if_true, decide_true, Nat.cast_add, Nat.cast_one]
      omega
    · simp only [hle, if_false, decide_false, Bool.false_eq_true, Nat.add_zero]
      omega

end StreamingScheduler

/-- As many of the completed pieces lie at or after the playhead as were given a deadline; or
every piece with a deadline has completed, and at least as many at or after the playhead. -/
def CountsMatch (playhead : Int) (given completed : Finset Int) : Prop :=
  (completed.filter fun p => playhead ≤ p).card = (given ∩ completed).card ∨
    given ⊆ completed ∧ given.card ≤ (completed.filter fun p => playhead ≤ p).card

instance (playhead : Int) (given completed : Finset Int) :
    Decidable (CountsMatch playhead given completed) := inferInstanceAs (Decidable (_ ∨ _))

/-- Where no deadline lies behind the playhead. -/
theorem countsMatch_iff {playhead : Int} {given completed : Finset Int}
    (h : ∀ p ∈ given, playhead ≤ p) :
    CountsMatch playhead given completed ↔
      (∀ p ∈ completed, playhead ≤ p → p ∈ given) ∨ given ⊆ completed := by
  have hsub : given ∩ completed ⊆ completed.filter fun p => playhead ≤ p := by
    intro p hp
    obtain ⟨hgiven, hdone⟩ := Finset.mem_inter.mp hp
    exact Finset.mem_filter.mpr ⟨hdone, h p hgiven⟩
  constructor
  · rintro (hcard | ⟨hall, -⟩)
    · have heq := Finset.eq_of_subset_of_card_le hsub (le_of_eq hcard)
      refine Or.inl fun p hp hle => ?_
      have hmem : p ∈ given ∩ completed := heq ▸ Finset.mem_filter.mpr ⟨hp, hle⟩
      exact (Finset.mem_inter.mp hmem).1
    · exact Or.inr hall
  · rintro (hahead | hall)
    · refine Or.inl (congrArg Finset.card (Finset.Subset.antisymm (fun p hp => ?_) hsub))
      obtain ⟨hdone, hle⟩ := Finset.mem_filter.mp hp
      exact Finset.mem_inter.mpr ⟨hahead p hdone hle, hdone⟩
    · refine Or.inr ⟨hall, ?_⟩
      rw [Finset.inter_eq_left.mpr hall] at hsub
      exact Finset.card_le_card hsub

namespace Playback

theorem run_pieceComplete (pb : Playback) (pieces : List Int) :
    (machine.run pb (pieces.map .pieceComplete)).scheduler =
        pieces.foldl StreamingScheduler.onPieceComplete pb.scheduler ∧
      (machine.run pb (pieces.map .pieceComplete)).avail =
        pieces.foldl PieceAvailabilityIndex.markComplete pb.avail := by
  induction pieces generalizing pb with
  | nil => exact ⟨rfl, rfl⟩
  | cons piece pieces ih => exact ih (pb.step (.pieceComplete piece))

variable {config : SchedulerConfig} {mapper : ByteRangeMapper}

/-- The pieces with a deadline from a pass that have not completed. -/
def outstanding (pb : Playback) (given : Finset Int) : Finset Int :=
  given.filter fun p => pb.avail.isComplete p = false

theorem outstanding_run {pb : Playback} {given : Finset Int}
    (hgiven : ∀ p ∈ given, pb.avail.isComplete p = false) {pieces : List Int}
    (hpieces : ∀ p ∈ pieces, pb.avail.inRange p) :
    outstanding (machine.run pb (pieces.map .pieceComplete)) given =
      given \ pieces.toFinset := by
  ext p
  unfold outstanding
  rw [Finset.mem_filter, Finset.mem_sdiff, List.mem_toFinset, (run_pieceComplete pb pieces).2,
    ← Bool.not_eq_true, PieceAvailabilityIndex.isComplete_foldl_markComplete]
  constructor
  · rintro ⟨hp, hnot⟩
    exact ⟨hp, fun hmem => hnot (.inl ⟨hmem, hpieces p hmem⟩)⟩
  · rintro ⟨hp, hnot⟩
    refine ⟨hp, ?_⟩
    rintro (⟨hmem, -⟩ | hc)
    · exact hnot hmem
    · rw [hgiven p hp] at hc
      cases hc

theorem count_iff {given completed : Finset Int} {playhead active : Int}
    (hactive : active = given.card) :
    max 0 (active - (completed.filter fun p => playhead ≤ p).card) =
        ((given \ completed).card : Int) ↔ CountsMatch playhead given completed := by
  have hsplit := Finset.card_sdiff_add_card_inter given completed
  have hall : given ⊆ completed ↔ (given ∩ completed).card = given.card := by
    rw [← Finset.inter_eq_left]
    constructor
    · intro h
      rw [h]
    · intro h
      exact Finset.eq_of_subset_of_card_le Finset.inter_subset_left (le_of_eq h.symm)
  unfold CountsMatch
  rw [hall, hactive]
  omega

/-- The count is exact if and only if the completed pieces from the playhead on are pieces with
a deadline, or no piece with a deadline is left. -/
theorem activeDeadlines_exact_iff (config : SchedulerConfig) (mapper : ByteRangeMapper)
    (avail : PieceAvailabilityIndex) (now : Int) (evs : List PlaybackEvent) (ev : PlaybackEvent)
    (pb : Playback) (hpb : pb = machine.run (fresh config mapper avail now) evs)
    (s : StreamingScheduler) (held : Finset Int) (hpass : pb.beforePass ev = some (s, held))
    (pieces : List Int) (hnodup : pieces.Nodup)
    (hpieces : ∀ p ∈ pieces, pb.avail.inRange p) (after : Playback)
    (hafter : after = machine.run (pb.step ev) (pieces.map .pieceComplete)) :
    (after.scheduler.activeDeadlines = (after.outstanding (s.given pb.avail)).card ↔
        CountsMatch s.playheadPiece (s.given pb.avail) pieces.toFinset) ∧
      (config.NonNegative → config.FitsInt mapper →
        (CountsMatch s.playheadPiece (s.given pb.avail) pieces.toFinset ↔
          (∀ p ∈ pieces, s.playheadPiece ≤ p → p ∈ s.given pb.avail) ∨
            ∀ p ∈ s.given pb.avail, p ∈ pieces)) := by
  have hc : Configured config mapper pb := hpb ▸ configured_run config mapper avail now evs
  have hcard := s.card_given pb.avail
  constructor
  · have hstep := step_of_beforePass hpass
    have hmissing : ∀ p ∈ s.given pb.avail, (pb.step ev).avail.isComplete p = false := by
      intro p hp
      rw [hstep]
      exact (StreamingScheduler.wanted_of_mem_given hp).2
    have hrange : ∀ p ∈ pieces, (pb.step ev).avail.inRange p := by
      intro p hp
      rw [hstep]
      exact hpieces p hp
    have hout := outstanding_run hmissing hrange
    have hcount : pieces.countP (fun p => s.playheadPiece ≤ p) =
        (pieces.toFinset.filter fun p => s.playheadPiece ≤ p).card := by
      rw [List.countP_eq_length_filter, ← List.toFinset_card_of_nodup (hnodup.filter _),
        List.toFinset_filter]
      simp only [decide_eq_true_eq]
    rw [hafter, hout, (run_pieceComplete _ pieces).1, hstep,
      StreamingScheduler.foldl_onPieceComplete pieces (by rw [← hcard]; omega),
      ← count_iff hcard.symm, ← hcount]
    rfl
  · intro hconfig hfits
    have hs := (beforePass_scheduler hc hpass).1
    have hhot := StreamingScheduler.hotSize_nonneg (hs ▸ hconfig) (hs ▸ hfits.hot)
    have hle : ∀ p ∈ s.given pb.avail, s.playheadPiece ≤ p :=
      fun p hp => StreamingScheduler.le_of_mem_given hhot hp
    have hiff : CountsMatch s.playheadPiece (s.given pb.avail) pieces.toFinset ↔ _ :=
      countsMatch_iff hle
    simpa [Finset.subset_iff] using hiff

theorem activeDeadlines_exact_iff_forty :
    (machine.run (fortyPieces.step (.tick 1 0))
      ([0, 2, 1].map .pieceComplete)).scheduler.activeDeadlines = 22 := by
  have h := activeDeadlines_exact_iff {} fortyBytes (.reset 40 1 1) 0 [] (.tick 1 0) fortyPieces rfl
    _ _ rfl [0, 2, 1] (by decide) (by decide) _ rfl
  exact (h.1.mpr (by decide +kernel)).trans (by decide +kernel)

/-- The window of the pass ends before the piece that completes. -/
theorem count_drops_beyond_window :
    (machine.run fortyPieces [.tick 1 0, .pieceComplete 30]).scheduler.activeDeadlines = 24 ∧
      ((machine.run fortyPieces [.tick 1 0, .pieceComplete 30]).outstanding
        ((fortyPieces.scheduler.evaluate fortyPieces.avail 1 0).given fortyPieces.avail)).card =
          25 := by decide +kernel

end Playback

end SeekServe
