import SeekServe.DeadlineRuns

/-!
# The window of a deadline pass

Which pieces one pass of `set_deadlines` schedules, and when, in terms of the playhead, the
mode and the configuration alone.
-/

namespace SeekServe

set_option autoImplicit false

/-- The request asks for bytes of the file. -/
def PlaybackEvent.InFile (mapper : ByteRangeMapper) : PlaybackEvent → Prop
  | .rangeRequest _ range =>
    0 ≤ range.start ∧ range.start ≤ range.stop ∧ range.stop < mapper.fileSize
  | .pieceComplete _ | .tick _ _ => True

theorem ByteRangeMapper.firstPiece_nonneg {m : ByteRangeMapper} (hm : m.WellFormed)
    (hsize : 0 < m.fileSize) : 0 ≤ m.firstPiece := by
  have hfirst : m.firstPiece = (m.fileOffset + 0) / m.fs.pieceLength :=
    piece_of_mapFile hm (Int.le_refl 0) hsize
  have hoffset : 0 ≤ m.fileOffset :=
    FileStorage.sum_sizes_nonneg fun f hf => hm.fs.size_nonneg f (List.mem_of_mem_take hf)
  rw [hfirst]
  exact Int.ediv_nonneg (by omega) (Int.le_of_lt hm.fs.pieceLength_pos)

/-- The incomplete pieces `p` with `first ≤ p < stop`, in ascending order. -/
def PieceAvailabilityIndex.incompleteBetween (avail : PieceAvailabilityIndex) (first stop : Int) :
    List Int :=
  ((List.range (stop - first).toNat).map fun i : Nat => first + i).filter
    fun p => !avail.isComplete p

namespace SchedulerConfig
variable (config : SchedulerConfig)

/-- The pieces with short deadlines, by the scheduler's policy. -/
def hot (mode : StreamMode) (boosting : Bool) : Int :=
  let pieces := config.hotWindowPieces + if boosting then config.seekBoostPieces else 0
  if mode = .downloadFirst then max 3 (pieces / 2) else pieces

/-- The pieces with longer deadlines. -/
def look (mode : StreamMode) (boosting : Bool) : Int :=
  match mode with
  | .streamingFirst => config.lookaheadPieces
  | .downloadAssist => 2 * config.lookaheadPieces
  | .downloadFirst => config.hot mode boosting

/-- The deadline of the piece at a distance from the playhead. -/
def deadline (mode : StreamMode) (boosting : Bool) (distance : Int) : Int :=
  if distance < config.hot mode boosting then 100 + 50 * distance
  else 2000 + 200 * (distance - config.hot mode boosting)

end SchedulerConfig

namespace StreamingScheduler

/-- The incomplete pieces in the window of the playhead. -/
def upcoming (s : StreamingScheduler) (avail : PieceAvailabilityIndex) : List Int :=
  avail.incompleteBetween s.playheadPiece
    (min (s.playheadPiece + s.config.hot s.mode s.seekBoosting +
      s.config.look s.mode s.seekBoosting) s.mapper.endPiece)

/-- The sizes, the pieces and the deadlines of a pass by the policy are `int`s. -/
structure FitsInt (s : StreamingScheduler) (avail : PieceAvailabilityIndex) : Prop where
  hot : s.config.hotWindowPieces + (if s.seekBoosting then s.config.seekBoostPieces else 0) <
    2 ^ 31
  window : s.playheadPiece + s.config.hot s.mode s.seekBoosting +
    s.config.look s.mode s.seekBoosting < 2 ^ 31
  deadlines : ∀ p ∈ (s.upcoming avail).take s.config.deadlineBudget.toNat,
    s.config.deadline s.mode s.seekBoosting (p - s.playheadPiece) < 2 ^ 31

/-- What a pass of `set_deadlines` calls and leaves, by the policy. -/
structure Schedules (s : StreamingScheduler) (avail : PieceAvailabilityIndex)
    (calls : List HandleCall) (s' : StreamingScheduler) : Prop where
  calls_eq : calls =
    ((s.upcoming avail).take s.config.deadlineBudget.toNat).map fun p =>
      .setPieceDeadline p (s.config.deadline s.mode s.seekBoosting (p - s.playheadPiece))
  ascending : (s.upcoming avail).Pairwise (· < ·)
  touched : ∀ p ms, .setPieceDeadline p ms ∈ calls →
    avail.isComplete p = false ∧ s.mapper.firstPiece ≤ p ∧ p < s.mapper.endPiece
  counted : s'.activeDeadlines = calls.length
  increasing : s.config = {} → calls.Pairwise fun call call' =>
    ∀ p ms p' ms', call = .setPieceDeadline p ms → call' = .setPieceDeadline p' ms' → ms < ms'

end StreamingScheduler

theorem PieceAvailabilityIndex.mem_incompleteBetween_iff {avail : PieceAvailabilityIndex}
    {first stop p : Int} :
    p ∈ avail.incompleteBetween first stop ↔
      first ≤ p ∧ p < stop ∧ avail.isComplete p = false := by
  unfold incompleteBetween
  rw [List.mem_filter, List.mem_map, Bool.not_eq_true']
  constructor
  · intro h
    obtain ⟨⟨i, hi, rfl⟩, hc⟩ := h
    have hlt := List.mem_range.mp hi
    exact ⟨by omega, by omega, hc⟩
  · intro h
    obtain ⟨hle, hlt, hc⟩ := h
    refine ⟨⟨(p - first).toNat, List.mem_range.mpr ?_, ?_⟩, hc⟩
    · omega
    · omega

theorem PieceAvailabilityIndex.ascending_incompleteBetween (avail : PieceAvailabilityIndex)
    (first stop : Int) : (avail.incompleteBetween first stop).Pairwise (· < ·) := by
  apply List.Pairwise.filter
  apply List.pairwise_map.mpr
  apply List.pairwise_lt_range.imp
  intro i j hij
  omega

namespace StreamingScheduler

theorem ascending_missingFrom (mapper : ByteRangeMapper) (avail : PieceAvailabilityIndex)
    (p : Int) (n : Nat) : (missingFrom mapper avail p n).Pairwise (· < ·) := by
  induction n generalizing p with
  | zero => exact List.Pairwise.nil
  | succ n ih =>
    rw [missingFrom]
    split
    · apply List.Pairwise.cons
      · intro q hq
        have hle := (mem_missingFrom_iff.mp hq).1
        omega
      · exact ih (p + 1)
    · exact ih (p + 1)

/-- Two ascending lists with the same members are the same list. -/
theorem missingFrom_eq_incompleteBetween {mapper : ByteRangeMapper}
    (avail : PieceAvailabilityIndex) {p : Int} (hp : mapper.firstPiece ≤ p) (n : Nat) :
    missingFrom mapper avail p n = avail.incompleteBetween p (min (p + n) mapper.endPiece) := by
  apply (ascending_missingFrom mapper avail p n).eq_of_mem_iff
    (avail.ascending_incompleteBetween p _)
  intro q
  rw [mem_missingFrom_iff, PieceAvailabilityIndex.mem_incompleteBetween_iff]
  unfold Wanted
  constructor
  · intro h
    obtain ⟨hle, hlt, hfile, hc⟩ := h
    exact ⟨hle, by omega, hc⟩
  · intro h
    obtain ⟨hle, hlt, hc⟩ := h
    exact ⟨hle, by omega, by omega, hc⟩

theorem activeDeadlines_setDeadlines (s : StreamingScheduler) (avail : PieceAvailabilityIndex) :
    (s.setDeadlines avail).2.activeDeadlines = (s.setDeadlines avail).1.length := by
  simp only [setDeadlines, deadlineLoop_eq, List.length_append, List.length_map]
  omega

theorem hotSize_eq {s : StreamingScheduler} (hconfig : s.config.NonNegative)
    (hfits : s.config.hotWindowPieces +
      (if s.seekBoosting then s.config.seekBoostPieces else 0) < 2 ^ 31) :
    s.hotSize = s.config.hot s.mode s.seekBoosting := by
  have hhot := hconfig.hotWindowPieces
  have hboost := hconfig.seekBoostPieces
  have hpieces :
      (if s.seekBoosting then wrapInt (s.config.hotWindowPieces + s.config.seekBoostPieces)
      else s.config.hotWindowPieces) =
      s.config.hotWindowPieces + if s.seekBoosting then s.config.seekBoostPieces else 0 := by
    split
    · rename_i hboosting
      rw [if_pos hboosting] at hfits
      exact wrapInt_of_fits (by omega) hfits
    · omega
  have hpos : 0 ≤ s.config.hotWindowPieces + if s.seekBoosting then s.config.seekBoostPieces
      else 0 := by
    split <;> omega
  unfold hotSize SchedulerConfig.hot
  rw [hpieces]
  cases s.mode with
  | streamingFirst => rfl
  | downloadAssist => rfl
  | downloadFirst =>
    simp only [if_true]
    rw [Int.tdiv_eq_ediv_of_nonneg hpos]

theorem lookaheadSize_eq {s : StreamingScheduler} (hconfig : s.config.NonNegative)
    (hfits : s.config.hotWindowPieces +
      (if s.seekBoosting then s.config.seekBoostPieces else 0) < 2 ^ 31)
    (hlook : s.config.look s.mode s.seekBoosting < 2 ^ 31) :
    s.lookaheadSize = s.config.look s.mode s.seekBoosting := by
  have hhot := hotSize_eq hconfig hfits
  have hahead := hconfig.lookaheadPieces
  unfold lookaheadSize
  unfold SchedulerConfig.look at hlook ⊢
  cases hmode : s.mode with
  | streamingFirst => rfl
  | downloadAssist =>
    rw [hmode] at hlook
    simp only at hlook ⊢
    rw [wrapInt_of_fits (by omega) (by omega)]
    exact Int.mul_comm _ _
  | downloadFirst =>
    rw [hmode] at hhot
    exact hhot

theorem hot_nonneg {config : SchedulerConfig} (hconfig : config.NonNegative) (mode : StreamMode)
    (boosting : Bool) : 0 ≤ config.hot mode boosting := by
  have hhot := hconfig.hotWindowPieces
  have hboost := hconfig.seekBoostPieces
  unfold SchedulerConfig.hot
  simp only
  split <;> split <;> omega

theorem look_nonneg {config : SchedulerConfig} (hconfig : config.NonNegative) (mode : StreamMode)
    (boosting : Bool) : 0 ≤ config.look mode boosting := by
  have hlook := hconfig.lookaheadPieces
  cases mode with
  | streamingFirst => exact hlook
  | downloadAssist =>
    simp only [SchedulerConfig.look]
    omega
  | downloadFirst => exact hot_nonneg hconfig .downloadFirst boosting

section Pass
variable {s : StreamingScheduler} {avail : PieceAvailabilityIndex}
  (hconfig : s.config.NonNegative) (hfits : s.FitsInt avail) (h0 : 0 ≤ s.playheadPiece)
  (hfirst : s.mapper.firstPiece ≤ s.playheadPiece)
include hconfig hfits h0 hfirst

theorem missingFrom_window :
    missingFrom s.mapper avail s.playheadPiece s.windowSize = s.upcoming avail := by
  have hhot := hot_nonneg hconfig s.mode s.seekBoosting
  have hlook := look_nonneg hconfig s.mode s.seekBoosting
  have hwindow := hfits.window
  have hend : s.playheadPiece + (s.windowSize : Int) =
      s.playheadPiece + s.config.hot s.mode s.seekBoosting +
        s.config.look s.mode s.seekBoosting := by
    unfold windowSize
    rw [hotSize_eq hconfig hfits.hot, lookaheadSize_eq hconfig hfits.hot (by omega)]
    omega
  rw [missingFrom_eq_incompleteBetween avail hfirst, hend]
  rfl

omit h0 hfirst in
theorem deadlineOf_eq {p : Int}
    (hp : p ∈ (s.upcoming avail).take s.config.deadlineBudget.toNat) :
    s.deadlineOf p = s.config.deadline s.mode s.seekBoosting (p - s.playheadPiece) := by
  have hle := (PieceAvailabilityIndex.mem_incompleteBetween_iff.mp (List.mem_of_mem_take hp)).1
  have hlt := hfits.deadlines p hp
  unfold deadlineOf
  unfold SchedulerConfig.deadline at hlt ⊢
  rw [hotSize_eq hconfig hfits.hot]
  by_cases hin : p < s.playheadPiece + s.config.hot s.mode s.seekBoosting
  · rw [if_pos (by omega)] at hlt
    rw [if_pos hin, if_pos (by omega), wrapInt_of_fits (by omega) (by omega)]
    omega
  · rw [if_neg (by omega)] at hlt
    rw [if_neg hin, if_neg (by omega), wrapInt_of_fits (by omega) (by omega)]
    omega

theorem calls_of_policy :
    (s.setDeadlines avail).1 =
      ((s.upcoming avail).take s.config.deadlineBudget.toNat).map fun p =>
        .setPieceDeadline p (s.config.deadline s.mode s.seekBoosting (p - s.playheadPiece)) := by
  have hhot : 0 ≤ s.hotSize := by
    rw [hotSize_eq hconfig hfits.hot]
    exact hot_nonneg hconfig s.mode s.seekBoosting
  rw [setDeadlines_calls s avail hhot, chosen, missingFrom_window hconfig hfits h0 hfirst]
  apply List.map_congr_left
  intro p hp
  rw [deadlineOf_eq hconfig hfits hp]

omit hconfig hfits h0 in
theorem mem_upcoming {p : Int} (hp : p ∈ s.upcoming avail) :
    avail.isComplete p = false ∧ s.mapper.firstPiece ≤ p ∧ p < s.mapper.endPiece := by
  obtain ⟨hle, hlt, hc⟩ := PieceAvailabilityIndex.mem_incompleteBetween_iff.mp hp
  exact ⟨hc, by omega, by omega⟩

end Pass

/-- With the usual configuration even the last short deadline comes before the first long one. -/
theorem deadline_lt (mode : StreamMode) (boosting : Bool) {d d' : Int} (hlt : d < d') :
    SchedulerConfig.deadline {} mode boosting d < SchedulerConfig.deadline {} mode boosting d' := by
  have hhot : SchedulerConfig.hot {} mode boosting ≤ 15 := by
    cases mode <;> cases boosting <;> decide
  unfold SchedulerConfig.deadline
  split <;> split <;> omega

theorem schedules_of_policy {s : StreamingScheduler} {avail : PieceAvailabilityIndex}
    (hconfig : s.config.NonNegative) (hfits : s.FitsInt avail) (h0 : 0 ≤ s.playheadPiece)
    (hfirst : s.mapper.firstPiece ≤ s.playheadPiece) :
    s.Schedules avail (s.setDeadlines avail).1 (s.setDeadlines avail).2 := by
  have hcalls := calls_of_policy hconfig hfits h0 hfirst
  have hascending : (s.upcoming avail).Pairwise (· < ·) := avail.ascending_incompleteBetween _ _
  constructor
  · exact hcalls
  · exact hascending
  · intro p ms hmem
    rw [hcalls] at hmem
    obtain ⟨q, hq, heq⟩ := List.mem_map.mp hmem
    cases heq
    exact mem_upcoming hfirst (List.mem_of_mem_take hq)
  · exact s.activeDeadlines_setDeadlines avail
  · intro hdefault
    rw [hcalls]
    apply List.pairwise_map.mpr
    apply (hascending.sublist (List.take_sublist _ _)).imp
    intro p q hlt _ _ _ _ heq heq'
    cases heq
    cases heq'
    rw [hdefault]
    exact deadline_lt _ _ (by omega)

end StreamingScheduler

namespace Playback
variable {config : SchedulerConfig} {mapper : ByteRangeMapper}

theorem playhead_step {pb : Playback} (hm : mapper.WellFormed) (hc : Configured config mapper pb)
    (hfirst : mapper.firstPiece ≤ pb.scheduler.playheadPiece)
    (hend : pb.scheduler.playheadPiece < mapper.endPiece) {ev : PlaybackEvent}
    (hev : ev.InFile mapper) :
    mapper.firstPiece ≤ (pb.step ev).scheduler.playheadPiece ∧
      (pb.step ev).scheduler.playheadPiece < mapper.endPiece := by
  have hkept : (∀ now range, ev ≠ .rangeRequest now range) →
      (pb.step ev).scheduler.playheadPiece = pb.scheduler.playheadPiece := by
    intro hnot
    obtain ⟨_, _, _, _, _, _, hs, hplayhead⟩ := pb.scheduler_step ev
    rw [hs]
    exact hplayhead hnot
  cases ev with
  | rangeRequest now range =>
    obtain ⟨boosting, start, hmove⟩ := pb.scheduler.moveTo_snd now (pb.newPlayhead range)
    obtain ⟨count, hset⟩ :=
      (pb.scheduler.moveTo now (pb.newPlayhead range)).2.setDeadlines_snd pb.avail
    have hs : (pb.step (.rangeRequest now range)).scheduler = _ := hset
    rw [hs, hmove]
    have hnew : pb.newPlayhead range = (mapper.map range).first := by
      unfold newPlayhead
      rw [hc.mapper]
    show mapper.firstPiece ≤ pb.newPlayhead range ∧ pb.newPlayhead range < mapper.endPiece
    rw [hnew]
    exact ByteRangeMapper.first_map_mem hm hev.1 (by have := hev.2; omega)
  | pieceComplete piece =>
    rw [hkept (fun _ _ h => nomatch h)]
    exact ⟨hfirst, hend⟩
  | tick now rate =>
    rw [hkept (fun _ _ h => nomatch h)]
    exact ⟨hfirst, hend⟩

/-- In-file requests keep the playhead in the file. -/
theorem playhead_run (config : SchedulerConfig) (hm : mapper.WellFormed)
    (hsize : 0 < mapper.fileSize) (avail : PieceAvailabilityIndex) (now : Int)
    {evs : List PlaybackEvent} (hevs : ∀ ev ∈ evs, ev.InFile mapper) :
    Configured config mapper (machine.run (fresh config mapper avail now) evs) ∧
      mapper.firstPiece ≤
        (machine.run (fresh config mapper avail now) evs).scheduler.playheadPiece ∧
      (machine.run (fresh config mapper avail now) evs).scheduler.playheadPiece <
        mapper.endPiece := by
  have hfirst : mapper.firstPiece < mapper.endPiece := by
    obtain ⟨hle, hlt⟩ := ByteRangeMapper.first_map_mem hm (show 0 ≤ (⟨0, 0⟩ : ByteRange).start from
      Int.le_refl 0) hsize
    exact lt_of_le_of_lt hle hlt
  apply machine.run_invariant_of (fun pb => Configured config mapper pb ∧
    mapper.firstPiece ≤ pb.scheduler.playheadPiece ∧
    pb.scheduler.playheadPiece < mapper.endPiece) (fun ev => ev.InFile mapper)
  · intro pb ev hev h
    exact ⟨configured_step h.1 ev, playhead_step hm h.1 h.2.1 h.2.2 hev⟩
  · refine ⟨configured_fresh config mapper avail now, Int.le_refl _, ?_⟩
    exact hfirst
  · exact hevs

/-- A pass at any playhead that in-file requests reach follows the policy, in every mode, as long
as its numbers are `int`s. -/
theorem deadlines_follow_policy (config : SchedulerConfig) (hconfig : config.NonNegative)
    (mapper : ByteRangeMapper) (hm : mapper.WellFormed) (hsize : 0 < mapper.fileSize)
    (avail : PieceAvailabilityIndex) (now : Int) (evs : List PlaybackEvent)
    (hevs : ∀ ev ∈ evs, ev.InFile mapper) (s : StreamingScheduler) (hs : s.config = config)
    (hmapper : s.mapper = mapper)
    (hplayhead : s.playheadPiece =
      (machine.run (fresh config mapper avail now) evs).scheduler.playheadPiece)
    (avail' : PieceAvailabilityIndex) (hfits : s.FitsInt avail') :
    mapper.firstPiece ≤ s.playheadPiece ∧ s.playheadPiece < mapper.endPiece ∧
      s.Schedules avail' (s.setDeadlines avail').1 (s.setDeadlines avail').2 := by
  obtain ⟨-, hfirst, hend⟩ := playhead_run config hm hsize avail now hevs
  have hnonneg := ByteRangeMapper.firstPiece_nonneg hm hsize
  rw [hplayhead]
  refine ⟨hfirst, hend, ?_⟩
  apply StreamingScheduler.schedules_of_policy
  · rw [hs]
    exact hconfig
  · exact hfits
  · rw [hplayhead]
    exact Int.le_trans hnonneg hfirst
  · rw [hmapper, hplayhead]
    exact hfirst

def fortyBytes : ByteRangeMapper := ⟨.ofFiles 1 [⟨"a.mp4".toList, 40⟩], 0⟩

theorem wellFormed_fortyBytes : fortyBytes.WellFormed := by
  refine ⟨FileStorage.wellFormed_ofFiles (by decide) ?_, by decide, by decide⟩
  intro f hf
  rw [List.mem_singleton.mp hf]
  decide

theorem deadlines_follow_policy_forty :
    ((StreamingScheduler.create {} fortyBytes 0).moveTo 1 30).2.Schedules (.reset 40 1 1)
      (((StreamingScheduler.create {} fortyBytes 0).moveTo 1 30).2.setDeadlines (.reset 40 1 1)).1
      (((StreamingScheduler.create {} fortyBytes 0).moveTo 1 30).2.setDeadlines
        (.reset 40 1 1)).2 := by
  have hevs : ∀ ev ∈ [PlaybackEvent.rangeRequest 1 ⟨30, 39⟩], ev.InFile fortyBytes := by
    intro ev hev
    rw [List.mem_singleton.mp hev]
    exact ⟨by decide, by decide, by decide⟩
  exact (deadlines_follow_policy {} ⟨by decide, by decide, by decide, by decide⟩ fortyBytes
    wellFormed_fortyBytes (by decide) (.reset 40 1 1) 0 _ hevs
    ((StreamingScheduler.create {} fortyBytes 0).moveTo 1 30).2 rfl rfl rfl
    (.reset 40 1 1) ⟨by decide, by decide, by decide⟩).2.2

/-- The scheduler in `DownloadAssist` after three stalls, with a large look-ahead. -/
def manyAhead : StreamingScheduler :=
  (machine.run (fresh { lookaheadPieces := 2 ^ 30 } fortyBytes (.reset 40 1 1) 0)
    [.tick 1 0, .tick 2 0, .tick 3 0]).scheduler

/-- Twice the look-ahead does not fit an `int`: the pass schedules the hot window only. -/
theorem doubled_lookahead_wraps :
    manyAhead.mode = .downloadAssist ∧ (manyAhead.setDeadlines (.reset 40 1 1)).1.length = 5 ∧
      ((manyAhead.upcoming (.reset 40 1 1)).take
        manyAhead.config.deadlineBudget.toNat).length = 30 ∧
      ¬manyAhead.Schedules (.reset 40 1 1) (manyAhead.setDeadlines (.reset 40 1 1)).1
        (manyAhead.setDeadlines (.reset 40 1 1)).2 := by
  have hfew : (manyAhead.setDeadlines (.reset 40 1 1)).1.length = 5 := by decide +kernel
  have hmany : ((manyAhead.upcoming (.reset 40 1 1)).take
      manyAhead.config.deadlineBudget.toNat).length = 30 := by decide +kernel
  refine ⟨by decide +kernel, hfew, hmany, fun h => ?_⟩
  have hlength := congrArg List.length h.calls_eq
  rw [List.length_map, hfew, hmany] at hlength
  cases hlength

end Playback

end SeekServe
