import SeekServe.Lib.Runs
import SeekServe.Scheduler

/-!
# Deadlines over runs of the scheduler

Range requests, completed pieces and ticks on one scheduler, with the pieces that hold a
deadline on the libtorrent handle.
-/

namespace SeekServe

set_option autoImplicit false

structure Playback where
  scheduler : StreamingScheduler
  avail : PieceAvailabilityIndex
  /-- The pieces that hold a deadline. -/
  deadlines : Finset Int

inductive PlaybackEvent where
  | rangeRequest (now : Int) (range : ByteRange)
  | pieceComplete (piece : Int)
  | tick (now downloadRate : Int)

namespace Playback

def fresh (config : SchedulerConfig) (mapper : ByteRangeMapper) (avail : PieceAvailabilityIndex)
    (now : Int) : Playback :=
  ⟨.create config mapper now, avail, ∅⟩

def receive (pb : Playback) (result : List HandleCall × StreamingScheduler) : Playback :=
  { pb with
    scheduler := result.2
    deadlines := result.1.foldl HandleCall.apply pb.deadlines }

def step (pb : Playback) : PlaybackEvent → Playback
  | .rangeRequest now range => pb.receive (pb.scheduler.onRangeRequest pb.avail now range)
  | .pieceComplete piece =>
    { scheduler := pb.scheduler.onPieceComplete piece
      avail := pb.avail.markComplete piece
      deadlines := pb.deadlines.erase piece }
  | .tick now downloadRate => pb.receive (pb.scheduler.tick pb.avail now downloadRate)

def machine : Runs.Machine Playback PlaybackEvent Unit := ⟨fun pb ev => ((), pb.step ev)⟩

def newPlayhead (pb : Playback) (range : ByteRange) : Int := (pb.scheduler.mapper.map range).first

/-- The scheduler and the deadlines as the pass of `set_deadlines` finds them, where the
event runs one. -/
def beforePass (pb : Playback) : PlaybackEvent → Option (StreamingScheduler × Finset Int)
  | .rangeRequest now range =>
    let newPlayhead := pb.newPlayhead range
    some ((pb.scheduler.moveTo now newPlayhead).2,
      if pb.scheduler.IsSeek newPlayhead then ∅ else pb.deadlines)
  | .pieceComplete _ => none
  | .tick now downloadRate =>
    some (pb.scheduler.evaluate pb.avail now downloadRate, pb.deadlines)

def Within (pb : Playback) : Prop := pb.deadlines.card ≤ pb.scheduler.config.deadlineBudget

/-- The deadlines that earlier passes left on other pieces leave room for those that the pass
sets. -/
def Room (pb : Playback) (ev : PlaybackEvent) : Prop :=
  ∀ s held, pb.beforePass ev = some (s, held) →
    (held \ (s.chosen pb.avail).toFinset).card + (s.chosen pb.avail).length ≤
      s.config.deadlineBudget

/-- A range request that does not count as a seek passes over no incomplete piece. -/
def Steady (pb : Playback) (ev : PlaybackEvent) : Prop :=
  ∀ now range, ev = .rangeRequest now range → ¬pb.scheduler.IsSeek (pb.newPlayhead range) →
    ∀ p, min pb.scheduler.playheadPiece (pb.newPlayhead range) ≤ p →
      p < max pb.scheduler.playheadPiece (pb.newPlayhead range) →
        ¬StreamingScheduler.Wanted pb.scheduler.mapper pb.avail p

/-- The configuration is the one the scheduler was made with. -/
structure Configured (config : SchedulerConfig) (mapper : ByteRangeMapper) (pb : Playback) :
    Prop where
  config : pb.scheduler.config = config
  mapper : pb.scheduler.mapper = mapper

section
variable {config : SchedulerConfig} {mapper : ByteRangeMapper}

theorem configured_fresh (config : SchedulerConfig) (mapper : ByteRangeMapper)
    (avail : PieceAvailabilityIndex) (now : Int) :
    Configured config mapper (fresh config mapper avail now) := ⟨rfl, rfl⟩

/-- Only a range request moves the playhead, and no event changes the configuration. -/
theorem scheduler_step (pb : Playback) (ev : PlaybackEvent) :
    ∃ mode playhead active boosting boostStart stall,
      (pb.step ev).scheduler =
        { pb.scheduler with
          mode := mode
          playheadPiece := playhead
          activeDeadlines := active
          seekBoosting := boosting
          seekBoostStart := boostStart
          stallCount := stall } ∧
      ((∀ now range, ev ≠ .rangeRequest now range) → playhead = pb.scheduler.playheadPiece) := by
  cases ev with
  | rangeRequest now range =>
    obtain ⟨boosting, start, hmove⟩ := pb.scheduler.moveTo_snd now (pb.newPlayhead range)
    obtain ⟨count, hset⟩ :=
      (pb.scheduler.moveTo now (pb.newPlayhead range)).2.setDeadlines_snd pb.avail
    have hs : (pb.step (.rangeRequest now range)).scheduler = _ := hset
    rw [hmove] at hs
    refine ⟨_, _, _, _, _, _, hs, ?_⟩
    intro hev
    exact absurd rfl (hev now range)
  | pieceComplete piece =>
    have hs : (pb.step (.pieceComplete piece)).scheduler = pb.scheduler.onPieceComplete piece := rfl
    unfold StreamingScheduler.onPieceComplete at hs
    split at hs
    · split at hs
      · exact ⟨_, _, _, _, _, _, hs, fun _ => rfl⟩
      · exact ⟨_, _, _, _, _, _, hs, fun _ => rfl⟩
    · exact ⟨_, _, _, _, _, _, hs, fun _ => rfl⟩
  | tick now rate =>
    obtain ⟨mode, boosting, stall, heval⟩ := pb.scheduler.evaluate_eq pb.avail now rate
    obtain ⟨count, hset⟩ := (pb.scheduler.evaluate pb.avail now rate).setDeadlines_snd pb.avail
    have hs : (pb.step (.tick now rate)).scheduler = _ := hset
    rw [heval] at hs
    exact ⟨_, _, _, _, _, _, hs, fun _ => rfl⟩

theorem isComplete_step {pb : Playback} {p : Int} (h : pb.avail.isComplete p = true)
    (ev : PlaybackEvent) : (pb.step ev).avail.isComplete p = true := by
  cases ev with
  | rangeRequest now range => exact h
  | pieceComplete piece =>
    exact PieceAvailabilityIndex.isComplete_markComplete_of_isComplete h piece
  | tick now rate => exact h

theorem configured_step {pb : Playback} (h : Configured config mapper pb) (ev : PlaybackEvent) :
    Configured config mapper (pb.step ev) := by
  obtain ⟨mode, playhead, active, boosting, start, stall, hs, -⟩ := pb.scheduler_step ev
  constructor <;> rw [hs]
  · exact h.config
  · exact h.mapper

theorem configured_run (config : SchedulerConfig) (mapper : ByteRangeMapper)
    (avail : PieceAvailabilityIndex) (now : Int) (evs : List PlaybackEvent) :
    Configured config mapper (machine.run (fresh config mapper avail now) evs) := by
  apply machine.run_invariant (Configured config mapper)
  · intro pb ev h
    exact configured_step h ev
  · exact configured_fresh config mapper avail now

theorem step_of_beforePass {pb : Playback} {ev : PlaybackEvent} {s : StreamingScheduler}
    {held : Finset Int} (h : pb.beforePass ev = some (s, held)) :
    pb.step ev =
      { pb with
        scheduler := (s.setDeadlines pb.avail).2
        deadlines := (s.setDeadlines pb.avail).1.foldl HandleCall.apply held } := by
  cases ev with
  | rangeRequest now range =>
    cases h
    have hheld : (pb.scheduler.moveTo now (pb.newPlayhead range)).1.foldl HandleCall.apply
          pb.deadlines =
        if pb.scheduler.IsSeek (pb.newPlayhead range) then ∅ else pb.deadlines := by
      unfold StreamingScheduler.moveTo
      split <;> rfl
    rw [← hheld, ← List.foldl_append]
    rfl
  | pieceComplete piece => cases h
  | tick now rate =>
    cases h
    rfl

theorem beforePass_scheduler {pb : Playback} {ev : PlaybackEvent} {s : StreamingScheduler}
    {held : Finset Int} (hc : Configured config mapper pb)
    (h : pb.beforePass ev = some (s, held)) : s.config = config ∧ s.mapper = mapper := by
  cases ev with
  | rangeRequest now range =>
    cases h
    obtain ⟨boosting, start, hmove⟩ := pb.scheduler.moveTo_snd now (pb.newPlayhead range)
    rw [hmove]
    exact ⟨hc.config, hc.mapper⟩
  | pieceComplete piece => cases h
  | tick now rate =>
    cases h
    obtain ⟨mode, boosting, stall, heval⟩ := pb.scheduler.evaluate_eq pb.avail now rate
    rw [heval]
    exact ⟨hc.config, hc.mapper⟩

section Fits
variable (hconfig : config.NonNegative) (hfits : config.FitsInt mapper)
include hconfig hfits

theorem deadlines_step {pb : Playback} {ev : PlaybackEvent} {s : StreamingScheduler}
    {held : Finset Int} (hc : Configured config mapper pb)
    (h : pb.beforePass ev = some (s, held)) :
    (pb.step ev).deadlines = held ∪ (s.chosen pb.avail).toFinset := by
  have hs := (beforePass_scheduler hc h).1
  have hhot : 0 ≤ s.hotSize :=
    StreamingScheduler.hotSize_nonneg (hs ▸ hconfig) (hs ▸ hfits.hot)
  rw [step_of_beforePass h]
  exact s.foldl_apply_setDeadlines pb.avail hhot held

theorem within_step_iff {pb : Playback} (hc : Configured config mapper pb) (hw : Within pb)
    (ev : PlaybackEvent) : Within (pb.step ev) ↔ Room pb ev := by
  have hstep := (configured_step hc ev).config
  unfold Within at hw ⊢
  rw [hc.config] at hw
  rw [hstep]
  cases hpass : pb.beforePass ev with
  | none =>
    cases ev with
    | rangeRequest now range => cases hpass
    | tick now rate => cases hpass
    | pieceComplete piece =>
      refine ⟨fun _ s held h => absurd (hpass.symm.trans h) (by simp), fun _ => ?_⟩
      have hle : (pb.deadlines.erase piece).card ≤ pb.deadlines.card := Finset.card_erase_le
      have hcard : (pb.step (.pieceComplete piece)).deadlines = pb.deadlines.erase piece := rfl
      rw [hcard]
      omega
  | some result =>
    obtain ⟨s, held⟩ := result
    have hs := (beforePass_scheduler hc hpass).1
    have hlen : (s.chosen pb.avail).toFinset.card = (s.chosen pb.avail).length :=
      List.toFinset_card_of_nodup
        ((StreamingScheduler.nodup_missingFrom _ _ _ _).sublist (List.take_sublist _ _))
    have hcard := Finset.card_sdiff_add_card held (s.chosen pb.avail).toFinset
    rw [deadlines_step hconfig hfits hc hpass, ← hcard, hlen, Nat.cast_add, ← hs]
    constructor
    · intro h s' held' h'
      rw [hpass] at h'
      cases h'
      exact h
    · intro h
      exact h s held hpass

end Fits

/-- No deadline is held by a piece farther from the playhead than the budget reaches. -/
def Near (pb : Playback) : Prop := ∀ q ∈ pb.deadlines, q ∈ pb.scheduler.nearest pb.avail

theorem within_of_near (hconfig : config.NonNegative) {pb : Playback}
    (hc : Configured config mapper pb) (h : Near pb) : Within pb := by
  have hsub : pb.deadlines ⊆ (pb.scheduler.nearest pb.avail).toFinset := by
    intro q hq
    exact List.mem_toFinset.mpr (h q hq)
  have hcard := (Finset.card_le_card hsub).trans (List.toFinset_card_le _)
  have hlen : (pb.scheduler.nearest pb.avail).length ≤ pb.scheduler.config.deadlineBudget.toNat :=
    List.length_take_le _ _
  have hbudget := hc.config ▸ hconfig.deadlineBudget
  unfold Within
  omega

theorem near_beforePass {pb : Playback} {ev : PlaybackEvent} {s : StreamingScheduler}
    {held : Finset Int} (h : Near pb) (hsteady : Steady pb ev)
    (hpass : pb.beforePass ev = some (s, held)) : ∀ q ∈ held, q ∈ s.nearest pb.avail := by
  intro q hq
  cases ev with
  | rangeRequest now range =>
    cases hpass
    by_cases hseek : pb.scheduler.IsSeek (pb.newPlayhead range)
    · rw [if_pos hseek] at hq
      exact absurd hq (Finset.notMem_empty q)
    · rw [if_neg hseek] at hq
      have hnear := h q hq
      have hpassed := hsteady now range rfl hseek
      obtain ⟨boosting, start, hmove⟩ := pb.scheduler.moveTo_snd now (pb.newPlayhead range)
      rw [hmove]
      unfold StreamingScheduler.nearest at hnear ⊢
      rcases Int.le_total pb.scheduler.playheadPiece (pb.newPlayhead range) with hle | hle
      · rw [Int.min_eq_left hle, Int.max_eq_right hle] at hpassed
        rw [StreamingScheduler.missingFrom_moved hle hpassed] at hnear
        exact hnear
      · rw [Int.min_eq_right hle, Int.max_eq_left hle] at hpassed
        rw [← StreamingScheduler.missingFrom_moved hle hpassed] at hnear
        exact hnear
  | pieceComplete piece => cases hpass
  | tick now rate =>
    cases hpass
    obtain ⟨mode, boosting, stall, heval⟩ := pb.scheduler.evaluate_eq pb.avail now rate
    rw [heval]
    exact h q hq

theorem near_step (hconfig : config.NonNegative) (hfits : config.FitsInt mapper)
    {pb : Playback} (hc : Configured config mapper pb) (h : Near pb) {ev : PlaybackEvent}
    (hsteady : Steady pb ev) : Near (pb.step ev) := by
  cases hpass : pb.beforePass ev with
  | none =>
    cases ev with
    | rangeRequest now range => cases hpass
    | tick now rate => cases hpass
    | pieceComplete piece =>
      intro q hq
      obtain ⟨hne, hold⟩ := Finset.mem_erase.mp hq
      have hnew := StreamingScheduler.mem_nearest_markComplete hne (h q hold)
      have hsame : (pb.scheduler.onPieceComplete piece).nearest (pb.avail.markComplete piece) =
          pb.scheduler.nearest (pb.avail.markComplete piece) := by
        unfold StreamingScheduler.onPieceComplete
        split <;> try split
        all_goals rfl
      exact hsame ▸ hnew
  | some result =>
    obtain ⟨s, held⟩ := result
    intro q hq
    rw [deadlines_step hconfig hfits hc hpass] at hq
    have hnear : q ∈ s.nearest pb.avail := by
      rcases Finset.mem_union.mp hq with hheld | hchosen
      · exact near_beforePass h hsteady hpass q hheld
      · exact StreamingScheduler.mem_nearest_of_mem_chosen (List.mem_toFinset.mp hchosen)
    rw [step_of_beforePass hpass]
    exact hnear

end

theorem near_fresh (config : SchedulerConfig) (mapper : ByteRangeMapper)
    (avail : PieceAvailabilityIndex) (now : Int) : Near (fresh config mapper avail now) :=
  fun q hq => absurd hq (Finset.notMem_empty q)

/-- What every step has to find, in terms of the pieces that its pass picks. -/
theorem always_within_iff_room (config : SchedulerConfig) (hconfig : config.NonNegative)
    (mapper : ByteRangeMapper) (hfits : config.FitsInt mapper) (avail : PieceAvailabilityIndex)
    (now : Int) (evs : List PlaybackEvent) :
    machine.Always Within (fresh config mapper avail now) evs ↔
      machine.EachStep Room (fresh config mapper avail now) evs := by
  have hc := configured_fresh config mapper avail now
  apply Runs.Machine.always_iff_eachStep machine (Configured config mapper) Within Room
    (fun _ => True)
  · intro pb ev _ h
    exact configured_step h ev
  · intro pb ev _ h hw
    exact within_step_iff hconfig hfits h hw ev
  · exact hc
  · exact within_of_near hconfig hc (near_fresh config mapper avail now)
  · intro ev _
    trivial

/-- The budget bounds the deadlines throughout a run in which no range request moves a little
way over incomplete pieces. -/
theorem deadlines_within_budget (config : SchedulerConfig) (hconfig : config.NonNegative)
    (mapper : ByteRangeMapper) (hfits : config.FitsInt mapper) (avail : PieceAvailabilityIndex)
    (now : Int) (evs : List PlaybackEvent)
    (hsteady : machine.EachStep Steady (fresh config mapper avail now) evs) :
    machine.Always Within (fresh config mapper avail now) evs := by
  apply Runs.Machine.always_of_eachStep machine (fun pb => Configured config mapper pb ∧ Near pb)
    Within Steady
  · intro pb ev h hev
    exact ⟨configured_step h.1 ev, near_step hconfig hfits h.1 h.2 hev⟩
  · intro pb h
    exact within_of_near hconfig h.1 h.2
  · exact ⟨configured_fresh config mapper avail now, near_fresh config mapper avail now⟩
  · exact hsteady

/-- A file of forty pieces, and a scheduler with its usual configuration. -/
def fortyPieces : Playback :=
  fresh {} ⟨.ofFiles 1 [⟨"a.mp4".toList, 40⟩], 0⟩ (.reset 40 1 1) 0

theorem deadlines_within_budget_seek :
    machine.Always Within fortyPieces
      [.rangeRequest 0 ⟨0, 39⟩, .rangeRequest 1 ⟨20, 39⟩, .tick 2 0] := by
  apply deadlines_within_budget {} ⟨by decide, by decide, by decide, by decide⟩
    ⟨.ofFiles 1 [⟨"a.mp4".toList, 40⟩], 0⟩ ⟨by decide, by decide⟩ (.reset 40 1 1) 0
  refine ⟨?_, ?_, ?_, trivial⟩
  · rintro now range hev - p h1 h2
    cases hev
    have hplayhead : fortyPieces.scheduler.playheadPiece = 0 := by decide
    have hnew : fortyPieces.newPlayhead ⟨0, 39⟩ = 0 := by decide
    change min fortyPieces.scheduler.playheadPiece (fortyPieces.newPlayhead ⟨0, 39⟩) ≤ p at h1
    change p < max fortyPieces.scheduler.playheadPiece (fortyPieces.newPlayhead ⟨0, 39⟩) at h2
    rw [hplayhead, hnew] at h1 h2
    omega
  · rintro now range hev hseek
    cases hev
    exact absurd (by decide) hseek
  · rintro now range hev
    cases hev

/-- Three requests five pieces apart, none of which counts as a seek. -/
theorem small_steps_exceed_budget :
    (machine.run fortyPieces
      [.rangeRequest 0 ⟨0, 39⟩, .rangeRequest 1 ⟨5, 39⟩, .rangeRequest 2 ⟨10, 39⟩]).deadlines.card =
      35 := by decide +kernel

end Playback

end SeekServe
