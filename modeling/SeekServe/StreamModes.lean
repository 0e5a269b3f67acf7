import SeekServe.ContiguousBuffer
import SeekServe.DeadlineWindow

/-!
# Stream modes over runs of the scheduler

When the mode changes, read off the ticks of the run, and when a degraded mode ends.
-/

namespace SeekServe

set_option autoImplicit false

namespace StreamingScheduler

/-- `stall_count_` after `detect_stall` -/
def stalls (s : StreamingScheduler) (avail : PieceAvailabilityIndex) : Int :=
  if avail.isComplete s.playheadPiece then 0 else wrapInt (s.stallCount + 1)

theorem evaluateModeSwitch_eq (s : StreamingScheduler) (avail : PieceAvailabilityIndex)
    (rate : Int) :
    (s.evaluateModeSwitch avail rate).mode = s.nextMode avail rate ∧
      (s.evaluateModeSwitch avail rate).stallCount =
        if s.nextMode avail rate = s.mode then s.stallCount else 0 := by
  unfold evaluateModeSwitch
  by_cases hsame : s.nextMode avail rate = s.mode
  · simp only [hsame, ne_eq, not_true_eq_false, if_false, if_true, and_self]
  · simp only [hsame, ne_eq, not_false_eq_true, if_true, if_false, and_self]

/-- What a tick does to the mode and to the count of stalls. -/
theorem tick_eq (s : StreamingScheduler) (avail : PieceAvailabilityIndex) (now rate : Int) :
    (s.tick avail now rate).2.mode =
        modeAfter s.config s.mode (s.stalls avail) (s.contig avail) rate ∧
      (s.tick avail now rate).2.stallCount =
        if modeAfter s.config s.mode (s.stalls avail) (s.contig avail) rate = s.mode then
          s.stalls avail
        else 0 := by
  obtain ⟨boosting, hboost⟩ := s.expireBoost_eq now
  have hdetect : (s.expireBoost now).detectStall avail =
      { s with seekBoosting := boosting, stallCount := s.stalls avail } := by
    rw [hboost]
    unfold detectStall stalls
    split <;> rfl
  have hnext : ((s.expireBoost now).detectStall avail).nextMode avail rate =
      modeAfter s.config s.mode (s.stalls avail) (s.contig avail) rate := by
    rw [nextMode_eq, hdetect]
    rfl
  have hmode : ((s.expireBoost now).detectStall avail).mode = s.mode := by rw [hdetect]
  have hstall : ((s.expireBoost now).detectStall avail).stallCount = s.stalls avail := by
    rw [hdetect]
  have hswitch := ((s.expireBoost now).detectStall avail).evaluateModeSwitch_eq avail rate
  rw [hnext, hmode, hstall] at hswitch
  exact hswitch

section ModeAfter
variable {config : SchedulerConfig} {stallCount contig rate : Int}

theorem lt_of_modeAfter_streamingFirst
    (h : modeAfter config .streamingFirst stallCount contig rate = .streamingFirst) :
    stallCount < config.stallCountThreshold := by
  rw [modeAfter] at h
  split at h
  · cases h
  · omega

/-- `DownloadFirst` is entered from `DownloadAssist` only. -/
theorem of_modeAfter_downloadFirst {mode : StreamMode} (hne : mode ≠ .downloadFirst)
    (h : modeAfter config mode stallCount contig rate = .downloadFirst) :
    mode = .downloadAssist ∧ (rate : Rat) < config.minSustainedRate ∧
      wrapInt (config.stallCountThreshold * 2) ≤ stallCount := by
  cases mode with
  | streamingFirst =>
    rw [modeAfter] at h
    split at h <;> cases h
  | downloadFirst => exact absurd rfl hne
  | downloadAssist =>
    rw [modeAfter] at h
    split at h
    · cases h
    · split at h
      · rename_i hlow
        exact ⟨rfl, hlow⟩
      · cases h

theorem modeAfter_downloadFirst
    (hne : modeAfter config .downloadFirst stallCount contig rate ≠ .downloadFirst) :
    modeAfter config .downloadFirst stallCount contig rate = .downloadAssist := by
  rw [modeAfter] at hne ⊢
  split at hne
  · rename_i henough
    exact if_pos henough
  · exact absurd rfl hne

end ModeAfter

end StreamingScheduler

namespace Playback
variable {config : SchedulerConfig} {mapper : ByteRangeMapper}

theorem step_keeps {ev : PlaybackEvent} (h : ∀ now rate, ev ≠ .tick now rate) (pb : Playback) :
    (pb.step ev).scheduler.mode = pb.scheduler.mode ∧
      (pb.step ev).scheduler.stallCount = pb.scheduler.stallCount := by
  cases ev with
  | rangeRequest now range =>
    obtain ⟨boosting, start, hmove⟩ := pb.scheduler.moveTo_snd now (pb.newPlayhead range)
    obtain ⟨count, hset⟩ :=
      (pb.scheduler.moveTo now (pb.newPlayhead range)).2.setDeadlines_snd pb.avail
    have hs : (pb.step (.rangeRequest now range)).scheduler = _ := hset
    rw [hs, hmove]
    exact ⟨rfl, rfl⟩
  | pieceComplete piece =>
    have hs : (pb.step (.pieceComplete piece)).scheduler = pb.scheduler.onPieceComplete piece := rfl
    rw [hs]
    unfold StreamingScheduler.onPieceComplete
    split <;> try split
    all_goals exact ⟨rfl, rfl⟩
  | tick now rate => exact absurd rfl (h now rate)

/-- What is remembered of a tick. -/
structure TickNote where
  before : StreamMode
  after : StreamMode
  /-- the piece at the playhead was incomplete -/
  missing : Bool
  deriving DecidableEq, Repr

def missing (pb : Playback) : Bool := !pb.avail.isComplete pb.scheduler.playheadPiece

def note (pb : Playback) (notes : List TickNote) : PlaybackEvent → List TickNote
  | .tick now rate =>
    ⟨pb.scheduler.mode, (pb.step (.tick now rate)).scheduler.mode, pb.missing⟩ :: notes
  | .rangeRequest _ _ | .pieceComplete _ => notes

/-- The machine with the ticks of its run, the latest one first. -/
def observed : Runs.Machine (Playback × List TickNote) PlaybackEvent Unit :=
  ⟨fun o ev => ((), o.1.step ev, o.1.note o.2 ev)⟩

/-- The ticks since the last change of the mode, as long as the piece was incomplete. -/
def streak : List TickNote → Nat
  | [] => 0
  | n :: notes => if n.before = n.after ∧ n.missing = true then streak notes + 1 else 0

/-- The same with a tick that is under way. -/
def streakNow (pb : Playback) (notes : List TickNote) : Nat :=
  if pb.missing then streak notes + 1 else 0

/-- The streak goes on if the tick leaves the mode as it is. -/
theorem streak_note (pb : Playback) (notes : List TickNote) (now rate : Int) :
    streak (pb.note notes (.tick now rate)) =
      if (pb.step (.tick now rate)).scheduler.mode = pb.scheduler.mode then pb.streakNow notes
      else 0 := by
  rw [note, streak]
  unfold streakNow
  by_cases hsame : (pb.step (.tick now rate)).scheduler.mode = pb.scheduler.mode
  · by_cases hmissing : pb.missing = true
    · rw [if_pos hsame, if_pos hmissing, if_pos ⟨hsame.symm, hmissing⟩]
    · rw [if_pos hsame, if_neg hmissing, if_neg (fun hn => hmissing hn.2)]
  · rw [if_neg hsame, if_neg (fun hn => hsame hn.1.symm)]

theorem streakNow_sub_one {pb : Playback} {notes : List TickNote} (h : 0 < pb.streakNow notes) :
    pb.streakNow notes - 1 = streak notes := by
  unfold streakNow at h ⊢
  split
  · rfl
  · rename_i hmissing
    rw [if_neg hmissing] at h
    omega

/-- What the history of the ticks says about the mode after one more event. -/
structure Justified (pb : Playback) (notes : List TickNote) (ev : PlaybackEvent) : Prop where
  onlyTicks : (∀ now rate, ev ≠ .tick now rate) →
    (pb.step ev).scheduler.mode = pb.scheduler.mode
  leavesStreamingFirst : ∀ now rate, ev = .tick now rate → pb.scheduler.mode = .streamingFirst →
    (pb.step ev).scheduler.mode =
      if (pb.streakNow notes : Int) = pb.scheduler.config.stallCountThreshold then .downloadAssist
      else .streamingFirst
  entersDownloadFirst : pb.scheduler.mode ≠ .downloadFirst →
    (pb.step ev).scheduler.mode = .downloadFirst →
    pb.scheduler.mode = .downloadAssist ∧
      (∃ now rate, ev = .tick now rate ∧ (rate : Rat) < pb.scheduler.config.minSustainedRate) ∧
      2 * pb.scheduler.config.stallCountThreshold ≤ pb.streakNow notes ∧
      ∀ n ∈ notes.take (pb.streakNow notes - 1),
        n.before = .downloadAssist ∧ n.after = .downloadAssist ∧ n.missing = true
  leavesDownloadFirst : pb.scheduler.mode = .downloadFirst →
    (pb.step ev).scheduler.mode ≠ .downloadFirst → (pb.step ev).scheduler.mode = .downloadAssist

/-- The ticks lead from one mode to the next, the latest one to the mode given. -/
def Linked : StreamMode → List TickNote → Prop
  | _, [] => True
  | mode, n :: notes => n.after = mode ∧ Linked n.before notes

theorem take_streak {mode : StreamMode} {notes : List TickNote} (h : Linked mode notes) :
    ∀ n ∈ notes.take (streak notes), n.before = mode ∧ n.after = mode ∧ n.missing = true := by
  induction notes generalizing mode with
  | nil =>
    intro n hn
    exact absurd hn List.not_mem_nil
  | cons m notes ih =>
    obtain ⟨hafter, hlinked⟩ := h
    intro n hn
    rw [streak] at hn
    split at hn
    · rename_i hm
      obtain ⟨hsame, hmissing⟩ := hm
      rw [List.take_succ_cons] at hn
      rcases List.mem_cons.mp hn with rfl | hn
      · exact ⟨hsame.trans hafter, hafter, hmissing⟩
      · exact ih ((hsame.trans hafter) ▸ hlinked) n hn
    · exact absurd hn List.not_mem_nil

/-- The scheduler counts as the history does, in an `int`. -/
structure Tracked (config : SchedulerConfig) (mapper : ByteRangeMapper)
    (o : Playback × List TickNote) : Prop where
  configured : Configured config mapper o.1
  stallCount : o.1.scheduler.stallCount = wrapInt (streak o.2)
  linked : Linked o.1.scheduler.mode o.2
  below : o.1.scheduler.mode = .streamingFirst → streak o.2 < config.stallCountThreshold

theorem stalls_eq {o : Playback × List TickNote} (h : Tracked config mapper o) :
    o.1.scheduler.stalls o.1.avail = wrapInt (o.1.streakNow o.2) := by
  unfold StreamingScheduler.stalls streakNow missing
  rw [h.stallCount]
  cases o.1.avail.isComplete o.1.scheduler.playheadPiece with
  | true =>
    rw [if_pos rfl, if_neg (by decide), Nat.cast_zero, wrapInt_zero]
  | false =>
    rw [if_neg (by decide), if_pos (by decide), Nat.cast_add, Nat.cast_one, wrapInt_add_one]

theorem mode_tick {o : Playback × List TickNote} (h : Tracked config mapper o) (now rate : Int) :
    (o.1.step (.tick now rate)).scheduler.mode =
        StreamingScheduler.modeAfter config o.1.scheduler.mode (wrapInt (o.1.streakNow o.2))
          (o.1.scheduler.contig o.1.avail) rate ∧
      (o.1.step (.tick now rate)).scheduler.stallCount =
        if (o.1.step (.tick now rate)).scheduler.mode = o.1.scheduler.mode then
          wrapInt (o.1.streakNow o.2)
        else 0 := by
  obtain ⟨hmode, hstall⟩ := o.1.scheduler.tick_eq o.1.avail now rate
  have hstep : (o.1.step (.tick now rate)).scheduler =
    (o.1.scheduler.tick o.1.avail now rate).2 := rfl
  rw [hstep, hstall, hmode, stalls_eq h, h.configured.config]
  exact ⟨rfl, rfl⟩

/-- In `StreamingFirst` the count cannot grow past the threshold. -/
theorem wrapInt_streakNow (hT : config.stallCountThreshold < 2 ^ 30)
    {o : Playback × List TickNote} (h : Tracked config mapper o)
    (hs : o.1.scheduler.mode = .streamingFirst) :
    (o.1.streakNow o.2 : Int) ≤ config.stallCountThreshold ∧
      wrapInt (o.1.streakNow o.2) = o.1.streakNow o.2 := by
  have hbelow := h.below hs
  have hle : (o.1.streakNow o.2 : Int) ≤ config.stallCountThreshold := by
    unfold streakNow
    split <;> omega
  exact ⟨hle, wrapInt_of_fits (by omega) (by omega)⟩

theorem tracked_step (hT : 1 ≤ config.stallCountThreshold)
    (hlt : config.stallCountThreshold < 2 ^ 30) {o : Playback × List TickNote}
    (h : Tracked config mapper o) (ev : PlaybackEvent) :
    Tracked config mapper (o.1.step ev, o.1.note o.2 ev) := by
  have hother : (∀ now rate, ev ≠ .tick now rate) → o.1.note o.2 ev = o.2 →
      Tracked config mapper (o.1.step ev, o.1.note o.2 ev) := by
    intro hev hnote
    obtain ⟨hmode, hstall⟩ := step_keeps hev o.1
    rw [hnote]
    refine ⟨configured_step h.configured ev, ?_, ?_, ?_⟩
    · exact hstall.trans h.stallCount
    · exact hmode.symm ▸ h.linked
    · intro hs
      exact h.below (hmode ▸ hs)
  cases ev with
  | rangeRequest now range => exact hother (fun _ _ hev => nomatch hev) rfl
  | pieceComplete piece => exact hother (fun _ _ hev => nomatch hev) rfl
  | tick now rate =>
    obtain ⟨hmode, hstall⟩ := mode_tick h now rate
    constructor
    · show Configured config mapper (o.1.step (.tick now rate))
      exact configured_step h.configured _
    · change (o.1.step (.tick now rate)).scheduler.stallCount = _
      rw [hstall, streak_note]
      split
      · rfl
      · exact wrapInt_zero.symm
    · exact ⟨rfl, h.linked⟩
    · intro hs
      change (o.1.step (.tick now rate)).scheduler.mode = .streamingFirst at hs
      show (streak (o.1.note o.2 (.tick now rate)) : Int) < config.stallCountThreshold
      rw [streak_note]
      split
      · rename_i hsame
        have hbefore : o.1.scheduler.mode = .streamingFirst := hsame.symm.trans hs
        rw [hmode, hbefore, (wrapInt_streakNow hlt h hbefore).2] at hs
        exact StreamingScheduler.lt_of_modeAfter_streamingFirst hs
      · exact hT

theorem justified_of_tracked {o : Playback × List TickNote} (h : Tracked config mapper o)
    (hT : 1 ≤ config.stallCountThreshold) (hlt : config.stallCountThreshold < 2 ^ 30)
    (ev : PlaybackEvent) : o.1.Justified o.2 ev := by
  have hconfig := h.configured.config
  have hother : (∀ now rate, ev ≠ .tick now rate) →
      (o.1.step ev).scheduler.mode = o.1.scheduler.mode := fun hev => (step_keeps hev o.1).1
  have htick : (o.1.step ev).scheduler.mode ≠ o.1.scheduler.mode →
      ∃ now rate, ev = .tick now rate := by
    intro hne
    by_contra hnone
    exact hne (hother fun now rate hev => hnone ⟨now, rate, hev⟩)
  constructor
  · exact hother
  · intro now rate hev hs
    obtain ⟨hle, hwrap⟩ := wrapInt_streakNow hlt h hs
    rw [hev, (mode_tick h now rate).1, hs, StreamingScheduler.modeAfter, hconfig, hwrap]
    by_cases hT' : (o.1.streakNow o.2 : Int) = config.stallCountThreshold
    · rw [if_pos hT']
      exact if_pos (by omega)
    · rw [if_neg hT']
      exact if_neg (by omega)
  · intro hne hs
    obtain ⟨now, rate, rfl⟩ := htick (by rw [hs]; exact hne.symm)
    rw [(mode_tick h now rate).1] at hs
    obtain ⟨hbefore, hrate, hmany⟩ := StreamingScheduler.of_modeAfter_downloadFirst hne hs
    -- a count that has wrapped is smaller than the number of ticks
    have hle : wrapInt (o.1.streakNow o.2) ≤ o.1.streakNow o.2 := wrapInt_le (by omega)
    rw [wrapInt_of_fits (by omega) (by omega)] at hmany
    have htake : o.1.streakNow o.2 - 1 = streak o.2 := streakNow_sub_one (by omega)
    refine ⟨hbefore, ⟨now, rate, rfl, hconfig ▸ hrate⟩, ?_, ?_⟩
    · rw [hconfig]
      omega
    · rw [htake, ← hbefore]
      exact take_streak h.linked
  · intro hbefore hne
    obtain ⟨now, rate, rfl⟩ := htick (by rw [hbefore]; exact hne)
    rw [(mode_tick h now rate).1, hbefore] at hne ⊢
    exact StreamingScheduler.modeAfter_downloadFirst hne

theorem observed_run (s : Playback × List TickNote) (evs : List PlaybackEvent) :
    (observed.run s evs).1 = machine.run s.1 evs := by
  induction evs generalizing s with
  | nil => rfl
  | cons ev evs ih => exact ih (s.1.step ev, s.1.note s.2 ev)

/-- At every point of every run the count of stalls is what the ticks so far say, and so is the
mode after the next event, as long as twice the threshold is an `int`. -/
theorem modes_justified (config : SchedulerConfig) (hT : 1 ≤ config.stallCountThreshold)
    (hlt : config.stallCountThreshold < 2 ^ 30) (mapper : ByteRangeMapper) (avail : PieceAvailabilityIndex) (now : Int)
    (evs : List PlaybackEvent) (pb : Playback) (notes : List TickNote)
    (hrun : observed.run (fresh config mapper avail now, []) evs = (pb, notes)) :
    pb = machine.run (fresh config mapper avail now) evs ∧
      pb.scheduler.config = config ∧
      pb.scheduler.stallCount = wrapInt (streak notes) ∧
      ∀ ev, pb.Justified notes ev := by
  have hfresh : Tracked config mapper (fresh config mapper avail now, []) :=
    ⟨configured_fresh config mapper avail now, wrapInt_zero.symm, trivial, fun _ => hT⟩
  have h : Tracked config mapper (pb, notes) := by
    rw [← hrun]
    apply observed.run_invariant (Tracked config mapper)
    · intro o ev ho
      exact tracked_step hT hlt ho ev
    · exact hfresh
  have hfst := observed_run (fresh config mapper avail now, []) evs
  rw [hrun] at hfst
  exact ⟨hfst, h.configured.config, h.stallCount, fun ev => justified_of_tracked h hT hlt ev⟩

theorem modes_justified_forty :
    (observed.run (fresh {} fortyBytes (.reset 40 1 1) 0, [])
        [.tick 1 0, .tick 2 0]).1.Justified
      (observed.run (fresh {} fortyBytes (.reset 40 1 1) 0, []) [.tick 1 0, .tick 2 0]).2
      (.tick 3 0) :=
  (modes_justified {} (by decide) (by decide) fortyBytes (.reset 40 1 1) 0
    [.tick 1 0, .tick 2 0] _ _ rfl).2.2.2 (.tick 3 0)

/-- The piece at the playhead is missing, and that many stalls have been counted in the mode. -/
structure Stalling (config : SchedulerConfig) (mode : StreamMode) (k : Int) (pb : Playback) :
    Prop where
  config : pb.scheduler.config = config
  mode : pb.scheduler.mode = mode
  stallCount : pb.scheduler.stallCount = k
  missing : pb.avail.isComplete pb.scheduler.playheadPiece = false

theorem stalling_tick {mode : StreamMode} {k : Int} {pb : Playback}
    (h : Stalling config mode k pb) (now rate : Int) {after : StreamMode}
    (hafter : StreamingScheduler.modeAfter config mode (wrapInt (k + 1))
      (pb.scheduler.contig pb.avail) rate = after) :
    Stalling config after (if after = mode then wrapInt (k + 1) else 0)
      (pb.step (.tick now rate)) := by
  obtain ⟨_, _, _, _, _, _, hs, hsame⟩ := pb.scheduler_step (.tick now rate)
  have hstalls : pb.scheduler.stalls pb.avail = wrapInt (k + 1) := by
    unfold StreamingScheduler.stalls
    rw [h.missing, if_neg (by decide), h.stallCount]
  obtain ⟨hmode, hstall⟩ := pb.scheduler.tick_eq pb.avail now rate
  rw [hstalls, h.config, h.mode, hafter] at hmode hstall
  refine ⟨?_, hmode, hstall, ?_⟩
  · rw [hs]
    exact h.config
  · rw [hs, hsame fun _ _ hev => nomatch hev]
    exact h.missing

/-- The stalls that are left to the threshold, all in one run. -/
theorem stalled_until_threshold (hT : config.stallCountThreshold ≤ 2 ^ 30) (n : Nat) {k : Int}
    (h0 : 0 ≤ k) (hn : k + n + 1 = config.stallCountThreshold) {o : Playback × List TickNote}
    (h : Stalling config .streamingFirst k o.1) :
    Stalling config .downloadAssist 0
        (observed.run o (List.replicate (n + 1) (.tick 0 0))).1 ∧
      streak (observed.run o (List.replicate (n + 1) (.tick 0 0))).2 = 0 := by
  have hwrap : wrapInt (k + 1) = k + 1 := wrapInt_of_fits (by omega) (by omega)
  induction n generalizing k o with
  | zero =>
    have hmode : StreamingScheduler.modeAfter config .streamingFirst (wrapInt (k + 1))
        (o.1.scheduler.contig o.1.avail) 0 = .downloadAssist := by
      rw [hwrap]
      exact if_pos (by omega)
    have hnext := stalling_tick h 0 0 hmode
    rw [if_neg (by decide)] at hnext
    refine ⟨hnext, ?_⟩
    show streak (o.1.note o.2 (.tick 0 0)) = 0
    rw [streak_note, hnext.mode, h.mode, if_neg (by decide)]
  | succ n ih =>
    have hmode : StreamingScheduler.modeAfter config .streamingFirst (wrapInt (k + 1))
        (o.1.scheduler.contig o.1.avail) 0 = .streamingFirst := by
      rw [hwrap]
      exact if_neg (by omega)
    have hnext := stalling_tick h 0 0 hmode
    rw [if_pos rfl, hwrap] at hnext
    exact ih (o := (o.1.step (.tick 0 0), o.1.note o.2 (.tick 0 0))) (by omega) (by omega) hnext
      (wrapInt_of_fits (by omega) (by omega))

/-- Twice this threshold does not fit an `int`. -/
def patient : SchedulerConfig := { stallCountThreshold := 2 ^ 30 }

/-- After so many stalls one more is enough, which is fewer than twice the threshold. -/
theorem not_justified_patient (n : Nat) (hn : 0 + n + 1 = patient.stallCountThreshold)
    {o : Playback × List TickNote}
    (ho : observed.run (fresh patient fortyBytes (.reset 40 1 1) 0, [])
      (List.replicate (n + 1) (.tick 0 0)) = o) :
    (o.1.step (.tick 0 0)).scheduler.mode = .downloadFirst ∧ o.1.streakNow o.2 = 1 ∧
      ¬o.1.Justified o.2 (.tick 0 0) := by
  obtain ⟨hstalling, hstreak⟩ := stalled_until_threshold (Int.le_refl _) n (Int.le_refl 0) hn
    (o := (fresh patient fortyBytes (.reset 40 1 1) 0, [])) ⟨rfl, rfl, rfl, by decide⟩
  rw [ho] at hstalling hstreak
  have hnow : o.1.streakNow o.2 = 1 := by
    unfold streakNow Playback.missing
    rw [hstalling.missing, if_pos (by decide), hstreak]
  have hone : ¬wrapInt (0 + 1) = 0 := by decide
  have hlow : ((0 : Int) : Rat) < patient.minSustainedRate ∧
      wrapInt (0 + 1) ≥ wrapInt (patient.stallCountThreshold * 2) := by decide
  have hmode : StreamingScheduler.modeAfter patient .downloadAssist (wrapInt (0 + 1))
      (o.1.scheduler.contig o.1.avail) 0 = .downloadFirst := by
    rw [StreamingScheduler.modeAfter, if_neg (fun h => hone h.2), if_pos hlow]
  have hafter := (stalling_tick hstalling 0 0 hmode).mode
  refine ⟨hafter, hnow, fun hjust => ?_⟩
  have hmany := (hjust.entersDownloadFirst (by rw [hstalling.mode]; decide) hafter).2.2.1
  rw [hnow, hstalling.config] at hmany
  exact absurd hmany (by decide)

theorem doubled_threshold_wraps :
    ¬(observed.run (fresh patient fortyBytes (.reset 40 1 1) 0, [])
        (List.replicate (1073741823 + 1) (.tick 0 0))).1.Justified
      (observed.run (fresh patient fortyBytes (.reset 40 1 1) 0, [])
        (List.replicate (1073741823 + 1) (.tick 0 0))).2 (.tick 0 0) :=
  (not_justified_patient 1073741823 (by decide) rfl).2.2

end Playback

/-- One step back to `StreamingFirst`. -/
def StreamMode.milder : StreamMode → StreamMode
  | .streamingFirst | .downloadAssist => .streamingFirst
  | .downloadFirst => .downloadAssist

theorem StreamMode.milder_milder (mode : StreamMode) : mode.milder.milder = .streamingFirst := by
  cases mode <;> rfl

namespace StreamingScheduler
variable {config : SchedulerConfig} (hT : 1 ≤ config.stallCountThreshold) (mode : StreamMode)
  {contig : Int} (rate : Int)

include hT in
/-- With the piece at the playhead complete only the buffer decides. -/
theorem modeAfter_zero_of_le (henough : config.minContiguousBytes ≤ contig) :
    modeAfter config mode 0 contig rate = mode.milder := by
  cases mode with
  | streamingFirst =>
    rw [modeAfter, if_neg (by omega)]
    rfl
  | downloadAssist =>
    rw [modeAfter, if_pos ⟨henough, rfl⟩]
    rfl
  | downloadFirst =>
    rw [modeAfter, if_pos henough]
    rfl

include hT in
/-- A short buffer leads from no degraded mode to `StreamingFirst`, also where twice the
threshold has wrapped. -/
theorem modeAfter_zero_of_lt (hfew : contig < config.minContiguousBytes) :
    modeAfter config mode 0 contig rate = .streamingFirst ↔ mode = .streamingFirst := by
  cases mode with
  | streamingFirst =>
    rw [modeAfter, if_neg (by omega)]
  | downloadAssist =>
    rw [modeAfter, if_neg (by omega)]
    split <;> exact iff_of_false (by decide) (by decide)
  | downloadFirst =>
    rw [modeAfter, if_neg (by omega)]

end StreamingScheduler

namespace Playback
variable {config : SchedulerConfig} {mapper : ByteRangeMapper}

theorem describes_step {fs : FileStorage} {pb : Playback} (h : pb.avail.Describes fs)
    (ev : PlaybackEvent) : (pb.step ev).avail.Describes fs := by
  cases ev with
  | rangeRequest now range => exact h
  | pieceComplete piece => exact PieceAvailabilityIndex.describes_markComplete h piece
  | tick now rate => exact h

theorem tick_playhead_complete (hT : 1 ≤ config.stallCountThreshold) {pb : Playback}
    (hc : Configured config mapper pb)
    (hplayhead : pb.avail.isComplete pb.scheduler.playheadPiece = true) (now rate : Int) :
    (config.minContiguousBytes ≤ pb.scheduler.contig pb.avail →
        (pb.step (.tick now rate)).scheduler.mode = pb.scheduler.mode.milder) ∧
      (pb.scheduler.contig pb.avail < config.minContiguousBytes →
        ((pb.step (.tick now rate)).scheduler.mode = .streamingFirst ↔
          pb.scheduler.mode = .streamingFirst)) ∧
      (pb.step (.tick now rate)).avail = pb.avail ∧
      (pb.step (.tick now rate)).scheduler.playheadPiece = pb.scheduler.playheadPiece ∧
      (pb.step (.tick now rate)).scheduler.mapper = pb.scheduler.mapper := by
  obtain ⟨mode, playhead, active, boosting, start, stall, hs, hsame⟩ :=
    pb.scheduler_step (.tick now rate)
  have hmode := (pb.scheduler.tick_eq pb.avail now rate).1
  have hstalls : pb.scheduler.stalls pb.avail = 0 := if_pos hplayhead
  rw [hstalls, hc.config] at hmode
  refine ⟨fun henough => ?_, fun hfew => ?_, rfl, ?_, ?_⟩
  · exact hmode.trans (StreamingScheduler.modeAfter_zero_of_le hT _ rate henough)
  · exact hmode ▸ StreamingScheduler.modeAfter_zero_of_lt hT _ rate hfew
  · rw [hs]
    exact hsame fun _ _ h => nomatch h
  · rw [hs]

/-- With the rest of the file complete two ticks end a degraded mode if and only if the number
that the switch compares, cut at the end of the torrent and not of the file, is large enough. -/
theorem degraded_mode_ends_iff (config : SchedulerConfig) (hT : 1 ≤ config.stallCountThreshold)
    (mapper : ByteRangeMapper) (hm : mapper.WellFormed) (hsize : 0 < mapper.fileSize)
    (avail : PieceAvailabilityIndex) (hd : avail.Describes mapper.fs) (now : Int)
    (evs : List PlaybackEvent) (hevs : ∀ ev ∈ evs, ev.InFile mapper) (pb : Playback)
    (hpb : pb = machine.run (fresh config mapper avail now) evs)
    (hrest : ∀ p, pb.scheduler.playheadPiece ≤ p → p < mapper.endPiece →
      pb.avail.isComplete p = true) (now1 rate1 now2 rate2 : Int) :
    (machine.run pb [.tick now1 rate1, .tick now2 rate2]).scheduler.mode = .streamingFirst ↔
      pb.scheduler.mode = .streamingFirst ∨
        config.minContiguousBytes ≤ pb.scheduler.runEnd pb.avail -
          pb.scheduler.playheadPiece * mapper.fs.pieceLength -
            mapper.fileOffset % mapper.fs.pieceLength := by
  obtain ⟨hc, hfirst, hend⟩ := playhead_run config hm hsize avail now hevs
  rw [← hpb] at hc hfirst hend
  have hpd : pb.avail.Describes mapper.fs := by
    rw [hpb]
    apply machine.run_invariant (fun pb => pb.avail.Describes mapper.fs)
    · intro pb ev h
      exact describes_step h ev
    · exact hd
  have hplayhead := hrest pb.scheduler.playheadPiece (Int.le_refl _) hend
  have hcontig : pb.scheduler.contig pb.avail = pb.scheduler.runEnd pb.avail -
      pb.scheduler.playheadPiece * mapper.fs.pieceLength -
        mapper.fileOffset % mapper.fs.pieceLength := by
    obtain rfl := hc.mapper
    exact StreamingScheduler.contig_eq hm hsize hpd hfirst hend hplayhead
  obtain ⟨henough1, hfew1, havail, hsame, hmap⟩ :=
    tick_playhead_complete hT hc hplayhead now1 rate1
  have hc1 := configured_step hc (.tick now1 rate1)
  have hplayhead1 : (pb.step (.tick now1 rate1)).avail.isComplete
      (pb.step (.tick now1 rate1)).scheduler.playheadPiece = true := by
    rw [havail, hsame]
    exact hplayhead
  obtain ⟨henough2, hfew2, -⟩ := tick_playhead_complete hT hc1 hplayhead1 now2 rate2
  have hcontig1 : (pb.step (.tick now1 rate1)).scheduler.contig
      (pb.step (.tick now1 rate1)).avail = pb.scheduler.contig pb.avail := by
    unfold StreamingScheduler.contig
    rw [havail, hsame, hmap]
  rw [hcontig1] at henough2 hfew2
  show ((pb.step (.tick now1 rate1)).step (.tick now2 rate2)).scheduler.mode = _ ↔ _
  rw [← hcontig]
  by_cases henough : config.minContiguousBytes ≤ pb.scheduler.contig pb.avail
  · have hmode : ((pb.step (.tick now1 rate1)).step (.tick now2 rate2)).scheduler.mode =
        .streamingFirst := by
      rw [henough2 henough, henough1 henough, StreamMode.milder_milder]
    exact iff_of_true hmode (Or.inr henough)
  · have hfew := Int.lt_of_not_ge henough
    rw [hfew2 hfew, hfew1 hfew]
    exact ⟨Or.inl, fun h => h.resolve_right henough⟩

/-- One byte, one piece. -/
def oneByte : ByteRangeMapper := ⟨.ofFiles 1 [⟨"a.mp4".toList, 1⟩], 0⟩

theorem wellFormed_oneByte : oneByte.WellFormed := by
  refine ⟨FileStorage.wellFormed_ofFiles (by decide) ?_, by decide, by decide⟩
  intro f hf
  rw [List.mem_singleton.mp hf]
  decide

/-- Three stalls, and then the file is complete. -/
def stalledThenComplete : List PlaybackEvent :=
  [.tick 1 0, .tick 2 0, .tick 3 0, .pieceComplete 0]

theorem degraded_mode_ends_iff_one :
    (machine.run (machine.run (fresh { minContiguousBytes := 1 } oneByte (.reset 1 1 1) 0)
      stalledThenComplete) [.tick 4 0, .tick 5 0]).scheduler.mode = .streamingFirst := by
  refine (degraded_mode_ends_iff { minContiguousBytes := 1 } (by decide) oneByte
    wellFormed_oneByte (by decide) (.reset 1 1 1) ⟨by decide, by decide, by decide⟩ 0
    stalledThenComplete ?_ _ rfl ?_ 4 0 5 0).mpr (.inr (by decide))
  · intro ev hev
    simp only [stalledThenComplete, List.mem_cons, List.not_mem_nil, or_false] at hev
    rcases hev with rfl | rfl | rfl | rfl <;> trivial
  · intro p hle hlt
    have hplayhead : (machine.run (fresh { minContiguousBytes := 1 } oneByte (.reset 1 1 1) 0)
      stalledThenComplete).scheduler.playheadPiece = 0 := by decide
    have hlast : oneByte.endPiece = 1 := by decide
    rw [hplayhead] at hle
    rw [hlast] at hlt
    have hp : p = 0 := by omega
    rw [hp]
    decide

/-- The whole file is shorter than the usual `min_contiguous_bytes`. -/
theorem short_file_stays_degraded :
    (machine.run (fresh {} oneByte (.reset 1 1 1) 0) stalledThenComplete).avail.isComplete 0 =
        true ∧
      (machine.run (machine.run (fresh {} oneByte (.reset 1 1 1) 0) stalledThenComplete)
        [.tick 4 0, .tick 5 0]).scheduler.mode = .downloadAssist := by decide

end Playback

end SeekServe
