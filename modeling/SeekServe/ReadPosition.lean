import SeekServe.ByteSource
import SeekServe.DeadlineRuns
import SeekServe.HttpConnection

/-!
# The read position of a streamed response

One response while its chunks are read: the scheduler was told the range once, when the
request came in, and ticks on while the offset of the chunk loop moves ahead.
-/

namespace SeekServe

set_option autoImplicit false

/-- The variables of `stream_body`; `stopped` is set once the loop has been left early. -/
structure StreamedResponse where
  playback : Playback
  offset : Int
  remaining : Int
  stopped : Bool

namespace StreamedResponse

inductive Action where
  | pieceComplete (piece : Int)
  | tick (now downloadRate : Int)
  /-- The read of the current chunk returns so many bytes, and they are written. -/
  | chunk (bytesRead : Nat)
  /-- A read or a write fails. -/
  | fail

def chunkLen (s : StreamedResponse) : Int := min kChunkSize s.remaining

def Reading (s : StreamedResponse) : Prop := s.stopped = false ∧ s.remaining > 0

instance (s : StreamedResponse) : Decidable s.Reading := inferInstanceAs (Decidable (_ ∧ _))

section
variable (src : ByteSource)

/-- A read returns bytes only once the span of the chunk is complete. -/
def Returns (s : StreamedResponse) (bytesRead : Nat) : Prop :=
  s.Reading ∧ bytesRead ≤ s.chunkLen ∧
    src.isAvailable s.playback.avail s.offset s.chunkLen = true

instance (s : StreamedResponse) (bytesRead : Nat) : Decidable (Returns src s bytesRead) :=
  inferInstanceAs (Decidable (_ ∧ _))

def next (s : StreamedResponse) : Action → Option StreamedResponse
  | .pieceComplete piece => some { s with playback := s.playback.step (.pieceComplete piece) }
  | .tick now downloadRate => some { s with playback := s.playback.step (.tick now downloadRate) }
  | .chunk bytesRead =>
    if Returns src s bytesRead then
      some
        { s with
          offset := s.offset + bytesRead
          remaining := s.remaining - bytesRead
          stopped := decide (bytesRead < s.chunkLen) }
    else none
  | .fail => if s.Reading then some { s with stopped := true } else none

def system : Runs.System StreamedResponse Action := ⟨next src⟩

end

/-- The response once the range callback has been called. -/
def answer (playback : Playback) (now start length : Int) : StreamedResponse where
  playback := playback.step (.rangeRequest now ⟨start, start + length - 1⟩)
  offset := start
  remaining := length
  stopped := false

section
variable {src : ByteSource}

/-- A step of this model is a round of the loop of `stream_body`. -/
theorem streamChunks_of_chunk {s s' : StreamedResponse} {n : Nat}
    (hs : next src s (.chunk n) = some s') (io : ConnectionIo) (k : Nat) {data : List Byte}
    (hdata : data.length = n) (hread : io.read k s.offset s.chunkLen = .ok data)
    (hwrite : io.write k = none) :
    streamChunks io k s.offset s.remaining =
      .read s.offset s.chunkLen (.ok data) :: .send data true ::
        if s'.stopped then [] else streamChunks io (k + 1) s'.offset s'.remaining := by
  simp only [next] at hs
  split at hs
  · rename_i hret
    have hpos : s.remaining > 0 := hret.1.2
    cases hs
    rw [streamChunks, if_pos hpos]
    have hchunk : min kChunkSize s.remaining = s.chunkLen := rfl
    simp only [hchunk, hread, hwrite, hdata, decide_eq_true_eq]
  · cases hs

/-- The first incomplete piece of the chunk that the response is reading. -/
structure WaitsFor (src : ByteSource) (s : StreamedResponse) (q : Int) : Prop where
  reading : s.Reading
  first_le : (src.span s.offset s.chunkLen).first ≤ q
  le_last : q ≤ (src.span s.offset s.chunkLen).last
  missing : s.playback.avail.isComplete q = false
  before : ∀ p, (src.span s.offset s.chunkLen).first ≤ p → p < q →
    s.playback.avail.isComplete p = true

/-- The tick gives the piece a deadline, and counts a stall before it evaluates the mode,
whatever it has counted so far. -/
structure TickServes (s : StreamedResponse) (now downloadRate q : Int) : Prop where
  deadline : ∃ ms, .setPieceDeadline q ms ∈
    (s.playback.scheduler.tick s.playback.avail now downloadRate).1
  stall : ∀ count,
    (({ s.playback.scheduler with stallCount := count }.expireBoost now).detectStall
      s.playback.avail).stallCount = wrapInt (count + 1)

/-- Where the response is, from the byte `start` that it began with. -/
structure Progress (src : ByteSource) (config : SchedulerConfig) (start stop : Int)
    (s : StreamedResponse) : Prop where
  configured : Playback.Configured config src.mapper s.playback
  playhead : s.playback.scheduler.playheadPiece = (src.mapper.map ⟨start, stop - 1⟩).first
  start_le : start ≤ s.offset
  stop_eq : s.stopped = false → s.offset + s.remaining = stop
  read : s.stopped = false → ∀ byte, src.mapper.fileOffset + start ≤ byte →
    byte < src.mapper.fileOffset + s.offset →
      s.playback.avail.isComplete (byte / src.mapper.fs.pieceLength) = true

variable {config : SchedulerConfig} {start stop : Int}

theorem progress_background {s : StreamedResponse} (h : Progress src config start stop s)
    {ev : PlaybackEvent} (hev : ∀ now range, ev ≠ .rangeRequest now range) :
    Progress src config start stop { s with playback := s.playback.step ev } := by
  obtain ⟨_, _, _, _, _, _, hs, hplayhead⟩ := s.playback.scheduler_step ev
  constructor
  · exact Playback.configured_step h.configured ev
  · rw [hs]
    exact (hplayhead hev).trans h.playhead
  · exact h.start_le
  · exact h.stop_eq
  · intro hstopped byte h1 h2
    exact Playback.isComplete_step (h.read hstopped byte h1 h2) ev

theorem progress_next (hm : src.mapper.WellFormed) (h0 : 0 ≤ start)
    (hstop : stop ≤ src.fileSize) {s s' : StreamedResponse} {a : Action}
    (h : Progress src config start stop s) (hn : next src s a = some s') :
    Progress src config start stop s' := by
  cases a with
  | pieceComplete piece =>
    cases hn
    exact progress_background h (by simp)
  | tick now rate =>
    cases hn
    exact progress_background h (by simp)
  | chunk n =>
    simp only [next] at hn
    split at hn
    · rename_i hret
      obtain ⟨⟨hrun, hpos⟩, hle, havail⟩ := hret
      have hstop' := h.stop_eq hrun
      have hstart := h.start_le
      have hlen : 1 ≤ s.chunkLen ∧ s.chunkLen ≤ s.remaining := by
        unfold chunkLen kChunkSize
        omega
      cases hn
      refine ⟨h.configured, h.playhead, ?_, ?_, ?_⟩
      · simp only
        omega
      · intro _
        simp only
        omega
      · intro hfull byte h1 h2
        simp only at h2
        by_cases hold : byte < src.mapper.fileOffset + s.offset
        · exact h.read hrun byte h1 hold
        · exact src.byte_complete_of_spanComplete s.offset s.chunkLen hm (by omega) hlen.1
            (by omega) (v := ⟨s.playback.avail, false, .entry⟩) havail (by omega) (by omega)
    · cases hn
  | fail =>
    simp only [next] at hn
    split at hn
    · cases hn
      refine ⟨h.configured, h.playhead, h.start_le, ?_, ?_⟩ <;> intro hs <;> cases hs
    · cases hn

/-- Every piece between the playhead and the current chunk has been read. -/
theorem complete_before_chunk (hm : src.mapper.WellFormed) (h0 : 0 ≤ start)
    (hstop : stop ≤ src.fileSize) {s : StreamedResponse} (h : Progress src config start stop s)
    (hreading : s.Reading) {p : Int} (h1 : s.playback.scheduler.playheadPiece ≤ p)
    (h2 : p < (src.span s.offset s.chunkLen).first) : s.playback.avail.isComplete p = true := by
  have hl := hm.fs.pieceLength_pos
  have hend := h.stop_eq hreading.1
  have hpos := hreading.2
  have hstart := h.start_le
  have hsize : stop ≤ src.mapper.fileSize := hstop
  have hfirst : (src.span s.offset s.chunkLen).first =
      (src.mapper.fileOffset + s.offset) / src.mapper.fs.pieceLength :=
    ByteRangeMapper.first_map hm (by simp only; omega) (by simp only; omega)
  have hplayhead : s.playback.scheduler.playheadPiece =
      (src.mapper.fileOffset + start) / src.mapper.fs.pieceLength :=
    h.playhead.trans (ByteRangeMapper.first_map hm h0 (by simp only; omega))
  rw [hplayhead] at h1
  rw [hfirst] at h2
  -- a byte of the piece that the response has sent
  have hsent : ∃ byte, src.mapper.fileOffset + start ≤ byte ∧
      byte < src.mapper.fileOffset + s.offset ∧ byte / src.mapper.fs.pieceLength = p := by
    have hbelow : (p + 1) * src.mapper.fs.pieceLength ≤ src.mapper.fileOffset + s.offset :=
      (Int.le_ediv_iff_mul_le hl).mp (by omega)
    have hmul : (p + 1) * src.mapper.fs.pieceLength =
        p * src.mapper.fs.pieceLength + src.mapper.fs.pieceLength := by ring
    by_cases heq : (src.mapper.fileOffset + start) / src.mapper.fs.pieceLength = p
    · have hlt : src.mapper.fileOffset + start < (p + 1) * src.mapper.fs.pieceLength :=
        (Int.ediv_lt_iff_lt_mul hl).mp (by omega)
      exact ⟨_, Int.le_refl _, by omega, heq⟩
    · have hgt : src.mapper.fileOffset + start < p * src.mapper.fs.pieceLength :=
        (Int.ediv_lt_iff_lt_mul hl).mp (by omega)
      exact ⟨p * src.mapper.fs.pieceLength, by omega, by omega,
        Int.mul_ediv_cancel p (by omega)⟩
  obtain ⟨byte, hb1, hb2, rfl⟩ := hsent
  exact h.read hreading.1 byte hb1 hb2

theorem eq_playhead_of_missing (hm : src.mapper.WellFormed) (h0 : 0 ≤ start)
    (hstop : stop ≤ src.fileSize) {s : StreamedResponse} (h : Progress src config start stop s)
    {q : Int} (hq : WaitsFor src s q)
    (hmissing : s.playback.avail.isComplete s.playback.scheduler.playheadPiece = false) :
    q = s.playback.scheduler.playheadPiece := by
  have hend := h.stop_eq hq.reading.1
  have hpos := hq.reading.2
  have hstart := h.start_le
  have hsize : stop ≤ src.mapper.fileSize := hstop
  have hle : s.playback.scheduler.playheadPiece ≤ (src.span s.offset s.chunkLen).first := by
    have h1 : (src.mapper.map ⟨start, stop - 1⟩).first =
        (src.mapper.fileOffset + start) / src.mapper.fs.pieceLength :=
      ByteRangeMapper.first_map hm h0 (by simp only; omega)
    have h2 : (src.span s.offset s.chunkLen).first =
        (src.mapper.fileOffset + s.offset) / src.mapper.fs.pieceLength :=
      ByteRangeMapper.first_map hm (by simp only; omega) (by simp only; omega)
    rw [h.playhead, h1, h2]
    exact Int.ediv_le_ediv hm.fs.pieceLength_pos (by omega)
  have hfirst := hq.first_le
  by_contra hne
  have hcomplete : s.playback.avail.isComplete s.playback.scheduler.playheadPiece = true := by
    by_cases hbefore : s.playback.scheduler.playheadPiece < (src.span s.offset s.chunkLen).first
    · exact complete_before_chunk hm h0 hstop h hq.reading (Int.le_refl _) hbefore
    · exact hq.before _ (by omega) (by omega)
  rw [hmissing] at hcomplete
  cases hcomplete

theorem tick_schedules_playhead (hhot : 1 ≤ config.hotWindowPieces)
    (hboost : 1 ≤ wrapInt (config.hotWindowPieces + config.seekBoostPieces))
    (hbudget : 1 ≤ config.deadlineBudget)
    {s : StreamedResponse} (h : Progress src config start stop s)
    (hin : src.mapper.firstPiece ≤ s.playback.scheduler.playheadPiece ∧
      s.playback.scheduler.playheadPiece < src.mapper.endPiece)
    (hmissing : s.playback.avail.isComplete s.playback.scheduler.playheadPiece = false)
    (now downloadRate : Int) :
    ∃ ms, .setPieceDeadline s.playback.scheduler.playheadPiece ms ∈
      (s.playback.scheduler.tick s.playback.avail now downloadRate).1 := by
  obtain ⟨mode, boosting, stall, heval⟩ :=
    s.playback.scheduler.evaluate_eq s.playback.avail now downloadRate
  have hconfig := h.configured.config
  have hmapper := h.configured.mapper
  unfold StreamingScheduler.tick
  rw [heval]
  generalize hpass : ({ s.playback.scheduler with
    mode := mode, seekBoosting := boosting, stallCount := stall } : StreamingScheduler) = pass
  have hpc : pass.config = config := by rw [← hpass]; exact hconfig
  have hpm : pass.mapper = src.mapper := by rw [← hpass]; exact hmapper
  have hpp : pass.playheadPiece = s.playback.scheduler.playheadPiece := by rw [← hpass]
  have hhotSize : 1 ≤ pass.hotSize :=
    StreamingScheduler.le_hotSize (by decide) (hpc ▸ hhot) (hpc ▸ hboost)
  have hmem : pass.playheadPiece ∈ pass.chosen s.playback.avail := by
    apply StreamingScheduler.playhead_mem_chosen hhotSize (hpc ▸ hbudget)
    rw [hpm, hpp]
    exact ⟨by omega, hmissing⟩
  rw [pass.setDeadlines_calls s.playback.avail (by omega), ← hpp]
  exact ⟨_, List.mem_map_of_mem hmem⟩

theorem tickServes_iff (hm : src.mapper.WellFormed) (hhot : 1 ≤ config.hotWindowPieces)
    (hboost : 1 ≤ wrapInt (config.hotWindowPieces + config.seekBoostPieces))
    (hbudget : 1 ≤ config.deadlineBudget) (h0 : 0 ≤ start) (hstop : stop ≤ src.fileSize)
    {s : StreamedResponse} (h : Progress src config start stop s) {q : Int}
    (hq : WaitsFor src s q) (now downloadRate : Int) :
    TickServes s now downloadRate q ↔ q = s.playback.scheduler.playheadPiece := by
  have hexpire : ∀ count, ∃ boosting,
      ({ s.playback.scheduler with stallCount := count } : StreamingScheduler).expireBoost now =
        { s.playback.scheduler with stallCount := count, seekBoosting := boosting } :=
    fun count => StreamingScheduler.expireBoost_eq _ now
  constructor
  · intro hserves
    apply eq_playhead_of_missing hm h0 hstop h hq
    apply Bool.eq_false_iff.mpr
    intro hcomplete
    obtain ⟨boosting, hboosting⟩ := hexpire 0
    have hstall := hserves.stall 0
    rw [hboosting] at hstall
    unfold StreamingScheduler.detectStall at hstall
    rw [if_pos hcomplete] at hstall
    cases hstall
  · intro heq
    have hmissing := hq.missing
    rw [heq] at hmissing ⊢
    have hin : src.mapper.firstPiece ≤ s.playback.scheduler.playheadPiece ∧
        s.playback.scheduler.playheadPiece < src.mapper.endPiece := by
      have hend := h.stop_eq hq.reading.1
      have hpos := hq.reading.2
      have hstart := h.start_le
      have hsize : stop ≤ src.mapper.fileSize := hstop
      rw [h.playhead]
      exact ByteRangeMapper.first_map_mem hm h0 (by simp only; omega)
    constructor
    · exact tick_schedules_playhead hhot hboost hbudget h hin hmissing now downloadRate
    · intro count
      obtain ⟨boosting, hboosting⟩ := hexpire count
      rw [hboosting]
      unfold StreamingScheduler.detectStall
      rw [if_neg (by simp [hmissing])]

theorem progress_answer {playback : Playback}
    (h : Playback.Configured config src.mapper playback) (now start length : Int) :
    Progress src config start (start + length) (answer playback now start length) := by
  have hplayhead : (answer playback now start length).playback.scheduler.playheadPiece =
      playback.newPlayhead ⟨start, start + length - 1⟩ := by
    obtain ⟨boosting, boostStart, hmove⟩ :=
      playback.scheduler.moveTo_snd now (playback.newPlayhead ⟨start, start + length - 1⟩)
    exact congrArg StreamingScheduler.playheadPiece hmove
  constructor
  · exact Playback.configured_step h (.rangeRequest now ⟨start, start + length - 1⟩)
  · rw [hplayhead, Playback.newPlayhead, h.mapper]
  · exact Int.le_refl start
  · intro _
    rfl
  · intro _ byte h1 h2
    simp only [answer] at h2
    omega

end

/-- At every tick during a response, the piece that the response waits for is served as it
should be exactly when it is the piece at the playhead, where the range began. -/
theorem waited_piece_is_served_iff (src : ByteSource) (hm : src.mapper.WellFormed)
    (config : SchedulerConfig) (hhot : 1 ≤ config.hotWindowPieces)
    (hboost : 1 ≤ wrapInt (config.hotWindowPieces + config.seekBoostPieces))
    (hbudget : 1 ≤ config.deadlineBudget) (avail : PieceAvailabilityIndex) (created : Int)
    (earlier : List PlaybackEvent) (requested start length : Int) (h0 : 0 ≤ start)
    (hend : start + length ≤ src.fileSize) {acts : List Action} {s : StreamedResponse}
    (hs : (system src).exec
      (answer (Playback.machine.run (.fresh config src.mapper avail created) earlier) requested
        start length) acts = some s)
    {q : Int} (hq : WaitsFor src s q) (now downloadRate : Int) :
    TickServes s now downloadRate q ↔ q = s.playback.scheduler.playheadPiece := by
  have hconfigured := Playback.configured_run config src.mapper avail created earlier
  have hprogress : Progress src config start (start + length) s := by
    refine (system src).exec_invariant_of_step ?_
      (progress_answer hconfigured requested start length) hs
    intro u a u' hu hn
    exact progress_next hm h0 hend hu hn
  exact tickServes_iff hm hhot hboost hbudget h0 hend hprogress hq now downloadRate

/-- A file of three pieces, each as long as a chunk. -/
def threePieces : ByteSource where
  addr := 0
  handle := ⟨0, "downloads".toList⟩
  fileIdx := 0
  filePath := "downloads/a.mp4".toList
  mapper := ⟨.ofFiles 65536 [⟨"a.mp4".toList, 196608⟩], 0⟩

def smallWindow : SchedulerConfig := { hotWindowPieces := 1, lookaheadPieces := 1 }

def threePiecesAnswer : StreamedResponse :=
  answer (.fresh smallWindow threePieces.mapper (.reset 3 65536 65536) 0) 0 0 196608

theorem waited_piece_is_served_iff_first : TickServes threePiecesAnswer 1000000000 0 0 := by
  have hm : threePieces.mapper.WellFormed :=
    ⟨FileStorage.wellFormed_ofFiles (by decide) (by decide), by decide, by decide⟩
  have hq : WaitsFor threePieces threePiecesAnswer 0 := by
    refine ⟨by decide, by decide, by decide, by decide, ?_⟩
    intro p h1 h2
    have hle : (0 : Int) ≤ p := h1
    omega
  have hs : (system threePieces).exec threePiecesAnswer [] = some threePiecesAnswer := rfl
  exact (waited_piece_is_served_iff threePieces hm smallWindow (by decide) (by decide) (by decide)
    (.reset 3 65536 65536) 0 [] 0 0 196608 (by decide) (by decide) hs hq 1000000000 0).mpr rfl

/-- The reader waits for the third piece while the playhead stays on the first: the piece gets
no deadline, and the tick counts no stall. -/
theorem reader_ahead_of_playhead :
    ∃ s, (system threePieces).exec threePiecesAnswer
        [.pieceComplete 0, .pieceComplete 1, .chunk 65536, .chunk 65536] = some s ∧
      WaitsFor threePieces s 2 ∧
      (s.playback.scheduler.tick s.playback.avail 1000000000 0).1 = [] ∧
      ((s.playback.scheduler.expireBoost 1000000000).detectStall s.playback.avail).stallCount =
        s.playback.scheduler.stallCount := by
  refine ⟨_, rfl, ⟨by decide, by decide, by decide, by decide, ?_⟩, by decide, by decide⟩
  intro p h1 h2
  have hle : (2 : Int) ≤ p := h1
  omega

end StreamedResponse

end SeekServe
