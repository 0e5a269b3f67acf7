import SeekServe.Scheduler

/-!
# The buffer that the mode depends on

`evaluate_mode_switch` takes the bytes of the run of complete pieces from the playhead on, to
its end in the torrent, less the offset of the file in the file's first piece.
-/

namespace SeekServe

set_option autoImplicit false

namespace PieceAvailabilityIndex

/-- The loop of `contiguous_from`, over `n` pieces. -/
def countFrom (a : PieceAvailabilityIndex) (piece : Int) : Nat → Int
  | 0 => 0
  | n + 1 => if a.isComplete piece then 1 + a.countFrom (piece + 1) n else 0

def contiguousFrom (a : PieceAvailabilityIndex) (start : Int) : Int :=
  a.countFrom start (a.numPieces - start).toNat

/-- The index was made for the torrent. -/
structure Describes (a : PieceAvailabilityIndex) (fs : FileStorage) : Prop where
  numPieces : a.numPieces = fs.numPieces
  pieceLength : a.pieceLength = fs.pieceLength
  lastPieceLength : a.lastPieceLength = fs.pieceSize (fs.numPieces - 1)

end PieceAvailabilityIndex

/-- The byte of the torrent at which the piece begins, or the end of the torrent. -/
def FileStorage.pieceStart (fs : FileStorage) (piece : Int) : Int :=
  min (piece * fs.pieceLength) fs.totalSize

namespace ByteRangeMapper

def fileEnd (m : ByteRangeMapper) : Int := m.fileOffset + m.fileSize

/-- The first byte of the file that lies in the piece. -/
def firstByteIn (m : ByteRangeMapper) (piece : Int) : Int :=
  max (piece * m.fs.pieceLength) m.fileOffset

/-- So many bytes of the file can be read from the first one in the piece on. -/
structure Buffered (m : ByteRangeMapper) (avail : PieceAvailabilityIndex) (piece n : Int) :
    Prop where
  nonneg : 0 ≤ n
  inFile : m.firstByteIn piece + n ≤ m.fileEnd
  complete : ∀ byte, m.firstByteIn piece ≤ byte → byte < m.firstByteIn piece + n →
    avail.isComplete (byte / m.fs.pieceLength) = true
  maximal : m.firstByteIn piece + n < m.fileEnd →
    avail.isComplete ((m.firstByteIn piece + n) / m.fs.pieceLength) = false

end ByteRangeMapper

namespace StreamingScheduler

/-- `contig` in `evaluate_mode_switch` -/
def contig (s : StreamingScheduler) (avail : PieceAvailabilityIndex) : Int :=
  avail.contiguousBytesFrom s.playheadPiece (s.mapper.map ⟨0, 0⟩).firstOffset

/-- The mode that the switch leads to from the numbers that it compares. -/
def modeAfter (config : SchedulerConfig) (mode : StreamMode) (stallCount contig rate : Int) :
    StreamMode :=
  match mode with
  | .streamingFirst =>
    if stallCount ≥ config.stallCountThreshold then .downloadAssist else .streamingFirst
  | .downloadAssist =>
    if contig ≥ config.minContiguousBytes ∧ stallCount = 0 then .streamingFirst
    else if rate < config.minSustainedRate ∧
        stallCount ≥ wrapInt (config.stallCountThreshold * 2) then .downloadFirst
    else .downloadAssist
  | .downloadFirst =>
    if contig ≥ config.minContiguousBytes then .downloadAssist else .downloadFirst

theorem nextMode_eq (s : StreamingScheduler) (avail : PieceAvailabilityIndex) (rate : Int) :
    s.nextMode avail rate = modeAfter s.config s.mode s.stallCount (s.contig avail) rate := rfl

/-- The byte of the torrent at which the run of complete pieces from the playhead on ends. -/
def runEnd (s : StreamingScheduler) (avail : PieceAvailabilityIndex) : Int :=
  s.mapper.fs.pieceStart (s.playheadPiece + avail.contiguousFrom s.playheadPiece)

end StreamingScheduler

namespace FileStorage
variable {fs : FileStorage}

theorem numPieces_bounds (h : fs.WellFormed) :
    fs.totalSize ≤ fs.numPieces * fs.pieceLength ∧
      (fs.numPieces - 1) * fs.pieceLength < fs.totalSize := by
  have hl := h.pieceLength_pos
  have hdiv := Int.mul_ediv_add_emod (fs.totalSize + fs.pieceLength - 1) fs.pieceLength
  have hmod0 := Int.emod_nonneg (fs.totalSize + fs.pieceLength - 1) (ne_of_gt hl)
  have hmod1 := Int.emod_lt_of_pos (fs.totalSize + fs.pieceLength - 1) hl
  have hmul : fs.pieceLength * ((fs.totalSize + fs.pieceLength - 1) / fs.pieceLength) =
      fs.numPieces * fs.pieceLength := Int.mul_comm _ _
  have hpred : (fs.numPieces - 1) * fs.pieceLength =
      fs.numPieces * fs.pieceLength - fs.pieceLength := by
    rw [Int.sub_mul, Int.one_mul]
  omega

theorem mul_lt_totalSize (h : fs.WellFormed) {p : Int} (hp : p < fs.numPieces) :
    p * fs.pieceLength < fs.totalSize := by
  have hlast := (numPieces_bounds h).2
  have hle := Int.mul_le_mul_of_nonneg_right (show p ≤ fs.numPieces - 1 by omega)
    (Int.le_of_lt h.pieceLength_pos)
  omega

theorem pieceStart_eq (h : fs.WellFormed) {p : Int} (hp : p < fs.numPieces) :
    fs.pieceStart p = p * fs.pieceLength := by
  have hlt := mul_lt_totalSize h hp
  exact Int.min_eq_left (Int.le_of_lt hlt)

theorem pieceStart_succ (h : fs.WellFormed) {a : PieceAvailabilityIndex} (hd : a.Describes fs)
    {p : Int} (hp : p < fs.numPieces) :
    fs.pieceStart (p + 1) = fs.pieceStart p + a.lengthOf p := by
  have hend := (numPieces_bounds h).1
  have hsucc : (p + 1) * fs.pieceLength = p * fs.pieceLength + fs.pieceLength := by
    rw [Int.add_mul, Int.one_mul]
  rw [pieceStart_eq h hp]
  unfold PieceAvailabilityIndex.lengthOf
  rw [hd.numPieces, hd.pieceLength, hd.lastPieceLength]
  by_cases hlast : p = fs.numPieces - 1
  · have hnum : p + 1 = fs.numPieces := by omega
    rw [if_pos hlast, ← hlast, pieceStart, pieceSize]
    rw [← hnum] at hend
    omega
  · rw [if_neg hlast, pieceStart_eq h (by omega)]
    exact hsucc

end FileStorage

namespace PieceAvailabilityIndex
variable {a : PieceAvailabilityIndex}

theorem describes_markComplete {fs : FileStorage} (h : a.Describes fs) (piece : Int) :
    (a.markComplete piece).Describes fs := by
  unfold markComplete
  split
  · split
    · exact h
    · exact ⟨h.numPieces, h.pieceLength, h.lastPieceLength⟩
  · exact h

theorem countFrom_nonneg (p : Int) (n : Nat) : 0 ≤ a.countFrom p n := by
  induction n generalizing p with
  | zero => exact Int.le_refl 0
  | succ n ih =>
    have hrest := ih (p + 1)
    rw [countFrom]
    split <;> omega

theorem countFrom_le (p : Int) (n : Nat) : a.countFrom p n ≤ n := by
  induction n generalizing p with
  | zero => exact Int.le_refl 0
  | succ n ih =>
    have hrest := ih (p + 1)
    rw [countFrom]
    split <;> omega

theorem isComplete_of_lt_countFrom {p q : Int} {n : Nat} (hle : p ≤ q)
    (hlt : q < p + a.countFrom p n) : a.isComplete q = true := by
  induction n generalizing p with
  | zero =>
    rw [countFrom] at hlt
    omega
  | succ n ih =>
    rw [countFrom] at hlt
    split at hlt
    · rename_i hc
      by_cases hq : q = p
      · rw [hq]
        exact hc
      · exact ih (p := p + 1) (by omega) (by omega)
    · omega

theorem isComplete_countFrom {p : Int} {n : Nat} (h : a.countFrom p n < n) :
    a.isComplete (p + a.countFrom p n) = false := by
  induction n generalizing p with
  | zero =>
    rw [countFrom] at h
    omega
  | succ n ih =>
    rw [countFrom] at h ⊢
    split at h
    · rename_i hc
      rw [if_pos hc]
      have hrest := ih (p := p + 1) (by omega)
      have hsum : p + (1 + a.countFrom (p + 1) n) = p + 1 + a.countFrom (p + 1) n := by omega
      rw [hsum]
      exact hrest
    · rename_i hc
      rw [if_neg hc, Int.add_zero]
      exact Bool.eq_false_of_not_eq_true hc

/-- The run ends with a piece that is not complete, or that does not exist. -/
theorem isComplete_contiguousFrom {p : Int} (hp : p ≤ a.numPieces) :
    a.isComplete (p + a.contiguousFrom p) = false := by
  have hle := a.countFrom_le p (a.numPieces - p).toNat
  by_cases hlt : a.contiguousFrom p < (a.numPieces - p).toNat
  · exact isComplete_countFrom hlt
  · have hend : p + a.contiguousFrom p = a.numPieces := by
      unfold contiguousFrom at hlt ⊢
      omega
    rw [hend, isComplete, if_neg]
    rintro ⟨_, h⟩
    exact Int.lt_irrefl _ h

theorem bytesFrom_eq {fs : FileStorage} (h : fs.WellFormed) (hd : a.Describes fs) {p : Int}
    {n : Nat} (hn : p + n ≤ fs.numPieces) :
    a.bytesFrom p n = fs.pieceStart (p + a.countFrom p n) - fs.pieceStart p := by
  induction n generalizing p with
  | zero =>
    rw [bytesFrom, countFrom, Int.add_zero]
    omega
  | succ n ih =>
    have hsucc := FileStorage.pieceStart_succ h hd (p := p) (by omega)
    have hsum : p + (1 + a.countFrom (p + 1) n) = p + 1 + a.countFrom (p + 1) n := by omega
    rw [bytesFrom, countFrom]
    split
    · rw [ih (by omega), hsum, hsucc]
      omega
    · rw [Int.add_zero]
      omega

theorem contiguousBytesFrom_eq {fs : FileStorage} (h : fs.WellFormed) (hd : a.Describes fs)
    {p : Int} (hp : p < fs.numPieces) (hc : a.isComplete p = true) (offset : Int) :
    a.contiguousBytesFrom p offset =
      fs.pieceStart (p + a.contiguousFrom p) - fs.pieceStart p - offset := by
  have hsucc := FileStorage.pieceStart_succ h hd hp
  have hnum := hd.numPieces
  obtain ⟨n, hn⟩ : ∃ n : Nat, n = (a.numPieces - (p + 1)).toNat := ⟨_, rfl⟩
  have hall : (a.numPieces - p).toNat = n + 1 := by omega
  have hbytes := bytesFrom_eq h hd (p := p + 1) (n := n) (by omega)
  have hsum : p + (1 + a.countFrom (p + 1) n) = p + 1 + a.countFrom (p + 1) n := by omega
  rw [contiguousBytesFrom, if_pos hc, ← hn, hbytes, contiguousFrom, hall, countFrom, if_pos hc,
    hsum]
  omega

end PieceAvailabilityIndex

namespace ByteRangeMapper
variable {m : ByteRangeMapper} {avail : PieceAvailabilityIndex} {p : Int}

theorem Buffered.unique {n n' : Int} (h : m.Buffered avail p n) (h' : m.Buffered avail p n') :
    n = n' := by
  have hshort : ∀ {k k' : Int}, m.Buffered avail p k → m.Buffered avail p k' → ¬k < k' := by
    intro k k' hk hk' hlt
    have hnonneg := hk.nonneg
    have hin := hk'.inFile
    have hnext := hk'.complete (m.firstByteIn p + k) (by omega) (by omega)
    rw [hk.maximal (by omega)] at hnext
    cases hnext
  have h1 := hshort h h'
  have h2 := hshort h' h
  omega

section InFile
variable (hm : m.WellFormed) (hsize : 0 < m.fileSize) (hfirst : m.firstPiece ≤ p)
  (hend : p < m.endPiece)
include hm hsize

theorem firstPiece_eq : m.firstPiece = m.fileOffset / m.fs.pieceLength := by
  have h := piece_of_mapFile hm (Int.le_refl 0) hsize
  rw [Int.add_zero] at h
  exact h

theorem firstOffset_eq : (m.map ⟨0, 0⟩).firstOffset = m.fileOffset % m.fs.pieceLength := by
  have hin := FileStorage.fileOffset_add_fileSize_le hm.fs (f := m.fileIdx)
  have h := hm.fs.mapFile_spec m.fileIdx 0 hm.fileIdx_nonneg hm.fileIdx_lt (Int.le_refl 0) (by
    unfold fileSize at hsize
    omega)
  rw [Int.add_zero] at h
  exact congrArg PeerRequest.start h

include hfirst hend

theorem piece_bounds : m.fileOffset < (p + 1) * m.fs.pieceLength ∧
    p * m.fs.pieceLength < m.fileEnd := by
  have hl := hm.fs.pieceLength_pos
  have hlast := piece_of_mapFile hm (show 0 ≤ m.fileSize - 1 by omega) (by omega)
  rw [firstPiece_eq hm hsize] at hfirst
  rw [endPiece, if_neg (by omega), hlast] at hend
  constructor
  · exact (Int.ediv_lt_iff_lt_mul hl).mp (by omega)
  · have hmul := (Int.le_ediv_iff_mul_le hl).mp
      (show p ≤ (m.fileOffset + (m.fileSize - 1)) / m.fs.pieceLength by omega)
    unfold fileEnd
    omega

theorem lt_numPieces : p < m.fs.numPieces := by
  have hin := FileStorage.fileOffset_add_fileSize_le hm.fs (f := m.fileIdx)
  have hbounds := (piece_bounds hm hsize hfirst hend).2
  have htotal := (FileStorage.numPieces_bounds hm.fs).1
  by_contra hge
  have hmul := Int.mul_le_mul_of_nonneg_right (show m.fs.numPieces ≤ p by omega)
    (Int.le_of_lt hm.fs.pieceLength_pos)
  unfold fileEnd fileOffset fileSize at hbounds
  omega

theorem firstByteIn_bounds : p * m.fs.pieceLength ≤ m.firstByteIn p ∧
    m.firstByteIn p < (p + 1) * m.fs.pieceLength ∧ m.firstByteIn p < m.fileEnd := by
  have hl := hm.fs.pieceLength_pos
  have hbounds := piece_bounds hm hsize hfirst hend
  have hsucc : (p + 1) * m.fs.pieceLength = p * m.fs.pieceLength + m.fs.pieceLength := by
    rw [Int.add_mul, Int.one_mul]
  unfold firstByteIn
  unfold fileEnd at hbounds ⊢
  omega

theorem buffered_of_incomplete (hc : avail.isComplete p = false) : m.Buffered avail p 0 := by
  have hl := hm.fs.pieceLength_pos
  obtain ⟨hlow, hhigh, hfile⟩ := firstByteIn_bounds hm hsize hfirst hend
  refine ⟨Int.le_refl 0, by omega, fun byte h1 h2 => by omega, fun _ => ?_⟩
  have hpiece : (m.firstByteIn p + 0) / m.fs.pieceLength = p := by
    have h1 := (Int.le_ediv_iff_mul_le hl).mpr (show p * m.fs.pieceLength ≤ m.firstByteIn p + 0 by
      omega)
    have h2 := (Int.ediv_lt_iff_lt_mul hl).mpr
      (show m.firstByteIn p + 0 < (p + 1) * m.fs.pieceLength by omega)
    omega
  rw [hpiece]
  exact hc

theorem buffered_of_complete (hd : avail.Describes m.fs) (hc : avail.isComplete p = true) :
    m.Buffered avail p
      (min (m.fs.pieceStart (p + avail.contiguousFrom p)) m.fileEnd - m.firstByteIn p) := by
  have hl := hm.fs.pieceLength_pos
  have hnum := hd.numPieces
  have hlt := lt_numPieces hm hsize hfirst hend
  have hin := FileStorage.fileOffset_add_fileSize_le hm.fs (f := m.fileIdx)
  have hnext := avail.isComplete_contiguousFrom (p := p) (by omega)
  obtain ⟨hlow, hhigh, hfile⟩ := firstByteIn_bounds hm hsize hfirst hend
  have hpos : 1 ≤ avail.contiguousFrom p := by
    have hnonneg : 0 ≤ avail.contiguousFrom p := avail.countFrom_nonneg _ _
    by_contra hzero
    have hnone : avail.contiguousFrom p = 0 := by omega
    rw [hnone, Int.add_zero, hc] at hnext
    cases hnext
  have hmul := Int.mul_le_mul_of_nonneg_right
    (show p + 1 ≤ p + avail.contiguousFrom p by omega) (Int.le_of_lt hl)
  have htotal : m.fileEnd ≤ m.fs.totalSize := hin
  unfold FileStorage.pieceStart
  constructor
  · omega
  · omega
  · intro byte h1 h2
    apply avail.isComplete_of_lt_countFrom (p := p) (n := (avail.numPieces - p).toNat)
    · exact (Int.le_ediv_iff_mul_le hl).mpr (by omega)
    · apply (Int.ediv_lt_iff_lt_mul hl).mpr
      show byte < (p + avail.contiguousFrom p) * m.fs.pieceLength
      omega
  · intro hless
    have hat : m.firstByteIn p + (min (min ((p + avail.contiguousFrom p) * m.fs.pieceLength)
        m.fs.totalSize) m.fileEnd - m.firstByteIn p) =
        (p + avail.contiguousFrom p) * m.fs.pieceLength := by omega
    rw [hat, Int.mul_ediv_cancel _ (ne_of_gt hl)]
    exact hnext

theorem buffered_iff (hd : avail.Describes m.fs) (n : Int) :
    m.Buffered avail p n ↔
      n = if avail.isComplete p then
        min (m.fs.pieceStart (p + avail.contiguousFrom p)) m.fileEnd - m.firstByteIn p
      else 0 := by
  by_cases hc : avail.isComplete p = true
  · have hbuf := buffered_of_complete hm hsize hfirst hend hd hc
    rw [if_pos hc]
    exact ⟨fun h => h.unique hbuf, fun h => h ▸ hbuf⟩
  · have hbuf := buffered_of_incomplete hm hsize hfirst hend (Bool.eq_false_of_not_eq_true hc)
    rw [if_neg hc]
    exact ⟨fun h => h.unique hbuf, fun h => h ▸ hbuf⟩

omit hend in
/-- Where in its piece the part of the file begins. -/
theorem firstByteIn_eq : m.firstByteIn p =
    p * m.fs.pieceLength + if p = m.firstPiece then m.fileOffset % m.fs.pieceLength else 0 := by
  have hl := hm.fs.pieceLength_pos
  have hdiv := Int.mul_ediv_add_emod m.fileOffset m.fs.pieceLength
  have hmod0 := Int.emod_nonneg m.fileOffset (ne_of_gt hl)
  have hmod1 := Int.emod_lt_of_pos m.fileOffset hl
  rw [Int.mul_comm, ← firstPiece_eq hm hsize] at hdiv
  unfold firstByteIn
  by_cases hp : p = m.firstPiece
  · rw [if_pos hp, hp]
    omega
  · have hmul := Int.mul_le_mul_of_nonneg_right (show m.firstPiece + 1 ≤ p by omega)
      (Int.le_of_lt hl)
    rw [Int.add_mul, Int.one_mul] at hmul
    rw [if_neg hp]
    omega

end InFile

end ByteRangeMapper

/-- The cut at the file's first piece is made at every piece, and none at the end of the file. -/
theorem StreamingScheduler.contig_eq {s : StreamingScheduler} (hm : s.mapper.WellFormed)
    (hsize : 0 < s.mapper.fileSize) {avail : PieceAvailabilityIndex}
    (hd : avail.Describes s.mapper.fs) (hfirst : s.mapper.firstPiece ≤ s.playheadPiece)
    (hend : s.playheadPiece < s.mapper.endPiece)
    (hc : avail.isComplete s.playheadPiece = true) :
    s.contig avail = s.runEnd avail - s.playheadPiece * s.mapper.fs.pieceLength -
      s.mapper.fileOffset % s.mapper.fs.pieceLength := by
  have hlt := ByteRangeMapper.lt_numPieces hm hsize hfirst hend
  unfold contig runEnd
  rw [ByteRangeMapper.firstOffset_eq hm hsize,
    PieceAvailabilityIndex.contiguousBytesFrom_eq hm.fs hd hlt hc,
    FileStorage.pieceStart_eq hm.fs hlt]

/-- The number that the mode switch compares is the file's buffer if and only if the playhead
piece is missing or the bytes of other files after it that are counted make up for the offset
that is taken off at every piece, and should be at the first one. -/
theorem StreamingScheduler.buffered_contig_iff (s : StreamingScheduler) (hm : s.mapper.WellFormed)
    (hsize : 0 < s.mapper.fileSize) (avail : PieceAvailabilityIndex)
    (hd : avail.Describes s.mapper.fs) (hfirst : s.mapper.firstPiece ≤ s.playheadPiece)
    (hend : s.playheadPiece < s.mapper.endPiece) :
    s.mapper.Buffered avail s.playheadPiece (s.contig avail) ↔
      (avail.isComplete s.playheadPiece = true →
        max 0 (s.runEnd avail - s.mapper.fileEnd) =
          if s.playheadPiece = s.mapper.firstPiece then 0
          else s.mapper.fileOffset % s.mapper.fs.pieceLength) := by
  rw [ByteRangeMapper.buffered_iff hm hsize hfirst hend hd]
  by_cases hc : avail.isComplete s.playheadPiece = true
  · rw [if_pos hc, contig_eq hm hsize hd hfirst hend hc,
      ByteRangeMapper.firstByteIn_eq hm hsize hfirst]
    unfold runEnd
    by_cases hp : s.playheadPiece = s.mapper.firstPiece
    · rw [if_pos hp, if_pos hp]
      constructor
      · intro h _
        omega
      · intro h
        have hcut := h hc
        omega
    · rw [if_neg hp, if_neg hp]
      constructor
      · intro h _
        omega
      · intro h
        have hcut := h hc
        omega
  · rw [if_neg hc, contig, PieceAvailabilityIndex.contiguousBytesFrom, if_neg hc]
    exact iff_of_true rfl fun h => absurd h hc

/-- Three pieces of four bytes, the last one of a single byte; the file begins at the fourth
byte. -/
def sixBytes : ByteRangeMapper :=
  ⟨.ofFiles 4 [⟨"a.nfo".toList, 3⟩, ⟨"b.mp4".toList, 6⟩], 1⟩

theorem wellFormed_sixBytes : sixBytes.WellFormed := by
  refine ⟨FileStorage.wellFormed_ofFiles (by decide) ?_, by decide, by decide⟩
  intro f hf
  rcases List.mem_cons.mp hf with rfl | hf
  · decide
  · rw [List.mem_singleton.mp hf]
    decide

def sixBytesAt (playhead : Int) : StreamingScheduler :=
  { StreamingScheduler.create {} sixBytes 0 with playheadPiece := playhead }

theorem buffered_contig_iff_six :
    sixBytes.Buffered ((PieceAvailabilityIndex.reset 3 4 1).markComplete 0) 0 1 :=
  ((sixBytesAt 0).buffered_contig_iff wellFormed_sixBytes (by decide)
    ((PieceAvailabilityIndex.reset 3 4 1).markComplete 0) ⟨by decide, by decide, by decide⟩
    (by decide) (by decide)).mpr (by decide)

/-- The last byte of the file is there, and the number is negative. -/
theorem contig_negative :
    (sixBytesAt 2).contig ((PieceAvailabilityIndex.reset 3 4 1).markComplete 2) = -2 ∧
      ¬sixBytes.Buffered ((PieceAvailabilityIndex.reset 3 4 1).markComplete 2) 2 (-2) := by
  refine ⟨by decide, fun h => ?_⟩
  have hnonneg := h.nonneg
  omega

end SeekServe
