import SeekServe.ContiguousBuffer

/-!
# The pieces of a byte range

`map` returns the pieces that hold the range, with the place of its first byte and the end of
its last one.
-/

namespace SeekServe

set_option autoImplicit false

namespace FileStorage
variable {fs : FileStorage}

/-- The piece holds the byte of the torrent. -/
def Holds (fs : FileStorage) (piece byte : Int) : Prop :=
  piece * fs.pieceLength ≤ byte ∧ byte < min ((piece + 1) * fs.pieceLength) fs.totalSize

theorem holds_iff (h : fs.WellFormed) {piece byte : Int} (hbyte : byte < fs.totalSize) :
    fs.Holds piece byte ↔ piece = byte / fs.pieceLength := by
  have hl := h.pieceLength_pos
  have hlow := Int.le_ediv_iff_mul_le hl (a := piece) (b := byte)
  have hhigh := Int.ediv_lt_iff_lt_mul hl (a := byte) (b := piece + 1)
  unfold Holds
  omega

theorem ediv_mul_add_emod (h : fs.WellFormed) (byte : Int) :
    byte / fs.pieceLength * fs.pieceLength + byte % fs.pieceLength = byte ∧
      0 ≤ byte % fs.pieceLength ∧ byte % fs.pieceLength < fs.pieceLength := by
  have hl := h.pieceLength_pos
  have hdiv := Int.mul_ediv_add_emod byte fs.pieceLength
  rw [Int.mul_comm] at hdiv
  exact ⟨hdiv, Int.emod_nonneg byte (ne_of_gt hl), Int.emod_lt_of_pos byte hl⟩

theorem emod_lt_pieceSize (h : fs.WellFormed) {b : Int} (hb : b < fs.totalSize) :
    b % fs.pieceLength < fs.pieceSize (b / fs.pieceLength) := by
  obtain ⟨hdiv, hmod0, hmod1⟩ := ediv_mul_add_emod h b
  unfold pieceSize
  omega

end FileStorage

namespace ByteRangeMapper
variable {m : ByteRangeMapper}

theorem fileEnd_le (h : m.WellFormed) : m.fileOffset + m.fileSize ≤ m.fs.totalSize :=
  FileStorage.fileOffset_add_fileSize_le h.fs

theorem mapFile_eq (h : m.WellFormed) {o : Int} (h0 : 0 ≤ o) (hlt : o < m.fileSize) :
    m.fs.mapFile m.fileIdx o 1 =
      ⟨(m.fileOffset + o) / m.fs.pieceLength, (m.fileOffset + o) % m.fs.pieceLength, 1⟩ := by
  have hend := fileEnd_le h
  refine h.fs.mapFile_spec m.fileIdx o h.fileIdx_nonneg h.fileIdx_lt h0 ?_
  change m.fileOffset + o < m.fs.totalSize
  omega

theorem endPiece_eq (h : m.WellFormed) (hsize : 0 < m.fileSize) :
    m.endPiece = (m.fileOffset + (m.fileSize - 1)) / m.fs.pieceLength + 1 := by
  rw [endPiece, if_neg (by omega), piece_of_mapFile h (by omega) (by omega)]

/-- The span of a range in the file, without `map_file`. The cut of the last length at the
size of its piece never applies. -/
theorem map_eq (h : m.WellFormed) {range : ByteRange} (h0 : 0 ≤ range.start)
    (hle : range.start ≤ range.stop) (hlt : range.stop < m.fileSize) :
    m.map range =
      { first := (m.fileOffset + range.start) / m.fs.pieceLength
        last := (m.fileOffset + range.stop) / m.fs.pieceLength
        firstOffset := (m.fileOffset + range.start) % m.fs.pieceLength
        lastLength := (m.fileOffset + range.stop) % m.fs.pieceLength + 1 } := by
  have hend := fileEnd_le h
  have hsmall := FileStorage.emod_lt_pieceSize h.fs (b := m.fileOffset + range.stop) (by omega)
  unfold map
  rw [mapFile_eq h h0 (by omega), mapFile_eq h (by omega) hlt]
  simp only
  rw [if_neg (by omega)]

/-- A piece lies in the span of a range exactly if it holds a byte of the range. -/
theorem mem_map_iff (h : m.WellFormed) {range : ByteRange} (h0 : 0 ≤ range.start)
    (hle : range.start ≤ range.stop) (hlt : range.stop < m.fileSize) (p : Int) :
    (m.map range).first ≤ p ∧ p ≤ (m.map range).last ↔
      ∃ o, range.start ≤ o ∧ o ≤ range.stop ∧ m.fs.Holds p (m.fileOffset + o) := by
  have hl := h.fs.pieceLength_pos
  have hend := fileEnd_le h
  rw [map_eq h h0 hle hlt]
  simp only
  constructor
  · intro hp
    obtain ⟨hfirst, hlast⟩ := hp
    have hlow := (Int.ediv_lt_iff_lt_mul hl (a := m.fileOffset + range.start) (b := p + 1)).mp
      (by omega)
    have hhigh := (Int.le_ediv_iff_mul_le hl).mp hlast
    -- the first byte of the range that the piece can hold
    refine ⟨max range.start (p * m.fs.pieceLength - m.fileOffset), by omega, by omega, ?_⟩
    have hsucc : (p + 1) * m.fs.pieceLength = p * m.fs.pieceLength + m.fs.pieceLength := by
      rw [Int.add_mul, Int.one_mul]
    unfold FileStorage.Holds
    omega
  · intro hp
    obtain ⟨o, hstart, hstop, hholds⟩ := hp
    have hpiece := (FileStorage.holds_iff h.fs (by omega)).mp hholds
    rw [hpiece]
    exact ⟨Int.ediv_le_ediv hl (by omega), Int.ediv_le_ediv hl (by omega)⟩

/-- The span of a range in the file is the set of its pieces, cut where the range begins and
ends, and lies within the file's own pieces. -/
theorem map_exact (m : ByteRangeMapper) (h : m.WellFormed) (range : ByteRange)
    (h0 : 0 ≤ range.start) (hle : range.start ≤ range.stop) (hlt : range.stop < m.fileSize) :
    (∀ p, (m.map range).first ≤ p ∧ p ≤ (m.map range).last ↔
        ∃ o, range.start ≤ o ∧ o ≤ range.stop ∧ m.fs.Holds p (m.fileOffset + o)) ∧
      (m.map range).first * m.fs.pieceLength + (m.map range).firstOffset =
        m.fileOffset + range.start ∧
      (m.map range).last * m.fs.pieceLength + (m.map range).lastLength =
        m.fileOffset + range.stop + 1 ∧
      (0 ≤ (m.map range).firstOffset ∧
        (m.map range).firstOffset < m.fs.pieceSize (m.map range).first) ∧
      (1 ≤ (m.map range).lastLength ∧
        (m.map range).lastLength ≤ m.fs.pieceSize (m.map range).last) ∧
      m.firstPiece ≤ (m.map range).first ∧ (m.map range).first ≤ (m.map range).last ∧
      (m.map range).last < m.endPiece := by
  have hl := h.fs.pieceLength_pos
  have hend := fileEnd_le h
  obtain ⟨hdiv, hmod0, _⟩ := FileStorage.ediv_mul_add_emod h.fs (m.fileOffset + range.start)
  obtain ⟨hdiv', hmod0', _⟩ := FileStorage.ediv_mul_add_emod h.fs (m.fileOffset + range.stop)
  have hsize := FileStorage.emod_lt_pieceSize h.fs (b := m.fileOffset + range.start) (by omega)
  have hsize' := FileStorage.emod_lt_pieceSize h.fs (b := m.fileOffset + range.stop) (by omega)
  have hlow : m.fileOffset / m.fs.pieceLength ≤
      (m.fileOffset + range.start) / m.fs.pieceLength := Int.ediv_le_ediv hl (by omega)
  have hmid : (m.fileOffset + range.start) / m.fs.pieceLength ≤
      (m.fileOffset + range.stop) / m.fs.pieceLength := Int.ediv_le_ediv hl (by omega)
  have hhigh : (m.fileOffset + range.stop) / m.fs.pieceLength ≤
      (m.fileOffset + (m.fileSize - 1)) / m.fs.pieceLength := Int.ediv_le_ediv hl (by omega)
  refine ⟨mem_map_iff h h0 hle hlt, ?_⟩
  rw [map_eq h h0 hle hlt, firstPiece_eq h (by omega), endPiece_eq h (by omega)]
  simp only
  refine ⟨hdiv, by omega, ⟨hmod0, hsize⟩, ⟨by omega, by omega⟩, hlow, hmid, by omega⟩

/-- The range ends with the one byte of the last piece. -/
theorem map_exact_six :
    (sixBytes.map ⟨1, 5⟩).last * 4 + (sixBytes.map ⟨1, 5⟩).lastLength = 3 + 5 + 1 :=
  (map_exact sixBytes wellFormed_sixBytes ⟨1, 5⟩ (by decide) (by decide) (by decide)).2.2.1

end ByteRangeMapper

end SeekServe
