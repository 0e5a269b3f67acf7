import SeekServe.Types

/-!
# File layout of a torrent and the byte range mapper

The files of a torrent are laid end to end and cut into pieces of one length.
`map_file` belongs to libtorrent; what the mapper relies on is `WellFormed.mapFile_spec`.
-/

namespace SeekServe

set_option autoImplicit false

structure FileEntry where
  path : CxxString
  size : Int
  deriving DecidableEq, Repr

structure PeerRequest where
  piece : Int
  start : Int
  length : Int
  deriving DecidableEq, Repr

structure FileStorage where
  pieceLength : Int
  files : List FileEntry
  mapFile : Int → Int → Int → PeerRequest

namespace FileStorage

def numFiles (fs : FileStorage) : Int := fs.files.length

def fileSize (fs : FileStorage) (f : Int) : Int := (fs.files[f.toNat]?.map FileEntry.size).getD 0

def filePath (fs : FileStorage) (f : Int) : CxxString :=
  (fs.files[f.toNat]?.map FileEntry.path).getD []

def fileOffset (fs : FileStorage) (f : Int) : Int :=
  ((fs.files.take f.toNat).map FileEntry.size).sum

def totalSize (fs : FileStorage) : Int := (fs.files.map FileEntry.size).sum

def numPieces (fs : FileStorage) : Int := (fs.totalSize + fs.pieceLength - 1) / fs.pieceLength

def pieceSize (fs : FileStorage) (p : Int) : Int :=
  min fs.pieceLength (fs.totalSize - p * fs.pieceLength)

structure WellFormed (fs : FileStorage) : Prop where
  pieceLength_pos : 0 < fs.pieceLength
  size_nonneg : ∀ f ∈ fs.files, 0 ≤ f.size
  mapFile_spec : ∀ f o, 0 ≤ f → f < fs.numFiles → 0 ≤ o → fs.fileOffset f + o < fs.totalSize →
    fs.mapFile f o 1 =
      ⟨(fs.fileOffset f + o) / fs.pieceLength, (fs.fileOffset f + o) % fs.pieceLength, 1⟩

/-- The storage whose `map_file` divides the torrent byte by the piece length. -/
def ofFiles (pieceLength : Int) (files : List FileEntry) : FileStorage where
  pieceLength := pieceLength
  files := files
  mapFile f o size :=
    let total := (files.map FileEntry.size).sum
    let byte := ((files.take f.toNat).map FileEntry.size).sum + o
    if byte < total then ⟨byte / pieceLength, byte % pieceLength, min size (total - byte)⟩
    else ⟨(total + pieceLength - 1) / pieceLength, 0, 0⟩

theorem wellFormed_ofFiles {pieceLength : Int} {files : List FileEntry} (hl : 0 < pieceLength)
    (hs : ∀ f ∈ files, 0 ≤ f.size) : (ofFiles pieceLength files).WellFormed := by
  refine ⟨hl, hs, ?_⟩
  intro f o _ _ _ hlt
  simp only [ofFiles, fileOffset, totalSize] at hlt ⊢
  have hmin : min 1 ((files.map FileEntry.size).sum -
      (((files.take f.toNat).map FileEntry.size).sum + o)) = 1 := by omega
  rw [if_pos hlt, hmin]

theorem sum_sizes_nonneg {files : List FileEntry} (hs : ∀ f ∈ files, 0 ≤ f.size) :
    0 ≤ (files.map FileEntry.size).sum := by
  apply List.sum_nonneg
  intro x hx
  obtain ⟨f, hf, rfl⟩ := List.mem_map.mp hx
  exact hs f hf

theorem fileOffset_add_fileSize_le {fs : FileStorage} (h : fs.WellFormed) {f : Int} :
    fs.fileOffset f + fs.fileSize f ≤ fs.totalSize := by
  unfold fileOffset fileSize totalSize
  generalize hk : f.toNat = k
  clear hk f
  by_cases hlt : k < fs.files.length
  · have hsplit : fs.files = fs.files.take k ++ fs.files[k] :: fs.files.drop (k + 1) := by
      rw [List.getElem_cons_drop, List.take_append_drop]
    have hrest : 0 ≤ ((fs.files.drop (k + 1)).map FileEntry.size).sum :=
      sum_sizes_nonneg fun x hx => h.size_nonneg x (List.mem_of_mem_drop hx)
    have hsum := congrArg (fun fl => (List.map FileEntry.size fl).sum) hsplit
    simp only [List.map_append, List.map_cons, List.sum_append, List.sum_cons] at hsum
    rw [List.getElem?_eq_getElem hlt, Option.map_some, Option.getD_some]
    omega
  · have hnone : fs.files[k]? = none := List.getElem?_eq_none (by omega)
    rw [hnone, List.take_of_length_le (by omega), Option.map_none, Option.getD_none]
    omega

end FileStorage

structure ByteRangeMapper where
  fs : FileStorage
  fileIdx : Int

namespace ByteRangeMapper

def fileOffset (m : ByteRangeMapper) : Int := m.fs.fileOffset m.fileIdx

def fileSize (m : ByteRangeMapper) : Int := m.fs.fileSize m.fileIdx

def map (m : ByteRangeMapper) (range : ByteRange) : PieceSpan :=
  let firstReq := m.fs.mapFile m.fileIdx range.start 1
  let lastReq := m.fs.mapFile m.fileIdx range.stop 1
  let lastPieceLen := m.fs.pieceSize lastReq.piece
  let lastLength := lastReq.start + lastReq.length
  { first := firstReq.piece
    last := lastReq.piece
    firstOffset := firstReq.start
    lastLength := if lastLength > lastPieceLen then lastPieceLen else lastLength }

def firstPiece (m : ByteRangeMapper) : Int := (m.fs.mapFile m.fileIdx 0 1).piece

def endPiece (m : ByteRangeMapper) : Int :=
  if m.fileSize = 0 then m.firstPiece
  else (m.fs.mapFile m.fileIdx (m.fileSize - 1) 1).piece + 1

structure WellFormed (m : ByteRangeMapper) : Prop where
  fs : m.fs.WellFormed
  fileIdx_nonneg : 0 ≤ m.fileIdx
  fileIdx_lt : m.fileIdx < m.fs.numFiles

theorem piece_of_mapFile {m : ByteRangeMapper} (h : m.WellFormed) {o : Int} (h0 : 0 ≤ o)
    (hlt : o < m.fileSize) :
    (m.fs.mapFile m.fileIdx o 1).piece = (m.fileOffset + o) / m.fs.pieceLength := by
  have hend := FileStorage.fileOffset_add_fileSize_le h.fs (f := m.fileIdx)
  unfold fileSize at hlt
  rw [h.fs.mapFile_spec m.fileIdx o h.fileIdx_nonneg h.fileIdx_lt h0 (by omega)]
  rfl

theorem first_map {m : ByteRangeMapper} (h : m.WellFormed) {range : ByteRange}
    (h0 : 0 ≤ range.start) (hlt : range.start < m.fileSize) :
    (m.map range).first = (m.fileOffset + range.start) / m.fs.pieceLength :=
  piece_of_mapFile h h0 hlt

theorem last_map {m : ByteRangeMapper} (h : m.WellFormed) {range : ByteRange}
    (h0 : 0 ≤ range.stop) (hlt : range.stop < m.fileSize) :
    (m.map range).last = (m.fileOffset + range.stop) / m.fs.pieceLength :=
  piece_of_mapFile h h0 hlt

/-- Every torrent byte of a range lies in a piece of the span that the range maps to. -/
theorem piece_mem_map {m : ByteRangeMapper} (h : m.WellFormed) (range : ByteRange)
    (h0 : 0 ≤ range.start) (hle : range.start ≤ range.stop) (hlt : range.stop < m.fileSize)
    {byte : Int} (h1 : m.fileOffset + range.start ≤ byte) (h2 : byte ≤ m.fileOffset + range.stop) :
    (m.map range).first ≤ byte / m.fs.pieceLength ∧
      byte / m.fs.pieceLength ≤ (m.map range).last := by
  have hl := h.fs.pieceLength_pos
  rw [first_map h h0 (by omega), last_map h (by omega) hlt]
  exact ⟨Int.ediv_le_ediv hl h1, Int.ediv_le_ediv hl h2⟩

/-- A range that begins in the file begins in one of the file's pieces. -/
theorem first_map_mem {m : ByteRangeMapper} (h : m.WellFormed) {range : ByteRange}
    (h0 : 0 ≤ range.start) (hlt : range.start < m.fileSize) :
    m.firstPiece ≤ (m.map range).first ∧ (m.map range).first < m.endPiece := by
  have hl := h.fs.pieceLength_pos
  have hfirst : m.firstPiece = (m.fileOffset + 0) / m.fs.pieceLength :=
    piece_of_mapFile h (Int.le_refl 0) (by omega)
  have hend : m.endPiece = (m.fileOffset + (m.fileSize - 1)) / m.fs.pieceLength + 1 := by
    rw [endPiece, if_neg (by omega), piece_of_mapFile h (by omega) (by omega)]
  rw [first_map h h0 hlt, hfirst, hend]
  have h1 := Int.ediv_le_ediv hl (a := m.fileOffset + 0) (b := m.fileOffset + range.start) (by omega)
  have h2 := Int.ediv_le_ediv hl (a := m.fileOffset + range.start)
    (b := m.fileOffset + (m.fileSize - 1)) (by omega)
  omega

end ByteRangeMapper

end SeekServe
