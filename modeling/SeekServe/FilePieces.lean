import SeekServe.Engine
import SeekServe.PieceSpans

/-!
# The pieces of a file

The catalog, the mapper, the progress of a tick and the byte source each have their own way to
the pieces of a file.
-/

namespace SeekServe

set_option autoImplicit false

/-- The pieces `0, 1, …` as integers. -/
theorem range_cast (n : Nat) :
    (do let p ← List.range n; pure (p : Int)) = (List.range n).map fun p : Nat => (p : Int) := by
  simp [← List.map_eq_flatMap]

namespace SeekServeEngine

/-- `completed` in `on_tick` -/
def completedPieces (state : TorrentState) : Nat :=
  (List.range (state.mapper.endPiece - state.mapper.firstPiece).toNat).countP fun p : Nat =>
    state.avail.isComplete (state.mapper.firstPiece + p)

/-- `total` in `on_tick` -/
def totalPieces (state : TorrentState) : Int := state.mapper.endPiece - state.mapper.firstPiece

theorem fileProgress_eq (state : TorrentState) :
    fileProgress state =
      if totalPieces state > 0 then (completedPieces state : Rat) / totalPieces state else 0 := by
  unfold fileProgress totalPieces completedPieces
  simp only [range_cast, List.countP_map]
  rfl

end SeekServeEngine

/-- What is stored of a file fits its mapper, its bytes, its progress and its sources. -/
structure FileInfo.Agrees (file : FileInfo) (m : ByteRangeMapper) : Prop where
  firstPiece : file.firstPiece = m.firstPiece
  endPiece : file.endPiece = m.endPiece
  pieces : ∀ p, file.firstPiece ≤ p ∧ p < file.endPiece ↔
    ∃ o, 0 ≤ o ∧ o < m.fileSize ∧ m.fs.Holds p (m.fileOffset + o)
  progress : ∀ (state : TorrentState) (src : ByteSource), state.mapper = m → src.mapper = m →
    (SeekServeEngine.completedPieces state = SeekServeEngine.totalPieces state ↔
      src.isAvailable state.avail 0 src.fileSize = true)

namespace FileStorage
variable {fs : FileStorage}

theorem fileOffset_zero : fs.fileOffset 0 = 0 := rfl

theorem fileOffset_succ (i : Nat) :
    fs.fileOffset ((i + 1 : Nat) : Int) = fs.fileOffset i + fs.fileSize i := by
  unfold fileOffset fileSize
  simp only [Int.toNat_natCast]
  by_cases hlt : i < fs.files.length
  · rw [List.take_succ_eq_append_getElem hlt, List.map_append, List.sum_append,
      List.getElem?_eq_getElem hlt]
    simp
  · rw [List.take_of_length_le (by omega), List.take_of_length_le (by omega),
      List.getElem?_eq_none (by omega)]
    simp

theorem fileOffset_length : fs.fileOffset (fs.files.length : Int) = fs.totalSize := by
  unfold fileOffset totalSize
  rw [Int.toNat_natCast, List.take_length]

/-- Empty files take no room. -/
theorem fileOffset_add_of_empty {i n : Nat}
    (h : ∀ k : Nat, i ≤ k → k < i + n → fs.fileSize k = 0) :
    fs.fileOffset ((i + n : Nat) : Int) = fs.fileOffset i := by
  induction n with
  | zero => rfl
  | succ n ih =>
    have hrest := ih fun k h1 h2 => h k h1 (by omega)
    have hempty := h (i + n) (by omega) (by omega)
    rw [← Nat.add_assoc, fileOffset_succ, hrest, hempty, Int.add_zero]

/-- Every byte of the torrent is a byte of one of the files before the end. -/
theorem exists_file_of_lt {n : Nat} {byte : Int} (h0 : 0 ≤ byte)
    (hlt : byte < fs.fileOffset (n : Int)) :
    ∃ i : Nat, i < n ∧ fs.fileOffset i ≤ byte ∧ byte < fs.fileOffset i + fs.fileSize i := by
  induction n with
  | zero =>
    have hzero : fs.fileOffset ((0 : Nat) : Int) = 0 := fileOffset_zero
    omega
  | succ n ih =>
    by_cases hbefore : byte < fs.fileOffset n
    · obtain ⟨i, hi, hbyte⟩ := ih hbefore
      exact ⟨i, by omega, hbyte⟩
    · rw [fileOffset_succ] at hlt
      exact ⟨n, by omega, by omega, hlt⟩

end FileStorage

namespace ByteRangeMapper
variable {m : ByteRangeMapper}

/-- The whole file maps to its own pieces. -/
theorem map_whole (h : m.WellFormed) (hsize : 0 < m.fileSize) :
    (m.map ⟨0, m.fileSize - 1⟩).first = m.firstPiece ∧
      (m.map ⟨0, m.fileSize - 1⟩).last = m.endPiece - 1 := by
  rw [map_eq h (Int.le_refl 0) (by simp only; omega) (by simp only; omega),
    firstPiece_eq h hsize, endPiece_eq h hsize]
  simp only [Int.add_zero, Int.add_sub_cancel, and_self]

theorem mem_pieces_iff (h : m.WellFormed) (hsize : 0 < m.fileSize) (p : Int) :
    m.firstPiece ≤ p ∧ p < m.endPiece ↔
      ∃ o, 0 ≤ o ∧ o < m.fileSize ∧ m.fs.Holds p (m.fileOffset + o) := by
  obtain ⟨hfirst, hlast⟩ := map_whole h hsize
  have h0 : 0 ≤ (⟨0, m.fileSize - 1⟩ : ByteRange).start := Int.le_refl 0
  have hmem := mem_map_iff h h0 (by simp only; omega) (by simp only; omega) p
  rw [hfirst, hlast] at hmem
  simp only [Int.le_sub_one_iff] at hmem
  exact hmem

/-- The tick counts as many pieces as there are exactly if no read of the file would wait. -/
theorem completed_iff_available (h : m.WellFormed) (hsize : 0 < m.fileSize)
    {state : TorrentState} {src : ByteSource} (hstate : state.mapper = m)
    (hsrc : src.mapper = m) :
    SeekServeEngine.completedPieces state = SeekServeEngine.totalPieces state ↔
      src.isAvailable state.avail 0 src.fileSize = true := by
  obtain ⟨hfirst, hlast⟩ := map_whole h hsize
  have hspan : src.span 0 src.fileSize = m.map ⟨0, m.fileSize - 1⟩ := by
    unfold ByteSource.span ByteSource.fileSize
    rw [hsrc, Int.zero_add]
  have hpos : m.firstPiece ≤ m.endPiece := by
    have hmem := (mem_pieces_iff h hsize m.firstPiece).mpr
      ⟨0, Int.le_refl 0, hsize, (FileStorage.holds_iff h.fs (by
        have hend := fileEnd_le h
        omega)).mpr (by rw [firstPiece_eq h hsize, Int.add_zero])⟩
    omega
  unfold ByteSource.isAvailable SeekServeEngine.completedPieces SeekServeEngine.totalPieces
  rw [hspan, PieceAvailabilityIndex.isSpanComplete_eq_true_iff, hfirst, hlast, hstate]
  generalize hn : (m.endPiece - m.firstPiece).toNat = n
  have htotal : m.endPiece - m.firstPiece = n := by omega
  have hlength : (List.range n).length = n := List.length_range
  rw [htotal, Nat.cast_inj]
  constructor
  · intro hcount p h1 h2
    have hall := List.countP_eq_length.mp (hcount.trans hlength.symm)
    have hp := hall (p - m.firstPiece).toNat (List.mem_range.mpr (by omega))
    have hback : m.firstPiece + ((p - m.firstPiece).toNat : Int) = p := by omega
    rw [hback] at hp
    exact hp
  · intro hall
    refine (List.countP_eq_length.mpr ?_).trans hlength
    intro p hp
    have hlt := List.mem_range.mp hp
    exact hall (m.firstPiece + p) (by omega) (by omega)

/-- Where one file ends and the next byte belongs to another, they share a piece or the piece
of the one follows that of the other. -/
theorem firstPiece_of_next {m' : ByteRangeMapper} (h : m.WellFormed) (h' : m'.WellFormed)
    (hfs : m'.fs = m.fs) (hsize : 0 < m.fileSize) (hsize' : 0 < m'.fileSize)
    (hnext : m'.fileOffset = m.fileOffset + m.fileSize) :
    m'.firstPiece = m.endPiece ∨ m'.firstPiece = m.endPiece - 1 := by
  have hl := h.fs.pieceLength_pos
  obtain ⟨hdiv, hmod0, hmod1⟩ :=
    FileStorage.ediv_mul_add_emod h.fs (m.fileOffset + (m.fileSize - 1))
  have hlow : (m.fileOffset + (m.fileSize - 1)) / m.fs.pieceLength ≤
      (m.fileOffset + m.fileSize) / m.fs.pieceLength := Int.ediv_le_ediv hl (by omega)
  have hhigh : (m.fileOffset + m.fileSize) / m.fs.pieceLength <
      (m.fileOffset + (m.fileSize - 1)) / m.fs.pieceLength + 1 + 1 := by
    apply (Int.ediv_lt_iff_lt_mul hl).mpr
    rw [Int.add_mul, Int.add_mul, Int.one_mul]
    omega
  rw [firstPiece_eq h' hsize', hfs, hnext, endPiece_eq h hsize]
  omega

end ByteRangeMapper

namespace TorrentInfo
variable {ti : TorrentInfo}

theorem getElem?_fileInfos {i : Nat} {file : FileInfo} (h : ti.fileInfos[i]? = some file) :
    i < ti.layout.files.length ∧ file = MetadataCatalog.fileInfo ti.layout i := by
  unfold fileInfos at h
  rw [range_cast, List.map_map, List.getElem?_map] at h
  obtain ⟨j, hj, rfl⟩ := Option.map_eq_some_iff.mp h
  obtain ⟨hlt, rfl⟩ := List.getElem?_eq_some_iff.mp hj
  rw [List.length_range] at hlt
  exact ⟨hlt, by rw [List.getElem_range]; rfl⟩

theorem wellFormed_mapper (h : ti.layout.WellFormed) {i : Nat} (hi : i < ti.layout.files.length) :
    ByteRangeMapper.WellFormed ⟨ti.layout, i⟩ :=
  ⟨h, Int.natCast_nonneg i, Int.ofNat_lt.mpr hi⟩

theorem agrees_fileInfo (h : ti.layout.WellFormed) {i : Nat} (hi : i < ti.layout.files.length)
    (hsize : 0 < ti.layout.fileSize i) :
    (MetadataCatalog.fileInfo ti.layout i).Agrees ⟨ti.layout, i⟩ := by
  have hm := wellFormed_mapper h hi
  have hend : (MetadataCatalog.fileInfo ti.layout i).endPiece =
      ByteRangeMapper.endPiece ⟨ti.layout, i⟩ := by
    unfold MetadataCatalog.fileInfo ByteRangeMapper.endPiece ByteRangeMapper.fileSize
    simp only
    rw [if_pos hsize, if_neg (by omega)]
  constructor
  · rfl
  · exact hend
  · intro p
    rw [hend]
    exact ByteRangeMapper.mem_pieces_iff hm hsize p
  · intro state src hstate hsrc
    exact ByteRangeMapper.completed_iff_available hm hsize hstate hsrc

theorem firstPiece_next_fileInfo (h : ti.layout.WellFormed) {i j : Nat} (hij : i < j)
    (hj : j < ti.layout.files.length) (hsize : 0 < ti.layout.fileSize i)
    (hsize' : 0 < ti.layout.fileSize j)
    (hempty : ∀ k : Nat, i < k → k < j → ti.layout.fileSize k = 0) :
    (MetadataCatalog.fileInfo ti.layout j).firstPiece =
        (MetadataCatalog.fileInfo ti.layout i).endPiece ∨
      (MetadataCatalog.fileInfo ti.layout j).firstPiece =
        (MetadataCatalog.fileInfo ti.layout i).endPiece - 1 := by
  have hi : i < ti.layout.files.length := by omega
  have hgap : ti.layout.fileOffset ((i + 1 + (j - (i + 1)) : Nat) : Int) =
      ti.layout.fileOffset ((i + 1 : Nat) : Int) :=
    FileStorage.fileOffset_add_of_empty fun k h1 h2 => hempty k (by omega) (by omega)
  have hsum : i + 1 + (j - (i + 1)) = j := by omega
  rw [hsum, FileStorage.fileOffset_succ] at hgap
  rw [(agrees_fileInfo h hj hsize').firstPiece, (agrees_fileInfo h hi hsize).endPiece]
  exact ByteRangeMapper.firstPiece_of_next (wellFormed_mapper h hi) (wellFormed_mapper h hj) rfl
    hsize hsize' hgap

theorem exists_fileInfo_of_piece (h : ti.layout.WellFormed) {p : Int} (hp0 : 0 ≤ p)
    (hp : p < ti.layout.numPieces) :
    ∃ file ∈ ti.fileInfos, file.firstPiece ≤ p ∧ p < file.endPiece := by
  have hl := h.pieceLength_pos
  have hbyte := FileStorage.mul_lt_totalSize h hp
  have hbyte0 := Int.mul_nonneg hp0 (Int.le_of_lt hl)
  have hbyte' := hbyte
  rw [← FileStorage.fileOffset_length] at hbyte'
  obtain ⟨i, hi, hlow, hhigh⟩ := FileStorage.exists_file_of_lt hbyte0 hbyte'
  have hsize : 0 < ti.layout.fileSize i := by omega
  have hmem : (i : Int) ∈ (List.range ti.layout.files.length).map fun p : Nat => (p : Int) :=
    List.mem_map.mpr ⟨i, List.mem_range.mpr hi, rfl⟩
  rw [← range_cast] at hmem
  refine ⟨MetadataCatalog.fileInfo ti.layout i, List.mem_map.mpr ⟨i, hmem, rfl⟩, ?_⟩
  apply ((agrees_fileInfo h hi hsize).pieces p).mpr
  have hback : ti.layout.fileOffset i + (p * ti.layout.pieceLength - ti.layout.fileOffset i) =
      p * ti.layout.pieceLength := by omega
  refine ⟨p * ti.layout.pieceLength - ti.layout.fileOffset i, by omega, ?_, ?_⟩
  · change _ < ti.layout.fileSize i
    omega
  · change ti.layout.Holds p (ti.layout.fileOffset i + _)
    rw [hback, FileStorage.holds_iff h hbyte, Int.mul_ediv_cancel _ (ne_of_gt hl)]

end TorrentInfo

/-- Catalog, mapper, progress and byte source agree on every file that is not empty, and the
files cover the pieces of the torrent without a gap. -/
theorem MetadataCatalog.file_pieces_agree (c : MetadataCatalog) (id : TorrentId)
    (ti : TorrentInfo) (h : ti.layout.WellFormed) (hnew : c.hasMetadata id = false) :
    ∃ files, (c.onMetadataReceived id ti).listFiles id = .ok files ∧
      files.length = ti.layout.files.length ∧
      (∀ (i : Nat) (file : FileInfo), files[i]? = some file → 0 < ti.layout.fileSize i →
        file.Agrees ⟨ti.layout, i⟩) ∧
      (∀ (i j : Nat) (file next : FileInfo), files[i]? = some file → files[j]? = some next →
        i < j → 0 < ti.layout.fileSize i → 0 < ti.layout.fileSize j →
        (∀ k : Nat, i < k → k < j → ti.layout.fileSize k = 0) →
        next.firstPiece = file.endPiece ∨ next.firstPiece = file.endPiece - 1) ∧
      ∀ p, 0 ≤ p → p < ti.layout.numPieces →
        ∃ file ∈ files, file.firstPiece ≤ p ∧ p < file.endPiece := by
  refine ⟨ti.fileInfos, ?_, ?_, ?_, ?_, ?_⟩
  · rw [listFiles_onMetadataReceived, if_pos ⟨rfl, hnew⟩]
  · rw [TorrentInfo.fileInfos, range_cast, List.length_map, List.length_map, List.length_range]
  · intro i file hfile hsize
    obtain ⟨hi, rfl⟩ := TorrentInfo.getElem?_fileInfos hfile
    exact TorrentInfo.agrees_fileInfo h hi hsize
  · intro i j file next hfile hnext hij hsize hsize' hempty
    obtain ⟨-, rfl⟩ := TorrentInfo.getElem?_fileInfos hfile
    obtain ⟨hj, rfl⟩ := TorrentInfo.getElem?_fileInfos hnext
    exact TorrentInfo.firstPiece_next_fileInfo h hij hj hsize hsize' hempty
  · intro p hp0 hp
    exact TorrentInfo.exists_fileInfo_of_piece h hp0 hp

/-- Two files of three and six bytes in pieces of four: the last byte is in some file's piece. -/
theorem MetadataCatalog.file_pieces_agree_six :
    ∃ files, (MetadataCatalog.onMetadataReceived ⟨∅⟩ "a".toList ⟨sixBytes.fs⟩).listFiles
        "a".toList = .ok files ∧ files.length = 2 ∧
      ∃ file ∈ files, file.firstPiece ≤ 2 ∧ 2 < file.endPiece := by
  have h := MetadataCatalog.file_pieces_agree ⟨∅⟩ "a".toList ⟨sixBytes.fs⟩ wellFormed_sixBytes.fs
    (by decide)
  obtain ⟨files, hfiles, hlength, -, -, hpieces⟩ := h
  exact ⟨files, hfiles, hlength, hpieces 2 (by decide) (by decide)⟩

end SeekServe
