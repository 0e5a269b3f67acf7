import SeekServe.Lib.AssocMap
import SeekServe.FileStorage

/-! The files of the torrents whose metadata has arrived, and the file selected of each. -/

namespace SeekServe

set_option autoImplicit false

/-- libtorrent's `torrent_info`, of which the engine reads the layout. -/
structure TorrentInfo where
  layout : FileStorage

structure TorrentEntry where
  info : TorrentInfo
  files : List FileInfo
  selected : Option Int

structure MetadataCatalog where
  catalog : AssocMap TorrentId TorrentEntry

namespace MetadataCatalog

def fileInfo (fs : FileStorage) (i : Int) : FileInfo :=
  let firstPiece := (fs.mapFile i 0 1).piece
  { index := i
    path := fs.filePath i
    size := fs.fileSize i
    offsetInTorrent := fs.fileOffset i
    firstPiece := firstPiece
    endPiece :=
      if fs.fileSize i > 0 then (fs.mapFile i (fs.fileSize i - 1) 1).piece + 1 else firstPiece }

def onMetadataReceived (c : MetadataCatalog) (id : TorrentId) (ti : TorrentInfo) :
    MetadataCatalog :=
  match c.catalog.lookup id with
  | some _ => c
  | none =>
    let files := (List.range ti.layout.files.length).map fun i => fileInfo ti.layout i
    ⟨AList.insert id ⟨ti, files, none⟩ c.catalog⟩

def remove (c : MetadataCatalog) (id : TorrentId) : MetadataCatalog := ⟨AList.erase id c.catalog⟩

def listFiles (c : MetadataCatalog) (id : TorrentId) : Result (List FileInfo) :=
  match c.catalog.lookup id with
  | none => .error .metadataNotReady
  | some entry => .ok entry.files

/-- `entry.files[fi]` behind the check of the index. -/
def TorrentEntry.file (entry : TorrentEntry) (fi : Int) : Result FileInfo :=
  if fi < 0 then .error .fileNotFound
  else
    match entry.files[fi.toNat]? with
    | none => .error .fileNotFound
    | some file => .ok file

def getFile (c : MetadataCatalog) (id : TorrentId) (fi : Int) : Result FileInfo :=
  match c.catalog.lookup id with
  | none => .error .metadataNotReady
  | some entry => TorrentEntry.file entry fi

/-- The priorities that are set on the handle have no effect on the engine's state. -/
def selectFile (c : MetadataCatalog) (id : TorrentId) (fi : Int) : Result Unit × MetadataCatalog :=
  match c.catalog.lookup id with
  | none => (.error .metadataNotReady, c)
  | some entry =>
    match TorrentEntry.file entry fi with
    | .error e => (.error e, c)
    | .ok _ => (.ok (), ⟨AList.insert id { entry with selected := some fi } c.catalog⟩)

def selectedFile (c : MetadataCatalog) (id : TorrentId) : Option Int :=
  (c.catalog.lookup id).bind TorrentEntry.selected

def torrentInfo (c : MetadataCatalog) (id : TorrentId) : Option TorrentInfo :=
  (c.catalog.lookup id).map TorrentEntry.info

def hasMetadata (c : MetadataCatalog) (id : TorrentId) : Bool := (c.catalog.lookup id).isSome

theorem hasMetadata_onMetadataReceived (c : MetadataCatalog) (id : TorrentId) (ti : TorrentInfo)
    (id' : TorrentId) :
    (c.onMetadataReceived id ti).hasMetadata id' = (decide (id' = id) || c.hasMetadata id') := by
  unfold onMetadataReceived
  cases h : c.catalog.lookup id with
  | some entry =>
    by_cases hid : id' = id
    · subst hid
      simp [hasMetadata, h]
    · simp [hid]
  | none =>
    simp only [hasMetadata, AssocMap.lookup_insert_eq]
    by_cases hid : id' = id
    · simp [hid]
    · simp [hid]

theorem hasMetadata_remove (c : MetadataCatalog) (id id' : TorrentId) :
    (c.remove id).hasMetadata id' = (!decide (id' = id) && c.hasMetadata id') := by
  simp only [hasMetadata, remove, AssocMap.lookup_erase_eq]
  by_cases hid : id' = id
  · simp [hid]
  · simp [hid]

theorem isSome_torrentInfo (c : MetadataCatalog) (id : TorrentId) :
    (c.torrentInfo id).isSome = c.hasMetadata id := by
  unfold torrentInfo hasMetadata
  exact Option.isSome_map

theorem torrentInfo_selectFile (c : MetadataCatalog) (id : TorrentId) (fi : Int)
    (id' : TorrentId) : (c.selectFile id fi).2.torrentInfo id' = c.torrentInfo id' := by
  unfold selectFile
  cases h : c.catalog.lookup id with
  | none => rfl
  | some entry =>
    cases hf : TorrentEntry.file entry fi with
    | error e => simp only [hf]
    | ok file =>
      simp only [hf, torrentInfo, AssocMap.lookup_insert_eq]
      split
      · subst id'
        simp [h]
      · rfl

theorem hasMetadata_selectFile (c : MetadataCatalog) (id : TorrentId) (fi : Int)
    (id' : TorrentId) : (c.selectFile id fi).2.hasMetadata id' = c.hasMetadata id' := by
  rw [← isSome_torrentInfo, ← isSome_torrentInfo, torrentInfo_selectFile]

theorem listFiles_isOk (c : MetadataCatalog) (id : TorrentId) :
    (c.listFiles id).isOk = c.hasMetadata id := by
  unfold listFiles hasMetadata
  cases c.catalog.lookup id <;> rfl

theorem file_ne_metadataNotReady (entry : TorrentEntry) (fi : Int) :
    TorrentEntry.file entry fi ≠ .error .metadataNotReady := by
  unfold TorrentEntry.file
  split
  · simp
  · split <;> simp

theorem selectFile_ne_metadataNotReady_iff (c : MetadataCatalog) (id : TorrentId) (fi : Int) :
    (c.selectFile id fi).1 ≠ .error .metadataNotReady ↔ c.hasMetadata id = true := by
  unfold selectFile hasMetadata
  cases c.catalog.lookup id with
  | none => simp
  | some entry =>
    have hne := file_ne_metadataNotReady entry fi
    cases hf : TorrentEntry.file entry fi with
    | error e => simpa [hf] using hne
    | ok file => simp [hf]

theorem selectFile_ok {c : MetadataCatalog} {id : TorrentId} {fi : Int}
    (h : (c.selectFile id fi).1 = .ok ()) :
    0 ≤ fi ∧ c.hasMetadata id = true ∧ (c.selectFile id fi).2.selectedFile id = some fi := by
  unfold selectFile at h ⊢
  cases hc : c.catalog.lookup id with
  | none => simp [hc] at h
  | some entry =>
    cases hf : TorrentEntry.file entry fi with
    | error e => simp [hc, hf] at h
    | ok file =>
      have hneg : ¬fi < 0 := by
        intro hlt
        simp [TorrentEntry.file, hlt] at hf
      simp only [hf]
      exact ⟨by omega, by simp [hasMetadata, hc], by simp [selectedFile]⟩

theorem listFiles_selectFile (c : MetadataCatalog) (id : TorrentId) (fi : Int) (id' : TorrentId) :
    (c.selectFile id fi).2.listFiles id' = c.listFiles id' := by
  unfold selectFile
  cases h : c.catalog.lookup id with
  | none => rfl
  | some entry =>
    simp only
    split
    · rfl
    · simp only [listFiles, AssocMap.lookup_insert_eq]
      by_cases hid : id' = id
      · subst hid
        simp [h]
      · simp [hid]

theorem getFile_selectFile (c : MetadataCatalog) (id : TorrentId) (fi : Int) (id' : TorrentId)
    (fi' : Int) : (c.selectFile id fi).2.getFile id' fi' = c.getFile id' fi' := by
  unfold selectFile
  cases h : c.catalog.lookup id with
  | none => rfl
  | some entry =>
    simp only
    split
    · rfl
    · simp only [getFile, AssocMap.lookup_insert_eq]
      by_cases hid : id' = id
      · subst hid
        simp [h, TorrentEntry.file]
      · simp [hid]

theorem exists_getFile_of_selectFile {c : MetadataCatalog} {id : TorrentId} {fi : Int}
    (h : (c.selectFile id fi).1 = .ok ()) : ∃ file, c.getFile id fi = .ok file := by
  unfold selectFile at h
  unfold getFile
  cases hc : c.catalog.lookup id with
  | none => simp [hc] at h
  | some entry =>
    cases hf : TorrentEntry.file entry fi with
    | error e => simp [hc, hf] at h
    | ok file => exact ⟨file, hf⟩

end MetadataCatalog

/-- The files that the catalog lists for a torrent. -/
def TorrentInfo.fileInfos (ti : TorrentInfo) : List FileInfo :=
  (List.range ti.layout.files.length).map fun i => MetadataCatalog.fileInfo ti.layout i

theorem TorrentInfo.nodup_fileInfos (ti : TorrentInfo) :
    (ti.fileInfos.map FileInfo.index).Nodup := by
  have hindex : ti.fileInfos.map FileInfo.index =
      (List.range ti.layout.files.length).map fun i : Nat => (i : Int) := by
    simp [fileInfos, MetadataCatalog.fileInfo, ← List.map_eq_flatMap]
  rw [hindex]
  exact List.nodup_range.map Nat.cast_injective

namespace MetadataCatalog

/-- Only the first metadata of a torrent counts. -/
theorem listFiles_onMetadataReceived (c : MetadataCatalog) (id : TorrentId) (ti : TorrentInfo)
    (id' : TorrentId) :
    (c.onMetadataReceived id ti).listFiles id' =
      if id' = id ∧ c.hasMetadata id = false then .ok ti.fileInfos else c.listFiles id' := by
  unfold onMetadataReceived hasMetadata
  cases h : c.catalog.lookup id with
  | some entry => simp
  | none =>
    simp only [listFiles, AssocMap.lookup_insert_eq]
    by_cases hid : id' = id
    · simp [hid, TorrentInfo.fileInfos]
    · simp [hid]

end MetadataCatalog

end SeekServe
