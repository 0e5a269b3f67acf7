import SeekServe.Lib.AssocMap
import SeekServe.Types

/-!
# The SQLite database

The rows of the two tables. Every statement succeeds; the time of a statement is given.
-/

namespace SeekServe

set_option autoImplicit false

structure CacheRow where
  filePath : CxxString
  fileSize : Int
  progress : Rat
  offlineReady : Bool
  lastAccess : Int
  addedAt : Int
  deriving DecidableEq, Repr

structure CacheEntry where
  torrentId : TorrentId
  fileIndex : Int
  row : CacheRow
  deriving DecidableEq, Repr

structure TorrentRow where
  uri : CxxString
  addedAt : Int
  deriving DecidableEq, Repr

structure OfflineCacheManager where
  cacheEntries : AssocMap (TorrentId × Int) CacheRow
  torrents : AssocMap TorrentId TorrentRow

namespace OfflineCacheManager

def empty : OfflineCacheManager := ⟨∅, ∅⟩

/-- `INSERT OR IGNORE` of the row of one file. -/
def addRow (now : Int) (id : TorrentId) (rows : AssocMap (TorrentId × Int) CacheRow)
    (f : FileInfo) : AssocMap (TorrentId × Int) CacheRow :=
  match rows.lookup (id, f.index) with
  | some _ => rows
  | none => AList.insert (id, f.index) ⟨f.path, f.size, 0, false, now, now⟩ rows

/-- One row for each file. -/
def onTorrentAdded (c : OfflineCacheManager) (now : Int) (id : TorrentId)
    (files : List FileInfo) : OfflineCacheManager :=
  { c with cacheEntries := files.foldl (addRow now id) c.cacheEntries }

def onProgressUpdate (c : OfflineCacheManager) (now : Int) (id : TorrentId) (fi : Int)
    (progress : Rat) : OfflineCacheManager :=
  { c with
    cacheEntries := AssocMap.modify (id, fi)
      (fun row => { row with progress := progress, lastAccess := now }) c.cacheEntries }

def onFileCompleted (c : OfflineCacheManager) (now : Int) (id : TorrentId) (fi : Int) :
    OfflineCacheManager :=
  { c with
    cacheEntries := AssocMap.modify (id, fi)
      (fun row => { row with offlineReady := true, progress := 1, lastAccess := now })
      c.cacheEntries }

def isOfflineReady (c : OfflineCacheManager) (id : TorrentId) (fi : Int) : Bool :=
  ((c.cacheEntries.lookup (id, fi)).map CacheRow.offlineReady).getD false

/-- `SELECT COALESCE(SUM(file_size), 0) FROM cache_entries` -/
def totalSize (c : OfflineCacheManager) : Int :=
  AssocMap.sumOf (fun _ row => row.fileSize) c.cacheEntries

/-- `ORDER BY last_access DESC` -/
def listCached (c : OfflineCacheManager) : List CacheEntry :=
  (c.cacheEntries.entries.reverse.map fun e => CacheEntry.mk e.1.1 e.1.2 e.2).insertionSort
    fun a b => a.row.lastAccess ≥ b.row.lastAccess

/-- `INSERT OR REPLACE` -/
def saveTorrentUri (c : OfflineCacheManager) (now : Int) (id : TorrentId) (uri : CxxString) :
    OfflineCacheManager :=
  { c with torrents := AList.insert id ⟨uri, now⟩ c.torrents }

def removeTorrentUri (c : OfflineCacheManager) (id : TorrentId) : OfflineCacheManager :=
  { c with torrents := AList.erase id c.torrents }

/-- `ORDER BY added_at`; rows of one time stay in the order of their insertion. -/
def listTorrentUris (c : OfflineCacheManager) : List (TorrentId × CxxString) :=
  (c.torrents.entries.reverse.insertionSort fun a b => a.2.addedAt ≤ b.2.addedAt).map
    fun e => (e.1, e.2.uri)

def persisted (c : OfflineCacheManager) (id : TorrentId) : Bool := (c.torrents.lookup id).isSome

theorem mem_listTorrentUris {c : OfflineCacheManager} {id : TorrentId} {uri : CxxString} :
    (id, uri) ∈ c.listTorrentUris ↔ ∃ row, c.torrents.lookup id = some row ∧ row.uri = uri := by
  simp only [listTorrentUris, List.mem_map, List.mem_insertionSort, List.mem_reverse,
    Prod.mk.injEq]
  constructor
  · intro h
    obtain ⟨⟨id', row⟩, hmem, rfl, huri⟩ := h
    exact ⟨row, AssocMap.mem_entries_iff.mp hmem, huri⟩
  · intro h
    obtain ⟨row, hlook, huri⟩ := h
    exact ⟨⟨id, row⟩, AssocMap.mem_entries_iff.mpr hlook, rfl, huri⟩

theorem persisted_iff {c : OfflineCacheManager} {id : TorrentId} :
    c.persisted id = true ↔ ∃ row, c.torrents.lookup id = some row := Option.isSome_iff_exists

theorem persisted_saveTorrentUri (c : OfflineCacheManager) (now : Int) (id : TorrentId)
    (uri : CxxString) (id' : TorrentId) :
    (c.saveTorrentUri now id uri).persisted id' = true ↔ id' = id ∨ c.persisted id' = true := by
  simp only [persisted, saveTorrentUri, AssocMap.lookup_insert_eq]
  by_cases hid : id' = id
  · simp [hid]
  · simp [hid]

theorem persisted_removeTorrentUri (c : OfflineCacheManager) (id id' : TorrentId) :
    (c.removeTorrentUri id).persisted id' = true ↔ id' ≠ id ∧ c.persisted id' = true := by
  simp only [persisted, removeTorrentUri, AssocMap.lookup_erase_eq]
  by_cases hid : id' = id
  · simp [hid]
  · simp [hid]

theorem cacheEntries_onTorrentAdded (c : OfflineCacheManager) (now : Int) (id : TorrentId)
    (files : List FileInfo) :
    (c.onTorrentAdded now id files).cacheEntries = files.foldl (addRow now id) c.cacheEntries := rfl

theorem lookup_addRow (now : Int) (id : TorrentId) (rows : AssocMap (TorrentId × Int) CacheRow)
    (f : FileInfo) (key : TorrentId × Int) :
    (addRow now id rows f).lookup key =
      if key = (id, f.index) ∧ rows.lookup key = none then
        some ⟨f.path, f.size, 0, false, now, now⟩
      else rows.lookup key := by
  unfold addRow
  split
  · rename_i row hrow
    rw [if_neg]
    rintro ⟨rfl, hnone⟩
    rw [hrow] at hnone
    cases hnone
  · rename_i hnone
    rw [AssocMap.lookup_insert_eq]
    by_cases hkey : key = (id, f.index)
    · subst hkey
      simp [hnone]
    · simp [hkey]

/-- After an announcement there is a row for each of the files, and no other new one. -/
theorem isSome_foldl_addRow (now : Int) (id : TorrentId) (files : List FileInfo)
    (rows : AssocMap (TorrentId × Int) CacheRow) (key : TorrentId × Int) :
    ((files.foldl (addRow now id) rows).lookup key).isSome = true ↔
      (rows.lookup key).isSome = true ∨ ∃ f ∈ files, key = (id, f.index) := by
  induction files generalizing rows with
  | nil => simp
  | cons f files ih =>
    rw [List.foldl_cons, ih, lookup_addRow]
    by_cases hkey : key = (id, f.index)
    · cases hrow : rows.lookup key <;> simp [hkey]
    · simp [hkey]

theorem ready_foldl_addRow (now : Int) (id : TorrentId) (files : List FileInfo)
    (rows : AssocMap (TorrentId × Int) CacheRow) (key : TorrentId × Int) :
    (((files.foldl (addRow now id) rows).lookup key).map CacheRow.offlineReady).getD false =
      ((rows.lookup key).map CacheRow.offlineReady).getD false := by
  induction files generalizing rows with
  | nil => rfl
  | cons f files ih =>
    rw [List.foldl_cons, ih, lookup_addRow]
    by_cases hnew : key = (id, f.index) ∧ rows.lookup key = none
    · rw [if_pos hnew, hnew.2]
      rfl
    · rw [if_neg hnew]

theorem foldl_addRow_of_rows (now : Int) {id : TorrentId} {files : List FileInfo}
    {rows : AssocMap (TorrentId × Int) CacheRow}
    (h : ∀ f ∈ files, (rows.lookup (id, f.index)).isSome = true) :
    files.foldl (addRow now id) rows = rows := by
  induction files with
  | nil => rfl
  | cons f files ih =>
    obtain ⟨row, hrow⟩ := Option.isSome_iff_exists.mp (h f List.mem_cons_self)
    have hsame : addRow now id rows f = rows := by simp only [addRow, hrow]
    rw [List.foldl_cons, hsame]
    exact ih fun g hg => h g (List.mem_cons_of_mem f hg)

/-- An announcement adds the sizes of the files that have no row yet. -/
theorem sumOf_foldl_addRow (now : Int) (id : TorrentId) {files : List FileInfo}
    (hnodup : (files.map FileInfo.index).Nodup) (rows : AssocMap (TorrentId × Int) CacheRow) :
    AssocMap.sumOf (fun _ row => row.fileSize) (files.foldl (addRow now id) rows) =
      AssocMap.sumOf (fun _ row => row.fileSize) rows +
        ((files.filter fun f => (rows.lookup (id, f.index)).isNone).map FileInfo.size).sum := by
  induction files generalizing rows with
  | nil => simp
  | cons f files ih =>
    rw [List.map_cons, List.nodup_cons] at hnodup
    obtain ⟨hnot, hrest⟩ := hnodup
    have hothers : ∀ g ∈ files, ((addRow now id rows f).lookup (id, g.index)).isNone =
        (rows.lookup (id, g.index)).isNone := by
      intro g hg
      have hne : (id, g.index) ≠ (id, f.index) := by
        intro heq
        exact hnot (List.mem_map.mpr ⟨g, hg, (Prod.mk.inj heq).2⟩)
      rw [lookup_addRow, if_neg fun h => hne h.1]
    rw [List.foldl_cons, ih hrest, List.filter_congr hothers]
    cases hrow : rows.lookup (id, f.index) with
    | some row =>
      have hsame : addRow now id rows f = rows := by simp only [addRow, hrow]
      rw [hsame, List.filter_cons_of_neg (by simp [hrow])]
    | none =>
      have hsum : AssocMap.sumOf (fun _ row => row.fileSize) (addRow now id rows f) =
          f.size + AssocMap.sumOf (fun _ row => row.fileSize) rows := by
        simp only [addRow, hrow]
        exact AssocMap.sumOf_insert_of_none _ hrow
      rw [hsum, List.filter_cons_of_pos (by simp [hrow]), List.map_cons, List.sum_cons]
      omega

/-- The rows of `c'` are those of `c`, but for their progress and their last access. -/
structure KeepsFiles (c c' : OfflineCacheManager) : Prop where
  total : c'.totalSize = c.totalSize
  row : ∀ key, (c'.cacheEntries.lookup key).isSome = (c.cacheEntries.lookup key).isSome
  ready : ∀ id fi, c'.isOfflineReady id fi = c.isOfflineReady id fi

theorem KeepsFiles.of_eq {c c' : OfflineCacheManager} (h : c'.cacheEntries = c.cacheEntries) :
    c.KeepsFiles c' := by
  refine ⟨?_, ?_, ?_⟩
  · rw [totalSize, h, totalSize]
  · intro key
    rw [h]
  · intro id fi
    rw [isOfflineReady, h, isOfflineReady]

theorem KeepsFiles.trans {c c' c'' : OfflineCacheManager} (h : c.KeepsFiles c')
    (h' : c'.KeepsFiles c'') : c.KeepsFiles c'' :=
  ⟨h'.total.trans h.total, fun key => (h'.row key).trans (h.row key),
    fun id fi => (h'.ready id fi).trans (h.ready id fi)⟩

theorem keepsFiles_onProgressUpdate (c : OfflineCacheManager) (now : Int) (id : TorrentId)
    (fi : Int) (progress : Rat) : c.KeepsFiles (c.onProgressUpdate now id fi progress) := by
  refine ⟨?_, ?_, ?_⟩
  · simp only [totalSize, onProgressUpdate]
    apply AssocMap.sumOf_modify
    intro row
    rfl
  · intro key
    simp only [onProgressUpdate, AssocMap.lookup_modify]
    split
    · subst key
      exact Option.isSome_map
    · rfl
  · intro id' fi'
    simp only [isOfflineReady, onProgressUpdate, AssocMap.lookup_modify]
    split
    · rename_i hkey
      rw [hkey]
      cases c.cacheEntries.lookup (id, fi) <;> rfl
    · rfl

theorem totalSize_onFileCompleted (c : OfflineCacheManager) (now : Int) (id : TorrentId)
    (fi : Int) : (c.onFileCompleted now id fi).totalSize = c.totalSize := by
  simp only [totalSize, onFileCompleted]
  apply AssocMap.sumOf_modify
  intro row
  rfl

theorem isSome_onFileCompleted (c : OfflineCacheManager) (now : Int) (id : TorrentId) (fi : Int)
    (key : TorrentId × Int) :
    ((c.onFileCompleted now id fi).cacheEntries.lookup key).isSome =
      (c.cacheEntries.lookup key).isSome := by
  simp only [onFileCompleted, AssocMap.lookup_modify]
  split
  · subst key
    exact Option.isSome_map
  · rfl

/-- A completed file becomes ready where it has a row. -/
theorem isOfflineReady_onFileCompleted (c : OfflineCacheManager) (now : Int) (id : TorrentId)
    (fi : Int) (id' : TorrentId) (fi' : Int) :
    (c.onFileCompleted now id fi).isOfflineReady id' fi' = true ↔
      (id', fi') = (id, fi) ∧ (c.cacheEntries.lookup (id, fi)).isSome = true ∨
        c.isOfflineReady id' fi' = true := by
  simp only [isOfflineReady, onFileCompleted, AssocMap.lookup_modify]
  by_cases hkey : (id', fi') = (id, fi)
  · rw [if_pos hkey, hkey]
    cases c.cacheEntries.lookup (id, fi) <;> simp
  · rw [if_neg hkey]
    simp [hkey]

end OfflineCacheManager

end SeekServe
