import SeekServe.OfflineCache

/-!
# Eviction

`enforce_quota` reads the sum of the sizes, steps a cursor over the rows until enough of them
are to go, and then deletes these. The order of rows with one time of access is SQLite's.
-/

namespace SeekServe

set_option autoImplicit false

def CacheEntry.key (entry : CacheEntry) : TorrentId × Int := (entry.torrentId, entry.fileIndex)

namespace OfflineCacheManager

def rows (c : OfflineCacheManager) : List CacheEntry :=
  c.cacheEntries.entries.map fun e => ⟨e.1.1, e.1.2, e.2⟩

/-- What `SELECT torrent_id, file_index, file_size FROM cache_entries ORDER BY last_access ASC`
may yield. -/
structure LruCursor (c : OfflineCacheManager) (cursor : List CacheEntry) : Prop where
  perm : cursor.Perm c.rows
  sorted : cursor.Pairwise fun a b => a.row.lastAccess ≤ b.row.lastAccess

/-- `total` after the first query: a sum beyond 64 bits is an error and leaves 0. -/
def queriedTotal (c : OfflineCacheManager) : Int :=
  if -2 ^ 63 ≤ c.totalSize ∧ c.totalSize < 2 ^ 63 then c.totalSize else 0

/-- The loop that fills `to_delete`. -/
def toDelete (maxStorageBytes : Int) : List CacheEntry → Int → List (TorrentId × Int)
  | [], _ => []
  | entry :: cursor, total =>
    if total > maxStorageBytes then
      entry.key :: toDelete maxStorageBytes cursor (total - entry.row.fileSize)
    else []

def enforceQuota (maxStorageBytes : Int) (cursor : List CacheEntry) (c : OfflineCacheManager) :
    OfflineCacheManager :=
  if maxStorageBytes ≤ 0 then c
  else
    let total := c.queriedTotal
    if total ≤ maxStorageBytes then c
    else
      { c with
        cacheEntries := (toDelete maxStorageBytes cursor total).foldl
          (fun rows key => AList.erase key rows) c.cacheEntries }

/-- The bytes of some rows. -/
def bytes (entries : List CacheEntry) : Int := (entries.map fun entry => entry.row.fileSize).sum

/-- No size is negative, and their sum is a 64-bit number. -/
structure Summable (c : OfflineCacheManager) : Prop where
  nonneg : ∀ entry ∈ c.rows, 0 ≤ entry.row.fileSize
  fits : c.totalSize < 2 ^ 63

/-- The rows that go are the oldest ones, as few as will do. -/
structure Evicts (maxStorageBytes : Int) (c c' : OfflineCacheManager)
    (cursor evicted : List CacheEntry) : Prop where
  initial : evicted <+: cursor
  others : ∀ key row, c'.cacheEntries.lookup key = some row ↔
    c.cacheEntries.lookup key = some row ∧ key ∉ evicted.map CacheEntry.key
  torrents_eq : c'.torrents = c.torrents
  sufficient : c'.totalSize ≤ maxStorageBytes
  shortest : ∀ segment, segment <+: cursor → c.totalSize - bytes segment ≤ maxStorageBytes →
    evicted.length ≤ segment.length
  needed : ∀ init last, evicted = init ++ [last] →
    maxStorageBytes < c'.totalSize + last.row.fileSize
  idle : c.totalSize ≤ maxStorageBytes → c' = c

theorem totalSize_eq (c : OfflineCacheManager) : c.totalSize = bytes c.rows := by
  unfold totalSize AssocMap.sumOf bytes rows
  rw [List.map_map]
  rfl

theorem bytes_append (xs ys : List CacheEntry) :
    bytes (xs ++ ys) = bytes xs + bytes ys := by
  unfold bytes
  rw [List.map_append, List.sum_append]

theorem mem_rows_iff {c : OfflineCacheManager} {entry : CacheEntry} :
    entry ∈ c.rows ↔ c.cacheEntries.lookup entry.key = some entry.row := by
  rw [← AssocMap.mem_entries_iff, rows, List.mem_map]
  constructor
  · intro h
    obtain ⟨e, he, rfl⟩ := h
    exact he
  · intro h
    exact ⟨_, h, rfl⟩

/-- The rows that remain when those of a part of the table are deleted. -/
theorem rows_foldl_erase {c : OfflineCacheManager} {evicted kept : List CacheEntry}
    (h : (evicted ++ kept).Perm c.rows) :
    kept.Perm (rows { c with
      cacheEntries := (evicted.map CacheEntry.key).foldl (fun rows key => AList.erase key rows)
        c.cacheEntries }) := by
  induction evicted generalizing c with
  | nil => exact h
  | cons entry evicted ih =>
    have hmem : entry ∈ c.rows := h.subset List.mem_cons_self
    obtain ⟨pre, post, hsplit, herase⟩ :=
      AssocMap.entries_erase_of_lookup (mem_rows_iff.mp hmem)
    apply ih (c := { c with cacheEntries := AList.erase entry.key c.cacheEntries })
    apply List.Perm.cons_inv (a := entry)
    apply h.trans
    unfold rows
    simp only [hsplit, herase, List.map_append, List.map_cons]
    exact List.perm_middle

/-- Where the loop stops, and what it has gone through. -/
theorem toDelete_spec (maxStorageBytes : Int) (cursor : List CacheEntry) (total : Int) :
    ∃ evicted kept, cursor = evicted ++ kept ∧
      toDelete maxStorageBytes cursor total = evicted.map CacheEntry.key ∧
      (total - bytes evicted ≤ maxStorageBytes ∨ kept = []) ∧
      ∀ init last tail, evicted = init ++ last :: tail → maxStorageBytes < total - bytes init := by
  induction cursor generalizing total with
  | nil =>
    refine ⟨[], [], rfl, rfl, .inr rfl, ?_⟩
    intro init last tail h
    simp at h
  | cons entry cursor ih =>
    rw [toDelete]
    by_cases hmore : total > maxStorageBytes
    · obtain ⟨evicted, kept, hsplit, hkeys, hend, hneeded⟩ := ih (total - entry.row.fileSize)
      refine ⟨entry :: evicted, kept, by rw [hsplit]; rfl, by rw [if_pos hmore, hkeys]; rfl, ?_, ?_⟩
      · refine hend.imp_left fun hle => ?_
        simp only [bytes, List.map_cons, List.sum_cons] at hle ⊢
        omega
      · intro init last tail heq
        cases init with
        | nil =>
          simp only [bytes, List.map_nil, List.sum_nil]
          omega
        | cons first init =>
          obtain ⟨rfl, hrest⟩ := List.cons.inj heq
          have hlt := hneeded init last tail hrest
          simp only [bytes, List.map_cons, List.sum_cons] at hlt ⊢
          omega
    · refine ⟨[], entry :: cursor, rfl, if_neg hmore, .inl ?_, ?_⟩
      · simp only [bytes, List.map_nil, List.sum_nil]
        omega
      · intro init last tail h
        simp at h

theorem queriedTotal_eq {c : OfflineCacheManager} (h : c.Summable) :
    c.queriedTotal = c.totalSize := by
  have hnonneg : 0 ≤ c.totalSize := by
    rw [totalSize_eq]
    apply List.sum_nonneg
    intro size hsize
    obtain ⟨entry, hentry, rfl⟩ := List.mem_map.mp hsize
    exact h.nonneg entry hentry
  have hfits := h.fits
  exact if_pos ⟨by omega, hfits⟩

theorem bytes_perm {xs ys : List CacheEntry} (h : xs.Perm ys) : bytes xs = bytes ys :=
  (h.map _).sum_eq

theorem evicts_nothing {c : OfflineCacheManager} {maxStorageBytes : Int}
    (h : c.totalSize ≤ maxStorageBytes) (cursor : List CacheEntry) :
    Evicts maxStorageBytes c c cursor [] := by
  refine ⟨List.nil_prefix, ?_, rfl, h, fun _ _ _ => Nat.zero_le _, ?_, fun _ => rfl⟩
  · intro key row
    exact ⟨fun hrow => ⟨hrow, List.not_mem_nil⟩, fun hrow => hrow.1⟩
  · intro init last heq
    simp at heq

theorem evicts_of_over {c : OfflineCacheManager} {cursor : List CacheEntry}
    (hcursor : c.LruCursor cursor) {maxStorageBytes : Int} (hquota : 0 < maxStorageBytes)
    (hover : maxStorageBytes < c.totalSize) :
    ∃ evicted, Evicts maxStorageBytes c
      { c with
        cacheEntries := (toDelete maxStorageBytes cursor c.totalSize).foldl
          (fun rows key => AList.erase key rows) c.cacheEntries } cursor evicted := by
  obtain ⟨evicted, kept, rfl, hkeys, hend, hneeded⟩ :=
    toDelete_spec maxStorageBytes cursor c.totalSize
  have hsum : c.totalSize = bytes evicted + bytes kept := by
    rw [totalSize_eq, ← bytes_perm hcursor.perm, bytes_append]
  have hkept := bytes_perm (rows_foldl_erase hcursor.perm)
  rw [← totalSize_eq] at hkept
  rw [hkeys]
  refine ⟨evicted, List.prefix_append _ _, ?_, rfl, ?_, ?_, ?_, ?_⟩
  · intro key row
    exact AssocMap.lookup_foldl_erase
  · rcases hend with hle | rfl
    · omega
    · have hzero : bytes ([] : List CacheEntry) = 0 := rfl
      omega
  · intro segment hsegment hle
    by_contra hshort
    have hprefix := List.prefix_of_prefix_length_le hsegment (List.prefix_append evicted kept)
      (by omega)
    obtain ⟨rest, hrest⟩ := hprefix
    cases rest with
    | nil =>
      rw [List.append_nil] at hrest
      exact hshort (by rw [hrest])
    | cons last tail =>
      have hlt := hneeded segment last tail hrest.symm
      omega
  · intro init last heq
    have hlt := hneeded init last [] heq
    have hlast : bytes evicted = bytes init + last.row.fileSize := by
      rw [heq, bytes_append]
      simp [bytes]
    omega
  · intro hle
    omega

/-- Eviction is least recently used first, sufficient and minimal. -/
theorem enforceQuota_evicts (c : OfflineCacheManager) (h : c.Summable) (cursor : List CacheEntry)
    (hcursor : c.LruCursor cursor) (maxStorageBytes : Int) :
    (0 < maxStorageBytes → ∃ evicted,
        Evicts maxStorageBytes c (c.enforceQuota maxStorageBytes cursor) cursor evicted) ∧
      (maxStorageBytes ≤ 0 → c.enforceQuota maxStorageBytes cursor = c) := by
  refine ⟨fun hquota => ?_, fun hquota => if_pos hquota⟩
  unfold enforceQuota
  rw [if_neg (Int.not_le.mpr hquota)]
  simp only [queriedTotal_eq h]
  split
  · rename_i hle
    exact ⟨[], evicts_nothing hle cursor⟩
  · rename_i hover
    exact evicts_of_over hcursor hquota (Int.not_le.mp hover)

/-- The order in which `list_cached` breaks ties gives a cursor. -/
theorem lruCursor_insertionSort (c : OfflineCacheManager) :
    c.LruCursor (c.rows.insertionSort fun a b => a.row.lastAccess ≤ b.row.lastAccess) := by
  refine ⟨List.perm_insertionSort _ _, ?_⟩
  have htotal : Std.Total fun a b : CacheEntry => a.row.lastAccess ≤ b.row.lastAccess :=
    ⟨fun a b => Int.le_total _ _⟩
  have htrans : IsTrans CacheEntry fun a b => a.row.lastAccess ≤ b.row.lastAccess :=
    ⟨fun a b d hab hbd => Int.le_trans hab hbd⟩
  exact List.pairwise_insertionSort _ _

/-- Three rows of forty bytes. -/
def threeRows : OfflineCacheManager :=
  (empty.onTorrentAdded 1 "aa".toList
    [⟨0, "a".toList, 40, 0, 0, 3⟩, ⟨1, "b".toList, 40, 40, 2, 5⟩]).onTorrentAdded 2 "bb".toList
      [⟨0, "c".toList, 40, 0, 0, 3⟩]

theorem enforceQuota_evicts_three : ∃ evicted, Evicts 50 threeRows
    (threeRows.enforceQuota 50
      (threeRows.rows.insertionSort fun a b => a.row.lastAccess ≤ b.row.lastAccess))
    (threeRows.rows.insertionSort fun a b => a.row.lastAccess ≤ b.row.lastAccess) evicted :=
  (enforceQuota_evicts threeRows ⟨by decide, by decide⟩ _ threeRows.lruCursor_insertionSort
    50).1 (by decide)

end OfflineCacheManager

end SeekServe
