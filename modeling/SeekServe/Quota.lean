import SeekServe.CacheRows

/-!
# The storage quota

`enforce_quota` is called by no operation of the engine, so that the size of the cache is what
the announced torrents make it.
-/

namespace SeekServe

set_option autoImplicit false

def Op.RemovesNothing (op : Op) : Prop :=
  (∀ id deleteFiles, op ≠ .removeTorrent id deleteFiles) ∧ op ≠ .restart

/-- The torrents whose metadata has arrived, each with the first metadata that did. -/
abbrev Announced := AssocMap TorrentId TorrentInfo

namespace Announced

def note (a : Announced) (ev : Event) : Announced :=
  match ev.op.announcement with
  | some (id, ti) =>
    match a.lookup id with
    | some _ => a
    | none => AList.insert id ti a
  | none => a

def ofEvents (evs : List Event) : Announced := evs.foldl note ∅

/-- The bytes of those files of a torrent that have no row in the database from the start. -/
def newBytes (c : OfflineCacheManager) (id : TorrentId) (ti : TorrentInfo) : Int :=
  ((ti.fileInfos.filter fun f => (c.cacheEntries.lookup (id, f.index)).isNone).map
    FileInfo.size).sum

/-- The announced bytes that the database `c` did not hold already. -/
def bytes (a : Announced) (c : OfflineCacheManager) : Int := AssocMap.sumOf (newBytes c) a

end Announced

namespace SeekServeEngine

/-- The engine has exactly the rows that the database began with and those announced. -/
structure Tallied (c : OfflineCacheManager) (e : SeekServeEngine) (a : Announced) : Prop where
  removed : e.removedIds = []
  files : ∀ id, e.catalog.listFiles id =
    match a.lookup id with
    | some ti => .ok ti.fileInfos
    | none => .error .metadataNotReady
  rows : ∀ id fi, (e.cache.cacheEntries.lookup (id, fi)).isSome = true ↔
    (c.cacheEntries.lookup (id, fi)).isSome = true ∨
      ∃ ti, a.lookup id = some ti ∧ ∃ f ∈ ti.fileInfos, f.index = fi
  total : e.cache.totalSize = c.totalSize + a.bytes c

theorem removedIds_step {e : SeekServeEngine} {ev : Event} (h : ev.op.RemovesNothing) :
    (e.step ev).2.removedIds = e.removedIds := by
  rcases records_step e ev with ⟨_, _, _, hr⟩ | ⟨id, b, hop, _⟩ | ⟨_, _, hr, _⟩ |
    ⟨_, _, _, _, _, _, hr, _⟩ | ⟨hop, _⟩ | ⟨_, _, hr, _⟩
  · exact congrArg Records.removedIds hr
  · exact absurd hop (h.1 id b)
  · exact congrArg Records.removedIds hr
  · exact congrArg Records.removedIds hr
  · exact absurd hop h.2
  · exact congrArg Records.removedIds hr

theorem Tallied.hasMetadata {c : OfflineCacheManager} {e : SeekServeEngine} {a : Announced}
    (h : e.Tallied c a) (id : TorrentId) : e.catalog.hasMetadata id = (a.lookup id).isSome := by
  rw [← MetadataCatalog.listFiles_isOk, h.files id]
  cases a.lookup id <;> rfl

/-- The first metadata of a torrent. -/
theorem Tallied.announce {c : OfflineCacheManager} {e e' : SeekServeEngine} {a : Announced}
    {id : TorrentId} {ti : TorrentInfo} (h : e.Tallied c a) (hnew : a.lookup id = none)
    (hremoved : e'.removedIds = []) {now : Int}
    (hfiles : ∀ id', e'.catalog.listFiles id' =
      (e.catalog.onMetadataReceived id ti).listFiles id')
    (hcache : e'.cache = e.cache.onTorrentAdded now id ti.fileInfos) :
    e'.Tallied c (AList.insert id ti a) := by
  have hmeta : e.catalog.hasMetadata id = false := by
    rw [h.hasMetadata, hnew]
    rfl
  refine ⟨hremoved, ?_, ?_, ?_⟩
  · intro id'
    rw [hfiles, MetadataCatalog.listFiles_onMetadataReceived, AssocMap.lookup_insert_eq]
    by_cases hid : id' = id
    · simp [hid, hmeta]
    · simp [hid, h.files id']
  · intro id' fi
    rw [hcache, OfflineCacheManager.cacheEntries_onTorrentAdded,
      OfflineCacheManager.isSome_foldl_addRow, h.rows, AssocMap.lookup_insert_eq]
    by_cases hid : id' = id
    · subst hid
      have hswap : (∃ f ∈ ti.fileInfos, fi = f.index) ↔ ∃ f ∈ ti.fileInfos, f.index = fi :=
        ⟨fun ⟨f, hf, h⟩ => ⟨f, hf, h.symm⟩, fun ⟨f, hf, h⟩ => ⟨f, hf, h.symm⟩⟩
      simp [hnew, hswap]
    · simp [hid]
  · have hfilter : ∀ f ∈ ti.fileInfos, (e.cache.cacheEntries.lookup (id, f.index)).isNone =
        (c.cacheEntries.lookup (id, f.index)).isNone := by
      intro f _
      have hrow := h.rows id f.index
      rw [hnew] at hrow
      simp only [reduceCtorEq, false_and, exists_false, or_false] at hrow
      rw [← Option.not_isSome, ← Option.not_isSome, Bool.eq_iff_iff.mpr hrow]
    have hsum := OfflineCacheManager.sumOf_foldl_addRow now id ti.nodup_fileInfos
      e.cache.cacheEntries
    have htotal := h.total
    rw [List.filter_congr hfilter] at hsum
    unfold OfflineCacheManager.totalSize Announced.bytes at htotal ⊢
    rw [hcache, OfflineCacheManager.cacheEntries_onTorrentAdded, hsum,
      AssocMap.sumOf_insert_of_none ti hnew, Announced.newBytes]
    omega

/-- Nothing is announced, or what was announced before is announced again. -/
theorem Tallied.keep {c : OfflineCacheManager} {e e' : SeekServeEngine} {a : Announced}
    (h : e.Tallied c a) (hremoved : e'.removedIds = [])
    (hfiles : ∀ id, e'.catalog.listFiles id = e.catalog.listFiles id)
    (hrows : ∀ key, (e'.cache.cacheEntries.lookup key).isSome =
      (e.cache.cacheEntries.lookup key).isSome)
    (htotal : e'.cache.totalSize = e.cache.totalSize) : e'.Tallied c a := by
  refine ⟨hremoved, fun id => (hfiles id).trans (h.files id), ?_, htotal.trans h.total⟩
  intro id fi
  rw [hrows]
  exact h.rows id fi

theorem tallied_step {c : OfflineCacheManager} {e : SeekServeEngine} {a : Announced} {ev : Event}
    (hop : ev.op.RemovesNothing) (h : e.Tallied c a) :
    (e.step ev).2.Tallied c (a.note ev) := by
  have hremoved : (e.step ev).2.removedIds = [] := (removedIds_step hop).trans h.removed
  have hlist := listFiles_step hop.1 hop.2 h.removed
  rcases rows_step e ev with ⟨id, ti, files, hann, _, hfiles, hcache⟩ | ⟨ih, fi, hcomp, hcache⟩ |
    ⟨_, hnew, hkept⟩
  · simp only [hann] at hlist
    cases ha : a.lookup id with
    | none =>
      have hnote : a.note ev = AList.insert id ti a := by
        simp only [Announced.note, hann, ha]
      have hmeta : e.catalog.hasMetadata id = false := by
        rw [h.hasMetadata, ha]
        rfl
      rw [MetadataCatalog.listFiles_onMetadataReceived, if_pos ⟨rfl, hmeta⟩] at hfiles
      cases hfiles
      rw [hnote]
      exact h.announce ha hremoved hlist hcache
    | some first =>
      have hnote : a.note ev = a := by simp only [Announced.note, hann, ha]
      have hmeta : e.catalog.hasMetadata id = true := by
        rw [h.hasMetadata, ha]
        rfl
      have hkeep : ∀ id', (e.catalog.onMetadataReceived id ti).listFiles id' =
          e.catalog.listFiles id' := by
        intro id'
        rw [MetadataCatalog.listFiles_onMetadataReceived, if_neg (by simp [hmeta])]
      rw [hkeep, h.files, ha] at hfiles
      cases hfiles
      have hentries : (e.step ev).2.cache.cacheEntries = e.cache.cacheEntries := by
        rw [hcache, OfflineCacheManager.cacheEntries_onTorrentAdded]
        apply OfflineCacheManager.foldl_addRow_of_rows
        intro f hf
        exact (h.rows id f.index).mpr (Or.inr ⟨first, ha, f, hf, rfl⟩)
      have hkept := OfflineCacheManager.KeepsFiles.of_eq hentries
      rw [hnote]
      exact h.keep hremoved (fun id' => (hlist id').trans (hkeep id')) hkept.row hkept.total
  · have hann : ev.op.announcement = none := by rw [hcomp]; rfl
    have hnote : a.note ev = a := by simp only [Announced.note, hann]
    simp only [hann] at hlist
    rw [hnote]
    refine h.keep hremoved hlist ?_ ?_
    · intro key
      rw [hcache]
      exact OfflineCacheManager.isSome_onFileCompleted _ _ _ _ _
    · rw [hcache]
      exact OfflineCacheManager.totalSize_onFileCompleted _ _ _ _
  · cases hann : ev.op.announcement with
    | some announcement =>
      obtain ⟨id, ti⟩ := announcement
      have hin := hnew id ti hann
      rw [h.removed] at hin
      cases hin
    | none =>
      have hnote : a.note ev = a := by simp only [Announced.note, hann]
      simp only [hann] at hlist
      rw [hnote]
      exact h.keep hremoved hlist hkept.row hkept.total

theorem tallied_create (env : Env) (config : Config) (c : OfflineCacheManager) :
    (create env config c).Tallied c ∅ := by
  have hkept : c.KeepsFiles (create env config c).cache :=
    keepsFiles_restart env { fresh config c with cache := c }
  obtain ⟨sessions, cache', hcreate⟩ := create_eq env config c
  refine ⟨by rw [hcreate]; rfl, ?_, ?_, ?_⟩
  · intro id
    rw [hcreate]
    rfl
  · intro id fi
    rw [hkept.row]
    simp
  · rw [hkept.total]
    simp [Announced.bytes, AssocMap.sumOf]

/-- After a completed file has been handled, the rows total at most the quota exactly when
those that the database began with and the announced files do. -/
theorem quota_kept_iff (env : Env) (config : Config) (cache : OfflineCacheManager)
    (evs : List Event) (hevs : ∀ ev ∈ evs, ev.op.RemovesNothing) (completed : Env) (ih : InfoHash)
    (fi : Int) :
    (machine.run (create env config cache)
        (evs ++ [⟨completed, .fileCompleted ih fi⟩])).cache.totalSize ≤
        config.cache.maxStorageBytes ↔
      cache.totalSize + (Announced.ofEvents evs).bytes cache ≤ config.cache.maxStorageBytes := by
  have hall : ∀ ev ∈ evs ++ [⟨completed, .fileCompleted ih fi⟩], ev.op.RemovesNothing := by
    intro ev hev
    rcases List.mem_append.mp hev with hev | hev
    · exact hevs ev hev
    · rw [List.mem_singleton.mp hev]
      exact ⟨by simp, by simp⟩
  have htallied := machine.run_follows (fun e a => e.Tallied cache a) Announced.note
    (fun ev => ev.op.RemovesNothing) (fun e a ev hop h => tallied_step hop h)
    (tallied_create env config cache) hall
  rw [htallied.total, List.foldl_append]
  rfl

theorem quota_kept_iff_twenty :
    (machine.run (create sampleEnv { cache := { maxStorageBytes := 20 } } .empty)
      (sampleEvents (addSample 1 "a.torrent".toList) ++
        [⟨sampleEnv, .fileCompleted (sampleHash 1) 0⟩])).cache.totalSize ≤ 20 := by
  refine (quota_kept_iff sampleEnv { cache := { maxStorageBytes := 20 } } .empty _ ?_ sampleEnv
    (sampleHash 1) 0).mpr (by decide)
  intro ev hev
  simp only [sampleEvents, addSample, List.map_cons, List.map_nil, List.mem_cons,
    List.not_mem_nil, or_false] at hev
  rcases hev with rfl | rfl <;> exact ⟨by simp, by simp⟩

/-- A file of ten bytes completes under a quota of five. -/
theorem completed_file_exceeds_quota :
    (machine.run (create sampleEnv { cache := { maxStorageBytes := 5 } } .empty)
      (sampleEvents (addSample 1 "a.torrent".toList ++
        [.fileCompleted (sampleHash 1) 0]))).cache.totalSize = 10 := by decide

end SeekServeEngine

end SeekServe
