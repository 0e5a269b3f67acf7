import SeekServe.ClientLists
import SeekServe.Persistence

/-!
# The order of the saved torrents

The list of torrents comes from the database in the order of `added_at`. As long as the clock
is not set back, that is the order in which the torrents were added last, over restarts too.
-/

namespace SeekServe

set_option autoImplicit false

abbrev SavedTorrents := List (TorrentId × CxxString)

/-- What an event does to the list: an addition moves its torrent to the end, and a restart
drops what can no longer be loaded. -/
def SavedTorrents.note (saved : SavedTorrents) (ev : Event) : SavedTorrents :=
  match ev.op with
  | .addTorrent uri _ =>
    match ev.env.load.load uri with
    | .ok ih => saved.filter (fun row => row.1 ≠ infohashToHex ih) ++ [(infohashToHex ih, uri)]
    | .error _ => saved
  | .removeTorrent id _ => saved.filter fun row => row.1 ≠ id
  | .restart => saved.filter fun row => (ev.env.load.load row.2).isOk
  | _ => saved

namespace OfflineCacheManager

/-- The rows stand in the order of their times, none of which lies ahead. -/
structure Chronological (c : OfflineCacheManager) (now : Int) : Prop where
  sorted : c.torrents.entries.reverse.Pairwise fun a b => a.2.addedAt ≤ b.2.addedAt
  past : ∀ entry ∈ c.torrents.entries, entry.2.addedAt ≤ now

/-- The list in the order in which the rows were written. -/
def written (c : OfflineCacheManager) : SavedTorrents :=
  c.torrents.entries.reverse.map fun entry => (entry.1, entry.2.uri)

section Chronological
variable {c : OfflineCacheManager} {now : Int} (h : c.Chronological now)
include h

theorem Chronological.listTorrentUris : c.listTorrentUris = c.written := by
  unfold OfflineCacheManager.listTorrentUris written
  rw [h.sorted.insertionSort_eq]

theorem Chronological.later {now' : Int} (hle : now ≤ now') : c.Chronological now' :=
  ⟨h.sorted, fun entry hentry => Int.le_trans (h.past entry hentry) hle⟩

theorem Chronological.removed (id : TorrentId) : (c.removeTorrentUri id).Chronological now := by
  have hsub : (AList.erase id c.torrents).entries.Sublist c.torrents.entries :=
    List.kerase_sublist id c.torrents.entries
  refine ⟨h.sorted.sublist hsub.reverse, ?_⟩
  intro entry hentry
  exact h.past entry (hsub.mem hentry)

theorem Chronological.saved {now' : Int} (hle : now ≤ now') (id : TorrentId) (uri : CxxString) :
    (c.saveTorrentUri now' id uri).Chronological now' := by
  have hentries : (c.saveTorrentUri now' id uri).torrents.entries =
      ⟨id, ⟨uri, now'⟩⟩ :: (c.removeTorrentUri id).torrents.entries := rfl
  obtain ⟨hsorted, hpast⟩ := (h.removed id).later hle
  constructor
  · rw [hentries, List.reverse_cons, List.pairwise_append]
    refine ⟨hsorted, List.pairwise_singleton _ _, ?_⟩
    intro a ha b hb
    rw [List.mem_singleton.mp hb]
    exact hpast a (List.mem_reverse.mp ha)
  · intro entry hentry
    rw [hentries] at hentry
    rcases List.mem_cons.mp hentry with rfl | hentry
    · exact Int.le_refl _
    · exact hpast entry hentry

end Chronological

theorem written_removeTorrentUri (c : OfflineCacheManager) (id : TorrentId) :
    (c.removeTorrentUri id).written = c.written.filter fun row => row.1 ≠ id := by
  have hentries : (c.removeTorrentUri id).torrents.entries =
      c.torrents.entries.filter fun entry => entry.1 ≠ id :=
    AssocMap.entries_erase_eq_filter c.torrents id
  unfold written
  rw [hentries, List.filter_map, List.filter_reverse]
  rfl

theorem written_saveTorrentUri (c : OfflineCacheManager) (now : Int) (id : TorrentId)
    (uri : CxxString) :
    (c.saveTorrentUri now id uri).written =
      c.written.filter (fun row => row.1 ≠ id) ++ [(id, uri)] := by
  have hentries : (c.saveTorrentUri now id uri).torrents.entries =
      ⟨id, ⟨uri, now⟩⟩ :: (c.removeTorrentUri id).torrents.entries := rfl
  rw [← written_removeTorrentUri]
  unfold written
  rw [hentries, List.reverse_cons, List.map_append]
  rfl

theorem Chronological.of_torrents {c c' : OfflineCacheManager} {now : Int}
    (h : c.Chronological now) (htorrents : c'.torrents = c.torrents) : c'.Chronological now := by
  refine ⟨?_, ?_⟩
  · rw [htorrents]
    exact h.sorted
  · rw [htorrents]
    exact h.past

theorem written_of_torrents {c c' : OfflineCacheManager} (htorrents : c'.torrents = c.torrents) :
    c'.written = c.written := by
  unfold written
  rw [htorrents]

theorem nodup_written (c : OfflineCacheManager) : (c.written.map Prod.fst).Nodup := by
  have hkeys : (c.torrents.entries.map Sigma.fst).Nodup := c.torrents.nodupKeys
  have hids : c.written.map Prod.fst = (c.torrents.entries.map Sigma.fst).reverse := by
    unfold written
    rw [List.map_map, ← List.map_reverse]
    rfl
  rw [hids, List.nodup_reverse]
  exact hkeys

end OfflineCacheManager

namespace SeekServeEngine
open OfflineCacheManager

/-- The row is dropped, or the database stays as it is. -/
theorem cache_restoreRow (env : Env) (e : SeekServeEngine) (row : TorrentId × CxxString) :
    (restoreRow env e row).cache =
      if (env.load.load row.2).isOk then e.cache else e.cache.removeTorrentUri row.1 := by
  have hresult := e.sessions.addTorrent_result env.load ⟨row.2, e.config.session.savePath⟩
  unfold restoreRow
  cases hadd : e.sessions.addTorrent env.load ⟨row.2, e.config.session.savePath⟩ with
  | mk result sessions =>
    rw [hadd] at hresult
    cases hload : env.load.load row.2 with
    | ok ih =>
      rw [hload] at hresult
      cases hresult
      rfl
    | error err =>
      rw [hload] at hresult
      cases hresult
      rfl

theorem restored_rows (env : Env) {now : Int} (rows : SavedTorrents) (e : SeekServeEngine)
    (h : e.cache.Chronological now) :
    (rows.foldl (restoreRow env) e).cache.Chronological now ∧
      (rows.foldl (restoreRow env) e).cache.written = e.cache.written.filter fun row =>
        decide (∀ r ∈ rows, r.1 = row.1 → (env.load.load r.2).isOk = true) := by
  induction rows generalizing e with
  | nil =>
    refine ⟨h, (List.filter_eq_self.mpr ?_).symm⟩
    intro row _
    exact decide_eq_true fun r hr => absurd hr List.not_mem_nil
  | cons row rows ih =>
    have hcache := cache_restoreRow env e row
    have hstep : (restoreRow env e row).cache.Chronological now ∧
        (restoreRow env e row).cache.written = e.cache.written.filter fun row' =>
          decide (row.1 = row'.1 → (env.load.load row.2).isOk = true) := by
      rw [hcache]
      split
      · rename_i hok
        refine ⟨h, (List.filter_eq_self.mpr ?_).symm⟩
        intro row' _
        exact decide_eq_true fun _ => hok
      · rename_i hfail
        refine ⟨h.removed row.1, ?_⟩
        rw [written_removeTorrentUri]
        apply List.filter_congr
        intro row' _
        apply decide_eq_decide.mpr
        exact ⟨fun hne heq => absurd heq.symm hne, fun himp heq => hfail (himp heq.symm)⟩
    obtain ⟨hchron, hwritten⟩ := hstep
    obtain ⟨hchron', hwritten'⟩ := ih (restoreRow env e row) hchron
    refine ⟨hchron', ?_⟩
    rw [List.foldl_cons, hwritten', hwritten, List.filter_filter]
    apply List.filter_congr
    intro row' _
    rw [← Bool.decide_and]
    apply decide_eq_decide.mpr
    rw [List.forall_mem_cons]
    exact And.comm

theorem restored_create (env : Env) (config : Config) {cache : OfflineCacheManager} {now : Int}
    (h : cache.Chronological now) :
    (create env config cache).cache.Chronological now ∧
      (create env config cache).cache.written =
        cache.written.filter fun row => (env.load.load row.2).isOk := by
  have hrows := restored_rows env cache.written (fresh config cache) h
  have hcreate : create env config cache =
      cache.written.foldl (restoreRow env) (fresh config cache) := by
    unfold create
    rw [h.listTorrentUris]
  rw [hcreate]
  refine ⟨hrows.1, hrows.2.trans ?_⟩
  apply List.filter_congr
  intro row hrow
  -- no other row has the id
  have hself : (∀ r ∈ cache.written, r.1 = row.1 → (env.load.load r.2).isOk = true) ↔
      (env.load.load row.2).isOk = true := by
    constructor
    · intro hall
      exact hall row hrow rfl
    · intro hok r hr hid
      have hsame : r = row := List.inj_on_of_nodup_map cache.nodup_written hr hrow hid
      rw [hsame]
      exact hok
  rw [Bool.eq_iff_iff, decide_eq_true_iff]
  exact hself

theorem written_addTorrent {e : SeekServeEngine} {now : Int} (h : e.cache.Chronological now)
    {env : Env} (hclock : now ≤ env.now) (uri savePath : CxxString) :
    (e.addTorrent env uri savePath).2.cache.Chronological env.now ∧
      (e.addTorrent env uri savePath).2.cache.written =
        SavedTorrents.note e.cache.written ⟨env, .addTorrent uri savePath⟩ := by
  have htorrents : (e.addTorrent env uri savePath).2.cache.torrents = _ :=
    congrArg Records.torrents (records_addTorrent env e uri savePath).2
  have hresult := e.sessions.addTorrent_result env.load ⟨uri, savePath⟩
  simp only at htorrents
  cases hload : env.load.load uri with
  | error err =>
    rw [hload] at hresult
    rw [hresult] at htorrents
    simp only [SavedTorrents.note, hload]
    exact ⟨(h.later hclock).of_torrents htorrents, written_of_torrents htorrents⟩
  | ok ih =>
    rw [hload] at hresult
    rw [hresult] at htorrents
    have hwritten := written_saveTorrentUri e.cache env.now (infohashToHex ih) uri
    refine ⟨(h.saved hclock (infohashToHex ih) uri).of_torrents htorrents, ?_⟩
    simp only [SavedTorrents.note, hload]
    exact (written_of_torrents htorrents).trans hwritten

theorem written_step {e : SeekServeEngine} {now : Int} (h : e.cache.Chronological now) (ev : Event)
    (hclock : now ≤ ev.env.now) :
    (e.step ev).2.cache.Chronological ev.env.now ∧
      (e.step ev).2.cache.written = SavedTorrents.note e.cache.written ev := by
  have hlater := h.later hclock
  by_cases hadd : ∃ uri savePath, ev.op = .addTorrent uri savePath
  · obtain ⟨uri, savePath, hop⟩ := hadd
    have hstep : (e.step ev).2 = (e.addTorrent ev.env uri savePath).2 := by
      unfold step
      rw [hop]
    have hnote : SavedTorrents.note e.cache.written ev =
        SavedTorrents.note e.cache.written ⟨ev.env, .addTorrent uri savePath⟩ := by
      unfold SavedTorrents.note
      rw [hop]
    rw [hstep, hnote]
    exact written_addTorrent h hclock uri savePath
  have hquiet : (e.step ev).2.cache.torrents = e.cache.torrents →
      (∀ id deleteFiles, ev.op ≠ .removeTorrent id deleteFiles) → ev.op ≠ .restart →
      (e.step ev).2.cache.Chronological ev.env.now ∧
        (e.step ev).2.cache.written = SavedTorrents.note e.cache.written ev := by
    intro htorrents hremove hrestart
    have hnote : SavedTorrents.note e.cache.written ev = e.cache.written := by
      unfold SavedTorrents.note
      split
      · rename_i uri savePath hop
        exact absurd ⟨uri, savePath, hop⟩ hadd
      · rename_i id deleteFiles hop
        exact absurd hop (hremove id deleteFiles)
      · rename_i hop
        exact absurd hop hrestart
      · rfl
    rw [hnote]
    exact ⟨hlater.of_torrents htorrents, written_of_torrents htorrents⟩
  cases records_step e ev with
  | added uri savePath hop hrecords => exact absurd ⟨uri, savePath, hop⟩ hadd
  | removed id deleteFiles hop hrecords =>
    have htorrents : (e.step ev).2.cache.torrents = (e.cache.removeTorrentUri id).torrents :=
      congrArg Records.torrents hrecords
    refine ⟨(hlater.removed id).of_torrents htorrents, ?_⟩
    rw [written_of_torrents htorrents, written_removeTorrentUri]
    simp only [SavedTorrents.note, hop]
  | restarted hop hnew =>
    rw [hnew]
    have hcreate := restored_create ev.env e.config hlater
    simp only [SavedTorrents.note, hop]
    exact hcreate
  | announced ih hop hrecords =>
    apply hquiet (congrArg Records.torrents hrecords)
    · intro id deleteFiles heq
      rw [heq] at hop
      cases hop
    · intro heq
      rw [heq] at hop
      cases hop
  | controlled req server api hop hserver hapi hrecords =>
    apply hquiet (congrArg Records.torrents hrecords)
    · intro id deleteFiles heq
      rw [heq] at hop
      cases hop
    · intro heq
      rw [heq] at hop
      cases hop
  | quiet hop hunserved hrecords =>
    exact hquiet (congrArg Records.torrents hrecords) hop.1 hop.2.2

/-- By induction on the run, with the time of the last event. -/
theorem written_run {e : SeekServeEngine} {now : Int} (h : e.cache.Chronological now)
    (evs : List Event) (hclock : (now :: evs.map fun ev => ev.env.now).Pairwise (· ≤ ·)) :
    (machine.run e evs).cache.listTorrentUris = evs.foldl SavedTorrents.note e.cache.written := by
  induction evs generalizing e now with
  | nil => exact h.listTorrentUris
  | cons ev evs ih =>
    rw [List.map_cons, List.pairwise_cons] at hclock
    obtain ⟨hchron, hwritten⟩ := written_step h ev (hclock.1 _ List.mem_cons_self)
    rw [List.foldl_cons, ← hwritten]
    exact ih hchron hclock.2

end SeekServeEngine

/-- The ids are hexadecimal digits. -/
def SavedTorrents.Hex (saved : SavedTorrents) : Prop :=
  ∀ row ∈ saved, ∀ c ∈ row.1, isHexDigit c = true

theorem SavedTorrents.Hex.note {saved : SavedTorrents} (h : saved.Hex) (ev : Event) :
    (saved.note ev).Hex := by
  have hfilter : ∀ p : TorrentId × CxxString → Bool, SavedTorrents.Hex (saved.filter p) :=
    fun p row hrow => h row (List.mem_filter.mp hrow).1
  unfold SavedTorrents.note
  split
  · split
    · intro row hrow
      rcases List.mem_append.mp hrow with hold | hnew
      · exact hfilter _ row hold
      · rw [List.mem_singleton.mp hnew]
        exact fun c hc => isHexDigit_of_mem_infohashToHex hc
    · exact h
  · exact hfilter _
  · exact hfilter _
  · exact h

theorem SavedTorrents.Hex.foldl {saved : SavedTorrents} (h : saved.Hex) (evs : List Event) :
    (evs.foldl SavedTorrents.note saved).Hex := by
  induction evs generalizing saved with
  | nil => exact h
  | cons ev evs ih => exact ih (h.note ev)

theorem listTorrents_returned {dump : JsonValue → Option (List UInt8)}
    {parse : List UInt8 → Option JsonValue} (hjson : FollowsJson dump parse) {e : SeekServeEngine}
    (hhex : ∀ id ∈ e.listTorrents, ∀ c ∈ id, isHexDigit c = true) :
    SeekServeClient.listTorrents dump e = .returned (e.listTorrents.map Json.units) := by
  have hstands : ∀ id ∈ e.listTorrents,
      (JsonValue.string id).Stands (.string (Json.units id)) := by
    intro id hid
    obtain ⟨hbytes, hunits⟩ := ascii_text (lt_of_hex (hhex id hid))
    have hstring := JsonValue.Stands.string id
    rw [hbytes, hunits] at hstring
    exact hstring
  have hread : ∀ id ∈ e.listTorrents, ∀ w, (JsonValue.string id).Stands w →
      castString (some w) = .returned (Json.units id) := by
    intro id hid w hw
    obtain ⟨hbytes, hunits⟩ := ascii_text (lt_of_hex (hhex id hid))
    have hstring : (JsonValue.string (utf8String id)).Stands w := by
      rw [hbytes]
      exact hw
    rw [hstring.of_string, hunits]
    rfl
  obtain ⟨w, hw⟩ := stands_array fun id hid => ⟨_, hstands id hid⟩
  obtain ⟨w', hw', hanswer⟩ := jsonOf_dump hjson hw
  obtain ⟨ws, rfl, hcollect⟩ := collect_of_stands hread hw'
  unfold SeekServeClient.listTorrents CApi.ssListTorrents
  rw [hanswer]
  exact hcollect

/-- The client lists the saved torrents in the order in which they were added last. -/
theorem SeekServeClient.torrents_in_order {dump : JsonValue → Option (List UInt8)}
    {parse : List UInt8 → Option JsonValue} (hjson : FollowsJson dump parse) (env : Env)
    (config : Config) {cache : OfflineCacheManager} (hsorted : cache.Chronological env.now)
    (hhex : SavedTorrents.Hex cache.listTorrentUris) (evs : List Event)
    (hclock : (env.now :: evs.map fun ev => ev.env.now).Pairwise (· ≤ ·)) :
    let saved : SavedTorrents := evs.foldl SavedTorrents.note
      (cache.listTorrentUris.filter fun row => (env.load.load row.2).isOk)
    let e := SeekServeEngine.machine.run (.create env config cache) evs
    e.cache.listTorrentUris = saved ∧
      listTorrents dump e = .returned (saved.map fun row => Json.units row.1) := by
  intro saved e
  obtain ⟨hchron, hwritten⟩ := SeekServeEngine.restored_create env config hsorted
  have hrun := SeekServeEngine.written_run hchron evs hclock
  rw [hwritten, ← hsorted.listTorrentUris] at hrun
  have hsaved : saved.Hex := by
    apply SavedTorrents.Hex.foldl
    exact fun row hrow => hhex row (List.mem_filter.mp hrow).1
  have hids : e.listTorrents = saved.map Prod.fst := congrArg (List.map Prod.fst) hrun
  refine ⟨hrun, ?_⟩
  rw [listTorrents_returned hjson, hids, List.map_map]
  · rfl
  · intro id hid
    rw [hids] at hid
    obtain ⟨row, hrow, rfl⟩ := List.mem_map.mp hid
    exact hsaved row hrow

/-- The torrent that is added again moves behind the other. -/
theorem SeekServeClient.added_again_is_last :
    listTorrents JsonValue.compactDump (sampleRun [.addTorrent "a.torrent".toList [],
        .addTorrent "b.torrent".toList [], .restart, .addTorrent "a.torrent".toList []]) =
      .returned [Json.units (sampleId 2), Json.units (sampleId 1)] := by
  have hsorted : OfflineCacheManager.empty.Chronological sampleEnv.now :=
    ⟨List.Pairwise.nil, fun _ hentry => absurd hentry List.not_mem_nil⟩
  have hhex : SavedTorrents.Hex OfflineCacheManager.empty.listTorrentUris :=
    fun _ hrow => absurd hrow List.not_mem_nil
  exact (torrents_in_order followsJson_compactDump sampleEnv {} hsorted hhex
    (sampleEvents [.addTorrent "a.torrent".toList [], .addTorrent "b.torrent".toList [],
      .restart, .addTorrent "a.torrent".toList []]) (by decide)).2

end SeekServe
