import SeekServe.Removal

/-!
# A failed removal

The one step of `remove_torrent` that can fail is its last. By then the other stores have
been cleared of the torrent, and its later alerts are ignored.
-/

namespace SeekServe

set_option autoImplicit false

/-- The torrent that an alert is about. -/
def Op.alertId : Op → Option TorrentId
  | .metadataReceived ih _ | .torrentAdded ih _ | .pieceFinished ih _ | .fileCompleted ih _ =>
    some (infohashToHex ih)
  | _ => none

theorem Op.eq_of_alertId {op : Op} {id : TorrentId} (h : op.alertId = some id) :
    ∃ ih, infohashToHex ih = id := by
  cases op with
  | metadataReceived ih | torrentAdded ih | pieceFinished ih | fileCompleted ih =>
    exact ⟨ih, Option.some.inj h⟩
  | addTorrent | removeTorrent | selectFile | startServer | stopServer | tick | control
  | restart => cases h

namespace SeekServeEngine

structure Unchanged (e e' : SeekServeEngine) : Prop where
  catalog : e'.catalog = e.catalog
  states : e'.states = e.states
  sources : e'.httpServer = e.httpServer
  cancelled : e'.cancelled = e.cancelled
  database : e'.cache = e.cache

/-- The call changed nothing, and the alerts for the torrent will do what they would have done. -/
structure NothingRemoved (e e' : SeekServeEngine) (id : TorrentId) : Prop where
  now : e.Unchanged e'
  alerts : ∀ es : List Event, (∀ ev ∈ es, ev.op.alertId = some id) →
    (machine.run e es).Unchanged (machine.run e' es)

/-- The two engines differ in how they write down the same removed ids. -/
structure Twin (e e' : SeekServeEngine) : Prop where
  rest : e' = { e with removedIds := e'.removedIds }
  removed : ∀ id, id ∈ e'.removedIds ↔ id ∈ e.removedIds

theorem Twin.unchanged {e e' : SeekServeEngine} (h : e.Twin e') : e.Unchanged e' := by
  rw [h.rest]
  exact ⟨rfl, rfl, rfl, rfl, rfl⟩

theorem Twin.onMetadataReceived {e e' : SeekServeEngine} (h : e.Twin e') (env : Env)
    (ih : InfoHash) (ti : TorrentInfo) :
    (e.onMetadataReceived env ih ti).Twin (e'.onMetadataReceived env ih ti) := by
  obtain ⟨hrest, hremoved⟩ := h
  generalize e'.removedIds = removedIds at hrest hremoved
  subst hrest
  unfold SeekServeEngine.onMetadataReceived
  simp only [hremoved]
  by_cases hid : infohashToHex ih ∈ e.removedIds
  · simp only [hid, if_true]
    exact ⟨rfl, hremoved⟩
  · simp only [hid, if_false]
    split
    · exact ⟨rfl, hremoved⟩
    · exact ⟨rfl, hremoved⟩

theorem Twin.step_alert {e e' : SeekServeEngine} (h : e.Twin e') {ev : Event} {id : TorrentId}
    (hev : ev.op.alertId = some id) : (e.step ev).2.Twin (e'.step ev).2 := by
  unfold step
  cases hop : ev.op with
  | metadataReceived ih ti => exact h.onMetadataReceived ev.env ih ti
  | torrentAdded ih result =>
    rcases result with _ | _ | ti
    · exact h
    · exact h
    · exact h.onMetadataReceived ev.env ih ti
  | pieceFinished ih piece =>
    obtain ⟨hrest, hremoved⟩ := h
    generalize e'.removedIds = removedIds at hrest hremoved
    subst hrest
    exact ⟨rfl, hremoved⟩
  | fileCompleted ih fi =>
    obtain ⟨hrest, hremoved⟩ := h
    generalize e'.removedIds = removedIds at hrest hremoved
    subst hrest
    exact ⟨rfl, hremoved⟩
  | addTorrent | removeTorrent | selectFile | startServer | stopServer | tick | control
  | restart =>
    rw [hop] at hev
    cases hev

theorem Twin.run_alerts {e e' : SeekServeEngine} (h : e.Twin e') {id : TorrentId}
    {es : List Event} (hes : ∀ ev ∈ es, ev.op.alertId = some id) :
    (machine.run e es).Twin (machine.run e' es) := by
  induction es generalizing e e' with
  | nil => exact h
  | cons ev es ih =>
    apply ih (h.step_alert (hes ev List.mem_cons_self))
    intro ev' hev'
    exact hes ev' (List.mem_cons_of_mem ev hev')

/-- Metadata is held under ids of hashes, and of no torrent that was removed. -/
def MetadataNamed (e : SeekServeEngine) : Prop :=
  ∀ id, e.catalog.hasMetadata id = true → id ∉ e.removedIds ∧ ∃ ih, infohashToHex ih = id

theorem metadataNamed_create (env : Env) (config : Config) (cache : OfflineCacheManager) :
    (create env config cache).MetadataNamed := by
  obtain ⟨sessions, cache', heq⟩ := create_eq env config cache
  rw [heq]
  intro id hmeta
  cases hmeta

theorem metadataNamed_step {e : SeekServeEngine} (h : e.MetadataNamed) (ev : Event) :
    (e.step ev).2.MetadataNamed := by
  intro id hmeta
  cases records_step e ev with
  | removed id' deleteFiles hop hrecords =>
    have hcatalog : (e.step ev).2.catalog = e.catalog.remove id' :=
      congrArg Records.catalog hrecords
    have hremoved : (e.step ev).2.removedIds = id' :: e.removedIds :=
      congrArg Records.removedIds hrecords
    simp only [hcatalog, MetadataCatalog.hasMetadata_remove, Bool.and_eq_true,
      Bool.not_eq_eq_eq_not, Bool.not_true, decide_eq_false_iff_not] at hmeta
    obtain ⟨hnot, hhash⟩ := h id hmeta.2
    rw [hremoved, List.mem_cons]
    exact ⟨fun hor => hor.elim hmeta.1 hnot, hhash⟩
  | announced ih hop hrecords hnew =>
    have hremoved : (e.step ev).2.removedIds = e.removedIds :=
      congrArg Records.removedIds hrecords
    rw [hremoved]
    rcases (hnew id).mp hmeta with ⟨rfl, hnot⟩ | hold
    · exact ⟨hnot, ih, rfl⟩
    · exact h id hold
  | restarted hop hnew =>
    rw [hnew] at hmeta ⊢
    exact metadataNamed_create ev.env e.config e.cache id hmeta
  | added uri savePath hop hrecords =>
    have hcatalog : (e.step ev).2.catalog = e.catalog := congrArg Records.catalog hrecords
    have hremoved : (e.step ev).2.removedIds = e.removedIds :=
      congrArg Records.removedIds hrecords
    rw [hcatalog] at hmeta
    rw [hremoved]
    exact h id hmeta
  | controlled _ _ _ _ _ _ hrecords hsame | quiet _ _ hrecords hsame =>
    have hremoved : (e.step ev).2.removedIds = e.removedIds :=
      congrArg Records.removedIds hrecords
    rw [hsame] at hmeta
    rw [hremoved]
    exact h id hmeta

theorem metadataNamed_run (env : Env) (config : Config) (cache : OfflineCacheManager)
    (es : List Event) : (machine.run (create env config cache) es).MetadataNamed := by
  apply Runs.Machine.run_invariant machine MetadataNamed
  · intro e ev h
    exact metadataNamed_step h ev
  · exact metadataNamed_create env config cache

theorem dropSources_of_unregistered {e : SeekServeEngine} {id : TorrentId}
    (h : ∀ fi entry, ¬e.serving.Registered id fi entry) : e.dropSources id = e := by
  unfold dropSources
  cases hserver : e.httpServer with
  | none => rfl
  | some server =>
    have hother : ∀ entry ∈ server.sources.values, entry.torrentId ≠ id := by
      intro entry hmem hid
      subst hid
      exact h entry.fileIndex entry ⟨server, hserver, HttpRangeServer.mem_values_iff.mp hmem⟩
    have hsources : AssocMap.filter (fun _ entry => entry.torrentId ≠ id) server.sources =
        server.sources := by
      apply AList.ext
      apply List.filter_eq_self.mpr
      intro entry hmem
      exact decide_eq_true (hother entry.2 (List.mem_map_of_mem hmem))
    have hcancelled : server.sources.values.filter (fun entry => entry.torrentId = id) = [] := by
      apply List.filter_eq_nil_iff.mpr
      intro entry hmem
      exact fun hid => hother entry hmem (of_decide_eq_true hid)
    simp only [HttpRangeServer.removeByteSourcesForTorrent, hsources, hcancelled, List.map_nil,
      List.nil_append]
    rw [← hserver]

/-- Where nothing of the torrent is held, all that a removal does is to note its id. -/
theorem removeTorrent_of_nothing_held {e : SeekServeEngine} {id : TorrentId}
    (hsession : e.sessions.hasTorrent id = false) (hrow : e.cache.torrents.lookup id = none)
    (hcatalog : e.catalog.hasMetadata id = false) (hstate : e.states.lookup id = none)
    (hsources : ∀ fi entry, ¬e.serving.Registered id fi entry) :
    (e.removeTorrent id).2 = { e with removedIds := id :: e.removedIds } := by
  have hcache : e.cache.removeTorrentUri id = e.cache := by
    unfold OfflineCacheManager.removeTorrentUri
    rw [AssocMap.erase_of_lookup_eq_none hrow]
  have hentry : e.catalog.catalog.lookup id = none := by
    unfold MetadataCatalog.hasMetadata at hcatalog
    exact Option.not_isSome_iff_eq_none.mp (by rw [hcatalog]; exact Bool.noConfusion)
  have hremove : e.catalog.remove id = e.catalog := by
    unfold MetadataCatalog.remove
    rw [AssocMap.erase_of_lookup_eq_none hentry]
  unfold removeTorrent
  simp only [hcache, dropSources_of_unregistered hsources, hremove,
    AssocMap.erase_of_lookup_eq_none hstate,
    TorrentSessionManager.removeTorrent_of_not_hasTorrent hsession]

/-- No row of the table is lost, and the alerts for the torrent are ignored already or cannot
come. -/
def NothingToLose (e : SeekServeEngine) (id : TorrentId) : Prop :=
  e.cache.torrents.lookup id = none ∧ (id ∈ e.removedIds ∨ ∀ ih, infohashToHex ih ≠ id)

theorem nothingRemoved_of_nothingToLose {e : SeekServeEngine} {log : ServingLog}
    (htracks : e.serving.Tracks log) (hdescribed : e.StatesDescribed) (hnamed : e.MetadataNamed)
    {id : TorrentId} (hsession : e.sessions.hasTorrent id = false) (h : e.NothingToLose id) :
    e.NothingRemoved (e.removeTorrent id).2 id := by
  obtain ⟨hrow, hguard⟩ := h
  have hmeta : e.catalog.hasMetadata id = false := by
    apply Bool.eq_false_iff.mpr
    intro hmeta
    obtain ⟨hnot, ih, hih⟩ := hnamed id hmeta
    rcases hguard with hin | hnone
    · exact hnot hin
    · exact hnone ih hih
  have hheld : e.serving.held id = none := by
    cases hheld : e.serving.held id with
    | none => rfl
    | some held =>
      rw [hdescribed id held hheld] at hmeta
      cases hmeta
  have hsources : ∀ fi entry, ¬e.serving.Registered id fi entry := by
    intro fi entry hreg
    obtain ⟨held, hsome, _⟩ := htracks.source id fi entry hreg
    rw [hheld] at hsome
    cases hsome
  have heq := removeTorrent_of_nothing_held hsession hrow hmeta (Option.map_eq_none_iff.mp hheld)
    hsources
  rw [heq]
  refine ⟨⟨rfl, rfl, rfl, rfl, rfl⟩, ?_⟩
  intro es hes
  rcases hguard with hin | hnone
  · have htwin : e.Twin { e with removedIds := id :: e.removedIds } := by
      refine ⟨rfl, ?_⟩
      intro id'
      rw [List.mem_cons]
      refine ⟨?_, Or.inr⟩
      rintro (rfl | hold)
      · exact hin
      · exact hold
    exact (htwin.run_alerts hes).unchanged
  · cases es with
    | nil => exact ⟨rfl, rfl, rfl, rfl, rfl⟩
    | cons ev es =>
      obtain ⟨ih, hih⟩ := Op.eq_of_alertId (hes ev List.mem_cons_self)
      exact absurd hih (hnone ih)

theorem nothingToLose_of_nothingRemoved {e : SeekServeEngine} {id : TorrentId}
    (h : e.NothingRemoved (e.removeTorrent id).2 id) : e.NothingToLose id := by
  have hrecords := (records_removeTorrent e id).2
  have hrow : (e.removeTorrent id).2.cache.torrents = (e.cache.removeTorrentUri id).torrents :=
    congrArg Records.torrents hrecords
  refine ⟨?_, ?_⟩
  · have hsame := congrArg OfflineCacheManager.torrents h.now.database
    rw [← hsame, hrow]
    exact AList.lookup_erase id e.cache.torrents
  -- a first metadata alert tells the two apart
  · by_contra hnot
    obtain ⟨hnew, hhash⟩ := not_or.mp hnot
    obtain ⟨ih, hih⟩ := not_forall.mp hhash
    have hid : infohashToHex ih = id := not_not.mp hih
    subst hid
    have halert := h.alerts [⟨sampleEnv, .metadataReceived ih sampleInfo⟩] (by simp [Op.alertId])
    have hcatalog : ((e.removeTorrent (infohashToHex ih)).2.onMetadataReceived sampleEnv ih
        sampleInfo).catalog = (e.onMetadataReceived sampleEnv ih sampleInfo).catalog :=
      halert.catalog
    have hbefore := congrArg Records.catalog
      (records_onMetadataReceived sampleEnv e ih sampleInfo)
    have hafter := congrArg Records.catalog
      (records_onMetadataReceived sampleEnv (e.removeTorrent (infohashToHex ih)).2 ih sampleInfo)
    have hremoved : (e.removeTorrent (infohashToHex ih)).2.removedIds =
        infohashToHex ih :: e.removedIds := congrArg Records.removedIds hrecords
    have hgone : (e.removeTorrent (infohashToHex ih)).2.catalog =
        e.catalog.remove (infohashToHex ih) := congrArg Records.catalog hrecords
    simp only [records] at hbefore hafter
    rw [hafter, hbefore, hremoved, if_pos List.mem_cons_self, if_neg hnew, hgone] at hcatalog
    have hmeta := congrArg (fun c => c.hasMetadata (infohashToHex ih)) hcatalog
    simp [MetadataCatalog.hasMetadata_remove, MetadataCatalog.hasMetadata_onMetadataReceived]
      at hmeta

/-- A removal that fails changes nothing exactly when the table has no row of the torrent and
its alerts were ignored before, or cannot come. -/
theorem failed_removal_changes_nothing_iff (env : Env) (config : Config)
    (cache : OfflineCacheManager) (es : List Event) (ev : Event) (id : TorrentId)
    (deleteFiles : Bool) (err : Errc) (hop : ev.op = .removeTorrent id deleteFiles)
    (hfail : ((machine.run (create env config cache) es).step ev).1 = .done (.error err)) :
    (machine.run (create env config cache) es).NothingRemoved
        ((machine.run (create env config cache) es).step ev).2 id ↔
      (machine.run (create env config cache) es).NothingToLose id := by
  have htracks := tracks_run env config cache es
  have hdescribed := statesDescribed_run env config cache es
  have hnamed := metadataNamed_run env config cache es
  generalize machine.run (create env config cache) es = e at hfail htracks hdescribed hnamed ⊢
  have hstep : e.step ev = (.done (e.removeTorrent id).1, (e.removeTorrent id).2) := by
    simp only [step, hop]
  rw [hstep] at hfail ⊢
  have hsession : e.sessions.hasTorrent id = false := by
    apply Bool.eq_false_iff.mpr
    intro hhas
    have hok := (e.sessions.removeTorrent_ok_iff id).mpr hhas
    rw [← (records_removeTorrent e id).1] at hok
    rw [hok] at hfail
    cases hfail
  refine ⟨nothingToLose_of_nothingRemoved, ?_⟩
  exact nothingRemoved_of_nothingToLose htracks hdescribed hnamed hsession

def removeUnknown : Event := ⟨sampleEnv, .removeTorrent (sampleId 1) false⟩

theorem failed_removal_changes_nothing_iff_twice :
    (sampleRun [.removeTorrent (sampleId 1) false]).NothingRemoved
      ((sampleRun [.removeTorrent (sampleId 1) false]).step removeUnknown).2 (sampleId 1) :=
  (failed_removal_changes_nothing_iff sampleEnv {} .empty
    (sampleEvents [.removeTorrent (sampleId 1) false]) removeUnknown (sampleId 1) false
    .torrentNotFound rfl rfl).mpr ⟨by decide, Or.inl (by decide)⟩

/-- After the failed removal of a torrent that was never added, its metadata is ignored. -/
theorem failed_removal_of_unknown_is_seen :
    ((sampleRun []).step removeUnknown).1 = .done (.error .torrentNotFound) ∧
      ¬(sampleRun []).NothingRemoved ((sampleRun []).step removeUnknown).2 (sampleId 1) := by
  refine ⟨rfl, ?_⟩
  intro h
  have halert := h.alerts [⟨sampleEnv, .metadataReceived (sampleHash 1) sampleInfo⟩]
    (by simp [Op.alertId, sampleId])
  have hmeta := congrArg (fun c => c.hasMetadata (sampleId 1)) halert.catalog
  exact absurd hmeta (by decide)

end SeekServeEngine

end SeekServe
