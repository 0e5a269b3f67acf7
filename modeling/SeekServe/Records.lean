import SeekServe.ServingRuns

/-!
# What is known of the torrents

The session, the catalog, the table of persisted torrents and the ids that were removed:
which operation changes which of them.
-/

namespace SeekServe

set_option autoImplicit false

structure Records where
  sessions : TorrentSessionManager
  catalog : MetadataCatalog
  torrents : AssocMap TorrentId TorrentRow
  removedIds : List TorrentId

def SeekServeEngine.records (e : SeekServeEngine) : Records :=
  ⟨e.sessions, e.catalog, e.cache.torrents, e.removedIds⟩

namespace SeekServeEngine

theorem records_stopServer (e : SeekServeEngine) : e.stopServer.records = e.records := by
  unfold stopServer
  split <;> rfl

theorem torrents_tickStates (env : Env) (e : SeekServeEngine) :
    (e.tickStates env).cache.torrents = e.cache.torrents := by
  unfold tickStates
  generalize e.states.entries = entries
  generalize e.cache = cache
  induction entries generalizing cache with
  | nil => rfl
  | cons entry rest ih =>
    rw [List.foldl_cons, ih]
    split <;> rfl

theorem records_onTick (env : Env) (e : SeekServeEngine) : (e.onTick env).records = e.records := by
  unfold onTick
  split
  · unfold records
    rw [torrents_tickStates]
    rfl
  · rfl

theorem records_startServer (env : Env) (e : SeekServeEngine) :
    (e.startServer env).2.records = e.records := by
  unfold startServer
  split
  · rfl
  simp only
  split
  · rfl
  split
  · rfl
  · simp only [records, startTickTimer, torrents_tickStates]
    rfl

theorem records_addTorrent (env : Env) (e : SeekServeEngine) (uri savePath : CxxString) :
    (e.addTorrent env uri savePath).1 = (e.sessions.addTorrent env.load ⟨uri, savePath⟩).1 ∧
    (e.addTorrent env uri savePath).2.records =
      { e.records with
        sessions := (e.sessions.addTorrent env.load ⟨uri, savePath⟩).2
        torrents :=
          match (e.sessions.addTorrent env.load ⟨uri, savePath⟩).1 with
          | .ok id => (e.cache.saveTorrentUri env.now id uri).torrents
          | .error _ => e.cache.torrents } := by
  unfold addTorrent
  cases e.sessions.addTorrent env.load ⟨uri, savePath⟩ with
  | mk result sessions => cases result <;> exact ⟨rfl, rfl⟩

theorem records_dropSources (e : SeekServeEngine) (id : TorrentId) :
    (e.dropSources id).records = e.records := by
  unfold dropSources
  split <;> rfl

theorem records_removeTorrent (e : SeekServeEngine) (id : TorrentId) :
    (e.removeTorrent id).1 = (e.sessions.removeTorrent id).1 ∧
    (e.removeTorrent id).2.records =
      { sessions := (e.sessions.removeTorrent id).2
        catalog := e.catalog.remove id
        torrents := (e.cache.removeTorrentUri id).torrents
        removedIds := id :: e.removedIds } := by
  have hdrop := records_dropSources { e with cache := e.cache.removeTorrentUri id } id
  simp only [records, Records.mk.injEq] at hdrop
  obtain ⟨hsessions, hcatalog, htorrents, hremoved⟩ := hdrop
  simp only [removeTorrent, records, hsessions, hcatalog, htorrents, hremoved, and_self]

theorem records_selectFile (env : Env) (e : SeekServeEngine) (id : TorrentId) (fi : Int) :
    ∃ catalog, (e.selectFile env id fi).2.records = { e.records with catalog := catalog } ∧
      ∀ id', catalog.hasMetadata id' = e.catalog.hasMetadata id' := by
  rcases selectFile_cases env e id fi with ⟨err, catalog, heq, _, hmeta⟩ | ⟨handle, ti, _, _, _, heq⟩
  · rw [heq]
    exact ⟨catalog, rfl, hmeta⟩
  · rw [heq]
    refine ⟨(e.catalog.selectFile id fi).2, ?_, e.catalog.hasMetadata_selectFile id fi⟩
    unfold publish dropPreviousSource
    split
    · split <;> rfl
    · rfl

theorem records_onMetadataReceived (env : Env) (e : SeekServeEngine) (ih : InfoHash)
    (ti : TorrentInfo) :
    (e.onMetadataReceived env ih ti).records =
      { e.records with
        catalog :=
          if infohashToHex ih ∈ e.removedIds then e.catalog
          else e.catalog.onMetadataReceived (infohashToHex ih) ti } := by
  unfold onMetadataReceived
  simp only
  split
  · rfl
  · split <;> rfl

theorem records_onFileCompleted (env : Env) (e : SeekServeEngine) (ih : InfoHash) (fi : Int) :
    (e.onFileCompleted env ih fi).records = e.records := rfl

theorem records_onPieceFinished (e : SeekServeEngine) (ih : InfoHash) (piece : Int) :
    (e.onPieceFinished ih piece).records = e.records := rfl

theorem records_control (env : Env) {e : SeekServeEngine} (req : HttpRequest)
    {server : HttpRangeServer} {api : ControlApiServer} (hserver : e.httpServer = some server)
    (hapi : e.apiServer = some api) :
    ∃ catalog,
      (e.control env req).2.records =
        { e.records with
          sessions := ((e.controlContext env server api).handleConnection req).sessions
          catalog := catalog } ∧
      ∀ id, catalog.hasMetadata id = e.catalog.hasMetadata id := by
  have hmeta := (e.controlContext env server api).serve_hasMetadata
    (controlRoute api.authToken env.json req)
  refine ⟨((e.controlContext env server api).handleConnection req).catalog, ?_, hmeta⟩
  unfold control
  simp only [hserver, hapi, afterControl]
  split
  · exact records_stopServer _
  · rfl

theorem held_stopServer (e : SeekServeEngine) : e.stopServer.serving.held = e.serving.held := by
  unfold stopServer
  split <;> rfl

theorem held_startServer (env : Env) (e : SeekServeEngine) :
    (e.startServer env).2.serving.held = e.serving.held := by
  cases hrun : e.serverRunning with
  | true =>
    unfold startServer
    rw [if_pos hrun]
  | false =>
    obtain ⟨server, cancelled, _, _, _, _, hserving⟩ := startServer_cases env hrun
    rw [hserving]

theorem held_control (env : Env) (e : SeekServeEngine) (req : HttpRequest) :
    (e.control env req).2.serving.held = e.serving.held := by
  rcases control_cases env e req with ⟨server, api, _, _, heq⟩ | ⟨_, heq⟩
  · rw [heq]
    unfold afterControl
    simp only
    split
    · exact held_stopServer _
    · rfl
  · rw [heq]

theorem held_removeTorrent (e : SeekServeEngine) (id : TorrentId) :
    (e.removeTorrent id).2.serving.held = Function.update e.serving.held id none := by
  have hstates : (({ e with cache := e.cache.removeTorrentUri id }).dropSources id).states =
      e.states := by
    unfold dropSources
    split <;> rfl
  funext id'
  simp only [removeTorrent, serving, hstates, AssocMap.lookup_erase_eq]
  by_cases hid : id' = id
  · simp [hid]
  · simp [hid]

theorem held_selectFile {env : Env} {e : SeekServeEngine} {id id' : TorrentId} {fi : Int}
    {held : Held} (h : (e.selectFile env id fi).2.serving.held id' = some held) :
    e.serving.held id' = some held ∨
      id' = id ∧ e.sessions.getHandle id = some held.source.handle ∧
        e.catalog.hasMetadata id = true := by
  rcases selectFile_cases env e id fi with ⟨err, catalog, heq, _⟩ | ⟨handle, ti, hhandle, _, hinfo, heq⟩
  · rw [heq] at h
    exact Or.inl h
  · rw [heq] at h
    obtain ⟨path, hpub⟩ := serving_publish
      ({ e with catalog := (e.catalog.selectFile id fi).2 }.dropPreviousSource id) id handle
      (newState env ({ e with catalog := (e.catalog.selectFile id fi).2 }.dropPreviousSource id)
        id fi handle ti)
    simp only [hpub] at h
    rcases Serving.held_update_cases h with ⟨hid, hnew⟩ | ⟨_, hold⟩
    · cases hnew
      have hmeta : e.catalog.hasMetadata id = true := by
        rw [← e.catalog.isSome_torrentInfo, hinfo]
        rfl
      exact Or.inr ⟨hid, hhandle, hmeta⟩
    · refine Or.inl ?_
      unfold dropPreviousSource at hold
      split at hold
      · split at hold <;> exact hold
      · exact hold

/-- What one step does to the records, by the kind of its event. -/
inductive RecordsStep (e : SeekServeEngine) (ev : Event) (e' : SeekServeEngine) : Prop
  | added (uri savePath : CxxString) (hop : ev.op = .addTorrent uri savePath)
    (hrecords : e'.records =
      { e.records with
        sessions := (e.sessions.addTorrent ev.env.load ⟨uri, savePath⟩).2
        torrents :=
          match (e.sessions.addTorrent ev.env.load ⟨uri, savePath⟩).1 with
          | .ok id => (e.cache.saveTorrentUri ev.env.now id uri).torrents
          | .error _ => e.cache.torrents })
  | removed (id : TorrentId) (deleteFiles : Bool) (hop : ev.op = .removeTorrent id deleteFiles)
    (hrecords : e'.records =
      { sessions := (e.sessions.removeTorrent id).2
        catalog := e.catalog.remove id
        torrents := (e.cache.removeTorrentUri id).torrents
        removedIds := id :: e.removedIds })
  | announced (ih : InfoHash) (hop : ev.op.metadataHash = some ih)
    (hrecords : e'.records = { e.records with catalog := e'.catalog })
    (hmeta : ∀ id, e'.catalog.hasMetadata id = true ↔
      id = infohashToHex ih ∧ infohashToHex ih ∉ e.removedIds ∨ e.catalog.hasMetadata id = true)
  | controlled (req : HttpRequest) (server : HttpRangeServer) (api : ControlApiServer)
    (hop : ev.op = .control req) (hserver : e.httpServer = some server)
    (hapi : e.apiServer = some api)
    (hrecords : e'.records =
      { e.records with
        sessions := ((e.controlContext ev.env server api).handleConnection req).sessions
        catalog := e'.catalog })
    (hmeta : ∀ id, e'.catalog.hasMetadata id = e.catalog.hasMetadata id)
  | restarted (hop : ev.op = .restart) (hnew : e' = create ev.env e.config e.cache)
  | quiet (hop : ev.op.KeepsMetadata)
    (hunserved : ∀ req server api, ev.op = .control req → e.httpServer = some server →
      e.apiServer ≠ some api)
    (hrecords : e'.records = { e.records with catalog := e'.catalog })
    (hmeta : ∀ id, e'.catalog.hasMetadata id = e.catalog.hasMetadata id)

theorem RecordsStep.of_same {e e' : SeekServeEngine} {ev : Event} (hop : ev.op.KeepsMetadata)
    (hunserved : ∀ req server api, ev.op = .control req → e.httpServer = some server →
      e.apiServer ≠ some api)
    (h : e'.records = e.records) : e.RecordsStep ev e' := by
  have hcatalog : e'.catalog = e.catalog := congrArg Records.catalog h
  refine .quiet hop hunserved ?_ ?_
  · rw [hcatalog]
    exact h
  · intro id
    rw [hcatalog]

theorem RecordsStep.of_metadata {e : SeekServeEngine} {ev : Event} {ih : InfoHash}
    (hop : ev.op.metadataHash = some ih) (ti : TorrentInfo) :
    e.RecordsStep ev (e.onMetadataReceived ev.env ih ti) := by
  have h := records_onMetadataReceived ev.env e ih ti
  have hcatalog : (e.onMetadataReceived ev.env ih ti).catalog =
      if infohashToHex ih ∈ e.removedIds then e.catalog
      else e.catalog.onMetadataReceived (infohashToHex ih) ti := congrArg Records.catalog h
  refine .announced ih hop ?_ ?_
  · rw [hcatalog]
    exact h
  · intro id
    rw [hcatalog]
    split
    · simp [*]
    · simp [e.catalog.hasMetadata_onMetadataReceived, *]

theorem records_step (e : SeekServeEngine) (ev : Event) : e.RecordsStep ev (e.step ev).2 := by
  unfold step
  cases hop : ev.op with
  | addTorrent uri savePath =>
    exact .added uri savePath hop (records_addTorrent ev.env e uri savePath).2
  | removeTorrent id deleteFiles =>
    exact .removed id deleteFiles hop (records_removeTorrent e id).2
  | metadataReceived ih ti => exact .of_metadata (by simp [hop, Op.metadataHash]) ti
  | torrentAdded ih result =>
    rcases onTorrentAdded_cases ev.env e ih result with ⟨ti, rfl, heq⟩ | ⟨hnone, heq⟩
    · simp only [heq]
      exact .of_metadata (by simp [hop, Op.metadataHash]) ti
    · simp only [heq]
      refine .of_same ⟨by simp [hop], ?_, by simp [hop]⟩ (by simp [hop]) rfl
      rw [hop]
      rcases result with _ | _ | ti
      · rfl
      · rfl
      · exact absurd rfl (hnone ti)
  | restart => exact .restarted hop rfl
  | selectFile id fi =>
    obtain ⟨catalog, h, hmeta⟩ := records_selectFile ev.env e id fi
    have hcatalog : (e.selectFile ev.env id fi).2.catalog = catalog := congrArg Records.catalog h
    subst hcatalog
    exact .quiet (by simp [Op.KeepsMetadata, hop, Op.metadataHash]) (by simp [hop]) h hmeta
  | control req =>
    rcases control_cases ev.env e req with ⟨server, api, hserver, hapi, _⟩ | ⟨hnot, heq⟩
    · obtain ⟨catalog, h, hmeta⟩ := records_control ev.env req hserver hapi
      have hcatalog : (e.control ev.env req).2.catalog = catalog := congrArg Records.catalog h
      subst hcatalog
      exact .controlled req server api hop hserver hapi h hmeta
    · simp only [heq]
      refine .of_same (by simp [Op.KeepsMetadata, hop, Op.metadataHash]) ?_ rfl
      intro _ server api _ hserver
      exact hnot server api hserver
  | startServer =>
    exact .of_same (by simp [Op.KeepsMetadata, hop, Op.metadataHash]) (by simp [hop])
      (records_startServer ev.env e)
  | stopServer =>
    exact .of_same (by simp [Op.KeepsMetadata, hop, Op.metadataHash]) (by simp [hop])
      (records_stopServer e)
  | pieceFinished ih piece =>
    exact .of_same (by simp [Op.KeepsMetadata, hop, Op.metadataHash]) (by simp [hop])
      (records_onPieceFinished e ih piece)
  | fileCompleted ih fi =>
    exact .of_same (by simp [Op.KeepsMetadata, hop, Op.metadataHash]) (by simp [hop])
      (records_onFileCompleted ev.env e ih fi)
  | tick =>
    exact .of_same (by simp [Op.KeepsMetadata, hop, Op.metadataHash]) (by simp [hop])
      (records_onTick ev.env e)

theorem held_step {e : SeekServeEngine} {ev : Event} {id : TorrentId} {held : Held}
    (h : (e.step ev).2.serving.held id = some held) :
    (e.serving.held id = some held ∧ (∀ deleteFiles, ev.op ≠ .removeTorrent id deleteFiles) ∧
        ev.op ≠ .restart) ∨
      ∃ fi, ev.op = .selectFile id fi ∧ e.sessions.getHandle id = some held.source.handle ∧
        e.catalog.hasMetadata id = true := by
  unfold step at h
  cases hop : ev.op with
  | removeTorrent id' deleteFiles =>
    simp only [hop, held_removeTorrent] at h
    rcases Serving.held_update_cases h with ⟨_, hnew⟩ | ⟨hid, hold⟩
    · cases hnew
    · refine Or.inl ⟨hold, ?_, by simp⟩
      intro _ heq
      cases heq
      exact hid rfl
  | selectFile id' fi =>
    simp only [hop] at h
    rcases held_selectFile h with hold | ⟨rfl, hhandle, hmeta⟩
    · exact Or.inl ⟨hold, by simp, by simp⟩
    · exact Or.inr ⟨fi, rfl, hhandle, hmeta⟩
  | restart =>
    simp only [hop, restart, serving_create] at h
    cases h
  | addTorrent uri savePath =>
    simp only [hop, serving_addTorrent] at h
    exact Or.inl ⟨h, by simp, by simp⟩
  | startServer =>
    simp only [hop, held_startServer] at h
    exact Or.inl ⟨h, by simp, by simp⟩
  | stopServer =>
    simp only [hop, held_stopServer] at h
    exact Or.inl ⟨h, by simp, by simp⟩
  | metadataReceived ih ti =>
    simp only [hop, serving_onMetadataReceived] at h
    exact Or.inl ⟨h, by simp, by simp⟩
  | torrentAdded ih result =>
    simp only [hop, serving_onTorrentAdded] at h
    exact Or.inl ⟨h, by simp, by simp⟩
  | pieceFinished ih piece =>
    simp only [hop, serving_onPieceFinished] at h
    exact Or.inl ⟨h, by simp, by simp⟩
  | fileCompleted ih fi =>
    simp only [hop] at h
    exact Or.inl ⟨h, by simp, by simp⟩
  | tick =>
    simp only [hop, serving_onTick] at h
    exact Or.inl ⟨h, by simp, by simp⟩
  | control req =>
    simp only [hop, held_control] at h
    exact Or.inl ⟨h, by simp, by simp⟩

theorem ne_of_held_removeTorrent {e : SeekServeEngine} {ev : Event} {id id' : TorrentId}
    {held : Held} {deleteFiles : Bool} (h : (e.step ev).2.serving.held id = some held)
    (hop : ev.op = .removeTorrent id' deleteFiles) : id ≠ id' := by
  intro heq
  rcases held_step h with ⟨_, hkept, _⟩ | ⟨fi, hselect, _⟩
  · exact hkept deleteFiles (heq ▸ hop)
  · rw [hop] at hselect
    cases hselect

end SeekServeEngine

end SeekServe
