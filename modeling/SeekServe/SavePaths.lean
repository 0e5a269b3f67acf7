import SeekServe.FailedStart

/-!
# Where torrents are stored and where they are read

Adding a torrent takes a save path, but selecting a file and restoring a torrent use the
configured one.
-/

namespace SeekServe

set_option autoImplicit false

namespace SeekServeEngine

/-- The source of a file that has been selected reads where libtorrent stores the file. -/
def ReadsFromDownload (e : SeekServeEngine) : Prop :=
  ∀ env id fi, (e.selectFile env id fi).1 = .ok () →
    ∃ handle file state, e.sessions.getHandle id = some handle ∧
      e.catalog.getFile id fi = .ok file ∧
      (e.selectFile env id fi).2.states.lookup id = some state ∧
      state.source.filePath = joinPath handle.savePath file.path

/-- A torrent that is there before and after a restart keeps its save path. -/
def RestartKeepsPaths (e : SeekServeEngine) : Prop :=
  ∀ env id handle handle', e.sessions.getHandle id = some handle →
    (e.restart env).sessions.getHandle id = some handle' → handle'.savePath = handle.savePath

/-- What an event asks the session to add, by the engine's call or by the control API. -/
def addition (e : SeekServeEngine) (ev : Event) : Option AddTorrentParams :=
  match ev.op with
  | .addTorrent uri savePath => some ⟨uri, savePath⟩
  | .control req =>
    match e.httpServer, e.apiServer with
    | some _, some api =>
      match controlRoute api.authToken ev.env.json req with
      | .addTorrent params => some params
      | _ => none
    | _, _ => none
  | _ => none

/-- A torrent that the session does not have yet is added under the configured save path,
given or by default. -/
def AddsToConfiguredPath (e : SeekServeEngine) (ev : Event) : Prop :=
  ∀ params ih, e.addition ev = some params → ev.env.load.load params.uri = .ok ih →
    e.sessions.hasTorrent (infohashToHex ih) = false →
    params.savePath = [] ∨ params.savePath = e.config.session.savePath

/-- All torrents of the session are stored under the path of the configuration. -/
structure StoredIn (config : Config) (e : SeekServeEngine) : Prop where
  config_eq : e.config = config
  session_eq : e.sessions.config = config.session
  handles : ∀ id handle, e.sessions.getHandle id = some handle →
    handle.savePath = config.session.savePath

end SeekServeEngine

theorem TorrentSessionManager.config_addTorrent (m : TorrentSessionManager) (load : Loader)
    (params : AddTorrentParams) : (m.addTorrent load params).2.config = m.config := by
  unfold addTorrent sessionAdd
  cases load.load params.uri with
  | error err => rfl
  | ok ih =>
    simp only
    split <;> rfl

theorem TorrentSessionManager.config_removeTorrent (m : TorrentSessionManager) (id : TorrentId) :
    (m.removeTorrent id).2.config = m.config := by
  unfold removeTorrent
  split <;> rfl

/-- A torrent is stored where its first addition says. -/
theorem TorrentSessionManager.savePath_addTorrent {m : TorrentSessionManager} {load : Loader}
    {params : AddTorrentParams} {id : TorrentId} {handle : TorrentHandle}
    (h : (m.addTorrent load params).2.getHandle id = some handle) :
    m.getHandle id = some handle ∨
      ∃ ih, load.load params.uri = .ok ih ∧ m.hasTorrent (infohashToHex ih) = false ∧
        handle.savePath =
          if params.savePath = [] then m.config.savePath else params.savePath := by
  unfold addTorrent at h
  cases hload : load.load params.uri with
  | error err =>
    rw [hload] at h
    exact Or.inl h
  | ok ih =>
    rw [hload] at h
    simp only [getHandle, sessionAdd_handles, AssocMap.lookup_insert_eq] at h
    by_cases hid : id = infohashToHex ih
    · rw [if_pos hid] at h
      unfold sessionAdd at h
      cases hold : m.handles.lookup (infohashToHex ih) with
      | some old =>
        simp only [hold] at h
        refine Or.inl ?_
        rw [getHandle, hid, hold, h]
      | none =>
        simp only [hold] at h
        refine Or.inr ⟨ih, rfl, ?_, ?_⟩
        · simp [hasTorrent, hold]
        · rw [← Option.some.inj h]
    · rw [if_neg hid] at h
      exact Or.inl h

namespace SeekServeEngine

theorem lookup_publish (e : SeekServeEngine) (id : TorrentId) (handle : TorrentHandle)
    (state : TorrentState) : (e.publish id handle state).states.lookup id = some state := by
  unfold publish
  simp only [AssocMap.lookup_insert_eq, if_true]

/-- The path of the source comes from the configuration and not from the torrent. -/
theorem selected_path {env : Env} {e : SeekServeEngine} {id : TorrentId} {fi : Int}
    (h : (e.selectFile env id fi).1 = .ok ()) :
    ∃ handle file state, e.sessions.getHandle id = some handle ∧
      e.catalog.getFile id fi = .ok file ∧
      (e.selectFile env id fi).2.states.lookup id = some state ∧
      state.source.filePath = joinPath e.config.session.savePath file.path := by
  rcases selectFile_cases env e id fi with ⟨err, _, heq, _⟩ | ⟨handle, ti, hhandle, _, _, heq⟩
  · rw [heq] at h
    cases h
  · have hcatalog : (e.catalog.selectFile id fi).1 = .ok () := by
      unfold selectFile at h
      rw [hhandle] at h
      generalize e.catalog.selectFile id fi = selection at h
      obtain ⟨result, catalog⟩ := selection
      cases result with
      | ok u => rfl
      | error err => cases h
    obtain ⟨file, hfile⟩ := MetadataCatalog.exists_getFile_of_selectFile hcatalog
    have hpath : ((({ e with catalog := (e.catalog.selectFile id fi).2 } : SeekServeEngine
        ).dropPreviousSource id).newState env id fi handle ti).source.filePath =
        joinPath e.config.session.savePath file.path := by
      have hconfig := congrArg Prod.fst
        (setup_dropPreviousSource { e with catalog := (e.catalog.selectFile id fi).2 } id)
      simp only [setup] at hconfig
      simp only [newState, catalog_dropPreviousSource, MetadataCatalog.getFile_selectFile, hfile,
        hconfig]
      rfl
    rw [heq]
    exact ⟨handle, file, _, hhandle, hfile, lookup_publish _ _ _ _, hpath⟩

namespace StoredIn
variable {config : Config} {e e' : SeekServeEngine}

theorem of_same (h : e.StoredIn config) (hconfig : e'.config = e.config)
    (hsessions : e'.sessions = e.sessions) : e'.StoredIn config := by
  refine ⟨hconfig.trans h.config_eq, ?_, ?_⟩
  · rw [hsessions]
    exact h.session_eq
  · rw [hsessions]
    exact h.handles

/-- An addition under the configured path keeps all torrents there. -/
theorem of_addTorrent (h : e.StoredIn config) {load : Loader} {params : AddTorrentParams}
    (hpath : ∀ ih, load.load params.uri = .ok ih →
      e.sessions.hasTorrent (infohashToHex ih) = false →
      params.savePath = [] ∨ params.savePath = config.session.savePath)
    (hconfig : e'.config = e.config)
    (hsessions : e'.sessions = (e.sessions.addTorrent load params).2) : e'.StoredIn config := by
  refine ⟨hconfig.trans h.config_eq, ?_, ?_⟩
  · rw [hsessions, TorrentSessionManager.config_addTorrent]
    exact h.session_eq
  · intro id handle hhandle
    rw [hsessions] at hhandle
    rcases TorrentSessionManager.savePath_addTorrent hhandle with hold | ⟨ih, hload, hnew, hsaved⟩
    · exact h.handles id handle hold
    · rw [hsaved, h.session_eq]
      rcases hpath ih hload hnew with hempty | hsame
      · rw [if_pos hempty]
      · split
        · rfl
        · exact hsame

theorem of_removeTorrent (h : e.StoredIn config) {id : TorrentId} (hconfig : e'.config = e.config)
    (hsessions : e'.sessions = (e.sessions.removeTorrent id).2) : e'.StoredIn config := by
  refine ⟨hconfig.trans h.config_eq, ?_, ?_⟩
  · rw [hsessions, TorrentSessionManager.config_removeTorrent]
    exact h.session_eq
  · intro id' handle hhandle
    rw [hsessions, TorrentSessionManager.getHandle_removeTorrent] at hhandle
    split at hhandle
    · cases hhandle
    · exact h.handles id' handle hhandle

end StoredIn

theorem storedIn_restoreRow {config : Config} {e : SeekServeEngine} (h : e.StoredIn config)
    (env : Env) (row : TorrentId × CxxString) : (restoreRow env e row).StoredIn config := by
  have hadd : ∀ sessions,
      sessions = (e.sessions.addTorrent env.load ⟨row.2, e.config.session.savePath⟩).2 →
      { e with sessions := sessions }.StoredIn config := by
    intro sessions hsessions
    refine h.of_addTorrent ?_ rfl hsessions
    intro _ _ _
    exact Or.inr (by rw [h.config_eq])
  unfold restoreRow
  split
  · rename_i sessions heq
    exact hadd sessions (by rw [heq])
  · exact h.of_same rfl rfl

/-- All torrents that the constructor restores are stored under the configured path. -/
theorem storedIn_create (env : Env) (config : Config) (cache : OfflineCacheManager) :
    (create env config cache).StoredIn config := by
  have hfresh : (fresh config cache).StoredIn config := by
    refine ⟨rfl, rfl, ?_⟩
    intro id handle hhandle
    cases hhandle
  unfold create
  generalize cache.listTorrentUris = rows
  generalize fresh config cache = e at hfresh
  induction rows generalizing e with
  | nil => exact hfresh
  | cons row rows ih => exact ih _ (storedIn_restoreRow hfresh env row)

theorem config_startServer (env : Env) (e : SeekServeEngine) :
    (e.startServer env).2.config = e.config := by
  unfold startServer
  split
  · rfl
  simp only
  split
  · rfl
  · split <;> rfl

theorem storedIn_control {config : Config} {e : SeekServeEngine} (h : e.StoredIn config)
    {ev : Event} {req : HttpRequest} (hop : ev.op = .control req)
    (hadd : e.AddsToConfiguredPath ev) : (e.control ev.env req).2.StoredIn config := by
  have hconfig : (e.control ev.env req).2.config = e.config :=
    congrArg Prod.fst (setup_control ev.env e req)
  rcases control_cases ev.env e req with ⟨server, api, hserver, hapi, _⟩ | ⟨_, heq⟩
  · obtain ⟨catalog, hrecords, _⟩ := records_control ev.env req hserver hapi
    have hsessions := congrArg Records.sessions hrecords
    change (e.control ev.env req).2.sessions = ((e.controlContext ev.env server api).serve
      (controlRoute api.authToken ev.env.json req)).sessions at hsessions
    rw [ControlContext.serve_sessions] at hsessions
    cases hroute : controlRoute api.authToken ev.env.json req with
    | reject | preflight | crash | listTorrents | serverStop | listCache =>
      rw [hroute] at hsessions
      exact h.of_same hconfig hsessions
    | addTorrent params =>
      rw [hroute] at hsessions
      apply h.of_addTorrent _ hconfig hsessions
      intro ih hload hnew
      have haddition : e.addition ev = some params := by
        simp only [addition, hop, hserver, hapi, hroute]
      rw [← h.config_eq]
      exact hadd params ih haddition hload hnew
    | torrent id route =>
      rw [hroute] at hsessions
      cases route with
      | remove => exact h.of_removeTorrent hconfig hsessions
      | files | select | pause | resume | status | streamUrl | unknown =>
        exact h.of_same hconfig hsessions
  · rw [heq]
    exact h

theorem storedIn_step {config : Config} {e : SeekServeEngine} (h : e.StoredIn config) {ev : Event}
    (hadd : e.AddsToConfiguredPath ev) : (e.step ev).2.StoredIn config := by
  unfold step
  cases hop : ev.op with
  | addTorrent uri savePath =>
    have hconfig : (e.addTorrent ev.env uri savePath).2.config = e.config :=
      congrArg Prod.fst (setup_addTorrent ev.env e uri savePath)
    have hsessions := congrArg Records.sessions (records_addTorrent ev.env e uri savePath).2
    apply h.of_addTorrent _ hconfig hsessions
    intro ih hload hnew
    have haddition : e.addition ev = some ⟨uri, savePath⟩ := by simp only [addition, hop]
    rw [← h.config_eq]
    exact hadd ⟨uri, savePath⟩ ih haddition hload hnew
  | removeTorrent id deleteFiles =>
    apply h.of_removeTorrent (congrArg Prod.fst (setup_removeTorrent e id))
    exact congrArg Records.sessions (records_removeTorrent e id).2
  | selectFile id fi =>
    obtain ⟨catalog, hrecords, _⟩ := records_selectFile ev.env e id fi
    apply h.of_same (congrArg Prod.fst (setup_selectFile ev.env e id fi))
    exact congrArg Records.sessions hrecords
  | startServer =>
    apply h.of_same (config_startServer ev.env e)
    exact congrArg Records.sessions (records_startServer ev.env e)
  | stopServer =>
    apply h.of_same (congrArg Prod.fst (setup_stopServer e))
    exact congrArg Records.sessions (records_stopServer e)
  | metadataReceived ih ti =>
    apply h.of_same (congrArg Prod.fst (setup_onMetadataReceived ev.env e ih ti))
    exact congrArg Records.sessions (records_onMetadataReceived ev.env e ih ti)
  | torrentAdded ih result =>
    rcases onTorrentAdded_cases ev.env e ih result with ⟨ti, _, heq⟩ | ⟨_, heq⟩
    · simp only [heq]
      apply h.of_same (congrArg Prod.fst (setup_onMetadataReceived ev.env e ih ti))
      exact congrArg Records.sessions (records_onMetadataReceived ev.env e ih ti)
    · simp only [heq]
      exact h
  | pieceFinished ih piece => exact h.of_same rfl rfl
  | fileCompleted ih fi => exact h.of_same rfl rfl
  | tick =>
    apply h.of_same (congrArg Prod.fst (setup_onTick ev.env e))
    exact congrArg Records.sessions (records_onTick ev.env e)
  | control req => exact storedIn_control h hop hadd
  | restart =>
    have hcreate := storedIn_create ev.env e.config e.cache
    rw [h.config_eq] at hcreate
    simp only [restart, h.config_eq]
    exact hcreate

theorem StoredIn.readsFromDownload {config : Config} {e : SeekServeEngine}
    (h : e.StoredIn config) : e.ReadsFromDownload := by
  intro env id fi hok
  obtain ⟨handle, file, state, hhandle, hfile, hstate, hpath⟩ := selected_path hok
  refine ⟨handle, file, state, hhandle, hfile, hstate, ?_⟩
  rw [hpath, h.config_eq, h.handles id handle hhandle]

theorem StoredIn.restartKeepsPaths {config : Config} {e : SeekServeEngine}
    (h : e.StoredIn config) : e.RestartKeepsPaths := by
  intro env id handle handle' hhandle hhandle'
  have hcreate := storedIn_create env e.config e.cache
  have hafter := hcreate.handles id handle' hhandle'
  rw [hafter, h.handles id handle hhandle, h.config_eq]

/-- As long as every new torrent is added under the configured path, files are read where
they are downloaded, and restarts move nothing. -/
theorem reads_where_stored (env : Env) (config : Config) (cache : OfflineCacheManager)
    (es : List Event)
    (h : machine.EachStep AddsToConfiguredPath (create env config cache) es) :
    machine.Always (fun e => e.ReadsFromDownload ∧ e.RestartKeepsPaths) (create env config cache)
      es := by
  refine machine.always_of_eachStep (StoredIn config) _ AddsToConfiguredPath ?_ ?_ ?_ h
  · intro e ev hstored hadd
    exact storedIn_step hstored hadd
  · intro e hstored
    exact ⟨hstored.readsFromDownload, hstored.restartKeepsPaths⟩
  · exact storedIn_create env config cache

def addElsewhere : List Op :=
  [.addTorrent "a.torrent".toList "/data".toList, .metadataReceived (sampleHash 1) sampleInfo]

theorem reads_where_stored_sample :
    (sampleRun (addSample 1 "a.torrent".toList)).ReadsFromDownload := by
  have hsteps : machine.EachStep AddsToConfiguredPath (create sampleEnv {} .empty)
      (sampleEvents (addSample 1 "a.torrent".toList)) := by
    refine ⟨?_, ?_, trivial⟩
    · intro params ih hadd _ _
      cases hadd
      exact Or.inl rfl
    · intro params ih hadd
      cases hadd
  exact (reads_where_stored sampleEnv {} .empty _ hsteps _ List.prefix_rfl).1

/-- A torrent added under another path is read under the configured one. -/
theorem reads_elsewhere :
    ¬∀ (env : Env) (config : Config) (cache : OfflineCacheManager) (es : List Event),
      machine.Always (fun e => e.ReadsFromDownload ∧ e.RestartKeepsPaths)
        (create env config cache) es := by
  intro h
  have hreads := (h sampleEnv {} .empty (sampleEvents addElsewhere) _ List.prefix_rfl).1
  obtain ⟨handle, file, state, hhandle, hfile, hstate, hpath⟩ :=
    hreads sampleEnv (sampleId 1) 0 rfl
  cases hhandle
  cases hfile
  cases hstate
  exact absurd hpath (by decide)

end SeekServeEngine

end SeekServe
