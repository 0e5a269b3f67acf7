import SeekServe.Serving

/-!
# Runs keep the serving log

Each operation of the engine does to the serving part of its state what the log notes.
-/

namespace SeekServe

set_option autoImplicit false

namespace SeekServeEngine

theorem serving_create (env : Env) (config : Config) (cache : OfflineCacheManager) :
    (create env config cache).serving = ⟨none, fun _ => none, false, false, [], 0⟩ := by
  obtain ⟨sessions, cache', heq⟩ := create_eq env config cache
  rw [heq]
  rfl

theorem serving_addTorrent (env : Env) (e : SeekServeEngine) (uri savePath : CxxString) :
    (e.addTorrent env uri savePath).2.serving = e.serving := by
  unfold addTorrent
  split <;> rfl

theorem serving_onMetadataReceived (env : Env) (e : SeekServeEngine) (ih : InfoHash)
    (ti : TorrentInfo) : (e.onMetadataReceived env ih ti).serving = e.serving := by
  unfold onMetadataReceived
  simp only
  split
  · rfl
  · split <;> rfl

theorem serving_onTorrentAdded (env : Env) (e : SeekServeEngine) (ih : InfoHash)
    (result : Option (Option TorrentInfo)) :
    (e.onTorrentAdded env ih result).serving = e.serving := by
  rcases onTorrentAdded_cases env e ih result with ⟨ti, _, heq⟩ | ⟨_, heq⟩
  · rw [heq]
    exact serving_onMetadataReceived env e ih ti
  · rw [heq]

theorem serving_onPieceFinished (e : SeekServeEngine) (ih : InfoHash) (piece : Int) :
    (e.onPieceFinished ih piece).serving = e.serving := by
  unfold onPieceFinished serving
  simp only [AssocMap.lookup_modify]
  congr 1
  funext id
  split
  · subst id
    cases e.states.lookup (infohashToHex ih) <;> rfl
  · rfl

theorem serving_onTick (env : Env) (e : SeekServeEngine) :
    (e.onTick env).serving = e.serving := by
  unfold onTick
  split <;> rfl

theorem dropped_dropSources (e : SeekServeEngine) (id : TorrentId) :
    Serving.Dropped e.serving (e.dropSources id).serving id := by
  unfold dropSources
  split
  · rename_i hnone
    exact Serving.Dropped.refl (Serving.not_registered hnone id)
  · rename_i server hserver
    have hv : e.serving.server = some server := hserver
    refine Serving.Dropped.of_server hv rfl rfl ?_ ?_
    · exact server.registered_removeByteSourcesForTorrent id
    · intro a ha
      exact HttpRangeServer.mem_cancelled_removeByteSourcesForTorrent.mp ha

theorem mem_cancelled_dropSources {e : SeekServeEngine} {id : TorrentId} {fi : Int}
    {entry : SourceEntry} (h : e.serving.Registered id fi entry) :
    entry.source.addr ∈ (e.dropSources id).cancelled := by
  obtain ⟨server, hserver, hreg⟩ := h
  have hserver' : e.httpServer = some server := hserver
  simp only [dropSources, hserver', List.mem_append]
  exact Or.inl (HttpRangeServer.mem_cancelled_removeByteSourcesForTorrent.mpr
    ⟨fi, entry, hreg, rfl⟩)

/-- The one source that a new selection drops is all that the server has of the torrent. -/
theorem dropped_dropPreviousSource {e : SeekServeEngine} {log : ServingLog}
    (h : e.serving.Tracks log) (id : TorrentId) :
    Serving.Dropped e.serving (e.dropPreviousSource id).serving id := by
  have hheld : ∀ fi entry, e.serving.Registered id fi entry →
      ∃ old, e.states.lookup id = some old ∧ old.selectedFile = fi := by
    intro fi entry hreg
    obtain ⟨held, hh, hfi, _⟩ := h.source id fi entry hreg
    obtain ⟨old, hold, rfl⟩ := Option.map_eq_some_iff.mp hh
    exact ⟨old, hold, hfi⟩
  unfold dropPreviousSource
  split
  · rename_i old server hold hserver
    have hnonneg : old.selectedFile ≥ 0 :=
      (h.fresh.held id old.held (by simp [serving, hold])).2.2
    rw [if_pos hnonneg]
    have hv : e.serving.server = some server := hserver
    refine Serving.Dropped.of_server hv rfl rfl ?_ ?_
    · intro id' fi
      rw [HttpRangeServer.registered_removeByteSource]
      by_cases hid : id' = id
      · subst hid
        by_cases hfi : fi = old.selectedFile
        · rw [if_pos ⟨rfl, hfi⟩, if_pos rfl]
        · rw [if_neg fun hb => hfi hb.2, if_pos rfl]
          cases hreg : server.registered id' fi with
          | none => rfl
          | some entry =>
            obtain ⟨old', hold', hfi'⟩ := hheld fi entry ⟨server, hserver, hreg⟩
            cases hold.symm.trans hold'
            exact absurd hfi'.symm hfi
      · rw [if_neg fun hb => hid hb.1, if_neg hid]
    · intro a ha
      obtain ⟨entry, hreg, haddr⟩ := HttpRangeServer.mem_cancelled_removeByteSource.mp ha
      exact ⟨_, entry, hreg, haddr⟩
  · rename_i hnot
    apply Serving.Dropped.refl
    intro fi entry hreg
    obtain ⟨old, hold, _⟩ := hheld fi entry hreg
    obtain ⟨server, hserver, _⟩ := hreg
    exact hnot old server hold hserver

theorem tracks_removeTorrent {e : SeekServeEngine} {log : ServingLog} (h : e.serving.Tracks log)
    (id : TorrentId) : (e.removeTorrent id).2.serving.Tracks (log.remove id) := by
  have hcache : e.serving = { e with cache := e.cache.removeTorrentUri id }.serving := rfl
  rw [hcache] at h
  have hdrop := h.dropped (dropped_dropSources _ id)
  have hunserved : (log.remove id).served id = none := Function.update_self _ _ _
  have herase := hdrop.erase hunserved
  have heq : (e.removeTorrent id).2.serving =
      { ({ e with cache := e.cache.removeTorrentUri id }.dropSources id).serving with
        held := Function.update
          ({ e with cache := e.cache.removeTorrentUri id }.dropSources id).serving.held id none } := by
    unfold removeTorrent serving
    simp only [Serving.mk.injEq, true_and, and_true]
    funext id'
    rw [AssocMap.lookup_erase_eq]
    by_cases hid : id' = id
    · simp [hid]
    · simp [hid]
  rw [heq]
  exact herase

/-- A selection fails and changes nothing that is served, or publishes a new state. -/
theorem selectFile_cases (env : Env) (e : SeekServeEngine) (id : TorrentId) (fi : Int) :
    (∃ err catalog, e.selectFile env id fi = (.error err, { e with catalog := catalog }) ∧
        (err = .torrentNotFound ∨ (e.catalog.selectFile id fi).1 = .error err) ∧
        ∀ id', catalog.hasMetadata id' = e.catalog.hasMetadata id') ∨
      ∃ handle ti, e.sessions.getHandle id = some handle ∧ 0 ≤ fi ∧
        e.catalog.torrentInfo id = some ti ∧
        e.selectFile env id fi =
          (.ok (),
            let e := { e with catalog := (e.catalog.selectFile id fi).2 }.dropPreviousSource id
            e.publish id handle (e.newState env id fi handle ti)) := by
  unfold selectFile
  cases hhandle : e.sessions.getHandle id with
  | none => exact Or.inl ⟨.torrentNotFound, e.catalog, rfl, Or.inl rfl, fun _ => rfl⟩
  | some handle =>
    have hmeta := e.catalog.hasMetadata_selectFile id fi
    cases hsel : e.catalog.selectFile id fi with
    | mk result catalog =>
      rw [hsel] at hmeta
      cases result with
      | error err => exact Or.inl ⟨err, catalog, rfl, Or.inr rfl, hmeta⟩
      | ok u =>
        have hok : (e.catalog.selectFile id fi).1 = .ok () := by rw [hsel]
        obtain ⟨hfi, hhas, _⟩ := MetadataCatalog.selectFile_ok hok
        rw [← e.catalog.isSome_torrentInfo] at hhas
        obtain ⟨ti, hti⟩ := Option.isSome_iff_exists.mp hhas
        have hinfo : catalog.torrentInfo id = some ti := by
          have hsame := e.catalog.torrentInfo_selectFile id fi id
          rw [hsel] at hsame
          exact hsame.trans hti
        have hcatalog : ({ e with catalog := catalog }.dropPreviousSource id).catalog = catalog := by
          unfold dropPreviousSource
          split
          · split <;> rfl
          · rfl
        refine Or.inr ⟨handle, ti, rfl, hfi, hti, ?_⟩
        simp only [hcatalog, hinfo]

theorem serving_publish (e : SeekServeEngine) (id : TorrentId) (handle : TorrentHandle)
    (state : TorrentState) : ∃ path,
    (e.publish id handle state).serving =
      { e.serving with
        server := e.httpServer.map fun server =>
          (server.setByteSource state.source id state.selectedFile path).setRangeCallback
            ⟨state.scheduler, handle⟩
        held := Function.update e.serving.held id (some state.held)
        nextAddr := e.nextAddr + 2 } := by
  refine ⟨((e.catalog.getFile id state.selectedFile).toOption.map FileInfo.path).getD [], ?_⟩
  unfold publish serving
  simp only [Serving.mk.injEq, true_and, and_true]
  funext id'
  rw [AssocMap.lookup_insert_eq]
  by_cases hid : id' = id
  · simp [hid]
  · simp [hid]

/-- Without a server object the log notes nothing. -/
theorem select_of_not_created {log : ServingLog} (h : log.created = false)
    {id : TorrentId} (hnone : log.served id = none) (fi : Int) :
    log.select id fi = log.remove id := by
  have hremove : log.remove id = log := by
    unfold ServingLog.remove
    rw [← hnone, Function.update_eq_self]
  rw [hremove]
  unfold ServingLog.select
  rw [h]
  rfl

theorem select_of_created {log : ServingLog} (h : log.created = true) (id : TorrentId)
    (fi : Int) :
    log.select id fi =
      { log.remove id with
        served := Function.update (log.remove id).served id (some fi)
        lastSelected := some id } := by
  unfold ServingLog.select ServingLog.remove
  rw [h, Function.update_idem]
  rfl

theorem tracks_selectFile {e : SeekServeEngine} {log : ServingLog} (h : e.serving.Tracks log)
    (env : Env) (id : TorrentId) (fi : Int) (ev : Event) (hop : ev.op = .selectFile id fi) :
    (e.selectFile env id fi).2.serving.Tracks
      (log.note (ev, .done (e.selectFile env id fi).1)) := by
  rcases selectFile_cases env e id fi with ⟨err, catalog, heq, _⟩ | ⟨handle, ti, _, hfi, _, heq⟩
  · rw [heq]
    simp only [ServingLog.note, hop]
    exact h
  · rw [heq]
    simp only [ServingLog.note, hop]
    have hcatalog : e.serving = { e with catalog := (e.catalog.selectFile id fi).2 }.serving := rfl
    rw [hcatalog] at h
    generalize { e with catalog := (e.catalog.selectFile id fi).2 } = e₀ at h ⊢
    have hdropped := dropped_dropPreviousSource h id
    have hdrop := h.dropped hdropped
    generalize e₀.dropPreviousSource id = e₁ at hdropped hdrop ⊢
    have hnew : e₁.serving.NewHeld (e₁.newState env id fi handle ti).held handle :=
      ⟨rfl, rfl, rfl, hfi⟩
    obtain ⟨path, hpub⟩ := e₁.serving_publish id handle (e₁.newState env id fi handle ti)
    rw [hpub]
    cases hserver : e₁.httpServer with
    | none =>
      have hcreated : log.created = false := by
        rw [h.flags.created, ← hdropped.isSome]
        exact congrArg Option.isSome hserver
      have hserver₀ : e₀.httpServer = none := by
        have hisSome := hdropped.isSome
        simp only [serving, hserver] at hisSome
        apply Option.not_isSome_iff_eq_none.mp
        rw [← hisSome]
        exact Bool.noConfusion
      rw [select_of_not_created hcreated (h.served_eq_none hserver₀ id)]
      have hpublished := hdrop.publish_offline hnew hserver id
      rw [show e₁.serving.server = none from hserver] at hpublished
      exact hpublished
    | some server =>
      have hcreated : log.created = true := by
        rw [h.flags.created, ← hdropped.isSome]
        exact congrArg Option.isSome hserver
      rw [select_of_created hcreated]
      exact hdrop.publish hnew (Function.update_self _ _ _) hserver rfl

/-- A start that is not refused puts an empty server object in place, running if all went well. -/
theorem startServer_cases (env : Env) {e : SeekServeEngine} (hidle : e.serverRunning = false) :
    ∃ server cancelled, (∀ id fi, server.registered id fi = none) ∧ server.rangeCallback = none ∧
      server.running = (e.startServer env).1.isOk ∧
      (∀ a ∈ cancelled, a ∈ e.cancelled ∨ a ∈ e.stoppedSources) ∧
      (e.startServer env).2.serving =
        { e.serving with
          server := some server
          running := server.running
          cancelled := cancelled } := by
  have hcancelled : ∀ a ∈ e.stoppedSources ++ e.cancelled, a ∈ e.cancelled ∨ a ∈ e.stoppedSources :=
    fun a ha => (List.mem_append.mp ha).symm
  have hnew : ∀ server : HttpRangeServer, server.running = false → ∀ api : ControlApiServer,
      { e.replaceServers server api with httpServer := some server }.serving =
        { e.serving with
          server := some server
          running := server.running
          cancelled := e.stoppedSources ++ e.cancelled } := by
    intro server hrun api
    rw [hrun, ← hidle]
    rfl
  unfold startServer
  rw [if_neg (Bool.not_eq_true _ ▸ hidle)]
  rcases HttpRangeServer.start_cases (s := (HttpRangeServer.create e.config.server).setAuthToken
      e.config.authToken) rfl env.streamBind with ⟨err, hstart⟩ | ⟨actual, hstart⟩
  · simp only [hstart]
    exact ⟨_, _, fun _ _ => rfl, rfl, rfl, hcancelled, hnew _ rfl _⟩
  · simp only [hstart]
    rcases ControlApiServer.start_create_cases e.config.authToken env.apiBind with
      ⟨err, hapi⟩ | ⟨port, hapi⟩
    · simp only [hapi]
      exact ⟨_, _, fun _ _ => rfl, rfl, rfl, hcancelled, hnew _ rfl _⟩
    · simp only [hapi]
      exact ⟨_, _, fun _ _ => rfl, rfl, rfl, hcancelled, rfl⟩

theorem tracks_startServer {e : SeekServeEngine} {log : ServingLog} (h : e.serving.Tracks log)
    (env : Env) :
    (e.startServer env).2.serving.Tracks (log.start (e.startServer env).1.isOk) := by
  cases hrun : e.serverRunning with
  | true =>
    have hlog : log.running = true := h.flags.running ▸ hrun
    have hsame : e.startServer env = (.error .serverAlreadyRunning, e) := by
      unfold startServer
      rw [if_pos hrun]
    have hstart : log.start false = log := by
      unfold ServingLog.start
      rw [if_pos hlog]
    rw [hsame]
    exact hstart.symm ▸ h
  | false =>
    have hlog : log.running = false := h.flags.running ▸ hrun
    obtain ⟨server, cancelled, hempty, hcb, hok, hcancelled, hserving⟩ := startServer_cases env hrun
    rw [← hok, hserving]
    apply h.start hlog hempty hcb
    intro a ha
    rcases hcancelled a ha with hold | hstopped
    · exact hold
    · unfold stoppedSources at hstopped
      split at hstopped
      · cases hstopped
      · rename_i old hold
        have hidle := h.flags.serverRunning old hold
        have habs := (HttpRangeServer.mem_cancelled_stop.mp hstopped).1
        rw [hidle, hlog] at habs
        cases habs

theorem tracks_stopServer {e : SeekServeEngine} {log : ServingLog} (h : e.serving.Tracks log) :
    e.stopServer.serving.Tracks log.stop := by
  unfold stopServer
  cases hrun : e.serverRunning with
  | false =>
    have hlog : log.running = false := h.flags.running ▸ hrun
    have hstop : log.stop = log := by
      unfold ServingLog.stop
      rw [hlog]
      rfl
    rw [hstop]
    exact h
  | true =>
    have hlog : log.running = true := h.flags.running ▸ hrun
    refine h.stop hlog ?_
    intro a ha
    rcases List.mem_append.mp ha with hfirst | hold
    · rcases List.mem_append.mp hfirst with hstate | hstopped
      · obtain ⟨state, hmem, rfl⟩ := List.mem_map.mp hstate
        obtain ⟨id, hlook⟩ := AssocMap.mem_values_iff.mp hmem
        exact (h.fresh.held id state.held (by simp [serving, hlook])).1
      · unfold stoppedSources at hstopped
        split at hstopped
        · cases hstopped
        · rename_i server hserver
          obtain ⟨_, id, fi, entry, hreg, rfl⟩ := HttpRangeServer.mem_cancelled_stop.mp hstopped
          obtain ⟨held, hheld, _, hsource, _⟩ := h.source id fi entry ⟨server, hserver, hreg⟩
          exact hsource ▸ (h.fresh.held id held hheld).1
    · exact h.fresh.cancelled a hold

theorem control_cases (env : Env) (e : SeekServeEngine) (req : HttpRequest) :
    (∃ server api, e.httpServer = some server ∧ e.apiServer = some api ∧
        e.control env req =
          (some ((e.controlContext env server api).handleConnection req).reply,
            e.afterControl ((e.controlContext env server api).handleConnection req))) ∨
      (∀ server api, e.httpServer = some server → e.apiServer ≠ some api) ∧
        e.control env req = (none, e) := by
  unfold control
  split
  · rename_i server api hserver hapi
    exact Or.inl ⟨server, api, hserver, hapi, rfl⟩
  · rename_i hnot
    exact Or.inr ⟨hnot, rfl⟩

theorem tracks_control {e : SeekServeEngine} {log : ServingLog} (h : e.serving.Tracks log)
    (env : Env) (req : HttpRequest) (ev : Event) (hop : ev.op = .control req) :
    (e.control env req).2.serving.Tracks
      (log.note (ev, .control (e.control env req).1)) := by
  rcases control_cases env e req with ⟨server, api, _, _, heq⟩ | ⟨_, heq⟩
  · rw [heq]
    simp only [ServingLog.note, hop]
    have hshut := (e.controlContext env server api).serve_shutdown_iff
      (controlRoute api.authToken env.json req)
    generalize houtcome : (e.controlContext env server api).handleConnection req = outcome
    change ((e.controlContext env server api).handleConnection req).shutdown = true ↔
      ((e.controlContext env server api).handleConnection req).reply = _ at hshut
    rw [houtcome] at hshut
    have hsame : { e with sessions := outcome.sessions, catalog := outcome.catalog }.serving =
      e.serving := rfl
    unfold afterControl
    by_cases hdown : outcome.shutdown = true
    · rw [if_pos (hshut.mp hdown)]
      simp only
      rw [if_pos hdown]
      exact tracks_stopServer (hsame ▸ h)
    · rw [if_neg fun hr => hdown (hshut.mpr hr)]
      simp only
      rw [if_neg hdown]
      exact hsame ▸ h
  · rw [heq]
    simp only [ServingLog.note, hop]
    exact h

theorem tracks_step {e : SeekServeEngine} {log : ServingLog} (h : e.serving.Tracks log)
    (ev : Event) : (e.step ev).2.serving.Tracks (log.note (ev, (e.step ev).1)) := by
  unfold step
  cases hop : ev.op with
  | addTorrent uri savePath =>
    simp only [ServingLog.note, hop, serving_addTorrent]
    exact h
  | removeTorrent id deleteFiles =>
    simp only [ServingLog.note, hop]
    exact tracks_removeTorrent h id
  | selectFile id fi => exact tracks_selectFile h ev.env id fi ev hop
  | startServer =>
    simp only [ServingLog.note, hop]
    exact tracks_startServer h ev.env
  | stopServer =>
    simp only [ServingLog.note, hop]
    exact tracks_stopServer h
  | metadataReceived ih ti =>
    simp only [ServingLog.note, hop, serving_onMetadataReceived]
    exact h
  | torrentAdded ih result =>
    simp only [ServingLog.note, hop, serving_onTorrentAdded]
    exact h
  | pieceFinished ih piece =>
    simp only [ServingLog.note, hop, serving_onPieceFinished]
    exact h
  | fileCompleted ih fi =>
    simp only [ServingLog.note, hop]
    exact h
  | tick =>
    simp only [ServingLog.note, hop, serving_onTick]
    exact h
  | control req => exact tracks_control h ev.env req ev hop
  | restart =>
    simp only [ServingLog.note, hop, restart, serving_create]
    exact Serving.Tracks.initial

theorem tracks_run (env : Env) (config : Config) (cache : OfflineCacheManager) (es : List Event) :
    (machine.run (create env config cache) es).serving.Tracks
      (ServingLog.ofTrace (machine.trace (create env config cache) es)) := by
  apply Runs.Machine.run_tracks machine (fun e log => e.serving.Tracks log) ServingLog.note
    (fun _ => True)
  · intro e log ev _ h
    exact tracks_step h ev
  · rw [serving_create]
    exact Serving.Tracks.initial
  · intro ev _
    trivial

/-- Every entry of the source map has the torrent state that its source belongs to, and no
torrent has two entries. -/
structure Backed (e : SeekServeEngine) : Prop where
  state : ∀ server key entry, e.httpServer = some server →
    server.sources.lookup key = some entry →
      ∃ state, e.states.lookup entry.torrentId = some state ∧
        state.selectedFile = entry.fileIndex ∧ state.source = entry.source
  single : ∀ server key key' entry entry', e.httpServer = some server →
    server.sources.lookup key = some entry → server.sources.lookup key' = some entry' →
      entry.torrentId = entry'.torrentId → key = key'

theorem backed_of_tracks {e : SeekServeEngine} {log : ServingLog} (h : e.serving.Tracks log) :
    e.Backed := by
  have hstate : ∀ server key entry, e.httpServer = some server →
      server.sources.lookup key = some entry →
        ∃ state, e.states.lookup entry.torrentId = some state ∧
          state.selectedFile = entry.fileIndex ∧ state.source = entry.source := by
    intro server key entry hserver hentry
    have hkey := server.keyed key entry hentry
    rw [hkey] at hentry
    obtain ⟨held, hheld, hfile, hsource, _⟩ :=
      h.source entry.torrentId entry.fileIndex entry ⟨server, hserver, hentry⟩
    obtain ⟨state, hlook, rfl⟩ := Option.map_eq_some_iff.mp hheld
    exact ⟨state, hlook, hfile, hsource⟩
  refine ⟨hstate, ?_⟩
  intro server key key' entry entry' hserver hentry hentry' hid
  obtain ⟨state, hlook, hfile, _⟩ := hstate server key entry hserver hentry
  obtain ⟨state', hlook', hfile', _⟩ := hstate server key' entry' hserver hentry'
  -- one torrent has one state, which names one file
  rw [hid, hlook'] at hlook
  cases hlook
  rw [server.keyed key entry hentry, server.keyed key' entry' hentry', hid, ← hfile, hfile']

/-- A registered source is always backed by its torrent state. -/
theorem registered_is_backed (env : Env) (config : Config) (cache : OfflineCacheManager)
    (es : List Event) : (machine.run (create env config cache) es).Backed :=
  backed_of_tracks (tracks_run env config cache es)

end SeekServeEngine

end SeekServe
