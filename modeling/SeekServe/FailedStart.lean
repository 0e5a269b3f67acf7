import SeekServe.Records

/-!
# A failed start of the servers

`start_server` puts new server objects in the place of the old ones before it tries to bind,
and neither of its failing exits puts the old ones back.
-/

namespace SeekServe

set_option autoImplicit false

namespace SeekServeEngine

/-- What the servers are made from, and what the present one was made from. -/
def setup (e : SeekServeEngine) : Config × Option (ServerConfig × CxxString) :=
  (e.config, e.httpServer.map fun server => (server.config, server.authToken))

/-- A server object has the configuration and the token of its engine. -/
def Configured (e : SeekServeEngine) : Prop :=
  ∀ made, e.setup.2 = some made → made = (e.config.server, e.config.authToken)

theorem setup_dropSources (e : SeekServeEngine) (id : TorrentId) :
    (e.dropSources id).setup = e.setup := by
  unfold dropSources setup
  split
  · rfl
  · simp only [*]
    rfl

theorem setup_dropPreviousSource (e : SeekServeEngine) (id : TorrentId) :
    (e.dropPreviousSource id).setup = e.setup := by
  unfold dropPreviousSource setup
  split
  · split
    · simp only [*]
      rfl
    · rfl
  · rfl

theorem setup_publish (e : SeekServeEngine) (id : TorrentId) (handle : TorrentHandle)
    (state : TorrentState) : (e.publish id handle state).setup = e.setup := by
  unfold publish setup
  cases e.httpServer <;> rfl

theorem setup_selectFile (env : Env) (e : SeekServeEngine) (id : TorrentId) (fi : Int) :
    (e.selectFile env id fi).2.setup = e.setup := by
  rcases selectFile_cases env e id fi with ⟨_, _, heq, _⟩ | ⟨handle, ti, _, _, _, heq⟩
  · rw [heq]
    rfl
  · rw [heq]
    simp only
    rw [setup_publish, setup_dropPreviousSource]
    rfl

theorem setup_addTorrent (env : Env) (e : SeekServeEngine) (uri savePath : CxxString) :
    (e.addTorrent env uri savePath).2.setup = e.setup := by
  unfold addTorrent
  split <;> rfl

theorem setup_removeTorrent (e : SeekServeEngine) (id : TorrentId) :
    (e.removeTorrent id).2.setup = e.setup :=
  setup_dropSources { e with cache := e.cache.removeTorrentUri id } id

theorem setup_onMetadataReceived (env : Env) (e : SeekServeEngine) (ih : InfoHash)
    (ti : TorrentInfo) : (e.onMetadataReceived env ih ti).setup = e.setup := by
  unfold onMetadataReceived
  simp only
  split
  · rfl
  · split <;> rfl

theorem setup_onTick (env : Env) (e : SeekServeEngine) : (e.onTick env).setup = e.setup := by
  unfold onTick
  split <;> rfl

theorem setup_stopServer (e : SeekServeEngine) : e.stopServer.setup = e.setup := by
  have hstop : ∀ server : HttpRangeServer,
      (server.stop.1.config, server.stop.1.authToken) = (server.config, server.authToken) := by
    intro server
    unfold HttpRangeServer.stop
    split <;> rfl
  unfold stopServer
  split
  · unfold setup
    cases e.httpServer with
    | none => rfl
    | some server => simp only [Option.map_some, hstop]
  · rfl

theorem setup_control (env : Env) (e : SeekServeEngine) (req : HttpRequest) :
    (e.control env req).2.setup = e.setup := by
  rcases control_cases env e req with ⟨server, api, _, _, heq⟩ | ⟨_, heq⟩
  · rw [heq]
    unfold afterControl
    simp only
    split
    · exact setup_stopServer _
    · rfl
  · rw [heq]

theorem Configured.of_setup {e e' : SeekServeEngine} (h : e.Configured)
    (hsetup : e'.setup = e.setup) : e'.Configured := by
  have hconfig : e'.config = e.config := congrArg Prod.fst hsetup
  intro made hmade
  rw [hsetup] at hmade
  rw [hconfig]
  exact h made hmade

theorem configured_create (env : Env) (config : Config) (cache : OfflineCacheManager) :
    (create env config cache).Configured := by
  obtain ⟨sessions, cache', heq⟩ := create_eq env config cache
  rw [heq]
  intro made hmade
  cases hmade

/-- The port that the new stream server shows after a start that failed. -/
def portLeft (env : Env) : Nat :=
  match env.streamBind.result with
  | .ok actual => actual
  | .error _ => 0

/-- The stream server that a failed start leaves behind. -/
def serverLeft (env : Env) (config : Config) : HttpRangeServer :=
  { (HttpRangeServer.create config.server).setAuthToken config.authToken with
    port := portLeft env }

/-- A start that is not refused runs the servers, or leaves two objects that do not run. -/
theorem startServer_result (env : Env) {e : SeekServeEngine} (hidle : e.serverRunning = false) :
    (∃ port, (e.startServer env).1 = .ok port ∧
        (e.startServer env).2.setup = (e.config, some (e.config.server, e.config.authToken))) ∨
      ∃ err, (e.startServer env).1 = .error err ∧
        (e.startServer env).2 =
          e.replaceServers (serverLeft env e.config) (.create e.config.authToken) := by
  unfold startServer
  rw [if_neg (Bool.not_eq_true _ ▸ hidle)]
  unfold serverLeft portLeft HttpRangeServer.start
  simp only [HttpRangeServer.create, HttpRangeServer.setAuthToken, Bool.false_eq_true, if_false]
  cases hstream : env.streamBind.result with
  | error err => exact Or.inr ⟨err, rfl, rfl⟩
  | ok actual =>
    rcases ControlApiServer.start_create_cases e.config.authToken env.apiBind with
      ⟨err, hapi⟩ | ⟨port, hapi⟩
    · simp only [hapi]
      exact Or.inr ⟨err, rfl, rfl⟩
    · simp only [hapi]
      exact Or.inl ⟨port, rfl, rfl⟩

theorem configured_startServer {e : SeekServeEngine} (h : e.Configured) (env : Env) :
    (e.startServer env).2.Configured := by
  cases hrun : e.serverRunning with
  | true =>
    unfold startServer
    rw [if_pos hrun]
    exact h
  | false =>
    have hsetup : (e.startServer env).2.setup =
        (e.config, some (e.config.server, e.config.authToken)) := by
      rcases startServer_result env hrun with ⟨_, _, hsetup⟩ | ⟨_, _, heq⟩
      · exact hsetup
      · rw [heq]
        rfl
    have hconfig : (e.startServer env).2.config = e.config := congrArg Prod.fst hsetup
    intro made hmade
    rw [hsetup] at hmade
    cases hmade
    rw [hconfig]

theorem configured_step {e : SeekServeEngine} (h : e.Configured) (ev : Event) :
    (e.step ev).2.Configured := by
  unfold step
  cases ev.op with
  | addTorrent uri savePath => exact h.of_setup (setup_addTorrent ev.env e uri savePath)
  | removeTorrent id deleteFiles => exact h.of_setup (setup_removeTorrent e id)
  | selectFile id fi => exact h.of_setup (setup_selectFile ev.env e id fi)
  | startServer => exact configured_startServer h ev.env
  | stopServer => exact h.of_setup (setup_stopServer e)
  | metadataReceived ih ti => exact h.of_setup (setup_onMetadataReceived ev.env e ih ti)
  | torrentAdded ih result =>
    rcases onTorrentAdded_cases ev.env e ih result with ⟨ti, _, heq⟩ | ⟨_, heq⟩
    · simp only [heq]
      exact h.of_setup (setup_onMetadataReceived ev.env e ih ti)
    · simp only [heq]
      exact h
  | pieceFinished ih piece => exact h
  | fileCompleted ih fi => exact h
  | tick => exact h.of_setup (setup_onTick ev.env e)
  | control req => exact h.of_setup (setup_control ev.env e req)
  | restart => exact configured_create ev.env e.config e.cache

theorem configured_run (env : Env) (config : Config) (cache : OfflineCacheManager)
    (es : List Event) : (machine.run (create env config cache) es).Configured := by
  apply Runs.Machine.run_invariant machine Configured
  · intro e ev h
    exact configured_step h ev
  · exact configured_create env config cache

/-- What a start that failed should leave as it found it. -/
structure StartUndone (env : Env) (e : SeekServeEngine) : Prop where
  urls : ∀ id fi, (e.startServer env).2.getStreamUrl id fi = e.getStreamUrl id fi
  sources : ∀ id fi entry,
    (e.startServer env).2.serving.Registered id fi entry ↔ e.serving.Registered id fi entry
  cancelled : (e.startServer env).2.cancelled = e.cancelled
  later : ∀ env', (e.startServer env).2.startServer env' = e.startServer env'

/-- There is a server object, it serves nothing, and its port is the one that the failed start
will show, unless there is no torrent to make a URL for. -/
def StartLeavesNoTrace (env : Env) (e : SeekServeEngine) : Prop :=
  ∃ server, e.httpServer = some server ∧ (∀ id fi, server.registered id fi = none) ∧
    ((∀ id, e.sessions.hasTorrent id = false) ∨ server.port = portLeft env)

/-- Of two servers with one configuration and one token, the URL tells the port. -/
theorem streamUrl_eq_iff {s s' : HttpRangeServer} (hconfig : s.config = s'.config)
    (htoken : s.authToken = s'.authToken) (id : TorrentId) (fi : Int) :
    s.streamUrl id fi = s'.streamUrl id fi ↔ s.port = s'.port := by
  unfold HttpRangeServer.streamUrl
  rw [hconfig, htoken]
  refine ⟨?_, fun h => by rw [h]⟩
  intro h
  simp only [List.append_cancel_right_eq, List.append_cancel_left_eq] at h
  exact Int.ofNat.inj (CxxString.ofInt_injective h)

section Failed
variable {e : SeekServeEngine} {env : Env} (hconfigured : e.Configured)
  (hidle : ∀ server, e.httpServer = some server → server.running = false)
include hidle

theorem stoppedSources_of_idle : e.stoppedSources = [] := by
  unfold stoppedSources
  cases hserver : e.httpServer with
  | none => rfl
  | some server =>
    simp only [HttpRangeServer.stop, hidle server hserver, Bool.false_eq_true, if_false]

/-- The sources keep their flags, and the next start finds what it would have found. -/
theorem later_of_failed (hrun : e.serverRunning = false) (server : HttpRangeServer)
    (api : ControlApiServer) (hnew : server.running = false) (env' : Env) :
    (e.replaceServers server api).cancelled = e.cancelled ∧
      (e.replaceServers server api).startServer env' = e.startServer env' := by
  have hstopped := stoppedSources_of_idle hidle
  have hcancelled : (e.replaceServers server api).cancelled = e.cancelled := by
    unfold replaceServers
    rw [hstopped]
    rfl
  have hstopped' : (e.replaceServers server api).stoppedSources = [] := by
    apply stoppedSources_of_idle
    intro server' hserver'
    cases hserver'
    exact hnew
  have hreplace : ∀ server' api', (e.replaceServers server api).replaceServers server' api' =
      e.replaceServers server' api' := by
    intro server' api'
    have hcancelled' : (e.replaceServers server api).stoppedSources ++
        (e.replaceServers server api).cancelled = e.stoppedSources ++ e.cancelled := by
      rw [hcancelled, hstopped, hstopped']
    unfold replaceServers at hcancelled' ⊢
    simp only [hcancelled']
  refine ⟨hcancelled, ?_⟩
  have hnot : ¬e.serverRunning = true := Bool.not_eq_true _ ▸ hrun
  have hnot' : ¬(e.replaceServers server api).serverRunning = true := hnot
  unfold startServer
  rw [if_neg hnot, if_neg hnot']
  simp only [hreplace]
  rfl

section Left
variable (hleft : (e.startServer env).2 =
  e.replaceServers (serverLeft env e.config) (.create e.config.authToken))
include hleft

omit hidle in
theorem getStreamUrl_of_failed (id : TorrentId) (fi : Int) :
    (e.startServer env).2.getStreamUrl id fi =
      if e.sessions.hasTorrent id then .ok ((serverLeft env e.config).streamUrl id fi)
      else .error .torrentNotFound := by
  rw [hleft]
  rfl

omit hidle in
theorem not_registered_of_failed (id : TorrentId) (fi : Int) (entry : SourceEntry) :
    ¬(e.startServer env).2.serving.Registered id fi entry := by
  rw [hleft]
  rintro ⟨server, hserver, hentry⟩
  cases hserver
  cases hentry

include hconfigured in
omit hidle in
/-- The URL of a torrent shows whether the port is the old one. -/
theorem getStreamUrl_eq_iff {server : HttpRangeServer} (hserver : e.httpServer = some server)
    {id : TorrentId} (hhas : e.sessions.hasTorrent id = true) (fi : Int) :
    (e.startServer env).2.getStreamUrl id fi = e.getStreamUrl id fi ↔
      server.port = portLeft env := by
  have hmade := hconfigured (server.config, server.authToken) (by simp [setup, hserver])
  have hurl := streamUrl_eq_iff (s := serverLeft env e.config) (congrArg Prod.fst hmade).symm
    (congrArg Prod.snd hmade).symm id fi
  rw [getStreamUrl_of_failed hleft]
  simp only [getStreamUrl, hserver, hhas, if_true, Except.ok.injEq, hurl]
  exact eq_comm

include hconfigured in
omit hidle in
theorem noTrace_of_startUndone (h : e.StartUndone env) : e.StartLeavesNoTrace env := by
  cases hserver : e.httpServer with
  | none =>
    -- before, there was no server to ask
    have hurl := h.urls [] 0
    rw [getStreamUrl_of_failed hleft] at hurl
    simp only [getStreamUrl, hserver] at hurl
    split at hurl <;> cases hurl
  | some server =>
    refine ⟨server, hserver, ?_, ?_⟩
    · intro id fi
      cases hentry : server.registered id fi with
      | none => rfl
      | some entry =>
        have hreg := (h.sources id fi entry).mpr ⟨server, hserver, hentry⟩
        exact absurd hreg (not_registered_of_failed hleft id fi entry)
    · by_cases hnone : ∀ id, e.sessions.hasTorrent id = false
      · exact Or.inl hnone
      · obtain ⟨id, hid⟩ := not_forall.mp hnone
        have hhas : e.sessions.hasTorrent id = true := Bool.not_eq_false _ ▸ hid
        exact Or.inr ((getStreamUrl_eq_iff hconfigured hleft hserver hhas 0).mp (h.urls id 0))

include hconfigured in
theorem startUndone_of_noTrace (hrun : e.serverRunning = false) (h : e.StartLeavesNoTrace env) :
    e.StartUndone env := by
  obtain ⟨server, hserver, hunserved, hport⟩ := h
  have hlater := later_of_failed hidle hrun (serverLeft env e.config)
    (.create e.config.authToken) rfl
  refine ⟨?_, ?_, ?_, ?_⟩
  · intro id fi
    cases hhas : e.sessions.hasTorrent id with
    | false =>
      rw [getStreamUrl_of_failed hleft]
      simp only [getStreamUrl, hserver, hhas]
      rfl
    | true =>
      apply (getStreamUrl_eq_iff hconfigured hleft hserver hhas fi).mpr
      rcases hport with hnone | hsame
      · rw [hnone id] at hhas
        cases hhas
      · exact hsame
  · intro id fi entry
    refine ⟨fun hreg => absurd hreg (not_registered_of_failed hleft id fi entry), ?_⟩
    rintro ⟨server', hserver', hentry⟩
    cases hserver.symm.trans hserver'
    rw [hunserved] at hentry
    cases hentry
  · rw [hleft]
    exact (hlater env).1
  · intro env'
    rw [hleft]
    exact (hlater env').2

end Left

include hconfigured in
theorem startUndone_iff (hrun : e.serverRunning = false)
    (hfail : ∀ port, (e.startServer env).1 ≠ .ok port) :
    e.StartUndone env ↔ e.StartLeavesNoTrace env := by
  rcases startServer_result env hrun with ⟨port, hok, _⟩ | ⟨err, _, hleft⟩
  · exact absurd hok (hfail port)
  · constructor
    · exact noTrace_of_startUndone hconfigured hleft
    · exact startUndone_of_noTrace hconfigured hidle hleft hrun

end Failed

/-- A failed start leaves the engine as it was exactly when an earlier one had left a server
object of the same port behind, and nothing was registered with it. -/
theorem failed_start_is_undone_iff (env : Env) (config : Config) (cache : OfflineCacheManager)
    (es : List Event) (env' : Env)
    (hrun : (machine.run (create env config cache) es).serverRunning = false)
    (hfail : ∀ port, ((machine.run (create env config cache) es).startServer env').1 ≠ .ok port) :
    (machine.run (create env config cache) es).StartUndone env' ↔
      (machine.run (create env config cache) es).StartLeavesNoTrace env' := by
  have hflags := (tracks_run env config cache es).flags
  apply startUndone_iff (configured_run env config cache es) _ hrun hfail
  intro server hserver
  rw [hflags.serverRunning server hserver, ← hflags.running]
  exact hrun

def portTaken : Env := { sampleEnv with streamBind := .failed }

theorem failed_start_is_undone_iff_again :
    (sampleRun [.startServer, .stopServer]).StartUndone
        { sampleEnv with apiBind := .failed } := by
  refine (failed_start_is_undone_iff sampleEnv {} .empty (sampleEvents [.startServer, .stopServer])
    { sampleEnv with apiBind := .failed } (by decide) ?_).mpr ?_
  · intro port hport
    have herr : ((sampleRun [.startServer, .stopServer]).startServer
        { sampleEnv with apiBind := .failed }).1 = .error .ioError := by decide
    exact absurd (herr.symm.trans hport) (by simp)
  · exact ⟨_, rfl, fun _ _ => rfl, Or.inr rfl⟩

/-- A first start that fails makes the engine forget that it was never started. -/
theorem failed_first_start_is_seen :
    ((sampleRun []).startServer portTaken).1 = .error .ioError ∧
      ¬(sampleRun []).StartUndone portTaken := by
  refine ⟨by decide, ?_⟩
  intro h
  have hurl := h.urls (sampleId 1) 0
  exact absurd hurl (by decide)

end SeekServeEngine

end SeekServe
