import SeekServe.ServingRuns
import SeekServe.SliceDelivery

/-!
# Selections, stream URLs and restarts

What the serving log decides for a caller: whether a selected file is served, whether a
stream URL can be opened, and whether a restarted engine still dispatches.
-/

namespace SeekServe

set_option autoImplicit false

namespace SeekServeEngine

/-- The server holds the source of the torrent's state under the key of the file, live. -/
def ServesState (e : SeekServeEngine) (id : TorrentId) (state : TorrentState) : Prop :=
  ∃ server entry, e.httpServer = some server ∧
    server.registered id state.selectedFile = some entry ∧ entry.source = state.source ∧
    state.source.addr ∉ e.cancelled

theorem servesState_iff {e : SeekServeEngine} {log : ServingLog} (h : e.serving.Tracks log)
    {id : TorrentId} {state : TorrentState} (hstate : e.states.lookup id = some state) :
    e.ServesState id state ↔ log.served id = some state.selectedFile := by
  have hheld : e.serving.held id = some state.held := by simp [serving, hstate]
  refine ⟨?_, ?_⟩
  · intro hserves
    obtain ⟨server, entry, hserver, hreg, _⟩ := hserves
    exact (h.served id state.selectedFile).mp ⟨entry, server, hserver, hreg⟩
  · intro hserved
    obtain ⟨entry, server, hserver, hreg⟩ := (h.served id state.selectedFile).mpr hserved
    obtain ⟨held, hheld', _, hsource, hlive⟩ :=
      h.source id state.selectedFile entry ⟨server, hserver, hreg⟩
    cases hheld.symm.trans hheld'
    have hsame : entry.source = state.source := hsource.symm
    refine ⟨server, entry, hserver, hreg, hsame, ?_⟩
    rw [← hsame]
    exact hlive

/-- While the server is running, the file of a torrent's state is served exactly when it was
selected after the last successful start. -/
theorem selected_is_served_iff (env : Env) (config : Config) (cache : OfflineCacheManager)
    (es : List Event) {id : TorrentId} {state : TorrentState}
    (hrunning : (machine.run (create env config cache) es).serverRunning = true)
    (hstate : (machine.run (create env config cache) es).states.lookup id = some state) :
    (machine.run (create env config cache) es).ServesState id state ↔
      (ServingLog.ofTrace (machine.trace (create env config cache) es)).running = true ∧
        (ServingLog.ofTrace (machine.trace (create env config cache) es)).served id =
          some state.selectedFile := by
  have htracks := tracks_run env config cache es
  have hlog := htracks.flags.running.symm.trans hrunning
  rw [servesState_iff htracks hstate]
  exact ⟨fun h => ⟨hlog, h⟩, fun h => h.2⟩

def startThenSelect : List Op :=
  addSample 1 "a.torrent".toList ++ [.startServer, .selectFile (sampleId 1) 0]

theorem selected_is_served_iff_startThenSelect :
    ∃ state, (sampleRun startThenSelect).states.lookup (sampleId 1) = some state ∧
      (sampleRun startThenSelect).ServesState (sampleId 1) state := by
  have hfile : ((sampleRun startThenSelect).states.lookup (sampleId 1)).map
      TorrentState.selectedFile = some 0 := by decide
  obtain ⟨state, hstate, hfi⟩ := Option.map_eq_some_iff.mp hfile
  refine ⟨state, hstate, ?_⟩
  apply (selected_is_served_iff sampleEnv {} .empty (sampleEvents startThenSelect) (by decide)
    hstate).mpr
  rw [hfi]
  decide

def selectThenStart : List Op :=
  addSample 1 "a.torrent".toList ++ [.selectFile (sampleId 1) 0, .startServer]

theorem selected_before_start_is_not_served :
    (sampleRun selectThenStart).serverRunning = true ∧
      ∃ state, (sampleRun selectThenStart).states.lookup (sampleId 1) = some state ∧
        ¬(sampleRun selectThenStart).ServesState (sampleId 1) state := by
  refine ⟨by decide, ?_⟩
  have hfile : ((sampleRun selectThenStart).states.lookup (sampleId 1)).map
      TorrentState.selectedFile = some 0 := by decide
  have hnone : (sampleRun selectThenStart).httpServer.map
      (fun server => (server.registered (sampleId 1) 0).isSome) = some false := by decide
  obtain ⟨state, hstate, hfi⟩ := Option.map_eq_some_iff.mp hfile
  refine ⟨state, hstate, ?_⟩
  intro hserves
  obtain ⟨server, entry, hserver, hreg, _⟩ := hserves
  rw [hfi] at hreg
  rw [hserver, Option.map_some, hreg] at hnone
  cases hnone

/-- While the server is up, the context dispatches exactly when no stop has taken effect
since the engine was made. -/
theorem running_dispatches_iff (env : Env) (config : Config) (cache : OfflineCacheManager)
    (es : List Event)
    (hup : (ServingLog.ofTrace (machine.trace (create env config cache) es)).running = true) :
    (machine.run (create env config cache) es).serverRunning = true ∧
      ((machine.run (create env config cache) es).ioc.stopped = false ↔
        (ServingLog.ofTrace (machine.trace (create env config cache) es)).everStopped = false) := by
  have htracks := tracks_run env config cache es
  refine ⟨htracks.flags.running.trans hup, ?_⟩
  rw [← htracks.flags.stopped]
  rfl

theorem running_dispatches_iff_started : (sampleRun [.startServer]).ioc.stopped = false := by
  apply (running_dispatches_iff sampleEnv {} .empty (sampleEvents [.startServer]) (by decide)).2.mpr
  decide

theorem restarted_server_does_not_dispatch :
    (ServingLog.ofTrace (machine.trace (create sampleEnv {} .empty)
      (sampleEvents [.startServer, .stopServer, .startServer]))).running = true ∧
      (sampleRun [.startServer, .stopServer, .startServer]).ioc.stopped = true := by
  decide

end SeekServeEngine

namespace HttpRangeServer

theorem responses_notify_answer (s : HttpRangeServer) (io : ConnectionIo) (range : ByteRange)
    (pt : ParsedTarget) (method : Method) (header : HttpResponse) (start length : Int) :
    responses (s.notifyRange range pt ++
      if method = .head then [.respond header] else streamBody io header start length) =
        [header] := by
  rw [responses_append, responses_notifyRange, List.nil_append]
  split
  · rfl
  · exact responses_streamBody io header start length

theorem status_of_mem_serveEntry {s : HttpRangeServer} {io : ConnectionIo} {req : HttpRequest}
    {pt : ParsedTarget} {entry : SourceEntry} {res : HttpResponse}
    (h : res ∈ responses (s.serveEntry io req pt entry)) : res.status ≠ 404 := by
  unfold serveEntry at h
  cases hrange : req.range with
  | none =>
    rw [hrange] at h
    simp only [serveWhole] at h
    rw [responses_notify_answer, List.mem_singleton] at h
    have hstatus : res.status = 200 := by
      rw [h]
      rfl
    omega
  | some header =>
    rw [hrange] at h
    simp only [serveRange] at h
    split at h
    · have hstatus : res.status = 416 := by
        rw [List.mem_singleton.mp h]
        rfl
      omega
    · rw [responses_notify_answer, List.mem_singleton] at h
      have hstatus : res.status = 206 := by
        rw [h]
        rfl
      omega

def StreamNotFound (events : List ConnEvent) : Prop :=
  ∃ res ∈ responses events, res.status = 404 ∧ res.body = "Stream not found".toList

structure Requests (s : HttpRangeServer) (id : TorrentId) (fi : Int) (req : HttpRequest) :
    Prop where
  method : req.method = .get
  target : ∃ pt, parseTarget req.target = some pt ∧ pt.torrentId = id ∧ pt.fileIndex = fi
  authorized : authorized s.authToken req = true

theorem streamNotFound_iff {s : HttpRangeServer} {id : TorrentId} {fi : Int} {req : HttpRequest}
    (h : s.Requests id fi req) (io : ConnectionIo) :
    StreamNotFound (s.handleConnection io req) ↔ s.registered id fi = none := by
  obtain ⟨hget, ⟨pt, hpt, rfl, rfl⟩, hauth⟩ := h
  cases hreg : s.registered pt.torrentId pt.fileIndex with
  | none =>
    have hnot : s.handleConnection io req = sendError req 404 "Stream not found".toList := by
      unfold handleConnection
      rw [if_neg (by simp [hget]), hpt]
      simp only
      rw [if_neg (by simp [hauth]), hreg]
    rw [hnot]
    exact ⟨fun _ => rfl, fun _ => ⟨_, List.mem_singleton_self _, rfl, rfl⟩⟩
  | some entry =>
    rw [s.handleConnection_of_found io req (Or.inl hget) hpt hauth hreg]
    refine ⟨?_, fun hnone => by cases hnone⟩
    intro hnot
    obtain ⟨res, hres, hstatus, _⟩ := hnot
    exact absurd hstatus (status_of_mem_serveEntry hres)

end HttpRangeServer

namespace SeekServeEngine

/-- A stream URL for the file, from the engine's call or from the control API. -/
def HandsOut (env : Env) (e : SeekServeEngine) (id : TorrentId) (fi : Int) (url : CxxString) :
    Prop :=
  e.getStreamUrl id fi = .ok url ∨
    ∃ req api, e.apiServer = some api ∧
      controlRoute api.authToken env.json req = .torrent id .streamUrl ∧
      (e.control env req).1 = some (.sent 200 (.streamUrl url fi))

theorem server_of_handsOut {env : Env} {e : SeekServeEngine} {id : TorrentId} {fi : Int}
    {url : CxxString} (h : e.HandsOut env id fi url) :
    ∃ server, e.httpServer = some server ∧ url = server.streamUrl id fi := by
  rcases h with hcall | ⟨req, api, hapi, hroute, hreply⟩
  · unfold getStreamUrl at hcall
    cases hserver : e.httpServer with
    | none =>
      rw [hserver] at hcall
      cases hcall
    | some server =>
      simp only [hserver] at hcall
      split at hcall
      · exact ⟨server, rfl, (Except.ok.inj hcall).symm⟩
      · cases hcall
  · unfold control at hreply
    cases hserver : e.httpServer with
    | none => simp [hserver] at hreply
    | some server =>
      simp only [hserver, hapi, ControlContext.handleConnection] at hreply
      change some ((e.controlContext env server api).serve
        (controlRoute api.authToken env.json req)).reply = _ at hreply
      rw [hroute] at hreply
      refine ⟨server, rfl, ?_⟩
      simp only [ControlContext.serve, ControlContext.serveTorrent] at hreply
      split at hreply
      · cases hreply
      split at hreply
      · cases hreply
      · cases hreply
        rfl

/-- The URL points at the running server, which holds a source for the file and finds it for
every GET with the right token. -/
def Streams (e : SeekServeEngine) (id : TorrentId) (fi : Int) (url : CxxString) : Prop :=
  ∃ server, e.httpServer = some server ∧ url = server.streamUrl id fi ∧ server.running = true ∧
    (∃ entry, server.registered id fi = some entry) ∧
    ∀ io req, server.Requests id fi req →
      ¬HttpRangeServer.StreamNotFound (server.handleConnection io req)

/-- A stream URL that is handed out can be streamed exactly when the server is up and the last
`select_file` of the engine for the torrent chose that file. -/
theorem handed_out_url_streams_iff (env : Env) (config : Config) (cache : OfflineCacheManager)
    (es : List Event) {reqEnv : Env} {id : TorrentId} {fi : Int} {url : CxxString}
    (h : (machine.run (create env config cache) es).HandsOut reqEnv id fi url) :
    (machine.run (create env config cache) es).Streams id fi url ↔
      (ServingLog.ofTrace (machine.trace (create env config cache) es)).running = true ∧
        (ServingLog.ofTrace (machine.trace (create env config cache) es)).served id = some fi := by
  have htracks := tracks_run env config cache es
  obtain ⟨server, hserver, hurl⟩ := server_of_handsOut h
  have hup := htracks.flags.serverRunning server hserver
  refine ⟨?_, ?_⟩
  · intro hstreams
    obtain ⟨server', hserver', _, hrunning, ⟨entry, hreg⟩, _⟩ := hstreams
    cases hserver.symm.trans hserver'
    exact ⟨hup.symm.trans hrunning, (htracks.served id fi).mp ⟨entry, server, hserver, hreg⟩⟩
  -- a file that the log serves is registered, so no GET for it misses the lookup
  · intro hlog
    obtain ⟨hrunning, hserved⟩ := hlog
    obtain ⟨entry, server', hserver', hreg⟩ := (htracks.served id fi).mpr hserved
    cases hserver.symm.trans hserver'
    refine ⟨server, hserver, hurl, hup.trans hrunning, ⟨entry, hreg⟩, ?_⟩
    intro io req hreq hnot
    have hnone := (HttpRangeServer.streamNotFound_iff hreq io).mp hnot
    rw [hreg] at hnone
    cases hnone

def sampleUrl : CxxString :=
  "http://127.0.0.1:8080/stream/".toList ++ sampleId 1 ++ "/0?token=".toList

theorem handed_out_url_streams_iff_startThenSelect :
    (sampleRun startThenSelect).Streams (sampleId 1) 0 sampleUrl := by
  have hurl : (sampleRun startThenSelect).HandsOut sampleEnv (sampleId 1) 0 sampleUrl :=
    Or.inl (by decide)
  apply (handed_out_url_streams_iff sampleEnv {} .empty (sampleEvents startThenSelect) hurl).mpr
  decide

def restRequest (method : Method) (sub : CxxString) : HttpRequest :=
  { method := method, target := "/api/torrents/".toList ++ sampleId 1 ++ sub }

def startRestSelect : List Op :=
  addSample 1 "a.torrent".toList ++
    [.startServer, .control (restRequest .post "/files/0/select".toList)]

def getSampleUrl : HttpRequest :=
  { method := .get, target := "/stream/".toList ++ sampleId 1 ++ "/0?token=".toList }

theorem rest_selection_hands_out_dead_url :
    (sampleRun startRestSelect).HandsOut sampleEnv (sampleId 1) 0 sampleUrl ∧
      ¬(sampleRun startRestSelect).Streams (sampleId 1) 0 sampleUrl ∧
      ∃ server, (sampleRun startRestSelect).httpServer = some server ∧
        server.Requests (sampleId 1) 0 getSampleUrl ∧
        ∀ io, HttpRangeServer.StreamNotFound (server.handleConnection io getSampleUrl) := by
  have hserver : (sampleRun startRestSelect).httpServer.map
      (fun server => ((server.registered (sampleId 1) 0).isNone, server.authToken)) =
        some (true, []) := by decide
  obtain ⟨server, hserver, hfields⟩ := Option.map_eq_some_iff.mp hserver
  obtain ⟨hnone, htoken⟩ := Prod.mk.inj hfields
  have hreg := Option.isNone_iff_eq_none.mp hnone
  refine ⟨?_, ?_, server, hserver, ?_⟩
  · refine Or.inr ⟨restRequest .get "/stream-url".toList, ⟨[], true, 8081⟩, ?_, rfl, ?_⟩
    · decide
    · decide
  · intro hstreams
    obtain ⟨server', hserver', _, _, ⟨entry, hentry⟩, _⟩ := hstreams
    cases hserver.symm.trans hserver'
    rw [hreg] at hentry
    cases hentry
  · have hreq : server.Requests (sampleId 1) 0 getSampleUrl := by
      refine ⟨rfl, ⟨⟨sampleId 1, 0, []⟩, ?_, rfl, rfl⟩, ?_⟩
      · decide
      · rw [htoken]
        decide
    exact ⟨hreq, fun io => (HttpRangeServer.streamNotFound_iff hreq io).mpr hreg⟩

end SeekServeEngine

end SeekServe
