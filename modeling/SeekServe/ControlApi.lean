import SeekServe.Http
import SeekServe.HttpConnection
import SeekServe.MetadataCatalog
import SeekServe.OfflineCache
import SeekServe.SessionManager

/-!
# The control API

`ControlApiServer::handle_connection` on a request that has been read. It works on the
engine's session and catalog, but not on its torrent states. Parsing JSON belongs to a
library and comes in as a function to `JsonBody`.
-/

namespace SeekServe

set_option autoImplicit false

inductive JsonField where
  | string (s : CxxString)
  | other
  deriving DecidableEq, Repr

/-- A parsed body, with the two fields that the handler looks up. -/
inductive JsonBody where
  | invalid
  | notObject
  | object (uri savePath : Option JsonField)
  deriving DecidableEq, Repr

/-- `json::value(key, "")`; `none` stands for the exception on a value that is no string. -/
def JsonField.value : Option JsonField → Option CxxString
  | none => some []
  | some (.string s) => some s
  | some .other => none

def extractPath (target : CxxString) : CxxString :=
  match CxxString.find ['?'] target with
  | none => target
  | some qpos => CxxString.substr target 0 (some qpos)

/-- The match of `/api/torrents/([a-fA-F0-9]+)(/.*)?` with a whole path. -/
def matchTorrentPath (path : CxxString) : Option (CxxString × CxxString) :=
  if "/api/torrents/".toList.isPrefixOf path then
    let rest := path.drop 14
    let id := rest.takeWhile isHexDigit
    let sub := rest.dropWhile isHexDigit
    if id ≠ [] ∧ (sub = [] ∨ sub.head? = some '/' ∧ '\n' ∉ sub ∧ '\r' ∉ sub) then some (id, sub)
    else none
  else none

/-- The match of `/files/(\d+)/select` with a whole path. -/
def matchSelectPath (sub : CxxString) : Option CxxString :=
  if "/files/".toList.isPrefixOf sub then
    let rest := sub.drop 7
    let digits := rest.takeWhile Char.isDigit
    if digits ≠ [] ∧ rest.dropWhile Char.isDigit = "/select".toList then some digits else none
  else none

inductive TorrentRoute where
  | remove
  | files
  | select (digits : CxxString)
  | pause
  | resume
  | status
  | streamUrl
  | unknown
  deriving DecidableEq, Repr

def torrentRoute (method : Method) (sub : CxxString) : TorrentRoute :=
  if method = .delete ∧ sub = [] then .remove
  else if method = .get ∧ sub = "/files".toList then .files
  else if method = .post ∧ (matchSelectPath sub).isSome then
    .select ((matchSelectPath sub).getD [])
  else if method = .post ∧ sub = "/pause".toList then .pause
  else if method = .post ∧ sub = "/resume".toList then .resume
  else if method = .get ∧ sub = "/status".toList then .status
  else if method = .get ∧ sub = "/stream-url".toList then .streamUrl
  else .unknown

/-- What a request asks for, as far as the request alone decides it. -/
inductive ControlRoute where
  | reject (status : Nat) (message : CxxString)
  | preflight
  /-- an exception leaves the thread of the connection -/
  | crash
  | addTorrent (params : AddTorrentParams)
  | listTorrents
  | serverStop
  | listCache
  | torrent (id : TorrentId) (route : TorrentRoute)

def addRoute : JsonBody → ControlRoute
  | .invalid => .reject 400 "Invalid JSON body".toList
  | .notObject => .crash
  | .object uri savePath =>
    match JsonField.value uri with
    | none => .crash
    | some uri =>
      if uri = [] then .reject 400 "Missing 'uri' field".toList
      else
        match JsonField.value savePath with
        | none => .crash
        | some savePath => .addTorrent ⟨uri, savePath⟩

def kMaxBodySize : Nat := 1024 * 1024

def controlRoute (authToken : CxxString) (json : CxxString → JsonBody) (req : HttpRequest) :
    ControlRoute :=
  let path := extractPath req.target
  if req.body.length > kMaxBodySize then .reject 413 "Request body too large".toList
  else if req.method = .options then .preflight
  else if authorized authToken req = false then
    .reject 403 "Invalid or missing auth token".toList
  else if req.method = .post ∧ path = "/api/torrents".toList then addRoute (json req.body)
  else if req.method = .get ∧ path = "/api/torrents".toList then .listTorrents
  else
    match matchTorrentPath path with
    | some (id, sub) => .torrent id (torrentRoute req.method sub)
    | none =>
      if req.method = .post ∧ path = "/api/server/stop".toList then .serverStop
      else if req.method = .get ∧ path = "/api/cache".toList then .listCache
      else .reject 404 "Not found".toList

inductive ControlBody where
  | empty
  | error (message : CxxString)
  | status (text : CxxString)
  | torrentId (id : TorrentId)
  | torrents (list : List (TorrentId × Bool))
  | cache (list : List CacheEntry)
  | files (list : List FileInfo) (selected : Option Int)
  | selected (fi : Int)
  | torrentStatus (id : TorrentId) (hasMetadata : Bool) (selected : Option Int)
      (offlineReady : Option Bool)
  | streamUrl (url : CxxString) (fi : Int)
  deriving DecidableEq

inductive ControlReply where
  | sent (status : Nat) (body : ControlBody)
  | terminated
  deriving DecidableEq

structure ControlApiServer where
  authToken : CxxString
  running : Bool
  port : Nat
  deriving DecidableEq, Repr

namespace ControlApiServer

def create (authToken : CxxString) : ControlApiServer := ⟨authToken, false, 0⟩

def start (s : ControlApiServer) (bind : Bind) : Result Nat × ControlApiServer :=
  if s.running then (.error .serverAlreadyRunning, s)
  else
    match bind.result with
    | .error e => (.error e, s)
    | .ok actual => (.ok actual, { s with port := actual, running := true })

def stop (s : ControlApiServer) : ControlApiServer := { s with running := false }

theorem start_create_cases (authToken : CxxString) (bind : Bind) :
    (∃ err, (create authToken).start bind = (.error err, create authToken)) ∨
      ∃ actual, (create authToken).start bind = (.ok actual, ⟨authToken, true, actual⟩) := by
  unfold start create
  cases bind.result with
  | error err => exact Or.inl ⟨err, rfl⟩
  | ok actual => exact Or.inr ⟨actual, rfl⟩

end ControlApiServer

/-- What the handler works on: the references of the server object, and the libraries. -/
structure ControlContext where
  sessions : TorrentSessionManager
  catalog : MetadataCatalog
  rangeServer : HttpRangeServer
  cache : OfflineCacheManager
  authToken : CxxString
  load : Loader
  json : CxxString → JsonBody

/-- A call on the libtorrent handle of a torrent. -/
inductive TorrentCall where
  | pause (id : TorrentId)
  | resume (id : TorrentId)
  deriving DecidableEq, Repr

/-- The answer, the state it leaves, whether the shutdown callback was called, and the calls
made on handles. -/
structure ControlOutcome where
  reply : ControlReply
  sessions : TorrentSessionManager
  catalog : MetadataCatalog
  shutdown : Bool := false
  calls : List TorrentCall := []

def shuttingDown : ControlReply := .sent 200 (.status "shutting_down".toList)

def ControlOutcome.Calm (o : ControlOutcome) : Prop := o.shutdown = false ∧ o.reply ≠ shuttingDown

namespace ControlContext
variable (ctx : ControlContext)

def answer (status : Nat) (body : ControlBody) : ControlOutcome where
  reply := .sent status body
  sessions := ctx.sessions
  catalog := ctx.catalog

def sendError (status : Nat) (message : CxxString) : ControlOutcome :=
  ctx.answer status (.error message)

def onHandle (id : TorrentId) (call : TorrentCall) (text : CxxString) : ControlOutcome :=
  match ctx.sessions.getHandle id with
  | none => ctx.sendError 500 "Invalid torrent handle".toList
  | some _ => { ctx.answer 200 (.status text) with calls := [call] }

def serveSelect (id : TorrentId) (digits : CxxString) : ControlOutcome :=
  match CxxString.stoi digits with
  | none => ctx.sendError 400 "Invalid file index".toList
  | some fi =>
    match ctx.sessions.getHandle id with
    | none => ctx.sendError 500 "Invalid torrent handle".toList
    | some _ =>
      match ctx.catalog.selectFile id fi with
      | (.error e, _) => ctx.sendError 400 e.message
      | (.ok (), catalog) => { ctx.answer 200 (.selected fi) with catalog := catalog }

def serveTorrent (id : TorrentId) : TorrentRoute → ControlOutcome
  | .remove =>
    match ctx.sessions.removeTorrent id with
    | (.error e, _) => ctx.sendError 500 e.message
    | (.ok (), sessions) => { ctx.answer 200 (.status "removed".toList) with sessions := sessions }
  | .files =>
    match ctx.catalog.listFiles id with
    | .error e => ctx.sendError 400 e.message
    | .ok files => ctx.answer 200 (.files files (ctx.catalog.selectedFile id))
  | .select digits => ctx.serveSelect id digits
  | .pause => ctx.onHandle id (.pause id) "paused".toList
  | .resume => ctx.onHandle id (.resume id) "resumed".toList
  | .status =>
    match ctx.sessions.getHandle id with
    | none => ctx.sendError 500 "Invalid torrent handle".toList
    | some _ =>
      let selected := ctx.catalog.selectedFile id
      ctx.answer 200
        (.torrentStatus id (ctx.catalog.hasMetadata id) selected
          (selected.map fun fi => ctx.cache.isOfflineReady id fi))
  | .streamUrl =>
    match ctx.catalog.selectedFile id with
    | none => ctx.sendError 400 "No file selected for streaming".toList
    | some fi => ctx.answer 200 (.streamUrl (ctx.rangeServer.streamUrl id fi) fi)
  | .unknown => ctx.sendError 404 "Not found".toList

def serve : ControlRoute → ControlOutcome
  | .reject status message => ctx.sendError status message
  | .preflight => ctx.answer 204 .empty
  | .crash => { ctx.answer 0 .empty with reply := .terminated }
  | .addTorrent params =>
    -- straight to the session: the engine's `add_torrent` is not called
    match ctx.sessions.addTorrent ctx.load params with
    | (.error e, _) => ctx.sendError 400 e.message
    | (.ok id, sessions) => { ctx.answer 201 (.torrentId id) with sessions := sessions }
  | .listTorrents =>
    ctx.answer 200
      (.torrents (ctx.sessions.listTorrents.map fun id => (id, ctx.catalog.hasMetadata id)))
  | .serverStop =>
    { ctx.answer 200 (.status "shutting_down".toList) with shutdown := true }
  | .listCache => ctx.answer 200 (.cache ctx.cache.listCached)
  | .torrent id route =>
    if ctx.sessions.hasTorrent id = false then ctx.sendError 404 "Torrent not found".toList
    else ctx.serveTorrent id route

def handleConnection (req : HttpRequest) : ControlOutcome :=
  ctx.serve (controlRoute ctx.authToken ctx.json req)

/-- The session after a request: additions and removals go through, nothing else does. -/
theorem serve_sessions (route : ControlRoute) :
    (ctx.serve route).sessions =
      match route with
      | .addTorrent params => (ctx.sessions.addTorrent ctx.load params).2
      | .torrent id .remove => (ctx.sessions.removeTorrent id).2
      | _ => ctx.sessions := by
  cases route with
  | reject | preflight | crash | listTorrents | serverStop | listCache => rfl
  | addTorrent params =>
    simp only [serve]
    cases hadd : ctx.sessions.addTorrent ctx.load params with
    | mk result sessions =>
      cases result with
      | ok id => rfl
      | error e =>
        have hsame := TorrentSessionManager.addTorrent_error (congrArg Prod.fst hadd)
        rw [hadd] at hsame
        exact hsame.symm
  | torrent id route =>
    simp only [serve]
    by_cases hid : ctx.sessions.hasTorrent id = false
    · rw [if_pos hid]
      cases route with
      | remove => exact (TorrentSessionManager.removeTorrent_of_not_hasTorrent hid).symm
      | files | select | pause | resume | status | streamUrl | unknown => rfl
    · rw [if_neg hid]
      cases route with
      | remove =>
        simp only [serveTorrent]
        cases hrem : ctx.sessions.removeTorrent id with
        | mk result sessions =>
          cases result with
          | ok u => rfl
          | error e =>
            have hok := (ctx.sessions.removeTorrent_ok_iff id).mpr (Bool.not_eq_false _ ▸ hid)
            rw [hrem] at hok
            cases hok
      | select digits =>
        simp only [serveTorrent, serveSelect]
        split
        · rfl
        · split
          · rfl
          · split <;> rfl
      | files | pause | resume | status | streamUrl =>
        simp only [serveTorrent, onHandle]
        split <;> rfl
      | unknown => rfl

/-- The catalog after a request: at most, another file has been selected. -/
theorem serve_catalog (route : ControlRoute) :
    (ctx.serve route).catalog = ctx.catalog ∨
      ∃ id fi, (ctx.serve route).catalog = (ctx.catalog.selectFile id fi).2 := by
  cases route with
  | reject | preflight | crash | listTorrents | serverStop | listCache => exact Or.inl rfl
  | addTorrent params =>
    simp only [serve]
    split <;> exact Or.inl rfl
  | torrent id route =>
    simp only [serve]
    split
    · exact Or.inl rfl
    cases route with
    | select digits =>
      simp only [serveTorrent, serveSelect]
      split
      · exact Or.inl rfl
      split
      · exact Or.inl rfl
      rename_i fi _ _ _ _
      cases hsel : ctx.catalog.selectFile id fi with
      | mk result catalog =>
        cases result with
        | error e => exact Or.inl rfl
        | ok u => exact Or.inr ⟨id, fi, by rw [hsel]⟩
    | remove | files | pause | resume | status | streamUrl =>
      simp only [serveTorrent, onHandle]
      split <;> exact Or.inl rfl
    | unknown => exact Or.inl rfl

theorem serve_hasMetadata (route : ControlRoute) (id : TorrentId) :
    (ctx.serve route).catalog.hasMetadata id = ctx.catalog.hasMetadata id := by
  rcases ctx.serve_catalog route with h | ⟨id', fi, h⟩
  · rw [h]
  · rw [h]
    exact ctx.catalog.hasMetadata_selectFile id' fi id

theorem serve_listFiles (route : ControlRoute) (id : TorrentId) :
    (ctx.serve route).catalog.listFiles id = ctx.catalog.listFiles id := by
  rcases ctx.serve_catalog route with h | ⟨id', fi, h⟩
  · rw [h]
  · rw [h]
    exact ctx.catalog.listFiles_selectFile id' fi id

theorem calm_serveTorrent (id : TorrentId) (route : TorrentRoute) :
    (ctx.serveTorrent id route).Calm := by
  cases route with
  | select digits =>
    simp only [serveTorrent, serveSelect]
    split
    · simp [ControlOutcome.Calm, shuttingDown, sendError, answer]
    split
    · simp [ControlOutcome.Calm, shuttingDown, sendError, answer]
    split <;> simp [ControlOutcome.Calm, shuttingDown, sendError, answer]
  | remove | files | pause | resume | status | streamUrl =>
    simp only [serveTorrent, onHandle]
    split <;> simp [ControlOutcome.Calm, shuttingDown, sendError, answer]
  | unknown => simp [ControlOutcome.Calm, shuttingDown, serveTorrent, sendError, answer]

theorem calm_serve {route : ControlRoute} (h : route ≠ .serverStop) : (ctx.serve route).Calm := by
  cases route with
  | serverStop => exact absurd rfl h
  | reject | preflight | crash | listTorrents | listCache =>
    simp [ControlOutcome.Calm, shuttingDown, serve, sendError, answer]
  | addTorrent params =>
    simp only [serve]
    split <;> simp [ControlOutcome.Calm, shuttingDown, sendError, answer]
  | torrent id route =>
    simp only [serve]
    split
    · simp [ControlOutcome.Calm, shuttingDown, sendError, answer]
    · exact ctx.calm_serveTorrent id route

theorem serve_shutdown_iff (route : ControlRoute) :
    (ctx.serve route).shutdown = true ↔ (ctx.serve route).reply = shuttingDown := by
  by_cases h : route = .serverStop
  · subst h
    exact ⟨fun _ => rfl, fun _ => rfl⟩
  · obtain ⟨hshut, hreply⟩ := ctx.calm_serve h
    rw [hshut]
    refine ⟨?_, ?_⟩
    · intro hfalse
      cases hfalse
    · intro heq
      exact absurd heq hreply

end ControlContext

end SeekServe
