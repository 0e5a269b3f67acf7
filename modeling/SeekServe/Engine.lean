import SeekServe.ControlApi
import SeekServe.PieceAvailability

/-!
# The engine

`SeekServeEngine`: the operations of its interface, the alert handlers and the timer, each
run to its end. The byte sources and schedulers are known by their addresses; `cancelled`
lists the sources on which `cancel()` has been called. The order in which two threads run
parts of two operations is the subject of `SelectionWindow`.
-/

namespace SeekServe

set_option autoImplicit false

structure Config where
  session : SessionConfig := {}
  server : ServerConfig := {}
  cache : CacheConfig := {}
  authToken : CxxString := []
  deriving DecidableEq, Repr

/-- What the outside world answers while one operation runs. -/
structure Env where
  load : Loader
  json : CxxString → JsonBody
  now : Int
  streamBind : Bind
  apiBind : Bind
  /-- libtorrent's bitfield of completed pieces -/
  pieces : Int → Bool

structure TorrentState where
  avail : PieceAvailabilityIndex
  mapper : ByteRangeMapper
  source : ByteSource
  scheduler : Nat
  selectedFile : Int

/-- `stop()` sets the flag; only a `restart()` would clear it. -/
structure IoContext where
  stopped : Bool
  deriving DecidableEq, Repr

structure SeekServeEngine where
  config : Config
  ioc : IoContext
  workGuard : Bool
  /-- `io_thread_` has been started and not joined -/
  ioThread : Bool
  sessions : TorrentSessionManager
  catalog : MetadataCatalog
  cache : OfflineCacheManager
  httpServer : Option HttpRangeServer
  apiServer : Option ControlApiServer
  tickTimer : Bool
  states : AssocMap TorrentId TorrentState
  removedIds : List TorrentId
  serverRunning : Bool
  cancelled : List Nat
  nextAddr : Nat

/-- `std::filesystem::path(dir) / path` -/
def joinPath (dir path : CxxString) : CxxString :=
  if path.head? = some '/' then path
  else if dir = [] ∨ dir.getLast? = some '/' then dir ++ path
  else dir ++ '/' :: path

namespace SeekServeEngine

/-- Restoring one row: a torrent that cannot be added again loses its row. -/
def restoreRow (env : Env) (e : SeekServeEngine) (row : TorrentId × CxxString) :
    SeekServeEngine :=
  match e.sessions.addTorrent env.load ⟨row.2, e.config.session.savePath⟩ with
  | (.ok _, sessions) => { e with sessions := sessions }
  | (.error _, _) => { e with cache := e.cache.removeTorrentUri row.1 }

def fresh (config : Config) (cache : OfflineCacheManager) : SeekServeEngine where
  config := config
  ioc := ⟨false⟩
  workGuard := false
  ioThread := false
  sessions := .create config.session
  catalog := ⟨∅⟩
  cache := cache
  httpServer := none
  apiServer := none
  tickTimer := false
  states := ∅
  removedIds := []
  serverRunning := false
  cancelled := []
  nextAddr := 0

def create (env : Env) (config : Config) (cache : OfflineCacheManager) : SeekServeEngine :=
  cache.listTorrentUris.foldl (restoreRow env) (fresh config cache)

/-- `metadata_received_alert`, for the hashes that the torrent has by then. -/
def onMetadataReceived (env : Env) (e : SeekServeEngine) (ih : InfoHash) (ti : TorrentInfo) :
    SeekServeEngine :=
  let id := infohashToHex ih
  if id ∈ e.removedIds then e
  else
    let catalog := e.catalog.onMetadataReceived id ti
    match catalog.listFiles id with
    | .ok files =>
      { e with catalog := catalog, cache := e.cache.onTorrentAdded env.now id files }
    | .error _ => { e with catalog := catalog }

/-- `add_torrent_alert`, where `none` stands for an alert with an error. -/
def onTorrentAdded (env : Env) (e : SeekServeEngine) (ih : InfoHash)
    (result : Option (Option TorrentInfo)) : SeekServeEngine :=
  match result with
  | some (some ti) => e.onMetadataReceived env ih ti
  | some none | none => e

def onPieceFinished (e : SeekServeEngine) (ih : InfoHash) (piece : Int) : SeekServeEngine :=
  { e with
    states := AssocMap.modify (infohashToHex ih)
      (fun state => { state with avail := state.avail.markComplete piece }) e.states }

def onFileCompleted (env : Env) (e : SeekServeEngine) (ih : InfoHash) (fi : Int) :
    SeekServeEngine :=
  { e with cache := e.cache.onFileCompleted env.now (infohashToHex ih) fi }

def addTorrent (env : Env) (e : SeekServeEngine) (uri savePath : CxxString) :
    Result TorrentId × SeekServeEngine :=
  match e.sessions.addTorrent env.load ⟨uri, savePath⟩ with
  | (.error err, sessions) => (.error err, { e with sessions := sessions })
  | (.ok id, sessions) =>
    (.ok id, { e with sessions := sessions, cache := e.cache.saveTorrentUri env.now id uri })

def dropSources (e : SeekServeEngine) (id : TorrentId) : SeekServeEngine :=
  match e.httpServer with
  | none => e
  | some server =>
    let (server, cancelled) := server.removeByteSourcesForTorrent id
    { e with httpServer := some server, cancelled := cancelled ++ e.cancelled }

def removeTorrent (e : SeekServeEngine) (id : TorrentId) : Result Unit × SeekServeEngine :=
  let e := { e with cache := e.cache.removeTorrentUri id }
  -- before the torrent state goes, which its sources read from
  let e := e.dropSources id
  let e :=
    { e with
      removedIds := id :: e.removedIds
      states := AList.erase id e.states
      catalog := e.catalog.remove id }
  let (result, sessions) := e.sessions.removeTorrent id
  (result, { e with sessions := sessions })

def listTorrents (e : SeekServeEngine) : List TorrentId :=
  e.cache.listTorrentUris.map fun row => row.1

def listFiles (e : SeekServeEngine) (id : TorrentId) : Result (List FileInfo) :=
  e.catalog.listFiles id

/-- Before a new selection, the source of the previous one leaves the server. -/
def dropPreviousSource (e : SeekServeEngine) (id : TorrentId) : SeekServeEngine :=
  match e.states.lookup id, e.httpServer with
  | some old, some server =>
    if old.selectedFile ≥ 0 then
      let (server, cancelled) := server.removeByteSource id old.selectedFile
      { e with httpServer := some server, cancelled := cancelled ++ e.cancelled }
    else e
  | _, _ => e

theorem catalog_dropPreviousSource (e : SeekServeEngine) (id : TorrentId) :
    (e.dropPreviousSource id).catalog = e.catalog := by
  unfold dropPreviousSource
  split
  · split <;> rfl
  · rfl

/-- The new torrent state of a selection: the index holds what is already on disk. -/
def newState (env : Env) (e : SeekServeEngine) (id : TorrentId) (fi : Int)
    (handle : TorrentHandle) (ti : TorrentInfo) : TorrentState :=
  let numPieces := ti.layout.numPieces
  let pieceLength := ti.layout.pieceLength
  let lastPieceSize := ti.layout.totalSize - (numPieces - 1) * pieceLength
  let mapper : ByteRangeMapper := ⟨ti.layout, fi⟩
  let path := ((e.catalog.getFile id fi).toOption.map FileInfo.path).getD []
  { avail := (PieceAvailabilityIndex.reset numPieces pieceLength lastPieceSize).populate env.pieces
    mapper := mapper
    source :=
      { addr := e.nextAddr
        handle := handle
        fileIdx := fi
        filePath := joinPath e.config.session.savePath path
        mapper := mapper }
    scheduler := e.nextAddr + 1
    selectedFile := fi }

def publish (e : SeekServeEngine) (id : TorrentId) (handle : TorrentHandle)
    (state : TorrentState) : SeekServeEngine :=
  let path := ((e.catalog.getFile id state.selectedFile).toOption.map FileInfo.path).getD []
  { e with
    httpServer := e.httpServer.map fun server =>
      (server.setByteSource state.source id state.selectedFile path).setRangeCallback
        ⟨state.scheduler, handle⟩
    states := AList.insert id state e.states
    nextAddr := e.nextAddr + 2 }

def selectFile (env : Env) (e : SeekServeEngine) (id : TorrentId) (fi : Int) :
    Result Unit × SeekServeEngine :=
  match e.sessions.getHandle id with
  | none => (.error .torrentNotFound, e)
  | some handle =>
    match e.catalog.selectFile id fi with
    | (.error err, catalog) => (.error err, { e with catalog := catalog })
    | (.ok (), catalog) =>
      let e := { e with catalog := catalog }
      let e := e.dropPreviousSource id
      match e.catalog.torrentInfo id with
      | none => (.error .metadataNotReady, e)
      | some ti => (.ok (), e.publish id handle (e.newState env id fi handle ti))

def getStreamUrl (e : SeekServeEngine) (id : TorrentId) (fi : Int) : Result CxxString :=
  match e.httpServer with
  | none => .error .sessionNotStarted
  | some server =>
    if e.sessions.hasTorrent id then .ok (server.streamUrl id fi) else .error .torrentNotFound

def fileProgress (state : TorrentState) : Rat :=
  let first := state.mapper.firstPiece
  let total := state.mapper.endPiece - first
  let completed := (List.range total.toNat).countP fun p => state.avail.isComplete (first + p)
  if total > 0 then completed / total else 0

/-- The part of `on_tick` under the lock, but for what the schedulers do to libtorrent. -/
def tickStates (env : Env) (e : SeekServeEngine) : SeekServeEngine :=
  { e with
    cache := e.states.entries.foldl
      (fun cache entry =>
        if e.sessions.hasTorrent entry.1 ∧ entry.2.selectedFile ≥ 0 then
          cache.onProgressUpdate env.now entry.1 entry.2.selectedFile (fileProgress entry.2)
        else cache)
      e.cache }

/-- `start_tick_timer`, which runs the first tick itself. -/
def startTickTimer (env : Env) (e : SeekServeEngine) : SeekServeEngine :=
  { e.tickStates env with tickTimer := true }

/-- The timer fires, if it is set and the context still dispatches. -/
def onTick (env : Env) (e : SeekServeEngine) : SeekServeEngine :=
  if e.tickTimer = true ∧ e.ioc.stopped = false then e.tickStates env else e

def stoppedSources (e : SeekServeEngine) : List Nat :=
  match e.httpServer with
  | none => []
  | some server => server.stop.2

/-- The new server objects take the place of the old ones, whose destructor stops them. -/
def replaceServers (e : SeekServeEngine) (server : HttpRangeServer) (api : ControlApiServer) :
    SeekServeEngine :=
  { e with
    httpServer := some server
    apiServer := some api
    cancelled := e.stoppedSources ++ e.cancelled }

def startServer (env : Env) (e : SeekServeEngine) : Result Nat × SeekServeEngine :=
  if e.serverRunning then (.error .serverAlreadyRunning, e)
  else
    let server := (HttpRangeServer.create e.config.server).setAuthToken e.config.authToken
    let api := ControlApiServer.create e.config.authToken
    let e := e.replaceServers server api
    match server.start env.streamBind with
    | (.error err, server) => (.error err, { e with httpServer := some server })
    | (.ok _, server) =>
      match api.start env.apiBind with
      | (.error err, api) =>
        let (server, cancelled) := server.stop
        (.error err,
          { e with
            httpServer := some server
            apiServer := some api
            cancelled := cancelled ++ e.cancelled })
      | (.ok port, api) =>
        -- `ioc_` stays as it is: no `restart()` after an earlier `stop()`
        let e :=
          { e with
            httpServer := some server
            apiServer := some api
            workGuard := true
            ioThread := true }
        (.ok port, { e.startTickTimer env with serverRunning := true })

def stopServer (e : SeekServeEngine) : SeekServeEngine :=
  if e.serverRunning then
    { e with
      serverRunning := false
      tickTimer := false
      apiServer := e.apiServer.map ControlApiServer.stop
      httpServer := e.httpServer.map fun server => server.stop.1
      cancelled :=
        e.states.values.map (fun state => state.source.addr) ++ e.stoppedSources ++ e.cancelled
      workGuard := false
      ioc := ⟨true⟩
      ioThread := false }
  else e

def controlContext (env : Env) (e : SeekServeEngine) (server : HttpRangeServer)
    (api : ControlApiServer) : ControlContext where
  sessions := e.sessions
  catalog := e.catalog
  rangeServer := server
  cache := e.cache
  authToken := api.authToken
  load := env.load
  json := env.json

/-- The shutdown callback is `stop_server`. -/
def afterControl (e : SeekServeEngine) (outcome : ControlOutcome) : SeekServeEngine :=
  let e := { e with sessions := outcome.sessions, catalog := outcome.catalog }
  if outcome.shutdown then e.stopServer else e

/-- A request on a connection to the control API, in its own thread. A connection that was
accepted before `stop()` is still answered, as long as the server object exists. -/
def control (env : Env) (e : SeekServeEngine) (req : HttpRequest) :
    Option ControlReply × SeekServeEngine :=
  match e.httpServer, e.apiServer with
  | some server, some api =>
    let outcome := (e.controlContext env server api).handleConnection req
    (some outcome.reply, e.afterControl outcome)
  | _, _ => (none, e)

/-- The engine is destroyed and another one is made with the same configuration on the same
database. -/
def restart (env : Env) (e : SeekServeEngine) : SeekServeEngine := create env e.config e.cache

end SeekServeEngine

end SeekServe
