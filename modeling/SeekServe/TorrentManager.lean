import SeekServe.Lib.OrderedMap
import SeekServe.ClientStatus

/-!
# The torrent manager of the app

`SsTorrentManager` keeps an entry for each torrent. It changes them in the user's calls, in the
events that the engine has posted to the event loop of Dart, and when it polls. The engine goes
on in its own threads: alerts, ticks and control requests come between any two calls, and a call
may come into the middle of a handler for metadata.
-/

namespace SeekServe

set_option autoImplicit false

/-- What happens in the threads of the engine. -/
def Op.ofEngine : Op → Bool
  | .metadataReceived _ _ | .torrentAdded _ _ | .pieceFinished _ _ | .fileCompleted _ _ | .tick
  | .control _ => true
  | .addTorrent _ _ | .removeTorrent _ _ | .selectFile _ _ | .startServer | .stopServer
  | .restart => false

def Op.isAlert : Op → Bool
  | .metadataReceived _ _ | .torrentAdded _ _ | .pieceFinished _ _ | .fileCompleted _ _ => true
  | _ => false

/-- The alerts whose handlers let go of the lock between their guard and the catalog. -/
def Op.metadata : Op → Option (InfoHash × TorrentInfo)
  | .metadataReceived ih ti | .torrentAdded ih (some (some ti)) => some (ih, ti)
  | _ => none

theorem Op.announcement_of_metadata {op : Op} {ih : InfoHash} {ti : TorrentInfo}
    (h : op.metadata = some (ih, ti)) : op.announcement = some (infohashToHex ih, ti) := by
  unfold Op.metadata at h
  split at h
  · cases h
    rfl
  · cases h
    rfl
  · cases h

structure Happening where
  event : Event
  own : event.op.ofEngine = true
  /-- the message of a failed addition -/
  message : List UInt8

/-- What one of the threads does next. -/
inductive EngineTurn where
  | happen (h : Happening)
  /-- the thread of the alerts goes on in its handler -/
  | goOn

def HexId.ofHash (ih : InfoHash) : HexId :=
  ⟨infohashToHex ih, fun _ hc => isHexDigit_of_mem_infohashToHex hc⟩

/-- Where a handler for metadata is that has passed its guard, with its local variables. -/
inductive HandlerStep where
  | insert (env : Env) (ti : TorrentInfo)
  | list (env : Env)
  | record (env : Env) (files : List FileInfo)
  | fire

structure MetadataHandler where
  ih : InfoHash
  step : HandlerStep

namespace MetadataHandler

def id (handler : MetadataHandler) : TorrentId := infohashToHex handler.ih

/-- It is about to enter the torrent into the catalog. -/
def inserts (handler : MetadataHandler) : Bool :=
  match handler.step with
  | .insert _ _ => true
  | _ => false

/-- Each call of the handler, with the strings that go to the callback. -/
def goOn (handler : MetadataHandler) (e : SeekServeEngine) :
    List (List UInt8) × SeekServeEngine × Option MetadataHandler :=
  match handler.step with
  | .insert env ti =>
    ([], { e with catalog := e.catalog.onMetadataReceived handler.id ti },
      some { handler with step := .list env })
  | .list env =>
    match e.catalog.listFiles handler.id with
    | .ok files => ([], e, some { handler with step := .record env files })
    | .error _ => ([], e, some { handler with step := .fire })
  | .record env files =>
    ([], { e with cache := e.cache.onTorrentAdded env.now handler.id files },
      some { handler with step := .fire })
  | .fire => ([EngineEvent.fire (.metadataReceived (.ofHash handler.ih))], e, none)

end MetadataHandler

namespace SeekServeEngine

/-- The strings that go to the callback when nothing is left of the handler. -/
def fired (h : Happening) : List (List UInt8) :=
  match h.event.op with
  | .torrentAdded _ none => [EngineEvent.fire (.error h.message)]
  | .fileCompleted ih fi => [EngineEvent.fire (.fileCompleted (.ofHash ih) (Int32.ofInt fi))]
  | _ => []

/-- `pause_torrent` and `resume_torrent`, up to what they do to the handle. -/
def firing (type : String) (e : SeekServeEngine) (id : TorrentId) :
    Result Unit × List (List UInt8) :=
  match e.sessions.getHandle id with
  | none => (.error .torrentNotFound, [])
  | some _ =>
    let data := literal "\x7b\"torrent_id\":\"" ++ id.bytes ++ literal "\"\x7d"
    (.ok (), [literal "\x7b\"type\":\"" ++ literal type ++ literal "\",\"data\":" ++ data ++
      literal "\x7d"])

def pauseTorrent : SeekServeEngine → TorrentId → Result Unit × List (List UInt8) :=
  firing "torrent_paused"

def resumeTorrent : SeekServeEngine → TorrentId → Result Unit × List (List UInt8) :=
  firing "torrent_resumed"

end SeekServeEngine

namespace CApi

def ssStartServer (env : Env) (e : SeekServeEngine) : Int × Nat × SeekServeEngine :=
  match e.startServer env with
  | (.error err, e) => (mapError err, 0, e)
  | (.ok port, e) => (ssOk, port, e)

def ssPauseTorrent (e : SeekServeEngine) (torrentId : CxxString) : Int × List (List UInt8) :=
  match e.pauseTorrent torrentId with
  | (.error err, fired) => (mapError err, fired)
  | (.ok (), fired) => (ssOk, fired)

def ssResumeTorrent (e : SeekServeEngine) (torrentId : CxxString) : Int × List (List UInt8) :=
  match e.resumeTorrent torrentId with
  | (.error err, fired) => (mapError err, fired)
  | (.ok (), fired) => (ssOk, fired)

def ssGetStreamUrl (e : SeekServeEngine) (torrentId : CxxString) (fileIndex : Int) : CAnswer :=
  match e.getStreamUrl torrentId fileIndex with
  | .error err => ⟨mapError err, none⟩
  | .ok url => allocated url.bytes

end CApi

namespace SeekServeClient

def startServer (env : Env) (e : SeekServeEngine) : Except ClientError Nat × SeekServeEngine :=
  match CApi.ssStartServer env e with
  | (err, outPort, e) => ((checkError err).map fun _ => outPort, e)

def pauseTorrent (e : SeekServeEngine) (torrentId : DartString) :
    Except ClientError Unit × List (List UInt8) :=
  match CApi.ssPauseTorrent e (passed torrentId) with
  | (err, fired) => (checkError err, fired)

def resumeTorrent (e : SeekServeEngine) (torrentId : DartString) :
    Except ClientError Unit × List (List UInt8) :=
  match CApi.ssResumeTorrent e (passed torrentId) with
  | (err, fired) => (checkError err, fired)

def getStreamUrl (e : SeekServeEngine) (torrentId : DartString) (fileIndex : Int) :
    Except ClientError DartString :=
  let answer := CApi.ssGetStreamUrl e (passed torrentId) fileIndex
  (checkError answer.code).bind fun _ => toDartString (answer.out.getD [])

end SeekServeClient

/-- What the manager catches. -/
inductive Thrown where
  | client (error : ClientError)
  /-- a cast that fails -/
  | type
  deriving DecidableEq, Repr

/-- What a `try` sees of a call; `none` where the process has ended. -/
def CallResult.caught {α : Type} : CallResult α → Option (Except Thrown α)
  | .returned a => some (.ok a)
  | .seekServe errorCode => some (.error (.client (.seekServe errorCode)))
  | .format => some (.error (.client .format))
  | .type => some (.error .type)
  | .terminated => none

def messageForCode (code : Int) : DartString :=
  if code = ssErrInvalidArg then Json.word "Invalid argument"
  else if code = ssErrNotFound then Json.word "Torrent or file not found"
  else if code = ssErrMetadataPending then Json.word "Metadata not yet received"
  else if code = ssErrTimeout then Json.word "Operation timed out"
  else if code = ssErrIo then Json.word "I/O error"
  else if code = ssErrAlreadyRunning then Json.word "Server already running"
  else if code = ssErrCancelled then Json.word "Operation cancelled"
  else Json.word "Unknown error (" ++ Json.units (CxxString.ofInt code) ++ Json.word ")"

inductive ManagerError where
  | thrown (e : Thrown)
  | metadataNotReady
  | torrent (torrentId message : DartString)
  deriving DecidableEq

/-- The text of `errorMessage`; `sdk` gives those of Dart's own exceptions. -/
def ManagerError.text (sdk : Thrown → DartString) : ManagerError → DartString
  | .thrown (.client (.seekServe code)) =>
    Json.word "SeekServeException(" ++ Json.units (CxxString.ofInt code) ++ Json.word "): " ++
      messageForCode code
  | .thrown e => sdk e
  | .metadataNotReady => Utf8.utf16 "Metadata not ready yet — please wait".toList
  | .torrent torrentId message =>
    Json.word "Torrent " ++ torrentId ++ Json.word ": " ++ message

structure SsTorrentEntry where
  torrentId : DartString
  status : Option TorrentStatus := none
  files : Option (List ClientFile) := none
  metadataReceived : Bool := false

/-- The manager after `init`, with a client. -/
structure SsTorrentManager where
  serverPort : Option Nat
  errorMessage : Option ManagerError
  torrents : OrderedMap DartString SsTorrentEntry
  /-- `_eventSub` and `_pollTimer` are set -/
  listening : Bool

namespace SsTorrentManager

def entries (m : SsTorrentManager) : List SsTorrentEntry := m.torrents.values

def getEntry (m : SsTorrentManager) (torrentId : DartString) : Option SsTorrentEntry :=
  m.torrents.lookup torrentId

def getStatus (m : SsTorrentManager) (torrentId : DartString) : Option TorrentStatus :=
  (m.getEntry torrentId).bind SsTorrentEntry.status

end SsTorrentManager

/-- The engine, and the handler that the thread of the alerts is in. -/
structure EngineThreads where
  engine : SeekServeEngine
  handler : Option MetadataHandler

namespace EngineThreads

/-- One alert is handled after the other. -/
def turn (t : EngineThreads) : EngineTurn → List (List UInt8) × EngineThreads
  | .happen h =>
    if h.event.op.isAlert = true ∧ t.handler.isSome = true then ([], t)
    else
      match h.event.op.metadata with
      | none => (SeekServeEngine.fired h, { t with engine := (t.engine.step h.event).2 })
      | some (ih, ti) =>
        -- the guard, under the lock on the states
        if t.engine.removedIds.contains (infohashToHex ih) then ([], t)
        else ([], { t with handler := some ⟨ih, .insert h.event.env ti⟩ })
  | .goOn =>
    match t.handler with
    | none => ([], t)
    | some handler =>
      match handler.goOn t.engine with
      | (fired, engine, handler) => (fired, ⟨engine, handler⟩)

def machine : Runs.Machine EngineThreads EngineTurn (List (List UInt8)) := ⟨turn⟩

theorem step_of_metadata {e : SeekServeEngine} {ev : Event} {ih : InfoHash} {ti : TorrentInfo}
    (hop : ev.op.metadata = some (ih, ti)) :
    (e.step ev).2 = e.onMetadataReceived ev.env ih ti := by
  unfold SeekServeEngine.step
  unfold Op.metadata at hop
  split at hop
  · rename_i hreceived
    cases hop
    rw [hreceived]
  · rename_i hadded
    cases hop
    rw [hadded]
    rfl
  · cases hop

/-- With nothing between its calls, a handler does what the engine does in one step, and fires one
event if the torrent was not removed. -/
theorem handler_alone {t : EngineThreads} (hidle : t.handler = none) {h : Happening}
    {ih : InfoHash} {ti : TorrentInfo} (hop : h.event.op.metadata = some (ih, ti)) :
    ∃ n, machine.run t (.happen h :: List.replicate n .goOn) =
        ⟨(t.engine.step h.event).2, none⟩ ∧
      (machine.trace t (.happen h :: List.replicate n .goOn)).flatMap Prod.snd =
        if infohashToHex ih ∈ t.engine.removedIds then []
        else [EngineEvent.fire (.metadataReceived (.ofHash ih))] := by
  obtain ⟨e, handler⟩ := t
  cases hidle
  rw [step_of_metadata hop]
  unfold SeekServeEngine.onMetadataReceived
  by_cases hremoved : infohashToHex ih ∈ e.removedIds
  · refine ⟨0, ?_, ?_⟩
    all_goals simp [machine, turn, hop, hremoved]
  · simp only [hremoved, if_false]
    cases hfiles : (e.catalog.onMetadataReceived (infohashToHex ih) ti).listFiles
        (infohashToHex ih) with
    | ok files =>
      refine ⟨4, ?_, ?_⟩
      all_goals
        simp [machine, turn, hop, hremoved, MetadataHandler.goOn, MetadataHandler.id, hfiles]
    | error err =>
      refine ⟨3, ?_, ?_⟩
      all_goals
        simp [machine, turn, hop, hremoved, MetadataHandler.goOn, MetadataHandler.id, hfiles]

end EngineThreads

structure App where
  threads : EngineThreads
  manager : SsTorrentManager
  /-- the strings in the queue of the event loop -/
  inFlight : List (List UInt8)

namespace App

def engine (app : App) : SeekServeEngine := app.threads.engine

/-- What a call leaves of the engine; a handler that is under way goes on with it. -/
def setEngine (app : App) (engine : SeekServeEngine) : App :=
  { app with threads := { app.threads with engine := engine } }

def post (app : App) (fired : List (List UInt8)) : App :=
  { app with inFlight := app.inFlight ++ fired.map allocString }

def turn (app : App) (t : EngineTurn) : App :=
  match app.threads.turn t with
  | (fired, threads) => { app.post fired with threads := threads }

def setEntry (app : App) (torrentId : DartString) (entry : SsTorrentEntry) : App :=
  { app with manager :=
    { app.manager with torrents := app.manager.torrents.set torrentId entry } }

def report (app : App) (error : Option ManagerError) : App :=
  { app with manager := { app.manager with errorMessage := error } }

/-- How a call without a result ends in the manager. -/
def noting (app : App) : Except ClientError Unit → App
  | .ok () => app.report none
  | .error err => app.report (some (.thrown (.client err)))

def addTorrent (env : Env) (uri : DartString) (app : App) : Option DartString × App :=
  match SeekServeClient.addTorrent env app.engine uri with
  | (.ok id, engine) =>
    (some id, ((app.setEngine engine).setEntry id { torrentId := id }).report none)
  | (.error err, engine) =>
    (none, (app.setEngine engine).report (some (.thrown (.client err))))

def removeTorrent (torrentId : DartString) (app : App) : App :=
  match SeekServeClient.removeTorrent app.engine torrentId with
  | (.ok (), engine) =>
    let torrents := app.manager.torrents.erase torrentId
    { app.setEngine engine with manager := { app.manager with torrents := torrents } }.report none
  | (.error err, engine) => (app.setEngine engine).report (some (.thrown (.client err)))

def pauseTorrent (torrentId : DartString) (app : App) : App :=
  match SeekServeClient.pauseTorrent app.engine torrentId with
  | (result, fired) => (app.post fired).noting result

def resumeTorrent (torrentId : DartString) (app : App) : App :=
  match SeekServeClient.resumeTorrent app.engine torrentId with
  | (result, fired) => (app.post fired).noting result

def togglePause (torrentId : DartString) (app : App) : App :=
  match app.manager.getStatus torrentId with
  | none => app
  | some status =>
    if status.isPaused then app.resumeTorrent torrentId else app.pauseTorrent torrentId

/-- Metadata that the manager has not seen in a poll yet stands in the way. -/
def selectAndStream (env : Env) (torrentId : DartString) (fileIndex : Int) (app : App) :
    Option DartString × App :=
  if (app.manager.getStatus torrentId).map TorrentStatus.hasMetadata ≠ some true then
    (none, app.report (some .metadataNotReady))
  else
    match SeekServeClient.selectFile env app.engine torrentId fileIndex with
    | (.error err, engine) =>
      (none, (app.setEngine engine).report (some (.thrown (.client err))))
    | (.ok (), engine) =>
      let app := app.setEngine engine
      match SeekServeClient.getStreamUrl engine torrentId fileIndex with
      | .error err => (none, app.report (some (.thrown (.client err))))
      | .ok url => (some url, app.report none)

section Json
variable (dump : JsonValue → Option (List UInt8))

def listFiles (torrentId : DartString) (app : App) : Option (List ClientFile × App) :=
  match (app.manager.getEntry torrentId).bind SsTorrentEntry.files with
  | some files => some (files, app)
  | none =>
    (SeekServeClient.listFiles dump app.engine torrentId).caught.map fun
      | .error e => ([], app.report (some (.thrown e)))
      | .ok files =>
        match app.manager.getEntry torrentId with
        | none => (files, app)
        | some entry => (files, app.setEntry torrentId { entry with files := some files })

def onEvent (app : App) : SeekServeEvent → Option App
  | .metadataReceived torrentId =>
    match app.manager.getEntry torrentId with
    | none => some app
    | some entry =>
      (SeekServeClient.listFiles dump app.engine torrentId).caught.map fun
        | .error _ => app.setEntry torrentId { entry with metadataReceived := true }
        | .ok files =>
          app.setEntry torrentId { entry with files := some files, metadataReceived := true }
  | .torrentError torrentId message => some (app.report (some (.torrent torrentId message)))
  | .fileCompleted _ _ | .torrentPaused _ | .torrentResumed _ | .unknown _ _ => some app

/-- The event loop comes to the oldest string in its queue. -/
def deliver (app : App) : Option App :=
  match app.inFlight with
  | [] => some app
  | eventJson :: inFlight =>
    let app := { app with inFlight := inFlight }
    match app.manager.listening, handleNativeEvent eventJson with
    | true, some event => app.onEvent dump event
    | _, _ => some app

/-- `_pollStatus` comes to an entry. Before its second call the engine may have gone on. -/
def pollEntry (views : Views) (meanwhile : List EngineTurn) (torrentId : DartString) (app : App) :
    Option App :=
  match app.manager.getEntry torrentId with
  | none => some app
  | some entry =>
    (SeekServeClient.getStatus dump views app.engine entry.torrentId).caught.bind fun
      | .error _ => some app
      | .ok status =>
        let entry := { entry with status := some status }
        if status.hasMetadata = true ∧ entry.metadataReceived = false then
          let app := meanwhile.foldl turn app
          let entry := { entry with metadataReceived := true }
          match entry.files with
          | some _ => some (app.setEntry torrentId entry)
          | none =>
            (SeekServeClient.listFiles dump app.engine entry.torrentId).caught.map fun result =>
              app.setEntry torrentId { entry with files := result.toOption }
        else some (app.setEntry torrentId entry)

end Json

end App

inductive AppOp where
  | addTorrent (env : Env) (uri : DartString)
  | removeTorrent (torrentId : DartString)
  | pauseTorrent (torrentId : DartString)
  | resumeTorrent (torrentId : DartString)
  | togglePause (torrentId : DartString)
  | listFiles (torrentId : DartString)
  | selectAndStream (env : Env) (torrentId : DartString) (fileIndex : Int)
  | deliver
  | pollEntry (views : Views) (meanwhile : List EngineTurn) (torrentId : DartString)
  | turn (t : EngineTurn)

namespace App

def next (dump : JsonValue → Option (List UInt8)) (app : App) : AppOp → Option App
  | .addTorrent env uri => some (app.addTorrent env uri).2
  | .removeTorrent torrentId => some (app.removeTorrent torrentId)
  | .pauseTorrent torrentId => some (app.pauseTorrent torrentId)
  | .resumeTorrent torrentId => some (app.resumeTorrent torrentId)
  | .togglePause torrentId => some (app.togglePause torrentId)
  | .listFiles torrentId => (app.listFiles dump torrentId).map Prod.snd
  | .selectAndStream env torrentId fileIndex =>
    some (app.selectAndStream env torrentId fileIndex).2
  | .deliver => app.deliver dump
  | .pollEntry views meanwhile torrentId => app.pollEntry dump views meanwhile torrentId
  | .turn t => some (app.turn t)

def system (dump : JsonValue → Option (List UInt8)) : Runs.System App AppOp := ⟨next dump⟩

end App

end SeekServe
