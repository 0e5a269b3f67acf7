import SeekServe.Lib.Locks

/-!
# The mutexes of the engine

What each operation locks, in the order of its source, and with what it waits for. Threads of
the application, of the alerts, of the servers and of their connections run side by side.
-/

namespace SeekServe.Locking

set_option autoImplicit false

open Locks

/-- The mutexes, one of each for every torrent that streams in the last two. -/
inductive Mutex where
  | handlers -- `AlertDispatcher::mu_`
  | notify -- `AlertDispatcher::notify_mu_`
  | event -- `SeekServeEngine::event_mu_`
  | states -- `SeekServeEngine::mu_`
  | sessions -- `TorrentSessionManager::mu_`
  | catalog -- `MetadataCatalog::mu_`
  | cache -- `OfflineCacheManager::mu_`
  | sources -- `HttpRangeServer::sources_mu_`
  | scheduler (n : Nat)
  | source (n : Nat)
  deriving DecidableEq

inductive Thread where
  | app (n : Nat) -- calls the engine
  | alerts -- `AlertDispatcher::thread_`
  | io (n : Nat) -- `SeekServeEngine::io_thread_` of the n-th start of the servers
  | stream (n : Nat) -- a connection of `HttpRangeServer`, detached
  | control (n : Nat) -- a connection of `ControlApiServer`, detached
  | network -- libtorrent's own
  deriving DecidableEq

abbrev LockProg := Prog Mutex Thread

/-- A function that holds one lock all along, and calls nothing that locks. -/
def locked (m : Mutex) : LockProg := .guard m .skip

namespace TorrentSessionManager

/-- The lock is taken when the torrent could be loaded. -/
def addTorrent : LockProg := .maybe (locked .sessions)
@[simp] def removeTorrent : LockProg := locked .sessions
@[simp] def getHandle : LockProg := locked .sessions
@[simp] def hasTorrent : LockProg := locked .sessions
@[simp] def listTorrents : LockProg := locked .sessions

end TorrentSessionManager

namespace MetadataCatalog

@[simp] def onMetadataReceived : LockProg := locked .catalog
@[simp] def remove : LockProg := locked .catalog
@[simp] def listFiles : LockProg := locked .catalog
@[simp] def getFile : LockProg := locked .catalog
@[simp] def selectFile : LockProg := locked .catalog
@[simp] def selectedFile : LockProg := locked .catalog
@[simp] def torrentInfo : LockProg := locked .catalog
@[simp] def hasMetadata : LockProg := locked .catalog

end MetadataCatalog

namespace OfflineCacheManager

@[simp] def onTorrentAdded : LockProg := locked .cache
@[simp] def onProgressUpdate : LockProg := locked .cache
@[simp] def onFileCompleted : LockProg := locked .cache
@[simp] def listCached : LockProg := locked .cache
@[simp] def isOfflineReady : LockProg := locked .cache
@[simp] def saveTorrentUri : LockProg := locked .cache
@[simp] def removeTorrentUri : LockProg := locked .cache
@[simp] def listTorrentUris : LockProg := locked .cache

end OfflineCacheManager

namespace StreamingScheduler

@[simp] def onRangeRequest (n : Nat) : LockProg := locked (.scheduler n)
@[simp] def onPieceComplete (n : Nat) : LockProg := locked (.scheduler n)
@[simp] def tick (n : Nat) : LockProg := locked (.scheduler n)
@[simp] def currentMode (n : Nat) : LockProg := locked (.scheduler n)
@[simp] def playheadPiece (n : Nat) : LockProg := locked (.scheduler n)
@[simp] def activeDeadlines (n : Nat) : LockProg := locked (.scheduler n)

end StreamingScheduler

/-- `notify_piece_complete` and `cancel` lock nothing. -/
def ByteSource.read (n : Nat) : LockProg :=
  .maybe (.guard (.source n) (.loop (.wait (.source n))))

namespace HttpRangeServer

@[simp] def setByteSource : LockProg := locked .sources
@[simp] def removeByteSource : LockProg := locked .sources
@[simp] def removeByteSourcesForTorrent : LockProg := locked .sources

/-- Nothing happens when the server does not run. -/
def stop : LockProg := .maybe (locked .sources)

/-- The error for an unknown stream is sent with the lock held; the callback for ranges is the
scheduler of the file that was selected last. -/
def handleConnection (source scheduler : Nat) : LockProg :=
  .maybe (.inTurn [
    locked .sources,
    .maybe (.inTurn [
      .maybe (StreamingScheduler.onRangeRequest scheduler),
      .loop (ByteSource.read source)])])

end HttpRangeServer

namespace SeekServeEngine

/-- The callback of the application runs with the lock held. -/
def fireEvent (callback : LockProg) : LockProg := .guard .event (.maybe callback)

def addTorrent : LockProg :=
  .inTurn [TorrentSessionManager.addTorrent, .maybe OfflineCacheManager.saveTorrentUri]

def removeTorrent : LockProg :=
  .inTurn [
    OfflineCacheManager.removeTorrentUri,
    .maybe HttpRangeServer.removeByteSourcesForTorrent,
    locked .states,
    MetadataCatalog.remove,
    TorrentSessionManager.removeTorrent]

def pauseTorrent (callback : LockProg) : LockProg :=
  .inTurn [TorrentSessionManager.getHandle, .maybe (fireEvent callback)]

def resumeTorrent (callback : LockProg) : LockProg :=
  .inTurn [TorrentSessionManager.getHandle, .maybe (fireEvent callback)]

def listTorrents : LockProg := OfflineCacheManager.listTorrentUris

def listFiles : LockProg := MetadataCatalog.listFiles

def selectFile : LockProg :=
  .inTurn [
    TorrentSessionManager.getHandle,
    .maybe (.inTurn [
      MetadataCatalog.selectFile,
      .maybe (.inTurn [
        locked .states,
        .maybe HttpRangeServer.removeByteSource,
        MetadataCatalog.torrentInfo,
        .maybe (.inTurn [
          MetadataCatalog.getFile,
          .maybe HttpRangeServer.setByteSource,
          locked .states])])])]

def getStreamUrl : LockProg := .maybe TorrentSessionManager.hasTorrent

def getStatusJson (scheduler : Nat) : LockProg :=
  .inTurn [
    TorrentSessionManager.getHandle,
    .maybe (.inTurn [
      MetadataCatalog.selectedFile,
      MetadataCatalog.hasMetadata,
      .maybe OfflineCacheManager.isOfflineReady,
      .guard .states (.maybe (.inTurn [
        StreamingScheduler.currentMode scheduler,
        StreamingScheduler.playheadPiece scheduler,
        StreamingScheduler.activeDeadlines scheduler]))])]

/-- The lock is held over all torrents. -/
def onTick (schedulers : List Nat) : LockProg :=
  .maybe (.guard .states (.inTurn (schedulers.map fun n =>
    .maybe (.inTurn [
      TorrentSessionManager.getHandle,
      .maybe (.inTurn [
        StreamingScheduler.tick n,
        .maybe OfflineCacheManager.onProgressUpdate])]))))

/-- A server that is replaced stops; the first tick runs on the thread that starts the servers. -/
def startServer (run : Nat) (schedulers : List Nat) : LockProg :=
  .maybe (.inTurn [
    HttpRangeServer.stop,
    .maybe (.either HttpRangeServer.stop (.inTurn [
      .start (.io run),
      onTick schedulers]))])

def stopServer (run : Nat) : LockProg :=
  .maybe (.inTurn [
    HttpRangeServer.stop,
    locked .states,
    .maybe (.join (.io run))])

@[simp] def setEventCallback : LockProg := locked .event

end SeekServeEngine

inductive Alert where
  | metadataReceived
  | addTorrent
  | pieceFinished (scheduler : Nat)
  | fileCompleted
  | other -- no handler

namespace AlertDispatcher

@[simp] def on : LockProg := locked .handlers

/-- A handler that throws does so before its first lock. -/
def handle (callback : LockProg) : Alert → LockProg
  | .metadataReceived =>
    .maybe (.inTurn [
      locked .states,
      .maybe (.inTurn [
        MetadataCatalog.onMetadataReceived,
        MetadataCatalog.listFiles,
        .maybe OfflineCacheManager.onTorrentAdded,
        SeekServeEngine.fireEvent callback])])
  | .addTorrent =>
    .either (SeekServeEngine.fireEvent callback)
      (.maybe (.inTurn [
        locked .states,
        .maybe (.inTurn [
          MetadataCatalog.onMetadataReceived,
          MetadataCatalog.listFiles,
          .maybe OfflineCacheManager.onTorrentAdded,
          SeekServeEngine.fireEvent callback])]))
  | .pieceFinished scheduler =>
    .maybe (.guard .states (.maybe (StreamingScheduler.onPieceComplete scheduler)))
  | .fileCompleted =>
    .maybe (.inTurn [OfflineCacheManager.onFileCompleted, SeekServeEngine.fireEvent callback])
  | .other => .skip

/-- Each pass waits for a notice, and runs the handlers of what was popped with the lock held. -/
def run (callback : LockProg) (passes : List (List Alert)) : LockProg :=
  .inTurn (passes.map fun alerts => .inTurn [
    .guard .notify (.wait .notify),
    .maybe (.guard .handlers (.inTurn (alerts.map (handle callback))))])

def stop : LockProg := .maybe (.inTurn [locked .notify, .maybe (.join .alerts)])

end AlertDispatcher

namespace SeekServeEngine

def create (saved : Nat) : LockProg :=
  .inTurn [
    .start .alerts,
    AlertDispatcher.on, AlertDispatcher.on, AlertDispatcher.on, AlertDispatcher.on,
    OfflineCacheManager.listTorrentUris,
    .inTurn (List.replicate saved (.inTurn [
      TorrentSessionManager.addTorrent,
      .maybe OfflineCacheManager.removeTorrentUri]))]

def destroy (run : Nat) : LockProg :=
  .inTurn [stopServer run, AlertDispatcher.stop, HttpRangeServer.stop]

end SeekServeEngine

/-- What an application calls. -/
inductive Call where
  | destroy (run : Nat)
  | addTorrent
  | removeTorrent
  | pauseTorrent
  | resumeTorrent
  | listTorrents
  | listFiles
  | selectFile
  | getStreamUrl
  | getStatusJson (scheduler : Nat)
  | startServer (run : Nat) (schedulers : List Nat)
  | stopServer (run : Nat)
  | setEventCallback

def Call.prog (callback : LockProg) : Call → LockProg
  | .destroy run => SeekServeEngine.destroy run
  | .addTorrent => SeekServeEngine.addTorrent
  | .removeTorrent => SeekServeEngine.removeTorrent
  | .pauseTorrent => SeekServeEngine.pauseTorrent callback
  | .resumeTorrent => SeekServeEngine.resumeTorrent callback
  | .listTorrents => SeekServeEngine.listTorrents
  | .listFiles => SeekServeEngine.listFiles
  | .selectFile => SeekServeEngine.selectFile
  | .getStreamUrl => SeekServeEngine.getStreamUrl
  | .getStatusJson scheduler => SeekServeEngine.getStatusJson scheduler
  | .startServer run schedulers => SeekServeEngine.startServer run schedulers
  | .stopServer run => SeekServeEngine.stopServer run
  | .setEventCallback => SeekServeEngine.setEventCallback

/-- The requests of the control API; the last ones need a torrent that is there. -/
inductive Route where
  | refused -- answered before anything is looked up
  | addTorrent
  | listTorrents
  | stopServer (run : Nat)
  | listCached
  | removeTorrent
  | files
  | select
  | pause
  | resume
  | status
  | streamUrl
  | unknown

namespace ControlApiServer

def sub : Route → LockProg
  | .removeTorrent => TorrentSessionManager.removeTorrent
  | .files => .inTurn [MetadataCatalog.listFiles, .maybe MetadataCatalog.selectedFile]
  | .select => .inTurn [TorrentSessionManager.getHandle, .maybe MetadataCatalog.selectFile]
  | .pause => TorrentSessionManager.getHandle
  | .resume => TorrentSessionManager.getHandle
  | .status =>
    .inTurn [
      TorrentSessionManager.getHandle,
      .maybe (.inTurn [
        MetadataCatalog.selectedFile,
        MetadataCatalog.hasMetadata,
        .maybe OfflineCacheManager.isOfflineReady])]
  | .streamUrl => MetadataCatalog.selectedFile
  | _ => .skip

def handleConnection : Route → LockProg
  | .refused => .skip
  | .addTorrent => TorrentSessionManager.addTorrent
  | .listTorrents =>
    .inTurn [
      TorrentSessionManager.listTorrents,
      .loop (.inTurn [MetadataCatalog.hasMetadata, TorrentSessionManager.getHandle])]
  -- the callback for a shutdown, after the answer was sent
  | .stopServer run => SeekServeEngine.stopServer run
  | .listCached => OfflineCacheManager.listCached
  | route => .inTurn [TorrentSessionManager.hasTorrent, .maybe (sub route)]

end ControlApiServer

/-- What the `io_context` runs. -/
inductive IoHandler where
  | tick (schedulers : List Nat)
  | acceptStream (n : Nat)
  | acceptControl (n : Nat)

/-- A connection over the limit is closed instead. -/
def IoHandler.prog : IoHandler → LockProg
  | .tick schedulers => SeekServeEngine.onTick schedulers
  | .acceptStream n => .maybe (.start (.stream n))
  | .acceptControl n => .maybe (.start (.control n))

/-- What comes in from outside, for every thread. The callback for events is a list of calls. -/
structure Plan where
  callback : List Call
  saved : Nat
  calls : Nat → List Call
  passes : List (List Alert)
  handlers : Nat → List IoHandler
  streams : Nat → Nat × Nat
  routes : Nat → Route
  notices : Nat

/-- An event that the callback itself fires does not get as far as another callback. -/
def Plan.onEvent (plan : Plan) : LockProg := .inTurn (plan.callback.map (Call.prog .skip))

def Plan.prog (plan : Plan) : Thread → LockProg
  -- one thread makes the engine before it calls it
  | .app n =>
    .inTurn [
      if n = 0 then SeekServeEngine.create plan.saved else .skip,
      .inTurn ((plan.calls n).map (Call.prog plan.onEvent))]
  | .alerts => AlertDispatcher.run plan.onEvent plan.passes
  | .io n => .inTurn ((plan.handlers n).map IoHandler.prog)
  | .stream n => HttpRangeServer.handleConnection (plan.streams n).1 (plan.streams n).2
  | .control n => ControlApiServer.handleConnection (plan.routes n)
  -- the function given to `set_alert_notify`
  | .network => .inTurn (List.replicate plan.notices (locked .notify))

/-- A call that neither fires an event nor waits for the dispatcher. -/
def Call.quiet : Call → Bool
  | .destroy _ => false
  | .pauseTorrent => false
  | .resumeTorrent => false
  | .setEventCallback => false
  | _ => true

/-- The order of waiting: the handlers of alerts and the callback come before the lock on the
states, and nothing is locked inside the locks of the last rank. -/
@[simp] def Mutex.rank : Mutex → Nat
  | .handlers => 2
  | .event => 3
  | .states => 5
  | .notify => 6
  | .sessions => 6
  | .catalog => 6
  | .cache => 6
  | .sources => 6
  | .scheduler _ => 6
  | .source _ => 6

/-- Who stops the dispatcher holds nothing; who stops the servers may be in the callback. -/
@[simp] def Thread.rank : Thread → Nat
  | .alerts => 1
  | .io _ => 4
  | _ => 0

def ranks : Ranks Mutex Thread Nat := ⟨Mutex.rank, Thread.rank⟩

@[simp] theorem ranks_lock (m : Mutex) : ranks.lock m = m.rank := rfl

@[simp] theorem ranks_last (t : Thread) : ranks.last t = t.rank := rfl

section order

variable {t : Thread} {held : List Mutex}

theorem above_mono {a b : Nat} (h : ranks.Above t held a) (hab : a ≤ b) :
    ranks.Above t held b :=
  ⟨lt_of_lt_of_le h.1 hab, fun l hl => lt_of_lt_of_le (h.2 l hl) hab⟩

@[simp] theorem above_cons {m : Mutex} {a : Nat} :
    ranks.Above t (m :: held) a ↔ m.rank < a ∧ ranks.Above t held a := by
  unfold Ranks.Above
  simp only [ranks_lock, List.forall_mem_cons]
  tauto

@[simp] theorem above_nil {a : Nat} : ranks.Above t [] a ↔ t.rank < a := by
  simp [Ranks.Above]

@[simp] theorem ordered_locked {m : Mutex} :
    (locked m).Ordered ranks t held ↔ ranks.Above t held m.rank := by
  simp [locked]

namespace SeekServeEngine

theorem ordered_onTick (h : ranks.Above t held 5) (schedulers : List Nat) :
    (onTick schedulers).Ordered ranks t held := by
  have h6 := above_mono h (by decide : 5 ≤ 6)
  simp [onTick, h, h6]

theorem ordered_stopServer (h : ranks.Above t held 4) (run : Nat) :
    (stopServer run).Ordered ranks t held := by
  have h5 := above_mono h (by decide : 4 ≤ 5)
  have h6 := above_mono h (by decide : 4 ≤ 6)
  simp [stopServer, HttpRangeServer.stop, h, h5, h6]

theorem ordered_fireEvent {callback : LockProg} (h : ranks.Above t held 3)
    (hcallback : callback.Ordered ranks t (.event :: held)) :
    (fireEvent callback).Ordered ranks t held := by
  simp [fireEvent, h, hcallback]

end SeekServeEngine

/-- A quiet call waits only above the locks of the dispatcher and of the callback. -/
theorem Call.ordered_of_quiet {c : Call} (hc : c.quiet = true) (callback : LockProg)
    (h : ranks.Above t held 4) : (c.prog callback).Ordered ranks t held := by
  have h5 := above_mono h (by decide : 4 ≤ 5)
  have h6 := above_mono h (by decide : 4 ≤ 6)
  cases c with
  | destroy => cases hc
  | addTorrent =>
    simp [prog, SeekServeEngine.addTorrent, TorrentSessionManager.addTorrent, h6]
  | removeTorrent => simp [prog, SeekServeEngine.removeTorrent, h5, h6]
  | pauseTorrent => cases hc
  | resumeTorrent => cases hc
  | listTorrents => simp [prog, SeekServeEngine.listTorrents, h6]
  | listFiles => simp [prog, SeekServeEngine.listFiles, h6]
  | selectFile => simp [prog, SeekServeEngine.selectFile, h5, h6]
  | getStreamUrl => simp [prog, SeekServeEngine.getStreamUrl, h6]
  | getStatusJson => simp [prog, SeekServeEngine.getStatusJson, h5, h6]
  | startServer run schedulers =>
    have htick := SeekServeEngine.ordered_onTick h5 schedulers
    simp [prog, SeekServeEngine.startServer, HttpRangeServer.stop, htick, h6]
  | stopServer run => exact SeekServeEngine.ordered_stopServer h run
  | setEventCallback => cases hc

/-- Every call may be made while nothing is held. -/
theorem Call.ordered {n : Nat} {callback : LockProg}
    (hcallback : callback.Ordered ranks (.app n) [.event]) (c : Call) :
    (c.prog callback).Ordered ranks (.app n) [] := by
  have hlow : ranks.Above (.app n) [] 4 := by simp
  have hevent : (SeekServeEngine.fireEvent callback).Ordered ranks (.app n) [] := by
    apply SeekServeEngine.ordered_fireEvent _ hcallback
    simp
  cases hc : c.quiet with
  | true => exact ordered_of_quiet hc callback hlow
  | false =>
    cases c with
    | destroy run =>
      have hstop := SeekServeEngine.ordered_stopServer hlow run
      simp [prog, SeekServeEngine.destroy, AlertDispatcher.stop, HttpRangeServer.stop, hstop]
    | pauseTorrent => simp [prog, SeekServeEngine.pauseTorrent, hevent]
    | resumeTorrent => simp [prog, SeekServeEngine.resumeTorrent, hevent]
    | setEventCallback => simp [prog]
    | _ => cases hc

namespace AlertDispatcher

theorem ordered_handle {callback : LockProg}
    (hcallback : callback.Ordered ranks .alerts [.event, .handlers]) (alert : Alert) :
    (handle callback alert).Ordered ranks .alerts [.handlers] := by
  have hevent : (SeekServeEngine.fireEvent callback).Ordered ranks .alerts [.handlers] := by
    apply SeekServeEngine.ordered_fireEvent _ hcallback
    simp
  cases alert with
  | metadataReceived => simp [handle, hevent]
  | addTorrent => simp [handle, hevent]
  | pieceFinished => simp [handle]
  | fileCompleted => simp [handle, hevent]
  | other => simp [handle]

theorem ordered_run {callback : LockProg}
    (hcallback : callback.Ordered ranks .alerts [.event, .handlers])
    (passes : List (List Alert)) : (run callback passes).Ordered ranks .alerts [] := by
  have hhandle := ordered_handle hcallback
  simp [run, hhandle]

end AlertDispatcher

theorem IoHandler.ordered (n : Nat) (handler : IoHandler) :
    handler.prog.Ordered ranks (.io n) [] := by
  cases handler with
  | tick schedulers =>
    apply SeekServeEngine.ordered_onTick
    simp
  | acceptStream => simp [prog]
  | acceptControl => simp [prog]

theorem ControlApiServer.ordered_handleConnection (n : Nat) (route : Route) :
    (handleConnection route).Ordered ranks (.control n) [] := by
  cases route with
  | stopServer run =>
    apply SeekServeEngine.ordered_stopServer
    simp
  | addTorrent => simp [handleConnection, TorrentSessionManager.addTorrent]
  | _ => simp [handleConnection, sub]

namespace Plan

variable {plan : Plan}

theorem ordered_onEvent {t : Thread} {held : List Mutex}
    (hquiet : ∀ c ∈ plan.callback, c.quiet = true)
    (habove : ranks.Above t held 4) : plan.onEvent.Ordered ranks t held := by
  unfold onEvent
  simp only [Prog.ordered_inTurn, List.forall_mem_map]
  intro c hc
  exact Call.ordered_of_quiet (hquiet c hc) .skip habove

/-- Every thread of the engine keeps to the ranks. -/
theorem ordered (hquiet : ∀ c ∈ plan.callback, c.quiet = true) (t : Thread) :
    (plan.prog t).Ordered ranks t [] := by
  cases t with
  | app n =>
    have hcallback : plan.onEvent.Ordered ranks (.app n) [.event] := by
      apply ordered_onEvent hquiet
      simp
    have hcalls := Call.ordered hcallback
    have hcreate : (if n = 0 then SeekServeEngine.create plan.saved else .skip : LockProg).Ordered
        ranks (.app n) [] := by
      split
      · simp [SeekServeEngine.create, TorrentSessionManager.addTorrent]
      · trivial
    simp [prog, hcreate, hcalls]
  | alerts =>
    apply AlertDispatcher.ordered_run
    apply ordered_onEvent hquiet
    simp
  | io n => simp [prog, IoHandler.ordered n]
  | stream n => simp [prog, HttpRangeServer.handleConnection, ByteSource.read]
  | control n => exact ControlApiServer.ordered_handleConnection n _
  | network => simp [prog]

/-- Each of these threads runs its program in some way, and the others do nothing. -/
def Scripts (plan : Plan) (threads : Finset Thread)
    (todo : Thread → List (Act Mutex Thread)) : Prop :=
  (∀ t ∈ threads, (plan.prog t).Trace (todo t)) ∧ ∀ t, t ∉ threads → todo t = []

theorem orderly (hquiet : ∀ c ∈ plan.callback, c.quiet = true) {threads : Finset Thread}
    {todo : Thread → List (Act Mutex Thread)} (hscripts : plan.Scripts threads todo)
    (started : Thread → Bool) : State.Orderly ranks ⟨todo, fun _ => none, started, false⟩ := by
  apply State.orderly_of_runs
  intro t
  by_cases ht : t ∈ threads
  · have hend : ranks.Runs t [] [] := rfl
    have hscript := (hscripts.1 t ht).runs (plan.ordered hquiet t) hend
    rw [List.append_nil] at hscript
    exact hscript
  · rw [hscripts.2 t ht]
    exact rfl

end Plan

end order

theorem trace_locked (m : Mutex) : (locked m).Trace (brief [m]) := .guard .skip

theorem trace_maybe (p : LockProg) : (Prog.maybe p).Trace [] := .left p .skip

namespace AlertDispatcher

/-- A pass over one file that was completed, with what the callback does. -/
def script (as : List (Act Mutex Thread)) : List (Act Mutex Thread) :=
  brief [.notify, .notify] ++ .acquire .handlers :: (brief [.cache] ++
    .acquire .event :: (as ++ [.release .event, .release .handlers]))

theorem trace_script {callback : LockProg} {as : List (Act Mutex Thread)}
    (hcallback : callback.Trace as) : (run callback [[.fileCompleted]]).Trace (script as) := by
  have hevent : (SeekServeEngine.fireEvent callback).Trace
      (.acquire .event :: (as ++ [.release .event])) := .guard (.right _ hcallback)
  have hhandle : (handle callback .fileCompleted).Trace
      (brief [.cache] ++ (.acquire .event :: (as ++ [.release .event]) ++ [])) :=
    .right _ (.seq (trace_locked .cache) (.seq hevent .skip))
  have hpass : (Prog.guard Mutex.handlers
      (.inTurn [handle callback .fileCompleted]) : LockProg).Trace _ :=
    .guard (.seq hhandle .skip)
  have hwait : (Prog.guard Mutex.notify (.wait .notify) : LockProg).Trace
      (brief [.notify, .notify]) := .guard (.wait Mutex.notify)
  have hall : (run callback [[.fileCompleted]]).Trace _ :=
    .seq (.seq hwait (.seq (.right _ hpass) .skip)) .skip
  simp only [List.append_nil, List.cons_append, List.append_assoc] at hall
  exact hall

end AlertDispatcher

/-- No run of the engine gets stuck: as long as a thread has something left to do, some thread
can go on, and whatever was done so far, the threads can all come to their end, with every lock
given back, in as many steps as they have actions. -/
theorem SeekServeEngine.no_deadlock (plan : Plan)
    (hquiet : ∀ c ∈ plan.callback, c.quiet = true) (threads : Finset Thread)
    (todo : Thread → List (Act Mutex Thread)) (hscripts : plan.Scripts threads todo)
    (started : Thread → Bool) (ts : List Thread) (s : State Mutex Thread)
    (hrun : State.system.exec ⟨todo, fun _ => none, started, false⟩ ts = some s) :
    (¬ s.Finished → ∃ t s', s.next t = some s') ∧
      ts.length ≤ ∑ t ∈ threads, (todo t).length ∧
      ∃ us s', State.system.exec s us = some s' ∧ s'.Finished ∧ ∀ m, s'.owner m = none := by
  have horderly := (Plan.orderly hquiet hscripts started).exec hrun
  have hfirst : State.Idle threads ⟨todo, fun _ => none, started, false⟩ := hscripts.2
  obtain ⟨hidle, hwork⟩ := State.work_exec hfirst hrun
  refine ⟨horderly.can_step hidle, ?_, ?_⟩
  · have hall : ts.length ≤ State.work threads ⟨todo, fun _ => none, started, false⟩ := by omega
    exact hall
  · obtain ⟨us, s', hlast, hfinished⟩ := horderly.finishes hidle
    obtain ⟨held, hheld⟩ := horderly.exec hlast
    exact ⟨us, s', hlast, hfinished, hheld.free_of_finished hfinished⟩

/-- The callback stops the servers while their thread ticks. -/
def stopScripts : Thread → List (Act Mutex Thread)
  | .alerts => AlertDispatcher.script (brief [.states] ++ [.join (.io 0)])
  | .io 0 => brief [.states]
  | _ => []

theorem SeekServeEngine.stop_from_callback_returns :
    ∃ us s', State.system.exec ⟨stopScripts, fun _ => none, fun _ => true, false⟩ us = some s' ∧
      s'.Finished ∧ ∀ m, s'.owner m = none := by
  have hcallback : (Prog.inTurn [stopServer 0] : LockProg).Trace
      (brief [.states] ++ [.join (.io 0)]) := by
    have hjoin : (Prog.maybe (.join (.io 0)) : LockProg).Trace _ := .right _ (.join (Thread.io 0))
    have hstop : (stopServer 0).Trace _ :=
      .right _ (.seq (trace_maybe _) (.seq (trace_locked .states) (.seq hjoin .skip)))
    have hall : (Prog.inTurn [stopServer 0] : LockProg).Trace _ := .seq hstop .skip
    exact hall
  have htick : (Prog.inTurn [onTick []] : LockProg).Trace (brief [.states]) :=
    .seq (.right _ (.guard .skip)) .skip
  have hend := no_deadlock
    ⟨[.stopServer 0], 0, fun _ => [], [[.fileCompleted]], fun _ => [.tick []], fun _ => (0, 0),
      fun _ => .refused, 0⟩ (by decide) {.alerts, .io 0} stopScripts (by
      constructor
      · intro t ht
        rcases Finset.mem_insert.mp ht with rfl | ht
        · exact AlertDispatcher.trace_script hcallback
        · rw [Finset.mem_singleton.mp ht]
          exact htick
      · intro t ht
        unfold stopScripts
        split
        · exact absurd (Finset.mem_insert_self _ _) ht
        · exact absurd (Finset.mem_insert_of_mem (Finset.mem_singleton_self _)) ht
        · rfl) (fun _ => true) [] _ rfl
  exact hend.2.2

end SeekServe.Locking
