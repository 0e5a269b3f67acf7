import SeekServe.Lib.Runs
import SeekServe.Engine

/-!
# Runs of the engine

Every call, alert, tick, control request and restart is one event; a run is a list of them.
-/

namespace SeekServe

set_option autoImplicit false

inductive Op where
  | addTorrent (uri savePath : CxxString)
  | removeTorrent (id : TorrentId) (deleteFiles : Bool)
  | selectFile (id : TorrentId) (fi : Int)
  | startServer
  | stopServer
  | metadataReceived (ih : InfoHash) (ti : TorrentInfo)
  | torrentAdded (ih : InfoHash) (result : Option (Option TorrentInfo))
  | pieceFinished (ih : InfoHash) (piece : Int)
  | fileCompleted (ih : InfoHash) (fi : Int)
  | tick
  | control (req : HttpRequest)
  | restart

def Op.isControl : Op → Bool
  | .control _ => true
  | _ => false

/-- The hashes of the torrent whose metadata an alert brings. -/
def Op.metadataHash : Op → Option InfoHash
  | .metadataReceived ih _ => some ih
  | .torrentAdded ih (some (some _)) => some ih
  | _ => none

/-- The operation adds no entry to the catalog and takes none away. -/
def Op.KeepsMetadata (op : Op) : Prop :=
  (∀ id deleteFiles, op ≠ .removeTorrent id deleteFiles) ∧ op.metadataHash = none ∧ op ≠ .restart

structure Event where
  env : Env
  op : Op

inductive Reply where
  | added (result : Result TorrentId)
  | done (result : Result Unit)
  | port (result : Result Nat)
  | control (reply : Option ControlReply)
  | none

namespace SeekServeEngine

def step (e : SeekServeEngine) (ev : Event) : Reply × SeekServeEngine :=
  match ev.op with
  | .addTorrent uri savePath =>
    let (result, e) := e.addTorrent ev.env uri savePath
    (.added result, e)
  | .removeTorrent id _ =>
    let (result, e) := e.removeTorrent id
    (.done result, e)
  | .selectFile id fi =>
    let (result, e) := e.selectFile ev.env id fi
    (.done result, e)
  | .startServer =>
    let (result, e) := e.startServer ev.env
    (.port result, e)
  | .stopServer => (.none, e.stopServer)
  | .metadataReceived ih ti => (.none, e.onMetadataReceived ev.env ih ti)
  | .torrentAdded ih result => (.none, e.onTorrentAdded ev.env ih result)
  | .pieceFinished ih piece => (.none, e.onPieceFinished ih piece)
  | .fileCompleted ih fi => (.none, e.onFileCompleted ev.env ih fi)
  | .tick => (.none, e.onTick ev.env)
  | .control req =>
    let (reply, e) := e.control ev.env req
    (.control reply, e)
  | .restart => (.none, e.restart ev.env)

def machine : Runs.Machine SeekServeEngine Event Reply := ⟨step⟩

theorem onTorrentAdded_cases (env : Env) (e : SeekServeEngine) (ih : InfoHash)
    (result : Option (Option TorrentInfo)) :
    (∃ ti, result = some (some ti) ∧
        e.onTorrentAdded env ih result = e.onMetadataReceived env ih ti) ∨
      (∀ ti, result ≠ some (some ti)) ∧ e.onTorrentAdded env ih result = e := by
  unfold onTorrentAdded
  split
  · exact Or.inl ⟨_, rfl, rfl⟩
  · exact Or.inr ⟨by simp, rfl⟩
  · exact Or.inr ⟨by simp, rfl⟩

/-- The constructor restores torrents into the session and drops rows; it does nothing else. -/
theorem create_eq (env : Env) (config : Config) (cache : OfflineCacheManager) :
    ∃ sessions cache', create env config cache =
      { fresh config cache with sessions := sessions, cache := cache' } := by
  unfold create
  generalize cache.listTorrentUris = rows
  have hfold : ∀ sessions cache', ∃ sessions' cache'',
      rows.foldl (restoreRow env)
          { fresh config cache with sessions := sessions, cache := cache' } =
        { fresh config cache with sessions := sessions', cache := cache'' } := by
    induction rows with
    | nil =>
      intro sessions cache'
      exact ⟨sessions, cache', rfl⟩
    | cons row rows ih =>
      intro sessions cache'
      rw [List.foldl_cons, restoreRow]
      split
      · exact ih _ _
      · exact ih _ _
  exact hfold _ _

end SeekServeEngine

section Samples

/-! Two torrents of one file each, on a machine where everything goes well. -/

def sampleHash (b : UInt8) : InfoHash := ⟨some (Vector.replicate 20 b), none⟩

def sampleId (b : UInt8) : TorrentId := infohashToHex (sampleHash b)

def sampleInfo : TorrentInfo := ⟨.ofFiles 4 [⟨"a.mp4".toList, 10⟩]⟩

def sampleEnv : Env where
  load :=
    { parseMagnetUri := fun _ => none
      loadTorrentFile := fun uri =>
        if uri = "a.torrent".toList then some (sampleHash 1)
        else if uri = "b.torrent".toList then some (sampleHash 2)
        else none }
  json _ := .object (some (.string "a.torrent".toList)) none
  now := 0
  streamBind := .port 8080
  apiBind := .port 8081
  pieces _ := false

def sampleEvents (ops : List Op) : List Event := ops.map fun op => ⟨sampleEnv, op⟩

def sampleRun (ops : List Op) : SeekServeEngine :=
  SeekServeEngine.machine.run (.create sampleEnv {} .empty) (sampleEvents ops)

def addSample (b : UInt8) (uri : CxxString) : List Op :=
  [.addTorrent uri [], .metadataReceived (sampleHash b) sampleInfo]

end Samples

end SeekServe
