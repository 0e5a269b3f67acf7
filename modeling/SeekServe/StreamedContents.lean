import SeekServe.CatalogRuns
import SeekServe.ResumedPlayback
import SeekServe.SavePaths

/-!
# Playing a file while the engine runs

A player fetches a file over and over while the engine goes on: torrents come and go, files are
selected, pieces finish, servers start and stop. The layouts that the engine is told are those of
the torrents, so a source maps to the bytes of its file, and as long as torrents are added under the
configured path it reads them where they are stored.
-/

namespace SeekServe

set_option autoImplicit false

/-- The files of the torrents: their paths under the save path, and their bytes. -/
structure TorrentFiles where
  path : TorrentId → Int → CxxString
  content : TorrentId → Int → List Byte

/-- Where libtorrent stores the file of a torrent with this handle. -/
def TorrentFiles.storedAt (files : TorrentFiles) (handle : TorrentHandle) (id : TorrentId)
    (fi : Int) : CxxString :=
  joinPath handle.savePath (files.path id fi)

section Files
variable (files : TorrentFiles)

/-- The layout is that of the torrent. -/
structure TorrentInfo.LaysOut (ti : TorrentInfo) (id : TorrentId) : Prop where
  layout : ti.layout.WellFormed
  size : ∀ fi, 0 ≤ fi → fi < ti.layout.numFiles →
    ti.layout.fileSize fi = (files.content id fi).length
  path : ∀ fi, 0 ≤ fi → fi < ti.layout.numFiles → ti.layout.filePath fi = files.path id fi

def Op.LaysOut (op : Op) : Prop :=
  ∀ id ti, op.announcement = some (id, ti) → ti.LaysOut files id

structure TorrentEntry.LaysOut (entry : TorrentEntry) (id : TorrentId) : Prop where
  info : entry.info.LaysOut files id
  files : entry.files = entry.info.fileInfos

def MetadataCatalog.LaysOut (c : MetadataCatalog) : Prop :=
  ∀ id entry, c.catalog.lookup id = some entry → entry.LaysOut files id

/-- The source maps to the bytes of the selected file, and reads where it is stored. -/
structure Held.Maps (held : Held) (id : TorrentId) : Prop where
  mapper : held.source.mapper.WellFormed
  size : held.source.fileSize = (files.content id held.selectedFile).length
  path : held.source.filePath = files.storedAt held.source.handle id held.selectedFile

/-- All layouts and all sources of the engine are those of the torrents. -/
structure SeekServeEngine.LaysOut (e : SeekServeEngine) : Prop where
  catalog : e.catalog.LaysOut files
  held : ∀ id held, e.serving.held id = some held → held.Maps files id

end Files

namespace MetadataCatalog
variable {files : TorrentFiles} {c c' : MetadataCatalog} {removedIds : List TorrentId} {ev : Event}

theorem LaysOut.step (h : c.LaysOut files) (hev : ev.op.LaysOut files)
    (hstep : c.Changes removedIds ev c') : c'.LaysOut files := by
  cases hstep with
  | same => exact h
  | announced id ti hann hnot =>
    intro id' entry hentry
    unfold MetadataCatalog.onMetadataReceived at hentry
    split at hentry
    · exact h id' entry hentry
    · simp only [AssocMap.lookup_insert_eq] at hentry
      split at hentry
      · rename_i hid
        cases hentry
        exact ⟨hid ▸ hev id ti hann, rfl⟩
      · exact h id' entry hentry
  | selected id fi =>
    intro id' entry hentry
    unfold MetadataCatalog.selectFile at hentry
    split at hentry
    · exact h id' entry hentry
    · rename_i old hold
      split at hentry
      · exact h id' entry hentry
      · simp only [AssocMap.lookup_insert_eq] at hentry
        split at hentry
        · rename_i hid
          cases hentry
          have hsame := h id old hold
          exact hid ▸ ⟨hsame.info, hsame.files⟩
        · exact h id' entry hentry
  | removed id deleteFiles hop =>
    intro id' entry hentry
    exact h id' entry (AssocMap.lookup_of_lookup_erase hentry).2
  | restarted hop =>
    intro id entry hentry
    cases hentry

/-- A file that can be selected is a file of the layout. -/
theorem LaysOut.getFile (h : c.LaysOut files) {id : TorrentId} {fi : Int} {ti : TorrentInfo}
    {file : FileInfo} (hti : c.torrentInfo id = some ti) (hfile : c.getFile id fi = .ok file) :
    0 ≤ fi ∧ fi < ti.layout.numFiles ∧ file.path = ti.layout.filePath fi := by
  obtain ⟨entry, hentry, rfl⟩ := Option.map_eq_some_iff.mp hti
  have hfiles := (h id entry hentry).files
  unfold MetadataCatalog.getFile at hfile
  simp only [hentry, TorrentEntry.file] at hfile
  split at hfile
  · cases hfile
  · split at hfile
    · cases hfile
    · rename_i hget
      cases hfile
      rw [hfiles] at hget
      obtain ⟨hlt, rfl⟩ := TorrentInfo.getElem?_fileInfos hget
      have hfi : ((fi.toNat : Nat) : Int) = fi := by omega
      unfold FileStorage.numFiles
      refine ⟨by omega, by omega, ?_⟩
      rw [← hfi]
      rfl

end MetadataCatalog

namespace SeekServeEngine

theorem held_dropPreviousSource (e : SeekServeEngine) (id : TorrentId) :
    (e.dropPreviousSource id).serving.held = e.serving.held := by
  unfold dropPreviousSource
  split
  · split <;> rfl
  · rfl

/-- A selection that succeeds is one that the catalog accepts. -/
theorem selectFile_catalog {env : Env} {e : SeekServeEngine} {id : TorrentId} {fi : Int}
    (h : (e.selectFile env id fi).1 = .ok ()) : (e.catalog.selectFile id fi).1 = .ok () := by
  unfold selectFile at h
  split at h
  · cases h
  · cases hsel : e.catalog.selectFile id fi with
    | mk result catalog =>
      rw [hsel] at h
      cases result with
      | error err => cases h
      | ok u => rfl

theorem LaysOut.selectFile {files : TorrentFiles} {config : Config} {e : SeekServeEngine}
    (h : e.LaysOut files) (hstored : e.StoredIn config) (env : Env) (id : TorrentId) (fi : Int)
    {id' : TorrentId} {held : Held}
    (hheld : (e.selectFile env id fi).2.serving.held id' = some held) : held.Maps files id' := by
  rcases selectFile_cases env e id fi with
    ⟨err, catalog, heq, _⟩ | ⟨handle, ti, hhandle, _, hti, heq⟩
  · rw [heq] at hheld
    exact h.held id' held hheld
  · have hok := congrArg Prod.fst heq
    obtain ⟨file, hfile⟩ :=
      MetadataCatalog.exists_getFile_of_selectFile (selectFile_catalog hok)
    obtain ⟨h0, hlt, hname⟩ := h.catalog.getFile hti hfile
    obtain ⟨entry, hentry, rfl⟩ := Option.map_eq_some_iff.mp hti
    have hinfo := (h.catalog id entry hentry).info
    obtain ⟨handle', file', state, hhandle', hfile', hstate, hpath⟩ :=
      hstored.readsFromDownload env id fi hok
    cases hhandle.symm.trans hhandle'
    cases hfile.symm.trans hfile'
    rw [heq] at hheld hstate
    rw [lookup_publish] at hstate
    cases hstate
    obtain ⟨path, hpub⟩ := serving_publish
      ({ e with catalog := (e.catalog.selectFile id fi).2 }.dropPreviousSource id) id handle
      (({ e with catalog := (e.catalog.selectFile id fi).2 }.dropPreviousSource id).newState
        env id fi handle entry.info)
    rw [hpub] at hheld
    simp only [Function.update_apply, held_dropPreviousSource] at hheld
    split at hheld
    · rename_i hid
      cases hheld
      rw [hid]
      refine ⟨⟨hinfo.layout, h0, hlt⟩, hinfo.size fi h0 hlt, hpath.trans ?_⟩
      rw [hname, hinfo.path fi h0 hlt]
      rfl
    · exact h.held id' held hheld

theorem LaysOut.step {files : TorrentFiles} {config : Config} {e : SeekServeEngine}
    (h : e.LaysOut files) (hstored : e.StoredIn config) {ev : Event}
    (hev : ev.op.LaysOut files) : (e.step ev).2.LaysOut files := by
  refine ⟨h.catalog.step hev (catalog_step e ev), ?_⟩
  intro id held hheld
  rcases held_step hheld with ⟨hold, _, _⟩ | ⟨fi, hop, _, _⟩
  · exact h.held id held hold
  · unfold SeekServeEngine.step at hheld
    simp only [hop] at hheld
    exact h.selectFile hstored ev.env id fi hheld

theorem laysOut_create {files : TorrentFiles} (env : Env) (config : Config)
    (cache : OfflineCacheManager) : (create env config cache).LaysOut files := by
  constructor
  · obtain ⟨sessions, cache', hnew⟩ := create_eq env config cache
    rw [hnew]
    intro id entry hentry
    cases hentry
  · intro id held hheld
    rw [serving_create] at hheld
    cases hheld

end SeekServeEngine

def StreamFile.content (files : TorrentFiles) (file : StreamFile) : List Byte :=
  files.content file.id file.fi

/-- The path under which libtorrent stores the file of a source. -/
def StreamFile.stored (files : TorrentFiles) (file : StreamFile) (src : ByteSource) : CxxString :=
  files.storedAt src.handle file.id file.fi

/-- The engine, and a player of one of its streams. -/
structure Viewing where
  engine : SeekServeEngine
  player : Player

inductive ViewingOp where
  | engine (ev : Event)
  | fetch (token : CxxString) (range : Option CxxString) (io : ConnectionIo)

namespace Viewing

/-- One connection of the player, from its request to its end. -/
def fetch (v : Viewing) (token : CxxString) (range : Option CxxString) (io : ConnectionIo) :
    Viewing :=
  match v.engine.httpServer with
  | none => v
  | some server =>
    { v with
      player := v.player.accept (server.handleConnection io (v.player.request token range)) }

def step (v : Viewing) : ViewingOp → Unit × Viewing
  | .engine ev => ((), { v with engine := (v.engine.step ev).2 })
  | .fetch token range io => ((), v.fetch token range io)

def machine : Runs.Machine Viewing ViewingOp Unit := ⟨step⟩

def start (env : Env) (config : Config) (cache : OfflineCacheManager) (file : StreamFile) :
    Viewing :=
  ⟨.create env config cache, ⟨file, []⟩⟩

section Run
variable (files : TorrentFiles)

/-- New torrents are added under the configured path, the alerts bring their layouts, and a read of
the stored file that succeeds found there what the index promised. -/
def Sound (v : Viewing) : ViewingOp → Prop
  | .engine ev => ev.op.LaysOut files ∧ v.engine.AddsToConfiguredPath ev
  | .fetch _ _ io => ∀ server entry, v.engine.httpServer = some server →
      server.registered v.player.file.id v.player.file.fi = some entry →
      entry.source.filePath = v.player.file.stored files entry.source →
      ∀ k offset len data, io.read k offset len = .ok data →
        entry.source.Returns (v.player.file.content files) offset len data

structure Inv (config : Config) (file : StreamFile) (v : Viewing) : Prop where
  laysOut : v.engine.LaysOut files
  stored : v.engine.StoredIn config
  tracks : ∃ log, v.engine.serving.Tracks log
  plays : v.player.file = file
  has : v.player.Has (file.content files)

variable {files} {config : Config} {file : StreamFile} {v : Viewing}

/-- The source that the server has under the player's file maps to its content. -/
theorem Inv.source (h : Inv files config file v) {server : HttpRangeServer} {entry : SourceEntry}
    (hserver : v.engine.httpServer = some server)
    (hreg : server.registered file.id file.fi = some entry) :
    entry.source.mapper.WellFormed ∧ entry.source.fileSize = (file.content files).length ∧
      entry.source.filePath = file.stored files entry.source := by
  obtain ⟨log, htracks⟩ := h.tracks
  obtain ⟨held, hheld, hfile, hsource, _⟩ :=
    htracks.source file.id file.fi entry ⟨server, hserver, hreg⟩
  obtain ⟨hm, hsize, hpath⟩ := h.laysOut.held file.id held hheld
  rw [hfile] at hsize hpath
  rw [← hsource]
  exact ⟨hm, hsize, hpath⟩

theorem Inv.fetch (h : Inv files config file v) (hsize : (file.content files).length < 2 ^ 63)
    {token : CxxString} {range : Option CxxString} {io : ConnectionIo}
    (hsound : Sound files v (.fetch token range io)) :
    Inv files config file (v.fetch token range io) := by
  unfold Viewing.fetch
  split
  · exact h
  · rename_i server hserver
    refine ⟨h.laysOut, h.stored, h.tracks, ?_, ?_⟩
    · simp only [Player.file_accept]
      exact h.plays
    · apply Player.has_accept h.has hsize
      intro entry hreg
      rw [h.plays] at hreg
      obtain ⟨hm, hlength, hpath⟩ := h.source hserver hreg
      refine ⟨hlength, readsFile_of_returns hm hlength ?_⟩
      intro k offset len data hread
      rw [← h.plays] at hreg hpath
      have hreturns := hsound server entry hserver hreg hpath k offset len data hread
      rw [h.plays] at hreturns
      exact hreturns

theorem Inv.step (h : Inv files config file v) (hsize : (file.content files).length < 2 ^ 63)
    {op : ViewingOp} (hsound : Sound files v op) : Inv files config file (v.step op).2 := by
  cases op with
  | engine ev =>
    obtain ⟨log, htracks⟩ := h.tracks
    exact ⟨h.laysOut.step h.stored hsound.1, SeekServeEngine.storedIn_step h.stored hsound.2,
      ⟨_, SeekServeEngine.tracks_step htracks ev⟩, h.plays, h.has⟩
  | fetch token range io => exact h.fetch hsize hsound

theorem inv_start (env : Env) (config : Config) (cache : OfflineCacheManager) (file : StreamFile) :
    Inv files config file (start env config cache file) := by
  refine ⟨SeekServeEngine.laysOut_create env config cache,
    SeekServeEngine.storedIn_create env config cache, ⟨{}, ?_⟩, rfl, List.nil_prefix⟩
  change (SeekServeEngine.create env config cache).serving.Tracks {}
  rw [SeekServeEngine.serving_create]
  exact Serving.Tracks.initial

end Run

/-- In every run a player has the beginning of the file and nothing else; once all pieces of the
file are complete its reads do not wait, a connection that brings a byte brings the player on, and
one that is not cut brings the rest. -/
theorem player_gets_file (files : TorrentFiles) (env : Env) (config : Config)
    (cache : OfflineCacheManager) (file : StreamFile)
    (hsize : (file.content files).length < 2 ^ 63) (ops : List ViewingOp)
    (hops : machine.EachStep (Sound files) (start env config cache file) ops) :
    machine.Always (fun v => v.player.Has (file.content files)) (start env config cache file) ops ∧
    ∀ server entry state,
      let v := machine.run (start env config cache file) ops
      v.engine.httpServer = some server → server.registered file.id file.fi = some entry →
      v.engine.states.lookup file.id = some state → entry.source.Downloaded state.avail →
      (∀ (offset len : Int) history acts s, 0 ≤ offset → 1 ≤ len →
        offset + len ≤ (file.content files).length → .cancel ∉ history →
        (entry.source.reader offset len).exec
          (ByteSource.started ⟨state.avail, false, .entry⟩ history) acts = some s →
        (entry.source.reader offset len).EachStep
          (entry.source.Undisturbed (file.stored files entry.source) (file.content files))
          (ByteSource.started ⟨state.avail, false, .entry⟩ history) acts →
        entry.source.Prompt offset len (file.content files) acts s) ∧
      ∀ io, '&' ∉ server.authToken →
        Brings io entry.source state.avail (file.stored files entry.source) (file.content files) →
        (v.player.received.length < (file.content files).length → v.player.received.length <
          (v.fetch server.authToken (some v.player.rest) io).player.received.length) ∧
        ∀ range, range = none ∨ range = some v.player.rest → (∀ k, io.write k = none) →
          (v.fetch server.authToken range io).player.received = file.content files := by
  have halways : machine.Always (Inv files config file) (start env config cache file) ops := by
    apply machine.always_of_eachStep (Inv files config file) _ (Sound files) _ (fun v h => h)
      (inv_start env config cache file) hops
    intro v op h hsound
    exact h.step hsize hsound
  refine ⟨fun pre hpre => (halways pre hpre).has, ?_⟩
  intro server entry state v hserver hreg hstate hdown
  have hinv : Inv files config file v := halways ops List.prefix_rfl
  obtain ⟨hm, hlength, hpath⟩ := hinv.source hserver hreg
  refine ⟨?_, ?_⟩
  · intro offset len history acts s h0 hlen hend hhistory hs hacts
    exact entry.source.prompt_of_undisturbed offset len hm h0 hlen (hlength ▸ hend) hpath rfl
      (ByteSource.ready_of_downloaded hm hdown h0 hlen (hlength ▸ hend) hhistory) hs hacts
  · intro io hauth hio
    have hreads := hio.readsAll hm hlength hpath hdown
    rw [← hinv.plays] at hreg
    unfold fetch
    rw [hserver]
    constructor
    · intro hmissing
      exact Player.length_accept_rest hsize hauth hreg hlength hreads hio.header hio.first hmissing
    · intro range hrange hwhole
      exact Player.received_accept hsize hauth hreg hlength hinv.has hreads hio.header hwhole hrange

/-- Events of the engine in front of a run. -/
theorem eachStep_engine {files : TorrentFiles} {evs : List Event}
    (hevs : ∀ ev ∈ evs, ev.op.LaysOut files ∧ ∀ e : SeekServeEngine, e.AddsToConfiguredPath ev)
    {v : Viewing} {ops : List ViewingOp}
    (hops : machine.EachStep (Sound files) (machine.run v (evs.map .engine)) ops) :
    machine.EachStep (Sound files) v (evs.map .engine ++ ops) := by
  induction evs generalizing v with
  | nil => exact hops
  | cons ev evs ih =>
    obtain ⟨hlays, hadds⟩ := hevs ev List.mem_cons_self
    refine ⟨⟨hlays, hadds v.engine⟩, ?_⟩
    exact ih (fun e he => hevs e (List.mem_cons_of_mem ev he)) hops

def sampleFile : StreamFile :=
  .first (sampleId 1) (by decide) (List.all_eq_true.mp (by decide))

def sampleFiles : TorrentFiles :=
  ⟨fun _ _ => "a.mp4".toList, fun _ _ => HttpRangeServer.tenBytesOnDisk⟩

/-- The first read is answered, and the connection ends after three bytes of it. -/
def cutAfterThree : ConnectionIo where
  headerFails := false
  read _ offset len :=
    if offset = 0 ∧ len = 10 then .ok HttpRangeServer.tenBytesOnDisk
    else .error .timeoutWaitingForPiece
  write _ := some 3

def finishSample : List Op :=
  addSample 1 "a.torrent".toList ++
    [.startServer, .selectFile (sampleId 1) 0, .pieceFinished (sampleHash 1) 0,
      .pieceFinished (sampleHash 1) 1, .pieceFinished (sampleHash 1) 2]

def sampleViewing : List ViewingOp :=
  (sampleEvents finishSample).map .engine ++ [.fetch [] none cutAfterThree]

def sampleSource : ByteSource where
  addr := 0
  handle := ⟨0, "./downloads".toList⟩
  fileIdx := 0
  filePath := "./downloads/a.mp4".toList
  mapper := ⟨sampleInfo.layout, 0⟩

theorem returns_sampleSource :
    sampleSource.Returns HttpRangeServer.tenBytesOnDisk 0 10 HttpRangeServer.tenBytesOnDisk := by
  refine ⟨⟨(PieceAvailabilityIndex.reset 3 4 2).populate fun _ => true, false, .entry⟩,
    [.step, .step, .step, .step, .step, .step, .step,
      .readFile (some HttpRangeServer.tenBytesOnDisk)], _, rfl, rfl, ?_, rfl⟩
  apply Runs.System.EachStep.of_forall
  intro a ha u file hfile i _
  subst hfile
  simp only [List.mem_cons, reduceCtorEq, ByteSource.Action.readFile.injEq, Option.some.injEq,
    List.not_mem_nil, or_false, false_or] at ha
  rw [ha]

theorem laysOut_sampleInfo (id : TorrentId) : sampleInfo.LaysOut sampleFiles id := by
  have hzero : ∀ fi : Int, 0 ≤ fi → fi < sampleInfo.layout.numFiles → fi = 0 := by
    intro fi h0 hlt
    have hone : sampleInfo.layout.numFiles = 1 := rfl
    omega
  refine ⟨FileStorage.wellFormed_ofFiles (by decide) (by decide), ?_, ?_⟩
  · intro fi h0 hlt
    rw [hzero fi h0 hlt]
    rfl
  · intro fi h0 hlt
    rw [hzero fi h0 hlt]
    rfl

theorem sound_sampleEvents : ∀ ev ∈ sampleEvents finishSample,
    ev.op.LaysOut sampleFiles ∧ ∀ e : SeekServeEngine, e.AddsToConfiguredPath ev := by
  intro ev hev
  constructor
  · intro id ti hann
    simp only [sampleEvents, finishSample, addSample, List.cons_append, List.nil_append,
      List.map_cons, List.map_nil, List.mem_cons, List.not_mem_nil, or_false] at hev
    rcases hev with rfl | rfl | rfl | rfl | rfl | rfl | rfl <;> cases hann
    exact laysOut_sampleInfo _
  · intro e params ih hadd _ _
    simp only [sampleEvents, finishSample, addSample, List.cons_append, List.nil_append,
      List.map_cons, List.map_nil, List.mem_cons, List.not_mem_nil, or_false] at hev
    rcases hev with rfl | rfl | rfl | rfl | rfl | rfl | rfl <;> cases hadd
    exact Or.inl rfl

theorem wellFormed_sampleSource : sampleSource.mapper.WellFormed :=
  ⟨FileStorage.wellFormed_ofFiles (by decide) (by decide), by decide, by decide⟩

/-- The server serves `sampleSource` before and after the player's connection. -/
theorem registered_sample {v : Viewing}
    (h : v.engine.httpServer.map (fun server =>
      ((server.registered (sampleId 1) 0).map SourceEntry.source, server.authToken)) =
        some (some sampleSource, [])) :
    ∃ server entry, v.engine.httpServer = some server ∧
      server.registered (sampleId 1) 0 = some entry ∧ entry.source = sampleSource ∧
      server.authToken = [] := by
  obtain ⟨server, hserver, hfields⟩ := Option.map_eq_some_iff.mp h
  obtain ⟨hentry, htoken⟩ := Prod.mk.inj hfields
  obtain ⟨entry, hreg, hsource⟩ := Option.map_eq_some_iff.mp hentry
  exact ⟨server, entry, hserver, hreg, hsource, htoken⟩

theorem sound_sampleViewing :
    machine.EachStep (Sound sampleFiles) (start sampleEnv {} .empty sampleFile)
      sampleViewing := by
  apply eachStep_engine sound_sampleEvents
  refine ⟨?_, trivial⟩
  obtain ⟨server, entry, hserver, hreg, hsource, _⟩ := registered_sample
    (v := machine.run (start sampleEnv {} .empty sampleFile)
      ((sampleEvents finishSample).map .engine)) rfl
  intro server' entry' hserver' hreg' _ k offset len data hread
  cases hserver.symm.trans hserver'
  cases hreg.symm.trans hreg'
  simp only [cutAfterThree] at hread
  split at hread
  · rename_i hfirst
    obtain ⟨rfl, rfl⟩ := hfirst
    cases hread
    rw [hsource]
    exact returns_sampleSource
  · cases hread

/-- The player has some of the ten bytes after the connection that was cut, and all of them after
one for the rest. -/
theorem player_gets_sampleFile :
    let v := machine.run (start sampleEnv {} .empty sampleFile) sampleViewing
    v.player.Has HttpRangeServer.tenBytesOnDisk ∧
      (v.fetch [] (some v.player.rest)
        (HttpRangeServer.downloaded HttpRangeServer.tenBytesOnDisk fun _ => none)).player.received =
        HttpRangeServer.tenBytesOnDisk := by
  intro v
  obtain ⟨server, entry, hserver, hreg, hsource, htoken⟩ := registered_sample (v := v) rfl
  have havail : (v.engine.states.lookup (sampleId 1)).map (fun state =>
      ((List.range 3).map fun p : Nat => state.avail.isComplete p)) = some [true, true, true] := by
    decide
  obtain ⟨state, hstate, hcomplete⟩ := Option.map_eq_some_iff.mp havail
  have hdown : entry.source.Downloaded state.avail := by
    rw [hsource]
    intro p h0 hlt
    have hfirst : sampleSource.mapper.firstPiece = 0 := by decide
    have hend : sampleSource.mapper.endPiece = 3 := by decide
    have hall : ∀ i : Nat, i < 3 → state.avail.isComplete i = true := by
      intro i hi
      have hget := congrArg (fun flags => flags[i]?) hcomplete
      have htrue : [true, true, true][i]? = some true := by
        rcases i with _ | _ | _ | i
        · rfl
        · rfl
        · rfl
        · omega
      simp only [List.getElem?_map, List.getElem?_range hi, Option.map_some, htrue,
        Option.some.injEq] at hget
      exact hget
    have hp := hall p.toNat (by omega)
    rwa [Int.toNat_of_nonneg (by omega)] at hp
  have h := player_gets_file sampleFiles sampleEnv {} .empty sampleFile (by decide) sampleViewing
    sound_sampleViewing
  refine ⟨h.1 sampleViewing List.prefix_rfl, ?_⟩
  have hio : Brings (HttpRangeServer.downloaded HttpRangeServer.tenBytesOnDisk fun _ => none)
      entry.source state.avail (sampleFile.stored sampleFiles entry.source)
      HttpRangeServer.tenBytesOnDisk := by
    apply brings_downloaded _ _ _ hdown (by simp)
    · rw [hsource]
      exact wellFormed_sampleSource
    · rw [hsource]
      decide
    · rw [hsource]
      decide
  have hlast := (h.2 server entry state hserver hreg hstate hdown).2 _ (by rw [htoken]; decide) hio
  rw [htoken] at hlast
  exact hlast.2 (some v.player.rest) (Or.inr rfl) fun _ => rfl

end Viewing

end SeekServe
