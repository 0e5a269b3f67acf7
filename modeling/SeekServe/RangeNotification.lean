import SeekServe.Records
import SeekServe.SliceDelivery

/-!
# Who hears of a range request

The stream server has one range callback. It is right for the torrent whose file was
selected last, and for no other.
-/

namespace SeekServe

set_option autoImplicit false

def ConnEvent.notification : ConnEvent → Option (RangeCallback × ByteRange × TorrentId × Int)
  | .notify callback range id fi => some (callback, range, id, fi)
  | _ => none

def notifications (events : List ConnEvent) :
    List (RangeCallback × ByteRange × TorrentId × Int) :=
  events.filterMap ConnEvent.notification

theorem notifications_streamBody (io : ConnectionIo) (header : HttpResponse) (start length : Int) :
    notifications (streamBody io header start length) = [] := by
  have hchunks := filterMap_streamChunks (f := ConnEvent.notification) (by
    intro e he
    cases e with
    | notify => cases he
    | respond | read | send => rfl) io 0 start length
  unfold notifications streamBody
  split
  · rfl
  · exact hchunks

namespace HttpRangeServer

theorem of_mem_notifications {s : HttpRangeServer} {range : ByteRange} {pt : ParsedTarget}
    {rest : List ConnEvent} (hrest : notifications rest = [])
    {n : RangeCallback × ByteRange × TorrentId × Int}
    (h : n ∈ notifications (s.notifyRange range pt ++ rest)) :
    s.rangeCallback = some n.1 ∧ n.2.2 = (pt.torrentId, pt.fileIndex) := by
  unfold notifications at h hrest
  rw [List.filterMap_append, hrest, List.append_nil] at h
  obtain ⟨e, he, hn⟩ := List.mem_filterMap.mp h
  obtain ⟨callback, hcb, rfl⟩ := mem_notifyRange he
  cases hn
  exact ⟨hcb, rfl⟩

/-- The callback is called for registered files only, and it is the server's one callback. -/
theorem of_mem_notifications_handleConnection {s : HttpRangeServer} {io : ConnectionIo}
    {req : HttpRequest} {n : RangeCallback × ByteRange × TorrentId × Int}
    (h : n ∈ notifications (s.handleConnection io req)) :
    s.rangeCallback = some n.1 ∧ ∃ entry, s.registered n.2.2.1 n.2.2.2 = some entry := by
  unfold handleConnection at h
  split at h
  · cases h
  split at h
  · cases h
  rename_i pt hpt
  split at h
  · cases h
  split at h
  · cases h
  rename_i entry hentry
  have hserve : s.rangeCallback = some n.1 ∧ n.2.2 = (pt.torrentId, pt.fileIndex) := by
    unfold serveEntry at h
    simp only at h
    split at h
    · unfold serveWhole at h
      apply of_mem_notifications _ h
      split
      · rfl
      · exact notifications_streamBody io _ _ _
    · unfold serveRange at h
      split at h
      · cases h
      · apply of_mem_notifications _ h
        split
        · rfl
        · exact notifications_streamBody io _ _ _
  rw [hserve.2]
  exact ⟨hserve.1, entry, hentry⟩

end HttpRangeServer

namespace SeekServeEngine

/-- The torrent states hold the handles that the session has for their torrents. -/
def HandlesAgree (e : SeekServeEngine) : Prop :=
  ∀ id held, e.serving.held id = some held → e.sessions.getHandle id = some held.source.handle

theorem handlesAgree_create (env : Env) (config : Config) (cache : OfflineCacheManager) :
    (create env config cache).HandlesAgree := by
  intro id held hh
  rw [serving_create] at hh
  cases hh

theorem handlesAgree_step {e : SeekServeEngine} (h : e.HandlesAgree) {ev : Event}
    (hev : ev.op.isControl = false) : (e.step ev).2.HandlesAgree := by
  intro id held hheld
  have hbefore : e.sessions.getHandle id = some held.source.handle := by
    rcases held_step hheld with ⟨hold, _⟩ | ⟨_, _, hhandle, _⟩
    · exact h id held hold
    · exact hhandle
  cases records_step e ev with
  | added uri savePath hop hrecords =>
    have hsessions : (e.step ev).2.sessions =
        (e.sessions.addTorrent ev.env.load ⟨uri, savePath⟩).2 := congrArg Records.sessions hrecords
    rw [hsessions]
    exact TorrentSessionManager.getHandle_addTorrent_of_some hbefore ev.env.load _
  | removed id' deleteFiles hop hrecords =>
    have hsessions : (e.step ev).2.sessions = (e.sessions.removeTorrent id').2 :=
      congrArg Records.sessions hrecords
    have hid := ne_of_held_removeTorrent hheld hop
    rw [hsessions, TorrentSessionManager.getHandle_removeTorrent, if_neg hid]
    exact hbefore
  | restarted hop hnew =>
    rw [hnew, serving_create] at hheld
    cases hheld
  | controlled req server api hop =>
    rw [hop] at hev
    cases hev
  | announced _ _ hrecords | quiet _ _ hrecords =>
    have hsessions : (e.step ev).2.sessions = e.sessions := congrArg Records.sessions hrecords
    rw [hsessions]
    exact hbefore

def IsSchedulerOf (e : SeekServeEngine) (id : TorrentId) (callback : RangeCallback) : Prop :=
  ∃ state, e.states.lookup id = some state ∧ callback.scheduler = state.scheduler ∧
    e.sessions.getHandle id = some callback.handle

/-- In runs without control requests, the callback that a request for a file invokes is the
torrent's own scheduler exactly when the last successful selection, since the server object
was made, was for this torrent. -/
theorem notification_reaches_iff (env : Env) (config : Config) (cache : OfflineCacheManager)
    (es : List Event) (hes : ∀ ev ∈ es, ev.op.isControl = false) (io : ConnectionIo)
    (req : HttpRequest) {server : HttpRangeServer} {callback : RangeCallback} {range : ByteRange}
    {id : TorrentId} {fi : Int}
    (hserver : (machine.run (create env config cache) es).httpServer = some server)
    (hn : (callback, range, id, fi) ∈ notifications (server.handleConnection io req)) :
    (machine.run (create env config cache) es).IsSchedulerOf id callback ↔
      (ServingLog.ofTrace (machine.trace (create env config cache) es)).lastSelected = some id := by
  have htracks := tracks_run env config cache es
  -- only the engine's own removals take a handle away, and they erase the state with it
  have hagree : (machine.run (create env config cache) es).HandlesAgree := by
    apply Runs.Machine.run_tracks machine (fun e _ => e.HandlesAgree) (fun log _ => log)
      (fun ev => ev.op.isControl = false) (a := ()) _ (handlesAgree_create env config cache) hes
    intro e _ ev hev h
    exact handlesAgree_step h hev
  generalize machine.run (create env config cache) es = e at hserver htracks hagree ⊢
  obtain ⟨hcb, entry, hentry⟩ := HttpRangeServer.of_mem_notifications_handleConnection hn
  have hcallback : e.serving.Callback callback := ⟨server, hserver, hcb⟩
  obtain ⟨held, hheld, _⟩ := htracks.source id fi entry ⟨server, hserver, hentry⟩
  have hiff := htracks.callback id held hheld
  obtain ⟨state, hstate, rfl⟩ := Option.map_eq_some_iff.mp hheld
  refine ⟨?_, ?_⟩
  · intro hreach
    obtain ⟨state', hstate', hsched, _⟩ := hreach
    cases hstate.symm.trans hstate'
    exact hiff.mp ⟨callback, hcallback, hsched⟩
  · intro hlast
    obtain ⟨callback', ⟨server', hserver', hcb'⟩, hsched⟩ := hiff.mpr hlast
    cases hserver.symm.trans hserver'
    cases hcb.symm.trans hcb'
    refine ⟨state, hstate, hsched, ?_⟩
    rw [htracks.callbackHandle callback id state.held hcallback hheld hsched]
    exact hagree id state.held hheld

def headSample : HttpRequest :=
  { method := .head, target := "/stream/".toList ++ sampleId 1 ++ "/0".toList }

def noBody : ConnectionIo := ⟨false, fun _ _ _ => .error .ioError, fun _ => none⟩

def selectOne : List Op := addSample 1 "a.torrent".toList ++ [.startServer, .selectFile (sampleId 1) 0]

theorem notification_reaches_iff_selectOne :
    (sampleRun selectOne).IsSchedulerOf (sampleId 1) ⟨1, ⟨0, "./downloads".toList⟩⟩ := by
  have hmap : ((sampleRun selectOne).httpServer.map fun server =>
      notifications (server.handleConnection noBody headSample)) =
        some [(⟨1, ⟨0, "./downloads".toList⟩⟩, ⟨0, 9⟩, sampleId 1, 0)] := by decide
  obtain ⟨server, hserver, hn⟩ := Option.map_eq_some_iff.mp hmap
  apply (notification_reaches_iff sampleEnv {} .empty (sampleEvents selectOne) (by decide) noBody
    headSample hserver (hn ▸ List.mem_cons_self)).mpr
  decide

/-- The second torrent is selected last; it hears of the requests for the first. -/
def selectTwo : List Op :=
  addSample 1 "a.torrent".toList ++ addSample 2 "b.torrent".toList ++
    [.startServer, .selectFile (sampleId 1) 0, .selectFile (sampleId 2) 0]

theorem notification_reaches_other_torrent :
    ∃ server callback, (sampleRun selectTwo).httpServer = some server ∧
      (callback, ⟨0, 9⟩, sampleId 1, 0) ∈
        notifications (server.handleConnection noBody headSample) ∧
      ¬(sampleRun selectTwo).IsSchedulerOf (sampleId 1) callback := by
  have hmap : ((sampleRun selectTwo).httpServer.map fun server =>
      notifications (server.handleConnection noBody headSample)) =
        some [(⟨3, ⟨1, "./downloads".toList⟩⟩, ⟨0, 9⟩, sampleId 1, 0)] := by decide
  have hown : ((sampleRun selectTwo).states.lookup (sampleId 1)).map TorrentState.scheduler =
      some 1 := by decide
  obtain ⟨server, hserver, hn⟩ := Option.map_eq_some_iff.mp hmap
  refine ⟨server, _, hserver, hn ▸ List.mem_cons_self, ?_⟩
  intro hreach
  obtain ⟨state, hstate, hsched, _⟩ := hreach
  rw [hstate] at hown
  have hone : state.scheduler = 1 := Option.some.inj hown
  rw [hone] at hsched
  cases hsched

end SeekServeEngine

end SeekServe
