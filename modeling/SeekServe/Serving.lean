import SeekServe.EngineRuns

/-!
# What is being served

The part of the engine's state that decides which file is streamed, and a log of the calls
that decides the same without looking at the state. The two agree after every run.
-/

namespace SeekServe

set_option autoImplicit false

structure Held where
  source : ByteSource
  scheduler : Nat
  selectedFile : Int

structure Serving where
  server : Option HttpRangeServer
  held : TorrentId → Option Held
  running : Bool
  stopped : Bool
  cancelled : List Nat
  nextAddr : Nat

def TorrentState.held (state : TorrentState) : Held :=
  ⟨state.source, state.scheduler, state.selectedFile⟩

def SeekServeEngine.serving (e : SeekServeEngine) : Serving where
  server := e.httpServer
  held id := (e.states.lookup id).map TorrentState.held
  running := e.serverRunning
  stopped := e.ioc.stopped
  cancelled := e.cancelled
  nextAddr := e.nextAddr

/-- What the calls and their answers say about the servers. -/
structure ServingLog where
  /-- a server object has been made -/
  created : Bool := false
  /-- the last start succeeded, and no stop has followed -/
  running : Bool := false
  /-- a stop has taken effect since the engine was made -/
  everStopped : Bool := false
  /-- the file of the last successful `select_file` for the torrent since the server object
  was made, unless a stop or a removal of the torrent has followed -/
  served : TorrentId → Option Int := fun _ => none
  /-- the torrent of the last successful `select_file` since the server object was made -/
  lastSelected : Option TorrentId := none

namespace ServingLog

def select (log : ServingLog) (id : TorrentId) (fi : Int) : ServingLog :=
  if log.created then
    { log with served := Function.update log.served id (some fi), lastSelected := some id }
  else log

def remove (log : ServingLog) (id : TorrentId) : ServingLog :=
  { log with served := Function.update log.served id none }

def start (log : ServingLog) (ok : Bool) : ServingLog :=
  if log.running then log
  else { log with created := true, running := ok, served := fun _ => none, lastSelected := none }

def stop (log : ServingLog) : ServingLog :=
  if log.running then { log with running := false, everStopped := true, served := fun _ => none }
  else log

def note (log : ServingLog) (entry : Event × Reply) : ServingLog :=
  match entry.1.op, entry.2 with
  | .selectFile id fi, .done (.ok ()) => log.select id fi
  | .removeTorrent id _, _ => log.remove id
  | .startServer, .port result => log.start result.isOk
  | .stopServer, _ => log.stop
  | .control _, .control (some reply) => if reply = shuttingDown then log.stop else log
  | .restart, _ => {}
  | _, _ => log

def ofTrace (trace : List (Event × Reply)) : ServingLog := trace.foldl note {}

end ServingLog

namespace Serving

def Registered (v : Serving) (id : TorrentId) (fi : Int) (entry : SourceEntry) : Prop :=
  ∃ server, v.server = some server ∧ server.registered id fi = some entry

def Callback (v : Serving) (cb : RangeCallback) : Prop :=
  ∃ server, v.server = some server ∧ server.rangeCallback = some cb

/-- The flags of the engine and of the server object are those of the log. -/
structure Flags (v : Serving) (log : ServingLog) : Prop where
  created : log.created = v.server.isSome
  running : v.running = log.running
  serverRunning : ∀ server, v.server = some server → server.running = log.running
  runningCreated : log.running = true → log.created = true
  stopped : v.stopped = log.everStopped

/-- Sources and schedulers have addresses of their own, all of them given out before. -/
structure Fresh (v : Serving) : Prop where
  held : ∀ id held, v.held id = some held →
    held.source.addr < v.nextAddr ∧ held.scheduler < v.nextAddr ∧ 0 ≤ held.selectedFile
  cancelled : ∀ a ∈ v.cancelled, a < v.nextAddr
  callback : ∀ cb, v.Callback cb → cb.scheduler < v.nextAddr
  distinct : ∀ id id' held held', v.held id = some held → v.held id' = some held' →
    held.source.addr = held'.source.addr → id = id'

/-- The server serves what the log says, and the range callback is the one it names. -/
structure Tracks (v : Serving) (log : ServingLog) : Prop where
  flags : v.Flags log
  fresh : v.Fresh
  served : ∀ id fi, (∃ entry, v.Registered id fi entry) ↔ log.served id = some fi
  source : ∀ id fi entry, v.Registered id fi entry →
    ∃ held, v.held id = some held ∧ held.selectedFile = fi ∧ held.source = entry.source ∧
      entry.source.addr ∉ v.cancelled
  unselected : log.created = false → log.lastSelected = none
  callback : ∀ id held, v.held id = some held →
    ((∃ cb, v.Callback cb ∧ cb.scheduler = held.scheduler) ↔ log.lastSelected = some id)
  callbackHandle : ∀ cb id held, v.Callback cb → v.held id = some held →
    cb.scheduler = held.scheduler → cb.handle = held.source.handle

section Server
variable {v : Serving} {server : HttpRangeServer}

theorem registered_iff (h : v.server = some server) {id : TorrentId} {fi : Int}
    {entry : SourceEntry} : v.Registered id fi entry ↔ server.registered id fi = some entry := by
  unfold Registered
  rw [h]
  simp only [Option.some.injEq, exists_eq_left']

theorem callback_iff (h : v.server = some server) {cb : RangeCallback} :
    v.Callback cb ↔ server.rangeCallback = some cb := by
  unfold Callback
  rw [h]
  simp only [Option.some.injEq, exists_eq_left']

theorem not_registered (h : v.server = none) (id : TorrentId) (fi : Int) (entry : SourceEntry) :
    ¬v.Registered id fi entry := by
  rintro ⟨server, hserver, -⟩
  rw [h] at hserver
  cases hserver

theorem not_callback (h : v.server = none) (cb : RangeCallback) : ¬v.Callback cb := by
  rintro ⟨server, hserver, -⟩
  rw [h] at hserver
  cases hserver

end Server

theorem Tracks.of_unserved {v : Serving} {log : ServingLog} (hflags : v.Flags log)
    (hfresh : v.Fresh) (hreg : ∀ id fi entry, ¬v.Registered id fi entry)
    (hcb : ∀ cb, ¬v.Callback cb) (hserved : ∀ id, log.served id = none)
    (hlast : log.lastSelected = none) : v.Tracks log := by
  refine ⟨hflags, hfresh, ?_, ?_, fun _ => hlast, ?_, ?_⟩
  · intro id fi
    rw [hserved id]
    refine ⟨?_, ?_⟩
    · intro hr
      obtain ⟨entry, hr⟩ := hr
      exact absurd hr (hreg id fi entry)
    · intro hsome
      cases hsome
  · intro id fi entry hr
    exact absurd hr (hreg id fi entry)
  · intro id held _
    rw [hlast]
    refine ⟨?_, ?_⟩
    · intro hc
      obtain ⟨cb, hc, _⟩ := hc
      exact absurd hc (hcb cb)
    · intro hsome
      cases hsome
  · intro cb id held hc
    exact absurd hc (hcb cb)

theorem Tracks.served_eq_none {v : Serving} {log : ServingLog} (h : v.Tracks log)
    (hserver : v.server = none) (id : TorrentId) : log.served id = none := by
  cases hserved : log.served id with
  | none => rfl
  | some fi =>
    obtain ⟨entry, hreg⟩ := (h.served id fi).mpr hserved
    exact absurd hreg (not_registered hserver id fi entry)

/-- The sources of one torrent have left the server, and nothing else has changed. -/
structure Dropped (v v' : Serving) (id : TorrentId) : Prop where
  server : ∀ server', v'.server = some server' → ∃ server, v.server = some server ∧
    server'.running = server.running ∧ server'.rangeCallback = server.rangeCallback
  isSome : v'.server.isSome = v.server.isSome
  callback : ∀ cb, v.Callback cb → v'.Callback cb
  registered : ∀ id' fi entry, v'.Registered id' fi entry ↔
    id' ≠ id ∧ v.Registered id' fi entry
  held : v'.held = v.held
  running : v'.running = v.running
  stopped : v'.stopped = v.stopped
  nextAddr : v'.nextAddr = v.nextAddr
  cancelled : ∀ a ∈ v'.cancelled,
    a ∈ v.cancelled ∨ ∃ fi entry, v.Registered id fi entry ∧ entry.source.addr = a

theorem Dropped.of_server {v : Serving} {id : TorrentId} {server server' : HttpRangeServer}
    {cancelled : List Nat} (hserver : v.server = some server)
    (hrunning : server'.running = server.running)
    (hcallback : server'.rangeCallback = server.rangeCallback)
    (hregistered : ∀ id' fi, server'.registered id' fi =
      if id' = id then none else server.registered id' fi)
    (hcancelled : ∀ a ∈ cancelled, ∃ fi entry, server.registered id fi = some entry ∧
      entry.source.addr = a) :
    Dropped v { v with server := some server', cancelled := cancelled ++ v.cancelled } id := by
  refine ⟨?_, ?_, ?_, ?_, rfl, rfl, rfl, rfl, ?_⟩
  · intro server'' h
    cases h
    exact ⟨server, hserver, hrunning, hcallback⟩
  · rw [hserver]
    rfl
  · intro cb hcb
    obtain ⟨server₀, hserver₀, hcb⟩ := hcb
    cases hserver.symm.trans hserver₀
    exact ⟨server', rfl, hcallback.trans hcb⟩
  · intro id' fi entry
    rw [registered_iff rfl, registered_iff hserver, hregistered]
    by_cases hid : id' = id
    · simp [hid]
    · simp [hid]
  · intro a ha
    rcases List.mem_append.mp ha with hnew | hold
    · obtain ⟨fi, entry, hreg, haddr⟩ := hcancelled a hnew
      exact Or.inr ⟨fi, entry, ⟨server, hserver, hreg⟩, haddr⟩
    · exact Or.inl hold

theorem Dropped.refl {v : Serving} {id : TorrentId}
    (h : ∀ fi entry, ¬v.Registered id fi entry) : Dropped v v id := by
  refine ⟨?_, rfl, fun cb hcb => hcb, ?_, rfl, rfl, rfl, rfl, fun a ha => Or.inl ha⟩
  · intro server hserver
    exact ⟨server, hserver, rfl, rfl⟩
  · intro id' fi entry
    refine ⟨?_, fun hr => hr.2⟩
    intro hr
    refine ⟨?_, hr⟩
    intro hid
    subst hid
    exact h fi entry hr

theorem Dropped.callback_of {v v' : Serving} {id : TorrentId} (h : Dropped v v' id)
    {cb : RangeCallback} (hcb : v'.Callback cb) : v.Callback cb := by
  obtain ⟨server', hserver', hcb'⟩ := hcb
  obtain ⟨server, hserver, _, hsame⟩ := h.server server' hserver'
  exact ⟨server, hserver, hsame ▸ hcb'⟩

theorem Tracks.dropped {v v' : Serving} {log : ServingLog} {id : TorrentId} (h : v.Tracks log)
    (hd : Dropped v v' id) : v'.Tracks (log.remove id) := by
  have hflags : v'.Flags (log.remove id) := by
    refine ⟨hd.isSome ▸ h.flags.created, hd.running ▸ h.flags.running, ?_,
      h.flags.runningCreated, hd.stopped ▸ h.flags.stopped⟩
    intro server' hserver'
    obtain ⟨server, hserver, hrun, _⟩ := hd.server server' hserver'
    exact hrun.trans (h.flags.serverRunning server hserver)
  have hfresh : v'.Fresh := by
    refine ⟨?_, ?_, ?_, ?_⟩
    · rw [hd.held, hd.nextAddr]
      exact h.fresh.held
    · intro a ha
      rw [hd.nextAddr]
      rcases hd.cancelled a ha with hold | ⟨fi, entry, hreg, rfl⟩
      · exact h.fresh.cancelled a hold
      · obtain ⟨held, hheld, _, hsource, _⟩ := h.source id fi entry hreg
        exact hsource ▸ (h.fresh.held id held hheld).1
    · intro cb hcb
      rw [hd.nextAddr]
      exact h.fresh.callback cb (hd.callback_of hcb)
    · rw [hd.held]
      exact h.fresh.distinct
  refine ⟨hflags, hfresh, ?_, ?_, h.unselected, ?_, ?_⟩
  · intro id' fi
    by_cases hid : id' = id
    · subst hid
      simp [hd.registered, ServingLog.remove]
    · simp [hd.registered, ServingLog.remove, hid, h.served id' fi]
  -- a source that stays cannot be one of the cancelled: those are of `id`
  · intro id' fi entry hreg
    obtain ⟨hid, hreg⟩ := (hd.registered id' fi entry).mp hreg
    obtain ⟨held, hheld, hfi, hsource, hlive⟩ := h.source id' fi entry hreg
    refine ⟨held, hd.held ▸ hheld, hfi, hsource, ?_⟩
    intro hcancelled
    rcases hd.cancelled _ hcancelled with hold | ⟨fi₀, entry₀, hreg₀, haddr⟩
    · exact hlive hold
    · obtain ⟨held₀, hheld₀, _, hsource₀, _⟩ := h.source id fi₀ entry₀ hreg₀
      apply hid
      apply h.fresh.distinct id' id held held₀ hheld hheld₀
      rw [hsource, hsource₀, haddr]
  · intro id' held hheld
    rw [hd.held] at hheld
    refine Iff.trans ?_ (h.callback id' held hheld)
    refine ⟨?_, ?_⟩
    · intro hcb
      obtain ⟨cb, hcb, hsched⟩ := hcb
      exact ⟨cb, hd.callback_of hcb, hsched⟩
    · intro hcb
      obtain ⟨cb, hcb, hsched⟩ := hcb
      exact ⟨cb, hd.callback cb hcb, hsched⟩
  · intro cb id' held hcb hheld
    rw [hd.held] at hheld
    exact h.callbackHandle cb id' held (hd.callback_of hcb) hheld

theorem held_update_cases {held : TorrentId → Option Held} {id id' : TorrentId}
    {new : Option Held} {x : Held} (h : Function.update held id new id' = some x) :
    id' = id ∧ new = some x ∨ id' ≠ id ∧ held id' = some x := by
  by_cases hid : id' = id
  · subst hid
    rw [Function.update_self] at h
    exact Or.inl ⟨rfl, h⟩
  · rw [Function.update_of_ne hid] at h
    exact Or.inr ⟨hid, h⟩

theorem Tracks.erase {v : Serving} {log : ServingLog} {id : TorrentId} (h : v.Tracks log)
    (hs : log.served id = none) :
    Tracks { v with held := Function.update v.held id none } log := by
  have hheld : ∀ id' held, Function.update v.held id none id' = some held →
      id' ≠ id ∧ v.held id' = some held := by
    intro id' held hh
    rcases held_update_cases hh with ⟨_, hnew⟩ | hold
    · cases hnew
    · exact hold
  refine ⟨⟨h.flags.created, h.flags.running, h.flags.serverRunning, h.flags.runningCreated,
    h.flags.stopped⟩, ⟨?_, h.fresh.cancelled, h.fresh.callback, ?_⟩, h.served, ?_, h.unselected,
    ?_, ?_⟩
  · intro id' held hh
    exact h.fresh.held id' held (hheld id' held hh).2
  · intro id' id'' held held' hh hh'
    exact h.fresh.distinct id' id'' held held' (hheld id' held hh).2 (hheld id'' held' hh').2
  · intro id' fi entry hreg
    have hid : id' ≠ id := by
      intro heq
      subst heq
      have hsome := (h.served id' fi).mp ⟨entry, hreg⟩
      rw [hs] at hsome
      cases hsome
    obtain ⟨held, hh, hrest⟩ := h.source id' fi entry hreg
    exact ⟨held, (Function.update_of_ne hid none v.held).trans hh, hrest⟩
  · intro id' held hh
    exact h.callback id' held (hheld id' held hh).2
  · intro cb id' held hcb hh
    exact h.callbackHandle cb id' held hcb (hheld id' held hh).2

structure NewHeld (v : Serving) (held : Held) (handle : TorrentHandle) : Prop where
  source : held.source.addr = v.nextAddr
  scheduler : held.scheduler = v.nextAddr + 1
  handle : held.source.handle = handle
  nonneg : 0 ≤ held.selectedFile

theorem Fresh.publish {v v' : Serving} {id : TorrentId} {held : Held} {handle : TorrentHandle}
    (h : v.Fresh) (hn : v.NewHeld held handle)
    (hheld : v'.held = Function.update v.held id (some held))
    (hnext : v'.nextAddr = v.nextAddr + 2) (hcancelled : v'.cancelled = v.cancelled)
    (hcallback : ∀ cb, v'.Callback cb → v.Callback cb ∨ cb.scheduler = held.scheduler) :
    v'.Fresh := by
  have hscheduler := hn.scheduler
  have hsource := hn.source
  have hcases : ∀ id' held', v'.held id' = some held' →
      id' = id ∧ held' = held ∨ id' ≠ id ∧ v.held id' = some held' := by
    intro id' held' hh
    rw [hheld] at hh
    rcases held_update_cases hh with ⟨hid, hnew⟩ | hold
    · exact Or.inl ⟨hid, (Option.some.inj hnew).symm⟩
    · exact Or.inr hold
  refine ⟨?_, ?_, ?_, ?_⟩
  · intro id' held' hh
    rcases hcases id' held' hh with ⟨_, rfl⟩ | ⟨_, hold⟩
    · have hnonneg := hn.nonneg
      omega
    · have hbound := h.held id' held' hold
      omega
  · intro a ha
    rw [hcancelled] at ha
    have hbound := h.cancelled a ha
    omega
  · intro cb hcb
    rcases hcallback cb hcb with hold | hnew
    · have hbound := h.callback cb hold
      omega
    · omega
  · intro id₁ id₂ held₁ held₂ hh₁ hh₂ haddr
    rcases hcases id₁ held₁ hh₁ with ⟨rfl, rfl⟩ | ⟨_, hold₁⟩
    · rcases hcases id₂ held₂ hh₂ with ⟨rfl, _⟩ | ⟨_, hold₂⟩
      · rfl
      · have hbound := h.held id₂ held₂ hold₂
        omega
    · rcases hcases id₂ held₂ hh₂ with ⟨rfl, rfl⟩ | ⟨_, hold₂⟩
      · have hbound := h.held id₁ held₁ hold₁
        omega
      · exact h.distinct id₁ id₂ held₁ held₂ hold₁ hold₂ haddr

theorem Tracks.publish_offline {v : Serving} {log : ServingLog} {held : Held}
    {handle : TorrentHandle} (h : v.Tracks log) (hn : v.NewHeld held handle)
    (hserver : v.server = none) (id : TorrentId) :
    Tracks
      { v with
        held := Function.update v.held id (some held)
        nextAddr := v.nextAddr + 2 } log := by
  have hlast := h.unselected (by rw [h.flags.created, hserver]; rfl)
  refine .of_unserved ⟨h.flags.created, h.flags.running, h.flags.serverRunning,
    h.flags.runningCreated, h.flags.stopped⟩ ?_ ?_ ?_ (h.served_eq_none hserver) hlast
  · exact h.fresh.publish hn rfl rfl rfl fun cb hc => Or.inl hc
  · exact not_registered hserver
  · exact not_callback hserver

section Publish
variable {v v' : Serving} {server : HttpRangeServer} {id : TorrentId} {held : Held}
  {path : CxxString} {cb : RangeCallback}

theorem registered_publish (hserver : v.server = some server)
    (hserver' : v'.server =
      some ((server.setByteSource held.source id held.selectedFile path).setRangeCallback cb))
    (hnone : ∀ fi, server.registered id fi = none) (id' : TorrentId) (fi : Int)
    (entry : SourceEntry) :
    v'.Registered id' fi entry ↔
      id' = id ∧ fi = held.selectedFile ∧ entry = ⟨held.source, id, held.selectedFile, path⟩ ∨
        id' ≠ id ∧ v.Registered id' fi entry := by
  rw [registered_iff hserver', registered_iff hserver,
    HttpRangeServer.registered_setRangeCallback, HttpRangeServer.registered_setByteSource]
  by_cases hid : id' = id
  · by_cases hfi : fi = held.selectedFile
    · simp [hid, hfi, eq_comm]
    · simp [hid, hfi, hnone]
  · simp [hid]

theorem callback_publish
    (hserver' : v'.server =
      some ((server.setByteSource held.source id held.selectedFile path).setRangeCallback cb))
    {cb' : RangeCallback} : v'.Callback cb' ↔ cb' = cb := by
  rw [callback_iff hserver']
  exact ⟨fun h => (Option.some.inj h).symm, fun h => congrArg some h.symm⟩

end Publish

/-- A selection that registers its source and becomes the one range callback. -/
theorem Tracks.publish {v v' : Serving} {log : ServingLog} {id : TorrentId} {held : Held}
    {handle : TorrentHandle} {server : HttpRangeServer} {path : CxxString} (h : v.Tracks log)
    (hn : v.NewHeld held handle) (hs : log.served id = none) (hserver : v.server = some server)
    (hv : v' =
      { v with
        server := some
          ((server.setByteSource held.source id held.selectedFile path).setRangeCallback
            ⟨held.scheduler, handle⟩)
        held := Function.update v.held id (some held)
        nextAddr := v.nextAddr + 2 }) :
    v'.Tracks
      { log with
        served := Function.update log.served id (some held.selectedFile)
        lastSelected := some id } := by
  have hcreated : log.created = true := by
    rw [h.flags.created, hserver]
    rfl
  have hnone : ∀ fi, server.registered id fi = none := by
    intro fi
    cases hreg : server.registered id fi with
    | none => rfl
    | some entry =>
      have hsome := (h.served id fi).mp ⟨entry, (registered_iff hserver).mpr hreg⟩
      rw [hs] at hsome
      cases hsome
  -- the schedulers of the other torrents are older than the new callback's
  have holder : ∀ {id' : TorrentId} {held' : Held}, v.held id' = some held' →
      held'.scheduler ≠ held.scheduler := by
    intro id' held' hh
    have hbound := h.fresh.held id' held' hh
    have hnew := hn.scheduler
    omega
  have hserver' : v'.server = some
      ((server.setByteSource held.source id held.selectedFile path).setRangeCallback
        ⟨held.scheduler, handle⟩) := by rw [hv]
  have hreg := registered_publish hserver hserver' hnone
  have hheld : v'.held = Function.update v.held id (some held) := by rw [hv]
  have hcancelled : v'.cancelled = v.cancelled := by rw [hv]
  refine ⟨⟨?_, ?_, ?_, h.flags.runningCreated, ?_⟩, h.fresh.publish hn hheld ?_ hcancelled ?_, ?_,
    ?_, ?_, ?_, ?_⟩
  · rw [hserver']
    exact hcreated
  · rw [hv]
    exact h.flags.running
  · intro server₁ hserver₁
    cases hserver'.symm.trans hserver₁
    exact h.flags.serverRunning server hserver
  · rw [hv]
    exact h.flags.stopped
  · rw [hv]
  · intro cb hcb
    rw [callback_publish hserver'] at hcb
    rw [hcb]
    exact Or.inr rfl
  · intro id' fi
    simp only [hreg]
    by_cases hid : id' = id
    · simp [hid, eq_comm]
    · simp [hid, h.served id' fi]
  · intro id' fi entry hr
    rw [hheld, hcancelled]
    rcases (hreg id' fi entry).mp hr with ⟨rfl, rfl, rfl⟩ | ⟨hid, hold⟩
    · refine ⟨held, Function.update_self _ _ _, rfl, rfl, ?_⟩
      intro hc
      have hbound := h.fresh.cancelled _ hc
      rw [hn.source] at hbound
      omega
    · obtain ⟨held', hh, hrest⟩ := h.source id' fi entry hold
      exact ⟨held', (Function.update_of_ne hid _ _).trans hh, hrest⟩
  · intro hc
    rw [hcreated] at hc
    cases hc
  · intro id' held' hh
    rw [hheld] at hh
    simp only [callback_publish hserver', exists_eq_left]
    rcases held_update_cases hh with ⟨rfl, hnew⟩ | ⟨hid, hold⟩
    · cases hnew
      exact iff_of_true rfl rfl
    · refine iff_of_false (holder hold).symm ?_
      intro hsome
      exact hid (Option.some.inj hsome).symm
  · intro cb id' held' hc hh hsched
    rw [hheld] at hh
    rw [callback_publish hserver'] at hc
    rw [hc] at hsched ⊢
    rcases held_update_cases hh with ⟨rfl, hnew⟩ | ⟨hid, hold⟩
    · cases hnew
      exact hn.handle.symm
    · exact absurd hsched.symm (holder hold)

/-- A server object without sources and callback takes the place of the old one. -/
theorem Tracks.start {v : Serving} {log : ServingLog} (h : v.Tracks log)
    (hidle : log.running = false) {server : HttpRangeServer} {cancelled : List Nat}
    (hempty : ∀ id fi, server.registered id fi = none) (hcb : server.rangeCallback = none)
    (hcancelled : ∀ a ∈ cancelled, a ∈ v.cancelled) :
    Tracks { v with server := some server, running := server.running, cancelled := cancelled }
      (log.start server.running) := by
  have hlog : log.start server.running =
      { log with
        created := true
        running := server.running
        served := fun _ => none
        lastSelected := none } := by
    unfold ServingLog.start
    rw [hidle]
    rfl
  have hnone : ∀ cb, ¬Callback
      { v with server := some server, running := server.running, cancelled := cancelled } cb := by
    intro cb hc
    rw [callback_iff rfl, hcb] at hc
    cases hc
  rw [hlog]
  refine .of_unserved ⟨rfl, rfl, ?_, fun _ => rfl, h.flags.stopped⟩
    ⟨h.fresh.held, fun a ha => h.fresh.cancelled a (hcancelled a ha), ?_, h.fresh.distinct⟩
    ?_ hnone (fun _ => rfl) rfl
  · intro server' hserver'
    cases hserver'
    rfl
  · intro cb hc
    exact absurd hc (hnone cb)
  · intro id fi entry hr
    rw [registered_iff rfl, hempty] at hr
    cases hr

theorem Tracks.stop {v : Serving} {log : ServingLog} (h : v.Tracks log)
    (hrun : log.running = true) {cancelled : List Nat}
    (hcancelled : ∀ a ∈ cancelled, a < v.nextAddr) :
    Tracks
      { v with
        server := v.server.map fun server => server.stop.1
        running := false
        stopped := true
        cancelled := cancelled } log.stop := by
  have hlog : log.stop =
      { log with running := false, everStopped := true, served := fun _ => none } := by
    unfold ServingLog.stop
    rw [hrun]
    rfl
  have hstop : ∀ server, v.server = some server →
      server.stop.1.running = false ∧ server.stop.1.rangeCallback = server.rangeCallback ∧
        ∀ id fi, server.stop.1.registered id fi = none := by
    intro server hserver
    have hr : server.running = true := (h.flags.serverRunning server hserver).trans hrun
    unfold HttpRangeServer.stop
    rw [if_pos hr]
    exact ⟨rfl, rfl, fun _ _ => rfl⟩
  have hreg : ∀ id fi entry, ¬Registered
      { v with
        server := v.server.map fun server => server.stop.1
        running := false
        stopped := true
        cancelled := cancelled } id fi entry := by
    intro id fi entry hr
    obtain ⟨server', hserver', hr⟩ := hr
    obtain ⟨server, hserver, rfl⟩ := Option.map_eq_some_iff.mp hserver'
    rw [(hstop server hserver).2.2] at hr
    cases hr
  have hcb : ∀ cb, Callback
      { v with
        server := v.server.map fun server => server.stop.1
        running := false
        stopped := true
        cancelled := cancelled } cb ↔ v.Callback cb := by
    intro cb
    refine ⟨?_, ?_⟩
    · intro hc
      obtain ⟨server', hserver', hc⟩ := hc
      obtain ⟨server, hserver, rfl⟩ := Option.map_eq_some_iff.mp hserver'
      exact ⟨server, hserver, (hstop server hserver).2.1 ▸ hc⟩
    · intro hc
      obtain ⟨server, hserver, hc⟩ := hc
      exact ⟨server.stop.1, Option.map_eq_some_iff.mpr ⟨server, hserver, rfl⟩,
        (hstop server hserver).2.1.trans hc⟩
  rw [hlog]
  refine ⟨⟨?_, rfl, ?_, ?_, rfl⟩, ⟨h.fresh.held, hcancelled, ?_, h.fresh.distinct⟩, ?_, ?_,
    h.unselected, ?_, ?_⟩
  · rw [Option.isSome_map]
    exact h.flags.created
  · intro server' hserver'
    obtain ⟨server, hserver, rfl⟩ := Option.map_eq_some_iff.mp hserver'
    exact (hstop server hserver).1
  · intro hc
    cases hc
  · intro cb hc
    exact h.fresh.callback cb ((hcb cb).mp hc)
  · intro id fi
    refine ⟨?_, ?_⟩
    · intro hr
      obtain ⟨entry, hr⟩ := hr
      exact absurd hr (hreg id fi entry)
    · intro hsome
      cases hsome
  · intro id fi entry hr
    exact absurd hr (hreg id fi entry)
  · intro id held hh
    simp only [hcb]
    exact h.callback id held hh
  · intro cb id held hc
    exact h.callbackHandle cb id held ((hcb cb).mp hc)

theorem Tracks.initial : Tracks ⟨none, fun _ => none, false, false, [], 0⟩ {} := by
  refine .of_unserved ⟨rfl, rfl, ?_, ?_, rfl⟩ ⟨?_, ?_, ?_, ?_⟩ (not_registered rfl)
    (not_callback rfl) (fun _ => rfl) rfl
  · intro server hserver
    cases hserver
  · intro hc
    cases hc
  · intro id held hh
    cases hh
  · intro a ha
    cases ha
  · intro cb hc
    exact absurd hc (not_callback rfl cb)
  · intro id id' held held' hh
    cases hh

end Serving

end SeekServe
