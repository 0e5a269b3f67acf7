import SeekServe.Lib.AssocMap
import SeekServe.ByteSource

/-!
# The stream server's state

The map of registered byte sources, the one range callback, and the life of the
server object. Operations that cancel sources also return the addresses of those sources.
-/

namespace SeekServe

set_option autoImplicit false

structure SourceEntry where
  source : ByteSource
  torrentId : TorrentId
  fileIndex : Int
  filePath : CxxString

/-- The lambda that `select_file` installs: the scheduler and the handle it captured.
Its torrent and file parameters are unnamed and not used. -/
structure RangeCallback where
  scheduler : Nat
  handle : TorrentHandle
  deriving DecidableEq, Repr

/-- What comes of opening, binding and listening on a socket. -/
inductive Bind where
  | badAddress
  | failed
  | port (actual : Nat)
  deriving DecidableEq, Repr

def Bind.result : Bind → Result Nat
  | .badAddress => .error .invalidArgument
  | .failed => .error .ioError
  | .port actual => .ok actual

/-- The key of a source: `torrentId/fileIndex`. -/
def streamKey (id : TorrentId) (fi : Int) : CxxString := id ++ '/' :: CxxString.ofInt fi

theorem streamKey_injective {id id' : TorrentId} {fi fi' : Int}
    (h : streamKey id fi = streamKey id' fi') : id = id' ∧ fi = fi' := by
  have hslash : ∀ i : Int, '/' ∉ CxxString.ofInt i := by
    intro i hi
    rcases CxxString.mem_ofInt hi with hc | hc
    · exact absurd hc (by decide)
    · exact absurd hc (by decide)
  obtain ⟨hid, hfi⟩ := CxxString.append_cons_inj_of_not_mem (hslash fi) (hslash fi') h
  exact ⟨hid, CxxString.ofInt_injective hfi⟩

structure HttpRangeServer where
  config : ServerConfig
  sources : AssocMap CxxString SourceEntry
  authToken : CxxString
  rangeCallback : Option RangeCallback
  port : Nat
  running : Bool
  /-- Every entry stands under the key made of its own fields. -/
  keyed : ∀ key entry, sources.lookup key = some entry →
    key = streamKey entry.torrentId entry.fileIndex

namespace HttpRangeServer

def create (config : ServerConfig) : HttpRangeServer where
  config := config
  sources := ∅
  authToken := []
  rangeCallback := none
  port := 0
  running := false
  keyed := by
    intro key entry h
    cases h

def setAuthToken (s : HttpRangeServer) (token : CxxString) : HttpRangeServer :=
  { s with authToken := token }

def setRangeCallback (s : HttpRangeServer) (callback : RangeCallback) : HttpRangeServer :=
  { s with rangeCallback := some callback }

def setByteSource (s : HttpRangeServer) (source : ByteSource) (id : TorrentId) (fi : Int)
    (path : CxxString) : HttpRangeServer :=
  { s with
    sources := AList.insert (streamKey id fi) ⟨source, id, fi, path⟩ s.sources
    keyed := by
      intro key entry h
      rw [AssocMap.lookup_insert_eq] at h
      split at h
      · cases h
        assumption
      · exact s.keyed key entry h }

def removeByteSource (s : HttpRangeServer) (id : TorrentId) (fi : Int) :
    HttpRangeServer × List Nat :=
  ({ s with
      sources := AList.erase (streamKey id fi) s.sources
      keyed := by
        intro key entry h
        exact s.keyed key entry (AssocMap.lookup_of_lookup_erase h).2 },
    ((s.sources.lookup (streamKey id fi)).map fun entry => entry.source.addr).toList)

def removeByteSourcesForTorrent (s : HttpRangeServer) (id : TorrentId) :
    HttpRangeServer × List Nat :=
  ({ s with
      sources := AssocMap.filter (fun _ entry => entry.torrentId ≠ id) s.sources
      keyed := by
        intro key entry h
        exact s.keyed key entry (AssocMap.lookup_filter_eq_some_iff.mp h).1 },
    (s.sources.values.filter fun entry => entry.torrentId = id).map fun entry => entry.source.addr)

def start (s : HttpRangeServer) (bind : Bind) : Result Nat × HttpRangeServer :=
  if s.running then (.error .serverAlreadyRunning, s)
  else
    match bind.result with
    | .error e => (.error e, s)
    | .ok actual => (.ok actual, { s with port := actual, running := true })

/-- The range callback survives a stop. -/
def stop (s : HttpRangeServer) : HttpRangeServer × List Nat :=
  if s.running then
    ({ s with
        running := false
        sources := ∅
        keyed := by
          intro key entry h
          cases h },
      s.sources.values.map fun entry => entry.source.addr)
  else (s, [])

def streamUrl (s : HttpRangeServer) (id : TorrentId) (fi : Int) : CxxString :=
  "http://".toList ++ s.config.bindAddress ++ ":".toList ++ CxxString.ofInt s.port ++
    "/stream/".toList ++ id ++ "/".toList ++ CxxString.ofInt fi ++ "?token=".toList ++ s.authToken

def registered (s : HttpRangeServer) (id : TorrentId) (fi : Int) : Option SourceEntry :=
  s.sources.lookup (streamKey id fi)

theorem fields_of_registered {s : HttpRangeServer} {id : TorrentId} {fi : Int}
    {entry : SourceEntry} (h : s.registered id fi = some entry) :
    entry.torrentId = id ∧ entry.fileIndex = fi := by
  obtain ⟨hid, hfi⟩ := streamKey_injective (s.keyed _ _ h)
  exact ⟨hid.symm, hfi.symm⟩

theorem mem_values_iff {s : HttpRangeServer} {entry : SourceEntry} :
    entry ∈ s.sources.values ↔ s.registered entry.torrentId entry.fileIndex = some entry := by
  rw [AssocMap.mem_values_iff]
  constructor
  · intro h
    obtain ⟨key, hkey⟩ := h
    have hk := s.keyed key entry hkey
    rw [hk] at hkey
    exact hkey
  · intro h
    exact ⟨_, h⟩

@[simp] theorem registered_create (config : ServerConfig) (id : TorrentId) (fi : Int) :
    (create config).registered id fi = none := rfl

@[simp] theorem registered_setAuthToken (s : HttpRangeServer) (token : CxxString) (id : TorrentId)
    (fi : Int) : (s.setAuthToken token).registered id fi = s.registered id fi := rfl

@[simp] theorem registered_setRangeCallback (s : HttpRangeServer) (callback : RangeCallback)
    (id : TorrentId) (fi : Int) :
    (s.setRangeCallback callback).registered id fi = s.registered id fi := rfl

theorem registered_setByteSource (s : HttpRangeServer) (source : ByteSource) (id : TorrentId)
    (fi : Int) (path : CxxString) (id' : TorrentId) (fi' : Int) :
    (s.setByteSource source id fi path).registered id' fi' =
      if id' = id ∧ fi' = fi then some ⟨source, id, fi, path⟩ else s.registered id' fi' := by
  unfold registered setByteSource
  rw [AssocMap.lookup_insert_eq]
  by_cases hk : streamKey id' fi' = streamKey id fi
  · rw [if_pos hk, if_pos (streamKey_injective hk)]
  · have hne : ¬(id' = id ∧ fi' = fi) := by
      intro he
      exact hk (by rw [he.1, he.2])
    rw [if_neg hk, if_neg hne]

theorem registered_removeByteSource (s : HttpRangeServer) (id : TorrentId) (fi : Int)
    (id' : TorrentId) (fi' : Int) :
    (s.removeByteSource id fi).1.registered id' fi' =
      if id' = id ∧ fi' = fi then none else s.registered id' fi' := by
  unfold registered removeByteSource
  rw [AssocMap.lookup_erase_eq]
  by_cases hk : streamKey id' fi' = streamKey id fi
  · rw [if_pos hk, if_pos (streamKey_injective hk)]
  · have hne : ¬(id' = id ∧ fi' = fi) := by
      intro he
      exact hk (by rw [he.1, he.2])
    rw [if_neg hk, if_neg hne]

theorem registered_removeByteSourcesForTorrent (s : HttpRangeServer) (id id' : TorrentId)
    (fi' : Int) :
    (s.removeByteSourcesForTorrent id).1.registered id' fi' =
      if id' = id then none else s.registered id' fi' := by
  apply Option.ext
  intro entry
  have hfilter : (s.removeByteSourcesForTorrent id).1.registered id' fi' = some entry ↔
      s.registered id' fi' = some entry ∧ entry.torrentId ≠ id := by
    simp only [registered, removeByteSourcesForTorrent, AssocMap.lookup_filter_eq_some_iff,
      ne_eq, decide_eq_true_eq]
  rw [hfilter]
  split
  · subst id'
    constructor
    · intro h
      exact absurd (fields_of_registered h.1).1 h.2
    · intro h
      cases h
  · constructor
    · intro h
      exact h.1
    · intro h
      refine ⟨h, ?_⟩
      rw [(fields_of_registered h).1]
      assumption

theorem start_cases {s : HttpRangeServer} (h : s.running = false) (bind : Bind) :
    (∃ err, s.start bind = (.error err, s)) ∨
      ∃ actual, s.start bind = (.ok actual, { s with port := actual, running := true }) := by
  unfold start
  rw [h]
  cases bind.result with
  | error err => exact Or.inl ⟨err, rfl⟩
  | ok actual => exact Or.inr ⟨actual, rfl⟩

theorem mem_cancelled_removeByteSource {s : HttpRangeServer} {id : TorrentId} {fi : Int}
    {a : Nat} : a ∈ (s.removeByteSource id fi).2 ↔
      ∃ entry, s.registered id fi = some entry ∧ entry.source.addr = a := by
  simp [removeByteSource, registered]

theorem mem_cancelled_removeByteSourcesForTorrent {s : HttpRangeServer} {id : TorrentId}
    {a : Nat} : a ∈ (s.removeByteSourcesForTorrent id).2 ↔
      ∃ fi entry, s.registered id fi = some entry ∧ entry.source.addr = a := by
  simp only [removeByteSourcesForTorrent, List.mem_map, List.mem_filter, decide_eq_true_eq]
  constructor
  · intro h
    obtain ⟨entry, ⟨hmem, rfl⟩, ha⟩ := h
    exact ⟨entry.fileIndex, entry, mem_values_iff.mp hmem, ha⟩
  · intro h
    obtain ⟨fi, entry, hreg, ha⟩ := h
    obtain ⟨hid, hfi⟩ := fields_of_registered hreg
    refine ⟨entry, ⟨mem_values_iff.mpr ?_, hid⟩, ha⟩
    rw [hid, hfi]
    exact hreg

theorem mem_cancelled_stop {s : HttpRangeServer} {a : Nat} : a ∈ s.stop.2 ↔
    s.running = true ∧ ∃ id fi entry, s.registered id fi = some entry ∧ entry.source.addr = a := by
  unfold stop
  split
  · rename_i hrun
    simp only [List.mem_map]
    constructor
    · intro h
      obtain ⟨entry, hmem, ha⟩ := h
      exact ⟨hrun, _, _, entry, mem_values_iff.mp hmem, ha⟩
    · intro h
      obtain ⟨_, id, fi, entry, hreg, ha⟩ := h
      obtain ⟨hid, hfi⟩ := fields_of_registered hreg
      refine ⟨entry, mem_values_iff.mpr ?_, ha⟩
      rw [hid, hfi]
      exact hreg
  · rename_i hrun
    constructor
    · intro h
      cases h
    · intro h
      exact absurd h.1 hrun

end HttpRangeServer

end SeekServe
