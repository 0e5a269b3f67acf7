import SeekServe.Lib.AssocMap
import SeekServe.Types

/-!
# The libtorrent session

Which torrents the session holds, under the id made of their info-hash. Parsing a magnet
URI and loading a `.torrent` file belong to libtorrent and come in as a `Loader`.
-/

namespace SeekServe

set_option autoImplicit false

structure AddTorrentParams where
  uri : CxxString
  savePath : CxxString

structure Loader where
  parseMagnetUri : CxxString → Option InfoHash
  loadTorrentFile : CxxString → Option InfoHash

def Loader.load (l : Loader) (uri : CxxString) : Result InfoHash :=
  let loaded :=
    if CxxString.substr uri 0 (some 7) = "magnet:".toList then l.parseMagnetUri uri
    else l.loadTorrentFile uri
  match loaded with
  | none => .error .invalidArgument
  | some ih => .ok ih

/-- `infohash_to_hex`, and `torrent_id_from_handle` on the hashes of the handle. -/
def infohashToHex (ih : InfoHash) : TorrentId :=
  if ih.hasV2 then toHex ih.v2Bytes else toHex ih.v1Bytes

structure TorrentSessionManager where
  config : SessionConfig
  handles : AssocMap TorrentId TorrentHandle
  nextRef : Nat

namespace TorrentSessionManager

def create (config : SessionConfig) : TorrentSessionManager := ⟨config, ∅, 0⟩

/-- `session_->add_torrent`: libtorrent answers with the handle of the torrent it already
has, if it has one. -/
def sessionAdd (m : TorrentSessionManager) (id : TorrentId) (savePath : CxxString) :
    TorrentHandle × TorrentSessionManager :=
  match m.handles.lookup id with
  | some h => (h, m)
  | none => (⟨m.nextRef, savePath⟩, { m with nextRef := m.nextRef + 1 })

def addTorrent (m : TorrentSessionManager) (load : Loader) (params : AddTorrentParams) :
    Result TorrentId × TorrentSessionManager :=
  match load.load params.uri with
  | .error e => (.error e, m)
  | .ok ih =>
    let id := infohashToHex ih
    let savePath := if params.savePath = [] then m.config.savePath else params.savePath
    let (h, m) := m.sessionAdd id savePath
    (.ok id, { m with handles := AList.insert id h m.handles })

def removeTorrent (m : TorrentSessionManager) (id : TorrentId) :
    Result Unit × TorrentSessionManager :=
  match m.handles.lookup id with
  | none => (.error .torrentNotFound, m)
  | some _ => (.ok (), { m with handles := AList.erase id m.handles })

/-- `none` stands for the invalid handle. -/
def getHandle (m : TorrentSessionManager) (id : TorrentId) : Option TorrentHandle :=
  m.handles.lookup id

def hasTorrent (m : TorrentSessionManager) (id : TorrentId) : Bool := (m.handles.lookup id).isSome

def listTorrents (m : TorrentSessionManager) : List TorrentId := m.handles.keys

theorem sessionAdd_handles (m : TorrentSessionManager) (id : TorrentId) (savePath : CxxString) :
    (m.sessionAdd id savePath).2.handles = m.handles := by
  unfold sessionAdd
  split <;> rfl

theorem sessionAdd_handle {m : TorrentSessionManager} {id : TorrentId} {h : TorrentHandle}
    (hh : m.getHandle id = some h) (savePath : CxxString) : (m.sessionAdd id savePath).1 = h := by
  unfold getHandle at hh
  simp only [sessionAdd, hh]

theorem addTorrent_result (m : TorrentSessionManager) (load : Loader) (params : AddTorrentParams) :
    (m.addTorrent load params).1 = (load.load params.uri).map infohashToHex := by
  unfold addTorrent
  cases load.load params.uri <;> rfl

theorem addTorrent_error {m : TorrentSessionManager} {load : Loader} {params : AddTorrentParams}
    {err : Errc} (h : (m.addTorrent load params).1 = .error err) :
    (m.addTorrent load params).2 = m := by
  unfold addTorrent at h ⊢
  cases hl : load.load params.uri with
  | error e => rfl
  | ok ih => simp [hl] at h

/-- An addition gives a handle to the torrent it added and touches no other. -/
theorem getHandle_addTorrent (m : TorrentSessionManager) (load : Loader)
    (params : AddTorrentParams) (id : TorrentId) :
    ((m.addTorrent load params).1 = .ok id ∧
        ∃ h, (m.addTorrent load params).2.getHandle id = some h ∧
          ∀ old, m.getHandle id = some old → h = old) ∨
      (m.addTorrent load params).1 ≠ .ok id ∧
        (m.addTorrent load params).2.getHandle id = m.getHandle id := by
  unfold addTorrent
  cases load.load params.uri with
  | error e => exact Or.inr ⟨by simp, rfl⟩
  | ok ih =>
    simp only [getHandle, sessionAdd_handles, AssocMap.lookup_insert_eq]
    by_cases hid : id = infohashToHex ih
    · subst hid
      refine Or.inl ⟨rfl, _, if_pos rfl, ?_⟩
      intro old hold
      exact sessionAdd_handle hold _
    · refine Or.inr ⟨?_, if_neg hid⟩
      intro h
      exact hid (Except.ok.inj h).symm

theorem getHandle_removeTorrent (m : TorrentSessionManager) (id id' : TorrentId) :
    (m.removeTorrent id).2.getHandle id' = if id' = id then none else m.getHandle id' := by
  unfold removeTorrent getHandle
  cases h : m.handles.lookup id with
  | none =>
    by_cases hid : id' = id
    · subst hid
      rw [if_pos rfl]
      exact h
    · rw [if_neg hid]
  | some handle => exact AssocMap.lookup_erase_eq id id'

theorem removeTorrent_of_not_hasTorrent {m : TorrentSessionManager} {id : TorrentId}
    (h : m.hasTorrent id = false) : (m.removeTorrent id).2 = m := by
  have hnone : m.handles.lookup id = none := Option.isNone_iff_eq_none.mp (by simpa [hasTorrent] using h)
  simp only [removeTorrent, hnone]

theorem removeTorrent_ok_iff (m : TorrentSessionManager) (id : TorrentId) :
    (m.removeTorrent id).1 = .ok () ↔ m.hasTorrent id = true := by
  unfold removeTorrent hasTorrent
  cases m.handles.lookup id <;> simp

theorem hasTorrent_iff (m : TorrentSessionManager) (id : TorrentId) :
    m.hasTorrent id = true ↔ ∃ h, m.getHandle id = some h := Option.isSome_iff_exists

theorem hasTorrent_addTorrent (m : TorrentSessionManager) (load : Loader)
    (params : AddTorrentParams) (id : TorrentId) :
    (m.addTorrent load params).2.hasTorrent id = true ↔
      (m.addTorrent load params).1 = .ok id ∨ m.hasTorrent id = true := by
  rw [hasTorrent_iff, hasTorrent_iff]
  rcases m.getHandle_addTorrent load params id with ⟨hr, h, hh, _⟩ | ⟨hr, hh⟩
  · exact ⟨fun _ => Or.inl hr, fun _ => ⟨h, hh⟩⟩
  · rw [hh]
    exact ⟨Or.inr, fun h => h.resolve_left hr⟩

theorem getHandle_addTorrent_of_some {m : TorrentSessionManager} {id : TorrentId}
    {h : TorrentHandle} (hh : m.getHandle id = some h) (load : Loader)
    (params : AddTorrentParams) : (m.addTorrent load params).2.getHandle id = some h := by
  rcases m.getHandle_addTorrent load params id with ⟨_, h', hh', hold⟩ | ⟨_, hsame⟩
  · rw [hh', hold h hh]
  · rw [hsame, hh]

theorem hasTorrent_removeTorrent (m : TorrentSessionManager) (id id' : TorrentId) :
    (m.removeTorrent id).2.hasTorrent id' = true ↔ id' ≠ id ∧ m.hasTorrent id' = true := by
  rw [hasTorrent_iff, hasTorrent_iff, getHandle_removeTorrent]
  by_cases hid : id' = id
  · simp [hid]
  · simp [hid]

end TorrentSessionManager

end SeekServe
