import SeekServe.CacheRows
import SeekServe.Lib.Runs

/-!
# The id of a torrent over its life

libtorrent's torrents with the hashes they have at each moment, additions that store a
handle under the id made of these hashes, and alerts that make the id again.
-/

namespace SeekServe

set_option autoImplicit false

theorem length_toHex (bytes : List UInt8) : (toHex bytes).length = 2 * bytes.length := by
  induction bytes with
  | nil => rfl
  | cons b bytes ih =>
    have hcons : toHex (b :: bytes) =
        hexDigit (b.toNat / 16) :: hexDigit (b.toNat % 16) :: toHex bytes := rfl
    rw [hcons, List.length_cons, List.length_cons, List.length_cons, ih]
    omega

theorem length_infohashToHex (ih : InfoHash) :
    (infohashToHex ih).length = if ih.hasV2 then 64 else 40 := by
  unfold infohashToHex InfoHash.v2Bytes InfoHash.v1Bytes
  split
  · rw [length_toHex, Vector.length_toList]
  · rw [length_toHex, Vector.length_toList]

/-- A torrent keeps the hashes it has. It may gain the v2 hash, and next to a v2 hash the
v1 hash. -/
def InfoHash.Learns (old new : InfoHash) : Prop :=
  (new.v1 = old.v1 ∨ old.v1 = none ∧ old.hasV2 = true) ∧ (new.v2 = old.v2 ∨ old.v2 = none)

instance (old new : InfoHash) : Decidable (old.Learns new) :=
  inferInstanceAs (Decidable ((_ ∨ _ ∧ _) ∧ (_ ∨ _)))

/-- The id changes with the first v2 hash and at no other time. -/
theorem infohashToHex_learns_iff {old new : InfoHash} (h : old.Learns new) :
    infohashToHex new = infohashToHex old ↔ new.hasV2 = old.hasV2 := by
  constructor
  · intro hid
    have hlength := congrArg List.length hid
    rw [length_infohashToHex, length_infohashToHex] at hlength
    cases hnew : new.hasV2 <;> cases hold : old.hasV2 <;> simp [hnew, hold] at hlength ⊢
  · intro hv2
    unfold infohashToHex
    rw [hv2]
    split
    · rename_i hhas
      have hsame : new.v2 = old.v2 := by
        apply h.2.resolve_right
        intro hnone
        simp [InfoHash.hasV2, hnone] at hhas
      rw [InfoHash.v2Bytes, hsame, InfoHash.v2Bytes]
    · rename_i hhas
      have hsame : new.v1 = old.v1 := by
        apply h.1.resolve_right
        intro hlate
        exact hhas hlate.2
      rw [InfoHash.v1Bytes, hsame, InfoHash.v1Bytes]

structure LtTorrent where
  hashes : InfoHash
  savePath : CxxString

/-- What `session_->add_torrent` returns: the handle of a torrent that is there already, or
of a new one, with the hashes that this one has when it is asked for them. -/
inductive LtAnswer where
  | known (ref : Nat)
  | new (hashes : InfoHash)

inductive LtAlert where
  | metadataReceived (ti : TorrentInfo)
  | torrentAdded (result : Option (Option TorrentInfo))
  | pieceFinished (piece : Int)
  | fileCompleted (fi : Int)

/-- The handlers ask the handle of the alert for its hashes. -/
def LtAlert.op (ih : InfoHash) : LtAlert → Op
  | .metadataReceived ti => .metadataReceived ih ti
  | .torrentAdded result => .torrentAdded ih result
  | .pieceFinished piece => .pieceFinished ih piece
  | .fileCompleted fi => .fileCompleted ih fi

/-- The engine, libtorrent's torrents by their references, and what additions returned. -/
structure LtWorld where
  engine : SeekServeEngine
  torrents : List LtTorrent
  returned : List (TorrentId × Nat)

inductive LtEvent where
  /-- by the engine's `add_torrent`, or else by the session's alone -/
  | add (env : Env) (byEngine : Bool) (params : AddTorrentParams) (answer : LtAnswer)
  | learn (ref : Nat) (hashes : InfoHash)
  | alert (env : Env) (ref : Nat) (alert : LtAlert)
  | select (env : Env) (id : TorrentId) (fi : Int)

namespace LtWorld

def start (config : Config) (cache : OfflineCacheManager) : LtWorld :=
  ⟨.fresh config cache, [], []⟩

/-- The reference and the torrent of the handle that libtorrent returns, and its torrents. -/
def sessionAdd (w : LtWorld) (loaded : InfoHash) (savePath : CxxString) :
    LtAnswer → Option (Nat × LtTorrent × List LtTorrent)
  | .known ref => w.torrents[ref]?.map fun torrent => (ref, torrent, w.torrents)
  | .new hashes =>
    if loaded.Learns hashes then
      some (w.torrents.length, ⟨hashes, savePath⟩, w.torrents ++ [⟨hashes, savePath⟩])
    else none

/-- The handle is stored, returned and saved under the id of its torrent. -/
def store (w : LtWorld) (env : Env) (byEngine : Bool) (uri : CxxString) (ref : Nat)
    (torrent : LtTorrent) (torrents : List LtTorrent) : LtWorld :=
  let id := infohashToHex torrent.hashes
  let sessions :=
    { w.engine.sessions with
      handles := AList.insert id ⟨ref, torrent.savePath⟩ w.engine.sessions.handles
      nextRef := torrents.length }
  { engine :=
      { w.engine with
        sessions := sessions
        cache := if byEngine then w.engine.cache.saveTorrentUri env.now id uri else w.engine.cache }
    torrents := torrents
    returned := (id, ref) :: w.returned }

def next (w : LtWorld) : LtEvent → Option LtWorld
  | .add env byEngine params answer =>
    match env.load.load params.uri with
    | .error _ => some w
    | .ok loaded =>
      let savePath :=
        if params.savePath = [] then w.engine.sessions.config.savePath else params.savePath
      (w.sessionAdd loaded savePath answer).map fun (ref, torrent, torrents) =>
        w.store env byEngine params.uri ref torrent torrents
  | .learn ref hashes =>
    match w.torrents[ref]? with
    | none => none
    | some torrent =>
      if torrent.hashes.Learns hashes then
        some { w with torrents := w.torrents.set ref { torrent with hashes := hashes } }
      else none
  | .alert env ref alert =>
    w.torrents[ref]?.map fun torrent =>
      { w with engine := (w.engine.step ⟨env, alert.op torrent.hashes⟩).2 }
  | .select env id fi => some { w with engine := (w.engine.step ⟨env, .selectFile id fi⟩).2 }

def system : Runs.System LtWorld LtEvent := ⟨next⟩

/-- The id that every alert handler makes for the torrent. -/
def alertId (w : LtWorld) (ref : Nat) : Option TorrentId :=
  w.torrents[ref]?.map fun torrent => infohashToHex torrent.hashes

end LtWorld

/-- What the engine has noted under an id belongs to a torrent of the session, or was in the
database before. -/
structure SeekServeEngine.Keyed (cache : OfflineCacheManager) (e : SeekServeEngine) : Prop where
  saved : ∀ id, e.cache.persisted id = true →
    cache.persisted id = true ∨ e.sessions.hasTorrent id = true
  catalog : ∀ id, e.catalog.hasMetadata id = true → e.sessions.hasTorrent id = true
  states : ∀ id, (e.states.lookup id).isSome = true → e.sessions.hasTorrent id = true
  rows : ∀ id fi, (e.cache.cacheEntries.lookup (id, fi)).isSome = true →
    (cache.cacheEntries.lookup (id, fi)).isSome = true ∨ e.sessions.hasTorrent id = true

/-- Every torrent has one id: that under which its handle is stored, that was returned and
saved, and that alerts give it. -/
structure LtWorld.OneId (cache : OfflineCacheManager) (w : LtWorld) : Prop where
  returned : ∀ id ref, (id, ref) ∈ w.returned → w.alertId ref = some id
  stored : ∀ id handle, w.engine.sessions.getHandle id = some handle →
    w.alertId handle.ref = some id
  keyed : w.engine.Keyed cache

/-- No torrent without a v2 hash gets one. -/
def LtWorld.NoLateV2 (w : LtWorld) : LtEvent → Prop
  | .learn ref hashes =>
    ∀ torrent, w.torrents[ref]? = some torrent → hashes.hasV2 = torrent.hashes.hasV2
  | _ => True

namespace LtWorld

/-- Every torrent was returned by an addition, and what was returned is stored. -/
structure Complete (w : LtWorld) : Prop where
  all : ∀ ref, ref < w.torrents.length → ∃ id, (id, ref) ∈ w.returned
  stored : ∀ id ref, (id, ref) ∈ w.returned → w.engine.sessions.hasTorrent id = true

end LtWorld

namespace SeekServeEngine

theorem states_onMetadataReceived (env : Env) (e : SeekServeEngine) (ih : InfoHash)
    (ti : TorrentInfo) : (e.onMetadataReceived env ih ti).states = e.states := by
  unfold onMetadataReceived
  simp only
  split
  · rfl
  · split <;> rfl

theorem hasMetadata_of_onMetadataReceived {env : Env} {e : SeekServeEngine} {ih : InfoHash}
    {ti : TorrentInfo} {id : TorrentId}
    (h : (e.onMetadataReceived env ih ti).catalog.hasMetadata id = true) :
    e.catalog.hasMetadata id = true ∨ id = infohashToHex ih := by
  have hcatalog := congrArg Records.catalog (records_onMetadataReceived env e ih ti)
  change (e.onMetadataReceived env ih ti).catalog =
    if infohashToHex ih ∈ e.removedIds then e.catalog
    else e.catalog.onMetadataReceived (infohashToHex ih) ti at hcatalog
  rw [hcatalog] at h
  split at h
  · exact Or.inl h
  · rw [MetadataCatalog.hasMetadata_onMetadataReceived, Bool.or_eq_true, decide_eq_true_eq] at h
    exact h.symm

/-- What the handler of an alert changes, it changes under the id of its torrent. -/
structure TouchesOnly (e : SeekServeEngine) (id : TorrentId) (e' : SeekServeEngine) : Prop where
  sessions : e'.sessions = e.sessions
  torrents : e'.cache.torrents = e.cache.torrents
  catalog : ∀ id', e'.catalog.hasMetadata id' = true →
    e.catalog.hasMetadata id' = true ∨ id' = id
  states : ∀ id', (e'.states.lookup id').isSome = (e.states.lookup id').isSome
  rows : ∀ id' fi, (e'.cache.cacheEntries.lookup (id', fi)).isSome = true →
    (e.cache.cacheEntries.lookup (id', fi)).isSome = true ∨ id' = id

theorem announcement_op {ih : InfoHash} {alert : LtAlert} {id : TorrentId} {ti : TorrentInfo}
    (h : (alert.op ih).announcement = some (id, ti)) : id = infohashToHex ih := by
  cases alert with
  | metadataReceived ti' =>
    cases h
    rfl
  | torrentAdded result =>
    rcases result with _ | _ | ti'
    · cases h
    · cases h
    · cases h
      rfl
  | pieceFinished piece => cases h
  | fileCompleted fi => cases h

theorem rows_alert {env : Env} {e : SeekServeEngine} {ih : InfoHash} (alert : LtAlert)
    {id : TorrentId} {fi : Int}
    (h : ((e.step ⟨env, alert.op ih⟩).2.cache.cacheEntries.lookup (id, fi)).isSome = true) :
    (e.cache.cacheEntries.lookup (id, fi)).isSome = true ∨ id = infohashToHex ih := by
  cases e.rows_step ⟨env, alert.op ih⟩ with
  | announced id' ti files hop hnew hfiles hcache =>
    rw [hcache, OfflineCacheManager.cacheEntries_onTorrentAdded,
      OfflineCacheManager.isSome_foldl_addRow] at h
    rcases h with hold | ⟨f, _, hkey⟩
    · exact Or.inl hold
    · exact Or.inr ((Prod.mk.inj hkey).1.trans (announcement_op hop))
  | completed ih' fi' hop hcache =>
    rw [hcache, OfflineCacheManager.isSome_onFileCompleted] at h
    exact Or.inl h
  | kept hop hnew hkeeps =>
    rw [hkeeps.row] at h
    exact Or.inl h

theorem touchesOnly_onMetadataReceived (env : Env) (e : SeekServeEngine) (ih : InfoHash)
    (ti : TorrentInfo) :
    e.TouchesOnly (infohashToHex ih) (e.onMetadataReceived env ih ti) where
  sessions := congrArg Records.sessions (records_onMetadataReceived env e ih ti)
  torrents := congrArg Records.torrents (records_onMetadataReceived env e ih ti)
  catalog := fun _ => hasMetadata_of_onMetadataReceived
  states := fun id => by rw [states_onMetadataReceived]
  rows := fun _ _ => rows_alert (.metadataReceived ti)

theorem touchesOnly_alert (env : Env) (e : SeekServeEngine) (ih : InfoHash) (alert : LtAlert) :
    e.TouchesOnly (infohashToHex ih) (e.step ⟨env, alert.op ih⟩).2 := by
  cases alert with
  | metadataReceived ti => exact touchesOnly_onMetadataReceived env e ih ti
  | torrentAdded result =>
    rcases onTorrentAdded_cases env e ih result with ⟨ti, _, heq⟩ | ⟨_, heq⟩
    · simp only [LtAlert.op, step, heq]
      exact touchesOnly_onMetadataReceived env e ih ti
    · simp only [LtAlert.op, step, heq]
      exact ⟨rfl, rfl, fun _ => Or.inl, fun _ => rfl, fun _ _ => Or.inl⟩
  | pieceFinished piece =>
    refine ⟨rfl, rfl, fun _ => Or.inl, ?_, fun _ _ => Or.inl⟩
    intro id
    simp only [LtAlert.op, step, onPieceFinished, AssocMap.lookup_modify]
    split
    · subst id
      exact Option.isSome_map
    · rfl
  | fileCompleted fi =>
    refine ⟨rfl, rfl, fun _ => Or.inl, fun _ => rfl, ?_⟩
    intro id fi'
    exact rows_alert (.fileCompleted fi)

theorem Keyed.of_touches {cache : OfflineCacheManager} {e e' : SeekServeEngine}
    (h : e.Keyed cache) {id : TorrentId} (hid : e.sessions.hasTorrent id = true)
    (ht : e.TouchesOnly id e') : e'.Keyed cache := by
  have hnew : ∀ id', id' = id → e'.sessions.hasTorrent id' = true := by
    intro id' heq
    rw [ht.sessions, heq]
    exact hid
  refine ⟨?_, ?_, ?_, ?_⟩
  · intro id' hsaved
    rw [OfflineCacheManager.persisted, ht.torrents] at hsaved
    rw [ht.sessions]
    exact h.saved id' hsaved
  · intro id' hmeta
    rcases ht.catalog id' hmeta with hold | heq
    · rw [ht.sessions]
      exact h.catalog id' hold
    · exact hnew id' heq
  · intro id' hstate
    rw [ht.states] at hstate
    rw [ht.sessions]
    exact h.states id' hstate
  · intro id' fi hrow
    rcases ht.rows id' fi hrow with hold | heq
    · rw [ht.sessions]
      exact h.rows id' fi hold
    · exact Or.inr (hnew id' heq)

/-- A selection needs a handle, so the state it makes stands under the id of a torrent. -/
theorem Keyed.of_selectFile {cache : OfflineCacheManager} {e : SeekServeEngine}
    (h : e.Keyed cache) (env : Env) (id : TorrentId) (fi : Int) :
    (e.selectFile env id fi).2.Keyed cache := by
  obtain ⟨catalog, hrecords, hmeta⟩ := records_selectFile env e id fi
  have hsessions : (e.selectFile env id fi).2.sessions = e.sessions :=
    congrArg Records.sessions hrecords
  have hcatalog : (e.selectFile env id fi).2.catalog = catalog := congrArg Records.catalog hrecords
  refine ⟨?_, ?_, ?_, ?_⟩
  · rw [cache_selectFile, hsessions]
    exact h.saved
  · intro id' hmeta'
    rw [hcatalog, hmeta] at hmeta'
    rw [hsessions]
    exact h.catalog id' hmeta'
  · intro id' hstate
    rw [hsessions]
    rcases selectFile_cases env e id fi with ⟨_, _, heq, _⟩ | ⟨handle, ti, hhandle, _, _, heq⟩
    · rw [heq] at hstate
      exact h.states id' hstate
    · by_cases hid : id' = id
      · rw [hid]
        exact (TorrentSessionManager.hasTorrent_iff _ _).mpr ⟨handle, hhandle⟩
      · apply h.states id'
        rw [heq] at hstate
        have hdrop : ({ e with catalog := (e.catalog.selectFile id fi).2 }.dropPreviousSource
            id).states = e.states := by
          unfold dropPreviousSource
          split
          · split <;> rfl
          · rfl
        simp only [publish, hdrop, AssocMap.lookup_insert_eq, if_neg hid] at hstate
        exact hstate
  · rw [cache_selectFile, hsessions]
    exact h.rows

end SeekServeEngine

namespace LtWorld
variable {cache : OfflineCacheManager} {w w' : LtWorld}

theorem alertId_lt {ref : Nat} {id : TorrentId} (h : w.alertId ref = some id) :
    ref < w.torrents.length := by
  obtain ⟨torrent, htorrent, _⟩ := Option.map_eq_some_iff.mp h
  exact (List.getElem?_eq_some_iff.mp htorrent).1

/-- The torrents there were are there after an addition, and the one it returns is one. -/
theorem sessionAdd_cases {loaded : InfoHash} {savePath : CxxString} {answer : LtAnswer}
    {ref : Nat} {torrent : LtTorrent} {torrents : List LtTorrent}
    (h : w.sessionAdd loaded savePath answer = some (ref, torrent, torrents)) :
    torrents[ref]? = some torrent ∧ w.torrents <+: torrents ∧
      ∀ r, r < torrents.length → r < w.torrents.length ∨ r = ref := by
  cases answer with
  | known known =>
    simp only [sessionAdd, Option.map_eq_some_iff, Prod.mk.injEq] at h
    obtain ⟨torrent', hknown, rfl, rfl, rfl⟩ := h
    exact ⟨hknown, List.prefix_rfl, fun r hr => Or.inl hr⟩
  | new hashes =>
    simp only [sessionAdd] at h
    split at h
    · simp only [Option.some.injEq, Prod.mk.injEq] at h
      obtain ⟨rfl, rfl, rfl⟩ := h
      refine ⟨?_, List.prefix_append _ _, ?_⟩
      · simp
      · intro r hr
        rw [List.length_append, List.length_singleton] at hr
        omega
    · cases h

theorem alertId_of_prefix {ref : Nat} {id : TorrentId} (hpre : w.torrents <+: w'.torrents)
    (h : w.alertId ref = some id) : w'.alertId ref = some id := by
  obtain ⟨torrent, htorrent, hid⟩ := Option.map_eq_some_iff.mp h
  have hlater : w'.torrents[ref]? = some torrent := by
    obtain ⟨more, hmore⟩ := hpre
    rw [← hmore, List.getElem?_append_left (alertId_lt h)]
    exact htorrent
  rw [alertId, hlater, Option.map_some, hid]

/-- An addition changes nothing, or stores a handle under the id of its torrent. -/
theorem next_add_cases {env : Env} {byEngine : Bool} {params : AddTorrentParams}
    {answer : LtAnswer} (h : w.next (.add env byEngine params answer) = some w') :
    w' = w ∨ ∃ ref torrent torrents, torrents[ref]? = some torrent ∧ w.torrents <+: torrents ∧
      (∀ r, r < torrents.length → r < w.torrents.length ∨ r = ref) ∧
      w' = w.store env byEngine params.uri ref torrent torrents := by
  simp only [next] at h
  split at h
  · exact Or.inl (Option.some.inj h).symm
  · obtain ⟨⟨ref, torrent, torrents⟩, hadd, heq⟩ := Option.map_eq_some_iff.mp h
    obtain ⟨hget, hpre, hnew⟩ := sessionAdd_cases hadd
    exact Or.inr ⟨ref, torrent, torrents, hget, hpre, hnew, heq.symm⟩

section Store
variable (env : Env) (byEngine : Bool) (uri : CxxString) (ref : Nat) (torrent : LtTorrent)
  (torrents : List LtTorrent)

theorem getHandle_store (id : TorrentId) :
    (w.store env byEngine uri ref torrent torrents).engine.sessions.getHandle id =
      if id = infohashToHex torrent.hashes then some ⟨ref, torrent.savePath⟩
      else w.engine.sessions.getHandle id := by
  simp only [store, TorrentSessionManager.getHandle, AssocMap.lookup_insert_eq]

theorem hasTorrent_store (id : TorrentId) :
    (w.store env byEngine uri ref torrent torrents).engine.sessions.hasTorrent id = true ↔
      id = infohashToHex torrent.hashes ∨ w.engine.sessions.hasTorrent id = true := by
  rw [TorrentSessionManager.hasTorrent_iff, TorrentSessionManager.hasTorrent_iff, getHandle_store]
  by_cases hid : id = infohashToHex torrent.hashes
  · rw [if_pos hid]
    exact iff_of_true ⟨_, rfl⟩ (Or.inl hid)
  · rw [if_neg hid]
    exact ⟨Or.inr, fun h => h.resolve_left hid⟩

theorem keyed_store (h : w.engine.Keyed cache) :
    (w.store env byEngine uri ref torrent torrents).engine.Keyed cache := by
  have hkept : ∀ {id}, w.engine.sessions.hasTorrent id = true →
      (w.store env byEngine uri ref torrent torrents).engine.sessions.hasTorrent id = true :=
    fun hid => (hasTorrent_store env byEngine uri ref torrent torrents _).mpr (Or.inr hid)
  refine ⟨?_, ?_, ?_, ?_⟩
  · intro id hsaved
    have hcase : id = infohashToHex torrent.hashes ∨ w.engine.cache.persisted id = true := by
      simp only [store] at hsaved
      cases byEngine with
      | true => exact (OfflineCacheManager.persisted_saveTorrentUri _ _ _ _ _).mp hsaved
      | false => exact Or.inr hsaved
    rcases hcase with hid | hold
    · exact Or.inr ((hasTorrent_store env byEngine uri ref torrent torrents id).mpr (Or.inl hid))
    · exact (h.saved id hold).imp_right hkept
  · intro id hmeta
    exact hkept (h.catalog id hmeta)
  · intro id hstate
    exact hkept (h.states id hstate)
  · intro id fi hrow
    have hold : (w.engine.cache.cacheEntries.lookup (id, fi)).isSome = true := by
      simp only [store] at hrow
      cases byEngine with
      | true => exact hrow
      | false => exact hrow
    exact (h.rows id fi hold).imp_right hkept

/-- Handle, returned id and saved id are made of the same hashes. -/
theorem oneId_store (h : w.OneId cache) (hget : torrents[ref]? = some torrent)
    (hpre : w.torrents <+: torrents) :
    (w.store env byEngine uri ref torrent torrents).OneId cache := by
  have hlater : ∀ {r id}, w.alertId r = some id →
      (w.store env byEngine uri ref torrent torrents).alertId r = some id :=
    fun hr => alertId_of_prefix hpre hr
  have hthis : (w.store env byEngine uri ref torrent torrents).alertId ref =
      some (infohashToHex torrent.hashes) := by
    simp only [alertId, store, hget, Option.map_some]
  refine ⟨?_, ?_, keyed_store env byEngine uri ref torrent torrents h.keyed⟩
  · intro id r hmem
    rcases List.mem_cons.mp hmem with heq | hold
    · cases heq
      exact hthis
    · exact hlater (h.returned id r hold)
  · intro id handle hhandle
    rw [getHandle_store] at hhandle
    split at hhandle
    · rename_i hid
      cases hhandle
      rw [hid]
      exact hthis
    · exact hlater (h.stored id handle hhandle)

theorem complete_store (h : w.Complete)
    (hnew : ∀ r, r < torrents.length → r < w.torrents.length ∨ r = ref) :
    (w.store env byEngine uri ref torrent torrents).Complete := by
  refine ⟨?_, ?_⟩
  · intro r hr
    rcases hnew r hr with hold | heq
    · obtain ⟨id, hid⟩ := h.all r hold
      exact ⟨id, List.mem_cons_of_mem _ hid⟩
    · exact ⟨infohashToHex torrent.hashes, heq ▸ List.mem_cons_self⟩
  · intro id r hmem
    rw [hasTorrent_store]
    rcases List.mem_cons.mp hmem with heq | hold
    · exact Or.inl (Prod.mk.inj heq).1
    · exact Or.inr (h.stored id r hold)

end Store

theorem complete_start (config : Config) (cache : OfflineCacheManager) :
    (start config cache).Complete := by
  refine ⟨?_, ?_⟩
  · intro ref hlt
    exact absurd hlt (Nat.not_lt_zero ref)
  · intro id ref hmem
    exact absurd hmem List.not_mem_nil

theorem oneId_start (config : Config) (cache : OfflineCacheManager) :
    (start config cache).OneId cache := by
  refine ⟨?_, ?_, ?_, ?_, ?_, ?_⟩
  · intro id ref hmem
    exact absurd hmem List.not_mem_nil
  · intro id handle hhandle
    cases hhandle
  · intro id hsaved
    exact Or.inl hsaved
  · intro id hmeta
    cases hmeta
  · intro id hstate
    cases hstate
  · intro id fi hrow
    exact Or.inl hrow

theorem complete_next {ev : LtEvent} (h : w.Complete) (hn : w.next ev = some w') :
    w'.Complete := by
  cases ev with
  | add env byEngine params answer =>
    rcases next_add_cases hn with rfl | ⟨ref, torrent, torrents, _, _, hnew, rfl⟩
    · exact h
    · exact complete_store env byEngine params.uri ref torrent torrents h hnew
  | learn ref hashes =>
    simp only [next] at hn
    split at hn
    · cases hn
    split at hn
    · cases hn
      refine ⟨?_, h.stored⟩
      intro r hr
      simp only [List.length_set] at hr
      exact h.all r hr
    · cases hn
  | alert env ref alert =>
    obtain ⟨torrent, _, rfl⟩ := Option.map_eq_some_iff.mp hn
    have hsessions := (w.engine.touchesOnly_alert env torrent.hashes alert).sessions
    refine ⟨h.all, ?_⟩
    intro id r hmem
    simp only [hsessions]
    exact h.stored id r hmem
  | select env id fi =>
    cases hn
    obtain ⟨catalog, hrecords, _⟩ := SeekServeEngine.records_selectFile env w.engine id fi
    have hsessions : (w.engine.selectFile env id fi).2.sessions = w.engine.sessions :=
      congrArg Records.sessions hrecords
    refine ⟨h.all, ?_⟩
    intro id' r hmem
    simp only [SeekServeEngine.step, hsessions]
    exact h.stored id' r hmem

/-- A torrent that learns a hash keeps its id if and only if it is not its first v2 hash. -/
theorem oneId_learn_iff {ref : Nat} {torrent : LtTorrent} {hashes : InfoHash} (hc : w.Complete)
    (h : w.OneId cache) (hget : w.torrents[ref]? = some torrent)
    (hlearns : torrent.hashes.Learns hashes) :
    ({ w with torrents := w.torrents.set ref { torrent with hashes := hashes } } :
        LtWorld).OneId cache ↔ hashes.hasV2 = torrent.hashes.hasV2 := by
  have hlt : ref < w.torrents.length := (List.getElem?_eq_some_iff.mp hget).1
  have hold : w.alertId ref = some (infohashToHex torrent.hashes) := by
    rw [alertId, hget, Option.map_some]
  have hthis : ({ w with torrents := w.torrents.set ref { torrent with hashes := hashes } } :
      LtWorld).alertId ref = some (infohashToHex hashes) := by
    simp only [alertId, List.getElem?_set_self hlt, Option.map_some]
  rw [← infohashToHex_learns_iff hlearns]
  constructor
  · intro h'
    obtain ⟨id, hid⟩ := hc.all ref hlt
    have hbefore := h.returned id ref hid
    have hafter := h'.returned id ref hid
    rw [hold] at hbefore
    rw [hthis] at hafter
    exact Option.some.inj (hafter.trans hbefore.symm)
  · intro hsame
    have hkept : ∀ {r id}, w.alertId r = some id →
        ({ w with torrents := w.torrents.set ref { torrent with hashes := hashes } } :
          LtWorld).alertId r = some id := by
      intro r id hr
      by_cases heq : r = ref
      · subst heq
        rw [hthis, hsame, ← hold]
        exact hr
      · simp only [alertId, List.getElem?_set_ne (Ne.symm heq)]
        exact hr
    exact ⟨fun id r hmem => hkept (h.returned id r hmem),
      fun id handle hhandle => hkept (h.stored id handle hhandle), h.keyed⟩

theorem oneId_next_iff {ev : LtEvent} (hc : w.Complete) (h : w.OneId cache)
    (hn : w.next ev = some w') : w'.OneId cache ↔ w.NoLateV2 ev := by
  cases ev with
  | add env byEngine params answer =>
    refine iff_of_true ?_ trivial
    rcases next_add_cases hn with rfl | ⟨ref, torrent, torrents, hget, hpre, _, rfl⟩
    · exact h
    · exact oneId_store env byEngine params.uri ref torrent torrents h hget hpre
  | learn ref hashes =>
    simp only [next] at hn
    split at hn
    · cases hn
    rename_i torrent hget
    split at hn
    · rename_i hlearns
      cases hn
      rw [oneId_learn_iff hc h hget hlearns]
      constructor
      · intro hv2 torrent' hget'
        cases hget.symm.trans hget'
        exact hv2
      · intro hv2
        exact hv2 torrent hget
    · cases hn
  | alert env ref alert =>
    refine iff_of_true ?_ trivial
    obtain ⟨torrent, hget, rfl⟩ := Option.map_eq_some_iff.mp hn
    have htouches := w.engine.touchesOnly_alert env torrent.hashes alert
    -- the id that the handler makes is the one returned, under which a handle is stored
    obtain ⟨id, hid⟩ := hc.all ref (List.getElem?_eq_some_iff.mp hget).1
    have hmade := h.returned id ref hid
    rw [alertId, hget, Option.map_some] at hmade
    have hstored := hc.stored id ref hid
    rw [← Option.some.inj hmade] at hstored
    refine ⟨h.returned, ?_, h.keyed.of_touches hstored htouches⟩
    intro id' handle hhandle
    simp only [htouches.sessions] at hhandle
    exact h.stored id' handle hhandle
  | select env id fi =>
    refine iff_of_true ?_ trivial
    cases hn
    obtain ⟨catalog, hrecords, _⟩ := SeekServeEngine.records_selectFile env w.engine id fi
    have hsessions : (w.engine.selectFile env id fi).2.sessions = w.engine.sessions :=
      congrArg Records.sessions hrecords
    refine ⟨h.returned, ?_, h.keyed.of_selectFile env id fi⟩
    intro id' handle hhandle
    simp only [SeekServeEngine.step, hsessions] at hhandle
    exact h.stored id' handle hhandle

/-- Throughout a run every torrent has one id if and only if none gets its first v2 hash
after it was added. -/
theorem one_id_iff (config : Config) (cache : OfflineCacheManager) {es : List LtEvent}
    {w : LtWorld} (h : system.exec (start config cache) es = some w) :
    system.Always (OneId cache) (start config cache) es ↔
      system.EachStep NoLateV2 (start config cache) es := by
  apply system.always_iff_eachStep Complete (OneId cache) NoLateV2 _ _
    (complete_start config cache) (oneId_start config cache) h
  · intro u ev u' hc hn
    exact complete_next hc hn
  · intro u ev u' hc hone hn
    exact oneId_next_iff hc hone hn

/-- What libtorrent answers as long as torrents keep their ids: the torrent stored under the
id that the URI loads as, or a new one. -/
def answerOf (w : LtWorld) (loaded : InfoHash) : LtAnswer :=
  match w.engine.sessions.getHandle (infohashToHex loaded) with
  | some handle => .known handle.ref
  | none => .new loaded

/-- The handles of the session point to libtorrent's torrents. -/
structure Aligned (w : LtWorld) : Prop where
  nextRef : w.engine.sessions.nextRef = w.torrents.length
  handles : ∀ id handle, w.engine.sessions.getHandle id = some handle →
    ∃ torrent, w.torrents[handle.ref]? = some torrent ∧ torrent.savePath = handle.savePath

theorem aligned_start (config : Config) (cache : OfflineCacheManager) :
    (start config cache).Aligned := by
  refine ⟨rfl, ?_⟩
  intro id handle hhandle
  cases hhandle

theorem Aligned.of_sessions (h : w.Aligned) (hsessions : w'.engine.sessions = w.engine.sessions)
    (htorrents : w'.torrents = w.torrents) : w'.Aligned := by
  refine ⟨?_, ?_⟩
  · rw [hsessions, htorrents]
    exact h.nextRef
  · rw [hsessions, htorrents]
    exact h.handles

theorem aligned_next {ev : LtEvent} (h : w.Aligned) (hn : w.next ev = some w') : w'.Aligned := by
  cases ev with
  | add env byEngine params answer =>
    rcases next_add_cases hn with rfl | ⟨ref, torrent, torrents, hget, ⟨more, rfl⟩, _, rfl⟩
    · exact h
    refine ⟨rfl, ?_⟩
    intro id handle hhandle
    rw [getHandle_store] at hhandle
    split at hhandle
    · cases hhandle
      exact ⟨torrent, hget, rfl⟩
    · obtain ⟨old, hold, hpath⟩ := h.handles id handle hhandle
      refine ⟨old, ?_, hpath⟩
      simp only [store]
      rw [List.getElem?_append_left (List.getElem?_eq_some_iff.mp hold).1]
      exact hold
  | learn ref hashes =>
    simp only [next] at hn
    split at hn
    · cases hn
    rename_i torrent hget
    split at hn
    · cases hn
      refine ⟨?_, ?_⟩
      · simp only [List.length_set]
        exact h.nextRef
      · intro id handle hhandle
        obtain ⟨old, hold, hpath⟩ := h.handles id handle hhandle
        have hlt : handle.ref < w.torrents.length := (List.getElem?_eq_some_iff.mp hold).1
        by_cases heq : ref = handle.ref
        · subst heq
          cases hget.symm.trans hold
          exact ⟨{ torrent with hashes := hashes }, List.getElem?_set_self hlt, hpath⟩
        · exact ⟨old, (List.getElem?_set_ne heq).trans hold, hpath⟩
    · cases hn
  | alert env ref alert =>
    obtain ⟨torrent, _, rfl⟩ := Option.map_eq_some_iff.mp hn
    exact h.of_sessions (w.engine.touchesOnly_alert env torrent.hashes alert).sessions rfl
  | select env id fi =>
    cases hn
    obtain ⟨catalog, hrecords, _⟩ := SeekServeEngine.records_selectFile env w.engine id fi
    exact h.of_sessions (congrArg Records.sessions hrecords) rfl

/-- With this answer, an addition does what the engine's own `add_torrent` does. -/
theorem next_add_eq_addTorrent (ha : w.Aligned) (hone : w.OneId cache) {env : Env}
    {params : AddTorrentParams} {loaded : InfoHash}
    (hload : env.load.load params.uri = .ok loaded) :
    ∃ w', w.next (.add env true params (w.answerOf loaded)) = some w' ∧
      w'.engine = (w.engine.addTorrent env params.uri params.savePath).2 ∧
      ∃ ref, w'.returned = (infohashToHex loaded, ref) :: w.returned ∧
        (w.engine.addTorrent env params.uri params.savePath).1 = .ok (infohashToHex loaded) := by
  have hlearns : loaded.Learns loaded := ⟨Or.inl rfl, Or.inl rfl⟩
  unfold answerOf
  cases hold : w.engine.sessions.getHandle (infohashToHex loaded) with
  | some handle =>
    obtain ⟨torrent, hget, hpath⟩ := ha.handles _ handle hold
    have hid := hone.stored _ handle hold
    rw [alertId, hget, Option.map_some, Option.some.injEq] at hid
    have hlookup : w.engine.sessions.handles.lookup (infohashToHex loaded) = some handle := hold
    have hhandle : (⟨handle.ref, torrent.savePath⟩ : TorrentHandle) = handle := by rw [hpath]
    refine ⟨w.store env true params.uri handle.ref torrent w.torrents, ?_, ?_, handle.ref, ?_, ?_⟩
    · simp only [next, hload, sessionAdd, hget, Option.map_some]
    · simp only [store, hid, hhandle, SeekServeEngine.addTorrent, TorrentSessionManager.addTorrent,
        hload, TorrentSessionManager.sessionAdd, hlookup, ← ha.nextRef, if_true]
    · simp only [store, hid]
    · simp only [SeekServeEngine.addTorrent, TorrentSessionManager.addTorrent, hload]
  | none =>
    have hlookup : w.engine.sessions.handles.lookup (infohashToHex loaded) = none := hold
    obtain ⟨added, hadded⟩ : ∃ torrent : LtTorrent, torrent = ⟨loaded,
        if params.savePath = [] then w.engine.sessions.config.savePath else params.savePath⟩ :=
      ⟨_, rfl⟩
    refine ⟨w.store env true params.uri w.torrents.length added (w.torrents ++ [added]), ?_, ?_,
      w.torrents.length, ?_, ?_⟩
    · simp only [next, hload, sessionAdd, if_pos hlearns, Option.map_some, hadded]
    · simp only [hadded, store, SeekServeEngine.addTorrent, TorrentSessionManager.addTorrent, hload,
        TorrentSessionManager.sessionAdd, hlookup, ha.nextRef, List.length_append,
        List.length_singleton, if_true]
    · simp only [hadded, store]
    · simp only [SeekServeEngine.addTorrent, TorrentSessionManager.addTorrent, hload]

end LtWorld

section LateMetadata

/-! A hybrid torrent that is added by its v1 magnet link. -/

def hybridHash : InfoHash := ⟨(sampleHash 1).v1, some (Vector.replicate 32 2)⟩

def magnetEnv : Env :=
  { sampleEnv with
    load :=
      { parseMagnetUri := fun _ => some (sampleHash 1)
        loadTorrentFile := fun _ => some hybridHash } }

def addMagnet : LtEvent := .add magnetEnv true ⟨"magnet:?xt".toList, []⟩ (.new (sampleHash 1))

def addHybridFile : LtEvent := .add magnetEnv true ⟨"a.torrent".toList, []⟩ (.new hybridHash)

def metadataArrives : LtEvent := .alert magnetEnv 0 (.metadataReceived sampleInfo)

theorem LtWorld.one_id_iff_file :
    LtWorld.system.Always (LtWorld.OneId .empty) (.start {} .empty)
      [addHybridFile, metadataArrives] := by
  obtain ⟨w, hw⟩ : ∃ w, LtWorld.system.exec (.start {} .empty) [addHybridFile, metadataArrives] =
    some w := ⟨_, rfl⟩
  apply (LtWorld.one_id_iff {} .empty hw).mpr
  apply Runs.System.EachStep.of_forall
  intro ev hev w
  rcases List.mem_cons.mp hev with rfl | hev
  · trivial
  · rw [List.mem_singleton.mp hev]
    trivial

/-- The v2 hash comes with the metadata, and the handle stays under the v1 id. -/
theorem LtWorld.late_v2_gives_second_id :
    ¬∀ (config : Config) (cache : OfflineCacheManager) (es : List LtEvent) (w : LtWorld),
      LtWorld.system.exec (.start config cache) es = some w →
      LtWorld.system.Always (LtWorld.OneId cache) (.start config cache) es := by
  intro h
  obtain ⟨w, hw⟩ : ∃ w, LtWorld.system.exec (.start {} .empty)
      [addMagnet, .learn 0 hybridHash, metadataArrives] = some w := ⟨_, rfl⟩
  have hone := h {} .empty _ w hw _ w List.prefix_rfl hw
  cases hw
  have hid := hone.returned (sampleId 1) 0 List.mem_cons_self
  exact absurd hid (by decide)

end LateMetadata

end SeekServe
