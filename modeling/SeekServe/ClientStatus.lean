import SeekServe.CatalogRuns
import SeekServe.Scheduler

/-!
# The status of a torrent through the C API

`get_status_json` writes what libtorrent, the catalog, the cache and the scheduler know of a
torrent, and `TorrentStatus.fromJson` reads it on the Dart side.
-/

namespace SeekServe

set_option autoImplicit false

/-- What `handle.status()` reports. -/
structure LiveStatus where
  name : CxxString
  progress : Rat
  downloadRate : Int
  uploadRate : Int
  numPeers : Int
  numSeeds : Int
  totalDownload : Int
  totalUpload : Int
  state : Int
  paused : Bool

/-- What lies outside of the engine's own records: libtorrent and the schedulers. -/
structure Views where
  live : TorrentHandle → LiveStatus
  scheduler : Nat → StreamingScheduler

def StreamMode.toInt : StreamMode → Int
  | .streamingFirst => 0
  | .downloadAssist => 1
  | .downloadFirst => 2

/-- The members of an object that are assigned. -/
def assigned (fields : List (String × Option JsonValue)) : List (CxxString × JsonValue) :=
  fields.filterMap fun field => field.2.map fun v => (field.1.toList, v)

namespace SeekServeEngine

def statusFields (views : Views) (e : SeekServeEngine) (id : TorrentId) (st : LiveStatus) :
    List (String × Option JsonValue) :=
  let selected := e.catalog.selectedFile id
  let scheduler := (e.states.lookup id).map fun state => views.scheduler state.scheduler
  [("torrent_id", some (.string id)),
    ("name", some (.string st.name)),
    ("progress", some (.floating st.progress)),
    ("download_rate", some (.integer st.downloadRate)),
    ("upload_rate", some (.integer st.uploadRate)),
    ("num_peers", some (.integer st.numPeers)),
    ("num_seeds", some (.integer st.numSeeds)),
    ("total_download", some (.integer st.totalDownload)),
    ("total_upload", some (.integer st.totalUpload)),
    ("state", some (.integer st.state)),
    ("paused", some (.boolean st.paused)),
    ("has_metadata", some (.boolean (e.catalog.hasMetadata id))),
    ("selected_file", some ((selected.map JsonValue.integer).getD .null)),
    ("offline_ready", selected.map fun fi => .boolean (e.cache.isOfflineReady id fi)),
    ("stream_mode", scheduler.map fun s => .integer s.mode.toInt),
    ("playhead_piece", scheduler.map fun s => .integer s.playheadPiece),
    ("active_deadlines", scheduler.map fun s => .integer s.activeDeadlines)]

def getStatusJson (views : Views) (e : SeekServeEngine) (id : TorrentId) : JsonValue :=
  match e.sessions.getHandle id with
  | none => .object (assigned [("error", some (.string "torrent not found".toList))])
  | some handle => .object (assigned (e.statusFields views id (views.live handle)))

end SeekServeEngine

def CApi.ssGetStatus (dump : JsonValue → Option (List UInt8)) (views : Views)
    (e : SeekServeEngine) (torrentId : CxxString) : Option CAnswer :=
  (dump (e.getStatusJson views torrentId)).map allocated

/-- A `double` made of a JSON number; the value of one with a fraction is left open. -/
inductive DartDouble where
  | ofInt (i : Int)
  | fractional
  deriving DecidableEq

/-- `TorrentStatus` on the Dart side. -/
structure TorrentStatus where
  torrentId : DartString
  name : DartString
  progress : DartDouble
  downloadRate : DartDouble
  uploadRate : DartDouble
  numPeers : Int
  numSeeds : Int
  state : DartString
  isPaused : Bool
  hasMetadata : Bool
  selectedFile : Option Int
  streamMode : Option DartString
  playheadPiece : Option Int
  activeDeadlines : Option Int
  deriving DecidableEq

/-- `as bool?` -/
def asBool : Option Json.Value → Option (Option Bool)
  | none | some .null => some none
  | some (.bool b) => some (some b)
  | some _ => none

/-- `(… as num?)?.toDouble()` -/
def asDouble : Option Json.Value → Option (Option DartDouble)
  | none | some .null => some none
  | some (.int i) => some (some (.ofInt i))
  | some .double => some (some .fractional)
  | some _ => none

/-- A cast to a type with null. -/
def nullable {α : Type} : Option (Option α) → CallResult (Option α)
  | some o => .returned o
  | none => .type

/-- The same with `??`. -/
def orElse {α : Type} (a : α) (o : Option (Option α)) : CallResult α :=
  (nullable o).map fun o => o.getD a

namespace TorrentStatus

def parseState : Option Json.Value → DartString
  | some (.string s) => s
  | some (.int i) =>
    if i = 1 then Json.word "checking_files"
    else if i = 2 then Json.word "downloading_metadata"
    else if i = 3 then Json.word "downloading"
    else if i = 4 then Json.word "finished"
    else if i = 5 then Json.word "seeding"
    else if i = 7 then Json.word "checking_resume_data"
    else Json.word "unknown"
  | _ => Json.word "unknown"

def parseStreamMode : Option Json.Value → Option DartString
  | some (.string s) => some s
  | some (.int i) =>
    if i = 0 then some (Json.word "streaming_first")
    else if i = 1 then some (Json.word "download_assist")
    else if i = 2 then some (Json.word "download_first")
    else some (Json.word "mode_" ++ Json.units (CxxString.ofInt i))
  | _ => none

def fromJson (json : List (DartString × Json.Value)) : CallResult TorrentStatus :=
  let entry := fun key => Json.field (Json.word key) json
  (orElse [] (asString (entry "torrent_id"))).bind fun torrentId =>
  (orElse [] (asString (entry "name"))).bind fun name =>
  (orElse (.ofInt 0) (asDouble (entry "progress"))).bind fun progress =>
  (orElse (.ofInt 0) (asDouble (entry "download_rate"))).bind fun downloadRate =>
  (orElse (.ofInt 0) (asDouble (entry "upload_rate"))).bind fun uploadRate =>
  (orElse 0 (asInt (entry "num_peers"))).bind fun numPeers =>
  (orElse 0 (asInt (entry "num_seeds"))).bind fun numSeeds =>
  (orElse false (asBool (entry "paused"))).bind fun isPaused =>
  (orElse false (asBool (entry "has_metadata"))).bind fun hasMetadata =>
  (nullable (asInt (entry "selected_file"))).bind fun selectedFile =>
  (nullable (asInt (entry "playhead_piece"))).bind fun playheadPiece =>
  (nullable (asInt (entry "active_deadlines"))).map fun activeDeadlines =>
    { torrentId, name, progress, downloadRate, uploadRate, numPeers, numSeeds
      state := parseState (entry "state")
      isPaused, hasMetadata, selectedFile
      streamMode := parseStreamMode (entry "stream_mode")
      playheadPiece, activeDeadlines }

end TorrentStatus

def SeekServeClient.getStatus (dump : JsonValue → Option (List UInt8)) (views : Views)
    (e : SeekServeEngine) (torrentId : DartString) : CallResult TorrentStatus :=
  (jsonOf (CApi.ssGetStatus dump views e (passed torrentId))).bind fun decoded =>
    match decoded with
    | .object map => TorrentStatus.fromJson map
    | _ => .type

section Assigned
variable {fields : List (String × Option JsonValue)}
  (hascii : ∀ key ∈ fields.map Prod.fst, (key.toList.all fun c => c.toNat < 128) = true)
  (hnodup : (fields.map Prod.fst).Nodup)
include hascii hnodup

theorem stands_assigned (h : ∀ key v, (key, some v) ∈ fields → ∃ w : Json.Value, v.Stands w) :
    ∃ w, (JsonValue.object (assigned fields)).Stands w := by
  obtain ⟨ps, hsub, hps, hstands⟩ : ∃ ps : List (String × JsonValue × Json.Value),
      (ps.map Prod.fst).Sublist (fields.map Prod.fst) ∧
      ps.map (fun p => (p.1.toList, p.2.1)) = assigned fields ∧ ∀ p ∈ ps, p.2.1.Stands p.2.2 := by
    clear hascii hnodup
    induction fields with
    | nil => exact ⟨[], List.Sublist.refl _, rfl, fun p hp => absurd hp List.not_mem_nil⟩
    | cons field fields ih =>
      obtain ⟨ps, hsub, hps, hstands⟩ := ih fun key v hmem => h key v (List.mem_cons_of_mem _ hmem)
      obtain ⟨key, o⟩ := field
      cases o with
      | none => exact ⟨ps, hsub.cons key, hps, hstands⟩
      | some v =>
        obtain ⟨w, hw⟩ := h key v List.mem_cons_self
        refine ⟨(key, v, w) :: ps, hsub.cons_cons key, congrArg ((key.toList, v) :: ·) hps, ?_⟩
        intro p hp
        rcases List.mem_cons.mp hp with rfl | hp
        · exact hw
        · exact hstands p hp
  rw [← hps]
  exact ⟨_, .record rfl (fun key hkey => hascii key (hsub.mem hkey)) (hsub.nodup hnodup) hstands⟩

/-- What the Dart side finds under each key. -/
theorem JsonValue.Stands.field_assigned {w : Json.Value}
    (h : (JsonValue.object (assigned fields)).Stands w) :
    ∃ ns, w = .object ns ∧ ∀ key o, (key, o) ∈ fields →
      (o = none → Json.field (Json.word key) ns = none) ∧
      ∀ v, o = some v → ∃ w', v.Stands w' ∧ Json.field (Json.word key) ns = some w' := by
  obtain ⟨ns, rfl, hkeys⟩ := h.of_record
  refine ⟨ns, rfl, ?_⟩
  intro key o hmem
  obtain ⟨hsome, hnone⟩ := hkeys key (hascii key (List.mem_map_of_mem (f := Prod.fst) hmem))
  constructor
  · intro ho
    apply hnone
    intro hkey
    obtain ⟨m, hm, heq⟩ := List.mem_map.mp hkey
    obtain ⟨⟨key', o'⟩, hfield, hvalue⟩ := List.mem_filterMap.mp hm
    obtain ⟨v, ho', rfl⟩ := Option.map_eq_some_iff.mp hvalue
    have hsame : key' = key := String.toList_inj.mp heq
    subst hsame
    -- each key is there once
    have hpair := List.inj_on_of_nodup_map hnodup hfield hmem rfl
    cases hpair
    rw [ho] at ho'
    cases ho'
  · intro v ho
    apply hsome
    apply List.mem_filterMap.mpr
    refine ⟨(key, o), hmem, ?_⟩
    rw [ho]
    rfl

end Assigned

/-- The fields of a status as the C++ types hold them; the name is any string of bytes. -/
structure LiveStatus.Sound (st : LiveStatus) : Prop where
  name : ∀ c ∈ st.name, c.toNat < 256
  downloadRate : -(2 ^ 31) ≤ st.downloadRate ∧ st.downloadRate < 2 ^ 31
  uploadRate : -(2 ^ 31) ≤ st.uploadRate ∧ st.uploadRate < 2 ^ 31
  numPeers : -(2 ^ 31) ≤ st.numPeers ∧ st.numPeers < 2 ^ 31
  numSeeds : -(2 ^ 31) ≤ st.numSeeds ∧ st.numSeeds < 2 ^ 31
  totalDownload : -(2 ^ 63) ≤ st.totalDownload ∧ st.totalDownload < 2 ^ 63
  totalUpload : -(2 ^ 63) ≤ st.totalUpload ∧ st.totalUpload < 2 ^ 63
  state : -(2 ^ 31) ≤ st.state ∧ st.state < 2 ^ 31

/-- The same of everything outside of the engine. -/
structure Views.Sound (views : Views) : Prop where
  live : ∀ handle, (views.live handle).Sound
  playhead : ∀ n, -(2 ^ 31) ≤ (views.scheduler n).playheadPiece ∧
    (views.scheduler n).playheadPiece < 2 ^ 31
  deadlines : ∀ n, -(2 ^ 31) ≤ (views.scheduler n).activeDeadlines ∧
    (views.scheduler n).activeDeadlines < 2 ^ 31

def StreamMode.onClient : StreamMode → DartString
  | .streamingFirst => Json.word "streaming_first"
  | .downloadAssist => Json.word "download_assist"
  | .downloadFirst => Json.word "download_first"

namespace TorrentStatus

theorem parseStreamMode_toInt (mode : StreamMode) :
    parseStreamMode (some (.int mode.toInt)) = some mode.onClient := by
  cases mode <;> rfl

/-- The status of an answer that has none of its keys. -/
def blank : TorrentStatus where
  torrentId := []
  name := []
  progress := .ofInt 0
  downloadRate := .ofInt 0
  uploadRate := .ofInt 0
  numPeers := 0
  numSeeds := 0
  state := Json.word "unknown"
  isPaused := false
  hasMetadata := false
  selectedFile := none
  streamMode := none
  playheadPiece := none
  activeDeadlines := none

/-- The status of a torrent of the engine. -/
def ofEngine (views : Views) (e : SeekServeEngine) (id : TorrentId) (st : LiveStatus) :
    TorrentStatus :=
  let scheduler := (e.states.lookup id).map fun state => views.scheduler state.scheduler
  { torrentId := Json.units id
    name := Utf8.utf16 (textOf st.name)
    progress := .fractional
    downloadRate := .ofInt st.downloadRate
    uploadRate := .ofInt st.uploadRate
    numPeers := st.numPeers
    numSeeds := st.numSeeds
    state := parseState (some (.int st.state))
    isPaused := st.paused
    hasMetadata := e.catalog.hasMetadata id
    selectedFile := e.catalog.selectedFile id
    streamMode := scheduler.map fun s => s.mode.onClient
    playheadPiece := scheduler.map StreamingScheduler.playheadPiece
    activeDeadlines := scheduler.map StreamingScheduler.activeDeadlines }

end TorrentStatus

theorem JsonValue.Stands.boolean_iff {b : Bool} {w : Json.Value} :
    (JsonValue.boolean b).Stands w ↔ w = .bool b := by
  constructor
  · intro h
    cases h with
    | boolean _ => rfl
  · rintro rfl
    exact .boolean b

theorem JsonValue.Stands.floating_iff {x : Rat} {w : Json.Value} :
    (JsonValue.floating x).Stands w ↔ w = .double := by
  constructor
  · intro h
    cases h with
    | floating _ => rfl
  · rintro rfl
    exact .floating x

theorem JsonValue.Stands.null_iff {w : Json.Value} : JsonValue.null.Stands w ↔ w = .null := by
  constructor
  · intro h
    cases h with
    | null => rfl
  · rintro rfl
    exact .null

/-- A string of bytes that is UTF-8 holds a text. -/
theorem utf8String_textOf {s : CxxString} (hbytes : ∀ c ∈ s, c.toNat < 256) (hs : Dumpable s) :
    s = utf8String (textOf s) := by
  obtain ⟨cs, hcs⟩ := Option.isSome_iff_exists.mp hs
  have hencode := Utf8.decode_eq_some_iff.mp hcs
  unfold textOf utf8String
  rw [hcs, Option.getD_some, hencode]
  unfold CxxString.bytes
  rw [List.map_map]
  symm
  have hsame : ∀ c ∈ s, Char.ofNat (UInt8.ofNat c.toNat).toNat = c := by
    intro c hc
    rw [UInt8.toNat_ofNat_of_lt' (hbytes c hc), Char.ofNat_toNat]
  exact (List.map_congr_left hsame).trans (List.map_id s)

section Fields
variable {views : Views} {e : SeekServeEngine} {id : TorrentId} {handle : TorrentHandle}
  (hviews : views.Sound) (hname : Dumpable (views.live handle).name) (hfits : e.catalog.Fits)
  (hhex : ∀ c ∈ id, isHexDigit c = true)
include hviews hname hfits hhex

theorem stands_statusFields :
    ∃ w, (JsonValue.object (assigned (e.statusFields views id (views.live handle)))).Stands w := by
  have hinteger : ∀ {i : Int}, -(2 ^ 63) ≤ i → i < 2 ^ 63 →
      ∃ w, (JsonValue.integer i).Stands w := fun hlow hhigh => ⟨_, .integer hlow hhigh⟩
  have hboolean : ∀ b : Bool, ∃ w, (JsonValue.boolean b).Stands w := fun b => ⟨_, .boolean b⟩
  have hlive := hviews.live handle
  have htext := JsonValue.Stands.string (textOf (views.live handle).name)
  rw [← utf8String_textOf hlive.name hname] at htext
  obtain ⟨hbytes, -⟩ := ascii_text (lt_of_hex hhex)
  have hid := JsonValue.Stands.string id
  rw [hbytes] at hid
  obtain ⟨-, hdownload, hupload, hpeers, hseeds, htotal, htotalUp, hstate⟩ := hlive
  apply stands_assigned (by simp [SeekServeEngine.statusFields])
    (by simp [SeekServeEngine.statusFields])
  intro key v hmem
  simp only [SeekServeEngine.statusFields, List.mem_cons, Prod.mk.injEq, Option.some.injEq,
    List.not_mem_nil, or_false] at hmem
  rcases hmem with ⟨-, rfl⟩ | ⟨-, rfl⟩ | ⟨-, rfl⟩ | ⟨-, rfl⟩ | ⟨-, rfl⟩ | ⟨-, rfl⟩ | ⟨-, rfl⟩ |
    ⟨-, rfl⟩ | ⟨-, rfl⟩ | ⟨-, rfl⟩ | ⟨-, rfl⟩ | ⟨-, rfl⟩ | ⟨-, rfl⟩ | ⟨-, hv⟩ | ⟨-, hv⟩ | ⟨-, hv⟩ |
    ⟨-, hv⟩
  · exact ⟨_, hid⟩
  · exact ⟨_, htext⟩
  · exact ⟨_, .floating _⟩
  · exact hinteger (by omega) (by omega)
  · exact hinteger (by omega) (by omega)
  · exact hinteger (by omega) (by omega)
  · exact hinteger (by omega) (by omega)
  · exact hinteger htotal.1 htotal.2
  · exact hinteger htotalUp.1 htotalUp.2
  · exact hinteger (by omega) (by omega)
  · exact hboolean _
  · exact hboolean _
  · cases hselected : e.catalog.selectedFile id with
    | none => exact ⟨_, .null⟩
    | some fi =>
      have hfi := hfits.selected_of_selectedFile hselected
      exact hinteger (by omega) (by omega)
  · obtain ⟨fi, -, rfl⟩ := Option.map_eq_some_iff.mp hv.symm
    exact hboolean _
  · obtain ⟨s, -, rfl⟩ := Option.map_eq_some_iff.mp hv.symm
    cases s.mode <;> exact hinteger (by decide) (by decide)
  · obtain ⟨s, hs, rfl⟩ := Option.map_eq_some_iff.mp hv.symm
    obtain ⟨state, -, rfl⟩ := Option.map_eq_some_iff.mp hs
    have hplayhead := hviews.playhead state.scheduler
    exact hinteger (by omega) (by omega)
  · obtain ⟨s, hs, rfl⟩ := Option.map_eq_some_iff.mp hv.symm
    obtain ⟨state, -, rfl⟩ := Option.map_eq_some_iff.mp hs
    have hdeadlines := hviews.deadlines state.scheduler
    exact hinteger (by omega) (by omega)

omit hfits in
/-- The client reads every field as it was written. -/
theorem fromJson_statusFields {w : Json.Value}
    (h : (JsonValue.object (assigned (e.statusFields views id (views.live handle)))).Stands w) :
    ∃ ns, w = .object ns ∧
      TorrentStatus.fromJson ns = .returned (.ofEngine views e id (views.live handle)) := by
  obtain ⟨ns, rfl, hkeys⟩ := h.field_assigned (by simp [SeekServeEngine.statusFields])
    (by simp [SeekServeEngine.statusFields])
  refine ⟨ns, rfl, ?_⟩
  have hread : ∀ (i : Nat) key v w,
      (e.statusFields views id (views.live handle))[i]? = some (key, some v) →
      (∀ w', JsonValue.Stands v w' → w' = w) → Json.field (Json.word key) ns = some w := by
    intro i key v w hget hw
    obtain ⟨w', hv, hfield⟩ := (hkeys key (some v) (List.mem_of_getElem? hget)).2 v rfl
    rw [hfield, hw w' hv]
  have hinteger : ∀ i w', JsonValue.Stands (.integer i) w' → w' = .int i :=
    fun i w' hw => (JsonValue.Stands.integer_iff.mp hw).2.2
  have hboolean : ∀ b w', JsonValue.Stands (.boolean b) w' → w' = .bool b :=
    fun b w' hw => JsonValue.Stands.boolean_iff.mp hw
  have htext :
      ∀ cs w', JsonValue.Stands (.string (utf8String cs)) w' → w' = .string (Utf8.utf16 cs) :=
    fun cs w' hw => hw.of_string
  obtain ⟨hbytes, hunits⟩ := ascii_text (lt_of_hex hhex)
  have hid := htext id
  rw [hbytes, hunits] at hid
  have hwhole := htext (textOf (views.live handle).name)
  rw [← utf8String_textOf (hviews.live handle).name hname] at hwhole
  have hnull : ∀ w', JsonValue.Stands .null w' → w' = .null :=
    fun w' hw => JsonValue.Stands.null_iff.mp hw
  have hselected : Json.field (Json.word "selected_file") ns =
      some (((e.catalog.selectedFile id).map Json.Value.int).getD .null) := by
    apply hread 12 _ _ _ rfl
    cases e.catalog.selectedFile id with
    | none => exact hnull
    | some fi => exact hinteger fi
  have hoption : ∀ (i : Nat) key (f : StreamingScheduler → Int),
      (e.statusFields views id (views.live handle))[i]? = some (key,
        ((e.states.lookup id).map fun state => views.scheduler state.scheduler).map
          fun s => JsonValue.integer (f s)) →
      Json.field (Json.word key) ns =
        ((e.states.lookup id).map fun state => views.scheduler state.scheduler).map
          fun s => Json.Value.int (f s) := by
    intro i key f hget
    cases hstate : e.states.lookup id with
    | none =>
      rw [hstate] at hget
      exact (hkeys key _ (List.mem_of_getElem? hget)).1 rfl
    | some state =>
      rw [hstate] at hget
      exact hread i key _ _ hget (hinteger _)
  simp only [TorrentStatus.fromJson, hread 0 "torrent_id" _ _ rfl hid,
    hread 1 "name" _ _ rfl hwhole,
    hread 2 "progress" _ _ rfl (fun w' hw => JsonValue.Stands.floating_iff.mp hw),
    hread 3 "download_rate" _ _ rfl (hinteger _), hread 4 "upload_rate" _ _ rfl (hinteger _),
    hread 5 "num_peers" _ _ rfl (hinteger _), hread 6 "num_seeds" _ _ rfl (hinteger _),
    hread 9 "state" _ _ rfl (hinteger _), hread 10 "paused" _ _ rfl (hboolean _),
    hread 11 "has_metadata" _ _ rfl (hboolean _), hselected,
    hoption 14 "stream_mode" (fun s => s.mode.toInt) rfl,
    hoption 15 "playhead_piece" StreamingScheduler.playheadPiece rfl,
    hoption 16 "active_deadlines" StreamingScheduler.activeDeadlines rfl]
  unfold TorrentStatus.ofEngine
  cases e.catalog.selectedFile id with
  | none =>
    cases e.states.lookup id with
    | none => rfl
    | some state => simp [TorrentStatus.parseStreamMode_toInt]; rfl
  | some fi =>
    cases e.states.lookup id with
    | none => rfl
    | some state => simp [TorrentStatus.parseStreamMode_toInt]; rfl

end Fields

theorem getHandle_eq_none {m : TorrentSessionManager} {id : TorrentId} :
    m.getHandle id = none ↔ m.hasTorrent id = false := by
  unfold TorrentSessionManager.getHandle TorrentSessionManager.hasTorrent
  rw [Option.isSome_eq_false_iff, Option.isNone_iff_eq_none]

section Client
variable {dump : JsonValue → Option (List UInt8)} {parse : List UInt8 → Option JsonValue}
  (hjson : FollowsJson dump parse)
include hjson

theorem getStatus_returned {views : Views} {e : SeekServeEngine} {torrentId : DartString}
    {handle : TorrentHandle} (hhandle : e.sessions.getHandle (passed torrentId) = some handle)
    (hviews : views.Sound) (hname : Dumpable (views.live handle).name) (hfits : e.catalog.Fits)
    (hhex : ∀ c ∈ passed torrentId, isHexDigit c = true) :
    SeekServeClient.getStatus dump views e torrentId =
      .returned (.ofEngine views e (passed torrentId) (views.live handle)) := by
  obtain ⟨w, hw⟩ := stands_statusFields hviews hname hfits hhex
  obtain ⟨w', hw', hanswer⟩ := jsonOf_dump hjson hw
  obtain ⟨ns, rfl, hread⟩ := fromJson_statusFields hviews hname hhex hw'
  unfold SeekServeClient.getStatus CApi.ssGetStatus SeekServeEngine.getStatusJson
  rw [hhandle]
  simp only
  rw [hanswer]
  exact hread

/-- Of a torrent that the session does not have the client gets a blank status, and no error. -/
theorem getStatus_blank {views : Views} {e : SeekServeEngine} {torrentId : DartString}
    (hhas : e.sessions.hasTorrent (passed torrentId) = false) :
    SeekServeClient.getStatus dump views e torrentId = .returned .blank := by
  let fields : List (String × Option JsonValue) :=
    [("error", some (.string "torrent not found".toList))]
  have hascii : ∀ key ∈ fields.map Prod.fst,
      (key.toList.all fun c => c.toNat < 128) = true := by decide
  have hnodup : (fields.map Prod.fst).Nodup := by decide
  obtain ⟨hbytes, -⟩ := ascii_word (s := "torrent not found") rfl
  have herror := JsonValue.Stands.string "torrent not found".toList
  rw [hbytes] at herror
  obtain ⟨w, hw⟩ := stands_assigned hascii hnodup (by
    intro key v hmem
    cases List.mem_singleton.mp hmem
    exact ⟨_, herror⟩)
  obtain ⟨w', hw', hanswer⟩ := jsonOf_dump hjson hw
  obtain ⟨ns, rfl, hkeys⟩ := hw'.of_record
  have hnone : ∀ key ∈ ["torrent_id", "name", "progress", "download_rate", "upload_rate",
      "num_peers", "num_seeds", "state", "paused", "has_metadata", "selected_file",
      "stream_mode", "playhead_piece", "active_deadlines"],
      Json.field (Json.word key) ns = none := by
    intro key hkey
    have hother : (key.toList.all fun c => c.toNat < 128) = true ∧
        key.toList ∉ (assigned fields).map Prod.fst := by
      revert key
      decide
    exact (hkeys key hother.1).2 hother.2
  unfold SeekServeClient.getStatus CApi.ssGetStatus SeekServeEngine.getStatusJson
  rw [getHandle_eq_none.mpr hhas]
  simp only
  rw [hanswer]
  simp only [List.forall_mem_cons] at hnone
  obtain ⟨hid, hname, hprogress, hdownload, hupload, hpeers, hseeds, hstate, hpaused, hmetadata,
    hselected, hmode, hplayhead, hdeadlines, -⟩ := hnone
  simp only [CallResult.bind, TorrentStatus.fromJson, hid, hname, hprogress, hdownload, hupload,
    hpeers, hseeds, hstate, hpaused, hmetadata, hselected, hmode, hplayhead, hdeadlines]
  rfl

end Client

/-- A name that is no UTF-8 ends the process: no one catches what `dump` throws. -/
theorem getStatus_terminated {dump : JsonValue → Option (List UInt8)}
    (hrejects : RejectsBytes dump) {views : Views} {e : SeekServeEngine} {torrentId : DartString}
    {handle : TorrentHandle} (hhandle : e.sessions.getHandle (passed torrentId) = some handle)
    (hname : ¬Dumpable (views.live handle).name) :
    SeekServeClient.getStatus dump views e torrentId = .terminated := by
  have hquotes : (views.live handle).name ∈ (JsonValue.object (assigned
      (e.statusFields views (passed torrentId) (views.live handle)))).strings := by
    apply JsonValue.mem_memberStrings.mpr
    refine ⟨("name".toList, .string (views.live handle).name), ?_,
      Or.inr (List.mem_singleton.mpr rfl)⟩
    apply List.mem_filterMap.mpr
    exact ⟨("name", some (.string (views.live handle).name)), by
      simp [SeekServeEngine.statusFields], rfl⟩
  unfold SeekServeClient.getStatus CApi.ssGetStatus SeekServeEngine.getStatusJson
  rw [hhandle]
  simp only
  rw [hrejects _ _ hquotes hname]
  rfl

/-- What the client learns of any torrent, at any point of a run. -/
theorem SeekServeClient.status_comes_through {dump : JsonValue → Option (List UInt8)}
    {parse : List UInt8 → Option JsonValue} (hjson : FollowsJson dump parse)
    (hrejects : RejectsBytes dump) (env : Env) (config : Config) (cache : OfflineCacheManager)
    {evs : List Event} (hevs : ∀ ev ∈ evs, ev.Sound) {views : Views} (hviews : views.Sound)
    (torrentId : DartString) :
    let e := SeekServeEngine.machine.run (.create env config cache) evs
    (e.sessions.hasTorrent (passed torrentId) = false ∧
      getStatus dump views e torrentId = .returned .blank) ∨
    ∃ handle, e.sessions.getHandle (passed torrentId) = some handle ∧
      getStatus dump views e torrentId =
        if Dumpable (views.live handle).name then
          .returned (.ofEngine views e (passed torrentId) (views.live handle))
        else .terminated := by
  intro e
  cases hhandle : e.sessions.getHandle (passed torrentId) with
  | none =>
    have hhas := getHandle_eq_none.mp hhandle
    exact Or.inl ⟨hhas, getStatus_blank hjson hhas⟩
  | some handle =>
    have hhas : e.sessions.hasTorrent (passed torrentId) = true := by
      unfold TorrentSessionManager.getHandle at hhandle
      unfold TorrentSessionManager.hasTorrent
      rw [hhandle]
      rfl
    obtain ⟨ih, hid⟩ := SeekServeEngine.sessionsNamed_run env config cache evs _ hhas
    have hhex : ∀ c ∈ passed torrentId, isHexDigit c = true := by
      intro c hc
      rw [← hid] at hc
      exact isHexDigit_of_mem_infohashToHex hc
    have hfits := SeekServeEngine.fits_run env config cache hevs
    refine Or.inr ⟨handle, rfl, ?_⟩
    split
    · rename_i hname
      exact getStatus_returned hjson hhandle hviews hname hfits hhex
    · rename_i hname
      exact getStatus_terminated hrejects hhandle hname

/-- A torrent with a quote in its name, of which a file is selected. -/
def quotedStatus : LiveStatus where
  name := utf8String "\"é\"".toList
  progress := 1 / 2
  downloadRate := 1000
  uploadRate := 10
  numPeers := 3
  numSeeds := 2
  totalDownload := 5
  totalUpload := 1
  state := 3
  paused := false

def quotedViews : Views :=
  ⟨fun _ => quotedStatus, fun _ => .create {} ⟨sampleInfo.layout, 0⟩ 0⟩

theorem sound_quotedViews : quotedViews.Sound := by
  have hlive : quotedStatus.Sound :=
    ⟨fun _ => lt_of_mem_utf8String, by decide, by decide, by decide, by decide, by decide,
      by decide, by decide⟩
  have hplayhead : -(2 ^ 31) ≤ (quotedViews.scheduler 0).playheadPiece ∧
      (quotedViews.scheduler 0).playheadPiece < 2 ^ 31 := by decide
  have hdeadlines : -(2 ^ 31) ≤ (quotedViews.scheduler 0).activeDeadlines ∧
      (quotedViews.scheduler 0).activeDeadlines < 2 ^ 31 := by decide
  exact ⟨fun _ => hlive, fun _ => hplayhead, fun _ => hdeadlines⟩

theorem SeekServeClient.quoted_status_comes_through :
    getStatus JsonValue.strictDump quotedViews
      (sampleRun (addSample 1 "a.torrent".toList ++ [.selectFile (sampleId 1) 0]))
      (Json.units (sampleId 1)) =
    .returned
      { torrentId := Json.units (sampleId 1)
        name := Utf8.utf16 "\"é\"".toList
        progress := .fractional
        downloadRate := .ofInt 1000
        uploadRate := .ofInt 10
        numPeers := 3
        numSeeds := 2
        state := Json.word "downloading"
        isPaused := false
        hasMetadata := true
        selectedFile := some 0
        streamMode := some (Json.word "streaming_first")
        playheadPiece := some 0
        activeDeadlines := some 0 } := by
  have hpassed : passed (Json.units (sampleId 1)) = sampleId 1 :=
    passed_units fun _ hc => isHexDigit_of_mem_infohashToHex hc
  have htext := textOf_utf8String "\"é\"".toList
  have hevs : ∀ ev ∈ sampleEvents (addSample 1 "a.torrent".toList ++ [.selectFile (sampleId 1) 0]),
      ev.Sound := by
    intro ev hev
    simp only [sampleEvents, addSample, List.cons_append, List.nil_append, List.map_cons,
      List.map_nil, List.mem_cons, List.not_mem_nil, or_false] at hev
    rcases hev with rfl | rfl | rfl
    · intro id ti hti
      cases hti
    · exact sound_sampleMetadata 1
    · intro id ti hti
      cases hti
  rcases status_comes_through followsJson_strictDump rejectsBytes_strictDump sampleEnv {} .empty
      hevs sound_quotedViews (Json.units (sampleId 1)) with ⟨hnone, -⟩ | ⟨handle, -, hreturned⟩
  · rw [hpassed] at hnone
    cases hnone
  · have hname : Dumpable (quotedViews.live handle).name := dumpable_utf8String _
    unfold sampleRun
    rw [hreturned, if_pos hname, hpassed]
    unfold TorrentStatus.ofEngine quotedViews quotedStatus
    simp only [htext]
    rfl

end SeekServe
