import SeekServe.ClientLists
import SeekServe.EngineConfig

/-!
# The configuration from Dart to C++

`SeekServeConfig.toJsonString` writes the fields that are set, and `ss_engine_create` reads them
back with `parse_config`.
-/

namespace SeekServe

set_option autoImplicit false

/-- The configuration of the Dart client; what is not set keeps the default of the engine. -/
structure SeekServeConfig where
  savePath : Option DartString := none
  authToken : Option DartString := none
  streamPort : Option Int := none
  controlPort : Option Int := none
  maxStorageBytes : Option Int := none
  cacheDbPath : Option DartString := none
  logLevel : Option DartString := none
  enableWebtorrent : Option Bool := none
  extraTrackers : Option (List DartString) := none

/-- The `std::string` of a Dart string. -/
def native (s : DartString) : CxxString := utf8String (Utf8.fromUtf16 s)

namespace SeekServeConfig

def toMap (c : SeekServeConfig) : List (String × Option Json.Value) :=
  [("save_path", c.savePath.map .string),
    ("auth_token", c.authToken.map .string),
    ("stream_port", c.streamPort.map .int),
    ("control_port", c.controlPort.map .int),
    ("max_storage_bytes", c.maxStorageBytes.map .int),
    ("cache_db_path", c.cacheDbPath.map .string),
    ("log_level", c.logLevel.map .string),
    ("enable_webtorrent", c.enableWebtorrent.map .bool),
    ("extra_trackers", c.extraTrackers.map fun uris => .array (uris.map .string))]

def toJsonString (c : SeekServeConfig) : DartString := Json.encode (.object (present c.toMap))

/-- The strings are texts of Unicode, and the numbers have the 64 bits of a Dart integer. -/
structure Sound (c : SeekServeConfig) : Prop where
  savePath : ∀ s ∈ c.savePath, Paired s
  authToken : ∀ s ∈ c.authToken, Paired s
  streamPort : ∀ i ∈ c.streamPort, -(2 ^ 63) ≤ i ∧ i < 2 ^ 63
  controlPort : ∀ i ∈ c.controlPort, -(2 ^ 63) ≤ i ∧ i < 2 ^ 63
  maxStorageBytes : ∀ i ∈ c.maxStorageBytes, -(2 ^ 63) ≤ i ∧ i < 2 ^ 63
  cacheDbPath : ∀ s ∈ c.cacheDbPath, Paired s
  logLevel : ∀ s ∈ c.logLevel, Paired s
  extraTrackers : ∀ uris ∈ c.extraTrackers, ∀ uri ∈ uris, Paired uri

/-- What the engine is made with: the fields that are set, and defaults for the others. -/
def settings (c : SeekServeConfig) (level : LogLevel) : Settings where
  savePath := (c.savePath.map native).getD "./downloads".toList
  enableWebtorrent := c.enableWebtorrent.getD true
  extraTrackers := (c.extraTrackers.map fun uris => uris.map native).getD []
  -- a port has 16 bits in C++
  streamPort := (c.streamPort.map fun port => port % 2 ^ 16).getD 0
  controlPort := (c.controlPort.map fun port => port % 2 ^ 16).getD 0
  dbPath := (c.cacheDbPath.map native).getD "seekserve_cache.db".toList
  maxStorageBytes := c.maxStorageBytes.getD 0
  authToken := (c.authToken.map native).getD []
  logLevel := (c.logLevel.map fun name => levelOf (native name)).getD level

/-- The value of a key as `parse_config` finds it. -/
def value (c : SeekServeConfig) : ConfigKey → Option JsonValue
  | .savePath => c.savePath.map fun s => .string (native s)
  | .authToken => c.authToken.map fun s => .string (native s)
  | .enableWebtorrent => c.enableWebtorrent.map .boolean
  | .streamPort => c.streamPort.map .integer
  | .controlPort => c.controlPort.map .integer
  | .maxStorageBytes => c.maxStorageBytes.map .integer
  | .cacheDbPath => c.cacheDbPath.map fun s => .string (native s)
  | .logLevel => c.logLevel.map fun s => .string (native s)
  | .extraTrackers => c.extraTrackers.map fun uris =>
      .array ((uris.map native).map .string)

end SeekServeConfig

namespace CApi

/-- The settings that `ss_engine_create` gives the engine; `parse` is `none` where it throws. -/
def ssEngineCreate (parse : List UInt8 → Option JsonValue) (level : LogLevel)
    (configJson : List UInt8) : Settings :=
  if cString configJson = [] then Settings.parseConfig level none
  else Settings.parseConfig level (parse (cString configJson))

end CApi

/-- The constructor of the client. -/
def SeekServeClient.create (parse : List UInt8 → Option JsonValue) (level : LogLevel)
    (config : Option SeekServeConfig) : Settings :=
  let configJson := (config.map SeekServeConfig.toJsonString).getD (Json.word "\x7b\x7d")
  CApi.ssEngineCreate parse level (toNativeUtf8 configJson)

namespace Settings

/-- Where no value throws, every key is assigned in its turn. -/
theorem parseFields_eq_foldl {ms : List (CxxString × JsonValue)}
    {value : ConfigKey → Option JsonValue} (hlookup : ∀ key, ms.lookup key.name = value key)
    (hgood : ∀ key v, value key = some v → v.Convertible key) (keys : List ConfigKey)
    (s : Settings) :
    parseFields ms keys s = keys.foldl (fun s key =>
      match value key with
      | none => s
      | some v => (s.assign v key).1) s := by
  induction keys generalizing s with
  | nil => rfl
  | cons key keys ih =>
    rw [List.foldl_cons]
    cases hvalue : value key with
    | none =>
      rw [parseFields, hlookup key, hvalue]
      exact ih s
    | some v =>
      rcases parseFields_some ((hlookup key).trans hvalue) keys s with ⟨-, heq⟩ | ⟨hbad, -⟩
      · rw [heq]
        exact ih _
      · exact absurd (hgood key v hvalue) hbad

end Settings

theorem native_utf16 (cs : List Char) : native (Utf8.utf16 cs) = utf8String cs := by
  unfold native
  rw [Utf8.fromUtf16_utf16]

theorem eq_string_of_stands {v : JsonValue} {s : DartString} (hs : Paired s)
    (h : v.Stands (.string s)) : v = .string (native s) := by
  obtain ⟨cs, rfl⟩ := hs
  rw [native_utf16]
  exact h.to_string

theorem stands_string {s : DartString} (hs : Paired s) :
    (JsonValue.string (native s)).Stands (.string s) := by
  obtain ⟨cs, rfl⟩ := hs
  rw [native_utf16]
  exact .string cs

theorem eq_strings_of_stands {v : JsonValue} {ss : List DartString} (hs : ∀ s ∈ ss, Paired s)
    (h : v.Stands (.array (ss.map .string))) : v = .array ((ss.map native).map .string) := by
  obtain ⟨vs, rfl, hforall⟩ := h.to_array
  rw [List.forall₂_map_right_iff] at hforall
  refine congrArg JsonValue.array ?_
  clear h
  induction hforall with
  | nil => rfl
  | cons hv _ ih =>
    rw [eq_string_of_stands (hs _ List.mem_cons_self) hv,
      ih fun s hmem => hs s (List.mem_cons_of_mem _ hmem)]
    rfl

/-- A field that is set is found as its value, and one that is not is not found. -/
theorem lookup_field {α : Type} {x : Option α} {f : α → Json.Value} {g : α → JsonValue}
    {found : Option JsonValue}
    (h : (x.map f = none → found = none) ∧
      ∀ w, x.map f = some w → ∃ v, v.Stands w ∧ found = some v)
    (hvalue : ∀ a ∈ x, ∀ v : JsonValue, v.Stands (f a) → v = g a) : found = x.map g := by
  cases x with
  | none => exact h.1 rfl
  | some a =>
    obtain ⟨v, hv, hfound⟩ := h.2 (f a) rfl
    rw [hfound, hvalue a rfl v hv]
    rfl

namespace SeekServeConfig

theorem keys_toMap (c : SeekServeConfig) :
    c.toMap.map Prod.fst = ["save_path", "auth_token", "stream_port", "control_port",
      "max_storage_bytes", "cache_db_path", "log_level", "enable_webtorrent",
      "extra_trackers"] := rfl

theorem ascii_keys (c : SeekServeConfig) :
    ∀ key ∈ c.toMap.map Prod.fst, (key.toList.all fun c => c.toNat < 128) = true := by
  rw [keys_toMap]
  decide

theorem nodup_keys (c : SeekServeConfig) : (c.toMap.map Prod.fst).Nodup := by
  rw [keys_toMap]
  decide

theorem convertible_value {c : SeekServeConfig} (key : ConfigKey) {v : JsonValue}
    (h : c.value key = some v) : v.Convertible key := by
  cases key with
  | savePath | authToken | cacheDbPath | logLevel | enableWebtorrent | streamPort | controlPort
  | maxStorageBytes =>
    obtain ⟨a, -, rfl⟩ := Option.map_eq_some_iff.mp h
    rfl
  | extraTrackers =>
    obtain ⟨uris, -, rfl⟩ := Option.map_eq_some_iff.mp h
    intro t ht
    obtain ⟨uri, -, rfl⟩ := List.mem_map.mp ht
    rfl

section Sound
variable {c : SeekServeConfig} (hc : c.Sound)
include hc

theorem stands_toMap : ∃ v : JsonValue, v.Stands (.object (present c.toMap)) := by
  apply stands_present c.ascii_keys c.nodup_keys
  have hfield : ∀ {α : Type} {x : Option α} {f : α → Json.Value} {w : Json.Value},
      (∀ a ∈ x, ∃ v : JsonValue, v.Stands (f a)) → some w = x.map f →
      ∃ v : JsonValue, v.Stands w := by
    intro α x f w h heq
    obtain ⟨a, ha, rfl⟩ := Option.map_eq_some_iff.mp heq.symm
    exact h a ha
  intro key w hmem
  simp only [toMap, List.mem_cons, Prod.mk.injEq, List.not_mem_nil, or_false] at hmem
  rcases hmem with ⟨-, h⟩ | ⟨-, h⟩ | ⟨-, h⟩ | ⟨-, h⟩ | ⟨-, h⟩ | ⟨-, h⟩ | ⟨-, h⟩ | ⟨-, h⟩ | ⟨-, h⟩
  · exact hfield (fun s hs => ⟨_, stands_string (hc.savePath s hs)⟩) h
  · exact hfield (fun s hs => ⟨_, stands_string (hc.authToken s hs)⟩) h
  · exact hfield (fun i hi => ⟨_, .integer (hc.streamPort i hi).1 (hc.streamPort i hi).2⟩) h
  · exact hfield (fun i hi => ⟨_, .integer (hc.controlPort i hi).1 (hc.controlPort i hi).2⟩) h
  · exact hfield
      (fun i hi => ⟨_, .integer (hc.maxStorageBytes i hi).1 (hc.maxStorageBytes i hi).2⟩) h
  · exact hfield (fun s hs => ⟨_, stands_string (hc.cacheDbPath s hs)⟩) h
  · exact hfield (fun s hs => ⟨_, stands_string (hc.logLevel s hs)⟩) h
  · exact hfield (fun b _ => ⟨_, .boolean b⟩) h
  · refine hfield (fun uris huris => ?_) h
    have hstands := JsonValue.Stands.array (uris.map fun uri => (.string (native uri), .string uri))
      fun p hp => by
        obtain ⟨uri, huri, rfl⟩ := List.mem_map.mp hp
        exact stands_string (hc.extraTrackers uris huris uri huri)
    rw [List.map_map, List.map_map] at hstands
    exact ⟨_, hstands⟩

/-- Each key is found with the value that was set for it. -/
theorem lookup_toMap {v : JsonValue} (h : v.Stands (.object (present c.toMap))) :
    ∃ ms, v = .object ms ∧ ∀ key : ConfigKey, ms.lookup key.name = c.value key := by
  obtain ⟨ms, rfl, hkeys⟩ := h.lookup_present c.ascii_keys c.nodup_keys
  refine ⟨ms, rfl, ?_⟩
  intro key
  cases key with
  | savePath =>
    exact lookup_field (hkeys "save_path" _ (by simp [toMap])) fun s hs v =>
      eq_string_of_stands (hc.savePath s hs)
  | authToken =>
    exact lookup_field (hkeys "auth_token" _ (by simp [toMap])) fun s hs v =>
      eq_string_of_stands (hc.authToken s hs)
  | enableWebtorrent =>
    exact lookup_field (hkeys "enable_webtorrent" _ (by simp [toMap])) fun b _ v hv =>
      hv.to_boolean
  | streamPort =>
    exact lookup_field (hkeys "stream_port" _ (by simp [toMap])) fun i _ v hv => hv.to_integer
  | controlPort =>
    exact lookup_field (hkeys "control_port" _ (by simp [toMap])) fun i _ v hv => hv.to_integer
  | maxStorageBytes =>
    exact lookup_field (hkeys "max_storage_bytes" _ (by simp [toMap])) fun i _ v hv =>
      hv.to_integer
  | cacheDbPath =>
    exact lookup_field (hkeys "cache_db_path" _ (by simp [toMap])) fun s hs v =>
      eq_string_of_stands (hc.cacheDbPath s hs)
  | logLevel =>
    exact lookup_field (hkeys "log_level" _ (by simp [toMap])) fun s hs v =>
      eq_string_of_stands (hc.logLevel s hs)
  | extraTrackers =>
    exact lookup_field (hkeys "extra_trackers" _ (by simp [toMap])) fun uris huris v =>
      eq_strings_of_stands (hc.extraTrackers uris huris)

/-- What `parse_config` does with the key, if it is there. -/
def put (c : SeekServeConfig) (s : Settings) (key : ConfigKey) : Settings :=
  match c.value key with
  | none => s
  | some v => (s.assign v key).1

theorem put_maxStorageBytes (s : Settings) : c.put s .maxStorageBytes =
    { s with maxStorageBytes := c.maxStorageBytes.getD s.maxStorageBytes } := by
  have hbytes := hc.maxStorageBytes
  unfold put value
  cases hfield : c.maxStorageBytes with
  | none => rfl
  | some i =>
    obtain ⟨hlow, hhigh⟩ := hbytes i hfield
    have hexact : i.bmod (2 ^ 64) = i := Int.bmod_eq_of_le (by omega) (by omega)
    have hassign : (s.assign (.integer i) .maxStorageBytes).1 =
        { s with maxStorageBytes := i.bmod (2 ^ 64) } := rfl
    simp only [Option.map_some, hassign, hexact, Option.getD_some]

/-- The assignments one after the other give the settings. -/
theorem foldl_put (level : LogLevel) :
    ConfigKey.order.foldl c.put (Settings.defaults level) = c.settings level := by
  have hbytes := put_maxStorageBytes hc
  have hsave : ∀ s, c.put s .savePath =
      { s with savePath := (c.savePath.map native).getD s.savePath } := fun s => by
    unfold put value
    cases c.savePath <;> rfl
  have htoken : ∀ s, c.put s .authToken =
      { s with authToken := (c.authToken.map native).getD s.authToken } := fun s => by
    unfold put value
    cases c.authToken <;> rfl
  have hwebtorrent : ∀ s, c.put s .enableWebtorrent =
      { s with enableWebtorrent := c.enableWebtorrent.getD s.enableWebtorrent } := fun s => by
    unfold put value
    cases c.enableWebtorrent <;> rfl
  have hstream : ∀ s, c.put s .streamPort =
      { s with streamPort := (c.streamPort.map fun i => i % 2 ^ 16).getD s.streamPort } :=
    fun s => by
      unfold put value
      cases c.streamPort <;> rfl
  have hcontrol : ∀ s, c.put s .controlPort =
      { s with controlPort := (c.controlPort.map fun i => i % 2 ^ 16).getD s.controlPort } :=
    fun s => by
      unfold put value
      cases c.controlPort <;> rfl
  have hdb : ∀ s, c.put s .cacheDbPath =
      { s with dbPath := (c.cacheDbPath.map native).getD s.dbPath } := fun s => by
    unfold put value
    cases c.cacheDbPath <;> rfl
  have hlog : ∀ s, c.put s .logLevel =
      { s with logLevel := (c.logLevel.map fun l => levelOf (native l)).getD s.logLevel } :=
    fun s => by
      unfold put value
      cases c.logLevel <;> rfl
  have htrackers : ∀ s, c.put s .extraTrackers =
      { s with
        extraTrackers :=
          (c.extraTrackers.map fun uris => uris.map native).getD s.extraTrackers } := fun s => by
    unfold put value
    cases c.extraTrackers with
    | none => rfl
    | some uris =>
      have hpush := Settings.pushTrackers_strings { s with extraTrackers := [] } (uris.map native)
      exact congrArg Prod.fst hpush
  simp only [ConfigKey.order, List.foldl_cons, List.foldl_nil, hsave, htoken, hwebtorrent,
    hstream, hcontrol, hbytes, hdb, hlog, htrackers]
  rfl

/-- The text of the configuration is a C string that C++ reads as what was set. -/
theorem ssEngineCreate_toJsonString {dump : JsonValue → Option (List UInt8)}
    {parse : List UInt8 → Option JsonValue} (hjson : FollowsJson dump parse) (level : LogLevel) :
    CApi.ssEngineCreate parse level (toNativeUtf8 c.toJsonString) = c.settings level := by
  obtain ⟨v, hv⟩ := stands_toMap hc
  obtain ⟨cs, hcs⟩ := hv.paired
  have hwrites : Json.Writes (.value (.object (present c.toMap))) (Utf8.utf16 cs) := by
    rw [hcs]
    exact Json.writes_encode hv.fits
  obtain ⟨v', hv', hparse⟩ := hjson.parse_text hv hwrites
  obtain ⟨ms, rfl, hlookup⟩ := lookup_toMap hc hv'
  have hnull : 0 ∉ Utf8.encode cs := fun hmem =>
    hwrites.null_not_mem (Utf8.mem_of_toUtf16 hmem (by decide) (Utf8.toUtf16_encode cs))
  have hread : cString (toNativeUtf8 c.toJsonString) = Utf8.encode cs := by
    unfold toNativeUtf8 toJsonString cString
    rw [← hcs, Utf8.fromUtf16_utf16, List.takeWhile_append_of_pos (bne_of_not_mem hnull),
      List.takeWhile_cons_of_neg (by decide), List.append_nil]
  have hne : Utf8.encode cs ≠ [] := by
    intro hnil
    have hdecode := Utf8.toUtf16_encode cs
    rw [hnil, Utf8.toUtf16_nil, hcs] at hdecode
    cases Option.some.inj hdecode
  have hfields := Settings.parseFields_eq_foldl hlookup (fun key v => convertible_value key)
    ConfigKey.order (Settings.defaults level)
  unfold CApi.ssEngineCreate
  rw [hread, if_neg hne, hparse]
  exact hfields.trans (foldl_put hc level)

end Sound

end SeekServeConfig

/-- Every field set on the Dart side arrives in the engine, and the others keep their defaults. -/
theorem SeekServeClient.config_comes_through {dump : JsonValue → Option (List UInt8)}
    {parse : List UInt8 → Option JsonValue} (hjson : FollowsJson dump parse) (level : LogLevel)
    (config : Option SeekServeConfig) (hsound : ∀ c ∈ config, c.Sound) :
    create parse level config = (config.getD {}).settings level := by
  have hempty : (({} : SeekServeConfig)).Sound := by
    constructor <;> exact fun _ h => by cases h
  cases config with
  | none =>
    have hbraces : Json.word "\x7b\x7d" = ({} : SeekServeConfig).toJsonString := rfl
    have hcreate := SeekServeConfig.ssEngineCreate_toJsonString hempty hjson level
    rw [← hbraces] at hcreate
    exact hcreate
  | some c => exact SeekServeConfig.ssEngineCreate_toJsonString (hsound c rfl) hjson level

/-- A token with a quote in it and a port that does not fit into 16 bits. -/
theorem SeekServeClient.quoted_token_comes_through :
    create JsonValue.plainParse .info
        (some { authToken := some (Json.word "a\"b"), streamPort := some 65537 }) =
      { Settings.defaults .info with authToken := "a\"b".toList, streamPort := 1 } := by
  have hpaired : Paired (Json.word "a\"b") := paired_word rfl
  have hnative : native (Json.word "a\"b") = "a\"b".toList := by
    have hword := ascii_word (s := "a\"b") rfl
    rw [← hword.2, native_utf16, hword.1]
  have hsettings := config_comes_through followsJson_compactDump .info
    (some { authToken := some (Json.word "a\"b"), streamPort := some 65537 }) (by
      intro c hc
      cases hc
      constructor <;> intro a ha <;> cases ha
      · exact hpaired
      · decide)
  rw [hsettings]
  unfold SeekServeConfig.settings
  simp only [Option.getD_some, Option.map_some, hnative]
  rfl

end SeekServe
