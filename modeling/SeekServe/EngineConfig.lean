import SeekServe.Http

/-!
# The configuration from JSON

`parse_config` assigns one key after the other inside one `try`; the library's conversions
throw on values of the wrong kind.
-/

namespace SeekServe

set_option autoImplicit false

/-- A value of the JSON library: strings by their bytes, 64-bit integers, and doubles. -/
inductive JsonValue where
  | null
  | boolean (b : Bool)
  | integer (i : Int)
  | floating (x : Rat)
  | string (s : CxxString)
  | array (items : List JsonValue)
  | object (members : List (CxxString × JsonValue))

namespace JsonValue

def getString : JsonValue → Option CxxString
  | .string s => some s
  | _ => none

def getBool : JsonValue → Option Bool
  | .boolean b => some b
  | _ => none

/-- `static_cast` of a double drops its fraction; outside the range of the type it is undefined. -/
def truncate (x : Rat) : Int := x.num.tdiv x.den

/-- `get<std::uint16_t>()` converts truth values and wraps numbers. -/
def getUInt16 : JsonValue → Option Int
  | .boolean b => some (if b then 1 else 0)
  | .integer i => some (i % 2 ^ 16)
  | .floating x => some (truncate x % 2 ^ 16)
  | _ => none

def getInt64 : JsonValue → Option Int
  | .integer i => some (i.bmod (2 ^ 64))
  | .floating x => some ((truncate x).bmod (2 ^ 64))
  | _ => none

/-- What a range-based `for` goes through: a value that holds no others is its own element. -/
def elements : JsonValue → List JsonValue
  | .null => []
  | .array items => items
  | .object members => members.map Prod.snd
  | value => [value]

end JsonValue

inductive LogLevel where
  | debug
  | info
  | warn
  | error
  deriving DecidableEq, Repr

/-- The fields of the configuration that `parse_config` knows, and the level of the log. -/
structure Settings where
  savePath : CxxString
  enableWebtorrent : Bool
  extraTrackers : List CxxString
  streamPort : Int
  controlPort : Int
  dbPath : CxxString
  maxStorageBytes : Int
  authToken : CxxString
  logLevel : LogLevel
  deriving DecidableEq, Repr

inductive ConfigKey where
  | savePath
  | authToken
  | enableWebtorrent
  | streamPort
  | controlPort
  | maxStorageBytes
  | cacheDbPath
  | logLevel
  | extraTrackers
  deriving DecidableEq, Repr

namespace ConfigKey

def name : ConfigKey → CxxString
  | .savePath => "save_path".toList
  | .authToken => "auth_token".toList
  | .enableWebtorrent => "enable_webtorrent".toList
  | .streamPort => "stream_port".toList
  | .controlPort => "control_port".toList
  | .maxStorageBytes => "max_storage_bytes".toList
  | .cacheDbPath => "cache_db_path".toList
  | .logLevel => "log_level".toList
  | .extraTrackers => "extra_trackers".toList

/-- The keys in the order in which they are looked for. -/
def order : List ConfigKey :=
  [.savePath, .authToken, .enableWebtorrent, .streamPort, .controlPort, .maxStorageBytes,
    .cacheDbPath, .logLevel, .extraTrackers]

/-- The keys that are looked for before this one. -/
def earlier (key : ConfigKey) : List ConfigKey := order.takeWhile (· ≠ key)

end ConfigKey

def levelOf (level : CxxString) : LogLevel :=
  if level = "debug".toList then .debug
  else if level = "warn".toList then .warn
  else if level = "error".toList then .error
  else .info

namespace Settings

/-- The default values, and the level that the log has. -/
def defaults (level : LogLevel) : Settings where
  savePath := "./downloads".toList
  enableWebtorrent := true
  extraTrackers := []
  streamPort := 0
  controlPort := 0
  dbPath := "seekserve_cache.db".toList
  maxStorageBytes := 0
  authToken := []
  logLevel := level

/-- An assignment that is reached if the conversion does not throw. -/
def setFrom {α : Type} (s : Settings) (got : Option α) (set : α → Settings) : Settings × Bool :=
  match got with
  | some a => (set a, true)
  | none => (s, false)

def pushTrackers (s : Settings) : List JsonValue → Settings × Bool
  | [] => (s, true)
  | t :: ts =>
    match t.getString with
    | some uri => pushTrackers { s with extraTrackers := s.extraTrackers ++ [uri] } ts
    | none => (s, false)

/-- What is done with the value of a key that is there, and whether it went through. -/
def assign (s : Settings) (value : JsonValue) : ConfigKey → Settings × Bool
  | .savePath => s.setFrom value.getString fun path => { s with savePath := path }
  | .authToken => s.setFrom value.getString fun token => { s with authToken := token }
  | .enableWebtorrent => s.setFrom value.getBool fun b => { s with enableWebtorrent := b }
  | .streamPort => s.setFrom value.getUInt16 fun port => { s with streamPort := port }
  | .controlPort => s.setFrom value.getUInt16 fun port => { s with controlPort := port }
  | .maxStorageBytes => s.setFrom value.getInt64 fun n => { s with maxStorageBytes := n }
  | .cacheDbPath => s.setFrom value.getString fun path => { s with dbPath := path }
  | .logLevel => s.setFrom value.getString fun level => { s with logLevel := levelOf level }
  | .extraTrackers => pushTrackers { s with extraTrackers := [] } value.elements

def parseFields (members : List (CxxString × JsonValue)) : List ConfigKey → Settings → Settings
  | [], s => s
  | key :: keys, s =>
    match members.lookup key.name with
    | none => parseFields members keys s
    | some value =>
      match s.assign value key with
      | (s, true) => parseFields members keys s
      | (s, false) => s

/-- `parse_config`; the argument is `none` for no text and for one that is no JSON. A value
that is no object contains no key. -/
def parseConfig (level : LogLevel) : Option JsonValue → Settings
  | some (.object members) => parseFields members ConfigKey.order (defaults level)
  | _ => defaults level

end Settings

/-- The value has the type that the key expects. -/
def JsonValue.Typed (value : JsonValue) : ConfigKey → Prop
  | .savePath | .authToken | .cacheDbPath | .logLevel => ∃ s, value = .string s
  | .enableWebtorrent => ∃ b, value = .boolean b
  | .streamPort | .controlPort => ∃ i : Int, value = .integer i ∧ 0 ≤ i ∧ i < 2 ^ 16
  | .maxStorageBytes => ∃ i : Int, value = .integer i ∧ -2 ^ 63 ≤ i ∧ i < 2 ^ 63
  | .extraTrackers => ∃ uris : List CxxString, value = .array (uris.map .string)

/-- No conversion of the value throws. -/
def JsonValue.Convertible (value : JsonValue) : ConfigKey → Prop
  | .savePath | .authToken | .cacheDbPath | .logLevel => value.getString.isSome = true
  | .enableWebtorrent => value.getBool.isSome = true
  | .streamPort | .controlPort => value.getUInt16.isSome = true
  | .maxStorageBytes => value.getInt64.isSome = true
  | .extraTrackers => ∀ t ∈ value.elements, t.getString.isSome = true

namespace Settings

/-- The value is the one in the settings. -/
def Holds (s : Settings) (value : JsonValue) : ConfigKey → Prop
  | .savePath => value = .string s.savePath
  | .authToken => value = .string s.authToken
  | .enableWebtorrent => value = .boolean s.enableWebtorrent
  | .streamPort => value = .integer s.streamPort
  | .controlPort => value = .integer s.controlPort
  | .maxStorageBytes => value = .integer s.maxStorageBytes
  | .cacheDbPath => value = .string s.dbPath
  | .logLevel => ∃ level, value = .string level ∧ s.logLevel = levelOf level
  | .extraTrackers => value = .array (s.extraTrackers.map .string)

/-- A key that is looked for earlier has a value that makes its conversion throw. -/
def Spoiled (members : List (CxxString × JsonValue)) (key : ConfigKey) : Prop :=
  ∃ bad ∈ key.earlier, ∃ value, members.lookup bad.name = some value ∧ ¬value.Convertible bad

theorem setFrom_ok_iff {α : Type} (s : Settings) (got : Option α) (set : α → Settings) :
    (s.setFrom got set).2 = true ↔ got.isSome = true := by
  cases got with
  | none => exact Iff.rfl
  | some a => exact Iff.rfl

theorem pushTrackers_ok_iff (s : Settings) (values : List JsonValue) :
    (s.pushTrackers values).2 = true ↔ ∀ t ∈ values, t.getString.isSome = true := by
  induction values generalizing s with
  | nil => exact iff_of_true rfl fun t ht => absurd ht List.not_mem_nil
  | cons t ts ih =>
    rw [pushTrackers, List.forall_mem_cons]
    cases ht : t.getString with
    | none => exact iff_of_false Bool.false_ne_true fun h => Bool.false_ne_true h.1
    | some uri => exact (ih _).trans ⟨fun h => ⟨rfl, h⟩, fun h => h.2⟩

theorem pushTrackers_strings (s : Settings) (uris : List CxxString) :
    s.pushTrackers (uris.map .string) =
      ({ s with extraTrackers := s.extraTrackers ++ uris }, true) := by
  induction uris generalizing s with
  | nil =>
    rw [List.append_nil]
    rfl
  | cons uri uris ih =>
    rw [List.map_cons, pushTrackers]
    simp only [JsonValue.getString]
    rw [ih, List.append_assoc]
    rfl

/-- The loop changes nothing else, even where it throws. -/
theorem pushTrackers_fst (s : Settings) (values : List JsonValue) :
    ∃ uris, (s.pushTrackers values).1 = { s with extraTrackers := uris } := by
  induction values generalizing s with
  | nil => exact ⟨s.extraTrackers, rfl⟩
  | cons t ts ih =>
    rw [pushTrackers]
    cases t.getString with
    | none => exact ⟨s.extraTrackers, rfl⟩
    | some uri =>
      obtain ⟨uris, h⟩ := ih { s with extraTrackers := s.extraTrackers ++ [uri] }
      exact ⟨uris, h⟩

theorem assign_ok_iff (s : Settings) (value : JsonValue) (key : ConfigKey) :
    (s.assign value key).2 = true ↔ value.Convertible key := by
  cases key with
  | extraTrackers => exact pushTrackers_ok_iff _ _
  | savePath | authToken | enableWebtorrent | streamPort | controlPort | maxStorageBytes
  | cacheDbPath | logLevel => exact setFrom_ok_iff s _ _

/-- A value of the right type is assigned. -/
theorem holds_assign {value : JsonValue} {key : ConfigKey} (h : value.Typed key) (s : Settings) :
    (s.assign value key).2 = true ∧ (s.assign value key).1.Holds value key := by
  cases key with
  | savePath | authToken | cacheDbPath =>
    obtain ⟨text, rfl⟩ := h
    exact ⟨rfl, rfl⟩
  | logLevel =>
    obtain ⟨text, rfl⟩ := h
    exact ⟨rfl, text, rfl, rfl⟩
  | enableWebtorrent =>
    obtain ⟨b, rfl⟩ := h
    exact ⟨rfl, rfl⟩
  | streamPort | controlPort =>
    obtain ⟨i, rfl, h0, hlt⟩ := h
    exact ⟨rfl, congrArg JsonValue.integer (Int.emod_eq_of_lt h0 hlt).symm⟩
  | maxStorageBytes =>
    obtain ⟨i, rfl, h0, hlt⟩ := h
    refine ⟨rfl, congrArg JsonValue.integer ?_⟩
    exact (Int.bmod_eq_of_le (by omega) (by omega)).symm
  | extraTrackers =>
    obtain ⟨uris, rfl⟩ := h
    have hpush := pushTrackers_strings { s with extraTrackers := [] } uris
    unfold assign
    simp only [JsonValue.elements, hpush]
    exact ⟨trivial, rfl⟩

theorem holds_setFrom_iff {α : Type} {s : Settings} {got : Option α} {set : α → Settings}
    {value : JsonValue} {key : ConfigKey}
    (h : ∀ a, (set a).Holds value key ↔ s.Holds value key) :
    (s.setFrom got set).1.Holds value key ↔ s.Holds value key := by
  cases got with
  | none => exact Iff.rfl
  | some a => exact h a

/-- The assignment of another key. -/
theorem holds_assign_iff {key other : ConfigKey} (hne : key ≠ other) (s : Settings)
    (value value' : JsonValue) :
    (s.assign value' other).1.Holds value key ↔ s.Holds value key := by
  cases other with
  | extraTrackers =>
    obtain ⟨uris, h⟩ := pushTrackers_fst { s with extraTrackers := [] } value'.elements
    have hassign : (s.assign value' .extraTrackers).1 = { s with extraTrackers := uris } := h
    rw [hassign]
    cases key <;> first | exact absurd rfl hne | exact Iff.rfl
  | savePath | authToken | enableWebtorrent | streamPort | controlPort | maxStorageBytes
  | cacheDbPath | logLevel =>
    apply holds_setFrom_iff
    intro a
    cases key <;> first | exact absurd rfl hne | exact Iff.rfl

section Fields
variable {members : List (CxxString × JsonValue)} {key : ConfigKey} {value : JsonValue}

/-- A step of `parse_config` that finds its key. -/
theorem parseFields_some {other : ConfigKey} {value' : JsonValue}
    (h : members.lookup other.name = some value') (keys : List ConfigKey) (s : Settings) :
    (value'.Convertible other ∧
        parseFields members (other :: keys) s =
          parseFields members keys (s.assign value' other).1) ∨
      (¬value'.Convertible other ∧
        parseFields members (other :: keys) s = (s.assign value' other).1) := by
  simp only [parseFields, h]
  cases hassign : s.assign value' other with
  | mk s' ok =>
    have hok := s.assign_ok_iff value' other
    rw [hassign] at hok
    cases ok with
    | true => exact .inl ⟨hok.mp rfl, rfl⟩
    | false => exact .inr ⟨fun hc => Bool.false_ne_true (hok.mpr hc), rfl⟩

theorem holds_parseFields_of_notMem {keys : List ConfigKey} (hkey : key ∉ keys) (s : Settings) :
    (parseFields members keys s).Holds value key ↔ s.Holds value key := by
  induction keys generalizing s with
  | nil => exact Iff.rfl
  | cons other keys ih =>
    rw [List.mem_cons, not_or] at hkey
    obtain ⟨hne, hrest⟩ := hkey
    cases hother : members.lookup other.name with
    | none =>
      rw [parseFields, hother]
      exact ih hrest s
    | some value' =>
      have hframe := holds_assign_iff hne s value value'
      rcases parseFields_some hother keys s with ⟨_, heq⟩ | ⟨_, heq⟩
      · rw [heq]
        exact (ih hrest _).trans hframe
      · rw [heq]
        exact hframe

/-- A bad value ends the assignments. -/
theorem holds_parseFields_of_bad {keys : List ConfigKey}
    (hbad : ∃ bad ∈ keys.takeWhile (· ≠ key), ∃ value', members.lookup bad.name = some value' ∧
      ¬value'.Convertible bad) (s : Settings) :
    (parseFields members keys s).Holds value key ↔ s.Holds value key := by
  induction keys generalizing s with
  | nil =>
    obtain ⟨bad, hmem, _⟩ := hbad
    exact absurd hmem List.not_mem_nil
  | cons other keys ih =>
    obtain ⟨bad, hmem, value', hvalue', hconv⟩ := hbad
    by_cases hne : other = key
    · rw [List.takeWhile_cons_of_neg (by simpa using hne)] at hmem
      exact absurd hmem List.not_mem_nil
    · have hframe := fun w => holds_assign_iff (Ne.symm hne) s value w
      rw [List.takeWhile_cons_of_pos (by simpa using hne)] at hmem
      cases hother : members.lookup other.name with
      | none =>
        rcases List.mem_cons.mp hmem with rfl | hrest
        · rw [hother] at hvalue'
          cases hvalue'
        · rw [parseFields, hother]
          exact ih ⟨bad, hrest, value', hvalue', hconv⟩ s
      | some w =>
        rcases parseFields_some hother keys s with ⟨hok, heq⟩ | ⟨_, heq⟩
        · rcases List.mem_cons.mp hmem with rfl | hrest
          · rw [hother] at hvalue'
            cases hvalue'
            exact absurd hok hconv
          · rw [heq]
            exact (ih ⟨bad, hrest, value', hvalue', hconv⟩ _).trans (hframe w)
        · rw [heq]
          exact hframe w

/-- Otherwise a value of the right type is assigned. -/
theorem holds_parseFields (hvalue : members.lookup key.name = some value)
    (htyped : value.Typed key) {keys : List ConfigKey} (hnodup : keys.Nodup) (hkey : key ∈ keys)
    (hgood : ¬∃ bad ∈ keys.takeWhile (· ≠ key), ∃ value', members.lookup bad.name = some value' ∧
      ¬value'.Convertible bad) (s : Settings) :
    (parseFields members keys s).Holds value key := by
  induction keys generalizing s with
  | nil => exact absurd hkey List.not_mem_nil
  | cons other keys ih =>
    obtain ⟨hnot, hrest⟩ := List.nodup_cons.mp hnodup
    by_cases hne : other = key
    · subst hne
      obtain ⟨hok, hholds⟩ := holds_assign htyped s
      have hconv := (s.assign_ok_iff value other).mp hok
      rcases parseFields_some hvalue keys s with ⟨_, heq⟩ | ⟨hbad, _⟩
      · rw [heq]
        exact (holds_parseFields_of_notMem hnot _).mpr hholds
      · exact absurd hconv hbad
    · have hmem : key ∈ keys := (List.mem_cons.mp hkey).resolve_left fun h => hne h.symm
      rw [List.takeWhile_cons_of_pos (by simpa using hne)] at hgood
      have htail := ih hrest hmem fun h => by
        obtain ⟨bad, hb, hbad⟩ := h
        exact hgood ⟨bad, List.mem_cons_of_mem _ hb, hbad⟩
      cases hother : members.lookup other.name with
      | none =>
        rw [parseFields, hother]
        exact htail s
      | some w =>
        rcases parseFields_some hother keys s with ⟨_, heq⟩ | ⟨hbad, _⟩
        · rw [heq]
          exact htail _
        · exact absurd ⟨other, List.mem_cons_self, w, hother, hbad⟩ hgood

end Fields

theorem nodup_order : ConfigKey.order.Nodup := by decide

theorem mem_order (key : ConfigKey) : key ∈ ConfigKey.order := by
  cases key <;> decide

section Object
variable {members : List (CxxString × JsonValue)} {key : ConfigKey} {value : JsonValue}

theorem holds_parseConfig_iff (hvalue : members.lookup key.name = some value)
    (htyped : value.Typed key) (level : LogLevel) :
    (parseConfig level (some (.object members))).Holds value key ↔
      (Spoiled members key → (defaults level).Holds value key) := by
  by_cases hbad : Spoiled members key
  · exact (holds_parseFields_of_bad hbad _).trans ⟨fun h _ => h, fun h => h hbad⟩
  · exact iff_of_true (holds_parseFields hvalue htyped nodup_order (mem_order key) hbad _)
      fun h => absurd h hbad

/-- The token survives if and only if the value of the save path is not bad. -/
theorem authToken_parseConfig {token : CxxString}
    (htoken : members.lookup ConfigKey.authToken.name = some (.string token))
    (level : LogLevel) :
    (Spoiled members .authToken →
        (parseConfig level (some (.object members))).authToken = []) ∧
      (¬Spoiled members .authToken →
        (parseConfig level (some (.object members))).authToken = token) := by
  constructor
  · intro hbad
    have hdefault : (defaults level).Holds (.string []) .authToken := rfl
    have h := (holds_parseFields_of_bad hbad (defaults level)).mpr hdefault
    exact (JsonValue.string.inj h).symm
  · intro hgood
    have h := (holds_parseConfig_iff htoken ⟨token, rfl⟩ level).mpr fun hbad => absurd hbad hgood
    exact (JsonValue.string.inj h).symm

end Object

/-- All values of the right type are in the configuration if and only if those that come after
a bad one are default values; and a token is lost, and every request let in, if and only if the
save path is bad. -/
theorem parseConfig_holds_iff (members : List (CxxString × JsonValue)) (level : LogLevel) :
    ((∀ key value, members.lookup key.name = some value → value.Typed key →
        (parseConfig level (some (.object members))).Holds value key) ↔
      ∀ key value, members.lookup key.name = some value → value.Typed key →
        Spoiled members key → (defaults level).Holds value key) ∧
    ∀ token, token ≠ [] → members.lookup ConfigKey.authToken.name = some (.string token) →
      ((parseConfig level (some (.object members))).authToken = token ↔
        ¬Spoiled members .authToken) ∧
      ((∀ req, authorized (parseConfig level (some (.object members))).authToken req = true) ↔
        Spoiled members .authToken) := by
  refine ⟨?_, fun token hne htoken => ?_⟩
  · constructor
    · intro h key value hvalue htyped
      exact (holds_parseConfig_iff hvalue htyped level).mp (h key value hvalue htyped)
    · intro h key value hvalue htyped
      exact (holds_parseConfig_iff hvalue htyped level).mpr (h key value hvalue htyped)
  · obtain ⟨hlost, hkept⟩ := authToken_parseConfig htoken level
    by_cases hbad : Spoiled members .authToken
    · rw [hlost hbad]
      exact ⟨iff_of_false (Ne.symm hne) (not_not_intro hbad), iff_of_true (fun _ => rfl) hbad⟩
    · rw [hkept hbad]
      refine ⟨iff_of_true rfl hbad, iff_of_false (fun hopen => ?_) hbad⟩
      have hclosed : authorized token { method := .get, target := [] } = false :=
        authorized_eq_false hne (Ne.symm hne)
      rw [hopen] at hclosed
      cases hclosed

/-- A number for the save path, and a token after it. -/
theorem bad_save_path_opens_servers :
    let members : List (CxxString × JsonValue) :=
      [("save_path".toList, .integer 1), ("auth_token".toList, .string "secret".toList)]
    ¬(parseConfig .info (some (.object members))).Holds (.string "secret".toList) .authToken ∧
      ∀ req, authorized (parseConfig .info (some (.object members))).authToken req = true := by
  refine ⟨fun h => ?_, fun _ => rfl⟩
  cases h

end Settings

end SeekServe
