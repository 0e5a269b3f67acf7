import SeekServe.HttpConnection
import SeekServe.Lib.Json
import SeekServe.Lib.Utf8

/-!
# Events across the language boundary

`fire_event` puts a JSON text together in C++, the C API hands it on as a C string, and the
Dart client decodes it and builds an event from the map.
-/

namespace SeekServe

set_option autoImplicit false

/-- A torrent id as `to_hex` writes it. -/
structure HexId where
  chars : CxxString
  isHex : ∀ c ∈ chars, isHexDigit c = true

inductive EngineEvent where
  | metadataReceived (id : HexId)
  | fileCompleted (id : HexId) (fi : Int32)
  | torrentPaused (id : HexId)
  | torrentResumed (id : HexId)
  /-- the bytes of an error message of libtorrent -/
  | error (message : List UInt8)

def literal (s : String) : List UInt8 := CxxString.bytes s.toList

def torrentData (id : HexId) : List UInt8 :=
  literal "\x7b\"torrent_id\":\"" ++ id.chars.bytes ++ literal "\"\x7d"

namespace EngineEvent

def type : EngineEvent → String
  | .metadataReceived _ => "metadata_received"
  | .fileCompleted _ _ => "file_completed"
  | .torrentPaused _ => "torrent_paused"
  | .torrentResumed _ => "torrent_resumed"
  | .error _ => "error"

def data : EngineEvent → List UInt8
  | .metadataReceived id | .torrentPaused id | .torrentResumed id => torrentData id
  | .fileCompleted id fi =>
    literal "\x7b\"torrent_id\":\"" ++ id.chars.bytes ++ literal "\",\"file_index\":" ++
      CxxString.bytes (CxxString.ofInt fi.toInt) ++ literal "\x7d"
  | .error message => literal "\x7b\"message\":\"" ++ message ++ literal "\"\x7d"

/-- The string that `fire_event` passes to the callback. -/
def fire (e : EngineEvent) : List UInt8 :=
  literal "\x7b\"type\":\"" ++ literal e.type ++ literal "\",\"data\":" ++ e.data ++ literal "\x7d"

end EngineEvent

/-- What a reader of the copy that `alloc_string` makes finds up to the terminator. -/
def allocString (s : List UInt8) : List UInt8 := s.takeWhile (· != 0)

abbrev DartString := Json.Text

inductive SeekServeEvent where
  | metadataReceived (torrentId : DartString)
  | fileCompleted (torrentId : DartString) (fileIndex : Int)
  | torrentPaused (torrentId : DartString)
  | torrentResumed (torrentId : DartString)
  | torrentError (torrentId message : DartString)
  | unknown (type : DartString) (data : List (DartString × Json.Value))

/-- `as String?`; the outer `none` stands for the exception of the cast. -/
def asString : Option Json.Value → Option (Option DartString)
  | none | some .null => some none
  | some (.string s) => some (some s)
  | some _ => none

/-- `as int?` -/
def asInt : Option Json.Value → Option (Option Int)
  | none | some .null => some none
  | some (.int i) => some (some i)
  | some _ => none

/-- `as Map<String, dynamic>?` -/
def asMap : Option Json.Value → Option (Option (List (DartString × Json.Value)))
  | none | some .null => some none
  | some (.object members) => some (some members)
  | some _ => none

namespace SeekServeEvent
variable (data : List (DartString × Json.Value))

/-- `data['torrent_id'] as String? ?? ''` -/
def torrentId : Option DartString :=
  (asString (Json.field (Json.word "torrent_id") data)).map fun id => id.getD []

def fromData (type : Option DartString) : Option SeekServeEvent :=
  if type = some (Json.word "metadata_received") then (torrentId data).map metadataReceived
  else if type = some (Json.word "file_completed") then
    match torrentId data, asInt (Json.field (Json.word "file_index") data) with
    | some id, some fi => some (.fileCompleted id (fi.getD (-1)))
    | _, _ => none
  else if type = some (Json.word "torrent_paused") then (torrentId data).map torrentPaused
  else if type = some (Json.word "torrent_resumed") then (torrentId data).map torrentResumed
  else if type = some (Json.word "error") then
    match torrentId data, asString (Json.field (Json.word "message") data) with
    | some id, some message =>
      some (.torrentError id (message.getD (Json.word "Unknown error")))
    | _, _ => none
  else some (.unknown (type.getD (Json.word "null")) data)

/-- `none` stands for an exception. -/
def fromJson (json : List (DartString × Json.Value)) : Option SeekServeEvent :=
  match asString (Json.field (Json.word "type") json),
    asMap (Json.field (Json.word "data") json) with
  | some type, some data => fromData (data.getD []) type
  | _, _ => none

end SeekServeEvent

/-- The event that the client adds to its stream; it drops what throws on the way. -/
def handleNativeEvent (eventJson : List UInt8) : Option SeekServeEvent :=
  match Utf8.toUtf16 eventJson with
  | none => none
  | some jsonStr =>
    if jsonStr = [] then none
    else
      match Json.decode jsonStr with
      | some (.object map) => SeekServeEvent.fromJson map
      | _ => none

/-- The class and the fields of the event are those that were fired. -/
def EngineEvent.Matches : EngineEvent → SeekServeEvent → Prop
  | .metadataReceived id, .metadataReceived torrentId => torrentId = Json.units id.chars
  | .fileCompleted id fi, .fileCompleted torrentId fileIndex =>
    torrentId = Json.units id.chars ∧ fileIndex = fi.toInt
  | .torrentPaused id, .torrentPaused torrentId => torrentId = Json.units id.chars
  | .torrentResumed id, .torrentResumed torrentId => torrentId = Json.units id.chars
  | .error message, .torrentError torrentId text =>
    torrentId = [] ∧ Utf8.toUtf16 message = some text
  | _, _ => False

/-- The callback gets well-formed JSON, and the client gets the event that was fired. -/
def EngineEvent.Survives (e : EngineEvent) : Prop :=
  (∃ text v, Utf8.toUtf16 e.fire = some text ∧ Json.decode text = some v) ∧
    ∃ event, handleNativeEvent (allocString e.fire) = some event ∧ e.Matches event

/-- An error message is UTF-8 text without quotes, backslashes and control characters. -/
def EngineEvent.Harmless : EngineEvent → Prop
  | .error message => ∃ text, Utf8.toUtf16 message = some text ∧ Json.Plain text
  | _ => True

theorem widen_bytes {s : CxxString} (h : ∀ c ∈ s, c.toNat < 128) :
    Utf8.widen s.bytes = Json.units s := by
  unfold Utf8.widen CxxString.bytes Json.units
  rw [List.map_map]
  apply List.map_congr_left
  intro c hc
  have hlt := h c hc
  apply UInt16.toNat.inj
  rw [Function.comp_apply, UInt8.toNat_toUInt16, UInt8.toNat_ofNat', UInt16.toNat_ofNat']
  omega

theorem ascii_bytes {s : CxxString} (h : ∀ c ∈ s, c.toNat < 128) : Utf8.Ascii s.bytes :=
  fun _ hb => CxxString.lt_of_mem_bytes h hb

/-- The parts of an event that the source spells out are ASCII. -/
theorem ascii_literal {s : String} (h : (s.toList.all fun c => c.toNat < 128) = true) :
    Utf8.Ascii (literal s) ∧ Utf8.widen (literal s) = Json.word s := by
  have hall : ∀ c ∈ s.toList, c.toNat < 128 := fun c hc => by
    have hc := List.all_eq_true.mp h c hc
    simpa only [decide_eq_true_eq] using hc
  exact ⟨ascii_bytes hall, widen_bytes hall⟩

theorem plainChar_of_isHexDigit {c : Char} (h : isHexDigit c = true) :
    Json.plainChar c = true := by
  have hlt := lt_of_isHexDigit h
  have hall : ∀ n : Fin 128, isHexDigit (Char.ofNat n) = true →
      Json.plainChar (Char.ofNat n) = true := by decide +kernel
  have hchar := hall ⟨c.toNat, hlt⟩
  rw [Char.ofNat_toNat] at hchar
  exact hchar h

theorem HexId.lt (id : HexId) : ∀ c ∈ id.chars, c.toNat < 128 :=
  fun c hc => lt_of_isHexDigit (id.isHex c hc)

theorem HexId.plain (id : HexId) : Json.Plain (Json.units id.chars) := by
  apply Json.plain_units
  apply List.all_eq_true.mpr
  intro c hc
  exact plainChar_of_isHexDigit (id.isHex c hc)

open Json

/-- The text of an event around its data and what follows them. -/
def envelope (type rest : Text) : Text :=
  123 :: 34 :: (word "type" ++ 34 :: 58 :: 34 :: (type ++ 34 :: 44 :: 34 ::
    (word "data" ++ 34 :: 58 :: rest)))

theorem plain_type (e : EngineEvent) : Plain (word e.type) := by
  cases e with
  | metadataReceived id => exact plain_word (s := "metadata_received") rfl
  | fileCompleted id fi => exact plain_word (s := "file_completed") rfl
  | torrentPaused id => exact plain_word (s := "torrent_paused") rfl
  | torrentResumed id => exact plain_word (s := "torrent_resumed") rfl
  | error message => exact plain_word (s := "error") rfl

theorem ascii_type (e : EngineEvent) :
    Utf8.Ascii (literal e.type) ∧ Utf8.widen (literal e.type) = word e.type := by
  cases e with
  | metadataReceived id => exact ascii_literal (s := "metadata_received") rfl
  | fileCompleted id fi => exact ascii_literal (s := "file_completed") rfl
  | torrentPaused id => exact ascii_literal (s := "torrent_paused") rfl
  | torrentResumed id => exact ascii_literal (s := "torrent_resumed") rfl
  | error message => exact ascii_literal (s := "error") rfl

theorem toUtf16_fire_iff (e : EngineEvent) {t : Text} :
    Utf8.toUtf16 e.fire = some t ↔
      ∃ d, Utf8.toUtf16 e.data = some d ∧ t = envelope (word e.type) (d ++ [125]) := by
  have hopen := ascii_literal (s := "\x7b\"type\":\"") rfl
  have hmiddle := ascii_literal (s := "\",\"data\":") rfl
  have hclose := ascii_literal (s := "\x7d") rfl
  have hfront := (hopen.1.append (ascii_type e).1).append hmiddle.1
  have htext : ∀ d : Text, Utf8.widen (literal "\x7b\"type\":\"" ++ literal e.type ++
      literal "\",\"data\":") ++ d ++ Utf8.widen (literal "\x7d") =
      envelope (word e.type) (d ++ [125]) := by
    intro d
    rw [Utf8.widen_append, Utf8.widen_append, hopen.2, hmiddle.2, hclose.2, (ascii_type e).2]
    have hwords : word "\x7b\"type\":\"" = 123 :: 34 :: (word "type" ++ [34, 58, 34]) ∧
        word "\",\"data\":" = 34 :: 44 :: 34 :: (word "data" ++ [34, 58]) ∧
        word "\x7d" = [125] := ⟨rfl, rfl, rfl⟩
    rw [hwords.1, hwords.2.1, hwords.2.2]
    simp only [envelope, List.append_assoc, List.cons_append, List.nil_append]
  unfold EngineEvent.fire
  rw [Utf8.toUtf16_between_iff hfront hclose.1]
  simp only [htext]

theorem readValue_envelope_iff (n : Nat) {type rest r : Text} (htype : Plain type) {v : Value} :
    readValue (n + 7) (envelope type rest) = some (v, r) ↔
      ∃ d t ms, readValue (n + 4) rest = some (d, t) ∧ Continues (n + 4) (word "data") d t ms r ∧
        v = .object ((word "type", .string type) :: ms) := by
  have hmember : envelope type rest = memberText (word "type") type
      (44 :: 34 :: (word "data" ++ 34 :: 58 :: rest)) := rfl
  rw [hmember, readValue_memberText_iff (n + 4) (plain_word (s := "type") rfl) htype]
  simp only [continues_comma_iff, readMembers_key_iff (plain_word (s := "data") rfl)]
  constructor
  · intro h
    obtain ⟨_, ⟨ms, ⟨d, t, hd, hdata⟩, rfl⟩, rfl⟩ := h
    exact ⟨d, t, ms, hd, hdata, rfl⟩
  · intro h
    obtain ⟨d, t, ms, hd, hdata, rfl⟩ := h
    exact ⟨_, ⟨ms, ⟨d, t, hd, hdata⟩, rfl⟩, rfl⟩

theorem length_envelope (type rest : Text) : 17 + rest.length ≤ (envelope type rest).length := by
  have htype : (word "type").length = 4 := by decide
  have hdata : (word "data").length = 4 := by decide
  simp only [envelope, List.length_cons, List.length_append, htype, hdata]
  omega

theorem decode_envelope {type rest : Text} (htype : Plain type) {d : Value}
    (hd : ∀ n, readValue (n + 4) (rest ++ [125]) = some (d, [125])) :
    decode (envelope type (rest ++ [125])) =
      some (.object [(word "type", .string type), (word "data", d)]) := by
  have hlen := length_envelope type (rest ++ [125])
  obtain ⟨n, hn⟩ : ∃ n, 2 * (envelope type (rest ++ [125])).length + 2 = n + 7 :=
    ⟨2 * (envelope type (rest ++ [125])).length - 5, by omega⟩
  have hread := (readValue_envelope_iff n htype (v := .object [(word "type", .string type),
    (word "data", d)]) (r := [])).mpr ⟨d, [125], [(word "data", d)], hd n,
      continues_close [], rfl⟩
  unfold decode
  rw [hn, hread]
  rfl

theorem plain_ofInt (i : Int) : Plain (units (CxxString.ofInt i)) := by
  apply plain_units
  apply List.all_eq_true.mpr
  intro c hc
  rcases CxxString.mem_ofInt hc with rfl | hdigit
  · rfl
  · apply plainChar_of_isHexDigit
    simp only [isHexDigit, hdigit, Bool.or_true]

theorem readValue_ofInt (n : Nat) {i : Int} (hlow : -(2 ^ 63) ≤ i) (hhigh : i < 2 ^ 63) (t : Text) :
    readValue (n + 1) (units (CxxString.ofInt i) ++ 125 :: t) = some (.int i, 125 :: t) := by
  rcases Int.lt_or_le i 0 with hneg | hpos
  · have hvalue : -((-i).toNat : Int) = i := by omega
    have hread := readNumber_toDigits true (-i).toNat (fun _ => by omega)
      (by rw [if_pos rfl, hvalue]; exact hlow) (by rw [if_pos rfl, hvalue]; exact hhigh) t
    rw [if_pos rfl, if_pos rfl, hvalue] at hread
    rw [CxxString.ofInt_of_neg hneg]
    exact (readValue_number n (Or.inl rfl) _).trans hread
  · have hvalue : (i.toNat : Int) = i := Int.toNat_of_nonneg hpos
    have hfalse : ¬false = true := Bool.false_ne_true
    have hread := readNumber_toDigits false i.toNat Bool.noConfusion
      (by rw [if_neg hfalse, hvalue]; exact hlow) (by rw [if_neg hfalse, hvalue]; exact hhigh) t
    rw [if_neg hfalse, if_neg hfalse, hvalue, List.nil_append] at hread
    rw [CxxString.ofInt_of_nonneg hpos]
    obtain ⟨u, us, hunits, hu, -⟩ := units_toDigits i.toNat
    rw [hunits] at hread ⊢
    exact (readValue_number n (Or.inr hu) _).trans hread

/-- The data of a completed file after the torrent id. -/
def fileIndexText (fi : Int) : Text :=
  44 :: 34 :: (word "file_index" ++ 34 :: 58 :: (units (CxxString.ofInt fi) ++ [125]))

theorem readValue_fileCompleted (n : Nat) {id : Text} (hid : Plain id) (fi : Int32) (r : Text) :
    readValue (n + 4) (memberText (word "torrent_id") id (fileIndexText fi.toInt ++ r)) =
      some (.object [(word "torrent_id", .string id), (word "file_index", .int fi.toInt)], r) := by
  have hlow := fi.le_toInt
  have hhigh := fi.toInt_lt
  have hnumber := readValue_ofInt n (i := fi.toInt) (by omega) (by omega) r
  have htext : fileIndexText fi.toInt ++ r = 44 :: (34 :: (word "file_index" ++
      34 :: 58 :: (units (CxxString.ofInt fi.toInt) ++ 125 :: r))) := by
    simp only [fileIndexText, List.append_assoc, List.cons_append, List.nil_append]
  have hmember := (readMembers_key_iff (plain_word (s := "file_index") rfl)).mpr
    ⟨_, _, hnumber, continues_close r⟩
  rw [htext]
  apply (readValue_memberText_iff (n + 1) (plain_word (s := "torrent_id") rfl) hid).mpr
  exact ⟨_, continues_comma_iff.mpr ⟨_, hmember, rfl⟩, rfl⟩

theorem not_mem_of_plain {t : Text} (h : Plain t) : 0 ∉ t :=
  fun hmem => absurd (h 0 hmem).1 (by decide)

theorem bne_of_not_mem {s : List UInt8} (h : 0 ∉ s) : ∀ b ∈ s, (b != 0) = true := by
  intro b hb
  rw [bne_iff_ne]
  rintro rfl
  exact h hb

theorem allocString_of_not_mem {s : List UInt8} (h : 0 ∉ s) : allocString s = s :=
  List.takeWhile_eq_self_iff.mpr (bne_of_not_mem h)

/-- An event comes through if its data is a text without null that is read as an object. -/
theorem EngineEvent.survives_of_reads {e : EngineEvent} {d : Text} {ms : List (Text × Value)}
    {event : SeekServeEvent} (hd : Utf8.toUtf16 e.data = some d) (hnull : 0 ∉ d)
    (hread : ∀ n, readValue (n + 4) (d ++ [125]) = some (.object ms, [125]))
    (hevent : SeekServeEvent.fromData ms (some (word e.type)) = some event)
    (hmatch : e.Matches event) : e.Survives := by
  have htext := (toUtf16_fire_iff e).mpr ⟨d, hd, rfl⟩
  have hdecode := decode_envelope (plain_type e) hread
  have hwhole : allocString e.fire = e.fire := by
    apply allocString_of_not_mem
    intro hb
    have hmem := Utf8.mem_of_toUtf16 hb (by decide) htext
    have htype := not_mem_of_plain (plain_type e)
    have hkey := not_mem_of_plain (plain_word (s := "type") rfl)
    have hdata := not_mem_of_plain (plain_word (s := "data") rfl)
    simp [envelope, htype, hkey, hdata, hnull] at hmem
  refine ⟨⟨_, _, htext, hdecode⟩, event, ?_, hmatch⟩
  have hjson : SeekServeEvent.fromJson [(word "type", .string (word e.type)),
      (word "data", .object ms)] = SeekServeEvent.fromData ms (some (word e.type)) := rfl
  unfold handleNativeEvent
  rw [hwhole, htext]
  simp only [hdecode, hjson, hevent]
  exact if_neg (List.cons_ne_nil _ _)

/-- An object that is put together around the bytes of one string. -/
theorem toUtf16_single_iff {front : String} (key : Text)
    (hascii : (front.toList.all fun c => c.toNat < 128) = true)
    (hfront : word front = 123 :: 34 :: (key ++ [34, 58, 34])) (x : List UInt8) {t : Text} :
    Utf8.toUtf16 (literal front ++ x ++ literal "\"\x7d") = some t ↔
      ∃ text, Utf8.toUtf16 x = some text ∧ t = memberText key text [125] := by
  have hopen := ascii_literal hascii
  have hclose := ascii_literal (s := "\"\x7d") rfl
  have hback : word "\"\x7d" = [34, 125] := rfl
  have htext : ∀ text : Text, Utf8.widen (literal front) ++ text ++
      Utf8.widen (literal "\"\x7d") = memberText key text [125] := by
    intro text
    rw [hopen.2, hclose.2, hfront, hback]
    simp only [memberText, List.append_assoc, List.cons_append, List.nil_append]
  rw [Utf8.toUtf16_between_iff hopen.1 hclose.1]
  simp only [htext]

theorem toUtf16_torrentData (id : HexId) :
    Utf8.toUtf16 (torrentData id) =
      some (memberText (word "torrent_id") (units id.chars) [125]) := by
  apply (toUtf16_single_iff (word "torrent_id") rfl rfl _).mpr
  refine ⟨_, ?_, rfl⟩
  rw [Utf8.toUtf16_ascii (ascii_bytes id.lt), widen_bytes id.lt]

theorem toUtf16_fileData (id : HexId) (fi : Int32) :
    Utf8.toUtf16 (EngineEvent.fileCompleted id fi).data =
      some (memberText (word "torrent_id") (units id.chars) (fileIndexText fi.toInt)) := by
  have hopen := ascii_literal (s := "\x7b\"torrent_id\":\"") rfl
  have hmiddle := ascii_literal (s := "\",\"file_index\":") rfl
  have hclose := ascii_literal (s := "\x7d") rfl
  have hindex : ∀ c ∈ CxxString.ofInt fi.toInt, c.toNat < 128 := by
    intro c hc
    rcases CxxString.mem_ofInt hc with rfl | hdigit
    · decide
    · apply lt_of_isHexDigit
      simp only [isHexDigit, hdigit, Bool.or_true]
  have hword : word "\x7b\"torrent_id\":\"" = 123 :: 34 :: (word "torrent_id" ++ [34, 58, 34]) ∧
      word "\",\"file_index\":" = 34 :: 44 :: 34 :: (word "file_index" ++ [34, 58]) ∧
      word "\x7d" = [125] := ⟨rfl, rfl, rfl⟩
  have hascii := (((hopen.1.append (ascii_bytes id.lt)).append hmiddle.1).append
    (ascii_bytes hindex)).append hclose.1
  unfold EngineEvent.data
  rw [Utf8.toUtf16_ascii hascii, Utf8.widen_append, Utf8.widen_append, Utf8.widen_append,
    Utf8.widen_append, hopen.2, hmiddle.2, hclose.2, widen_bytes id.lt, widen_bytes hindex,
    hword.1, hword.2.1, hword.2.2]
  simp only [memberText, fileIndexText, List.append_assoc, List.cons_append, List.nil_append]

theorem toUtf16_errorData_iff (message : List UInt8) {t : Text} :
    Utf8.toUtf16 (EngineEvent.error message).data = some t ↔
      ∃ text, Utf8.toUtf16 message = some text ∧ t = memberText (word "message") text [125] :=
  toUtf16_single_iff (word "message") rfl rfl message

theorem not_mem_memberText {key value rest : Text} (hkey : Plain key) (hvalue : Plain value)
    (hrest : 0 ∉ rest) : 0 ∉ memberText key value rest := by
  have hk := not_mem_of_plain hkey
  have hv := not_mem_of_plain hvalue
  simp [memberText, hk, hv, hrest]

/-- The three events that have a torrent id only. -/
theorem EngineEvent.survives_of_torrent {e : EngineEvent} {id : HexId} {event : SeekServeEvent}
    (name : String) (htype : e.type = name) (hdata : e.data = torrentData id)
    (hevent : SeekServeEvent.fromData [(word "torrent_id", .string (units id.chars))]
      (some (word name)) = some event)
    (hmatch : e.Matches event) : e.Survives := by
  rw [← htype] at hevent
  have hkey : Plain (word "torrent_id") := plain_word rfl
  have htext := toUtf16_torrentData id
  rw [← hdata] at htext
  apply survives_of_reads htext (not_mem_memberText hkey id.plain (by decide)) _ hevent hmatch
  intro n
  rw [memberText_append]
  exact readValue_single (n + 1) hkey id.plain [125]

theorem EngineEvent.fileCompleted_survives (id : HexId) (fi : Int32) :
    (EngineEvent.fileCompleted id fi).Survives := by
  have hkey : Plain (word "torrent_id") := plain_word rfl
  have hnull : 0 ∉ fileIndexText fi.toInt := by
    have hindex := not_mem_of_plain (plain_word (s := "file_index") rfl)
    have hnumber := not_mem_of_plain (plain_ofInt fi.toInt)
    simp [fileIndexText, hindex, hnumber]
  have hevent : SeekServeEvent.fromData [(word "torrent_id", .string (units id.chars)),
      (word "file_index", .int fi.toInt)] (some (word "file_completed")) =
        some (.fileCompleted (units id.chars) fi.toInt) := rfl
  have hmatch : (EngineEvent.fileCompleted id fi).Matches
      (.fileCompleted (units id.chars) fi.toInt) := ⟨rfl, rfl⟩
  apply survives_of_reads (toUtf16_fileData id fi) (not_mem_memberText hkey id.plain hnull)
    _ hevent hmatch
  intro n
  rw [memberText_append]
  exact readValue_fileCompleted n id.plain fi [125]

theorem EngineEvent.error_survives {message : List UInt8} {text : Text}
    (hm : Utf8.toUtf16 message = some text) (hplain : Plain text) :
    (EngineEvent.error message).Survives := by
  have hkey : Plain (word "message") := plain_word rfl
  have htext := (toUtf16_errorData_iff message).mpr ⟨text, hm, rfl⟩
  have hevent : SeekServeEvent.fromData [(word "message", .string text)] (some (word "error")) =
      some (.torrentError [] text) := rfl
  have hmatch : (EngineEvent.error message).Matches (.torrentError [] text) := ⟨rfl, hm⟩
  apply survives_of_reads htext (not_mem_memberText hkey hplain (by decide)) _ hevent hmatch
  intro n
  rw [memberText_append]
  exact readValue_single (n + 1) hkey hplain [125]

theorem EngineEvent.survives_of_harmless {e : EngineEvent} (h : e.Harmless) : e.Survives := by
  cases e with
  | metadataReceived id =>
    have hmatch : (EngineEvent.metadataReceived id).Matches
      (.metadataReceived (units id.chars)) := rfl
    exact survives_of_torrent "metadata_received" rfl rfl rfl hmatch
  | fileCompleted id fi => exact fileCompleted_survives id fi
  | torrentPaused id =>
    have hmatch : (EngineEvent.torrentPaused id).Matches (.torrentPaused (units id.chars)) := rfl
    exact survives_of_torrent "torrent_paused" rfl rfl rfl hmatch
  | torrentResumed id =>
    have hmatch : (EngineEvent.torrentResumed id).Matches (.torrentResumed (units id.chars)) := rfl
    exact survives_of_torrent "torrent_resumed" rfl rfl rfl hmatch
  | error message =>
    obtain ⟨text, hm, hplain⟩ := h
    exact error_survives hm hplain

/-- The text of an error event, up to the first unit of its message. -/
def messageText (rest : Text) : Text :=
  envelope (word "error") (123 :: 34 :: (word "message" ++ 34 :: 58 :: 34 :: rest))

/-- The strings of the data object have room in what follows the opening quote of the message,
and one that fills it stands there as it is. -/
theorem message_room {n : Nat} {rest t : Text} {d : Value}
    (h : readValue (n + 4) (123 :: 34 :: (word "message" ++ 34 :: 58 :: 34 :: rest)) =
      some (d, t)) :
    t.length + 2 ≤ rest.length ∧ ∀ s, d.Has s → s.length + 2 + t.length ≤ rest.length ∧
      (rest.length = s.length + 2 + t.length → Plain s) := by
  rw [readValue_object] at h
  simp only [Option.map_eq_some_iff, Prod.exists, Prod.mk.injEq] at h
  obtain ⟨ms, _, hmembers, rfl, rfl⟩ := h
  obtain ⟨v, t', hvalue, hcontinue⟩ :=
    (readMembers_key_iff (plain_word (s := "message") rfl)).mp hmembers
  rw [readValue_string] at hvalue
  simp only [Option.map_eq_some_iff, Prod.exists, Prod.mk.injEq] at hvalue
  obtain ⟨s₀, _, hstring, rfl, rfl⟩ := hvalue
  obtain ⟨hle, heq⟩ := readString_bound hstring
  obtain ⟨hlt, hroom⟩ := hcontinue.has
  refine ⟨by omega, ?_⟩
  intro s hs
  rcases hroom s hs with hfirst | hlater
  · cases hfirst
    exact ⟨by omega, fun hlen => (heq (by omega)).2⟩
  · exact ⟨by omega, fun hlen => by omega⟩

/-- A message that the client finds in the text is plain or leaves more than the three closing
units of the text. -/
theorem decoded_message {rest s : Text} {map ms : List (Text × Value)}
    (hdecode : decode (messageText rest) = some (.object map))
    (hdata : field (word "data") map = some (.object ms))
    (hmessage : field (word "message") ms = some (.string s)) :
    s.length + 3 ≤ rest.length ∧ (rest.length = s.length + 3 → Plain s) := by
  unfold decode at hdecode
  have hlen := length_envelope (word "error") (123 :: 34 :: (word "message" ++
    34 :: 58 :: 34 :: rest))
  obtain ⟨n, hn⟩ : ∃ n, 2 * (messageText rest).length + 2 = n + 7 :=
    ⟨2 * (messageText rest).length - 5, by unfold messageText; omega⟩
  rw [hn] at hdecode
  split at hdecode
  · cases hdecode
  rename_i v r hread
  split at hdecode
  · cases hdecode
    obtain ⟨d, t, ms', hd, hcontinue, hmap⟩ :=
      (readValue_envelope_iff n (plain_word (s := "error") rfl)).mp hread
    obtain ⟨hshort, hroom⟩ := message_room hd
    obtain ⟨hlt, hstrings⟩ := hcontinue.has
    have hne : word "type" ≠ word "data" := by decide
    cases hmap
    rw [field_cons_of_ne hne] at hdata
    have hhas : (Value.object ms').Has s :=
      .member (mem_of_field hdata) (.member (mem_of_field hmessage) .here)
    rcases hstrings s hhas with hinner | hlater
    · obtain ⟨hle, hplain⟩ := hroom s hinner
      exact ⟨by omega, fun hlen => hplain (by omega)⟩
    · exact ⟨by omega, fun hlen => by omega⟩
  · cases hdecode

theorem eq_string_of_asString {v : Option Value} {s : DartString}
    (h : asString v = some (some s)) : v = some (.string s) := by
  unfold asString at h
  split at h
  · cases h
  · cases h
  · cases h
    rfl
  · cases h

theorem eq_object_of_asMap {v : Option Value} {ms : List (DartString × Value)}
    (h : asMap v = some (some ms)) : v = some (.object ms) := by
  unfold asMap at h
  split at h
  · cases h
  · cases h
  · cases h
    rfl
  · cases h

theorem SeekServeEvent.message_of_fromData {data : List (DartString × Value)}
    {type : Option DartString} {id message : DartString}
    (h : fromData data type = some (.torrentError id message)) :
    message = word "Unknown error" ∨ field (word "message") data = some (.string message) := by
  unfold fromData at h
  split at h
  · obtain ⟨_, _, heq⟩ := Option.map_eq_some_iff.mp h
    cases heq
  split at h
  · split at h
    · cases h
    · cases h
  split at h
  · obtain ⟨_, _, heq⟩ := Option.map_eq_some_iff.mp h
    cases heq
  split at h
  · obtain ⟨_, _, heq⟩ := Option.map_eq_some_iff.mp h
    cases heq
  split at h
  · split at h
    · rename_i id' message' hid hmessage
      cases h
      cases message' with
      | none => exact Or.inl rfl
      | some m => exact Or.inr (eq_string_of_asString hmessage)
    · cases h
  · cases h

/-- An error event has the message of the text or the default one. -/
theorem SeekServeEvent.message_of_fromJson {json : List (DartString × Value)}
    {id message : DartString} (h : fromJson json = some (.torrentError id message)) :
    message = word "Unknown error" ∨ ∃ ms, field (word "data") json = some (.object ms) ∧
      field (word "message") ms = some (.string message) := by
  unfold fromJson at h
  split at h
  · rename_i type data htype hdata
    rcases message_of_fromData h with hdefault | hmessage
    · exact Or.inl hdefault
    · cases data with
      | none => cases hmessage
      | some ms => exact Or.inr ⟨ms, eq_object_of_asMap hdata, hmessage⟩
  · cases h

/-- What an error event says before its message. -/
def errorFront : List UInt8 :=
  literal "\x7b\"type\":\"" ++ literal "error" ++ literal "\",\"data\":" ++
    literal "\x7b\"message\":\""

def errorBack : List UInt8 := literal "\"\x7d" ++ literal "\x7d"

theorem fire_error (message : List UInt8) :
    (EngineEvent.error message).fire = errorFront ++ (message ++ errorBack) := by
  simp only [EngineEvent.fire, EngineEvent.type, EngineEvent.data, errorFront, errorBack,
    List.append_assoc]

theorem toUtf16_errorFront_iff (bs : List UInt8) {t : Text} :
    Utf8.toUtf16 (errorFront ++ bs) = some t ↔
      ∃ rest, Utf8.toUtf16 bs = some rest ∧ t = messageText rest := by
  have hopen := ascii_literal (s := "\x7b\"type\":\"") rfl
  have htype := ascii_literal (s := "error") rfl
  have hmiddle := ascii_literal (s := "\",\"data\":") rfl
  have hkey := ascii_literal (s := "\x7b\"message\":\"") rfl
  have hascii : Utf8.Ascii errorFront :=
    ((hopen.1.append htype.1).append hmiddle.1).append hkey.1
  have hfront : Utf8.widen errorFront = messageText [] := by decide +kernel
  have htext : ∀ rest : Text, Utf8.widen errorFront ++ rest = messageText rest := by
    intro rest
    rw [hfront]
    simp only [messageText, envelope, List.append_assoc, List.cons_append, List.nil_append]
  rw [Utf8.toUtf16_ascii_append_iff hascii]
  simp only [htext]

theorem allocString_errorFront (bs : List UInt8) :
    allocString (errorFront ++ bs) = errorFront ++ allocString bs := by
  have hall : errorFront.all (· != 0) = true := rfl
  exact List.takeWhile_append_of_pos (List.all_eq_true.mp hall)

/-- After the front the copy has no more than the message and three closing units: a null in
the message cuts it short. -/
theorem length_after_front {message : List UInt8} {text rest : Text}
    (hm : Utf8.toUtf16 message = some text)
    (hrest : Utf8.toUtf16 (allocString (message ++ errorBack)) = some rest) :
    rest.length ≤ text.length + 3 := by
  by_cases hnull : 0 ∈ message
  · obtain ⟨front, back, rfl, hfront⟩ := List.eq_append_cons_of_mem hnull
    obtain ⟨t₀, t₁, hfirst, -, rfl⟩ := (Utf8.toUtf16_append_cons_iff (by decide)).mp hm
    have hcut : allocString (front ++ 0 :: back ++ errorBack) = front := by
      unfold allocString
      rw [List.append_assoc, List.takeWhile_append_of_pos (bne_of_not_mem hfront),
        List.cons_append, List.takeWhile_cons_of_neg (by decide), List.append_nil]
    rw [hcut, hfirst] at hrest
    cases hrest
    simp only [List.length_append, List.length_cons]
    omega
  · have hwhole : allocString (message ++ errorBack) = message ++ errorBack := by
      apply allocString_of_not_mem
      intro hb
      rcases List.mem_append.mp hb with h | h
      · exact hnull h
      · exact absurd h (by decide)
    have hback : Utf8.Ascii errorBack :=
      (ascii_literal (s := "\"\x7d") rfl).1.append (ascii_literal (s := "\x7d") rfl).1
    rw [hwhole, Utf8.toUtf16_append_ascii_iff hback, hm] at hrest
    obtain ⟨t', heq, rfl⟩ := hrest
    cases heq
    rw [List.length_append]
    exact Nat.le_refl _

/-- An error event comes through with a plain message only. -/
theorem EngineEvent.harmless_of_survives {e : EngineEvent} (h : e.Survives) : e.Harmless := by
  cases e with
  | metadataReceived id => trivial
  | fileCompleted id fi => trivial
  | torrentPaused id => trivial
  | torrentResumed id => trivial
  | error message =>
    obtain ⟨-, event, hhandle, hmatch⟩ := h
    cases event with
    | torrentError id text =>
      have hm : Utf8.toUtf16 message = some text := hmatch.2
      refine ⟨text, hm, ?_⟩
      rw [fire_error, allocString_errorFront] at hhandle
      unfold handleNativeEvent at hhandle
      split at hhandle
      · cases hhandle
      rename_i jsonStr hjson
      obtain ⟨rest, hrest, rfl⟩ := (toUtf16_errorFront_iff _).mp hjson
      split at hhandle
      · cases hhandle
      split at hhandle
      · rename_i map hdecode
        rcases SeekServeEvent.message_of_fromJson hhandle with rfl | ⟨ms, hdata, hmessage⟩
        · exact plain_word (s := "Unknown error") rfl
        · obtain ⟨hle, hplain⟩ := decoded_message hdecode hdata hmessage
          have hend := length_after_front hm hrest
          exact hplain (by omega)
      · cases hhandle
    | metadataReceived id => exact hmatch.elim
    | fileCompleted id fi => exact hmatch.elim
    | torrentPaused id => exact hmatch.elim
    | torrentResumed id => exact hmatch.elim
    | unknown type data => exact hmatch.elim

/-- The events about a torrent always come through, an error if its message is harmless. -/
theorem EngineEvent.survives_iff (e : EngineEvent) : e.Survives ↔ e.Harmless :=
  ⟨harmless_of_survives, survives_of_harmless⟩

theorem EngineEvent.quoted_message_is_lost :
    ¬(EngineEvent.error (literal "a\"b")).Survives := by
  intro h
  obtain ⟨text, htext, hplain⟩ := harmless_of_survives h
  rw [Utf8.toUtf16_ascii (ascii_literal rfl).1, (ascii_literal rfl).2] at htext
  cases htext
  have hquote := hplain 34 (by simp [word, units])
  exact hquote.2.1 rfl

end SeekServe
