import SeekServe.ControlThread
import SeekServe.EngineConfig
import SeekServe.Lib.JsonText
import SeekServe.Lib.Utf8

/-!
# JSON between C++ and Dart

The JSON library of the C++ side writes and reads UTF-8, the one of the Dart side UTF-16. What
is relied on is that both follow RFC 8259; the order of the members is left open.
-/

namespace SeekServe

set_option autoImplicit false

/-- The `std::string` with the UTF-8 bytes of the text. -/
def utf8String (cs : List Char) : CxxString := (Utf8.encode cs).map fun b => Char.ofNat b.toNat

/-- One JSON value, for the library of either side. -/
inductive JsonValue.Stands : JsonValue → Json.Value → Prop
  | null : Stands .null .null
  | boolean (b : Bool) : Stands (.boolean b) (.bool b)
  | integer {i : Int} (hlow : -(2 ^ 63) ≤ i) (hhigh : i < 2 ^ 63) : Stands (.integer i) (.int i)
  | floating (x : Rat) : Stands (.floating x) .double
  | string (cs : List Char) : Stands (.string (utf8String cs)) (.string (Utf8.utf16 cs))
  | array (ps : List (JsonValue × Json.Value)) (h : ∀ p ∈ ps, Stands p.1 p.2) :
    Stands (.array (ps.map Prod.fst)) (.array (ps.map Prod.snd))
  | object (ps : List (List Char × JsonValue × Json.Value)) (h : ∀ p ∈ ps, Stands p.2.1 p.2.2)
    (hnodup : (ps.map Prod.fst).Nodup) {ns : List (Json.Text × Json.Value)}
    (hperm : ns.Perm (ps.map fun p => (Utf8.utf16 p.1, p.2.2))) :
    Stands (.object (ps.map fun p => (utf8String p.1, p.2.1))) (.object ns)

/-- `json::dump` and `json::parse` follow RFC 8259; `none` stands for an exception. -/
structure FollowsJson (dump : JsonValue → Option (List UInt8))
    (parse : List UInt8 → Option JsonValue) : Prop where
  dump_text {v : JsonValue} {w : Json.Value} (h : v.Stands w) : ∃ cs w', v.Stands w' ∧
    dump v = some (Utf8.encode cs) ∧ Json.Writes (.value w') (Utf8.utf16 cs)
  parse_text {v : JsonValue} {w : Json.Value} (h : v.Stands w) {cs : List Char}
    (ht : Json.Writes (.value w) (Utf8.utf16 cs)) :
    ∃ v', v'.Stands w ∧ parse (Utf8.encode cs) = some v'

theorem toNat_ofNat_byte (b : UInt8) : (Char.ofNat b.toNat).toNat = b.toNat := by
  have hlt := b.toNat_lt
  rw [Char.toNat_ofNat, if_pos]
  exact Or.inl (by omega)

theorem lt_of_mem_utf8String {cs : List Char} {c : Char} (h : c ∈ utf8String cs) :
    c.toNat < 256 := by
  obtain ⟨b, -, rfl⟩ := List.mem_map.mp h
  rw [toNat_ofNat_byte]
  exact b.toNat_lt

theorem bytes_utf8String (cs : List Char) : (utf8String cs).bytes = Utf8.encode cs := by
  have hsame : ∀ b : UInt8, UInt8.ofNat (Char.ofNat b.toNat).toNat = b := by
    intro b
    rw [toNat_ofNat_byte, UInt8.ofNat_toNat]
  unfold utf8String CxxString.bytes
  rw [List.map_map]
  exact (List.map_congr_left fun b _ => hsame b).trans (List.map_id _)

theorem utf8String_injective {cs ds : List Char} (h : utf8String cs = utf8String ds) :
    cs = ds := by
  have hbytes := congrArg CxxString.bytes h
  rw [bytes_utf8String, bytes_utf8String] at hbytes
  have hdecode := congrArg Utf8.decode hbytes
  rw [Utf8.decode_encode, Utf8.decode_encode] at hdecode
  exact Option.some.inj hdecode

theorem utf16_injective {cs ds : List Char} (h : Utf8.utf16 cs = Utf8.utf16 ds) : cs = ds := by
  have hread := congrArg Utf8.fromUtf16 h
  rw [Utf8.fromUtf16_utf16, Utf8.fromUtf16_utf16] at hread
  exact hread

/-- ASCII text is the same on both sides. -/
theorem ascii_text {cs : List Char} (h : ∀ c ∈ cs, c.toNat < 128) :
    utf8String cs = cs ∧ Utf8.utf16 cs = Json.units cs := by
  induction cs with
  | nil => exact ⟨rfl, rfl⟩
  | cons c cs ih =>
    obtain ⟨hbytes, hunits⟩ := ih fun d hd => h d (List.mem_cons_of_mem c hd)
    have hc := h c List.mem_cons_self
    have hnat : (UInt8.ofNat c.toNat).toNat = c.toNat := by
      rw [UInt8.toNat_ofNat']
      omega
    have hencode : String.utf8EncodeChar c = [UInt8.ofNat c.toNat] := by
      have hchar := Utf8.encodeChar_ofNat (b := UInt8.ofNat c.toNat) (by omega)
      rw [hnat, Char.ofNat_toNat] at hchar
      exact hchar
    have hunit : Utf8.utf16Char c = [UInt16.ofNat c.toNat] := by
      unfold Utf8.utf16Char
      rw [if_pos (by omega)]
    constructor
    · unfold utf8String at hbytes ⊢
      rw [Utf8.encode_cons, hencode, List.singleton_append, List.map_cons, hbytes, hnat,
        Char.ofNat_toNat]
    · have hsplit : Utf8.utf16 (c :: cs) = Utf8.utf16Char c ++ Utf8.utf16 cs := rfl
      rw [hsplit, hunits, hunit]
      rfl

theorem ascii_word {s : String} (h : (s.toList.all fun c => c.toNat < 128) = true) :
    utf8String s.toList = s.toList ∧ Utf8.utf16 s.toList = Json.word s :=
  ascii_text fun c hc => of_decide_eq_true (List.all_eq_true.mp h c hc)

theorem lookup_of_mem {ms : List (CxxString × JsonValue)} {key : CxxString} {v : JsonValue}
    (hnodup : (ms.map Prod.fst).Nodup) (hmem : (key, v) ∈ ms) : ms.lookup key = some v := by
  induction ms with
  | nil => exact absurd hmem List.not_mem_nil
  | cons m ms ih =>
    obtain ⟨k, w⟩ := m
    rw [List.map_cons, List.nodup_cons] at hnodup
    rcases List.mem_cons.mp hmem with heq | hrest
    · cases heq
      exact List.lookup_cons_self
    · have hne : (key == k) = false := by
        apply beq_eq_false_iff_ne.mpr
        rintro rfl
        have hkey := List.mem_map_of_mem (f := Prod.fst) hrest
        exact hnodup.1 hkey
      rw [List.lookup_cons, hne]
      exact ih hnodup.2 hrest

namespace JsonValue.Stands
variable {v : JsonValue} {w : Json.Value}

theorem integer_iff {i : Int} :
    (JsonValue.integer i).Stands w ↔ -(2 ^ 63) ≤ i ∧ i < 2 ^ 63 ∧ w = .int i := by
  constructor
  · intro h
    cases h with
    | integer hlow hhigh => exact ⟨hlow, hhigh, rfl⟩
  · rintro ⟨hlow, hhigh, rfl⟩
    exact .integer hlow hhigh

theorem to_integer {i : Int} (h : v.Stands (.int i)) : v = .integer i := by
  cases h with
  | integer _ _ => rfl

theorem to_boolean {b : Bool} (h : v.Stands (.bool b)) : v = .boolean b := by
  cases h with
  | boolean _ => rfl

theorem of_string {cs : List Char} (h : (JsonValue.string (utf8String cs)).Stands w) :
    w = .string (Utf8.utf16 cs) := by
  generalize hs : utf8String cs = s at h
  cases h with
  | string ds => rw [utf8String_injective hs]

theorem to_string {cs : List Char} (h : v.Stands (.string (Utf8.utf16 cs))) :
    v = .string (utf8String cs) := by
  generalize ht : Utf8.utf16 cs = t at h
  cases h with
  | string ds => rw [utf16_injective ht]

theorem of_array {vs : List JsonValue} (h : (JsonValue.array vs).Stands w) :
    ∃ ws, w = .array ws ∧ List.Forall₂ JsonValue.Stands vs ws := by
  cases h with
  | array ps h =>
    refine ⟨_, rfl, ?_⟩
    rw [List.forall₂_map_left_iff, List.forall₂_map_right_iff, List.forall₂_same]
    exact h

theorem to_array {ws : List Json.Value} (h : v.Stands (.array ws)) :
    ∃ vs, v = .array vs ∧ List.Forall₂ JsonValue.Stands vs ws := by
  cases h with
  | array ps h =>
    refine ⟨_, rfl, ?_⟩
    rw [List.forall₂_map_left_iff, List.forall₂_map_right_iff, List.forall₂_same]
    exact h

/-- What the Dart side finds under a key of an object of the C++ side. -/
theorem of_object {ms : List (CxxString × JsonValue)} (h : (JsonValue.object ms).Stands w) :
    ∃ ns, w = .object ns ∧
      (∀ cs v, (utf8String cs, v) ∈ ms → ∃ w', v.Stands w' ∧
        Json.field (Utf8.utf16 cs) ns = some w') ∧
      ∀ cs, utf8String cs ∉ ms.map Prod.fst → Json.field (Utf8.utf16 cs) ns = none := by
  cases h with
  | @object ps h hnodup ns hperm =>
    have hkeys : (ns.map Prod.fst).Nodup := by
      apply (hperm.map Prod.fst).nodup_iff.mpr
      rw [List.map_map]
      have hnodup' := hnodup.map fun _ _ => utf16_injective
      rw [List.map_map] at hnodup'
      exact hnodup'
    refine ⟨ns, rfl, ?_, ?_⟩
    · intro cs v hmem
      obtain ⟨p, hp, heq⟩ := List.mem_map.mp hmem
      obtain ⟨hkey, hv⟩ := Prod.mk.inj heq
      refine ⟨p.2.2, hv ▸ h p hp, Json.field_of_mem hkeys (hperm.mem_iff.mpr ?_)⟩
      rw [← utf8String_injective hkey]
      exact List.mem_map_of_mem (f := fun p => (Utf8.utf16 p.1, p.2.2)) hp
    · intro cs hnot
      apply Json.field_eq_none
      intro hmem
      obtain ⟨n, hn, hkey⟩ := List.mem_map.mp hmem
      obtain ⟨p, hp, rfl⟩ := List.mem_map.mp (hperm.mem_iff.mp hn)
      apply hnot
      rw [← utf16_injective hkey, List.map_map]
      exact List.mem_map_of_mem (f := fun p => utf8String p.1) hp

/-- What the C++ side finds under a key of an object of the Dart side. -/
theorem to_object {ns : List (Json.Text × Json.Value)} (h : v.Stands (.object ns)) :
    ∃ ms, v = .object ms ∧
      (∀ cs w, (Utf8.utf16 cs, w) ∈ ns → ∃ v', v'.Stands w ∧
        ms.lookup (utf8String cs) = some v') ∧
      ∀ cs, Utf8.utf16 cs ∉ ns.map Prod.fst → ms.lookup (utf8String cs) = none := by
  cases h with
  | object ps h hnodup hperm =>
    refine ⟨_, rfl, ?_, ?_⟩
    · intro cs w hmem
      obtain ⟨p, hp, heq⟩ := List.mem_map.mp (hperm.mem_iff.mp hmem)
      obtain ⟨hkey, hw⟩ := Prod.mk.inj heq
      refine ⟨p.2.1, hw ▸ h p hp, ?_⟩
      rw [← utf16_injective hkey]
      apply lookup_of_mem
      · rw [List.map_map]
        have hnodup' := hnodup.map fun _ _ => utf8String_injective
        rw [List.map_map] at hnodup'
        exact hnodup'
      · exact List.mem_map_of_mem (f := fun p => (utf8String p.1, p.2.1)) hp
    · intro cs hnot
      apply List.lookup_eq_none_iff.mpr
      intro m hm
      obtain ⟨p, hp, rfl⟩ := List.mem_map.mp hm
      rw [bne_iff_ne]
      intro hkey
      apply hnot
      rw [utf8String_injective hkey]
      have hn := hperm.mem_iff.mpr
        (List.mem_map_of_mem (f := fun p => (Utf8.utf16 p.1, p.2.2)) hp)
      exact List.mem_map_of_mem (f := Prod.fst) hn

/-- An object of C++ with the keys that the source spells out. -/
theorem record {keys : List String} {ps : List (String × JsonValue × Json.Value)}
    (hkeys : ps.map Prod.fst = keys)
    (hascii : ∀ key ∈ keys, (key.toList.all fun c => c.toNat < 128) = true) (hnodup : keys.Nodup)
    (h : ∀ p ∈ ps, p.2.1.Stands p.2.2) :
    (JsonValue.object (ps.map fun p => (p.1.toList, p.2.1))).Stands
      (.object (ps.map fun p => (Json.word p.1, p.2.2))) := by
  subst hkeys
  have hinjective : Function.Injective String.toList := fun _ _ hlist => String.toList_inj.mp hlist
  have hword : ∀ p ∈ ps, utf8String p.1.toList = p.1.toList ∧
      Utf8.utf16 p.1.toList = Json.word p.1 :=
    fun p hp => ascii_word (hascii p.1 (List.mem_map_of_mem hp))
  have hstands := Stands.object (ps.map fun p => (p.1.toList, p.2.1, p.2.2))
    (fun q hq => by
      obtain ⟨p, hp, rfl⟩ := List.mem_map.mp hq
      exact h p hp)
    (by
      have hkeys := hnodup.map hinjective
      rw [List.map_map] at hkeys ⊢
      exact hkeys)
    (List.Perm.refl _)
  rw [List.map_map, List.map_map] at hstands
  have hbytes : ps.map ((fun p => (utf8String p.1, p.2.1)) ∘ fun p => (p.1.toList, p.2.1, p.2.2)) =
      ps.map fun p => (p.1.toList, p.2.1) :=
    List.map_congr_left fun p hp => Prod.ext (hword p hp).1 rfl
  have hunits : ps.map ((fun p => (Utf8.utf16 p.1, p.2.2)) ∘ fun p => (p.1.toList, p.2.1, p.2.2)) =
      ps.map fun p => (Json.word p.1, p.2.2) :=
    List.map_congr_left fun p hp => Prod.ext (hword p hp).2 rfl
  rw [hbytes, hunits] at hstands
  exact hstands

/-- What the Dart side finds under the keys that it spells out. -/
theorem of_record {ms : List (CxxString × JsonValue)} (h : (JsonValue.object ms).Stands w) :
    ∃ ns, w = .object ns ∧ ∀ key : String, (key.toList.all fun c => c.toNat < 128) = true →
      (∀ v, (key.toList, v) ∈ ms → ∃ w', v.Stands w' ∧
        Json.field (Json.word key) ns = some w') ∧
      (key.toList ∉ ms.map Prod.fst → Json.field (Json.word key) ns = none) := by
  obtain ⟨ns, rfl, hsome, hnone⟩ := h.of_object
  refine ⟨ns, rfl, ?_⟩
  intro key hkey
  obtain ⟨hbytes, hunits⟩ := ascii_word hkey
  have hsome := hsome key.toList
  have hnone := hnone key.toList
  rw [hbytes, hunits] at hsome hnone
  exact ⟨hsome, hnone⟩

end JsonValue.Stands

/-- The members whose values are there. -/
def present (entries : List (String × Option Json.Value)) : List (Json.Text × Json.Value) :=
  entries.filterMap fun entry => entry.2.map fun w => (Json.word entry.1, w)

section Present
variable {entries : List (String × Option Json.Value)}
  (hascii : ∀ key ∈ entries.map Prod.fst, (key.toList.all fun c => c.toNat < 128) = true)
  (hnodup : (entries.map Prod.fst).Nodup)
include hascii hnodup

theorem stands_present (h : ∀ key w, (key, some w) ∈ entries → ∃ v : JsonValue, v.Stands w) :
    ∃ v : JsonValue, v.Stands (.object (present entries)) := by
  obtain ⟨ps, hsub, hps, hstands⟩ : ∃ ps : List (String × JsonValue × Json.Value),
      (ps.map Prod.fst).Sublist (entries.map Prod.fst) ∧
      ps.map (fun p => (Json.word p.1, p.2.2)) = present entries ∧
      ∀ p ∈ ps, p.2.1.Stands p.2.2 := by
    clear hascii hnodup
    induction entries with
    | nil => exact ⟨[], List.Sublist.refl _, rfl, fun p hp => absurd hp List.not_mem_nil⟩
    | cons entry entries ih =>
      obtain ⟨ps, hsub, hps, hstands⟩ := ih fun key w hmem => h key w (List.mem_cons_of_mem _ hmem)
      obtain ⟨key, o⟩ := entry
      cases o with
      | none => exact ⟨ps, hsub.cons key, hps, hstands⟩
      | some w =>
        obtain ⟨v, hv⟩ := h key w List.mem_cons_self
        refine ⟨(key, v, w) :: ps, hsub.cons_cons key, congrArg ((Json.word key, w) :: ·) hps, ?_⟩
        intro p hp
        rcases List.mem_cons.mp hp with rfl | hp
        · exact hv
        · exact hstands p hp
  rw [← hps]
  exact ⟨_, .record rfl (fun key hkey => hascii key (hsub.mem hkey)) (hsub.nodup hnodup) hstands⟩

/-- What the C++ side finds under each key. -/
theorem JsonValue.Stands.lookup_present {v : JsonValue}
    (h : v.Stands (.object (present entries))) :
    ∃ ms, v = .object ms ∧ ∀ key o, (key, o) ∈ entries →
      (o = none → ms.lookup key.toList = none) ∧
      ∀ w, o = some w → ∃ v', v'.Stands w ∧ ms.lookup key.toList = some v' := by
  obtain ⟨ms, rfl, hsome, hnone⟩ := h.to_object
  refine ⟨ms, rfl, ?_⟩
  intro key o hmem
  obtain ⟨hbytes, hunits⟩ := ascii_word (hascii key (List.mem_map_of_mem (f := Prod.fst) hmem))
  refine ⟨?_, ?_⟩
  · rintro rfl
    rw [← hbytes]
    apply hnone
    rw [hunits]
    intro hkey
    obtain ⟨n, hn, heq⟩ := List.mem_map.mp hkey
    obtain ⟨⟨key', o'⟩, hentry, hvalue⟩ := List.mem_filterMap.mp hn
    obtain ⟨w, ho', rfl⟩ := Option.map_eq_some_iff.mp hvalue
    have hword : Json.word key' = Json.word key := heq
    have hunits' := (ascii_word (hascii key' (List.mem_map_of_mem (f := Prod.fst) hentry))).2
    rw [← hunits, ← hunits'] at hword
    have hsame : key' = key := String.toList_inj.mp (utf16_injective hword)
    subst hsame
    cases List.inj_on_of_nodup_map hnodup hmem hentry rfl
    cases ho'
  · rintro w rfl
    obtain ⟨v', hv', hlookup⟩ := hsome key.toList w (by
      rw [hunits]
      exact List.mem_filterMap.mpr ⟨(key, some w), hmem, rfl⟩)
    rw [hbytes] at hlookup
    exact ⟨v', hv', hlookup⟩

end Present

namespace JsonValue

mutual

/-- The value as Dart sees it; bytes that are no UTF-8 become the empty string. -/
def toDart : JsonValue → Json.Value
  | .null => .null
  | .boolean b => .bool b
  | .integer i => .int i
  | .floating _ => .double
  | .string s => .string ((Utf8.toUtf16 s.bytes).getD [])
  | .array vs => .array (toDartItems vs)
  | .object ms => .object (toDartMembers ms)

def toDartItems : List JsonValue → List Json.Value
  | [] => []
  | v :: vs => v.toDart :: toDartItems vs

def toDartMembers : List (CxxString × JsonValue) → List (Json.Text × Json.Value)
  | [] => []
  | (k, v) :: ms => ((Utf8.toUtf16 k.bytes).getD [], v.toDart) :: toDartMembers ms

end

mutual

/-- The value as C++ sees it; a double, whose value is left out, becomes zero. -/
def ofDart : Json.Value → JsonValue
  | .null => .null
  | .bool b => .boolean b
  | .int i => .integer i
  | .double => .floating 0
  | .string t => .string (utf8String (Utf8.fromUtf16 t))
  | .array ws => .array (ofDartItems ws)
  | .object ns => .object (ofDartMembers ns)

def ofDartItems : List Json.Value → List JsonValue
  | [] => []
  | w :: ws => ofDart w :: ofDartItems ws

def ofDartMembers : List (Json.Text × Json.Value) → List (CxxString × JsonValue)
  | [] => []
  | (k, w) :: ns => (utf8String (Utf8.fromUtf16 k), ofDart w) :: ofDartMembers ns

end

mutual

/-- The strings of a value, the keys among them. -/
def strings : JsonValue → List CxxString
  | .null | .boolean _ | .integer _ | .floating _ => []
  | .string s => [s]
  | .array vs => itemStrings vs
  | .object ms => memberStrings ms

def itemStrings : List JsonValue → List CxxString
  | [] => []
  | v :: vs => v.strings ++ itemStrings vs

def memberStrings : List (CxxString × JsonValue) → List CxxString
  | [] => []
  | (k, v) :: ms => k :: (v.strings ++ memberStrings ms)

end

/-- A `dump` that keeps the order of the members. -/
def compactDump (v : JsonValue) : Option (List UInt8) :=
  some (Utf8.encode (Utf8.fromUtf16 (Json.encode v.toDart)))

/-- A `parse` that keeps the order of the members. -/
def plainParse (bs : List UInt8) : Option JsonValue :=
  ((Utf8.toUtf16 bs).bind Json.decode).map ofDart

/-- The same with the check of every string. -/
def strictDump (v : JsonValue) : Option (List UInt8) :=
  if ∀ s ∈ v.strings, Dumpable s then v.compactDump else none

theorem mem_itemStrings {s : CxxString} {vs : List JsonValue} :
    s ∈ itemStrings vs ↔ ∃ v ∈ vs, s ∈ v.strings := by
  induction vs with
  | nil => simp [itemStrings]
  | cons v vs ih => simp [itemStrings, ih]

theorem mem_memberStrings {s : CxxString} {ms : List (CxxString × JsonValue)} :
    s ∈ memberStrings ms ↔ ∃ m ∈ ms, s = m.1 ∨ s ∈ m.2.strings := by
  induction ms with
  | nil => simp [memberStrings]
  | cons m ms ih =>
    obtain ⟨k, v⟩ := m
    simp [memberStrings, ih, or_assoc]

theorem toDartItems_eq (vs : List JsonValue) : toDartItems vs = vs.map toDart := by
  induction vs with
  | nil => rfl
  | cons v vs ih => rw [toDartItems, ih, List.map_cons]

theorem toDartMembers_eq (ms : List (CxxString × JsonValue)) :
    toDartMembers ms = ms.map fun m => ((Utf8.toUtf16 m.1.bytes).getD [], m.2.toDart) := by
  induction ms with
  | nil => rfl
  | cons m ms ih => rw [toDartMembers, ih, List.map_cons]

theorem ofDartItems_eq (ws : List Json.Value) : ofDartItems ws = ws.map ofDart := by
  induction ws with
  | nil => rfl
  | cons w ws ih => rw [ofDartItems, ih, List.map_cons]

theorem ofDartMembers_eq (ns : List (Json.Text × Json.Value)) :
    ofDartMembers ns = ns.map fun n => (utf8String (Utf8.fromUtf16 n.1), ofDart n.2) := by
  induction ns with
  | nil => rfl
  | cons n ns ih => rw [ofDartMembers, ih, List.map_cons]

theorem toUtf16_utf8String (cs : List Char) :
    (Utf8.toUtf16 (utf8String cs).bytes).getD [] = Utf8.utf16 cs := by
  rw [bytes_utf8String, Utf8.toUtf16_encode, Option.getD_some]

theorem Stands.toDart {v : JsonValue} {w : Json.Value} (h : v.Stands w) :
    v.Stands v.toDart := by
  induction h with
  | null => exact .null
  | boolean b => exact .boolean b
  | integer hlow hhigh => exact .integer hlow hhigh
  | floating x => exact .floating x
  | string cs =>
    rw [JsonValue.toDart, toUtf16_utf8String]
    exact .string cs
  | array ps _ ih =>
    have hstands := Stands.array (ps.map fun p => (p.1, p.1.toDart)) fun q hq => by
      obtain ⟨p, hp, rfl⟩ := List.mem_map.mp hq
      exact ih p hp
    rw [List.map_map, List.map_map] at hstands
    rw [JsonValue.toDart, toDartItems_eq, List.map_map]
    exact hstands
  | object ps _ hnodup _ ih =>
    have hstands := Stands.object (ps.map fun p => (p.1, p.2.1, p.2.1.toDart))
      (fun q hq => by
        obtain ⟨p, hp, rfl⟩ := List.mem_map.mp hq
        exact ih p hp) (by rw [List.map_map]; exact hnodup) (List.Perm.refl _)
    rw [List.map_map, List.map_map] at hstands
    have hkeys : (ps.map fun p => (utf8String p.1, p.2.1)).map
        (fun m => ((Utf8.toUtf16 m.1.bytes).getD [], m.2.toDart)) =
        ps.map ((fun p => (Utf8.utf16 p.1, p.2.2)) ∘ fun p => (p.1, p.2.1, p.2.1.toDart)) := by
      rw [List.map_map]
      apply List.map_congr_left
      intro p _
      exact congrArg (fun k => (k, p.2.1.toDart)) (toUtf16_utf8String p.1)
    rw [JsonValue.toDart, toDartMembers_eq, hkeys]
    exact hstands

theorem Stands.ofDart {v : JsonValue} {w : Json.Value} (h : v.Stands w) :
    (JsonValue.ofDart w).Stands w := by
  induction h with
  | null => exact .null
  | boolean b => exact .boolean b
  | integer hlow hhigh => exact .integer hlow hhigh
  | floating x => exact .floating 0
  | string cs =>
    rw [JsonValue.ofDart, Utf8.fromUtf16_utf16]
    exact .string cs
  | array ps _ ih =>
    have hstands := Stands.array (ps.map fun p => (JsonValue.ofDart p.2, p.2)) fun q hq => by
      obtain ⟨p, hp, rfl⟩ := List.mem_map.mp hq
      exact ih p hp
    rw [List.map_map, List.map_map] at hstands
    rw [JsonValue.ofDart, ofDartItems_eq, List.map_map]
    exact hstands
  | @object ps _ hnodup ns hperm ih =>
    have hmem : ∀ n ∈ ns, Utf8.utf16 (Utf8.fromUtf16 n.1) = n.1 ∧
        (JsonValue.ofDart n.2).Stands n.2 := by
      intro n hn
      obtain ⟨p, hp, rfl⟩ := List.mem_map.mp (hperm.mem_iff.mp hn)
      exact ⟨congrArg Utf8.utf16 (Utf8.fromUtf16_utf16 p.1), ih p hp⟩
    have hkeys : (ns.map fun n => Utf8.fromUtf16 n.1).Nodup := by
      apply (hperm.map fun n => Utf8.fromUtf16 n.1).nodup_iff.mpr
      rw [List.map_map]
      have hsame : ps.map ((fun n : Json.Text × Json.Value => Utf8.fromUtf16 n.1) ∘ fun p =>
          (Utf8.utf16 p.1, p.2.2)) = ps.map Prod.fst :=
        List.map_congr_left fun p _ => Utf8.fromUtf16_utf16 p.1
      rw [hsame]
      exact hnodup
    have hself : (ns.map fun n => (Utf8.utf16 (Utf8.fromUtf16 n.1), n.2)) = ns.map id :=
      List.map_congr_left fun n hn => Prod.ext (hmem n hn).1 rfl
    rw [List.map_id] at hself
    have hsame : ns.Perm ((ns.map fun n => (Utf8.fromUtf16 n.1, JsonValue.ofDart n.2, n.2)).map
        fun p => (Utf8.utf16 p.1, p.2.2)) := by
      rw [List.map_map]
      exact List.Perm.of_eq hself.symm
    have hstands := Stands.object
      (ns.map fun n => (Utf8.fromUtf16 n.1, JsonValue.ofDart n.2, n.2))
      (fun q hq => by
        obtain ⟨n, hn, rfl⟩ := List.mem_map.mp hq
        exact (hmem n hn).2) (by rw [List.map_map]; exact hkeys) hsame
    rw [List.map_map] at hstands
    rw [JsonValue.ofDart, ofDartMembers_eq]
    exact hstands

theorem Stands.fits {v : JsonValue} {w : Json.Value} (h : v.Stands w) : Json.Fits w := by
  induction h with
  | null => exact .null
  | boolean b => exact .bool b
  | integer hlow hhigh => exact .int hlow hhigh
  | floating x => exact .double
  | string cs => exact .string _
  | array ps _ ih =>
    refine .array fun w hw => ?_
    obtain ⟨p, hp, rfl⟩ := List.mem_map.mp hw
    exact ih p hp
  | object ps _ _ hperm ih =>
    refine .object fun n hn => ?_
    obtain ⟨p, hp, rfl⟩ := List.mem_map.mp (hperm.mem_iff.mp hn)
    exact ih p hp

end JsonValue

/-- The units of a text of Unicode, which has no surrogate without its partner. -/
def Paired (t : Json.Text) : Prop := ∃ cs, Utf8.utf16 cs = t

theorem Paired.append {s t : Json.Text} (hs : Paired s) (ht : Paired t) : Paired (s ++ t) := by
  obtain ⟨cs, rfl⟩ := hs
  obtain ⟨ds, rfl⟩ := ht
  exact ⟨cs ++ ds, List.flatMap_append⟩

theorem Paired.cons {u : UInt16} (hu : ¬(0xD800 ≤ u.toNat ∧ u.toNat < 0xE000)) {t : Json.Text}
    (ht : Paired t) : Paired (u :: t) := by
  obtain ⟨cs, rfl⟩ := ht
  have hlt := u.toNat_lt
  have hvalid : u.toNat.isValidChar := by
    unfold Nat.isValidChar
    omega
  have hchar : (Char.ofNat u.toNat).toNat = u.toNat := by
    rw [Char.toNat_ofNat, if_pos hvalid]
  have hunit : Utf8.utf16Char (Char.ofNat u.toNat) = [u] := by
    unfold Utf8.utf16Char
    rw [hchar, if_pos (by omega), UInt16.ofNat_toNat]
  refine ⟨Char.ofNat u.toNat :: cs, ?_⟩
  have hsplit : Utf8.utf16 (Char.ofNat u.toNat :: cs) =
      Utf8.utf16Char (Char.ofNat u.toNat) ++ Utf8.utf16 cs := rfl
  rw [hsplit, hunit]
  rfl

theorem paired_of_forall {t : Json.Text}
    (h : ∀ u ∈ t, ¬(0xD800 ≤ u.toNat ∧ u.toNat < 0xE000)) : Paired t := by
  induction t with
  | nil => exact ⟨[], rfl⟩
  | cons u t ih =>
    exact (ih fun v hv => h v (List.mem_cons_of_mem u hv)).cons (h u List.mem_cons_self)

theorem paired_word {t : Json.Text} (h : (t.all fun u => u.toNat < 128) = true) : Paired t :=
  paired_of_forall fun u hu => by
    have hlt := of_decide_eq_true (List.all_eq_true.mp h u hu)
    omega

theorem lt_hexUnit {n : Nat} (h : n < 16) : (Json.hexUnit n).toNat < 128 := by
  unfold Json.hexUnit
  rw [UInt16.toNat_ofNat']
  split <;> omega

theorem mem_escapeUnit {u v : UInt16} (h : v ∈ Json.escapeUnit u) : v = u ∨ v.toNat < 128 := by
  have hlt := u.toNat_lt
  have hpair : ∀ a b : UInt16, a.toNat < 128 → b = u ∨ b.toNat < 128 → v ∈ [a, b] →
      v = u ∨ v.toNat < 128 := by
    intro a b ha hb hmem
    rcases List.mem_cons.mp hmem with rfl | hmem
    · exact Or.inr ha
    · rw [List.mem_singleton.mp hmem]
      exact hb
  unfold Json.escapeUnit at h
  split at h
  · exact hpair 92 u (by decide) (Or.inl rfl) h
  split at h
  · exact hpair 92 98 (by decide) (Or.inr (by decide)) h
  split at h
  · exact hpair 92 116 (by decide) (Or.inr (by decide)) h
  split at h
  · exact hpair 92 110 (by decide) (Or.inr (by decide)) h
  split at h
  · exact hpair 92 102 (by decide) (Or.inr (by decide)) h
  split at h
  · exact hpair 92 114 (by decide) (Or.inr (by decide)) h
  split at h
  · right
    simp only [Json.unicodeText, List.mem_cons, List.not_mem_nil, or_false] at h
    rcases h with rfl | rfl | rfl | rfl | rfl | rfl
    · decide
    · decide
    · exact lt_hexUnit (by omega)
    · exact lt_hexUnit (by omega)
    · exact lt_hexUnit (by omega)
    · exact lt_hexUnit (by omega)
  · exact Or.inl (List.mem_singleton.mp h)

theorem escape_cons {u : UInt16} (hu : ¬(0xD800 ≤ u.toNat ∧ u.toNat < 0xE000)) (t : Json.Text) :
    Json.escape (u :: t) = Json.escapeUnit u ++ Json.escape t := by
  have hsurrogate : Json.isLead u = false ∧ Json.isTrail u = false := by
    simp only [Json.isLead, Json.isTrail, Bool.and_eq_false_iff, decide_eq_false_iff_not,
      UInt16.le_iff_toNat_le, UInt16.lt_iff_toNat_lt, UInt16.reduceToNat]
    omega
  cases t with
  | nil => simp [Json.escape, hsurrogate]
  | cons v t => simp [Json.escape, hsurrogate]

theorem paired_escape (cs : List Char) : Paired (Json.escape (Utf8.utf16 cs)) := by
  induction cs with
  | nil => exact ⟨[], rfl⟩
  | cons c cs ih =>
    have hsplit : Utf8.utf16 (c :: cs) = Utf8.utf16Char c ++ Utf8.utf16 cs := rfl
    have hsurrogate := Utf8.toNat_not_surrogate c
    have hmax : c.toNat < 0x110000 := by
      have hvalid := c.valid
      simp only [UInt32.isValidChar, Nat.isValidChar] at hvalid
      have heq : c.val.toNat = c.toNat := rfl
      omega
    by_cases hplane : c.toNat < 0x10000
    · have hunit : Utf8.utf16Char c = [UInt16.ofNat c.toNat] := if_pos hplane
      have hnat : (UInt16.ofNat c.toNat).toNat = c.toNat := by
        rw [UInt16.toNat_ofNat']
        omega
      have hother : ¬(0xD800 ≤ (UInt16.ofNat c.toNat).toNat ∧
          (UInt16.ofNat c.toNat).toNat < 0xE000) := by
        rw [hnat]
        exact hsurrogate
      rw [hsplit, hunit, List.singleton_append, escape_cons hother]
      refine (paired_of_forall fun v hv => ?_).append ih
      rcases mem_escapeUnit hv with rfl | hlt
      · exact hother
      · omega
    · -- the two surrogates stay together
      obtain ⟨u, v, hpair, hlead, htrail⟩ : ∃ u v, Utf8.utf16Char c = [u, v] ∧
          Json.isLead u = true ∧ Json.isTrail v = true := by
        refine ⟨_, _, if_neg hplane, ?_, ?_⟩
        · simp only [Json.isLead, Bool.and_eq_true, decide_eq_true_eq, UInt16.le_iff_toNat_le,
            UInt16.lt_iff_toNat_lt, UInt16.reduceToNat, UInt16.toNat_ofNat']
          omega
        · simp only [Json.isTrail, Bool.and_eq_true, decide_eq_true_eq, UInt16.le_iff_toNat_le,
            UInt16.lt_iff_toNat_lt, UInt16.reduceToNat, UInt16.toNat_ofNat']
          omega
      have hone : Paired [u, v] := ⟨[c], (List.append_nil _).trans hpair⟩
      have hescape : Json.escape (u :: v :: Utf8.utf16 cs) =
          [u, v] ++ Json.escape (Utf8.utf16 cs) := by
        rw [Json.escape, if_pos hlead, if_pos htrail]
        rfl
      rw [hsplit, hpair, List.cons_append, List.singleton_append, hescape]
      exact hone.append ih

theorem paired_integerText (i : Int) : Paired (Json.integerText i) := by
  apply paired_of_forall
  intro u hu
  rcases List.mem_append.mp hu with hsign | hdigits
  · unfold Json.sign at hsign
    split at hsign
    · rw [List.mem_singleton.mp hsign]
      decide
    · exact absurd hsign List.not_mem_nil
  · obtain ⟨c, hc, rfl⟩ := List.mem_map.mp hdigits
    have hdigit : c.isDigit = true :=
      Nat.isDigit_of_mem_toDigits (b := 10) (by omega) (Nat.le_refl _) hc
    obtain ⟨hnat, -, hle⟩ := Json.toNat_of_isDigit hdigit
    omega

theorem paired_encodeItems {ws : List Json.Value} (h : ∀ w ∈ ws, Paired (Json.encode w)) :
    Paired (Json.encodeItems ws) := by
  have hclose : Paired [93] := paired_word rfl
  induction ws with
  | nil => exact hclose
  | cons w ws ih =>
    have hw := h w List.mem_cons_self
    cases ws with
    | nil => exact hw.append hclose
    | cons w' ws =>
      exact hw.append ((ih fun x hx => h x (List.mem_cons_of_mem w hx)).cons (by decide))

theorem paired_encodeMembers {ns : List (Json.Text × Json.Value)}
    (h : ∀ n ∈ ns, Paired (Json.escape n.1) ∧ Paired (Json.encode n.2)) :
    Paired (Json.encodeMembers ns) := by
  have hclose : Paired [125] := paired_word rfl
  induction ns with
  | nil => exact hclose
  | cons n ns ih =>
    obtain ⟨hkey, hvalue⟩ := h n List.mem_cons_self
    have hmember : ∀ {t : Json.Text}, Paired t →
        Paired (34 :: (Json.escape n.1 ++ 34 :: 58 :: (Json.encode n.2 ++ t))) := by
      intro t ht
      have hrest := ((hvalue.append ht).cons (u := 58) (by decide)).cons (u := 34) (by decide)
      exact (hkey.append hrest).cons (by decide)
    cases ns with
    | nil => exact hmember hclose
    | cons n' ns =>
      exact hmember ((ih fun x hx => h x (List.mem_cons_of_mem n hx)).cons (by decide))

theorem JsonValue.Stands.paired {v : JsonValue} {w : Json.Value} (h : v.Stands w) :
    Paired (Json.encode w) := by
  induction h with
  | null => exact paired_word rfl
  | boolean b => cases b <;> exact paired_word rfl
  | integer _ _ => exact paired_integerText _
  | floating _ => exact paired_word rfl
  | string cs =>
    have hquote : Paired [34] := paired_word rfl
    exact ((paired_escape cs).append hquote).cons (by decide)
  | array ps _ ih =>
    refine (paired_encodeItems fun w hw => ?_).cons (by decide)
    obtain ⟨p, hp, rfl⟩ := List.mem_map.mp hw
    exact ih p hp
  | object ps _ _ hperm ih =>
    refine (paired_encodeMembers fun n hn => ?_).cons (by decide)
    obtain ⟨p, hp, rfl⟩ := List.mem_map.mp (hperm.mem_iff.mp hn)
    exact ⟨paired_escape p.1, ih p hp⟩

/-- A pair of functions that follow RFC 8259. -/
theorem followsJson_compactDump : FollowsJson JsonValue.compactDump JsonValue.plainParse where
  dump_text := by
    intro v w h
    obtain ⟨cs, hcs⟩ := h.toDart.paired
    have hwrites := Json.writes_encode h.toDart.fits
    refine ⟨cs, v.toDart, h.toDart, ?_, ?_⟩
    · unfold JsonValue.compactDump
      rw [← hcs, Utf8.fromUtf16_utf16]
    · rw [hcs]
      exact hwrites
  parse_text := by
    intro v w h cs ht
    refine ⟨JsonValue.ofDart w, h.ofDart, ?_⟩
    unfold JsonValue.plainParse
    rw [Utf8.toUtf16_encode, Option.bind_some, Json.decode_of_writes ht, Option.map_some]

/-- `json::dump` throws where a string is no UTF-8. -/
def RejectsBytes (dump : JsonValue → Option (List UInt8)) : Prop :=
  ∀ (v : JsonValue) (s : CxxString), s ∈ v.strings → ¬Dumpable s → dump v = none

theorem dumpable_utf8String (cs : List Char) : Dumpable (utf8String cs) := by
  unfold Dumpable
  rw [bytes_utf8String, Utf8.decode_encode]
  rfl

theorem JsonValue.Stands.dumpable {v : JsonValue} {w : Json.Value} (h : v.Stands w) :
    ∀ s ∈ v.strings, Dumpable s := by
  induction h with
  | null | boolean _ | integer _ _ | floating _ =>
    intro s hs
    cases hs
  | string cs =>
    intro s hs
    rw [List.mem_singleton.mp hs]
    exact dumpable_utf8String cs
  | array ps _ ih =>
    intro s hs
    obtain ⟨v, hv, hmem⟩ := JsonValue.mem_itemStrings.mp hs
    obtain ⟨p, hp, rfl⟩ := List.mem_map.mp hv
    exact ih p hp s hmem
  | object ps _ _ _ ih =>
    intro s hs
    obtain ⟨m, hm, hmem⟩ := JsonValue.mem_memberStrings.mp hs
    obtain ⟨p, hp, rfl⟩ := List.mem_map.mp hm
    rcases hmem with rfl | hmem
    · exact dumpable_utf8String p.1
    · exact ih p hp s hmem

theorem followsJson_strictDump : FollowsJson JsonValue.strictDump JsonValue.plainParse where
  dump_text := by
    intro v w h
    obtain ⟨cs, w', hw', hdump, hwrites⟩ := followsJson_compactDump.dump_text h
    refine ⟨cs, w', hw', ?_, hwrites⟩
    unfold JsonValue.strictDump
    rw [if_pos h.dumpable]
    exact hdump
  parse_text := followsJson_compactDump.parse_text

theorem rejectsBytes_strictDump : RejectsBytes JsonValue.strictDump := by
  intro v s hs hbad
  unfold JsonValue.strictDump
  rw [if_neg]
  intro hall
  exact hbad (hall s hs)

end SeekServe
