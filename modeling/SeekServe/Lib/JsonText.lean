import SeekServe.Lib.Json

/-!
# The texts of JSON values

The grammar of RFC 8259 as a relation between values and texts, every text of which the parser
decodes to its value, and an encoder that writes such texts.
-/

namespace Json

set_option autoImplicit false

def Spaces (t : Text) : Prop := ∀ u ∈ t, isSpace u = true

/-- What stands between the quotes of a literal for the string. -/
inductive Escaped : Text → Text → Prop
  | nil : Escaped [] []
  | plain {u : UInt16} {s t : Text} (hu : 32 ≤ u ∧ u ≠ 34 ∧ u ≠ 92) (h : Escaped s t) :
    Escaped (u :: s) (u :: t)
  | short {e u : UInt16} {s t : Text} (hu : shortEscape e = some u) (h : Escaped s t) :
    Escaped (u :: s) (92 :: e :: t)
  | unicode {a b c d u : UInt16} {s t : Text} (hu : unicodeEscape a b c d = some u)
    (h : Escaped s t) : Escaped (u :: s) (92 :: 117 :: a :: b :: c :: d :: t)

def Digits (ds : Text) : Prop := ds ≠ [] ∧ ∀ u ∈ ds, isDigit u = true

/-- The digits of a number, of which `0` stands alone. -/
def Whole (ds : Text) : Prop := Digits ds ∧ (ds.head? = some 48 → ds.length = 1)

inductive Fraction : Bool → Text → Prop
  | none : Fraction false []
  | some {ds : Text} (h : Digits ds) : Fraction true (46 :: ds)

inductive Exponent : Bool → Text → Prop
  | none : Exponent false []
  | some {e : UInt16} {sign ds : Text} (he : e = 101 ∨ e = 69)
    (hsign : sign = [] ∨ sign = [43] ∨ sign = [45]) (h : Digits ds) :
    Exponent true (e :: (sign ++ ds))

def sign (negative : Bool) : Text := if negative then [45] else []

def integerText (i : Int) : Text := sign (decide (i < 0)) ++ units (Nat.toDigits 10 i.natAbs)

/-- The texts of values that are no string, object or array. -/
inductive Scalar : Value → Text → Prop
  | null : Scalar .null (word "null")
  | true : Scalar (.bool true) (word "true")
  | false : Scalar (.bool false) (word "false")
  | int {i : Int} (hlow : -(2 ^ 63) ≤ i) (hhigh : i < 2 ^ 63) : Scalar (.int i) (integerText i)
  | double {negative fraction exponent : Bool} {ds f e : Text} (hds : Whole ds)
    (hf : Fraction fraction f) (he : Exponent exponent e)
    (hdouble : fraction = Bool.true ∨ exponent = Bool.true) :
    Scalar .double (sign negative ++ (ds ++ (f ++ e)))

/-- A value, or what follows the opening bracket of an object or an array. -/
inductive Phrase where
  | value (v : Value)
  | members (ms : List (Text × Value))
  | items (vs : List Value)

/-- The text is one of those of the phrase, with space in front of each part. -/
inductive Writes : Phrase → Text → Prop
  | scalar {ws t : Text} {v : Value} (hws : Spaces ws) (h : Scalar v t) :
    Writes (.value v) (ws ++ t)
  | string {ws s t : Text} (hws : Spaces ws) (h : Escaped s t) :
    Writes (.value (.string s)) (ws ++ 34 :: (t ++ [34]))
  | emptyObject {ws ws' : Text} (hws : Spaces ws) (hws' : Spaces ws') :
    Writes (.value (.object [])) (ws ++ 123 :: (ws' ++ [125]))
  | object {ws t : Text} {ms : List (Text × Value)} (hws : Spaces ws)
    (h : Writes (.members ms) t) : Writes (.value (.object ms)) (ws ++ 123 :: t)
  | emptyArray {ws ws' : Text} (hws : Spaces ws) (hws' : Spaces ws') :
    Writes (.value (.array [])) (ws ++ 91 :: (ws' ++ [93]))
  | array {ws t : Text} {vs : List Value} (hws : Spaces ws) (h : Writes (.items vs) t) :
    Writes (.value (.array vs)) (ws ++ 91 :: t)
  | lastMember {ws k kt ws' t ws'' : Text} {v : Value} (hws : Spaces ws) (hk : Escaped k kt)
    (hws' : Spaces ws') (h : Writes (.value v) t) (hws'' : Spaces ws'') :
    Writes (.members [(k, v)]) (ws ++ 34 :: (kt ++ 34 :: (ws' ++ 58 :: (t ++ (ws'' ++ [125])))))
  | member {ws k kt ws' t ws'' rest : Text} {v : Value} {ms : List (Text × Value)}
    (hws : Spaces ws) (hk : Escaped k kt) (hws' : Spaces ws') (h : Writes (.value v) t)
    (hws'' : Spaces ws'') (hms : Writes (.members ms) rest) :
    Writes (.members ((k, v) :: ms))
      (ws ++ 34 :: (kt ++ 34 :: (ws' ++ 58 :: (t ++ (ws'' ++ 44 :: rest)))))
  | lastItem {t ws : Text} {v : Value} (h : Writes (.value v) t) (hws : Spaces ws) :
    Writes (.items [v]) (t ++ (ws ++ [93]))
  | item {t ws rest : Text} {v : Value} {vs : List Value} (h : Writes (.value v) t)
    (hws : Spaces ws) (hvs : Writes (.items vs) rest) :
    Writes (.items (v :: vs)) (t ++ (ws ++ 44 :: rest))

/-- Every integer in the value has 64 bits. -/
inductive Fits : Value → Prop
  | null : Fits .null
  | bool (b : Bool) : Fits (.bool b)
  | int {i : Int} (hlow : -(2 ^ 63) ≤ i) (hhigh : i < 2 ^ 63) : Fits (.int i)
  | double : Fits .double
  | string (s : Text) : Fits (.string s)
  | array {vs : List Value} (h : ∀ v ∈ vs, Fits v) : Fits (.array vs)
  | object {ms : List (Text × Value)} (h : ∀ m ∈ ms, Fits m.2) : Fits (.object ms)

def hexUnit (n : Nat) : UInt16 := UInt16.ofNat (if n < 10 then 48 + n else 87 + n)

def unicodeText (u : UInt16) : Text :=
  [92, 117, hexUnit (u.toNat / 4096), hexUnit (u.toNat / 256 % 16), hexUnit (u.toNat / 16 % 16),
    hexUnit (u.toNat % 16)]

def escapeUnit (u : UInt16) : Text :=
  if u = 34 ∨ u = 92 then [92, u]
  else if u = 8 then [92, 98]
  else if u = 9 then [92, 116]
  else if u = 10 then [92, 110]
  else if u = 12 then [92, 102]
  else if u = 13 then [92, 114]
  else if u < 32 then unicodeText u
  else [u]

def isLead (u : UInt16) : Bool := 0xD800 ≤ u && u < 0xDC00

def isTrail (u : UInt16) : Bool := 0xDC00 ≤ u && u < 0xE000

/-- What an encoder puts between quotes; a surrogate without its partner is spelled out. -/
def escape : Text → Text
  | [] => []
  | [u] => if isLead u || isTrail u then unicodeText u else escapeUnit u
  | u :: v :: s =>
    if isLead u then
      if isTrail v then u :: v :: escape s else unicodeText u ++ escape (v :: s)
    else if isTrail u then unicodeText u ++ escape (v :: s)
    else escapeUnit u ++ escape (v :: s)

mutual

/-- The text of the value without space; a double, whose value is left out, is written `0.0`. -/
def encode : Value → Text
  | .null => word "null"
  | .bool true => word "true"
  | .bool false => word "false"
  | .int i => integerText i
  | .double => word "0.0"
  | .string s => 34 :: (escape s ++ [34])
  | .array vs => 91 :: encodeItems vs
  | .object ms => 123 :: encodeMembers ms

def encodeItems : List Value → Text
  | [] => [93]
  | [v] => encode v ++ [93]
  | v :: w :: vs => encode v ++ 44 :: encodeItems (w :: vs)

def encodeMembers : List (Text × Value) → Text
  | [] => [125]
  | [(k, v)] => 34 :: (escape k ++ 34 :: 58 :: (encode v ++ [125]))
  | (k, v) :: m :: ms => 34 :: (escape k ++ 34 :: 58 :: (encode v ++ 44 :: encodeMembers (m :: ms)))

end

/-- A number before the text ends there. -/
def Stops (r : Text) : Prop :=
  ∀ u, r.head? = some u → isDigit u = false ∧ u ≠ 46 ∧ u ≠ 101 ∧ u ≠ 69

theorem stops_nil : Stops [] := fun _ h => by cases h

theorem stops_cons {u : UInt16} (h : (isDigit u || u == 46 || u == 101 || u == 69) = false)
    (r : Text) : Stops (u :: r) := by
  intro v hv
  cases Option.some.inj hv
  simp only [Bool.or_eq_false_iff, beq_eq_false_iff_ne] at h
  exact ⟨h.1.1.1, h.1.1.2, h.1.2, h.2⟩

theorem stops_spaces {ws r : Text} (hws : Spaces ws) (hr : Stops r) : Stops (ws ++ r) := by
  cases ws with
  | nil => exact hr
  | cons u ws =>
    have hu := hws u List.mem_cons_self
    simp only [isSpace, Bool.or_eq_true, beq_iff_eq] at hu
    rcases hu with ((rfl | rfl) | rfl) | rfl <;> exact stops_cons (by decide) _

theorem skipSpace_spaces {ws : Text} (hws : Spaces ws) (t : Text) :
    skipSpace (ws ++ t) = skipSpace t :=
  List.dropWhile_append_of_pos hws

theorem expect_spaces {ws : Text} (hws : Spaces ws) (u : UInt16) (t : Text) :
    expect u (ws ++ t) = expect u t := by
  unfold expect
  rw [skipSpace_spaces hws]

theorem expect_self {ws : Text} (hws : Spaces ws) {u : UInt16} (hu : isSpace u = false)
    (t : Text) : expect u (ws ++ u :: t) = some t := by
  rw [expect_spaces hws, expect_cons hu, if_pos rfl]

theorem expect_other {ws : Text} (hws : Spaces ws) {u v : UInt16} (hv : isSpace v = false)
    (hne : v ≠ u) (t : Text) : expect u (ws ++ v :: t) = none := by
  rw [expect_spaces hws, expect_cons hv, if_neg hne]

theorem readString_escaped {s t : Text} (h : Escaped s t) (r : Text) :
    readString (t ++ 34 :: r) = some (s, r) := by
  induction h with
  | nil =>
    rw [List.nil_append, readString.eq_def]
    rfl
  | plain hu _ ih =>
    obtain ⟨hcontrol, hquote, hslash⟩ := hu
    rw [List.cons_append, readString.eq_def]
    simp only [if_neg hquote, if_neg hslash, if_neg (UInt16.not_lt.mpr hcontrol), ih]
    rfl
  | @short e u s t hu _ ih =>
    have hne : e ≠ 117 := by
      rintro rfl
      cases hu
    rw [List.cons_append, List.cons_append, readString.eq_def]
    simp only [if_neg (show ¬(92 : UInt16) = 34 by decide), if_true, if_neg hne, hu, ih]
    rfl
  | unicode hu _ ih =>
    simp only [List.cons_append]
    rw [readString.eq_def]
    simp only [if_neg (show ¬(92 : UInt16) = 34 by decide), if_true, hu, ih]
    rfl

theorem takeWhile_digits {ds r : Text} (hds : Digits ds)
    (hr : ∀ u, r.head? = some u → isDigit u = false) :
    (ds ++ r).takeWhile isDigit = ds ∧ (ds ++ r).dropWhile isDigit = r := by
  rw [List.takeWhile_append_of_pos hds.2, List.dropWhile_append_of_pos hds.2]
  cases r with
  | nil => exact ⟨List.append_nil ds, rfl⟩
  | cons u r =>
    have hu : ¬isDigit u = true := by
      rw [hr u rfl]
      exact Bool.false_ne_true
    rw [List.takeWhile_cons_of_neg hu, List.dropWhile_cons_of_neg hu, List.append_nil]
    exact ⟨rfl, rfl⟩

theorem skipDigits_digits {ds r : Text} (hds : Digits ds)
    (hr : ∀ u, r.head? = some u → isDigit u = false) : skipDigits (ds ++ r) = some r := by
  obtain ⟨htake, hdrop⟩ := takeWhile_digits hds hr
  unfold skipDigits
  rw [htake, hdrop, if_neg hds.1]

theorem readExponent_text {b : Bool} {e r : Text} (h : Exponent b e) (hr : Stops r) :
    readExponent (e ++ r) = some (b, r) := by
  cases h with
  | none =>
    have hne : ¬(r.head? = some 101 ∨ r.head? = some 69) := by
      rintro (h | h)
      · exact (hr _ h).2.2.1 rfl
      · exact (hr _ h).2.2.2 rfl
    unfold readExponent
    rw [List.nil_append, if_neg hne]
  | @some e sign ds he hsign hds =>
    have hhead : (e :: (sign ++ ds) ++ r).head? = some 101 ∨
        (e :: (sign ++ ds) ++ r).head? = some 69 := by
      rcases he with rfl | rfl
      · exact Or.inl rfl
      · exact Or.inr rfl
    have hskip := skipDigits_digits hds fun u hu => (hr u hu).1
    have htail : (e :: (sign ++ ds) ++ r).tail = sign ++ (ds ++ r) := List.append_assoc ..
    have hdigit : ¬((ds ++ r).head? = some 43 ∨ (ds ++ r).head? = some 45) := by
      obtain ⟨u, us, rfl⟩ := List.exists_cons_of_ne_nil hds.1
      have hu := hds.2 u List.mem_cons_self
      rintro (h | h) <;> cases Option.some.inj h <;> cases hu
    unfold readExponent
    rw [if_pos hhead, htail]
    rcases hsign with rfl | rfl | rfl
    · simp only [List.nil_append, if_neg hdigit, hskip, Option.map_some]
    · simp only [List.cons_append, List.nil_append, List.head?_cons, true_or, if_true,
        List.tail_cons, hskip, Option.map_some]
    · simp only [List.cons_append, List.nil_append, List.head?_cons, or_true, if_true,
        List.tail_cons, hskip, Option.map_some]

/-- After its digits a number goes on with a dot or an exponent, if it goes on. -/
theorem head_exponent {b : Bool} {e r : Text} (h : Exponent b e) (hr : Stops r) {u : UInt16}
    (hu : (e ++ r).head? = some u) : isDigit u = false ∧ u ≠ 46 := by
  cases h with
  | none => exact ⟨(hr u hu).1, (hr u hu).2.1⟩
  | some he _ _ =>
    cases Option.some.inj hu
    rcases he with rfl | rfl <;> decide

theorem readFraction_text {a b : Bool} {f e r : Text} (hf : Fraction a f) (he : Exponent b e)
    (hr : Stops r) : readFraction (f ++ (e ++ r)) = some (a, e ++ r) := by
  cases hf with
  | none =>
    have hne : ¬(e ++ r).head? = some 46 := fun h => (head_exponent he hr h).2 rfl
    unfold readFraction
    rw [List.nil_append, if_neg hne]
  | some hds =>
    have hskip := skipDigits_digits hds fun u hu => (head_exponent he hr hu).1
    unfold readFraction
    simp only [List.cons_append, List.head?_cons, if_true, List.tail_cons, hskip,
      Option.map_some]

theorem readNumber_text (negative : Bool) {a b : Bool} {ds f e r : Text} (hds : Whole ds)
    (hf : Fraction a f) (he : Exponent b e) (hr : Stops r) :
    readNumber (sign negative ++ (ds ++ (f ++ (e ++ r)))) =
      if a = false ∧ b = false ∧ ¬(negative = true ∧ integer negative ds = 0) ∧
          -(2 ^ 63) ≤ integer negative ds ∧ integer negative ds < 2 ^ 63 then
        some (.int (integer negative ds), r)
      else some (.double, r) := by
  have hrest : ∀ u, (f ++ (e ++ r)).head? = some u → isDigit u = false := by
    intro u hu
    cases hf with
    | none => exact (head_exponent he hr hu).1
    | some _ =>
      cases Option.some.inj hu
      decide
  obtain ⟨htake, hdrop⟩ := takeWhile_digits hds.1 hrest
  have hlead : ¬(ds = [] ∨ ds.head? = some 48 ∧ ds.length ≠ 1) := by
    rintro (hnil | ⟨hzero, hlen⟩)
    · exact hds.1.1 hnil
    · exact hlen (hds.2 hzero)
  obtain ⟨u, us, hcons⟩ := List.exists_cons_of_ne_nil hds.1.1
  have hminus : u ≠ 45 := by
    rintro rfl
    have hdigit := hds.1.2 45 (by rw [hcons]; exact List.mem_cons_self)
    cases hdigit
  have hsign : ((sign negative ++ (ds ++ (f ++ (e ++ r)))).head? == some 45) = negative := by
    rw [hcons]
    cases negative <;> simp [sign, hminus]
  have htail : (if negative = true then (sign negative ++ (ds ++ (f ++ (e ++ r)))).tail
      else sign negative ++ (ds ++ (f ++ (e ++ r)))) = ds ++ (f ++ (e ++ r)) := by
    cases negative <;> rfl
  unfold readNumber
  simp only [hsign, htail, htake, hdrop, if_neg hlead, readFraction_text hf he hr,
    readExponent_text he hr]

theorem whole_toDigits (n : Nat) : Whole (units (Nat.toDigits 10 n)) := by
  obtain ⟨u, us, hunits, hu, hfirst⟩ := units_toDigits n
  refine ⟨⟨by rw [hunits]; exact List.cons_ne_nil u us, ?_⟩, ?_⟩
  · intro v hv
    obtain ⟨c, hc, rfl⟩ := List.mem_map.mp hv
    exact isDigit_unit (Nat.isDigit_of_mem_toDigits (by omega) (Nat.le_refl _) hc)
  · rw [hunits]
    intro hzero
    rw [hfirst (Option.some.inj hzero)]
    rfl

theorem integer_toDigits (i : Int) :
    integer (decide (i < 0)) (units (Nat.toDigits 10 i.natAbs)) = i := by
  have hvalue : digitsValue (units (Nat.toDigits 10 i.natAbs)) = i.natAbs := by
    rw [digitsValue_units fun c hc => Nat.isDigit_of_mem_toDigits (by omega) (Nat.le_refl _) hc]
    exact Nat.ofDigitChars_toDigits (by omega) (Nat.le_refl _)
  unfold integer
  rw [hvalue]
  by_cases hneg : i < 0
  · rw [decide_eq_true hneg, if_pos rfl]
    omega
  · rw [decide_eq_false hneg, if_neg Bool.false_ne_true]
    omega

theorem readValue_spaces {ws : Text} (hws : Spaces ws) (fuel : Nat) (t : Text) :
    readValue (fuel + 1) (ws ++ t) = readValue (fuel + 1) t := by
  rw [readValue, readValue]
  simp only [expect_spaces hws, skipSpace_spaces hws]

/-- One of the three words, with what follows it. -/
theorem readValue_word (fuel : Nat) {w : Text} {v : Value}
    (h : (w, v) ∈ [(word "null", Value.null), (word "true", Value.bool true),
      (word "false", Value.bool false)]) (r : Text) :
    readValue (fuel + 1) (w ++ r) = some (v, r) := by
  have hprefix : ∀ w' : Text, w'.isPrefixOf (w' ++ r) = true := fun w' =>
    List.isPrefixOf_iff_prefix.mpr (List.prefix_append w' r)
  have hread : ∀ (w' : Text) (v' : Value), readWord w' v' (w' ++ r) = some (v', r) := by
    intro w' v'
    rw [readWord, hprefix w', if_pos rfl, List.drop_left]
  have hother : ∀ (c d : UInt16) (w' x : Text) (v' : Value), c ≠ d →
      readWord (c :: w') v' (d :: x) = none := by
    intro c d w' x v' hne
    rw [readWord, List.isPrefixOf_cons_cons, beq_eq_false_iff_ne.mpr hne, Bool.false_and,
      if_neg Bool.false_ne_true]
  have hnone : ∀ (c : UInt16) (w' : Text), w = c :: w' → isSpace c = false →
      c ≠ 34 → c ≠ 123 → c ≠ 91 → readValue (fuel + 1) (w ++ r) = readScalar (w ++ r) := by
    intro c w' hw hc hquote hbrace hbracket
    have hskip : skipSpace (c :: (w' ++ r)) = c :: (w' ++ r) :=
      List.dropWhile_cons_of_neg (by rw [hc]; exact Bool.false_ne_true)
    rw [hw, List.cons_append, readValue, expect_cons hc, if_neg hquote]
    simp only [expect_cons hc, if_neg hbrace, if_neg hbracket, hskip]
  simp only [List.mem_cons, Prod.mk.injEq, List.not_mem_nil, or_false] at h
  rcases h with ⟨rfl, rfl⟩ | ⟨rfl, rfl⟩ | ⟨rfl, rfl⟩
  · rw [hnone 110 (word "ull") rfl (by decide) (by decide) (by decide) (by decide)]
    unfold readScalar
    rw [hread]
    rfl
  · have hnull : readWord (word "null") .null (word "true" ++ r) = none :=
      hother 110 116 (word "ull") (word "rue" ++ r) .null (by decide)
    rw [hnone 116 (word "rue") rfl (by decide) (by decide) (by decide) (by decide)]
    unfold readScalar
    rw [hnull, hread]
    rfl
  · have hnull : readWord (word "null") .null (word "false" ++ r) = none :=
      hother 110 102 (word "ull") (word "alse" ++ r) .null (by decide)
    have htrue : readWord (word "true") (.bool true) (word "false" ++ r) = none :=
      hother 116 102 (word "rue") (word "alse" ++ r) (.bool true) (by decide)
    rw [hnone 102 (word "alse") rfl (by decide) (by decide) (by decide) (by decide)]
    unfold readScalar
    rw [hnull, htrue, hread]
    rfl

theorem numeral_cons (negative : Bool) {ds : Text} (hds : Digits ds) (t : Text) :
    ∃ u us, sign negative ++ (ds ++ t) = u :: us ∧ (u = 45 ∨ isDigit u = true) := by
  obtain ⟨u, us, rfl⟩ := List.exists_cons_of_ne_nil hds.1
  cases negative with
  | true => exact ⟨45, u :: us ++ t, rfl, Or.inl rfl⟩
  | false => exact ⟨u, us ++ t, rfl, Or.inr (hds.2 u List.mem_cons_self)⟩

theorem readValue_scalar (fuel : Nat) {v : Value} {t r : Text} (h : Scalar v t) (hr : Stops r) :
    readValue (fuel + 1) (t ++ r) = some (v, r) := by
  cases h with
  | null => exact readValue_word fuel (by simp) r
  | true => exact readValue_word fuel (by simp) r
  | false => exact readValue_word fuel (by simp) r
  | @int i hlow hhigh =>
    have hwhole := whole_toDigits i.natAbs
    have hread := readNumber_text (decide (i < 0)) hwhole .none .none hr
    have hzero : ¬(decide (i < 0) = Bool.true ∧ i = 0) := by
      rintro ⟨hneg, rfl⟩
      cases hneg
    rw [integer_toDigits, if_pos ⟨rfl, rfl, hzero, hlow, hhigh⟩, List.nil_append,
      List.nil_append] at hread
    obtain ⟨u, us, hcons, hu⟩ := numeral_cons (decide (i < 0)) hwhole.1 r
    unfold integerText
    rw [List.append_assoc, hcons, readValue_number fuel hu, ← hcons, hread]
  | @double negative a b ds f e hds hf he hdouble =>
    have hread := readNumber_text negative hds hf he hr
    rw [if_neg] at hread
    · obtain ⟨u, us, hcons, hu⟩ := numeral_cons negative hds.1 (f ++ (e ++ r))
      simp only [List.append_assoc]
      rw [hcons, readValue_number fuel hu, ← hcons, hread]
    · rintro ⟨ha, hb, -⟩
      rcases hdouble with h | h
      · rw [ha] at h
        cases h
      · rw [hb] at h
        cases h

/-- What the parser makes of a phrase before the text `r`. -/
def Phrase.ReadAs (fuel : Nat) (t r : Text) : Phrase → Prop
  | .value v => Stops r → readValue fuel (t ++ r) = some (v, r)
  | .members ms => readMembers fuel (t ++ r) = some (ms, r)
  | .items vs => readItems fuel (t ++ r) = some (vs, r)

theorem not_isSpace_of_numeral {u : UInt16} (hu : u = 45 ∨ isDigit u = true) :
    isSpace u = false ∧ u ≠ 93 := by
  rcases hu with rfl | hdigit
  · decide
  · have hne : ∀ v : UInt16, isDigit v = false → u ≠ v := by
      rintro v hv rfl
      rw [hv] at hdigit
      cases hdigit
    simp only [isSpace, Bool.or_eq_false_iff, beq_eq_false_iff_ne]
    exact ⟨⟨⟨⟨hne 32 rfl, hne 9 rfl⟩, hne 10 rfl⟩, hne 13 rfl⟩, hne 93 rfl⟩

/-- No phrase of members or items is empty, and none starts with the closing bracket. -/
theorem Writes.open_members {ms : List (Text × Value)} {t : Text} (h : Writes (.members ms) t)
    (r : Text) : expect 125 (t ++ r) = none := by
  cases h with
  | lastMember hws _ _ _ _ | member hws _ _ _ _ _ =>
    rw [List.append_assoc, List.cons_append]
    exact expect_other hws (by decide) (by decide) _

theorem Writes.open_value {v : Value} {t : Text} (h : Writes (.value v) t) (r : Text) :
    expect 93 (t ++ r) = none := by
  cases h with
  | @scalar ws t v hws h =>
    have hnumeral : ∀ (negative : Bool) {ds : Text}, Digits ds → ∀ x,
        expect 93 (sign negative ++ (ds ++ x)) = none := by
      intro negative ds hds x
      obtain ⟨u, us, hcons, hu⟩ := numeral_cons negative hds x
      obtain ⟨hspace, hne⟩ := not_isSpace_of_numeral hu
      rw [hcons, expect_cons hspace, if_neg hne]
    rw [List.append_assoc, expect_spaces hws]
    cases h with
    | null | true | false => rfl
    | @int i _ _ =>
      unfold integerText
      rw [List.append_assoc]
      exact hnumeral _ (whole_toDigits i.natAbs).1 r
    | double hds _ _ _ =>
      rw [List.append_assoc, List.append_assoc]
      exact hnumeral _ hds.1 _
  | string hws _ | emptyObject hws _ | object hws _ | emptyArray hws _ | array hws _ =>
    rw [List.append_assoc, List.cons_append]
    exact expect_other hws (by decide) (by decide) _

/-- By induction on the derivation; each part leaves less text than the fuel that is left. -/
theorem Writes.readAs {p : Phrase} {t : Text} (h : Writes p t) :
    ∀ (r : Text) {fuel : Nat}, t.length < fuel → p.ReadAs fuel t r := by
  induction h with
  | @scalar ws t v hws h =>
    intro r fuel hfuel hr
    obtain ⟨fuel, rfl⟩ := Nat.exists_eq_succ_of_ne_zero (Nat.ne_zero_of_lt hfuel)
    rw [List.append_assoc, readValue_spaces hws]
    exact readValue_scalar fuel h hr
  | @string ws s t hws h =>
    intro r fuel hfuel hr
    obtain ⟨fuel, rfl⟩ := Nat.exists_eq_succ_of_ne_zero (Nat.ne_zero_of_lt hfuel)
    rw [List.append_assoc, readValue_spaces hws, List.cons_append, readValue_string,
      List.append_assoc, List.cons_append, readString_escaped h]
    rfl
  | @emptyObject ws ws' hws hws' =>
    intro r fuel hfuel hr
    obtain ⟨fuel, rfl⟩ := Nat.exists_eq_succ_of_ne_zero (Nat.ne_zero_of_lt hfuel)
    rw [List.append_assoc, List.cons_append, List.append_assoc, List.cons_append, readValue]
    simp only [expect_other hws (show isSpace 123 = false by decide)
      (show (123 : UInt16) ≠ 34 by decide), expect_self hws (show isSpace 123 = false by decide),
      expect_self hws' (show isSpace 125 = false by decide), List.nil_append]
  | @object ws t ms hws hms ih =>
    intro r fuel hfuel hr
    obtain ⟨fuel, rfl⟩ := Nat.exists_eq_succ_of_ne_zero (Nat.ne_zero_of_lt hfuel)
    rw [List.length_append, List.length_cons] at hfuel
    have hread : readMembers fuel (t ++ r) = some (ms, r) := ih r (by omega)
    rw [List.append_assoc, List.cons_append, readValue]
    simp only [expect_other hws (show isSpace 123 = false by decide)
      (show (123 : UInt16) ≠ 34 by decide), expect_self hws (show isSpace 123 = false by decide),
      hms.open_members r, hread, Option.map_some]
  | @emptyArray ws ws' hws hws' =>
    intro r fuel hfuel hr
    obtain ⟨fuel, rfl⟩ := Nat.exists_eq_succ_of_ne_zero (Nat.ne_zero_of_lt hfuel)
    rw [List.append_assoc, List.cons_append, List.append_assoc, List.cons_append, readValue]
    simp only [expect_other hws (show isSpace 91 = false by decide)
      (show (91 : UInt16) ≠ 34 by decide), expect_other hws (show isSpace 91 = false by decide)
      (show (91 : UInt16) ≠ 123 by decide), expect_self hws (show isSpace 91 = false by decide),
      expect_self hws' (show isSpace 93 = false by decide), List.nil_append]
  | @array ws t vs hws hvs ih =>
    intro r fuel hfuel hr
    obtain ⟨fuel, rfl⟩ := Nat.exists_eq_succ_of_ne_zero (Nat.ne_zero_of_lt hfuel)
    rw [List.length_append, List.length_cons] at hfuel
    have hread : readItems fuel (t ++ r) = some (vs, r) := ih r (by omega)
    have hopen : expect 93 (t ++ r) = none := by
      cases hvs with
      | lastItem h _ | item h _ _ =>
        rw [List.append_assoc]
        exact h.open_value _
    rw [List.append_assoc, List.cons_append, readValue]
    simp only [expect_other hws (show isSpace 91 = false by decide)
      (show (91 : UInt16) ≠ 34 by decide), expect_other hws (show isSpace 91 = false by decide)
      (show (91 : UInt16) ≠ 123 by decide), expect_self hws (show isSpace 91 = false by decide),
      hopen, hread, Option.map_some]
  | @lastMember ws k kt ws' t ws'' v hws hk hws' _ hws'' ih =>
    intro r fuel hfuel
    obtain ⟨fuel, rfl⟩ := Nat.exists_eq_succ_of_ne_zero (Nat.ne_zero_of_lt hfuel)
    simp only [List.length_append, List.length_cons] at hfuel
    have hstop : Stops (ws'' ++ 125 :: r) := stops_spaces hws'' (stops_cons (by decide) r)
    have hread : readValue fuel (t ++ (ws'' ++ 125 :: r)) = some (v, ws'' ++ 125 :: r) :=
      ih (ws'' ++ 125 :: r) (by omega) hstop
    unfold Phrase.ReadAs
    simp only [List.append_assoc, List.cons_append, List.nil_append]
    rw [readMembers, expect_self hws (by decide), Option.bind_some, readString_escaped hk,
      Option.bind_some, expect_self hws' (by decide), Option.bind_some, hread, Option.bind_some]
    simp only [expect_self hws'' (show isSpace 125 = false by decide)]
  | @member ws k kt ws' t ws'' rest v ms hws hk hws' _ hws'' _ ih ihms =>
    intro r fuel hfuel
    obtain ⟨fuel, rfl⟩ := Nat.exists_eq_succ_of_ne_zero (Nat.ne_zero_of_lt hfuel)
    simp only [List.length_append, List.length_cons] at hfuel
    have hstop : Stops (ws'' ++ 44 :: (rest ++ r)) :=
      stops_spaces hws'' (stops_cons (by decide) _)
    have hread : readValue fuel (t ++ (ws'' ++ 44 :: (rest ++ r))) =
        some (v, ws'' ++ 44 :: (rest ++ r)) := ih (ws'' ++ 44 :: (rest ++ r)) (by omega) hstop
    have hmore : readMembers fuel (rest ++ r) = some (ms, r) := ihms r (by omega)
    unfold Phrase.ReadAs
    simp only [List.append_assoc, List.cons_append]
    rw [readMembers, expect_self hws (by decide), Option.bind_some, readString_escaped hk,
      Option.bind_some, expect_self hws' (by decide), Option.bind_some, hread, Option.bind_some]
    simp only [expect_other hws'' (show isSpace 44 = false by decide)
      (show (44 : UInt16) ≠ 125 by decide), expect_self hws'' (show isSpace 44 = false by decide),
      Option.bind_some, hmore, Option.map_some]
  | @lastItem t ws v _ hws ih =>
    intro r fuel hfuel
    obtain ⟨fuel, rfl⟩ := Nat.exists_eq_succ_of_ne_zero (Nat.ne_zero_of_lt hfuel)
    simp only [List.length_append, List.length_cons] at hfuel
    have hstop : Stops (ws ++ 93 :: r) := stops_spaces hws (stops_cons (by decide) r)
    have hread : readValue fuel (t ++ (ws ++ 93 :: r)) = some (v, ws ++ 93 :: r) :=
      ih (ws ++ 93 :: r) (by omega) hstop
    unfold Phrase.ReadAs
    simp only [List.append_assoc, List.cons_append, List.nil_append]
    rw [readItems, hread, Option.bind_some]
    simp only [expect_self hws (show isSpace 93 = false by decide)]
  | @item t ws rest v vs _ hws _ ih ihvs =>
    intro r fuel hfuel
    obtain ⟨fuel, rfl⟩ := Nat.exists_eq_succ_of_ne_zero (Nat.ne_zero_of_lt hfuel)
    simp only [List.length_append, List.length_cons] at hfuel
    have hstop : Stops (ws ++ 44 :: (rest ++ r)) := stops_spaces hws (stops_cons (by decide) _)
    have hread : readValue fuel (t ++ (ws ++ 44 :: (rest ++ r))) =
        some (v, ws ++ 44 :: (rest ++ r)) := ih (ws ++ 44 :: (rest ++ r)) (by omega) hstop
    have hmore : readItems fuel (rest ++ r) = some (vs, r) := ihvs r (by omega)
    unfold Phrase.ReadAs
    simp only [List.append_assoc, List.cons_append]
    rw [readItems, hread, Option.bind_some]
    simp only [expect_other hws (show isSpace 44 = false by decide)
      (show (44 : UInt16) ≠ 93 by decide), expect_self hws (show isSpace 44 = false by decide),
      Option.bind_some, hmore, Option.map_some]

/-- Every text of a value is decoded to it. -/
theorem decode_of_writes {v : Value} {t : Text} (h : Writes (.value v) t) :
    decode t = some v := by
  have hread : readValue (2 * t.length + 2) (t ++ []) = some (v, []) :=
    h.readAs [] (by omega) stops_nil
  rw [List.append_nil] at hread
  unfold decode
  rw [hread]
  rfl

theorem hexValue_hexUnit {n : Nat} (h : n < 16) : hexValue (hexUnit n) = some (UInt16.ofNat n) := by
  have hall : ∀ k : Fin 16, hexValue (hexUnit k) = some (UInt16.ofNat k) := by decide
  exact hall ⟨n, h⟩

theorem unicodeEscape_hexUnits (u : UInt16) :
    unicodeEscape (hexUnit (u.toNat / 4096)) (hexUnit (u.toNat / 256 % 16))
      (hexUnit (u.toNat / 16 % 16)) (hexUnit (u.toNat % 16)) = some u := by
  have hlt := u.toNat_lt
  unfold unicodeEscape
  rw [hexValue_hexUnit (by omega), hexValue_hexUnit (by omega), hexValue_hexUnit (by omega),
    hexValue_hexUnit (by omega)]
  refine congrArg some (UInt16.toNat.inj ?_)
  simp only [UInt16.toNat_add, UInt16.toNat_mul, UInt16.toNat_ofNat', UInt16.reduceToNat]
  omega

theorem escaped_unicodeText (u : UInt16) {s t : Text} (h : Escaped s t) :
    Escaped (u :: s) (unicodeText u ++ t) :=
  .unicode (unicodeEscape_hexUnits u) h

theorem escaped_escapeUnit (u : UInt16) {s t : Text} (h : Escaped s t) :
    Escaped (u :: s) (escapeUnit u ++ t) := by
  unfold escapeUnit
  split
  · rename_i hu
    refine .short ?_ h
    rcases hu with rfl | rfl <;> rfl
  rename_i hu
  split
  · subst u
    exact .short rfl h
  split
  · subst u
    exact .short rfl h
  split
  · subst u
    exact .short rfl h
  split
  · subst u
    exact .short rfl h
  split
  · subst u
    exact .short rfl h
  split
  · exact escaped_unicodeText u h
  · rename_i hcontrol
    rw [not_or] at hu
    exact .plain ⟨UInt16.not_lt.mp hcontrol, hu.1, hu.2⟩ h

/-- A surrogate stands for itself. -/
theorem plain_of_surrogate {u : UInt16} (h : isLead u = true ∨ isTrail u = true) :
    32 ≤ u ∧ u ≠ 34 ∧ u ≠ 92 := by
  have hle : 0xD800 ≤ u.toNat := by
    simp only [isLead, isTrail, Bool.and_eq_true, decide_eq_true_eq, UInt16.le_iff_toNat_le,
      UInt16.reduceToNat] at h
    omega
  refine ⟨?_, ?_, ?_⟩
  · rw [UInt16.le_iff_toNat_le]
    exact Nat.le_trans (by decide) hle
  · rintro rfl
    exact absurd hle (by decide)
  · rintro rfl
    exact absurd hle (by decide)

theorem escaped_escape (s : Text) : Escaped s (escape s) := by
  induction s using escape.induct with
  | case1 => exact .nil
  | case2 u h =>
    have hunit := escaped_unicodeText u .nil
    rw [List.append_nil] at hunit
    rw [escape, if_pos h]
    exact hunit
  | case3 u h =>
    have hunit := escaped_escapeUnit u .nil
    rw [List.append_nil] at hunit
    rw [escape, if_neg h]
    exact hunit
  | case4 u v s hu hv ih =>
    rw [escape, if_pos hu, if_pos hv]
    exact .plain (plain_of_surrogate (Or.inl hu)) (.plain (plain_of_surrogate (Or.inr hv)) ih)
  | case5 u v s hu hv ih =>
    rw [escape, if_pos hu, if_neg hv]
    exact escaped_unicodeText u ih
  | case6 u v s hu hv ih =>
    rw [escape, if_neg hu, if_pos hv]
    exact escaped_unicodeText u ih
  | case7 u v s hu hv ih =>
    rw [escape, if_neg hu, if_neg hv]
    exact escaped_escapeUnit u ih

theorem writes_encodeItems {vs : List Value} (hne : vs ≠ [])
    (h : ∀ v ∈ vs, Writes (.value v) (encode v)) : Writes (.items vs) (encodeItems vs) := by
  have hnil : Spaces [] := fun _ hu => absurd hu List.not_mem_nil
  induction vs with
  | nil => exact absurd rfl hne
  | cons v vs ih =>
    have hv := h v List.mem_cons_self
    cases vs with
    | nil => exact .lastItem hv hnil
    | cons w vs =>
      exact .item hv hnil (ih (List.cons_ne_nil w vs) fun x hx => h x (List.mem_cons_of_mem v hx))

theorem writes_encodeMembers {ms : List (Text × Value)} (hne : ms ≠ [])
    (h : ∀ m ∈ ms, Writes (.value m.2) (encode m.2)) : Writes (.members ms) (encodeMembers ms) := by
  have hnil : Spaces [] := fun _ hu => absurd hu List.not_mem_nil
  induction ms with
  | nil => exact absurd rfl hne
  | cons m ms ih =>
    have hm := h m List.mem_cons_self
    cases ms with
    | nil => exact .lastMember hnil (escaped_escape m.1) hnil hm hnil
    | cons m' ms =>
      exact .member hnil (escaped_escape m.1) hnil hm hnil
        (ih (List.cons_ne_nil m' ms) fun x hx => h x (List.mem_cons_of_mem m hx))

theorem writes_encode {v : Value} (h : Fits v) : Writes (.value v) (encode v) := by
  have hnil : Spaces [] := fun _ hu => absurd hu List.not_mem_nil
  have hscalar : ∀ {v : Value} {t : Text}, Scalar v t → Writes (.value v) t := fun h =>
    .scalar hnil h
  induction h with
  | null => exact hscalar .null
  | bool b =>
    cases b with
    | true => exact hscalar .true
    | false => exact hscalar .false
  | int hlow hhigh => exact hscalar (.int hlow hhigh)
  | double =>
    have hdigit : ∀ u ∈ [(48 : UInt16)], isDigit u = true := fun u hu => by
      cases List.mem_singleton.mp hu
      rfl
    have hzero : Whole [48] := ⟨⟨List.cons_ne_nil _ _, hdigit⟩, fun _ => rfl⟩
    exact hscalar (@Scalar.double false _ _ _ _ _ hzero (.some hzero.1) .none (Or.inl rfl))
  | string s => exact @Writes.string [] _ _ hnil (escaped_escape s)
  | @array vs _ ih =>
    cases vs with
    | nil => exact @Writes.emptyArray [] [] hnil hnil
    | cons v vs => exact @Writes.array [] _ _ hnil (writes_encodeItems (List.cons_ne_nil v vs) ih)
  | @object ms _ ih =>
    cases ms with
    | nil => exact @Writes.emptyObject [] [] hnil hnil
    | cons m ms =>
      exact @Writes.object [] _ _ hnil (writes_encodeMembers (List.cons_ne_nil m ms) ih)

/-- What the encoder writes is decoded to what was written. -/
theorem decode_encode {v : Value} (h : Fits v) : decode (encode v) = some v :=
  decode_of_writes (writes_encode h)

theorem Spaces.null_not_mem {t : Text} (h : Spaces t) : 0 ∉ t := fun hmem => by cases h 0 hmem

theorem Digits.null_not_mem {t : Text} (h : Digits t) : 0 ∉ t := fun hmem => by cases h.2 0 hmem

theorem Escaped.null_not_mem {s t : Text} (h : Escaped s t) : 0 ∉ t := by
  induction h with
  | nil => exact List.not_mem_nil
  | plain hu _ ih =>
    rw [List.mem_cons, not_or]
    refine ⟨?_, ih⟩
    rintro rfl
    exact absurd hu.1 (by decide)
  | short hu _ ih =>
    rw [List.mem_cons, List.mem_cons, not_or, not_or]
    refine ⟨by decide, ?_, ih⟩
    rintro rfl
    cases hu
  | @unicode a b c d u s t hu _ ih =>
    have hzero : ∀ x y z : UInt16, unicodeEscape 0 x y z = none ∧
        unicodeEscape x 0 y z = none ∧ unicodeEscape x y 0 z = none ∧
        unicodeEscape x y z 0 = none := by
      have hnone : hexValue 0 = none := rfl
      intro x y z
      unfold unicodeEscape
      rw [hnone]
      refine ⟨rfl, ?_, ?_, ?_⟩ <;> split <;> simp_all
    simp only [List.mem_cons, not_or]
    refine ⟨by decide, by decide, ?_, ?_, ?_, ?_, ih⟩
    · rintro rfl
      rw [(hzero b c d).1] at hu
      cases hu
    · rintro rfl
      rw [(hzero a c d).2.1] at hu
      cases hu
    · rintro rfl
      rw [(hzero a b d).2.2.1] at hu
      cases hu
    · rintro rfl
      rw [(hzero a b c).2.2.2] at hu
      cases hu

theorem null_not_mem_sign (negative : Bool) : 0 ∉ sign negative := by cases negative <;> decide

theorem Scalar.null_not_mem {v : Value} {t : Text} (h : Scalar v t) : 0 ∉ t := by
  cases h with
  | null | true | false => decide
  | @int i _ _ =>
    unfold integerText
    rw [List.mem_append, not_or]
    exact ⟨null_not_mem_sign _, (whole_toDigits i.natAbs).1.null_not_mem⟩
  | @double negative _ _ ds f e hds hf he _ =>
    have hfraction : 0 ∉ f := by
      cases hf with
      | none => exact List.not_mem_nil
      | some hds =>
        rw [List.mem_cons, not_or]
        exact ⟨by decide, hds.null_not_mem⟩
    have hexponent : 0 ∉ e := by
      cases he with
      | none => exact List.not_mem_nil
      | some he hsign hds =>
        rw [List.mem_cons, List.mem_append, not_or, not_or]
        refine ⟨?_, ?_, hds.null_not_mem⟩
        · rcases he with rfl | rfl <;> decide
        · rcases hsign with rfl | rfl | rfl <;> decide
    simp only [List.mem_append, not_or]
    exact ⟨null_not_mem_sign negative, hds.1.null_not_mem, hfraction, hexponent⟩

/-- A JSON text can stand in a C string. -/
theorem Writes.null_not_mem {p : Phrase} {t : Text} (h : Writes p t) : 0 ∉ t := by
  have hunits : ∀ u : UInt16, u ∈ [34, 44, 58, 91, 93, 123, 125] → (0 : UInt16) ≠ u := by
    rintro u hu rfl
    exact absurd hu (by decide)
  have hquote := hunits 34 (by decide)
  have hcomma := hunits 44 (by decide)
  have hcolon := hunits 58 (by decide)
  have hclose := hunits 93 (by decide)
  have hend := hunits 125 (by decide)
  induction h with
  | scalar hws h =>
    rw [List.mem_append, not_or]
    exact ⟨hws.null_not_mem, h.null_not_mem⟩
  | string hws h =>
    simp only [List.mem_append, List.mem_cons, List.not_mem_nil, or_false, not_or]
    exact ⟨hws.null_not_mem, hquote, h.null_not_mem, hquote⟩
  | emptyObject hws hws' =>
    simp only [List.mem_append, List.mem_cons, List.not_mem_nil, or_false, not_or]
    exact ⟨hws.null_not_mem, hunits 123 (by decide), hws'.null_not_mem, hend⟩
  | object hws _ ih =>
    simp only [List.mem_append, List.mem_cons, not_or]
    exact ⟨hws.null_not_mem, hunits 123 (by decide), ih⟩
  | emptyArray hws hws' =>
    simp only [List.mem_append, List.mem_cons, List.not_mem_nil, or_false, not_or]
    exact ⟨hws.null_not_mem, hunits 91 (by decide), hws'.null_not_mem, hclose⟩
  | array hws _ ih =>
    simp only [List.mem_append, List.mem_cons, not_or]
    exact ⟨hws.null_not_mem, hunits 91 (by decide), ih⟩
  | lastMember hws hk hws' _ hws'' ih =>
    simp only [List.mem_append, List.mem_cons, List.not_mem_nil, or_false, not_or]
    exact ⟨hws.null_not_mem, hquote, hk.null_not_mem, hquote, hws'.null_not_mem, hcolon, ih,
      hws''.null_not_mem, hend⟩
  | member hws hk hws' _ hws'' _ ih ihms =>
    simp only [List.mem_append, List.mem_cons, not_or]
    exact ⟨hws.null_not_mem, hquote, hk.null_not_mem, hquote, hws'.null_not_mem, hcolon, ih,
      hws''.null_not_mem, hcomma, ihms⟩
  | lastItem _ hws ih =>
    simp only [List.mem_append, List.mem_cons, List.not_mem_nil, or_false, not_or]
    exact ⟨ih, hws.null_not_mem, hclose⟩
  | item _ hws _ ih ihvs =>
    simp only [List.mem_append, List.mem_cons, not_or]
    exact ⟨ih, hws.null_not_mem, hcomma, ihvs⟩

theorem field_eq_none {key : Text} {ms : List (Text × Value)} (h : key ∉ ms.map Prod.fst) :
    field key ms = none := by
  cases hfield : field key ms with
  | none => rfl
  | some v => exact absurd (List.mem_map_of_mem (mem_of_field hfield)) h

theorem field_of_mem {key : Text} {v : Value} {ms : List (Text × Value)}
    (hnodup : (ms.map Prod.fst).Nodup) (hmem : (key, v) ∈ ms) : field key ms = some v := by
  induction ms with
  | nil => exact absurd hmem List.not_mem_nil
  | cons m ms ih =>
    obtain ⟨k, w⟩ := m
    rw [List.map_cons, List.nodup_cons] at hnodup
    rcases List.mem_cons.mp hmem with heq | hmem
    · cases heq
      rw [field, field_eq_none hnodup.1]
      exact if_pos rfl
    · rw [field, ih hnodup.2 hmem]

end Json
