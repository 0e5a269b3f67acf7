import Mathlib

/-!
# UTF-8 texts as lists of bytes, and their UTF-16 units

The library's encoder gives the bytes of a character; a text is decoded where the bytes are
those of one. Bytes below 128 stand for themselves wherever they occur.
-/

namespace Utf8

set_option autoImplicit false

def encode (cs : List Char) : List UInt8 := cs.flatMap String.utf8EncodeChar

/-- `none` where the bytes are not well formed. -/
def decode (bs : List UInt8) : Option (List Char) := bs.toByteArray.utf8Decode?.map Array.toList

theorem decode_encode (cs : List Char) : decode (encode cs) = some cs := by
  have h : (encode cs).toByteArray = cs.utf8Encode := rfl
  rw [decode, h, List.utf8Decode?_utf8Encode, Option.map_some]

theorem decode_eq_some_iff {bs : List UInt8} {cs : List Char} :
    decode bs = some cs ↔ encode cs = bs := by
  constructor
  · intro h
    have hsome : (bs.toByteArray.utf8Decode?).isSome = true := by
      unfold decode at h
      cases hd : bs.toByteArray.utf8Decode? with
      | none => simp [hd] at h
      | some chars => rfl
    obtain ⟨m, hm⟩ := ByteArray.isSome_utf8Decode?_iff.mp hsome
    have hbytes : bs = encode m := by
      have henc : m.utf8Encode = (encode m).toByteArray := rfl
      rw [henc] at hm
      exact List.toByteArray_inj.mp hm
    rw [hbytes, decode_encode] at h
    rw [hbytes, Option.some.inj h]
  · intro h
    rw [← h, decode_encode]

theorem encode_append (cs ds : List Char) : encode (cs ++ ds) = encode cs ++ encode ds :=
  List.flatMap_append

theorem encode_cons (c : Char) (cs : List Char) :
    encode (c :: cs) = String.utf8EncodeChar c ++ encode cs := rfl

/-- A byte below 128 occurs in the encoding of one character only, and alone. -/
theorem encodeChar_of_mem {c : Char} {b : UInt8} (h : b ∈ String.utf8EncodeChar c)
    (hb : b.toNat < 128) : String.utf8EncodeChar c = [b] ∧ c = Char.ofNat b.toNat := by
  have hhigh : ∀ n : Nat, b = UInt8.ofNat n → n < 256 → n < 128 := by
    intro n hn hlt
    rw [hn, UInt8.toNat_ofNat'] at hb
    omega
  unfold String.utf8EncodeChar at h ⊢
  simp only at h ⊢
  split at h
  · rename_i hone
    rw [if_pos hone]
    have heq := List.mem_singleton.mp h
    have hnat : b.toNat = c.toNat := by
      have hval : c.val.toNat = c.toNat := rfl
      rw [heq, UInt8.toNat_ofNat']
      omega
    refine ⟨by rw [heq], ?_⟩
    rw [hnat, Char.ofNat_toNat]
  -- every byte of a longer encoding is 128 or more
  exfalso
  split at h
  · simp only [List.mem_cons, List.not_mem_nil, or_false] at h
    rcases h with h | h
    · have := hhigh _ h (by omega)
      omega
    · have := hhigh _ h (by omega)
      omega
  split at h
  · simp only [List.mem_cons, List.not_mem_nil, or_false] at h
    rcases h with h | h | h
    · have := hhigh _ h (by omega)
      omega
    · have := hhigh _ h (by omega)
      omega
    · have := hhigh _ h (by omega)
      omega
  · simp only [List.mem_cons, List.not_mem_nil, or_false] at h
    rcases h with h | h | h | h
    · have := hhigh _ h (by omega)
      omega
    · have := hhigh _ h (by omega)
      omega
    · have := hhigh _ h (by omega)
      omega
    · have := hhigh _ h (by omega)
      omega

theorem toNat_ofNat {n : Nat} (h : n < 128) : (Char.ofNat n).toNat = n := by
  unfold Char.ofNat
  rw [dif_pos (Or.inl (by omega))]
  rfl

theorem encodeChar_ofNat {b : UInt8} (hb : b.toNat < 128) :
    String.utf8EncodeChar (Char.ofNat b.toNat) = [b] := by
  have hval : (Char.ofNat b.toNat).val.toNat = b.toNat := toNat_ofNat hb
  unfold String.utf8EncodeChar
  simp only [hval]
  rw [if_pos (by omega), UInt8.ofNat_toNat]

/-- A text is cut at a byte below 128 as its bytes are. -/
theorem encode_eq_append_cons {b : UInt8} (hb : b.toNat < 128) {x y : List UInt8}
    {cs : List Char} (h : encode cs = x ++ b :: y) :
    ∃ cs₀ cs₁, encode cs₀ = x ∧ encode cs₁ = y ∧ cs = cs₀ ++ Char.ofNat b.toNat :: cs₁ := by
  induction cs generalizing x with
  | nil => exact absurd h.symm (by simp [encode])
  | cons c cs ih =>
    rw [encode_cons] at h
    rcases List.append_eq_append_iff.mp h with ⟨w, rfl, hw⟩ | ⟨w, hc, hw⟩
    · obtain ⟨cs₀, cs₁, hcs₀, hcs₁, rfl⟩ := ih hw
      exact ⟨c :: cs₀, cs₁, by rw [encode_cons, hcs₀], hcs₁, rfl⟩
    · cases w with
      | nil =>
        obtain ⟨cs₀, cs₁, hcs₀, hcs₁, rfl⟩ := ih (x := []) hw.symm
        refine ⟨c :: cs₀, cs₁, ?_, hcs₁, rfl⟩
        rw [encode_cons, hcs₀, hc]
        simp
      | cons d w =>
        obtain ⟨rfl, hrest⟩ := List.cons.inj hw
        obtain ⟨hsingle, hchar⟩ := encodeChar_of_mem (by rw [hc]; simp) hb
        rw [hsingle] at hc
        have hlen := congrArg List.length hc
        simp only [List.length_append, List.length_cons, List.length_nil] at hlen
        have hx : x = [] := List.length_eq_zero_iff.mp (by omega)
        have hw' : w = [] := List.length_eq_zero_iff.mp (by omega)
        subst hx hw'
        exact ⟨[], cs, rfl, hrest.symm, by rw [hchar]; rfl⟩

theorem decode_append_cons_iff {b : UInt8} (hb : b.toNat < 128) {x y : List UInt8}
    {cs : List Char} :
    decode (x ++ b :: y) = some cs ↔
      ∃ cs₀ cs₁, decode x = some cs₀ ∧ decode y = some cs₁ ∧
        cs = cs₀ ++ Char.ofNat b.toNat :: cs₁ := by
  simp only [decode_eq_some_iff]
  constructor
  · exact encode_eq_append_cons hb
  · intro h
    obtain ⟨cs₀, cs₁, rfl, rfl, rfl⟩ := h
    rw [encode_append, encode_cons, encodeChar_ofNat hb]
    rfl

/-- The units of one character. -/
def utf16Char (c : Char) : List UInt16 :=
  if c.toNat < 0x10000 then [UInt16.ofNat c.toNat]
  else
    [UInt16.ofNat (0xD800 + (c.toNat - 0x10000) / 0x400),
      UInt16.ofNat (0xDC00 + (c.toNat - 0x10000) % 0x400)]

def utf16 (cs : List Char) : List UInt16 := cs.flatMap utf16Char

/-- The text that the bytes encode, in UTF-16 units. -/
def toUtf16 (bs : List UInt8) : Option (List UInt16) := (decode bs).map utf16

def Ascii (bs : List UInt8) : Prop := ∀ b ∈ bs, b.toNat < 128

instance (bs : List UInt8) : Decidable (Ascii bs) := inferInstanceAs (Decidable (∀ b ∈ bs, _))

def widen (bs : List UInt8) : List UInt16 := bs.map UInt8.toUInt16

theorem widen_append (a b : List UInt8) : widen (a ++ b) = widen a ++ widen b := List.map_append

theorem Ascii.append {a b : List UInt8} (ha : Ascii a) (hb : Ascii b) : Ascii (a ++ b) := by
  intro c hc
  rcases List.mem_append.mp hc with h | h
  · exact ha c h
  · exact hb c h

theorem utf16Char_ofNat {b : UInt8} (hb : b.toNat < 128) :
    utf16Char (Char.ofNat b.toNat) = [b.toUInt16] := by
  unfold utf16Char
  rw [toNat_ofNat hb, if_pos (by omega), UInt16.ofNat_uInt8ToNat]

theorem utf16_append_cons {b : UInt8} (hb : b.toNat < 128) (cs ds : List Char) :
    utf16 (cs ++ Char.ofNat b.toNat :: ds) = utf16 cs ++ b.toUInt16 :: utf16 ds := by
  unfold utf16
  rw [List.flatMap_append, List.flatMap_cons, utf16Char_ofNat hb]
  rfl

theorem toUtf16_append_cons_iff {b : UInt8} (hb : b.toNat < 128) {x y : List UInt8}
    {t : List UInt16} :
    toUtf16 (x ++ b :: y) = some t ↔
      ∃ t₀ t₁, toUtf16 x = some t₀ ∧ toUtf16 y = some t₁ ∧ t = t₀ ++ b.toUInt16 :: t₁ := by
  unfold toUtf16
  simp only [Option.map_eq_some_iff, decode_append_cons_iff hb]
  constructor
  · intro h
    obtain ⟨cs, ⟨cs₀, cs₁, h₀, h₁, rfl⟩, rfl⟩ := h
    exact ⟨utf16 cs₀, utf16 cs₁, ⟨cs₀, h₀, rfl⟩, ⟨cs₁, h₁, rfl⟩, utf16_append_cons hb cs₀ cs₁⟩
  · intro h
    obtain ⟨t₀, t₁, ⟨cs₀, h₀, rfl⟩, ⟨cs₁, h₁, rfl⟩, rfl⟩ := h
    exact ⟨_, ⟨cs₀, cs₁, h₀, h₁, rfl⟩, utf16_append_cons hb cs₀ cs₁⟩

theorem toUtf16_nil : toUtf16 [] = some [] := by
  have h : decode [] = some [] := decode_eq_some_iff.mpr rfl
  rw [toUtf16, h]
  rfl

/-- Text in front of which ASCII text stands. -/
theorem toUtf16_ascii_append_iff {a x : List UInt8} (ha : Ascii a) {t : List UInt16} :
    toUtf16 (a ++ x) = some t ↔ ∃ t', toUtf16 x = some t' ∧ t = widen a ++ t' := by
  induction a generalizing t with
  | nil => simp [widen]
  | cons b a ih =>
    have hb : b.toNat < 128 := ha b List.mem_cons_self
    have hrest : Ascii a := fun c hc => ha c (List.mem_cons_of_mem b hc)
    have hcut := toUtf16_append_cons_iff hb (x := []) (y := a ++ x) (t := t)
    rw [List.nil_append] at hcut
    rw [List.cons_append, hcut]
    simp only [toUtf16_nil, ih hrest]
    constructor
    · intro h
      obtain ⟨t₀, t₁, hnil, ⟨t', hx, rfl⟩, rfl⟩ := h
      cases hnil
      exact ⟨t', hx, rfl⟩
    · intro h
      obtain ⟨t', hx, rfl⟩ := h
      exact ⟨[], widen a ++ t', rfl, ⟨t', hx, rfl⟩, rfl⟩

theorem toUtf16_ascii {a : List UInt8} (ha : Ascii a) : toUtf16 a = some (widen a) := by
  have h := (toUtf16_ascii_append_iff ha (x := []) (t := widen a)).mpr
  rw [List.append_nil] at h
  exact h ⟨[], toUtf16_nil, by simp⟩

theorem toUtf16_append_ascii_iff {x b : List UInt8} (hb : Ascii b) {t : List UInt16} :
    toUtf16 (x ++ b) = some t ↔ ∃ t', toUtf16 x = some t' ∧ t = t' ++ widen b := by
  cases b with
  | nil => simp [widen]
  | cons c b =>
    have hrest : Ascii b := fun d hd => hb d (List.mem_cons_of_mem c hd)
    rw [toUtf16_append_cons_iff (hb c List.mem_cons_self)]
    simp only [toUtf16_ascii hrest]
    constructor
    · intro h
      obtain ⟨t₀, t₁, hx, hnone, rfl⟩ := h
      cases hnone
      exact ⟨t₀, hx, rfl⟩
    · intro h
      obtain ⟨t', hx, rfl⟩ := h
      exact ⟨t', widen b, hx, rfl, rfl⟩

theorem toUtf16_between_iff {a x b : List UInt8} (ha : Ascii a) (hb : Ascii b)
    {t : List UInt16} :
    toUtf16 (a ++ x ++ b) = some t ↔
      ∃ t', toUtf16 x = some t' ∧ t = widen a ++ t' ++ widen b := by
  rw [toUtf16_append_ascii_iff hb]
  simp only [toUtf16_ascii_append_iff ha]
  constructor
  · intro h
    obtain ⟨_, ⟨t', hx, rfl⟩, rfl⟩ := h
    exact ⟨t', hx, rfl⟩
  · intro h
    obtain ⟨t', hx, rfl⟩ := h
    exact ⟨_, ⟨t', hx, rfl⟩, rfl⟩

/-- A byte below 128 is a unit of the text. -/
theorem mem_of_toUtf16 {bs : List UInt8} {b : UInt8} {t : List UInt16} (hmem : b ∈ bs)
    (hb : b.toNat < 128) (h : toUtf16 bs = some t) : b.toUInt16 ∈ t := by
  obtain ⟨x, y, rfl⟩ := List.append_of_mem hmem
  obtain ⟨t₀, t₁, -, -, rfl⟩ := (toUtf16_append_cons_iff hb).mp h
  simp

/-- The text of UTF-16 units; a surrogate without its partner becomes U+FFFD. -/
def fromUtf16 : List UInt16 → List Char
  | [] => []
  | [u] => [if 0xD800 ≤ u.toNat ∧ u.toNat < 0xE000 then '\uFFFD' else Char.ofNat u.toNat]
  | u :: v :: rest =>
    if 0xD800 ≤ u.toNat ∧ u.toNat < 0xDC00 then
      if 0xDC00 ≤ v.toNat ∧ v.toNat < 0xE000 then
        Char.ofNat (0x10000 + (u.toNat - 0xD800) * 0x400 + (v.toNat - 0xDC00)) :: fromUtf16 rest
      else '\uFFFD' :: fromUtf16 (v :: rest)
    else if 0xDC00 ≤ u.toNat ∧ u.toNat < 0xE000 then '\uFFFD' :: fromUtf16 (v :: rest)
    else Char.ofNat u.toNat :: fromUtf16 (v :: rest)

theorem fromUtf16_of_lt {us : List UInt16} (h : ∀ u ∈ us, u.toNat < 0xD800) :
    fromUtf16 us = us.map fun u => Char.ofNat u.toNat := by
  induction us with
  | nil => rfl
  | cons u us ih =>
    have hu := h u List.mem_cons_self
    have hrest := ih fun v hv => h v (List.mem_cons_of_mem u hv)
    cases us with
    | nil =>
      rw [fromUtf16, if_neg (by omega)]
      rfl
    | cons v rest =>
      rw [fromUtf16, if_neg (by omega), if_neg (by omega), hrest]
      rfl

/-- ASCII text is its own encoding. -/
theorem encode_ofNat {bs : List UInt8} (h : Ascii bs) :
    encode (bs.map fun b => Char.ofNat b.toNat) = bs := by
  induction bs with
  | nil => rfl
  | cons b bs ih =>
    have hrest := ih fun c hc => h c (List.mem_cons_of_mem b hc)
    rw [List.map_cons, encode_cons, encodeChar_ofNat (h b List.mem_cons_self), hrest]
    rfl

/-- A character outside the surrogates has no code point among them. -/
theorem toNat_not_surrogate (c : Char) : ¬(0xD800 ≤ c.toNat ∧ c.toNat < 0xE000) := by
  have hvalid := c.valid
  simp only [UInt32.isValidChar, Nat.isValidChar] at hvalid
  have heq : c.val.toNat = c.toNat := rfl
  omega

theorem fromUtf16_cons {u : UInt16} (h : ¬(0xD800 ≤ u.toNat ∧ u.toNat < 0xE000))
    (us : List UInt16) : fromUtf16 (u :: us) = Char.ofNat u.toNat :: fromUtf16 us := by
  cases us with
  | nil => simp only [fromUtf16, if_neg h]
  | cons v us => rw [fromUtf16, if_neg (by omega), if_neg (by omega)]

theorem fromUtf16_utf16Char (c : Char) (us : List UInt16) :
    fromUtf16 (utf16Char c ++ us) = c :: fromUtf16 us := by
  have hsurrogate := toNat_not_surrogate c
  have hmax : c.toNat < 0x110000 := by
    have hvalid := c.valid
    simp only [UInt32.isValidChar, Nat.isValidChar] at hvalid
    have heq : c.val.toNat = c.toNat := rfl
    omega
  unfold utf16Char
  split
  · rename_i hlt
    have hnat : (UInt16.ofNat c.toNat).toNat = c.toNat := by
      rw [UInt16.toNat_ofNat']
      omega
    rw [List.singleton_append, fromUtf16_cons (by rw [hnat]; exact hsurrogate), hnat,
      Char.ofNat_toNat]
  · rename_i hge
    have hlead : (UInt16.ofNat (0xD800 + (c.toNat - 0x10000) / 0x400)).toNat =
        0xD800 + (c.toNat - 0x10000) / 0x400 := by
      rw [UInt16.toNat_ofNat']
      omega
    have htrail : (UInt16.ofNat (0xDC00 + (c.toNat - 0x10000) % 0x400)).toNat =
        0xDC00 + (c.toNat - 0x10000) % 0x400 := by
      rw [UInt16.toNat_ofNat']
      omega
    have hsum : 0x10000 + (0xD800 + (c.toNat - 0x10000) / 0x400 - 0xD800) * 0x400 +
        (0xDC00 + (c.toNat - 0x10000) % 0x400 - 0xDC00) = c.toNat := by omega
    rw [List.cons_append, List.singleton_append, fromUtf16, hlead, htrail,
      if_pos (by omega), if_pos (by omega), hsum, Char.ofNat_toNat]

/-- The units of a text are read as the text. -/
theorem fromUtf16_utf16 (cs : List Char) : fromUtf16 (utf16 cs) = cs := by
  induction cs with
  | nil => rfl
  | cons c cs ih =>
    have hsplit : utf16 (c :: cs) = utf16Char c ++ utf16 cs := rfl
    rw [hsplit, fromUtf16_utf16Char, ih]

theorem toUtf16_encode (cs : List Char) : toUtf16 (encode cs) = some (utf16 cs) := by
  unfold toUtf16
  rw [decode_encode]
  rfl

end Utf8
