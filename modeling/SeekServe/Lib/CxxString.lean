import Mathlib

/-!
# C++ strings as lists of characters

The operations of `std::string` and the number conversions of the C++ library.
A search that fails yields `none` in place of `npos`; a conversion that throws
yields `none` in place of the exception.
-/

abbrev CxxString := List Char

namespace CxxString

set_option autoImplicit false

/-- `s.find(needle)`: the first place where `needle` starts. -/
def find (needle : CxxString) : CxxString → Option Nat
  | [] => if needle = [] then some 0 else none
  | c :: cs => if needle.isPrefixOf (c :: cs) then some 0 else (find needle cs).map (· + 1)

/-- `s.find(needle, pos)` -/
def findFrom (needle s : CxxString) (pos : Nat) : Option Nat :=
  (find needle (s.drop pos)).map (· + pos)

/-- `s.rfind(c)`: the last place of the character. -/
def rfind (c : Char) (s : CxxString) : Option Nat :=
  (s.reverse.findIdx? (· == c)).map fun i => s.length - 1 - i

/-- `s.substr(pos, n)`, where no `n` stands for the rest of the string. -/
def substr (s : CxxString) (pos : Nat) : Option Nat → CxxString
  | some n => (s.drop pos).take n
  | none => s.drop pos

/-- `while (!s.empty() && s.front() == ' ') s.erase(s.begin());` -/
def trimFront (s : CxxString) : CxxString := s.dropWhile (· == ' ')

/-- `while (!s.empty() && s.back() == ' ') s.pop_back();` -/
def trimBack (s : CxxString) : CxxString := s.rdropWhile (· == ' ')

/-- `std::isspace` in the C locale. -/
def isSpace (c : Char) : Bool :=
  c == ' ' || (9 ≤ c.toNat && c.toNat ≤ 13)

def ofInt (i : Int) : CxxString := (toString i).toList

/-- The bytes of a string, where every character stands for its byte. -/
def bytes (s : CxxString) : List UInt8 := s.map fun c => UInt8.ofNat c.toNat

/-- The value of a string of decimal digits, without any bound. -/
def digitsValue (s : CxxString) : Nat := Nat.ofDigitChars 10 s 0

/-- The sign that `strtoll` accepts before the digits, and what follows it. -/
def readSign : CxxString → Bool × CxxString
  | '-' :: s => (true, s)
  | '+' :: s => (false, s)
  | s => (false, s)

/-- The common part of `std::stoi` and `std::stoll`: leading space, a sign, the
longest run of digits; no digits or a value outside the type throws. -/
def readInteger (lo hi : Int) (s : CxxString) : Option Int :=
  let (negative, rest) := readSign (s.dropWhile isSpace)
  let digits := rest.takeWhile Char.isDigit
  if digits = [] then none
  else
    let value : Int := if negative then -(digitsValue digits) else digitsValue digits
    if lo ≤ value ∧ value ≤ hi then some value else none

def stoll (s : CxxString) : Option Int := readInteger (-(2 ^ 63)) (2 ^ 63 - 1) s

def stoi (s : CxxString) : Option Int := readInteger (-(2 ^ 31)) (2 ^ 31 - 1) s

theorem ofInt_of_nonneg {i : Int} (h : 0 ≤ i) : ofInt i = Nat.toDigits 10 i.toNat := by
  simp [ofInt, Int.repr_eq_if, h]

theorem ofInt_of_neg {i : Int} (h : i < 0) : ofInt i = '-' :: Nat.toDigits 10 (-i).toNat := by
  simp [ofInt, Int.repr_eq_if, Int.not_le.mpr h]

theorem isDigit_of_mem_toDigits {n : Nat} {c : Char} (h : c ∈ Nat.toDigits 10 n) : c.isDigit :=
  Nat.isDigit_of_mem_toDigits (by decide) (by decide) h

theorem mem_ofInt {i : Int} {c : Char} (h : c ∈ ofInt i) : c = '-' ∨ c.isDigit := by
  by_cases hi : 0 ≤ i
  · rw [ofInt_of_nonneg hi] at h
    exact Or.inr (isDigit_of_mem_toDigits h)
  · rw [ofInt_of_neg (Int.not_le.mp hi)] at h
    rcases List.mem_cons.mp h with hc | hc
    · exact Or.inl hc
    · exact Or.inr (isDigit_of_mem_toDigits hc)

theorem lt_of_mem_bytes {s : CxxString} {n : Nat} (h : ∀ c ∈ s, c.toNat < n) {b : UInt8}
    (hb : b ∈ s.bytes) : b.toNat < n := by
  obtain ⟨c, hc, rfl⟩ := List.mem_map.mp hb
  have hlt := h c hc
  rw [UInt8.toNat_ofNat']
  omega

theorem toDigits_injective {m n : Nat} (h : Nat.toDigits 10 m = Nat.toDigits 10 n) : m = n := by
  have hv := congrArg (fun s => Nat.ofDigitChars 10 s 0) h
  simpa using hv

theorem minus_not_mem_toDigits (n : Nat) : '-' ∉ Nat.toDigits 10 n := by
  intro h
  have hd := isDigit_of_mem_toDigits h
  exact absurd hd (by decide)

theorem ofInt_injective {i j : Int} (h : ofInt i = ofInt j) : i = j := by
  by_cases hi : 0 ≤ i <;> by_cases hj : 0 ≤ j
  · rw [ofInt_of_nonneg hi, ofInt_of_nonneg hj] at h
    have := toDigits_injective h
    omega
  · rw [ofInt_of_nonneg hi, ofInt_of_neg (Int.not_le.mp hj)] at h
    exact absurd (h ▸ List.mem_cons_self) (minus_not_mem_toDigits i.toNat)
  · rw [ofInt_of_neg (Int.not_le.mp hi), ofInt_of_nonneg hj] at h
    exact absurd (h ▸ List.mem_cons_self) (minus_not_mem_toDigits j.toNat)
  · rw [ofInt_of_neg (Int.not_le.mp hi), ofInt_of_neg (Int.not_le.mp hj)] at h
    have := toDigits_injective (List.cons.inj h).2
    omega

/-- Two strings cut at a character that the right parts do not contain are cut at
the same place. -/
theorem append_cons_inj_of_not_mem {s t u v : CxxString} {c : Char} (hu : c ∉ u) (hv : c ∉ v)
    (h : s ++ c :: u = t ++ c :: v) : s = t ∧ u = v := by
  rcases List.append_eq_append_iff.mp h with ⟨w, rfl, hw⟩ | ⟨w, rfl, hw⟩
  · cases w with
    | nil => simpa using hw
    | cons d w =>
      have hmem : c ∈ u := by
        rw [(List.cons.inj hw).2]
        simp
      exact absurd hmem hu
  · cases w with
    | nil => simpa [eq_comm] using hw
    | cons d w =>
      have hmem : c ∈ v := by
        rw [(List.cons.inj hw).2]
        simp
      exact absurd hmem hv

/-- Two texts cut at their first `c` are cut at the same place. -/
theorem append_cons_inj_of_not_mem_left {s t u v : CxxString} {c : Char} (hs : c ∉ s) (ht : c ∉ t)
    (h : s ++ c :: u = t ++ c :: v) : s = t ∧ u = v := by
  have hrev := congrArg List.reverse h
  simp only [List.reverse_append, List.reverse_cons, List.append_assoc, List.singleton_append]
    at hrev
  have hparts := append_cons_inj_of_not_mem (by simpa using hs) (by simpa using ht) hrev
  exact ⟨List.reverse_injective hparts.2, List.reverse_injective hparts.1⟩

theorem find_append_of_not_mem {c : Char} {needle s : CxxString} (t : CxxString) (h : c ∉ s) :
    find (c :: needle) (s ++ t) = (find (c :: needle) t).map (· + s.length) := by
  induction s with
  | nil => simp
  | cons d s ih =>
    have hne : c ≠ d := fun he => h (he ▸ List.mem_cons_self)
    have hskip : (c :: needle).isPrefixOf (d :: (s ++ t)) = false := by
      simp [List.isPrefixOf, hne]
    rw [List.cons_append, find, hskip, ih fun hm => h (List.mem_cons_of_mem d hm)]
    simp only [Bool.false_eq_true, if_false, Option.map_map, List.length_cons]
    congr 1

theorem find_cons_append (c : Char) (needle t : CxxString) :
    find (c :: needle) (c :: (needle ++ t)) = some 0 := by
  have hstart : (c :: needle).isPrefixOf (c :: (needle ++ t)) = true :=
    List.isPrefixOf_iff_prefix.mpr (List.prefix_append (c :: needle) t)
  rw [find, hstart]
  rfl

theorem length_of_find {needle s : CxxString} {i : Nat} (h : find needle s = some i) :
    i + needle.length ≤ s.length := by
  induction s generalizing i with
  | nil =>
    rw [find] at h
    split at h
    · rename_i hnil
      cases h
      rw [hnil]
      exact Nat.le_refl 0
    · cases h
  | cons c s ih =>
    rw [find] at h
    split at h
    · rename_i hstart
      cases h
      have hle := (List.isPrefixOf_iff_prefix.mp hstart).length_le
      omega
    · obtain ⟨j, hj, rfl⟩ := Option.map_eq_some_iff.mp h
      have hle := ih hj
      rw [List.length_cons]
      omega

/-- What is found in a text is found in every text that begins with it. -/
theorem find_append_of_some {needle s : CxxString} {i : Nat} (h : find needle s = some i)
    (t : CxxString) : find needle (s ++ t) = some i := by
  induction s generalizing i with
  | nil =>
    rw [find] at h
    split at h
    · rename_i hnil
      cases h
      rw [hnil]
      cases t <;> rfl
    · cases h
  | cons c s ih =>
    have hlen := length_of_find h
    rw [find] at h
    rw [List.cons_append, find]
    split at h
    · rename_i hstart
      cases h
      rw [if_pos]
      have hpre := List.isPrefixOf_iff_prefix.mp hstart
      exact List.isPrefixOf_iff_prefix.mpr (hpre.trans (List.prefix_append (c :: s) t))
    · rename_i hstart
      obtain ⟨j, hj, rfl⟩ := Option.map_eq_some_iff.mp h
      rw [if_neg, ih hj]
      · rfl
      · intro hlong
        apply hstart
        apply List.isPrefixOf_iff_prefix.mpr
        apply List.prefix_of_prefix_length_le (List.isPrefixOf_iff_prefix.mp hlong)
          (List.prefix_append (c :: s) t)
        omega

/-- What stands after the place does not matter. -/
theorem find_take {needle s : CxxString} {i : Nat} (h : find needle s = some i) :
    find needle (s.take (i + needle.length)) = some i := by
  induction s generalizing i with
  | nil =>
    rw [List.take_nil]
    exact h
  | cons c s ih =>
    have hwhole := h
    rw [find] at h
    split at h
    · rename_i hstart
      cases h
      obtain ⟨t, ht⟩ := List.isPrefixOf_iff_prefix.mp hstart
      rw [← ht, Nat.zero_add, List.take_left]
      cases needle with
      | nil => rfl
      | cons d needle =>
        have hself := find_cons_append d needle []
        rw [List.append_nil] at hself
        exact hself
    · rename_i hstart
      obtain ⟨j, hj, rfl⟩ := Option.map_eq_some_iff.mp h
      have hsucc : j + 1 + needle.length = j + needle.length + 1 := by omega
      rw [hsucc, List.take_succ_cons, find, if_neg, ih hj]
      · rfl
      · intro hshort
        apply hstart
        have hpre : c :: s.take (j + needle.length) <+: c :: s :=
          (List.cons_prefix_cons).mpr ⟨rfl, List.take_prefix _ s⟩
        exact List.isPrefixOf_iff_prefix.mpr ((List.isPrefixOf_iff_prefix.mp hshort).trans hpre)

/-- No occurrence goes over a character that the needle does not contain. -/
theorem find_append_sep {c : Char} {needle s : CxxString} (hc : c ∉ needle) (hne : needle ≠ [])
    (hs : find needle s = none) (t : CxxString) :
    find needle (s ++ c :: t) = (find needle t).map (· + (s.length + 1)) := by
  induction s with
  | nil =>
    rw [List.nil_append, find, if_neg]
    · rfl
    · intro hstart
      cases needle with
      | nil => exact hne rfl
      | cons d needle =>
        have hd := (List.cons_prefix_cons.mp (List.isPrefixOf_iff_prefix.mp hstart)).1
        exact hc (hd ▸ List.mem_cons_self)
  | cons d s ih =>
    rw [find] at hs
    split at hs
    · cases hs
    · rename_i hstart
      rw [List.cons_append, find, if_neg, ih (Option.map_eq_none_iff.mp hs), Option.map_map]
      · congr 1
      · intro hlong
        obtain ⟨w, hw⟩ := List.isPrefixOf_iff_prefix.mp hlong
        rw [← List.cons_append] at hw
        rcases List.append_eq_append_iff.mp hw with ⟨u, hu, _⟩ | ⟨u, hu, hrest⟩
        · exact hstart (List.isPrefixOf_iff_prefix.mpr ⟨u, hu.symm⟩)
        · cases u with
          | nil =>
            rw [List.append_nil] at hu
            exact hstart (List.isPrefixOf_iff_prefix.mpr ⟨[], by rw [List.append_nil, hu]⟩)
          | cons e u =>
            have he := (List.cons.inj hrest).1
            exact hc (by rw [hu, he]; simp)

theorem find_eq_none_of_not_mem {c : Char} {needle s : CxxString} (hc : c ∈ needle)
    (hs : c ∉ s) : find needle s = none := by
  induction s with
  | nil =>
    rw [find, if_neg]
    intro h
    rw [h] at hc
    exact absurd hc List.not_mem_nil
  | cons d s ih =>
    rw [find, if_neg, ih fun h => hs (List.mem_cons_of_mem d h)]
    · rfl
    · intro h
      exact hs ((List.isPrefixOf_iff_prefix.mp h).subset hc)

theorem isSome_find_singleton (c : Char) (s : CxxString) : (find [c] s).isSome ↔ c ∈ s := by
  induction s with
  | nil => simp [find]
  | cons d s ih =>
    by_cases hd : d = c
    · subst d
      simp [find]
    · have hskip : [c].isPrefixOf (d :: s) = false := by
        simp [List.isPrefixOf, Ne.symm hd]
      rw [find, hskip]
      simp [ih, Ne.symm hd]

/-- What stands before the first `c` is what `find` cuts off. -/
theorem takeWhile_ne (c : Char) (s : CxxString) :
    s.takeWhile (· != c) =
      match find [c] s with
      | none => s
      | some i => s.take i := by
  induction s with
  | nil => rfl
  | cons d s ih =>
    by_cases hd : d = c
    · subst d
      simp [find]
    · have hskip : [c].isPrefixOf (d :: s) = false := by
        simp [List.isPrefixOf, Ne.symm hd]
      rw [find, hskip, List.takeWhile_cons_of_pos (by simp [hd]), ih]
      cases find [c] s <;> rfl

/-- The text around the first occurrence. -/
theorem split_of_find {needle s : CxxString} {i : Nat} (h : find needle s = some i) :
    s = s.take i ++ (needle ++ s.drop (i + needle.length)) := by
  induction s generalizing i with
  | nil =>
    rw [find] at h
    split at h
    · rename_i hnil
      cases h
      rw [hnil]
      rfl
    · cases h
  | cons d s ih =>
    rw [find] at h
    split at h
    · rename_i hstart
      cases h
      obtain ⟨t, ht⟩ := List.isPrefixOf_iff_prefix.mp hstart
      rw [← ht, Nat.zero_add, List.drop_left]
      rfl
    · obtain ⟨j, hj, rfl⟩ := Option.map_eq_some_iff.mp h
      have hsucc : j + 1 + needle.length = j + needle.length + 1 := by omega
      rw [hsucc, List.take_succ_cons, List.cons_append, List.drop_succ_cons, ← ih hj]

theorem takeWhile_ne_eq_self_iff {c : Char} {s : CxxString} :
    s.takeWhile (· != c) = s ↔ c ∉ s := by
  rw [List.takeWhile_eq_self_iff]
  constructor
  · intro h hm
    simpa using h c hm
  · intro h d hd
    simpa using fun he : d = c => h (he ▸ hd)

theorem isSpace_of_isDigit {c : Char} (h : c.isDigit = true) : isSpace c = false := by
  simp only [Char.isDigit, Bool.and_eq_true, decide_eq_true_eq] at h
  simp only [isSpace, Bool.or_eq_false_iff, beq_eq_false_iff_ne, Bool.and_eq_false_iff,
    decide_eq_false_iff_not]
  refine ⟨fun he => absurd h.1 (by rw [he]; decide), Or.inr ?_⟩
  have hlow : 48 ≤ c.toNat := h.1
  omega

theorem readSign_of_digit {c : Char} (h : c.isDigit = true) (s : CxxString) :
    readSign (c :: s) = (false, c :: s) := by
  unfold readSign
  split
  · rename_i heq
    rw [(List.cons.inj heq).1] at h
    exact absurd h (by decide)
  · rename_i heq
    rw [(List.cons.inj heq).1] at h
    exact absurd h (by decide)
  · rfl

theorem stoi_ofInt {i : Int} (h0 : 0 ≤ i) (hlt : i < 2 ^ 31) : stoi (ofInt i) = some i := by
  rw [ofInt_of_nonneg h0]
  have hdigit : ∀ c ∈ Nat.toDigits 10 i.toNat, c.isDigit = true := fun c hc =>
    isDigit_of_mem_toDigits hc
  have hvalue : digitsValue (Nat.toDigits 10 i.toNat) = i.toNat :=
    Nat.ofDigitChars_toDigits (by decide) (by decide)
  cases hd : Nat.toDigits 10 i.toNat with
  | nil => exact absurd hd Nat.toDigits_ne_nil
  | cons c cs =>
    rw [hd] at hdigit hvalue
    have hc := hdigit c List.mem_cons_self
    have hspace := isSpace_of_isDigit hc
    have hsign := readSign_of_digit hc cs
    have hrun : (c :: cs).takeWhile Char.isDigit = c :: cs := List.takeWhile_eq_self_iff.mpr hdigit
    unfold stoi readInteger
    rw [List.dropWhile_cons_of_neg (by simp [hspace]), hsign]
    simp only [hrun, hvalue, reduceCtorEq, if_false, Bool.false_eq_true]
    rw [if_pos ⟨by omega, by omega⟩]
    congr 1
    omega

end CxxString
