import Mathlib

/-!
# JSON texts in UTF-16 units

A parser after RFC 8259: a string holds the units that its literal stands for, a number is an
integer of 64 bits or else a double (as `-0` is), whose value is left out. The fuel bounds the depth of the
recursion. No string in a value is longer than its literal in the text.
-/

namespace Json

set_option autoImplicit false

abbrev Text := List UInt16

inductive Value where
  | null
  | bool (b : Bool)
  | int (i : Int)
  | double
  | string (s : Text)
  | array (items : List Value)
  | object (members : List (Text × Value))

/-- Space, tab, line feed and carriage return. -/
def isSpace (u : UInt16) : Bool := u == 32 || u == 9 || u == 10 || u == 13

def skipSpace (t : Text) : Text := t.dropWhile isSpace

/-- What follows the unit, if the text goes on with it after some space. -/
def expect (u : UInt16) (t : Text) : Option Text :=
  match skipSpace t with
  | [] => none
  | v :: t => if v = u then some t else none

def hexValue (u : UInt16) : Option UInt16 :=
  if 48 ≤ u ∧ u ≤ 57 then some (u - 48)
  else if 97 ≤ u ∧ u ≤ 102 then some (u - 87)
  else if 65 ≤ u ∧ u ≤ 70 then some (u - 55)
  else none

/-- The unit that four hexadecimal digits stand for. -/
def unicodeEscape (a b c d : UInt16) : Option UInt16 :=
  match hexValue a, hexValue b, hexValue c, hexValue d with
  | some a, some b, some c, some d => some (a * 4096 + b * 256 + c * 16 + d)
  | _, _, _, _ => none

/-- The unit that a backslash and `u` stand for. -/
def shortEscape (u : UInt16) : Option UInt16 :=
  if u = 34 ∨ u = 92 ∨ u = 47 then some u
  else if u = 98 then some 8
  else if u = 102 then some 12
  else if u = 110 then some 10
  else if u = 114 then some 13
  else if u = 116 then some 9
  else none

def prepend (u : UInt16) (p : Text × Text) : Text × Text := (u :: p.1, p.2)

/-- The rest of a string after its opening quote, and what follows the closing one. -/
def readString : Text → Option (Text × Text)
  | [] => none
  | u :: t =>
    if u = 34 then some ([], t)
    else if u = 92 then
      match t with
      | [] => none
      | e :: t =>
        if e = 117 then
          match t with
          | a :: b :: c :: d :: t =>
            match unicodeEscape a b c d with
            | some v => (readString t).map (prepend v)
            | none => none
          | _ => none
        else
          match shortEscape e with
          | some v => (readString t).map (prepend v)
          | none => none
    else if u < 32 then none
    else (readString t).map (prepend u)

def isDigit (u : UInt16) : Bool := 48 ≤ u && u ≤ 57

def digitsValue (ds : Text) : Nat := ds.foldl (fun n u => 10 * n + (u.toNat - 48)) 0

/-- The text after the digits at its start, of which there is at least one. -/
def skipDigits (t : Text) : Option Text :=
  if t.takeWhile isDigit = [] then none else some (t.dropWhile isDigit)

/-- Whether a fraction is there, and what follows it. -/
def readFraction (t : Text) : Option (Bool × Text) :=
  if t.head? = some 46 then (skipDigits t.tail).map fun t => (true, t) else some (false, t)

/-- Whether an exponent is there, and what follows it. -/
def readExponent (t : Text) : Option (Bool × Text) :=
  if t.head? = some 101 ∨ t.head? = some 69 then
    let t := t.tail
    let t := if t.head? = some 43 ∨ t.head? = some 45 then t.tail else t
    (skipDigits t).map fun t => (true, t)
  else some (false, t)

def integer (negative : Bool) (ds : Text) : Int :=
  if negative then -(digitsValue ds : Int) else digitsValue ds

def readNumber (t : Text) : Option (Value × Text) :=
  let negative := t.head? == some 45
  let t := if negative then t.tail else t
  let ds := t.takeWhile isDigit
  if ds = [] ∨ ds.head? = some 48 ∧ ds.length ≠ 1 then none
  else
    match readFraction (t.dropWhile isDigit) with
    | none => none
    | some (fraction, t) =>
      match readExponent t with
      | none => none
      | some (exponent, t) =>
        let i := integer negative ds
        if fraction = false ∧ exponent = false ∧ ¬(negative = true ∧ i = 0) ∧
            -(2 ^ 63) ≤ i ∧ i < 2 ^ 63 then some (.int i, t)
        else some (.double, t)

/-- The units of characters of the first plane. -/
def units (cs : List Char) : Text := cs.map fun c => UInt16.ofNat c.toNat

def word (s : String) : Text := units s.toList

def readWord (w : Text) (v : Value) (t : Text) : Option (Value × Text) :=
  if w.isPrefixOf t then some (v, t.drop w.length) else none

/-- A value that is no string, object or array. -/
def readScalar (t : Text) : Option (Value × Text) :=
  (readWord (word "null") .null t).or ((readWord (word "true") (.bool true) t).or
    ((readWord (word "false") (.bool false) t).or (readNumber t)))

mutual

def readValue : Nat → Text → Option (Value × Text)
  | 0, _ => none
  | fuel + 1, t =>
    match expect 34 t with
    | some t => (readString t).map fun p => (.string p.1, p.2)
    | none =>
      match expect 123 t with
      | some t =>
        match expect 125 t with
        | some t => some (.object [], t)
        | none => (readMembers fuel t).map fun p => (.object p.1, p.2)
      | none =>
        match expect 91 t with
        | some t =>
          match expect 93 t with
          | some t => some (.array [], t)
          | none => (readItems fuel t).map fun p => (.array p.1, p.2)
        | none => readScalar (skipSpace t)

def readMembers : Nat → Text → Option (List (Text × Value) × Text)
  | 0, _ => none
  | fuel + 1, t =>
    (expect 34 t).bind fun t =>
    (readString t).bind fun p =>
    (expect 58 p.2).bind fun t =>
    (readValue fuel t).bind fun q =>
    match expect 125 q.2 with
    | some t => some ([(p.1, q.1)], t)
    | none => ((expect 44 q.2).bind (readMembers fuel)).map fun r => ((p.1, q.1) :: r.1, r.2)

def readItems : Nat → Text → Option (List Value × Text)
  | 0, _ => none
  | fuel + 1, t =>
    (readValue fuel t).bind fun q =>
    match expect 93 q.2 with
    | some t => some ([q.1], t)
    | none => ((expect 44 q.2).bind (readItems fuel)).map fun r => (q.1 :: r.1, r.2)

end

/-- A text that is one value, with space around it. -/
def decode (t : Text) : Option Value :=
  match readValue (2 * t.length + 2) t with
  | none => none
  | some (v, t) => if skipSpace t = [] then some v else none

/-- The member of an object with the key; a later one takes the place of an earlier one. -/
def field (key : Text) : List (Text × Value) → Option Value
  | [] => none
  | (k, v) :: members =>
    match field key members with
    | some w => some w
    | none => if k = key then some v else none

/-- The units stand for themselves in a string literal. -/
def Plain (s : Text) : Prop := ∀ u ∈ s, 32 ≤ u ∧ u ≠ 34 ∧ u ≠ 92

instance (s : Text) : Decidable (Plain s) := inferInstanceAs (Decidable (∀ u ∈ s, _))

/-- The string occurs in the value. -/
inductive Value.Has (s : Text) : Value → Prop
  | here : Has s (.string s)
  | item {items : List Value} {v : Value} (hmem : v ∈ items) (h : Has s v) : Has s (.array items)
  | member {members : List (Text × Value)} {key : Text} {v : Value} (hmem : (key, v) ∈ members)
    (h : Has s v) : Has s (.object members)

theorem length_skipSpace_le (t : Text) : (skipSpace t).length ≤ t.length :=
  (List.dropWhile_suffix isSpace).length_le

theorem length_of_expect {u : UInt16} {t r : Text} (h : expect u t = some r) :
    r.length + 1 ≤ t.length := by
  have hle := length_skipSpace_le t
  unfold expect at h
  split at h
  · cases h
  · rename_i v rest heq
    split at h
    · cases h
      rw [heq] at hle
      exact hle
    · cases h

theorem expect_cons {u v : UInt16} (hv : isSpace v = false) (t : Text) :
    expect u (v :: t) = if v = u then some t else none := by
  have hskip : skipSpace (v :: t) = v :: t := List.dropWhile_cons_of_neg (by simp [hv])
  unfold expect
  rw [hskip]

/-- A literal is longer than its string by the closing quote, and by more if it has escapes. -/
theorem readString_bound {t s r : Text} (h : readString t = some (s, r)) :
    s.length + 1 + r.length ≤ t.length ∧
      (t.length = s.length + 1 + r.length → t = s ++ 34 :: r ∧ Plain s) := by
  induction hn : t.length using Nat.strong_induction_on generalizing t s r with
  | _ n ih =>
    subst hn
    -- an escape takes more units than the one it stands for
    have hescape : ∀ {t' : Text} {v : UInt16}, t'.length + 2 ≤ t.length →
        (readString t').map (prepend v) = some (s, r) →
        s.length + 1 + r.length ≤ t.length ∧
          (t.length = s.length + 1 + r.length → t = s ++ 34 :: r ∧ Plain s) := by
      intro t' v hlt hmap
      obtain ⟨⟨s', r'⟩, hread, heq⟩ := Option.map_eq_some_iff.mp hmap
      cases heq
      have hbound := (ih t'.length (by omega) hread rfl).1
      refine ⟨?_, ?_⟩
      · simp only [List.length_cons]
        omega
      · intro hlen
        simp only [List.length_cons] at hlen
        omega
    cases t with
    | nil => cases h
    | cons u t =>
      rw [readString.eq_def] at h
      simp only at h
      split at h
      · rename_i hquote
        cases h
        refine ⟨?_, fun _ => ⟨by rw [hquote]; rfl, ?_⟩⟩
        · simp only [List.length_nil, List.length_cons]
          omega
        intro v hv
        exact absurd hv List.not_mem_nil
      · rename_i hquote
        split at h
        · split at h
          · cases h
          split at h
          · split at h
            · split at h
              · exact hescape (by simp) h
              · cases h
            · cases h
          · split at h
            · exact hescape (by simp) h
            · cases h
        · rename_i hslash
          split at h
          · cases h
          · rename_i hcontrol
            obtain ⟨⟨s', r'⟩, hread, heq⟩ := Option.map_eq_some_iff.mp h
            cases heq
            obtain ⟨hle, hplain⟩ := ih t.length (by simp) hread rfl
            refine ⟨?_, ?_⟩
            · simp only [List.length_cons]
              omega
            · intro hlen
              simp only [List.length_cons] at hlen
              obtain ⟨rfl, hs⟩ := hplain (by omega)
              refine ⟨rfl, ?_⟩
              intro v hv
              rcases List.mem_cons.mp hv with rfl | hv
              · exact ⟨UInt16.not_lt.mp hcontrol, hquote, hslash⟩
              · exact hs v hv

/-- A string of plain units is read from the literal that repeats it. -/
theorem readString_plain {s : Text} (h : Plain s) (r : Text) :
    readString (s ++ 34 :: r) = some (s, r) := by
  induction s with
  | nil =>
    rw [readString.eq_def]
    rfl
  | cons u s ih =>
    obtain ⟨hcontrol, hquote, hslash⟩ := h u List.mem_cons_self
    have hrest := ih fun v hv => h v (List.mem_cons_of_mem u hv)
    rw [List.cons_append, readString.eq_def]
    simp only [if_neg hquote, if_neg hslash, if_neg (UInt16.not_lt.mpr hcontrol), hrest]
    rfl

theorem length_skipDigits {t r : Text} (h : skipDigits t = some r) : r.length ≤ t.length := by
  unfold skipDigits at h
  split at h
  · cases h
  · cases h
    exact (List.dropWhile_suffix isDigit).length_le

theorem length_readFraction {t r : Text} {b : Bool} (h : readFraction t = some (b, r)) :
    r.length ≤ t.length := by
  unfold readFraction at h
  split at h
  · obtain ⟨r', hr, heq⟩ := Option.map_eq_some_iff.mp h
    cases heq
    have := length_skipDigits hr
    have := List.length_tail (l := t)
    omega
  · cases h
    exact Nat.le_refl _

theorem length_readExponent {t r : Text} {b : Bool} (h : readExponent t = some (b, r)) :
    r.length ≤ t.length := by
  unfold readExponent at h
  split at h
  · obtain ⟨r', hr, heq⟩ := Option.map_eq_some_iff.mp h
    cases heq
    have hdigits := length_skipDigits hr
    have htail : ∀ l : Text, l.tail.length ≤ l.length := fun l => by
      rw [List.length_tail]
      omega
    split at hdigits
    · exact hdigits.trans ((htail _).trans (htail _))
    · exact hdigits.trans (htail _)
  · cases h
    exact Nat.le_refl _

theorem readNumber_bound {t r : Text} {v : Value} (h : readNumber t = some (v, r)) :
    r.length < t.length ∧ ∀ s, ¬v.Has s := by
  unfold readNumber at h
  simp only at h
  generalize ht' : (if (t.head? == some 45) = true then t.tail else t) = t' at h
  have hle : t'.length ≤ t.length := by
    rw [← ht']
    split
    · rw [List.length_tail]
      omega
    · exact Nat.le_refl _
  split at h
  · cases h
  rename_i hdigits
  have hpos : 0 < (t'.takeWhile isDigit).length := by
    apply List.length_pos_iff.mpr
    intro hnil
    exact hdigits (Or.inl hnil)
  have hsplit := congrArg List.length (List.takeWhile_append_dropWhile (p := isDigit) (l := t'))
  rw [List.length_append] at hsplit
  split at h
  · cases h
  rename_i hfraction
  have h₁ := length_readFraction hfraction
  split at h
  · cases h
  rename_i hexponent
  have h₂ := length_readExponent hexponent
  split at h
  · cases h
    exact ⟨by omega, fun s hs => by cases hs⟩
  · cases h
    exact ⟨by omega, fun s hs => by cases hs⟩

theorem readScalar_bound {t r : Text} {v : Value} (h : readScalar t = some (v, r)) :
    r.length < t.length ∧ ∀ s, ¬v.Has s := by
  have hword : ∀ {w : Text} {v' : Value}, w ≠ [] → (∀ s, ¬v'.Has s) →
      readWord w v' t = some (v, r) → r.length < t.length ∧ ∀ s, ¬v.Has s := by
    intro w v' hne hv hread
    unfold readWord at hread
    split at hread
    · rename_i hpre
      cases hread
      have hlen := (List.isPrefixOf_iff_prefix.mp hpre).length_le
      have hpos := List.length_pos_iff.mpr hne
      refine ⟨?_, hv⟩
      rw [List.length_drop]
      omega
    · cases hread
  unfold readScalar at h
  rcases Option.or_eq_some_iff.mp h with h | ⟨-, h⟩
  · exact hword (by decide) (fun s hs => by cases hs) h
  rcases Option.or_eq_some_iff.mp h with h | ⟨-, h⟩
  · exact hword (by decide) (fun s hs => by cases hs) h
  rcases Option.or_eq_some_iff.mp h with h | ⟨-, h⟩
  · exact hword (by decide) (fun s hs => by cases hs) h
  · exact readNumber_bound h

/-- What is read with some fuel is followed by less text, and its strings have room in what
was read. -/
structure Bounds (fuel : Nat) : Prop where
  value : ∀ {t v r}, readValue fuel t = some (v, r) →
    r.length < t.length ∧ ∀ s, v.Has s → s.length + 2 + r.length ≤ t.length
  members : ∀ {t ms r}, readMembers fuel t = some (ms, r) →
    ∀ s, (Value.object ms).Has s → s.length + 3 + r.length ≤ t.length
  members_lt : ∀ {t ms r}, readMembers fuel t = some (ms, r) → r.length < t.length
  items : ∀ {t vs r}, readItems fuel t = some (vs, r) →
    ∀ s, (Value.array vs).Has s → s.length + 3 + r.length ≤ t.length
  items_lt : ∀ {t vs r}, readItems fuel t = some (vs, r) → r.length < t.length

theorem bounds_value {fuel : Nat} (h : Bounds fuel) {t r : Text} {v : Value}
    (hread : readValue (fuel + 1) t = some (v, r)) :
    r.length < t.length ∧ ∀ s, v.Has s → s.length + 2 + r.length ≤ t.length := by
  rw [readValue] at hread
  split at hread
  · rename_i t₁ hquote
    have h₁ := length_of_expect hquote
    simp only [Option.map_eq_some_iff, Prod.mk.injEq, Prod.exists] at hread
    obtain ⟨s, r', hstring, rfl, rfl⟩ := hread
    have h₂ := (readString_bound hstring).1
    refine ⟨by omega, ?_⟩
    intro s' hs'
    cases hs'
    omega
  split at hread
  · rename_i t₁ hopen
    have h₁ := length_of_expect hopen
    split at hread
    · rename_i t₂ hclose
      have h₂ := length_of_expect hclose
      cases hread
      refine ⟨by omega, ?_⟩
      intro s hs
      cases hs with
      | member hmem _ => exact absurd hmem List.not_mem_nil
    · simp only [Option.map_eq_some_iff, Prod.mk.injEq, Prod.exists] at hread
      obtain ⟨ms, r', hmembers, rfl, rfl⟩ := hread
      have h₂ := h.members_lt hmembers
      refine ⟨by omega, ?_⟩
      intro s hs
      have h₃ := h.members hmembers s hs
      omega
  split at hread
  · rename_i t₁ hopen
    have h₁ := length_of_expect hopen
    split at hread
    · rename_i t₂ hclose
      have h₂ := length_of_expect hclose
      cases hread
      refine ⟨by omega, ?_⟩
      intro s hs
      cases hs with
      | item hmem _ => exact absurd hmem List.not_mem_nil
    · simp only [Option.map_eq_some_iff, Prod.mk.injEq, Prod.exists] at hread
      obtain ⟨vs, r', hitems, rfl, rfl⟩ := hread
      have h₂ := h.items_lt hitems
      refine ⟨by omega, ?_⟩
      intro s hs
      have h₃ := h.items hitems s hs
      omega
  · have h₁ := readScalar_bound hread
    have h₂ := length_skipSpace_le t
    refine ⟨by omega, ?_⟩
    intro s hs
    exact absurd hs (h₁.2 s)

/-- How an object goes on after the value of a member. -/
def Continues (fuel : Nat) (key : Text) (v : Value) (t : Text) (ms : List (Text × Value))
    (r : Text) : Prop :=
  expect 125 t = some r ∧ ms = [(key, v)] ∨
    expect 125 t = none ∧ ∃ t' ms', expect 44 t = some t' ∧
      readMembers fuel t' = some (ms', r) ∧ ms = (key, v) :: ms'

theorem readMembers_iff {fuel : Nat} {t r : Text} {ms : List (Text × Value)} :
    readMembers (fuel + 1) t = some (ms, r) ↔
      ∃ t₁ key t₂ t₃ v t₄, expect 34 t = some t₁ ∧ readString t₁ = some (key, t₂) ∧
        expect 58 t₂ = some t₃ ∧ readValue fuel t₃ = some (v, t₄) ∧
        Continues fuel key v t₄ ms r := by
  have hcontinue : ∀ {key : Text} {v : Value} {t : Text},
      (match expect 125 t with
        | some t => some ([(key, v)], t)
        | none => ((expect 44 t).bind (readMembers fuel)).map fun r => ((key, v) :: r.1, r.2)) =
        some (ms, r) ↔ Continues fuel key v t ms r := by
    intro key v t
    unfold Continues
    cases hclose : expect 125 t with
    | some t' => simp [eq_comm, and_comm]
    | none =>
      simp only [Option.map_eq_some_iff, Option.bind_eq_some_iff, Prod.mk.injEq, Prod.exists,
        reduceCtorEq, false_and, true_and, false_or]
      constructor
      · intro h
        obtain ⟨ms', r', ⟨t', hcomma, hread⟩, rfl, rfl⟩ := h
        exact ⟨t', ms', hcomma, hread, rfl⟩
      · intro h
        obtain ⟨t', ms', hcomma, hread, rfl⟩ := h
        exact ⟨ms', r, ⟨t', hcomma, hread⟩, rfl, rfl⟩
  rw [readMembers]
  simp only [Option.bind_eq_some_iff, Prod.exists, hcontinue]
  constructor
  · intro h
    obtain ⟨t₁, h₁, key, t₂, h₂, t₃, h₃, v, t₄, h₄, h₅⟩ := h
    exact ⟨t₁, key, t₂, t₃, v, t₄, h₁, h₂, h₃, h₄, h₅⟩
  · intro h
    obtain ⟨t₁, key, t₂, t₃, v, t₄, h₁, h₂, h₃, h₄, h₅⟩ := h
    exact ⟨t₁, h₁, key, t₂, h₂, t₃, h₃, v, t₄, h₄, h₅⟩

theorem bounds_members {fuel : Nat} (h : Bounds fuel) {t r : Text} {ms : List (Text × Value)}
    (hread : readMembers (fuel + 1) t = some (ms, r)) :
    r.length < t.length ∧
      ∀ s, (Value.object ms).Has s → s.length + 3 + r.length ≤ t.length := by
  obtain ⟨t₁, key, t₂, t₃, v, t₄, h₁, h₂, h₃, h₄, h₅⟩ := readMembers_iff.mp hread
  have hopen := length_of_expect h₁
  have hkey := (readString_bound h₂).1
  have hcolon := length_of_expect h₃
  have hvalue := h.value h₄
  rcases h₅ with ⟨hclose, rfl⟩ | ⟨-, t', ms', hcomma, hmore, rfl⟩
  · have hend := length_of_expect hclose
    refine ⟨by omega, ?_⟩
    intro s hs
    cases hs with
    | member hmem hv =>
      cases List.mem_singleton.mp hmem
      have := hvalue.2 s hv
      omega
  · have hnext := length_of_expect hcomma
    have hlt := h.members_lt hmore
    refine ⟨by omega, ?_⟩
    intro s hs
    cases hs with
    | member hmem hv =>
      rcases List.mem_cons.mp hmem with heq | hmem
      · cases heq
        have := hvalue.2 s hv
        omega
      · have := h.members hmore s (.member hmem hv)
        omega

theorem bounds_items {fuel : Nat} (h : Bounds fuel) {t r : Text} {vs : List Value}
    (hread : readItems (fuel + 1) t = some (vs, r)) :
    r.length < t.length ∧
      ∀ s, (Value.array vs).Has s → s.length + 3 + r.length ≤ t.length := by
  rw [readItems] at hread
  obtain ⟨⟨v, t₁⟩, h₁, hrest⟩ := Option.bind_eq_some_iff.mp hread
  have hvalue := h.value h₁
  simp only at hrest
  split at hrest
  · rename_i t₂ hclose
    cases hrest
    have hend := length_of_expect hclose
    refine ⟨by omega, ?_⟩
    intro s hs
    cases hs with
    | item hmem hv =>
      cases List.mem_singleton.mp hmem
      have := hvalue.2 s hv
      omega
  · simp only [Option.map_eq_some_iff, Prod.mk.injEq, Prod.exists] at hrest
    obtain ⟨vs', r', hbind, rfl, rfl⟩ := hrest
    obtain ⟨t', hcomma, hmore⟩ := Option.bind_eq_some_iff.mp hbind
    have hnext := length_of_expect hcomma
    have hlt := h.items_lt hmore
    refine ⟨by omega, ?_⟩
    intro s hs
    cases hs with
    | item hmem hv =>
      rcases List.mem_cons.mp hmem with heq | hmem
      · subst heq
        have := hvalue.2 s hv
        omega
      · have := h.items hmore s (.item hmem hv)
        omega

/-- By induction on the fuel, over values, members and items at once. -/
theorem bounds (fuel : Nat) : Bounds fuel := by
  induction fuel with
  | zero =>
    constructor
    · intro t v r h
      cases h
    · intro t ms r h
      cases h
    · intro t ms r h
      cases h
    · intro t vs r h
      cases h
    · intro t vs r h
      cases h
  | succ fuel ih =>
    constructor
    · intro t v r h
      exact bounds_value ih h
    · intro t ms r h
      exact (bounds_members ih h).2
    · intro t ms r h
      exact (bounds_members ih h).1
    · intro t vs r h
      exact (bounds_items ih h).2
    · intro t vs r h
      exact (bounds_items ih h).1

theorem mem_of_field {key : Text} {v : Value} {ms : List (Text × Value)}
    (h : field key ms = some v) : (key, v) ∈ ms := by
  induction ms with
  | nil => cases h
  | cons m ms ih =>
    obtain ⟨k, w⟩ := m
    rw [field] at h
    split at h
    · rename_i w' hlater
      cases h
      exact List.mem_cons_of_mem _ (ih hlater)
    · split at h
      · rename_i hkey
        cases h
        rw [hkey]
        exact List.mem_cons_self
      · cases h

theorem field_cons_of_ne {k key : Text} (h : k ≠ key) (v : Value) (ms : List (Text × Value)) :
    field key ((k, v) :: ms) = field key ms := by
  rw [field]
  cases field key ms with
  | none => exact if_neg h
  | some w => rfl

/-- The strings of an object are those of its first value, or they stand after it. -/
theorem Continues.has {fuel : Nat} {key t r : Text} {v : Value} {ms : List (Text × Value)}
    (h : Continues fuel key v t ms r) :
    r.length + 1 ≤ t.length ∧
      ∀ s, (Value.object ms).Has s → v.Has s ∨ s.length + 4 + r.length ≤ t.length := by
  rcases h with ⟨hclose, rfl⟩ | ⟨-, t', ms', hcomma, hmore, rfl⟩
  · refine ⟨length_of_expect hclose, ?_⟩
    intro s hs
    cases hs with
    | member hmem hv =>
      cases List.mem_singleton.mp hmem
      exact Or.inl hv
  · have hnext := length_of_expect hcomma
    have hlt := (bounds fuel).members_lt hmore
    refine ⟨by omega, ?_⟩
    intro s hs
    cases hs with
    | member hmem hv =>
      rcases List.mem_cons.mp hmem with heq | hmem
      · cases heq
        exact Or.inl hv
      · have hbound := (bounds fuel).members hmore s (.member hmem hv)
        right
        omega

theorem continues_close {fuel : Nat} {key : Text} {v : Value} (t : Text) :
    Continues fuel key v (125 :: t) [(key, v)] t := by
  left
  exact ⟨by rw [expect_cons (by decide), if_pos rfl], rfl⟩

theorem continues_comma_iff {fuel : Nat} {key t r : Text} {v : Value} {ms : List (Text × Value)} :
    Continues fuel key v (44 :: t) ms r ↔
      ∃ ms', readMembers fuel t = some (ms', r) ∧ ms = (key, v) :: ms' := by
  have hclose : expect 125 (44 :: t) = none := by
    rw [expect_cons (by decide), if_neg (by decide)]
  have hcomma : expect 44 (44 :: t) = some t := by
    rw [expect_cons (by decide), if_pos rfl]
  unfold Continues
  rw [hclose, hcomma]
  constructor
  · intro h
    rcases h with ⟨hnone, _⟩ | ⟨_, t', ms', heq, hread, hms⟩
    · cases hnone
    · cases heq
      exact ⟨ms', hread, hms⟩
  · intro h
    obtain ⟨ms', hread, hms⟩ := h
    exact Or.inr ⟨rfl, t, ms', rfl, hread, hms⟩

/-- A member with a plain key, written without space. -/
theorem readMembers_key_iff {fuel : Nat} {key : Text} (hkey : Plain key) {t r : Text}
    {ms : List (Text × Value)} :
    readMembers (fuel + 1) (34 :: (key ++ 34 :: 58 :: t)) = some (ms, r) ↔
      ∃ v t', readValue fuel t = some (v, t') ∧ Continues fuel key v t' ms r := by
  have hquote : expect 34 (34 :: (key ++ 34 :: 58 :: t)) = some (key ++ 34 :: 58 :: t) := by
    rw [expect_cons (by decide), if_pos rfl]
  have hcolon : expect 58 (58 :: t) = some t := by
    rw [expect_cons (by decide), if_pos rfl]
  rw [readMembers_iff]
  constructor
  · intro h
    obtain ⟨t₁, key', t₂, t₃, v, t₄, h₁, h₂, h₃, h₄, h₅⟩ := h
    rw [hquote] at h₁
    cases h₁
    rw [readString_plain hkey] at h₂
    cases h₂
    rw [hcolon] at h₃
    cases h₃
    exact ⟨v, t₄, h₄, h₅⟩
  · intro h
    obtain ⟨v, t', hv, hcontinue⟩ := h
    exact ⟨_, key, _, t, v, t', hquote, readString_plain hkey _, hcolon, hv, hcontinue⟩

theorem readValue_string (fuel : Nat) (t : Text) :
    readValue (fuel + 1) (34 :: t) = (readString t).map fun p => (.string p.1, p.2) := by
  rw [readValue, expect_cons (by decide), if_pos rfl]

theorem readValue_object (fuel : Nat) (t : Text) :
    readValue (fuel + 1) (123 :: 34 :: t) =
      (readMembers fuel (34 :: t)).map fun p => (.object p.1, p.2) := by
  rw [readValue, expect_cons (by decide), if_neg (by decide)]
  simp only [expect_cons (show isSpace 123 = false by decide),
    expect_cons (show isSpace 34 = false by decide), if_true]
  rfl

/-- The text of an object that starts with a string member. -/
def memberText (key value rest : Text) : Text :=
  123 :: 34 :: (key ++ 34 :: 58 :: 34 :: (value ++ 34 :: rest))

theorem readValue_memberText_iff (n : Nat) {key value rest r : Text} (hkey : Plain key)
    (hvalue : Plain value) {v : Value} :
    readValue (n + 3) (memberText key value rest) = some (v, r) ↔
      ∃ ms, Continues (n + 1) key (.string value) rest ms r ∧ v = .object ms := by
  unfold memberText
  rw [readValue_object]
  simp only [Option.map_eq_some_iff, Prod.exists, Prod.mk.injEq, readMembers_key_iff hkey,
    readValue_string, readString_plain hvalue, Option.map_some, Option.some.injEq]
  constructor
  · intro h
    obtain ⟨ms, _, ⟨_, _, ⟨rfl, rfl⟩, hcontinue⟩, rfl, rfl⟩ := h
    exact ⟨ms, hcontinue, rfl⟩
  · intro h
    obtain ⟨ms, hcontinue, rfl⟩ := h
    exact ⟨ms, r, ⟨_, _, ⟨rfl, rfl⟩, hcontinue⟩, rfl, rfl⟩

/-- An object with one string is read back, whatever follows it. -/
theorem readValue_single (n : Nat) {key value : Text} (hkey : Plain key) (hvalue : Plain value)
    (r : Text) :
    readValue (n + 3) (memberText key value (125 :: r)) =
      some (.object [(key, .string value)], r) :=
  (readValue_memberText_iff n hkey hvalue).mpr ⟨_, continues_close r, rfl⟩

theorem memberText_append (key value rest r : Text) :
    memberText key value rest ++ r = memberText key value (rest ++ r) := by
  simp only [memberText, List.append_assoc, List.cons_append]

/-- ASCII characters that stand for themselves in a string literal. -/
def plainChar (c : Char) : Bool :=
  32 ≤ c.toNat && c.toNat < 128 && c != '"' && c != '\\'

theorem plain_units {cs : List Char} (h : cs.all plainChar = true) : Plain (units cs) := by
  intro u hu
  obtain ⟨c, hc, rfl⟩ := List.mem_map.mp hu
  have hchar := List.all_eq_true.mp h c hc
  simp only [plainChar, Bool.and_eq_true, decide_eq_true_eq, bne_iff_ne] at hchar
  obtain ⟨⟨⟨hlow, hhigh⟩, hquote⟩, hslash⟩ := hchar
  have hnat : (UInt16.ofNat c.toNat).toNat = c.toNat := by
    rw [UInt16.toNat_ofNat']
    omega
  have hne : ∀ d : Char, c ≠ d → d.toNat < 128 → UInt16.ofNat c.toNat ≠ UInt16.ofNat d.toNat := by
    intro d hd hlt heq
    have hunits := congrArg UInt16.toNat heq
    rw [hnat, UInt16.toNat_ofNat'] at hunits
    apply hd
    apply Char.toNat_inj.mp
    omega
  refine ⟨?_, hne '"' hquote (by decide), hne '\\' hslash (by decide)⟩
  rw [UInt16.le_iff_toNat_le, hnat]
  exact hlow

theorem plain_word {s : String} (h : s.toList.all plainChar = true) : Plain (word s) :=
  plain_units h

theorem toNat_of_isDigit {c : Char} (h : c.isDigit = true) :
    (UInt16.ofNat c.toNat).toNat = c.toNat ∧ 48 ≤ c.toNat ∧ c.toNat ≤ 57 := by
  simp only [Char.isDigit, Bool.and_eq_true, decide_eq_true_eq] at h
  have hlow : 48 ≤ c.toNat := h.1
  have hhigh : c.toNat ≤ 57 := h.2
  refine ⟨?_, hlow, hhigh⟩
  rw [UInt16.toNat_ofNat']
  omega

theorem isDigit_unit {c : Char} (h : c.isDigit = true) :
    isDigit (UInt16.ofNat c.toNat) = true := by
  obtain ⟨heq, hlow, hhigh⟩ := toNat_of_isDigit h
  simp only [isDigit, Bool.and_eq_true, decide_eq_true_eq, UInt16.le_iff_toNat_le, heq]
  exact ⟨hlow, hhigh⟩

theorem digitsValue_units {cs : List Char} (h : ∀ c ∈ cs, c.isDigit = true) :
    digitsValue (units cs) = Nat.ofDigitChars 10 cs 0 := by
  unfold digitsValue units Nat.ofDigitChars
  rw [List.foldl_map]
  apply List.foldl_ext
  intro n c hc
  rw [(toNat_of_isDigit (h c hc)).1]
  rfl

/-- No decimal number but zero starts with `0`. -/
theorem head_toDigits {n : Nat} (h : (Nat.toDigits 10 n).head? = some '0') : n = 0 := by
  induction n using Nat.strong_induction_on with
  | _ n ih =>
    rw [Nat.toDigits_eq_if (by decide)] at h
    split at h
    · rename_i hlt
      have hdigit := Option.some.inj h
      have hall : ∀ k : Fin 10, Nat.digitChar k = '0' → (k : Nat) = 0 := by decide
      exact hall ⟨n, hlt⟩ hdigit
    · rename_i hge
      rw [List.head?_append_of_ne_nil _ Nat.toDigits_ne_nil] at h
      have hzero := ih (n / 10) (by omega) h
      omega

theorem takeWhile_isDigit_units {cs : List Char} (h : ∀ c ∈ cs, c.isDigit = true) (t : Text) :
    (units cs ++ 125 :: t).takeWhile isDigit = units cs ∧
      (units cs ++ 125 :: t).dropWhile isDigit = 125 :: t := by
  have hdigits : ∀ u ∈ units cs, isDigit u = true := by
    intro u hu
    obtain ⟨c, hc, rfl⟩ := List.mem_map.mp hu
    exact isDigit_unit (h c hc)
  rw [List.takeWhile_append_of_pos hdigits, List.dropWhile_append_of_pos hdigits,
    List.takeWhile_cons_of_neg (by decide), List.dropWhile_cons_of_neg (by decide),
    List.append_nil]
  exact ⟨rfl, rfl⟩

/-- A printed number has a digit in front, which is no leading zero. -/
theorem units_toDigits (n : Nat) : ∃ u us, units (Nat.toDigits 10 n) = u :: us ∧
    isDigit u = true ∧ (u = 48 → us = []) := by
  obtain ⟨c, cs, hcs⟩ := List.exists_cons_of_ne_nil (Nat.toDigits_ne_nil (b := 10) (n := n))
  have hc : c.isDigit = true := Nat.isDigit_of_mem_toDigits (b := 10) (n := n) (by omega)
    (Nat.le_refl _) (by rw [hcs]; exact List.mem_cons_self)
  refine ⟨UInt16.ofNat c.toNat, units cs, by rw [hcs]; rfl, isDigit_unit hc, ?_⟩
  intro hzero
  have hnat := congrArg UInt16.toNat hzero
  rw [(toNat_of_isDigit hc).1] at hnat
  have hchar : c = '0' := Char.toNat_inj.mp hnat
  have hn : n = 0 := head_toDigits (by rw [hcs, hchar]; rfl)
  rw [hn, Nat.toDigits_zero, hchar] at hcs
  cases hcs
  rfl

/-- A printed integer at the end of an object is read back. -/
theorem readNumber_toDigits (negative : Bool) (n : Nat) (hzero : negative = true → n ≠ 0)
    (hlow : -(2 ^ 63) ≤ if negative then -(n : Int) else n)
    (hhigh : (if negative then -(n : Int) else n) < 2 ^ 63) (t : Text) :
    readNumber ((if negative then [45] else []) ++ units (Nat.toDigits 10 n) ++ 125 :: t) =
      some (.int (if negative then -n else n), 125 :: t) := by
  have hdigits : ∀ c ∈ Nat.toDigits 10 n, c.isDigit = true := fun c hc =>
    Nat.isDigit_of_mem_toDigits (by omega) (Nat.le_refl _) hc
  have hvalue : digitsValue (units (Nat.toDigits 10 n)) = n := by
    rw [digitsValue_units hdigits]
    exact Nat.ofDigitChars_toDigits (by omega) (Nat.le_refl _)
  obtain ⟨htake, hdrop⟩ := takeWhile_isDigit_units hdigits t
  obtain ⟨u, us, hunits, hu, hfirst⟩ := units_toDigits n
  have hsign : u ≠ 45 := by
    rintro rfl
    cases hu
  have hlead : ¬(units (Nat.toDigits 10 n) = [] ∨ (units (Nat.toDigits 10 n)).head? = some 48 ∧
      (units (Nat.toDigits 10 n)).length ≠ 1) := by
    rw [hunits]
    rintro (hnil | ⟨hhead, hlen⟩)
    · cases hnil
    · rw [hfirst (Option.some.inj hhead)] at hlen
      exact hlen rfl
  have hrest : (if negative = true then ((if negative = true then [45] else []) ++
      units (Nat.toDigits 10 n) ++ 125 :: t).tail
      else (if negative = true then [45] else []) ++ units (Nat.toDigits 10 n) ++ 125 :: t) =
      units (Nat.toDigits 10 n) ++ 125 :: t := by
    cases negative <;> simp
  have hbool : (((if negative = true then [45] else []) ++ units (Nat.toDigits 10 n) ++
      125 :: t).head? == some 45) = negative := by
    rw [hunits]
    cases negative <;> simp [hsign]
  have hminus : ¬(negative = true ∧ (if negative = true then -(n : Int) else n) = 0) := by
    intro h
    rw [if_pos h.1] at h
    have hn := hzero h.1
    omega
  have hfraction : readFraction (125 :: t) = some (false, 125 :: t) := rfl
  have hexponent : readExponent (125 :: t) = some (false, 125 :: t) := rfl
  unfold readNumber
  simp only [hbool, hrest, htake, hdrop, if_neg hlead, hfraction, hexponent, integer, hvalue]
  rw [if_pos ⟨trivial, trivial, hminus, hlow, hhigh⟩]

/-- A value that starts as a number does is one. -/
theorem readValue_number (fuel : Nat) {u : UInt16} (hu : u = 45 ∨ isDigit u = true) (t : Text) :
    readValue (fuel + 1) (u :: t) = readNumber (u :: t) := by
  have hne : ∀ v : UInt16, (v == 45 || isDigit v) = false → u ≠ v := by
    rintro v hv rfl
    rw [Bool.or_eq_false_iff, beq_eq_false_iff_ne] at hv
    rcases hu with h | h
    · exact hv.1 h
    · rw [hv.2] at h
      cases h
  have hspace : isSpace u = false := by
    simp only [isSpace, Bool.or_eq_false_iff, beq_eq_false_iff_ne]
    exact ⟨⟨⟨hne 32 rfl, hne 9 rfl⟩, hne 10 rfl⟩, hne 13 rfl⟩
  have hword : ∀ (v : UInt16) (w : Text) (x : Value), u ≠ v →
      readWord (v :: w) x (u :: t) = none := by
    intro v w x hv
    have hpre : (v :: w).isPrefixOf (u :: t) = false := by
      simp [List.isPrefixOf, Ne.symm hv]
    rw [readWord, hpre]
    rfl
  have hskip : skipSpace (u :: t) = u :: t := List.dropWhile_cons_of_neg (by simp [hspace])
  rw [readValue, expect_cons hspace, if_neg (hne 34 rfl)]
  simp only [expect_cons hspace, if_neg (hne 123 rfl),
    if_neg (hne 91 rfl), hskip]
  have hnull := hword 110 (word "ull") .null (hne 110 rfl)
  have htrue := hword 116 (word "rue") (.bool true) (hne 116 rfl)
  have hfalse := hword 102 (word "alse") (.bool false) (hne 102 rfl)
  have hwords : word "null" = 110 :: word "ull" ∧ word "true" = 116 :: word "rue" ∧
      word "false" = 102 :: word "alse" := by decide
  unfold readScalar
  rw [hwords.1, hwords.2.1, hwords.2.2, hnull, htrue, hfalse]
  simp

end Json
