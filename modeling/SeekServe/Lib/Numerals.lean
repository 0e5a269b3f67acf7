import SeekServe.Lib.CxxString

/-!
# Texts around spaces, and texts that hold a number

What trimming takes off a text, and the shape of the texts from which `std::stoi` and
`std::stoll` read a number: both only look at the digits up to the first other character.
-/

namespace CxxString

set_option autoImplicit false

def spaces (n : Nat) : CxxString := List.replicate n ' '

/-- The text neither starts nor ends with a space. -/
def Trimmed (s : CxxString) : Prop := s.head? ≠ some ' ' ∧ s.getLast? ≠ some ' '

instance (s : CxxString) : Decidable (Trimmed s) := inferInstanceAs (Decidable (_ ∧ _))

theorem not_mem_of_digits {s : CxxString} (h : ∀ e ∈ s, e.isDigit = true) {c : Char}
    (hc : c.isDigit = false) : c ∉ s := by
  intro hm
  rw [h c hm] at hc
  cases hc

theorem trimmed_of_digits {s : CxxString} (h : ∀ e ∈ s, e.isDigit = true) : Trimmed s := by
  have hspace : ' ' ∉ s := not_mem_of_digits h rfl
  exact ⟨fun he => hspace (List.mem_of_head? he), fun he => hspace (List.mem_of_getLast? he)⟩

theorem mem_spaces {n : Nat} {c : Char} (h : c ∈ spaces n) : c = ' ' := List.eq_of_mem_replicate h

theorem reverse_spaces (n : Nat) : (spaces n).reverse = spaces n := List.reverse_replicate

theorem trimBack_eq_reverse (s : CxxString) : trimBack s = (trimFront s.reverse).reverse := rfl

theorem trimFront_spaces_append (n : Nat) (s : CxxString) :
    trimFront (spaces n ++ s) = trimFront s := by
  apply List.dropWhile_append_of_pos
  intro c hc
  exact beq_iff_eq.mpr (mem_spaces hc)

theorem trimFront_of_head {s : CxxString} (h : s.head? ≠ some ' ') : trimFront s = s := by
  cases s with
  | nil => rfl
  | cons c s =>
    apply List.dropWhile_cons_of_neg
    intro hc
    exact h (congrArg some (beq_iff_eq.mp hc))

theorem head_trimFront (s : CxxString) : (trimFront s).head? ≠ some ' ' := by
  intro h
  have hhead := List.head?_dropWhile_not (· == ' ') s
  have hsame : (s.dropWhile (· == ' ')).head? = some ' ' := h
  rw [hsame] at hhead
  exact absurd hhead (by decide)

theorem exists_spaces_append_trimFront (s : CxxString) : ∃ n, s = spaces n ++ trimFront s := by
  refine ⟨(s.takeWhile (· == ' ')).length, ?_⟩
  have hspaces : s.takeWhile (· == ' ') = spaces (s.takeWhile (· == ' ')).length := by
    apply List.eq_replicate_iff.mpr
    refine ⟨rfl, ?_⟩
    intro c hc
    exact beq_iff_eq.mp (List.mem_takeWhile_imp (p := fun d => d == ' ') hc)
  rw [← hspaces]
  exact List.takeWhile_append_dropWhile.symm

/-- Trimming stops at a character that is no space. -/
theorem trimFront_append_cons {c : Char} (hc : c ≠ ' ') (s t : CxxString) :
    trimFront (s ++ c :: t) = trimFront s ++ c :: t := by
  induction s with
  | nil => exact trimFront_of_head (s := c :: t) (fun h => hc (Option.some.inj h))
  | cons d s ih =>
    by_cases hd : d = ' '
    · subst d
      exact ih
    · have hhead : ∀ u : CxxString, (d :: u).head? ≠ some ' ' := fun u h => hd (Option.some.inj h)
      rw [List.cons_append, trimFront_of_head (hhead _), trimFront_of_head (hhead _),
        List.cons_append]

theorem trimBack_append_spaces (n : Nat) (s : CxxString) :
    trimBack (s ++ spaces n) = trimBack s := by
  rw [trimBack_eq_reverse, trimBack_eq_reverse, List.reverse_append, reverse_spaces,
    trimFront_spaces_append]

theorem trimBack_of_last {s : CxxString} (h : s.getLast? ≠ some ' ') : trimBack s = s := by
  rw [trimBack_eq_reverse, trimFront_of_head (by rwa [List.head?_reverse]), List.reverse_reverse]

theorem last_trimBack (s : CxxString) : (trimBack s).getLast? ≠ some ' ' := by
  rw [trimBack_eq_reverse, List.getLast?_reverse]
  exact head_trimFront s.reverse

theorem exists_trimBack_append_spaces (s : CxxString) : ∃ n, s = trimBack s ++ spaces n := by
  obtain ⟨n, hn⟩ := exists_spaces_append_trimFront s.reverse
  refine ⟨n, ?_⟩
  have h := congrArg List.reverse hn
  rwa [List.reverse_reverse, List.reverse_append, reverse_spaces] at h

theorem trimBack_append_cons {c : Char} (hc : c ≠ ' ') (s t : CxxString) :
    trimBack (s ++ c :: t) = s ++ c :: trimBack t := by
  have hrev : (s ++ c :: t).reverse = t.reverse ++ c :: s.reverse := by simp
  rw [trimBack_eq_reverse, hrev, trimFront_append_cons hc, trimBack_eq_reverse]
  simp

/-- What stands between spaces is what trimming at both ends leaves, in either order. -/
theorem trim_pad {s : CxxString} (h : Trimmed s) (m n : Nat) :
    trimBack (trimFront (spaces m ++ s ++ spaces n)) = s ∧
      trimFront (trimBack (spaces m ++ s ++ spaces n)) = s := by
  have hfront : trimBack (trimFront (s ++ spaces n)) = s := by
    cases s with
    | nil =>
      have hall := trimFront_spaces_append n []
      rw [List.append_nil] at hall
      rw [List.nil_append, hall]
      rfl
    | cons c s =>
      have hc : c ≠ ' ' := fun he => h.1 (congrArg some he)
      have hstop : trimFront (c :: s ++ spaces n) = c :: s ++ spaces n :=
        trimFront_of_head fun he => hc (Option.some.inj he)
      rw [hstop, trimBack_append_spaces, trimBack_of_last h.2]
  have hback : trimFront (trimBack (spaces m ++ s)) = s := by
    rcases List.eq_nil_or_concat' s with rfl | ⟨t, c, rfl⟩
    · have hall := trimBack_append_spaces m []
      rw [List.nil_append] at hall
      rw [List.append_nil, hall]
      rfl
    · have hlast : (spaces m ++ (t ++ [c])).getLast? ≠ some ' ' := by
        have hc := h.2
        rw [← List.append_assoc]
        simpa using hc
      rw [trimBack_of_last hlast, trimFront_spaces_append, trimFront_of_head h.1]
  refine ⟨?_, ?_⟩
  · rw [List.append_assoc, trimFront_spaces_append]
    exact hfront
  · rw [trimBack_append_spaces]
    exact hback

theorem head_trimBack {s : CxxString} (h : s.head? ≠ some ' ') :
    (trimBack s).head? ≠ some ' ' := by
  obtain ⟨n, hn⟩ := exists_trimBack_append_spaces s
  intro hhead
  apply h
  rw [hn, List.head?_append, hhead]
  rfl

theorem last_trimFront {s : CxxString} (h : s.getLast? ≠ some ' ') :
    (trimFront s).getLast? ≠ some ' ' := by
  obtain ⟨n, hn⟩ := exists_spaces_append_trimFront s
  intro hlast
  apply h
  rw [hn, List.getLast?_append, hlast]
  rfl

theorem exists_pad_front (s : CxxString) : ∃ m n,
    s = spaces m ++ trimBack (trimFront s) ++ spaces n ∧ Trimmed (trimBack (trimFront s)) := by
  obtain ⟨m, hm⟩ := exists_spaces_append_trimFront s
  obtain ⟨n, hn⟩ := exists_trimBack_append_spaces (trimFront s)
  refine ⟨m, n, ?_, head_trimBack (head_trimFront s), last_trimBack _⟩
  rw [List.append_assoc, ← hn]
  exact hm

theorem exists_pad_back (s : CxxString) : ∃ m n,
    s = spaces m ++ trimFront (trimBack s) ++ spaces n ∧ Trimmed (trimFront (trimBack s)) := by
  obtain ⟨n, hn⟩ := exists_trimBack_append_spaces s
  obtain ⟨m, hm⟩ := exists_spaces_append_trimFront (trimBack s)
  refine ⟨m, n, ?_, head_trimFront _, last_trimFront (last_trimBack s)⟩
  rw [← hm]
  exact hn

/-- A text that a number is read from: white space, a sign, digits, and what is left over. -/
structure Numeral where
  blank : CxxString
  sign : CxxString
  digits : CxxString
  rest : CxxString
  blank_isSpace : ∀ c ∈ blank, isSpace c = true
  sign_cases : sign = [] ∨ sign = ['+'] ∨ sign = ['-']
  digits_ne_nil : digits ≠ []
  digits_isDigit : ∀ c ∈ digits, c.isDigit = true
  rest_head : ∀ c, rest.head? = some c → c.isDigit = false

namespace Numeral

def text (n : Numeral) : CxxString := n.blank ++ (n.sign ++ (n.digits ++ n.rest))

def value (n : Numeral) : Int :=
  if n.sign = ['-'] then -(digitsValue n.digits) else digitsValue n.digits

/-- Nothing but digits. -/
def Clean (n : Numeral) : Prop := n.blank = [] ∧ n.sign = [] ∧ n.rest = []

theorem text_ne_nil (n : Numeral) : n.text ≠ [] := by
  intro h
  unfold text at h
  simp only [List.append_eq_nil_iff] at h
  exact n.digits_ne_nil h.2.2.1

theorem text_of_clean {n : Numeral} (h : n.Clean) : n.text = n.digits := by
  unfold text
  rw [h.1, h.2.1, h.2.2]
  simp

end Numeral

theorem takeWhile_isDigit_append {digits rest : CxxString}
    (hdigits : ∀ c ∈ digits, c.isDigit = true)
    (hrest : ∀ c, rest.head? = some c → c.isDigit = false) :
    (digits ++ rest).takeWhile Char.isDigit = digits := by
  rw [List.takeWhile_append_of_pos hdigits]
  cases rest with
  | nil => simp
  | cons c rest =>
    have hc := hrest c rfl
    rw [List.takeWhile_cons_of_neg (by simp [hc]), List.append_nil]

theorem dropWhile_isSpace_text (n : Numeral) :
    n.text.dropWhile isSpace = n.sign ++ (n.digits ++ n.rest) := by
  unfold Numeral.text
  rw [List.dropWhile_append_of_pos n.blank_isSpace]
  rcases n.sign_cases with hsign | hsign | hsign
  · cases hd : n.digits with
    | nil => exact absurd hd n.digits_ne_nil
    | cons c digits =>
      have hc := isSpace_of_isDigit (n.digits_isDigit c (by simp [hd]))
      rw [hsign]
      exact List.dropWhile_cons_of_neg (by simp [hc])
  · rw [hsign]
    exact List.dropWhile_cons_of_neg (by decide)
  · rw [hsign]
    exact List.dropWhile_cons_of_neg (by decide)

theorem readSign_sign_append (n : Numeral) :
    readSign (n.sign ++ (n.digits ++ n.rest)) = (decide (n.sign = ['-']), n.digits ++ n.rest) := by
  rcases n.sign_cases with hsign | hsign | hsign
  · cases hd : n.digits with
    | nil => exact absurd hd n.digits_ne_nil
    | cons c digits =>
      rw [hsign, List.nil_append, List.cons_append,
        readSign_of_digit (n.digits_isDigit c (by simp [hd]))]
      simp
  · rw [hsign]
    simp [readSign]
  · rw [hsign]
    simp [readSign]

theorem readInteger_text (lo hi : Int) (n : Numeral) :
    readInteger lo hi n.text = if lo ≤ n.value ∧ n.value ≤ hi then some n.value else none := by
  unfold readInteger
  rw [dropWhile_isSpace_text, readSign_sign_append]
  simp only [takeWhile_isDigit_append n.digits_isDigit n.rest_head, if_neg n.digits_ne_nil,
    decide_eq_true_eq]
  rfl

/-- A conversion that does not throw has read a numeral. -/
theorem exists_numeral_of_readInteger {lo hi : Int} {s : CxxString} {v : Int}
    (h : readInteger lo hi s = some v) : ∃ n : Numeral, n.text = s ∧ n.value = v := by
  have hblank : s.takeWhile isSpace ++ s.dropWhile isSpace = s := List.takeWhile_append_dropWhile
  have hspace : ∀ c ∈ s.takeWhile isSpace, isSpace c = true := fun c hc =>
    List.mem_takeWhile_imp hc
  -- the sign that was read, in front of what was read after it
  have hsign : ∃ sign : CxxString, (sign = [] ∨ sign = ['+'] ∨ sign = ['-']) ∧
      s.dropWhile isSpace = sign ++ (readSign (s.dropWhile isSpace)).2 ∧
      ((readSign (s.dropWhile isSpace)).1 = true ↔ sign = ['-']) := by
    generalize s.dropWhile isSpace = t
    unfold readSign
    split
    · exact ⟨['-'], Or.inr (Or.inr rfl), rfl, by simp⟩
    · exact ⟨['+'], Or.inr (Or.inl rfl), rfl, by simp⟩
    · exact ⟨[], Or.inl rfl, rfl, by simp⟩
  obtain ⟨sign, hcases, hdrop, hneg⟩ := hsign
  unfold readInteger at h
  generalize readSign (s.dropWhile isSpace) = read at h hdrop hneg
  obtain ⟨negative, after⟩ := read
  simp only at h hdrop hneg
  split at h
  · cases h
  rename_i hdigits
  generalize hvalue : (if negative = true then -(digitsValue (after.takeWhile Char.isDigit) : Int)
    else digitsValue (after.takeWhile Char.isDigit)) = value at h
  split at h
  · refine ⟨⟨s.takeWhile isSpace, sign, after.takeWhile Char.isDigit,
      after.dropWhile Char.isDigit, hspace, hcases, hdigits,
      fun c hc => List.mem_takeWhile_imp hc, ?_⟩, ?_, ?_⟩
    · intro c hc
      have hnot := List.head?_dropWhile_not Char.isDigit after
      rw [hc] at hnot
      simpa using hnot
    · unfold Numeral.text
      simp only [List.takeWhile_append_dropWhile]
      rw [← hdrop]
      exact hblank
    · rw [← Option.some.inj h, ← hvalue]
      unfold Numeral.value
      simp only [hneg]
  · cases h

/-- Digits alone. -/
def Numeral.ofDigits (digits : CxxString) (hne : digits ≠ [])
    (hdigits : ∀ c ∈ digits, c.isDigit = true) : Numeral where
  blank := []
  sign := []
  digits := digits
  rest := []
  blank_isSpace := fun _ h => absurd h List.not_mem_nil
  sign_cases := Or.inl rfl
  digits_ne_nil := hne
  digits_isDigit := hdigits
  rest_head := fun _ h => by cases h

end CxxString
