import SeekServe.HttpConnection
import SeekServe.Lib.Numerals
import SeekServe.SliceDelivery

/-!
# Which `Range` headers are accepted

The parser on a header with one dash, compared with the answer of RFC 7233 on well-formed
ranges, and the headers it accepts although they are not well formed.
-/

namespace SeekServe

open CxxString

set_option autoImplicit false

/-- The two texts around the dash, with spaces wherever the parser takes them off. -/
def headerOf (left right : CxxString) (a b c d : Nat) : CxxString :=
  "bytes=".toList ++ (spaces a ++ left ++ spaces b ++ '-' :: (spaces c ++ right ++ spaces d))

/-- What is parsed out of the texts on both sides of the dash. -/
def rangeOfParts (left right : CxxString) (fileSize : Int) : Option ParsedRange :=
  if fileSize ≤ 0 then none
  else if left = [] then suffixRange right fileSize
  else rangeFrom left right fileSize

theorem parseRangeSpec_of_dash {u v : CxxString} (hu : '-' ∉ u) (hcomma : ',' ∉ u ++ '-' :: v)
    (fileSize : Int) :
    parseRangeSpec (u ++ '-' :: v) fileSize =
      if trimBack (trimFront u) = [] then suffixRange (trimFront (trimBack v)) fileSize
      else rangeFrom (trimBack (trimFront u)) (trimFront (trimBack v)) fileSize := by
  have hdash : '-' ∉ trimFront u := fun h => hu (List.dropWhile_subset _ h)
  have htrim : trimBack (trimFront (u ++ '-' :: v)) = trimFront u ++ '-' :: trimBack v := by
    rw [trimFront_append_cons (by decide), trimBack_append_cons (by decide)]
  have hfind : find ['-'] (trimFront u ++ '-' :: trimBack v) = some (trimFront u).length := by
    rw [find_append_of_not_mem _ hdash]
    have hhead := find_cons_append '-' [] (trimBack v)
    rw [List.nil_append] at hhead
    rw [hhead]
    simp
  have hleft : substr (trimFront u ++ '-' :: trimBack v) 0 (some (trimFront u).length) =
      trimFront u := by
    simp [substr]
  have hright : substr (trimFront u ++ '-' :: trimBack v) ((trimFront u).length + 1) none =
      trimBack v := by
    simp [substr]
  unfold parseRangeSpec
  rw [if_neg (by rw [isSome_find_singleton]; exact hcomma)]
  simp only [htrim, hfind, hleft, hright]
  rw [if_neg (by simp)]

theorem parseRangeSpec_of_no_dash {spec : CxxString} (h : '-' ∉ spec) (fileSize : Int) :
    parseRangeSpec spec fileSize = none := by
  obtain ⟨m, n, hpad, -⟩ := exists_pad_front spec
  have hfind : find ['-'] (trimBack (trimFront spec)) = none := by
    apply Option.not_isSome_iff_eq_none.mp
    rw [isSome_find_singleton]
    intro hmem
    apply h
    rw [hpad]
    simp [hmem]
  unfold parseRangeSpec
  simp only [hfind]
  split
  · rfl
  · split <;> rfl

theorem parseRangeHeader_headerOf {left right : CxxString} (hleft : Trimmed left)
    (hright : Trimmed right) (hdash : '-' ∉ left) (hcomma : ',' ∉ left ∧ ',' ∉ right)
    (a b c d : Nat) (fileSize : Int) :
    parseRangeHeader (headerOf left right a b c d) fileSize =
      rangeOfParts left right fileSize := by
  have hprefix : (headerOf left right a b c d).take 6 = "bytes=".toList := List.take_left' rfl
  have hspec : substr (headerOf left right a b c d) 6 none =
      spaces a ++ left ++ spaces b ++ '-' :: (spaces c ++ right ++ spaces d) :=
    List.drop_left' rfl
  have hnot : ∀ {e : Char} {n : Nat}, e ≠ ' ' → e ∉ spaces n := fun he h => he (mem_spaces h)
  have hu : '-' ∉ spaces a ++ left ++ spaces b := by
    simp only [List.mem_append, not_or]
    exact ⟨⟨hnot (by decide), hdash⟩, hnot (by decide)⟩
  have hno : ',' ∉ spaces a ++ left ++ spaces b ++ '-' :: (spaces c ++ right ++ spaces d) := by
    simp only [List.mem_append, List.mem_cons, not_or]
    exact ⟨⟨⟨hnot (by decide), hcomma.1⟩, hnot (by decide)⟩, by decide,
      ⟨hnot (by decide), hcomma.2⟩, hnot (by decide)⟩
  unfold parseRangeHeader rangeOfParts
  rw [hspec, parseRangeSpec_of_dash hu hno, (trim_pad hleft a b).1, (trim_pad hright c d).2,
    if_neg (not_not_intro hprefix)]

/-- A header that is accepted has two texts around its first dash. -/
theorem exists_headerOf_of_isSome {header : CxxString} {fileSize : Int}
    (h : (parseRangeHeader header fileSize).isSome) :
    ∃ left right a b c d, header = headerOf left right a b c d ∧ Trimmed left ∧ Trimmed right ∧
      '-' ∉ left ∧ ',' ∉ left ∧ ',' ∉ right := by
  unfold parseRangeHeader at h
  split at h
  · cases h
  split at h
  · cases h
  rename_i hprefix
  have hsplit : header = "bytes=".toList ++ substr header 6 none := by
    rw [← not_not.mp hprefix]
    exact (List.take_append_drop 6 header).symm
  generalize substr header 6 none = spec at h hsplit
  have hdash : '-' ∈ spec := by
    by_contra hno
    rw [parseRangeSpec_of_no_dash hno] at h
    cases h
  obtain ⟨u, v, rfl, hu⟩ := List.eq_append_cons_of_mem hdash
  have hcomma : ',' ∉ u ++ '-' :: v := by
    intro hmem
    unfold parseRangeSpec at h
    rw [if_pos ((isSome_find_singleton _ _).mpr hmem)] at h
    cases h
  obtain ⟨a, b, hpadu, hleft⟩ := exists_pad_front u
  obtain ⟨c, d, hpadv, hright⟩ := exists_pad_back v
  refine ⟨trimBack (trimFront u), trimFront (trimBack v), a, b, c, d, ?_, hleft, hright, ?_, ?_,
    ?_⟩
  · unfold headerOf
    rw [← hpadu, ← hpadv]
    exact hsplit
  · intro hmem
    apply hu
    rw [hpadu]
    simp [hmem]
  · intro hmem
    apply hcomma
    rw [hpadu]
    simp [hmem]
  · intro hmem
    apply hcomma
    rw [hpadv]
    simp [hmem]

/-- A non-empty text of decimal digits. -/
structure DigitString where
  chars : CxxString
  chars_ne_nil : chars ≠ []
  chars_isDigit : ∀ c ∈ chars, c.isDigit = true

namespace DigitString

def value (s : DigitString) : Int := digitsValue s.chars

def ofNat (n : Nat) : DigitString where
  chars := Nat.toDigits 10 n
  chars_ne_nil := Nat.toDigits_ne_nil
  chars_isDigit := fun _ h => isDigit_of_mem_toDigits h

theorem value_nonneg (s : DigitString) : 0 ≤ s.value := Int.natCast_nonneg _

theorem trimmed (s : DigitString) : Trimmed s.chars := trimmed_of_digits s.chars_isDigit

theorem not_mem {c : Char} (s : DigitString) (hc : c.isDigit = false) : c ∉ s.chars :=
  not_mem_of_digits s.chars_isDigit hc

theorem stoll_chars (s : DigitString) :
    stoll s.chars = if s.value < 2 ^ 63 then some s.value else none := by
  have hread := readInteger_text (-(2 ^ 63)) (2 ^ 63 - 1)
    (Numeral.ofDigits s.chars s.chars_ne_nil s.chars_isDigit)
  have htext : (Numeral.ofDigits s.chars s.chars_ne_nil s.chars_isDigit).text = s.chars :=
    Numeral.text_of_clean ⟨rfl, rfl, rfl⟩
  have hvalue : (Numeral.ofDigits s.chars s.chars_ne_nil s.chars_isDigit).value = s.value := rfl
  rw [htext, hvalue] at hread
  have h0 := s.value_nonneg
  unfold stoll
  rw [hread]
  by_cases h : s.value < 2 ^ 63
  · rw [if_pos h, if_pos ⟨by omega, by omega⟩]
  · rw [if_neg h, if_neg (by omega)]

end DigitString

/-- A single byte range as RFC 7233 writes it. -/
inductive ByteRangeSpec where
  | closed (first last : DigitString)
  | fromFirst (first : DigitString)
  | suffix (length : DigitString)

namespace ByteRangeSpec

def left : ByteRangeSpec → CxxString
  | .closed first _ | .fromFirst first => first.chars
  | .suffix _ => []

def right : ByteRangeSpec → CxxString
  | .closed _ last => last.chars
  | .fromFirst _ => []
  | .suffix length => length.chars

def header (spec : ByteRangeSpec) : CxxString :=
  "bytes=".toList ++ (spec.left ++ '-' :: spec.right)

/-- The bytes that RFC 7233 selects, on numbers without any bound. -/
def answer (fileSize : Int) : ByteRangeSpec → Option ParsedRange
  | .closed first last =>
    if first.value ≤ last.value ∧ first.value < fileSize then
      some ⟨first.value, min last.value (fileSize - 1)⟩
    else none
  | .fromFirst first =>
    if first.value < fileSize then some ⟨first.value, fileSize - 1⟩ else none
  | .suffix length =>
    if 1 ≤ length.value then some ⟨max 0 (fileSize - length.value), fileSize - 1⟩ else none

/-- The number that is clamped to the file is one that `std::stoll` can read. -/
def Fits (fileSize : Int) : ByteRangeSpec → Prop
  | .closed first last => first.value < fileSize → last.value < 2 ^ 63
  | .fromFirst _ => True
  | .suffix length => length.value < 2 ^ 63

theorem header_eq (spec : ByteRangeSpec) : spec.header = headerOf spec.left spec.right 0 0 0 0 := by
  unfold header headerOf spaces
  simp

theorem trimmed_nil : Trimmed [] := ⟨by simp, by simp⟩

theorem trimmed (spec : ByteRangeSpec) : Trimmed spec.left ∧ Trimmed spec.right := by
  cases spec with
  | closed first last => exact ⟨first.trimmed, last.trimmed⟩
  | fromFirst first => exact ⟨first.trimmed, trimmed_nil⟩
  | suffix length => exact ⟨trimmed_nil, length.trimmed⟩

theorem not_mem {c : Char} (spec : ByteRangeSpec) (hc : c.isDigit = false) :
    c ∉ spec.left ∧ c ∉ spec.right := by
  cases spec with
  | closed first last => exact ⟨first.not_mem hc, last.not_mem hc⟩
  | fromFirst first => exact ⟨first.not_mem hc, List.not_mem_nil⟩
  | suffix length => exact ⟨List.not_mem_nil, length.not_mem hc⟩

theorem parse_header (spec : ByteRangeSpec) (fileSize : Int) :
    parseRangeHeader spec.header fileSize = rangeOfParts spec.left spec.right fileSize := by
  rw [header_eq]
  exact parseRangeHeader_headerOf spec.trimmed.1 spec.trimmed.2 (spec.not_mem (by decide)).1
    (spec.not_mem (by decide)) 0 0 0 0 fileSize

theorem rangeFrom_closed (first last : DigitString) {fileSize : Int} (hsize : fileSize < 2 ^ 63) :
    rangeFrom first.chars last.chars fileSize = (closed first last).answer fileSize ↔
      (closed first last).Fits fileSize := by
  have hfirst : ¬first.value < 0 := Int.not_lt.mpr first.value_nonneg
  unfold rangeFrom answer Fits
  rw [first.stoll_chars, last.stoll_chars]
  simp only [if_neg last.chars_ne_nil]
  by_cases hstart : first.value < 2 ^ 63
  · by_cases hstop : last.value < 2 ^ 63
    · simp only [if_pos hstart, if_pos hstop, if_neg hfirst]
      refine iff_of_true ?_ (fun _ => hstop)
      by_cases horder : last.value < first.value
      · rw [if_pos horder, if_neg (fun h => Int.not_lt.mpr h.1 horder)]
      · rw [if_neg horder]
        by_cases hinside : first.value < fileSize
        · have hboth : first.value ≤ last.value ∧ first.value < fileSize :=
            ⟨Int.not_lt.mp horder, hinside⟩
          rw [if_neg (Int.not_le.mpr hinside), if_pos hboth]
          congr 2
          split <;> omega
        · rw [if_pos (Int.not_lt.mp hinside), if_neg (fun h => hinside h.2)]
    · simp only [if_pos hstart, if_neg hstop, if_neg hfirst]
      by_cases hinside : first.value < fileSize
      · have horder : first.value ≤ last.value := by omega
        rw [if_pos ⟨horder, hinside⟩]
        exact iff_of_false (by simp) (fun h => hstop (h hinside))
      · rw [if_neg (fun h => hinside h.2)]
        exact iff_of_true rfl (fun h => absurd h hinside)
  · have hinside : ¬first.value < fileSize := by omega
    simp only [if_neg hstart]
    rw [if_neg (fun h => hinside h.2)]
    exact iff_of_true rfl (fun h => absurd h hinside)

theorem rangeFrom_fromFirst (first : DigitString) {fileSize : Int} (hsize : fileSize < 2 ^ 63) :
    rangeFrom first.chars [] fileSize = (fromFirst first).answer fileSize := by
  have hfirst : ¬first.value < 0 := Int.not_lt.mpr first.value_nonneg
  unfold rangeFrom answer
  rw [first.stoll_chars]
  by_cases hstart : first.value < 2 ^ 63
  · simp only [if_pos hstart, if_neg hfirst, if_true]
    by_cases hinside : first.value < fileSize
    · rw [if_neg (Int.not_le.mpr hinside), if_pos hinside]
    · rw [if_pos (Int.not_lt.mp hinside), if_neg hinside]
  · have hinside : ¬first.value < fileSize := by omega
    simp only [if_neg hstart]
    rw [if_neg hinside]

theorem suffixRange_suffix (length : DigitString) (fileSize : Int) :
    suffixRange length.chars fileSize = (suffix length).answer fileSize ↔
      (suffix length).Fits fileSize := by
  unfold suffixRange answer Fits
  rw [length.stoll_chars, if_neg length.chars_ne_nil]
  by_cases hfits : length.value < 2 ^ 63
  · simp only [if_pos hfits]
    refine iff_of_true ?_ hfits
    by_cases hzero : length.value ≤ 0
    · have hnone : ¬1 ≤ length.value := by omega
      rw [if_pos hzero, if_neg hnone]
    · have hsome : 1 ≤ length.value := by omega
      rw [if_neg hzero, if_pos hsome]
      split
      · rw [max_eq_left (by omega)]
      · rw [max_eq_right (by omega)]
  · have hsome : 1 ≤ length.value := by omega
    simp only [if_neg hfits]
    rw [if_pos hsome]
    exact iff_of_false (by simp) hfits

/-- Well-formed ranges get the answer of RFC 7233 as long as the number that would be
clamped to the file fits into 64 bits. -/
theorem parse_is_answer_iff (spec : ByteRangeSpec) (fileSize : Int) (h1 : 1 ≤ fileSize)
    (h2 : fileSize < 2 ^ 63) :
    parseRangeHeader spec.header fileSize = spec.answer fileSize ↔ spec.Fits fileSize := by
  rw [parse_header]
  unfold rangeOfParts
  rw [if_neg (by omega)]
  cases spec with
  | closed first last =>
    rw [if_neg (show (closed first last).left ≠ [] from first.chars_ne_nil)]
    exact rangeFrom_closed first last h2
  | fromFirst first =>
    rw [if_neg (show (fromFirst first).left ≠ [] from first.chars_ne_nil)]
    exact iff_of_true (rangeFrom_fromFirst first h2) trivial
  | suffix length =>
    rw [if_pos (show (suffix length).left = [] from rfl)]
    exact suffixRange_suffix length fileSize

/-- Read as `bytes=2-99`. -/
theorem parse_is_answer_iff_clamped :
    parseRangeHeader (closed (.ofNat 2) (.ofNat 99)).header 10 = some ⟨2, 9⟩ :=
  ((parse_is_answer_iff (closed (.ofNat 2) (.ofNat 99)) 10 (by decide) (by decide)).mpr
    (fun _ => by decide)).trans (by decide)

/-- A last byte beyond `2^63` is refused where it should be clamped. -/
theorem huge_last_is_not_clamped :
    ¬∀ (spec : ByteRangeSpec) (fileSize : Int), 1 ≤ fileSize → fileSize < 2 ^ 63 →
      parseRangeHeader spec.header fileSize = spec.answer fileSize := by
  intro h
  have hclosed := h (closed (.ofNat 0) (.ofNat (2 ^ 63))) 10 (by decide) (by decide)
  exact absurd hclosed (by decide)

end ByteRangeSpec

/-- `bytes=`, one dash between two runs of digits that are not both empty, and spaces. -/
def WellFormedRange (header : CxxString) : Prop :=
  ∃ left right a b c d, (∀ e ∈ left, e.isDigit = true) ∧ (∀ e ∈ right, e.isDigit = true) ∧
    (left ≠ [] ∨ right ≠ []) ∧ header = headerOf left right a b c d

/-- A header is accepted only if it is well formed, and answered with 416 if it is not. -/
def OnlyWellFormed (header : CxxString) (fileSize : Int) : Prop :=
  ((parseRangeHeader header fileSize).isSome → WellFormedRange header) ∧
    (¬WellFormedRange header → ∀ (s : HttpRangeServer) (io : ConnectionIo) (req : HttpRequest)
      (pt : ParsedTarget) (contentType : CxxString),
      (responses (s.serveRange io req pt contentType fileSize header)).map HttpResponse.status =
        [416])

/-- A range whose numbers are texts that a number is read from. -/
inductive NumeralRange where
  | closed (first last : Numeral)
  | fromFirst (first : Numeral)
  | suffix (length : Numeral)

namespace NumeralRange

def left : NumeralRange → CxxString
  | .closed first _ | .fromFirst first => first.text
  | .suffix _ => []

def right : NumeralRange → CxxString
  | .closed _ last => last.text
  | .fromFirst _ => []
  | .suffix length => length.text

/-- The header has these numbers on the two sides of its first dash. -/
structure Writes (σ : NumeralRange) (header : CxxString) : Prop where
  left_trimmed : Trimmed σ.left
  right_trimmed : Trimmed σ.right
  dash_not_mem : '-' ∉ σ.left
  comma_not_mem : ',' ∉ σ.left ∧ ',' ∉ σ.right
  header_eq : ∃ a b c d, header = headerOf σ.left σ.right a b c d

/-- The numbers select at least one byte of a file. -/
def Selects (fileSize : Int) : NumeralRange → Prop
  | .closed first last =>
    0 ≤ first.value ∧ first.value < fileSize ∧ first.value ≤ last.value ∧ last.value < 2 ^ 63
  | .fromFirst first => 0 ≤ first.value ∧ first.value < fileSize ∧ first.value < 2 ^ 63
  | .suffix length => 0 < fileSize ∧ 0 < length.value ∧ length.value < 2 ^ 63

/-- The numbers are written with nothing but digits. -/
def Clean : NumeralRange → Prop
  | .closed first last => first.Clean ∧ last.Clean
  | .fromFirst first => first.Clean
  | .suffix length => length.Clean

theorem stoll_text (n : Numeral) :
    stoll n.text = if -(2 ^ 63) ≤ n.value ∧ n.value ≤ 2 ^ 63 - 1 then some n.value else none :=
  readInteger_text _ _ n

theorem stoll_text_of_fits {n : Numeral} (h0 : 0 ≤ n.value) (hfits : n.value < 2 ^ 63) :
    stoll n.text = some n.value := by
  rw [stoll_text, if_pos ⟨by omega, by omega⟩]

theorem fits_of_stoll {n : Numeral} {v : Int} (h : stoll n.text = some v) : n.value < 2 ^ 63 := by
  rw [stoll_text] at h
  split at h
  · omega
  · cases h

theorem isSome_suffixRange_of_selects {length : Numeral} {fileSize : Int}
    (h : (suffix length).Selects fileSize) : (suffixRange length.text fileSize).isSome := by
  obtain ⟨hsize, hpos, hfits⟩ := h
  have hneg : ¬length.value ≤ 0 := Int.not_le.mpr hpos
  unfold suffixRange
  rw [if_neg length.text_ne_nil, stoll_text_of_fits (Int.le_of_lt hpos) hfits]
  simp only [if_neg hneg]
  split <;> rfl

theorem isSome_rangeFrom_of_selects {first : Numeral} {right : CxxString} {fileSize : Int}
    (h : (fromFirst first).Selects fileSize)
    (hright : right ≠ [] → ∃ stop, stoll right = some stop ∧ first.value ≤ stop) :
    (rangeFrom first.text right fileSize).isSome := by
  obtain ⟨h0, hsize, hfits⟩ := h
  have hneg : ¬first.value < 0 := Int.not_lt.mpr h0
  have hinside : ¬first.value ≥ fileSize := Int.not_le.mpr hsize
  unfold rangeFrom
  rw [stoll_text_of_fits h0 hfits]
  simp only [if_neg hneg, if_neg hinside]
  by_cases hnil : right = []
  · rw [if_pos hnil]
    rfl
  · obtain ⟨stop, hstop, horder⟩ := hright hnil
    rw [if_neg hnil, hstop]
    simp only [if_neg (Int.not_lt.mpr horder)]
    rfl

/-- The parser gives a range for two texts if numbers in them select one. -/
theorem isSome_rangeOfParts {σ : NumeralRange} {fileSize : Int} (h : σ.Selects fileSize) :
    (rangeOfParts σ.left σ.right fileSize).isSome := by
  unfold rangeOfParts
  cases σ with
  | closed first last =>
    obtain ⟨h0, hsize, horder, hfits⟩ := h
    rw [if_neg (show ¬fileSize ≤ 0 by omega),
      if_neg (show (closed first last).left ≠ [] from first.text_ne_nil)]
    have hfirst : (fromFirst first).Selects fileSize := ⟨h0, hsize, by omega⟩
    apply isSome_rangeFrom_of_selects hfirst
    intro _
    exact ⟨last.value, stoll_text_of_fits (Int.le_trans h0 horder) hfits, horder⟩
  | fromFirst first =>
    have hsize : first.value < fileSize := h.2.1
    have h0 : 0 ≤ first.value := h.1
    rw [if_neg (show ¬fileSize ≤ 0 by omega),
      if_neg (show (fromFirst first).left ≠ [] from first.text_ne_nil)]
    exact isSome_rangeFrom_of_selects h (fun hne => absurd rfl hne)
  | suffix length =>
    rw [if_neg (Int.not_le.mpr h.1), if_pos (show (suffix length).left = [] from rfl)]
    exact isSome_suffixRange_of_selects h

theorem exists_suffix_of_isSome {right : CxxString} {fileSize : Int} (hsize : 0 < fileSize)
    (h : (suffixRange right fileSize).isSome) :
    ∃ n : Numeral, n.text = right ∧ (suffix n).Selects fileSize := by
  unfold suffixRange at h
  split at h
  · cases h
  split at h
  · cases h
  rename_i v hv
  obtain ⟨n, rfl, rfl⟩ := exists_numeral_of_readInteger hv
  have hfits := fits_of_stoll hv
  split at h
  · cases h
  · rename_i hpos
    exact ⟨n, rfl, hsize, Int.not_le.mp hpos, hfits⟩

theorem exists_range_of_isSome {left right : CxxString} {fileSize : Int}
    (h : (rangeFrom left right fileSize).isSome) :
    ∃ σ : NumeralRange, σ.left = left ∧ σ.right = right ∧ σ.Selects fileSize := by
  unfold rangeFrom at h
  split at h
  · cases h
  rename_i start hstart
  obtain ⟨first, rfl, rfl⟩ := exists_numeral_of_readInteger hstart
  have hfits := fits_of_stoll hstart
  split at h
  · cases h
  rename_i h0
  split at h
  · rename_i hnil
    subst hnil
    split at h
    · cases h
    · rename_i hsize
      exact ⟨fromFirst first, rfl, rfl, Int.not_lt.mp h0, Int.not_le.mp hsize, hfits⟩
  · split at h
    · cases h
    rename_i stop hstop
    obtain ⟨last, rfl, rfl⟩ := exists_numeral_of_readInteger hstop
    have hlast := fits_of_stoll hstop
    split at h
    · cases h
    rename_i horder
    split at h
    · cases h
    · rename_i hsize
      exact ⟨closed first last, rfl, rfl, Int.not_lt.mp h0, Int.not_le.mp hsize,
        Int.not_lt.mp horder, hlast⟩

theorem exists_of_isSome_rangeOfParts {left right : CxxString} {fileSize : Int}
    (h : (rangeOfParts left right fileSize).isSome) :
    ∃ σ : NumeralRange, σ.left = left ∧ σ.right = right ∧ σ.Selects fileSize := by
  unfold rangeOfParts at h
  split at h
  · cases h
  rename_i hsize
  split at h
  · rename_i hnil
    subst hnil
    obtain ⟨n, htext, hselects⟩ := exists_suffix_of_isSome (Int.not_le.mp hsize) h
    exact ⟨suffix n, rfl, htext, hselects⟩
  · exact exists_range_of_isSome h

theorem parse_of_writes {σ : NumeralRange} {header : CxxString} (h : σ.Writes header)
    (fileSize : Int) :
    parseRangeHeader header fileSize = rangeOfParts σ.left σ.right fileSize := by
  obtain ⟨a, b, c, d, rfl⟩ := h.header_eq
  exact parseRangeHeader_headerOf h.left_trimmed h.right_trimmed h.dash_not_mem h.comma_not_mem
    a b c d fileSize

/-- What the parser accepts are numerals that select something. -/
theorem isSome_parse_iff (header : CxxString) (fileSize : Int) :
    (parseRangeHeader header fileSize).isSome ↔
      ∃ σ : NumeralRange, σ.Writes header ∧ σ.Selects fileSize := by
  constructor
  · intro h
    obtain ⟨left, right, a, b, c, d, rfl, hleft, hright, hdash, hcomma⟩ :=
      exists_headerOf_of_isSome h
    rw [parseRangeHeader_headerOf hleft hright hdash hcomma] at h
    obtain ⟨σ, rfl, rfl, hselects⟩ := exists_of_isSome_rangeOfParts h
    exact ⟨σ, ⟨hleft, hright, hdash, hcomma, a, b, c, d, rfl⟩, hselects⟩
  · intro h
    obtain ⟨σ, hwrites, hselects⟩ := h
    rw [parse_of_writes hwrites]
    exact isSome_rangeOfParts hselects

end NumeralRange

/-- The texts around the first dash are determined by the header. -/
theorem headerOf_inj {l r l' r' : CxxString} {a b c d a' b' c' d' : Nat} (hl : Trimmed l)
    (hr : Trimmed r) (hl' : Trimmed l') (hr' : Trimmed r') (hdash : '-' ∉ l) (hdash' : '-' ∉ l')
    (h : headerOf l r a b c d = headerOf l' r' a' b' c' d') : l = l' ∧ r = r' := by
  have hnot : ∀ {n : Nat}, '-' ∉ spaces n := fun hm => absurd (mem_spaces hm) (by decide)
  have hu : '-' ∉ spaces a ++ l ++ spaces b := by simp [hnot, hdash]
  have hu' : '-' ∉ spaces a' ++ l' ++ spaces b' := by simp [hnot, hdash']
  have hspec := List.append_cancel_left h
  have hparts := append_cons_inj_of_not_mem_left hu hu' hspec
  refine ⟨?_, ?_⟩
  · rw [← (trim_pad hl a b).1, hparts.1, (trim_pad hl' a' b').1]
  · rw [← (trim_pad hr c d).2, hparts.2, (trim_pad hr' c' d').2]

theorem clean_of_digits {n : Numeral} (h : ∀ e ∈ n.text, e.isDigit = true) : n.Clean := by
  have hmem : ∀ e, e ∈ n.blank ∨ e ∈ n.sign ∨ e ∈ n.rest → e ∈ n.text := by
    intro e he
    unfold Numeral.text
    simp only [List.mem_append]
    rcases he with he | he | he
    · exact Or.inl he
    · exact Or.inr (Or.inl he)
    · exact Or.inr (Or.inr (Or.inr he))
  refine ⟨?_, ?_, ?_⟩
  · apply List.eq_nil_iff_forall_not_mem.mpr
    intro e he
    have hspace := isSpace_of_isDigit (h e (hmem e (Or.inl he)))
    rw [n.blank_isSpace e he] at hspace
    cases hspace
  · rcases n.sign_cases with hsign | hsign | hsign
    · exact hsign
    · have hplus := hmem '+' (Or.inr (Or.inl (by simp [hsign])))
      exact absurd hplus (not_mem_of_digits h rfl)
    · have hminus := hmem '-' (Or.inr (Or.inl (by simp [hsign])))
      exact absurd hminus (not_mem_of_digits h rfl)
  · cases hrest : n.rest with
    | nil => rfl
    | cons e rest =>
      have hnondigit := n.rest_head e (by rw [hrest]; rfl)
      have hdigit := h e (hmem e (Or.inr (Or.inr (by rw [hrest]; exact List.mem_cons_self))))
      rw [hnondigit] at hdigit
      cases hdigit

theorem digits_of_clean {n : Numeral} (h : n.Clean) : ∀ e ∈ n.text, e.isDigit = true := by
  rw [Numeral.text_of_clean h]
  exact n.digits_isDigit

namespace NumeralRange

theorem clean_iff (σ : NumeralRange) :
    σ.Clean ↔ (∀ e ∈ σ.left, e.isDigit = true) ∧ ∀ e ∈ σ.right, e.isDigit = true := by
  have hnil : ∀ e ∈ ([] : CxxString), e.isDigit = true := fun _ h => absurd h List.not_mem_nil
  cases σ with
  | closed first last =>
    constructor
    · intro h
      exact ⟨digits_of_clean h.1, digits_of_clean h.2⟩
    · intro h
      exact ⟨clean_of_digits h.1, clean_of_digits h.2⟩
  | fromFirst first =>
    constructor
    · intro h
      exact ⟨digits_of_clean h, hnil⟩
    · intro h
      exact clean_of_digits h.1
  | suffix length =>
    constructor
    · intro h
      exact ⟨hnil, digits_of_clean h⟩
    · intro h
      exact clean_of_digits h.2

theorem not_both_nil (σ : NumeralRange) : σ.left ≠ [] ∨ σ.right ≠ [] := by
  cases σ with
  | closed first last => exact Or.inl first.text_ne_nil
  | fromFirst first => exact Or.inl first.text_ne_nil
  | suffix length => exact Or.inr length.text_ne_nil

theorem wellFormed_iff_clean {σ : NumeralRange} {header : CxxString} (h : σ.Writes header) :
    WellFormedRange header ↔ σ.Clean := by
  obtain ⟨a, b, c, d, hheader⟩ := h.header_eq
  rw [clean_iff]
  constructor
  · intro hw
    obtain ⟨left, right, a', b', c', d', hleft, hright, -, hsame⟩ := hw
    have hdash : '-' ∉ left := not_mem_of_digits hleft rfl
    obtain ⟨hl, hr⟩ := headerOf_inj h.left_trimmed h.right_trimmed (trimmed_of_digits hleft)
      (trimmed_of_digits hright) h.dash_not_mem hdash (hheader.symm.trans hsame)
    rw [hl, hr]
    exact ⟨hleft, hright⟩
  · intro hclean
    exact ⟨σ.left, σ.right, a, b, c, d, hclean.1, hclean.2, σ.not_both_nil, hheader⟩

end NumeralRange

/-- A header that is refused is answered with 416, so only what is accepted matters. -/
theorem onlyWellFormed_iff (header : CxxString) (fileSize : Int) :
    OnlyWellFormed header fileSize ↔
      ((parseRangeHeader header fileSize).isSome → WellFormedRange header) := by
  constructor
  · intro h
    exact h.1
  · intro h
    refine ⟨h, ?_⟩
    intro hmalformed s io req pt contentType
    have hnone : parseRangeHeader header fileSize = none := by
      apply Option.not_isSome_iff_eq_none.mp
      intro hsome
      exact hmalformed (h hsome)
    unfold HttpRangeServer.serveRange
    rw [hnone]
    rfl

/-- Among the headers whose numbers select something, the parser accepts only well-formed
ones if and only if none of these numbers has a sign, white space or other characters. -/
theorem only_wellFormed_accepted_iff (header : CxxString) (fileSize : Int) :
    OnlyWellFormed header fileSize ↔
      ∀ σ : NumeralRange, σ.Writes header → σ.Selects fileSize → σ.Clean := by
  rw [onlyWellFormed_iff, NumeralRange.isSome_parse_iff]
  constructor
  · intro h σ hwrites hselects
    exact (NumeralRange.wellFormed_iff_clean hwrites).mp (h ⟨σ, hwrites, hselects⟩)
  · intro h hsome
    obtain ⟨σ, hwrites, hselects⟩ := hsome
    exact (NumeralRange.wellFormed_iff_clean hwrites).mpr (h σ hwrites hselects)

/-- Letters after the digits are accepted. -/
theorem trailing_letters_are_accepted :
    ¬∀ (header : CxxString) (fileSize : Int), OnlyWellFormed header fileSize := by
  intro h
  have hwell := (h "bytes=0-5abc".toList 10).1 (by decide)
  obtain ⟨left, right, a, b, c, d, hleft, hright, -, hheader⟩ := hwell
  have hdash : '-' ∉ left := not_mem_of_digits hleft rfl
  have hsame : headerOf "0".toList "5abc".toList 0 0 0 0 = headerOf left right a b c d := hheader
  have hparts := headerOf_inj (by decide) (by decide) (trimmed_of_digits hleft)
    (trimmed_of_digits hright) (by decide) hdash hsame
  rw [← hparts.2] at hright
  have hletter : 'a' ∈ "5abc".toList := List.mem_cons_of_mem _ List.mem_cons_self
  exact not_mem_of_digits hright rfl hletter

end SeekServe
