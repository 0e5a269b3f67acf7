import SeekServe.HttpConnection
import SeekServe.ControlApi

/-!
# The token in the query

`extract_token` looks for `token=` in the whole target, `parse_target` in the query, and
`sanitize_url` hides what follows the first one in the log.
-/

namespace SeekServe

set_option autoImplicit false

/-- The static `sanitize_url` of both server files. -/
def sanitizeTokenUrl (url : CxxString) : CxxString :=
  match CxxString.find "token=".toList url with
  | none => url
  | some pos =>
    CxxString.substr url 0 (some pos) ++ "token=***".toList ++
      match CxxString.findFrom ['&'] url pos with
      | some stop => CxxString.substr url stop none
      | none => []

def HttpRangeServer.sanitizeUrl (url : CxxString) : CxxString := sanitizeTokenUrl url

def ControlApiServer.sanitizeUrl (url : CxxString) : CxxString := sanitizeTokenUrl url

/-- No `Authorization` header that `extract_token` takes a token from. -/
def HttpRequest.NoBearer (req : HttpRequest) : Prop :=
  ∀ val, req.authorization = some val →
    ¬(val.length > 7 ∧ CxxString.substr val 0 (some 7) = "Bearer ".toList)

namespace QueryToken

/-- The query branch of `extract_token`. -/
def tokenIn (s : CxxString) : CxxString :=
  match CxxString.find "token=".toList s with
  | some pos => tokenValue s pos
  | none => []

theorem extractToken_eq {req : HttpRequest} (h : req.NoBearer) :
    extractToken req = tokenIn req.target := by
  unfold extractToken tokenIn
  simp only
  cases hauth : req.authorization with
  | none => rfl
  | some val => exact if_neg (h val hauth)

/-- The names and values of a query. -/
abbrev Pairs := List (CxxString × CxxString)

def pairText (p : CxxString × CxxString) : CxxString := p.1 ++ '=' :: p.2

/-- The pairs, joined by `&`. -/
def joined : Pairs → CxxString
  | [] => []
  | [p] => pairText p
  | p :: q :: pairs => pairText p ++ '&' :: joined (q :: pairs)

/-- A query with its question mark. -/
def queryPart : Option Pairs → CxxString
  | none => []
  | some pairs => '?' :: joined pairs

/-- The value of the first parameter named `token`, or nothing. -/
def tokenParameter (query : Option Pairs) : CxxString :=
  (((query.getD []).find? fun p => p.1 = "token".toList).map Prod.snd).getD []

/-- What follows the first `token=` of the text. -/
def afterMark (s : CxxString) : Option CxxString :=
  (CxxString.find "token=".toList s).map fun pos => s.drop (pos + 6)

/-- The rest of the first pair that has a `token=` inside, before any named `token`. -/
def strayInPairs : Pairs → Option CxxString
  | [] => none
  | p :: pairs =>
    if p.1 = "token".toList then none else (afterMark (pairText p)).or (strayInPairs pairs)

/-- The text up to the next `&` after a `token=` that stands in the path, inside of a longer
name or inside of a value, and comes before every parameter named `token`. -/
def stray (path : CxxString) (query : Option Pairs) : Option CxxString :=
  match afterMark path with
  | some text => some ((text ++ queryPart query).takeWhile (· != '&'))
  | none => strayInPairs (query.getD [])

/-- Neither name nor value has an `&`. -/
def Separated (query : Option Pairs) : Prop := ∀ p ∈ query.getD [], '&' ∉ p.1 ∧ '&' ∉ p.2

instance (query : Option Pairs) : Decidable (Separated query) :=
  inferInstanceAs (Decidable (∀ p ∈ query.getD [], '&' ∉ p.1 ∧ '&' ∉ p.2))

theorem mark_eq : "token=".toList = ['t', 'o', 'k', 'e', 'n', '='] := by decide

theorem tokenIn_eq (s : CxxString) :
    tokenIn s = ((afterMark s).map fun text => text.takeWhile (· != '&')).getD [] := by
  unfold tokenIn afterMark
  cases CxxString.find "token=".toList s with
  | none => rfl
  | some pos => exact tokenValue_eq s pos

theorem afterMark_append (s t : CxxString) {text : CxxString} (h : afterMark s = some text) :
    afterMark (s ++ t) = some (text ++ t) := by
  unfold afterMark at h ⊢
  obtain ⟨pos, hpos, rfl⟩ := Option.map_eq_some_iff.mp h
  have hlen := CxxString.length_of_find hpos
  have hsix : "token=".toList.length = 6 := by decide
  rw [CxxString.find_append_of_some hpos, Option.map_some, List.drop_append_of_le_length (by omega)]

/-- A mark does not go over a separator. -/
theorem afterMark_append_sep {c : Char} (hc : c ∉ ['t', 'o', 'k', 'e', 'n', '=']) {s : CxxString}
    (hs : afterMark s = none) (t : CxxString) : afterMark (s ++ c :: t) = afterMark t := by
  have hnone := Option.map_eq_none_iff.mp hs
  unfold afterMark
  rw [mark_eq] at hnone ⊢
  rw [CxxString.find_append_sep hc (List.cons_ne_nil _ _) hnone, Option.map_map]
  congr 1
  funext pos
  have hdrop : pos + (s.length + 1) + 6 = s.length + (1 + (pos + 6)) := by omega
  show (s ++ c :: t).drop (pos + (s.length + 1) + 6) = t.drop (pos + 6)
  rw [hdrop, List.drop_length_add_append, Nat.add_comm 1, List.drop_succ_cons]

theorem afterMark_of_name {p : CxxString × CxxString} (hname : p.1 = "token".toList) :
    afterMark (pairText p) = some p.2 := by
  have htext : pairText p = 't' :: (['o', 'k', 'e', 'n', '='] ++ p.2) := by
    have htoken : "token".toList = ['t', 'o', 'k', 'e', 'n'] := by decide
    unfold pairText
    rw [hname, htoken]
    rfl
  unfold afterMark
  rw [mark_eq, htext, CxxString.find_cons_append]
  rfl

theorem amp_not_mem_of_afterMark {p : CxxString × CxxString} (hp : '&' ∉ p.1 ∧ '&' ∉ p.2)
    {text : CxxString} (h : afterMark (pairText p) = some text) : '&' ∉ text := by
  obtain ⟨pos, _, rfl⟩ := Option.map_eq_some_iff.mp h
  intro hmem
  rcases List.mem_append.mp (List.mem_of_mem_drop hmem) with hname | hrest
  · exact hp.1 hname
  · rcases List.mem_cons.mp hrest with he | hvalue
    · cases he
    · exact hp.2 hvalue

theorem takeWhile_append_tail {s tail : CxxString} (h : '&' ∉ s)
    (htail : tail = [] ∨ ∃ t, tail = '&' :: t) : (s ++ tail).takeWhile (· != '&') = s := by
  rw [List.takeWhile_append_of_pos]
  · rcases htail with rfl | ⟨t, rfl⟩
    · rw [List.takeWhile_nil, List.append_nil]
    · rw [List.takeWhile_cons_of_neg (by decide), List.append_nil]
  · intro c hc
    simpa using fun he : c = '&' => h (he ▸ hc)

theorem joined_cons (p : CxxString × CxxString) (pairs : Pairs) :
    ∃ tail, joined (p :: pairs) = pairText p ++ tail ∧
      (tail = [] ∧ pairs = [] ∨ tail = '&' :: joined pairs) := by
  cases pairs with
  | nil => exact ⟨[], (List.append_nil _).symm, .inl ⟨rfl, rfl⟩⟩
  | cons q pairs => exact ⟨_, rfl, .inr rfl⟩

theorem tokenParameter_cons (p : CxxString × CxxString) (pairs : Pairs) :
    tokenParameter (some (p :: pairs)) =
      if p.1 = "token".toList then p.2 else tokenParameter (some pairs) := by
  unfold tokenParameter
  rw [Option.getD_some, Option.getD_some, List.find?_cons]
  by_cases hname : p.1 = "token".toList
  · rw [decide_eq_true hname, if_pos hname]
    rfl
  · rw [decide_eq_false hname, if_neg hname]

/-- In a query only the pairs up to the first mark count. -/
theorem tokenIn_joined {pairs : Pairs} (h : ∀ p ∈ pairs, '&' ∉ p.1 ∧ '&' ∉ p.2) :
    tokenIn (joined pairs) = (strayInPairs pairs).getD (tokenParameter (some pairs)) := by
  induction pairs with
  | nil => rfl
  | cons p pairs ih =>
    obtain ⟨tail, hjoined, htail⟩ := joined_cons p pairs
    have hrest := ih fun q hq => h q (List.mem_cons_of_mem p hq)
    have hp := h p List.mem_cons_self
    rw [hjoined]
    cases hmark : afterMark (pairText p) with
    | some text =>
      have hvalue : tokenIn (pairText p ++ tail) = text := by
        rw [tokenIn_eq, afterMark_append _ _ hmark]
        apply takeWhile_append_tail (amp_not_mem_of_afterMark hp hmark)
        rcases htail with ⟨rfl, _⟩ | rfl
        · exact .inl rfl
        · exact .inr ⟨_, rfl⟩
      rw [hvalue, strayInPairs]
      by_cases hname : p.1 = "token".toList
      · rw [afterMark_of_name hname] at hmark
        cases hmark
        rw [if_pos hname, tokenParameter_cons, if_pos hname]
        rfl
      · rw [if_neg hname, hmark]
        rfl
    | none =>
      have hname : p.1 ≠ "token".toList := by
        intro hname
        rw [afterMark_of_name hname] at hmark
        cases hmark
      have hskip : tokenIn (pairText p ++ tail) = tokenIn (joined pairs) := by
        rcases htail with ⟨rfl, rfl⟩ | rfl
        · rw [List.append_nil, tokenIn_eq, hmark]
          rfl
        · rw [tokenIn_eq, afterMark_append_sep (by decide) hmark, ← tokenIn_eq]
      rw [hskip, hrest, strayInPairs, if_neg hname, hmark, tokenParameter_cons, if_neg hname]
      rfl

theorem tokenIn_target {path : CxxString} {query : Option Pairs} (h : Separated query) :
    tokenIn (path ++ queryPart query) = (stray path query).getD (tokenParameter query) := by
  unfold stray
  cases hmark : afterMark path with
  | some text =>
    rw [tokenIn_eq, afterMark_append _ _ hmark]
    rfl
  | none =>
    cases query with
    | none =>
      show tokenIn (path ++ []) = _
      rw [List.append_nil, tokenIn_eq, hmark]
      rfl
    | some pairs =>
      show tokenIn (path ++ '?' :: joined pairs) = _
      rw [tokenIn_eq, afterMark_append_sep (by decide) hmark, ← tokenIn_eq]
      exact tokenIn_joined h

theorem equals_not_mem_of_matchStreamPath {path : CxxString} {r : CxxString × CxxString}
    (h : matchStreamPath path = some r) : '=' ∉ path := by
  unfold matchStreamPath at h
  split at h
  · rename_i hstart
    obtain ⟨rest, hrest⟩ := List.isPrefixOf_iff_prefix.mp hstart
    have hlen : "/stream/".toList.length = 8 := by decide
    have hdrop : path.drop 8 = rest := by rw [← hrest, ← hlen, List.drop_left]
    rw [hdrop] at h
    simp only at h
    split at h
    · rename_i digits hslash
      split at h
      · rename_i hgood
        have hdigits := List.all_eq_true.mp hgood.2.2
        have hsplit := List.takeWhile_append_dropWhile (p := isHexDigit) (l := rest)
        rw [hslash] at hsplit
        rw [← hrest, ← hsplit]
        intro hmem
        rcases List.mem_append.mp hmem with hfixed | hmem
        · exact absurd hfixed (by decide)
        rcases List.mem_append.mp hmem with hid | hmem
        · exact absurd (List.mem_takeWhile_imp hid) (by decide)
        rcases List.mem_cons.mp hmem with he | hdigit
        · cases he
        · exact absurd (hdigits _ hdigit) (by decide)
      · cases h
    · cases h
  · cases h

/-- What `parse_target` takes the token from. -/
theorem parseTarget_some {target : CxxString} {pt : ParsedTarget}
    (h : parseTarget target = some pt) :
    ∃ path query, (target = path ∧ query = [] ∨ target = path ++ '?' :: query) ∧
      '=' ∉ path ∧ pt.token = tokenIn query := by
  unfold parseTarget at h
  cases hmark : CxxString.find ['?'] target with
  | none =>
    simp only [hmark] at h
    split at h
    · cases h
    · rename_i id digits hmatch
      split at h
      · cases h
      · cases h
        exact ⟨target, [], .inl ⟨rfl, rfl⟩, equals_not_mem_of_matchStreamPath hmatch, rfl⟩
  | some qpos =>
    simp only [hmark] at h
    split at h
    · cases h
    · rename_i id digits hmatch
      split at h
      · cases h
      · cases h
        exact ⟨_, _, .inr (CxxString.split_of_find hmark),
          equals_not_mem_of_matchStreamPath hmatch, rfl⟩

/-- `parse_target` reads the token that the query branch of `extract_token` reads. -/
theorem token_parseTarget {target : CxxString} {pt : ParsedTarget}
    (h : parseTarget target = some pt) : pt.token = tokenIn target := by
  obtain ⟨path, query, hsplit, hpath, htoken⟩ := parseTarget_some h
  have hnone : afterMark path = none := by
    unfold afterMark
    rw [CxxString.find_eq_none_of_not_mem (c := '=') (by decide) hpath]
    rfl
  rw [htoken]
  rcases hsplit with ⟨rfl, rfl⟩ | rfl
  · rw [tokenIn_eq target, hnone]
    rfl
  · rw [tokenIn_eq (path ++ '?' :: query), afterMark_append_sep (by decide) hnone, ← tokenIn_eq]

/-- `extract_token` finds the parameter if and only if no `token=` that is no parameter comes
first, or its text is the same; `parse_target` agrees with it always. -/
theorem extractToken_eq_parameter_iff (req : HttpRequest) (hbearer : req.NoBearer) :
    (∀ path query, Separated query → req.target = path ++ queryPart query →
        (extractToken req = tokenParameter query ↔
          ∀ text, stray path query = some text → text = tokenParameter query)) ∧
      ∀ pt, parseTarget req.target = some pt → pt.token = extractToken req := by
  rw [extractToken_eq hbearer]
  constructor
  · intro path query hseparated htarget
    rw [htarget, tokenIn_target hseparated]
    cases stray path query with
    | none => exact iff_of_true rfl fun text htext => by cases htext
    | some found =>
      constructor
      · intro heq text htext
        cases htext
        exact heq
      · intro hall
        exact hall found rfl
  · intro pt hpt
    exact token_parseTarget hpt

theorem extractToken_eq_parameter_iff_single :
    extractToken { method := .get, target := "/stream/ab/0?token=y".toList } = "y".toList :=
  ((extractToken_eq_parameter_iff
    { method := .get, target := "/stream/ab/0?token=y".toList } (fun _ h => by cases h)).1
      "/stream/ab/0".toList (some [("token".toList, "y".toList)]) (by decide) rfl).mpr
        (fun _ h => by cases h)

/-- Another parameter whose name ends in `token`. -/
theorem extractToken_longer_name :
    extractToken { method := .get, target := "/stream/ab/0?mytoken=x&token=y".toList } =
        "x".toList ∧
      tokenParameter (some [("mytoken".toList, "x".toList), ("token".toList, "y".toList)]) =
        "y".toList := by decide

/-- The target with another value in place of the one that follows the mark. -/
def withToken (target : CxxString) (pos : Nat) (value : CxxString) : CxxString :=
  target.take (pos + 6) ++ (value ++ (target.drop (pos + 6)).dropWhile (· != '&'))

/-- What the log shows of it. -/
def redacted (target : CxxString) (pos : Nat) : CxxString :=
  target.take pos ++ "token=***".toList ++ (target.drop (pos + 6)).dropWhile (· != '&')

section Redaction
variable {target : CxxString} {pos : Nat} (h : CxxString.find "token=".toList target = some pos)

theorem dropWhile_tail (s : CxxString) :
    s.dropWhile (· != '&') = [] ∨ ∃ t, s.dropWhile (· != '&') = '&' :: t := by
  cases htail : s.dropWhile (· != '&') with
  | nil => exact .inl rfl
  | cons c t =>
    have hc := List.head?_dropWhile_not (· != '&') s
    rw [htail] at hc
    have hamp : c = '&' := by simpa using hc
    exact .inr ⟨t, by rw [hamp]⟩

theorem withToken_self : withToken target pos (tokenValue target pos) = target := by
  unfold withToken
  rw [tokenValue_eq, List.takeWhile_append_dropWhile, List.take_append_drop]

include h

theorem find_withToken (value : CxxString) :
    CxxString.find "token=".toList (withToken target pos value) = some pos :=
  CxxString.find_append_of_some (CxxString.find_take h) _

theorem length_front : (target.take pos).length = pos := by
  have hlen := CxxString.length_of_find h
  rw [List.length_take]
  omega

theorem length_front_mark : (target.take pos ++ "token=".toList).length = pos + 6 := by
  rw [List.length_append, length_front h]
  rfl

theorem withToken_eq (value : CxxString) : withToken target pos value =
    target.take pos ++ ("token=".toList ++
      (value ++ (target.drop (pos + 6)).dropWhile (· != '&'))) := by
  have hsplit := CxxString.split_of_find h
  have htake := congrArg (List.take (pos + 6)) hsplit
  rw [← List.append_assoc, List.take_left' (length_front_mark h)] at htake
  unfold withToken
  rw [htake, List.append_assoc]

theorem tokenIn_withToken {value : CxxString} (hvalue : '&' ∉ value) :
    tokenIn (withToken target pos value) = value := by
  have hmark : afterMark (withToken target pos value) =
      some (value ++ (target.drop (pos + 6)).dropWhile (· != '&')) := by
    unfold afterMark
    rw [find_withToken h, Option.map_some, withToken_eq h, ← List.append_assoc,
      List.drop_left' (length_front_mark h)]
  rw [tokenIn_eq, hmark]
  exact takeWhile_append_tail hvalue (dropWhile_tail _)

/-- What is logged ends where the value began, and goes on with the next `&`. -/
theorem sanitizeTokenUrl_withToken {value : CxxString} (hvalue : '&' ∉ value) :
    sanitizeTokenUrl (withToken target pos value) = redacted target pos := by
  have hfind := find_withToken h value
  have hfront := length_front h
  have hclean : '&' ∉ "token=".toList ++ value := by
    rw [List.mem_append, not_or]
    exact ⟨by decide, hvalue⟩
  have htail := dropWhile_tail (target.drop (pos + 6))
  have heq := withToken_eq h value
  unfold sanitizeTokenUrl redacted
  rw [hfind]
  generalize (target.drop (pos + 6)).dropWhile (· != '&') = rest at htail heq
  generalize withToken target pos value = url at heq
  have hdrop : url.drop pos = "token=".toList ++ value ++ rest := by
    rw [heq, List.append_assoc]
    exact List.drop_left' hfront
  have htake : CxxString.substr url 0 (some pos) = target.take pos := by
    rw [heq]
    exact List.take_left' hfront
  simp only [htake, CxxString.findFrom, hdrop, CxxString.find_append_of_not_mem rest hclean]
  congr 1
  rcases htail with rfl | ⟨t, rfl⟩
  · rfl
  · have hstart := CxxString.find_cons_append '&' [] t
    rw [List.nil_append] at hstart
    simp only [hstart, Option.map_some, CxxString.substr]
    rw [Nat.zero_add, Nat.add_comm, ← List.drop_drop, hdrop]
    exact List.drop_left

end Redaction

/-- Two targets that differ in the token alone look the same in the log of either server. -/
theorem sanitizeUrl_withToken (req : HttpRequest) (hbearer : req.NoBearer) (pos : Nat)
    (h : CxxString.find "token=".toList req.target = some pos) (value : CxxString)
    (hvalue : '&' ∉ value) :
    withToken req.target pos (extractToken req) = req.target ∧
      extractToken { req with target := withToken req.target pos value } = value ∧
      HttpRangeServer.sanitizeUrl (withToken req.target pos value) =
        HttpRangeServer.sanitizeUrl req.target ∧
      ControlApiServer.sanitizeUrl (withToken req.target pos value) =
        ControlApiServer.sanitizeUrl req.target ∧
      HttpRangeServer.sanitizeUrl req.target = redacted req.target pos ∧
      ControlApiServer.sanitizeUrl req.target = redacted req.target pos := by
  have htoken : extractToken req = tokenValue req.target pos := by
    rw [extractToken_eq hbearer, tokenIn, h]
  have hself : withToken req.target pos (extractToken req) = req.target := by
    rw [htoken]
    exact withToken_self
  have hold : '&' ∉ extractToken req := by
    rw [htoken, tokenValue_eq]
    intro hmem
    have hne := List.mem_takeWhile_imp hmem
    exact absurd hne (by decide)
  have hnew := sanitizeTokenUrl_withToken h hvalue
  have hsame := sanitizeTokenUrl_withToken h hold
  rw [hself] at hsame
  refine ⟨hself, ?_, hnew.trans hsame.symm, hnew.trans hsame.symm, hsame, hsame⟩
  have hbearer' : HttpRequest.NoBearer { req with target := withToken req.target pos value } :=
    hbearer
  rw [extractToken_eq hbearer']
  exact tokenIn_withToken h hvalue

theorem sanitizeUrl_withToken_secret :
    HttpRangeServer.sanitizeUrl "/stream/ab/0?token=abc&x=1".toList =
      "/stream/ab/0?token=***&x=1".toList :=
  (sanitizeUrl_withToken { method := .get, target := "/stream/ab/0?token=abc&x=1".toList }
    (fun _ h => by cases h) 13 (by decide) "token=".toList (by decide)).2.2.2.2.1

end QueryToken

end SeekServe
