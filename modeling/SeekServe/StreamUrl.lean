import SeekServe.HttpConnection

/-!
# The stream URL

What the server reads out of the target of the URL that `stream_url` built: the target is
parsed by `parse_target` for the file and by `extract_token` for the token.
-/

namespace SeekServe

set_option autoImplicit false

namespace HttpRangeServer

/-- The part of the URL before its path. -/
def origin (s : HttpRangeServer) : CxxString :=
  "http://".toList ++ s.config.bindAddress ++ ":".toList ++ CxxString.ofInt s.port

def streamPath (id : TorrentId) (fi : Int) : CxxString :=
  "/stream/".toList ++ (id ++ ("/".toList ++ CxxString.ofInt fi))

def streamTarget (id : TorrentId) (fi : Int) (value : CxxString) : CxxString :=
  streamPath id fi ++ ("?token=".toList ++ value)

theorem streamUrl_eq (s : HttpRangeServer) (id : TorrentId) (fi : Int) :
    s.streamUrl id fi = s.origin ++ streamTarget id fi s.authToken := by
  unfold streamUrl origin streamTarget streamPath
  generalize "http://".toList = scheme, ":".toList = colon, "/stream/".toList = stream,
    "/".toList = slash, "?token=".toList = query
  simp only [List.append_assoc]

theorem streamPath_eq (id : TorrentId) (fi : Int) :
    streamPath id fi =
      ['/', 's', 't', 'r', 'e', 'a', 'm', '/'] ++ (id ++ '/' :: CxxString.ofInt fi) := by
  have hstream : "/stream/".toList = ['/', 's', 't', 'r', 'e', 'a', 'm', '/'] := by decide
  have hslash : "/".toList = ['/'] := by decide
  unfold streamPath
  rw [hstream, hslash, List.singleton_append]

theorem streamTarget_eq (id : TorrentId) (fi : Int) (value : CxxString) :
    streamTarget id fi value =
      streamPath id fi ++ (['?', 't', 'o', 'k', 'e', 'n', '='] ++ value) := by
  have hquery : "?token=".toList = ['?', 't', 'o', 'k', 'e', 'n', '='] := by decide
  unfold streamTarget
  rw [hquery]

section Target
variable {id : TorrentId} {fi : Int} (hid : ∀ c ∈ id, isHexDigit c = true)

include hid in
theorem not_mem_key {c : Char} (hhex : isHexDigit c = false) (hslash : c ≠ '/') (hminus : c ≠ '-') :
    c ∉ id ++ '/' :: CxxString.ofInt fi := by
  intro hm
  rcases List.mem_append.mp hm with hmem | hrest
  · rw [hid c hmem] at hhex
    cases hhex
  rcases List.mem_cons.mp hrest with he | hdigits
  · exact hslash he
  rcases CxxString.mem_ofInt hdigits with he | hdigit
  · exact hminus he
  · simp [isHexDigit, hdigit] at hhex

include hid in
theorem not_mem_streamPath {c : Char} (hhex : isHexDigit c = false) (hminus : c ≠ '-')
    (hfixed : c ∉ ['/', 's', 't', 'r', 'e', 'a', 'm', '/']) : c ∉ streamPath id fi := by
  rw [streamPath_eq]
  intro hm
  rcases List.mem_append.mp hm with h | h
  · exact hfixed h
  · exact not_mem_key hid hhex (fun he => hfixed (by simp [he])) hminus h

include hid in
/-- The first `token=` of the target is the one before the value. -/
theorem find_token_streamTarget (value : CxxString) :
    CxxString.find ['t', 'o', 'k', 'e', 'n', '='] (streamTarget id fi value) =
      some ((streamPath id fi).length + 1) := by
  have hnone : CxxString.find ['t', 'o', 'k', 'e', 'n', '='] (streamPath id fi) = none :=
    CxxString.find_eq_none_of_not_mem (c := '=') (by decide)
      (not_mem_streamPath hid (by decide) (by decide) (by decide))
  have hstart := CxxString.find_cons_append 't' ['o', 'k', 'e', 'n', '='] value
  rw [streamTarget_eq, List.cons_append,
    CxxString.find_append_sep (by decide) (List.cons_ne_nil _ _) hnone]
  simp only [List.cons_append, List.nil_append] at hstart ⊢
  rw [hstart, Option.map_some, Nat.zero_add]

include hid in
theorem extractToken_streamTarget (value : CxxString) {req : HttpRequest}
    (hauth : req.authorization = none) (htarget : req.target = streamTarget id fi value) :
    extractToken req = value.takeWhile (· != '&') := by
  have htoken : "token=".toList = ['t', 'o', 'k', 'e', 'n', '='] := by decide
  have hdrop : (streamTarget id fi value).drop ((streamPath id fi).length + 1 + 6) = value := by
    have hlen : (streamPath id fi ++ ['?', 't', 'o', 'k', 'e', 'n', '=']).length =
        (streamPath id fi).length + 1 + 6 := by
      rw [List.length_append]
      rfl
    rw [streamTarget_eq, ← List.append_assoc, ← hlen]
    exact List.drop_left
  unfold extractToken
  simp only [hauth, htarget, htoken, find_token_streamTarget hid value]
  rw [tokenValue_eq, hdrop]

include hid in
theorem matchStreamPath_streamPath (h0 : 0 ≤ fi) :
    matchStreamPath (streamPath id fi) =
      if id = [] then none else some (id, CxxString.ofInt fi) := by
  have hdigits : ∀ c ∈ CxxString.ofInt fi, c.isDigit = true := by
    intro c hc
    rw [CxxString.ofInt_of_nonneg h0] at hc
    exact CxxString.isDigit_of_mem_toDigits hc
  have hne : CxxString.ofInt fi ≠ [] := by
    rw [CxxString.ofInt_of_nonneg h0]
    exact Nat.toDigits_ne_nil
  have hpre : "/stream/".toList.isPrefixOf (streamPath id fi) = true :=
    List.isPrefixOf_iff_prefix.mpr (List.prefix_append _ _)
  have hdrop : (streamPath id fi).drop 8 = id ++ '/' :: CxxString.ofInt fi := by
    rw [streamPath_eq]
    rfl
  have hslash : ¬isHexDigit '/' = true := by decide
  unfold matchStreamPath
  rw [if_pos hpre, hdrop]
  simp only [List.takeWhile_append_of_pos hid, List.dropWhile_append_of_pos hid,
    List.takeWhile_cons_of_neg hslash, List.dropWhile_cons_of_neg hslash, List.append_nil]
  by_cases hempty : id = []
  · rw [if_neg (fun h => h.1 hempty), if_pos hempty]
  · rw [if_pos ⟨hempty, hne, List.all_eq_true.mpr hdigits⟩, if_neg hempty]

include hid in
theorem parseTarget_streamTarget (h0 : 0 ≤ fi) (hlt : fi < 2 ^ 31) (value : CxxString) :
    (∃ token, parseTarget (streamTarget id fi value) = some ⟨id, fi, token⟩) ↔ id ≠ [] := by
  have hmark : '?' ∉ streamPath id fi :=
    not_mem_streamPath hid (by decide) (by decide) (by decide)
  have hfind : CxxString.find ['?'] (streamTarget id fi value) =
      some (streamPath id fi).length := by
    have hstart := CxxString.find_cons_append '?' [] (['t', 'o', 'k', 'e', 'n', '='] ++ value)
    rw [streamTarget_eq, CxxString.find_append_of_not_mem _ hmark]
    simp only [List.cons_append, List.nil_append] at hstart ⊢
    rw [hstart]
    simp
  have hpath : CxxString.substr (streamTarget id fi value) 0 (some (streamPath id fi).length) =
      streamPath id fi := List.take_left
  unfold parseTarget
  simp only [hfind, hpath, matchStreamPath_streamPath hid h0]
  by_cases hempty : id = []
  · simp [hempty]
  · simp [hempty, CxxString.stoi_ofInt h0 hlt]

end Target

/-- The file and the token that the server reads out of a request are those of the URL. -/
structure OpensStream (s : HttpRangeServer) (id : TorrentId) (fi : Int) (req : HttpRequest) :
    Prop where
  target : ∃ token, parseTarget req.target = some ⟨id, fi, token⟩
  token : extractToken req = s.authToken
  authorized : authorized s.authToken req = true

theorem opensStream_iff {s : HttpRangeServer} {id : TorrentId} {fi : Int} {req : HttpRequest}
    (hid : ∀ c ∈ id, isHexDigit c = true) (h0 : 0 ≤ fi) (hlt : fi < 2 ^ 31) {value : CxxString}
    (hauth : req.authorization = none) (htarget : req.target = streamTarget id fi value) :
    s.OpensStream id fi req ↔ id ≠ [] ∧ value.takeWhile (· != '&') = s.authToken := by
  have htoken := extractToken_streamTarget hid value hauth htarget
  have hparse := parseTarget_streamTarget hid h0 hlt value
  constructor
  · intro h
    exact ⟨hparse.mp (htarget ▸ h.target), htoken.symm.trans h.token⟩
  · rintro ⟨hne, hvalue⟩
    have heq : extractToken req = s.authToken := htoken.trans hvalue
    refine ⟨htarget ▸ hparse.mpr hne, heq, ?_⟩
    unfold SeekServe.authorized
    rw [heq, (constantTimeCompare_eq_true_iff _ _).mpr rfl, Bool.or_true]

/-- The URL opens its own stream when the token has no `&`, and for a client that leaves out
what follows a `#` of the URL, when it has no `#` either. -/
theorem streamUrl_opens_iff (s : HttpRangeServer) (id : TorrentId) (fi : Int)
    (hid : ∀ c ∈ id, isHexDigit c = true) (h0 : 0 ≤ fi) (hlt : fi < 2 ^ 31) (req : HttpRequest)
    (hauth : req.authorization = none) (target : CxxString)
    (hurl : s.streamUrl id fi = s.origin ++ target) :
    (req.target = target →
      (s.OpensStream id fi req ↔ id ≠ [] ∧ '&' ∉ s.authToken)) ∧
    (req.target = target.takeWhile (· != '#') →
      (s.OpensStream id fi req ↔ id ≠ [] ∧ '&' ∉ s.authToken ∧ '#' ∉ s.authToken)) := by
  have htarget : target = streamTarget id fi s.authToken := by
    rw [streamUrl_eq] at hurl
    exact (List.append_cancel_left hurl).symm
  refine ⟨?_, ?_⟩
  · intro hreq
    rw [opensStream_iff hid h0 hlt hauth (hreq.trans htarget), CxxString.takeWhile_ne_eq_self_iff]
  · intro hreq
    have hhash : ∀ c ∈ streamPath id fi ++ ['?', 't', 'o', 'k', 'e', 'n', '='],
        (c != '#') = true := by
      intro c hc
      apply bne_iff_ne.mpr
      rintro rfl
      rcases List.mem_append.mp hc with h | h
      · exact not_mem_streamPath hid (by decide) (by decide) (by decide) h
      · exact absurd h (by decide)
    have hcut : target.takeWhile (· != '#') =
        streamTarget id fi (s.authToken.takeWhile (· != '#')) := by
      rw [htarget, streamTarget_eq, streamTarget_eq, ← List.append_assoc,
        List.takeWhile_append_of_pos hhash, List.append_assoc]
    rw [opensStream_iff hid h0 hlt hauth (hreq.trans hcut)]
    refine and_congr_right fun _ => ?_
    constructor
    · intro h
      have hlen := congrArg List.length h
      have h1 := (List.takeWhile_prefix (p := (· != '&'))
        (l := s.authToken.takeWhile (· != '#'))).length_le
      have h2 := (List.takeWhile_prefix (p := (· != '#')) (l := s.authToken)).length_le
      have hself : s.authToken.takeWhile (· != '#') = s.authToken :=
        (List.takeWhile_prefix _).eq_of_length (by omega)
      rw [hself] at h
      exact ⟨CxxString.takeWhile_ne_eq_self_iff.mp h, CxxString.takeWhile_ne_eq_self_iff.mp hself⟩
    · rintro ⟨hamp, hhash⟩
      rw [CxxString.takeWhile_ne_eq_self_iff.mpr hhash, CxxString.takeWhile_ne_eq_self_iff.mpr hamp]

def withToken (token : CxxString) : HttpRangeServer := (create {}).setAuthToken token

theorem streamUrl_opens_iff_secret :
    (withToken "secret".toList).OpensStream "ab".toList 0
      { method := .get, target := "/stream/ab/0?token=secret".toList } := by
  have hurl : (withToken "secret".toList).streamUrl "ab".toList 0 =
      (withToken "secret".toList).origin ++ "/stream/ab/0?token=secret".toList :=
    (streamUrl_eq _ _ _).trans (congrArg _ (by decide))
  have hid : ∀ c ∈ "ab".toList, isHexDigit c = true := List.all_eq_true.mp (by decide)
  have h := streamUrl_opens_iff (withToken "secret".toList) "ab".toList 0 hid (by decide)
    (by decide) { method := .get, target := "/stream/ab/0?token=secret".toList } rfl _ hurl
  exact (h.1 rfl).mpr ⟨by decide, by decide⟩

/-- The token is cut at its `&`. -/
theorem streamUrl_with_ampersand_is_refused :
    (withToken "a&b".toList).streamUrl "ab".toList 0 =
        (withToken "a&b".toList).origin ++ "/stream/ab/0?token=a&b".toList ∧
      extractToken { method := .get, target := "/stream/ab/0?token=a&b".toList } = "a".toList ∧
      authorized (withToken "a&b".toList).authToken
        { method := .get, target := "/stream/ab/0?token=a&b".toList } = false :=
  ⟨(streamUrl_eq _ _ _).trans (congrArg _ (by decide)), by decide, by decide⟩

end HttpRangeServer

end SeekServe
