import SeekServe.Lib.CxxString

/-!
# HTTP messages and the token check

Both servers read the same parts of a request and check the same token.
-/

namespace SeekServe

set_option autoImplicit false

inductive Method where
  | get
  | head
  | post
  | delete
  | options
  | other
  deriving DecidableEq, Repr

structure HttpRequest where
  method : Method
  target : CxxString
  version : Nat := 11
  keepAlive : Bool := true
  range : Option CxxString := none
  authorization : Option CxxString := none
  body : CxxString := []
  deriving DecidableEq, Repr

structure HttpResponse where
  status : Nat
  version : Nat
  server : CxxString := "SeekServe/0.1".toList
  keepAlive : Bool
  contentType : Option CxxString := none
  acceptRanges : Option CxxString := none
  contentRange : Option CxxString := none
  contentLength : Int
  body : CxxString := []
  deriving DecidableEq, Repr

/-- `if (a.size() != b.size()) return false;`, then the bits in which the characters
differ are collected over the whole length. -/
def constantTimeCompare (a b : CxxString) : Bool :=
  if a.length ≠ b.length then false
  else (a.zip b).foldl (fun result c => result ||| (c.1.toNat ^^^ c.2.toNat)) 0 == 0

/-- The value after `token=`, up to the next `&`. -/
def tokenValue (s : CxxString) (pos : Nat) : CxxString :=
  let start := pos + 6
  match CxxString.findFrom ['&'] s start with
  | none => CxxString.substr s start none
  | some amp => CxxString.substr s start (some (amp - start))

def extractToken (req : HttpRequest) : CxxString :=
  let fromTarget :=
    match CxxString.find "token=".toList req.target with
    | some pos => tokenValue req.target pos
    | none => []
  match req.authorization with
  | some val =>
    if val.length > 7 ∧ CxxString.substr val 0 (some 7) = "Bearer ".toList then
      CxxString.substr val 7 none
    else fromTarget
  | none => fromTarget

def authorized (authToken : CxxString) (req : HttpRequest) : Bool :=
  authToken.isEmpty || constantTimeCompare (extractToken req) authToken

/-- The value after `token=` ends at the first `&`. -/
theorem tokenValue_eq (s : CxxString) (pos : Nat) :
    tokenValue s pos = (s.drop (pos + 6)).takeWhile (· != '&') := by
  rw [CxxString.takeWhile_ne]
  unfold tokenValue CxxString.findFrom
  simp only
  cases CxxString.find ['&'] (s.drop (pos + 6)) with
  | none => rfl
  | some i => simp [CxxString.substr]

theorem foldl_or_eq_zero (cs : List (Char × Char)) (acc : Nat) :
    cs.foldl (fun result c => result ||| (c.1.toNat ^^^ c.2.toNat)) acc = 0 ↔
      acc = 0 ∧ ∀ c ∈ cs, c.1 = c.2 := by
  induction cs generalizing acc with
  | nil => simp
  | cons c cs ih =>
    rw [List.foldl_cons, ih, Nat.or_eq_zero_iff, Nat.xor_eq_zero_iff, Char.toNat_inj]
    simp only [List.mem_cons, forall_eq_or_imp]
    exact and_assoc

/-- The comparison that does not stop early decides equality. -/
theorem constantTimeCompare_eq_true_iff (a b : CxxString) :
    constantTimeCompare a b = true ↔ a = b := by
  unfold constantTimeCompare
  by_cases hlen : a.length = b.length
  · rw [if_neg (not_not_intro hlen), beq_iff_eq, foldl_or_eq_zero]
    constructor
    · intro h
      apply List.ext_getElem hlen
      intro i h1 h2
      have hi : i < (a.zip b).length := by
        rw [List.length_zip]
        exact Nat.lt_min.mpr ⟨h1, h2⟩
      have hmem := h.2 _ (List.getElem_mem hi)
      rwa [List.getElem_zip] at hmem
    · intro h
      subst h
      refine ⟨rfl, ?_⟩
      intro c hc
      obtain ⟨i, hi, rfl⟩ := List.getElem_of_mem hc
      rw [List.getElem_zip]
  · rw [if_pos hlen]
    constructor
    · intro h
      cases h
    · intro h
      exact absurd (congrArg List.length h) hlen

theorem authorized_eq_false {authToken : CxxString} {req : HttpRequest} (htoken : authToken ≠ [])
    (hreq : extractToken req ≠ authToken) : authorized authToken req = false := by
  unfold authorized
  rw [Bool.or_eq_false_iff]
  refine ⟨?_, ?_⟩
  · simpa using htoken
  · exact Bool.eq_false_iff.mpr fun h => hreq ((constantTimeCompare_eq_true_iff _ _).mp h)

end SeekServe
