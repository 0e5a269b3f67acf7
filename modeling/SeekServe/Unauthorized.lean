import SeekServe.EngineRuns

/-!
# Requests without the token

Both handlers decide what to answer to a request that does not carry the configured token
before they look at any state.
-/

namespace SeekServe

set_option autoImplicit false

/-- The handler answers by itself: it calls no one and reads nothing. -/
def AnswersAlone (events : List ConnEvent) : Prop := ∃ res, events = [.respond res]

/-- A control request that leaves everything as it was. -/
structure ControlOutcome.Untouched (o : ControlOutcome) (ctx : ControlContext) : Prop where
  sessions : o.sessions = ctx.sessions
  catalog : o.catalog = ctx.catalog
  shutdown : o.shutdown = false
  calls : o.calls = []

section Refused
variable {token : CxxString} {req : HttpRequest} (hreq : authorized token req = false)
include hreq

/-- What the stream server sends is a function of the request. -/
theorem HttpRangeServer.refused_eq {s : HttpRangeServer} (hs : s.authToken = token)
    (io : ConnectionIo) :
    s.handleConnection io req =
      if req.method ≠ .get ∧ req.method ≠ .head then
        sendError req 405 "Method not allowed".toList
      else if (parseTarget req.target).isNone then sendError req 404 "Not found".toList
      else sendError req 403 "Forbidden".toList := by
  unfold handleConnection
  split
  · rfl
  · rw [hs]
    cases parseTarget req.target with
    | none => rfl
    | some pt => simp [hreq]

/-- What the control API does is decided by the request, as one of three routes. -/
theorem ControlContext.refused_eq {ctx : ControlContext} (hctx : ctx.authToken = token) :
    ctx.handleConnection req =
      ctx.serve
        (if req.body.length > kMaxBodySize then .reject 413 "Request body too large".toList
        else if req.method = .options then .preflight
        else .reject 403 "Invalid or missing auth token".toList) := by
  unfold handleConnection controlRoute
  simp only [hctx, hreq, if_true]

theorem HttpRangeServer.refused_answersAlone {s : HttpRangeServer} (hs : s.authToken = token)
    (io : ConnectionIo) : AnswersAlone (s.handleConnection io req) := by
  rw [refused_eq hreq hs]
  split
  · exact ⟨_, rfl⟩
  · split <;> exact ⟨_, rfl⟩

theorem ControlContext.refused_reply {ctx ctx' : ControlContext} (hctx : ctx.authToken = token)
    (hctx' : ctx'.authToken = token) :
    (ctx.handleConnection req).reply = (ctx'.handleConnection req).reply := by
  rw [refused_eq hreq hctx, refused_eq hreq hctx']
  split
  · rfl
  · split <;> rfl

theorem ControlContext.refused_untouched (ctx : ControlContext) (hctx : ctx.authToken = token) :
    (ctx.handleConnection req).Untouched ctx := by
  rw [refused_eq hreq hctx]
  split
  · exact ⟨rfl, rfl, rfl, rfl⟩
  · split <;> exact ⟨rfl, rfl, rfl, rfl⟩

theorem SeekServeEngine.control_refused {e : SeekServeEngine} (env : Env)
    (he : ∀ api, e.apiServer = some api → api.authToken = token) : (e.control env req).2 = e := by
  unfold control
  split
  · rename_i server api _ hapi
    have h := ControlContext.refused_untouched hreq (e.controlContext env server api)
      (he api hapi)
    simp only [afterControl]
    rw [h.shutdown, h.sessions, h.catalog]
    rfl
  · rfl

end Refused

/-- A caller without the token gets the same answer from any two servers that have it, and
changes nothing; the comparison that tells is equality. -/
theorem caller_without_token (token : CxxString) (htoken : token ≠ []) (req : HttpRequest)
    (hreq : extractToken req ≠ token) :
    (∀ (s s' : HttpRangeServer) (io io' : ConnectionIo),
      s.authToken = token → s'.authToken = token →
        s.handleConnection io req = s'.handleConnection io' req ∧
          AnswersAlone (s.handleConnection io req)) ∧
    (∀ ctx ctx' : ControlContext, ctx.authToken = token → ctx'.authToken = token →
      (ctx.handleConnection req).reply = (ctx'.handleConnection req).reply ∧
        (ctx.handleConnection req).Untouched ctx) ∧
    (∀ (env : Env) (e : SeekServeEngine),
      (∀ api, e.apiServer = some api → api.authToken = token) → (e.control env req).2 = e) ∧
    ∀ a b : CxxString, constantTimeCompare a b = true ↔ a = b := by
  have hauth := authorized_eq_false htoken hreq
  refine ⟨?_, ?_, ?_, constantTimeCompare_eq_true_iff⟩
  · intro s s' io io' hs hs'
    refine ⟨?_, HttpRangeServer.refused_answersAlone hauth hs io⟩
    rw [HttpRangeServer.refused_eq hauth hs, HttpRangeServer.refused_eq hauth hs']
  · intro ctx ctx' hctx hctx'
    exact ⟨ControlContext.refused_reply hauth hctx hctx',
      ControlContext.refused_untouched hauth ctx hctx⟩
  · intro env e he
    exact SeekServeEngine.control_refused hauth env he

def guarded : SeekServeEngine :=
  SeekServeEngine.machine.run (.create sampleEnv { authToken := "secret".toList } .empty)
    (sampleEvents (addSample 1 "a.torrent".toList ++ [.startServer]))

def deletion (token : CxxString) : HttpRequest where
  method := .delete
  target := "/api/torrents/".toList ++ sampleId 1 ++ "?token=".toList ++ token

/-- A deletion with a wrong token, on an engine that has the torrent. -/
theorem caller_without_token_delete :
    (guarded.control sampleEnv (deletion "sacred".toList)).2 = guarded := by
  obtain ⟨-, -, h, -⟩ := caller_without_token "secret".toList (by decide)
    (deletion "sacred".toList) (by decide)
  exact h sampleEnv guarded fun api hapi => by
    cases hapi
    rfl

/-- With the token the torrent is removed. -/
example :
    (guarded.sessions.hasTorrent (sampleId 1),
      (guarded.control sampleEnv (deletion "secret".toList)).2.sessions.hasTorrent (sampleId 1)) =
      (true, false) := by decide

end SeekServe
