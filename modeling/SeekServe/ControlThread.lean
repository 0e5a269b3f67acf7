import SeekServe.ControlApi
import SeekServe.Lib.Utf8

/-!
# The thread of a control connection

`handle_connection` runs in a detached thread: an exception that leaves it ends the process.
One comes from `value` on a body of the wrong shape, one from `dump` on a string that is no
UTF-8; both libraries' other failures are caught.
-/

namespace SeekServe

set_option autoImplicit false

/-- `dump` can write the string. -/
def Dumpable (s : CxxString) : Prop :=
  (Utf8.decode s.bytes).isSome = true

instance (s : CxxString) : Decidable (Dumpable s) := inferInstanceAs (Decidable (_ = true))

/-- The strings in a body; libtorrent knows the names of the torrents. -/
def ControlBody.strings (name : TorrentId → CxxString) : ControlBody → List CxxString
  | .empty => []
  | .error message => [message]
  | .status text => [text]
  | .torrentId id => [id]
  | .torrents list => list.flatMap fun entry => [entry.1, name entry.1]
  | .cache list => list.flatMap fun entry => [entry.torrentId, entry.row.filePath]
  | .files list _ => list.map FileInfo.path
  | .selected _ => ["selected".toList]
  | .torrentStatus id _ _ _ => [id, name id]
  | .streamUrl url _ => [url]

/-- The responses that a connection's thread has written when it ends, and whether an
exception has left it. -/
structure ThreadRun where
  responses : List (Nat × ControlBody)
  escaped : Bool

/-- One response has been written and no exception has left the thread. -/
def ThreadRun.Answered (run : ThreadRun) : Prop := run.responses.length = 1 ∧ run.escaped = false

def ControlReply.thread (name : TorrentId → CxxString) : ControlReply → ThreadRun
  | .sent status body =>
    -- `body.dump()` stands before the write
    if ∀ s ∈ body.strings name, Dumpable s then ⟨[(status, body)], false⟩ else ⟨[], true⟩
  | .terminated => ⟨[], true⟩

def ControlContext.runThread (ctx : ControlContext) (name : TorrentId → CxxString)
    (req : HttpRequest) : ThreadRun :=
  (ctx.handleConnection req).reply.thread name

/-- `value` finds strings, or nothing, where the handler looks. -/
def JsonBody.Readable : JsonBody → Prop
  | .invalid => True
  | .notObject => False
  | .object uri savePath =>
    ∃ s, JsonField.value uri = some s ∧ (s ≠ [] → (JsonField.value savePath).isSome = true)

/-- The strings from outside that the answer to a request quotes. -/
def ControlContext.Quotes (ctx : ControlContext) (name : TorrentId → CxxString) :
    ControlRoute → CxxString → Prop
  | .listTorrents, s => ∃ id ∈ ctx.sessions.listTorrents, s = id ∨ s = name id
  | .listCache, s => ∃ entry ∈ ctx.cache.listCached, s = entry.torrentId ∨ s = entry.row.filePath
  | .torrent id .files, s => ctx.sessions.hasTorrent id = true ∧
      ∃ files, ctx.catalog.listFiles id = .ok files ∧ ∃ file ∈ files, s = file.path
  | .torrent id .status, s => ctx.sessions.hasTorrent id = true ∧ s = name id
  | .torrent id .streamUrl, s => ctx.sessions.hasTorrent id = true ∧
      ∃ fi, ctx.catalog.selectedFile id = some fi ∧ s = ctx.rangeServer.streamUrl id fi
  | _, _ => False

theorem dumpable_of_ascii {s : CxxString} (h : (s.all fun c => c.toNat < 128) = true) :
    Dumpable s := by
  have hascii : Utf8.Ascii s.bytes := by
    intro b hb
    apply CxxString.lt_of_mem_bytes _ hb
    intro c hc
    exact of_decide_eq_true (List.all_eq_true.mp h c hc)
  have htext := Utf8.toUtf16_ascii hascii
  unfold Utf8.toUtf16 at htext
  unfold Dumpable
  cases hd : Utf8.decode s.bytes with
  | none => simp [hd] at htext
  | some cs => rfl

theorem dumpable_of_hex {s : CxxString} (h : ∀ c ∈ s, isHexDigit c = true) : Dumpable s :=
  dumpable_of_ascii (List.all_eq_true.mpr fun c hc => decide_eq_true (lt_of_isHexDigit (h c hc)))

theorem isHexDigit_hexDigit {n : Nat} (h : n < 16) : isHexDigit (hexDigit n) = true := by
  have hall : ∀ k : Fin 16, isHexDigit (hexDigit k) = true := by decide
  exact hall ⟨n, h⟩

theorem isHexDigit_of_mem_toHex {bytes : List UInt8} {c : Char} (h : c ∈ toHex bytes) :
    isHexDigit c = true := by
  obtain ⟨b, _, hc⟩ := List.mem_flatMap.mp h
  have hlt : b.toNat < 256 := b.toNat_lt
  simp only [List.mem_cons, List.not_mem_nil, or_false] at hc
  rcases hc with rfl | rfl
  · exact isHexDigit_hexDigit (by omega)
  · exact isHexDigit_hexDigit (by omega)

theorem isHexDigit_of_mem_infohashToHex {ih : InfoHash} {c : Char} (h : c ∈ infohashToHex ih) :
    isHexDigit c = true := by
  unfold infohashToHex at h
  split at h
  · exact isHexDigit_of_mem_toHex h
  · exact isHexDigit_of_mem_toHex h

theorem dumpable_message (e : Errc) : Dumpable e.message := by
  apply dumpable_of_ascii
  cases e <;> rfl

/-- A route that a request can have: its message is the handler's own, its id hexadecimal. -/
def ControlRoute.Proper : ControlRoute → Prop
  | .reject _ message => Dumpable message
  | .torrent id _ => ∀ c ∈ id, isHexDigit c = true
  | _ => True

theorem proper_addRoute (body : JsonBody) : (addRoute body).Proper := by
  unfold addRoute
  split
  · exact dumpable_of_ascii rfl
  · trivial
  split
  · trivial
  split
  · exact dumpable_of_ascii rfl
  · split <;> trivial

theorem isHexDigit_of_matchTorrentPath {path id sub : CxxString}
    (h : matchTorrentPath path = some (id, sub)) : ∀ c ∈ id, isHexDigit c = true := by
  unfold matchTorrentPath at h
  split at h
  · simp only at h
    split at h
    · cases h
      intro c hc
      exact List.mem_takeWhile_imp hc
    · cases h
  · cases h

theorem proper_controlRoute (authToken : CxxString) (json : CxxString → JsonBody)
    (req : HttpRequest) : (controlRoute authToken json req).Proper := by
  unfold controlRoute
  simp only
  split
  · exact dumpable_of_ascii rfl
  split
  · trivial
  split
  · exact dumpable_of_ascii rfl
  split
  · exact proper_addRoute _
  split
  · trivial
  split
  · rename_i hmatch
    exact isHexDigit_of_matchTorrentPath hmatch
  split
  · trivial
  split
  · trivial
  · exact dumpable_of_ascii rfl

theorem answered_thread_iff (name : TorrentId → CxxString) (status : Nat) (body : ControlBody) :
    ((ControlReply.sent status body).thread name).Answered ↔
      ∀ s ∈ body.strings name, Dumpable s := by
  unfold ControlReply.thread ThreadRun.Answered
  simp only
  split
  · rename_i hall
    exact iff_of_true ⟨rfl, rfl⟩ hall
  · rename_i hnot
    exact iff_of_false (by simp) hnot

theorem answered_of_text {name : TorrentId → CxxString} {status : Nat} {body : ControlBody}
    {text : CxxString} (hbody : body.strings name = [text]) (htext : Dumpable text) :
    ((ControlReply.sent status body).thread name).Answered := by
  apply (answered_thread_iff name status body).mpr
  intro s hs
  rw [hbody, List.mem_singleton] at hs
  rw [hs]
  exact htext

namespace ControlContext
variable (ctx : ControlContext) (name : TorrentId → CxxString)

theorem answered_sendError (status : Nat) {message : CxxString} (h : Dumpable message) :
    ((ctx.sendError status message).reply.thread name).Answered := answered_of_text rfl h

theorem answered_onHandle (id : TorrentId) (call : TorrentCall) {text : CxxString}
    (h : Dumpable text) : ((ctx.onHandle id call text).reply.thread name).Answered := by
  unfold onHandle
  split
  · exact ctx.answered_sendError name 500 (dumpable_of_ascii rfl)
  · exact answered_of_text rfl h

theorem answered_serveSelect (id : TorrentId) (digits : CxxString) :
    ((ctx.serveSelect id digits).reply.thread name).Answered := by
  unfold serveSelect
  split
  · exact ctx.answered_sendError name 400 (dumpable_of_ascii rfl)
  split
  · exact ctx.answered_sendError name 500 (dumpable_of_ascii rfl)
  split
  · exact ctx.answered_sendError name 400 (dumpable_message _)
  · exact answered_of_text rfl (dumpable_of_ascii rfl)

theorem answered_files_iff {id : TorrentId} (hhas : ctx.sessions.hasTorrent id = true) :
    ((ctx.serveTorrent id .files).reply.thread name).Answered ↔
      ∀ s, ctx.Quotes name (.torrent id .files) s → Dumpable s := by
  simp only [serveTorrent, Quotes]
  cases hfiles : ctx.catalog.listFiles id with
  | error e =>
    refine iff_of_true (ctx.answered_sendError name 400 (dumpable_message e)) ?_
    intro s hs
    obtain ⟨_, files, hlist, _⟩ := hs
    cases hlist
  | ok files =>
    simp only [answer, answered_thread_iff, ControlBody.strings, List.mem_map]
    constructor
    · intro h s hs
      obtain ⟨_, files', hlist, file, hfile, rfl⟩ := hs
      cases hlist
      exact h file.path ⟨file, hfile, rfl⟩
    · intro h s hs
      obtain ⟨file, hfile, rfl⟩ := hs
      exact h file.path ⟨hhas, files, rfl, file, hfile, rfl⟩

theorem answered_status_iff {id : TorrentId} (hid : ∀ c ∈ id, isHexDigit c = true)
    (hhas : ctx.sessions.hasTorrent id = true) :
    ((ctx.serveTorrent id .status).reply.thread name).Answered ↔
      ∀ s, ctx.Quotes name (.torrent id .status) s → Dumpable s := by
  obtain ⟨handle, hhandle⟩ := (ctx.sessions.hasTorrent_iff id).mp hhas
  simp only [serveTorrent, hhandle, answer, answered_thread_iff, ControlBody.strings,
    List.mem_cons, List.not_mem_nil, or_false]
  constructor
  · intro h s hs
    exact h s (Or.inr hs.2)
  · intro h s hs
    rcases hs with rfl | rfl
    · exact dumpable_of_hex hid
    · exact h _ ⟨hhas, rfl⟩

theorem answered_streamUrl_iff {id : TorrentId} (hhas : ctx.sessions.hasTorrent id = true) :
    ((ctx.serveTorrent id .streamUrl).reply.thread name).Answered ↔
      ∀ s, ctx.Quotes name (.torrent id .streamUrl) s → Dumpable s := by
  simp only [serveTorrent, Quotes]
  cases hselected : ctx.catalog.selectedFile id with
  | none =>
    refine iff_of_true (ctx.answered_sendError name 400 (dumpable_of_ascii rfl)) ?_
    intro s hs
    obtain ⟨_, fi, hfi, _⟩ := hs
    cases hfi
  | some fi =>
    simp only [answer, answered_thread_iff, ControlBody.strings, List.mem_singleton]
    constructor
    · intro h s hs
      obtain ⟨_, fi', hfi, rfl⟩ := hs
      cases hfi
      exact h _ rfl
    · intro h s hs
      exact h s ⟨hhas, fi, rfl, hs⟩

theorem answered_listTorrents_iff :
    ((ctx.serve .listTorrents).reply.thread name).Answered ↔
      ∀ s, ctx.Quotes name .listTorrents s → Dumpable s := by
  simp only [serve, answer, answered_thread_iff, ControlBody.strings, List.mem_flatMap,
    List.mem_map, List.mem_cons, List.not_mem_nil, or_false]
  constructor
  · intro h s hs
    obtain ⟨id, hid, hs⟩ := hs
    exact h s ⟨_, ⟨id, hid, rfl⟩, hs⟩
  · intro h s hs
    obtain ⟨_, ⟨id, hid, rfl⟩, hs⟩ := hs
    exact h s ⟨id, hid, hs⟩

theorem answered_listCache_iff :
    ((ctx.serve .listCache).reply.thread name).Answered ↔
      ∀ s, ctx.Quotes name .listCache s → Dumpable s := by
  simp only [serve, answer, answered_thread_iff, ControlBody.strings, List.mem_flatMap,
    List.mem_cons, List.not_mem_nil, or_false]
  rfl

theorem answered_addTorrent (params : AddTorrentParams) :
    ((ctx.serve (.addTorrent params)).reply.thread name).Answered := by
  have hresult := ctx.sessions.addTorrent_result ctx.load params
  simp only [serve]
  split
  · exact ctx.answered_sendError name 400 (dumpable_message _)
  · rename_i id sessions hadd
    rw [hadd] at hresult
    cases hload : ctx.load.load params.uri with
    | error e =>
      rw [hload] at hresult
      cases hresult
    | ok ih =>
      rw [hload] at hresult
      have hid : id = infohashToHex ih := Except.ok.inj hresult
      refine answered_of_text rfl (dumpable_of_hex ?_)
      intro c hc
      rw [hid] at hc
      exact isHexDigit_of_mem_infohashToHex hc

theorem answered_torrent_iff {id : TorrentId} (hid : ∀ c ∈ id, isHexDigit c = true)
    (route : TorrentRoute) :
    ((ctx.serve (.torrent id route)).reply.thread name).Answered ↔
      ∀ s, ctx.Quotes name (.torrent id route) s → Dumpable s := by
  simp only [serve]
  by_cases hhas : ctx.sessions.hasTorrent id = false
  · rw [if_pos hhas]
    refine iff_of_true (ctx.answered_sendError name 404 (dumpable_of_ascii rfl)) ?_
    intro s hs
    cases route with
    | files | status | streamUrl =>
      exact absurd (hhas.symm.trans hs.1) Bool.false_ne_true
    | remove | select | pause | resume | unknown => cases hs
  · rw [if_neg hhas]
    have hhas' := Bool.eq_true_of_not_eq_false hhas
    cases route with
    | files => exact ctx.answered_files_iff name hhas'
    | status => exact ctx.answered_status_iff name hid hhas'
    | streamUrl => exact ctx.answered_streamUrl_iff name hhas'
    | remove =>
      refine iff_of_true ?_ (fun _ hs => False.elim hs)
      simp only [serveTorrent]
      split
      · exact ctx.answered_sendError name 500 (dumpable_message _)
      · exact answered_of_text rfl (dumpable_of_ascii rfl)
    | select digits =>
      exact iff_of_true (ctx.answered_serveSelect name id digits) (fun _ hs => False.elim hs)
    | pause =>
      refine iff_of_true ?_ (fun _ hs => False.elim hs)
      exact ctx.answered_onHandle name id _ (dumpable_of_ascii rfl)
    | resume =>
      refine iff_of_true ?_ (fun _ hs => False.elim hs)
      exact ctx.answered_onHandle name id _ (dumpable_of_ascii rfl)
    | unknown =>
      refine iff_of_true ?_ (fun _ hs => False.elim hs)
      exact ctx.answered_sendError name 404 (dumpable_of_ascii rfl)

/-- The answer to a request can be written if and only if what it quotes can, unless the
handler has thrown before. -/
theorem answered_serve_iff {route : ControlRoute} (hproper : route.Proper) :
    ((ctx.serve route).reply.thread name).Answered ↔
      route ≠ .crash ∧ ∀ s, ctx.Quotes name route s → Dumpable s := by
  have hquiet : ∀ {P : Prop}, P → route ≠ .crash → (∀ s, ¬ctx.Quotes name route s) →
      (P ↔ route ≠ .crash ∧ ∀ s, ctx.Quotes name route s → Dumpable s) := by
    intro P hP hne hnone
    exact iff_of_true hP ⟨hne, fun s hs => absurd hs (hnone s)⟩
  have hnever : ∀ {P Q : Prop}, route ≠ .crash → (P ↔ Q) → (P ↔ route ≠ .crash ∧ Q) := by
    intro P Q hne hiff
    exact ⟨fun hP => ⟨hne, hiff.mp hP⟩, fun h => hiff.mpr h.2⟩
  cases route with
  | reject status message =>
    exact hquiet (ctx.answered_sendError name status hproper) ControlRoute.noConfusion fun _ => id
  | preflight =>
    refine hquiet ?_ ControlRoute.noConfusion fun _ => id
    apply (answered_thread_iff name 204 .empty).mpr
    intro s hs
    exact absurd hs List.not_mem_nil
  | crash =>
    refine iff_of_false ?_ (fun h => h.1 rfl)
    intro h
    cases h.2
  | addTorrent params =>
    exact hquiet (ctx.answered_addTorrent name params) ControlRoute.noConfusion fun _ => id
  | listTorrents => exact hnever ControlRoute.noConfusion (ctx.answered_listTorrents_iff name)
  | serverStop =>
    refine hquiet ?_ ControlRoute.noConfusion fun _ => id
    exact answered_of_text rfl (dumpable_of_ascii rfl)
  | listCache => exact hnever ControlRoute.noConfusion (ctx.answered_listCache_iff name)
  | torrent id route =>
    exact hnever ControlRoute.noConfusion (ctx.answered_torrent_iff name hproper route)

end ControlContext

/-- `POST /api/torrents` -/
def HttpRequest.IsAddition (req : HttpRequest) : Prop :=
  req.method = .post ∧ extractPath req.target = "/api/torrents".toList

theorem addRoute_ne_crash_iff (body : JsonBody) : addRoute body ≠ .crash ↔ body.Readable := by
  cases body with
  | invalid => exact iff_of_true ControlRoute.noConfusion trivial
  | notObject => exact iff_of_false (fun h => h rfl) id
  | object uri savePath =>
    simp only [addRoute, JsonBody.Readable]
    cases JsonField.value uri with
    | none => simp
    | some uri =>
      by_cases hempty : uri = []
      · simp [hempty]
      · cases JsonField.value savePath with
        | none => simp [hempty]
        | some savePath => simp [hempty]

theorem controlRoute_ne_crash_iff {authToken : CxxString} {json : CxxString → JsonBody}
    {req : HttpRequest} (hsize : req.body.length ≤ kMaxBodySize)
    (hauth : authorized authToken req = true) :
    controlRoute authToken json req ≠ .crash ↔ (req.IsAddition → (json req.body).Readable) := by
  unfold controlRoute
  simp only
  rw [if_neg (Nat.not_lt.mpr hsize)]
  by_cases hadd : req.method = .post ∧ extractPath req.target = "/api/torrents".toList
  · have hoptions : ¬req.method = .options := by
      rw [hadd.1]
      exact Method.noConfusion
    rw [if_neg hoptions, if_neg (by rw [hauth]; exact Bool.noConfusion), if_pos hadd,
      addRoute_ne_crash_iff]
    exact ⟨fun h _ => h, fun h => h hadd⟩
  · refine iff_of_true ?_ (fun h => absurd h hadd)
    split
    · exact ControlRoute.noConfusion
    split
    · exact ControlRoute.noConfusion
    split
    · exact ControlRoute.noConfusion
    split
    · exact ControlRoute.noConfusion
    split
    · exact ControlRoute.noConfusion
    split
    · exact ControlRoute.noConfusion
    · exact ControlRoute.noConfusion

/-- An authenticated request is answered if and only if an addition has a body of the right
shape and all strings that the answer quotes are UTF-8. -/
theorem ControlContext.request_is_answered_iff (ctx : ControlContext)
    (name : TorrentId → CxxString) (req : HttpRequest) (hsize : req.body.length ≤ kMaxBodySize)
    (hauth : authorized ctx.authToken req = true) :
    (ctx.runThread name req).Answered ↔
      (req.IsAddition → (ctx.json req.body).Readable) ∧
        ∀ s, ctx.Quotes name (controlRoute ctx.authToken ctx.json req) s → Dumpable s := by
  rw [← controlRoute_ne_crash_iff hsize hauth]
  exact ctx.answered_serve_iff name (proper_controlRoute ctx.authToken ctx.json req)

/-- A server without torrents, in front of a parser that knows the empty array only. -/
def emptyContext : ControlContext where
  sessions := .create {}
  catalog := ⟨∅⟩
  rangeServer := .create {}
  cache := .empty
  authToken := []
  load := ⟨fun _ => none, fun _ => none⟩
  json body := if body = "[]".toList then .notObject else .invalid

def postArray : HttpRequest :=
  { method := .post, target := "/api/torrents".toList, body := "[]".toList }

theorem ControlContext.request_is_answered_iff_list :
    (emptyContext.runThread (fun _ => []) { method := .get, target := "/api/torrents".toList }
      ).Answered := by
  apply (emptyContext.request_is_answered_iff (fun _ => [])
    { method := .get, target := "/api/torrents".toList } (by decide) rfl).mpr
  refine ⟨?_, ?_⟩
  · intro hadd
    cases hadd.1
  · intro s hs
    obtain ⟨id, hid, _⟩ := hs
    cases hid

/-- A body that is JSON but no object ends the process. -/
theorem ControlContext.array_body_is_not_answered :
    ¬∀ (ctx : ControlContext) (name : TorrentId → CxxString) (req : HttpRequest),
      req.body.length ≤ kMaxBodySize → authorized ctx.authToken req = true →
      (ctx.runThread name req).Answered := by
  intro h
  have hanswered := h emptyContext (fun _ => []) postArray (by decide) rfl
  cases hanswered.2

end SeekServe
