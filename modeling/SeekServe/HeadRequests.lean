import SeekServe.SliceDelivery

/-!
# HEAD next to GET

The two requests take the same branches. They part where the slice is sent, and the small
responses of the error branches keep their bodies.
-/

namespace SeekServe

set_option autoImplicit false

def HttpRequest.withMethod (req : HttpRequest) (method : Method) : HttpRequest :=
  { req with method := method }

/-- Status, `Content-Type`, `Content-Length` and `Content-Range`. -/
def HttpResponse.head (res : HttpResponse) : Nat × Option CxxString × Int × Option CxxString :=
  (res.status, res.contentType, res.contentLength, res.contentRange)

/-- One response each, with the same head, and no byte of a body for HEAD. -/
def Mirrors (head get : List ConnEvent) : Prop :=
  ∃ res res', responses head = [res] ∧ responses get = [res'] ∧ res.head = res'.head ∧
    res.body = [] ∧ sentBytes head = []

namespace HttpRangeServer
variable (s : HttpRangeServer) (req : HttpRequest)

/-- The request is for a registered file, with the token, and for a range of it if for any. -/
def Serves : Prop :=
  ∃ pt entry, parseTarget req.target = some pt ∧ authorized s.authToken req = true ∧
    s.registered pt.torrentId pt.fileIndex = some entry ∧
    ∀ header, req.range = some header →
      (parseRangeHeader header entry.source.fileSize).isSome = true

/-- The `Content-Type` of the slices of an entry. -/
def sliceType (entry : SourceEntry) : CxxString :=
  if entry.filePath = [] then "application/octet-stream".toList else mimeType entry.filePath

/-- Both requests are answered with one small response, whose body is a text. -/
def AnsweredBriefly (ioHead ioGet : ConnectionIo) : Prop :=
  ∃ res, res.body ≠ [] ∧ s.handleConnection ioHead (req.withMethod .head) = [.respond res] ∧
    s.handleConnection ioGet (req.withMethod .get) = [.respond res]

/-- Both requests are answered with the header of a slice, which GET then streams. -/
def AnsweredWithSlice (ioHead ioGet : ConnectionIo) : Prop :=
  ∃ range pt header start length, header.body = [] ∧
    s.handleConnection ioHead (req.withMethod .head) =
      s.notifyRange range pt ++ [.respond header] ∧
    s.handleConnection ioGet (req.withMethod .get) =
      s.notifyRange range pt ++ streamBody ioGet header start length

variable {s req} {ioHead ioGet : ConnectionIo}

theorem answeredBriefly_of_eq (res : HttpResponse) (hbody : res.body ≠ [])
    (h : ∀ io method, method = .get ∨ method = .head →
      s.handleConnection io (req.withMethod method) = [.respond res]) :
    s.AnsweredBriefly req ioHead ioGet :=
  ⟨res, hbody, h ioHead .head (Or.inr rfl), h ioGet .get (Or.inl rfl)⟩

theorem handleConnection_withMethod (io : ConnectionIo) {method : Method}
    (hmethod : method = .get ∨ method = .head) :
    s.handleConnection io (req.withMethod method) =
      match parseTarget req.target with
      | none => sendError req 404 "Not found".toList
      | some pt =>
        if authorized s.authToken req = false then sendError req 403 "Forbidden".toList
        else
          match s.registered pt.torrentId pt.fileIndex with
          | none => sendError req 404 "Stream not found".toList
          | some entry => s.serveEntry io (req.withMethod method) pt entry := by
  have hallowed : ¬((req.withMethod method).method ≠ .get ∧
      (req.withMethod method).method ≠ .head) := by
    intro h
    rcases hmethod with hget | hhead
    · exact h.1 hget
    · exact h.2 hhead
  unfold handleConnection
  rw [if_neg hallowed]
  rfl

section Entry
variable {pt : ParsedTarget} {entry : SourceEntry} (hpt : parseTarget req.target = some pt)
  (hauth : authorized s.authToken req = true)
  (hentry : s.registered pt.torrentId pt.fileIndex = some entry)
include hpt hauth hentry

theorem handleConnection_entry (io : ConnectionIo) {method : Method}
    (hmethod : method = .get ∨ method = .head) :
    s.handleConnection io (req.withMethod method) =
      s.serveEntry io (req.withMethod method) pt entry := by
  rw [handleConnection_withMethod io hmethod, hpt]
  simp [hauth, hentry]

theorem answered_whole (hrange : req.range = none) : s.AnsweredWithSlice req ioHead ioGet := by
  refine ⟨⟨0, entry.source.fileSize - 1⟩, pt,
    sliceHeader req 200 (sliceType entry) none entry.source.fileSize, 0, entry.source.fileSize,
    rfl, ?_, ?_⟩
  · rw [handleConnection_entry hpt hauth hentry ioHead (Or.inr rfl)]
    simp only [serveEntry, HttpRequest.withMethod, hrange, serveWhole, if_true]
    rfl
  · rw [handleConnection_entry hpt hauth hentry ioGet (Or.inl rfl)]
    simp only [serveEntry, HttpRequest.withMethod, hrange, serveWhole, reduceCtorEq, if_false]
    rfl

theorem answered_range {header : CxxString} {range : ParsedRange}
    (hrange : req.range = some header)
    (hparse : parseRangeHeader header entry.source.fileSize = some range) :
    s.AnsweredWithSlice req ioHead ioGet := by
  refine ⟨⟨range.start, range.stop⟩, pt,
    sliceHeader req 206 (sliceType entry) (some (contentRange range entry.source.fileSize))
      (range.stop - range.start + 1),
    range.start, range.stop - range.start + 1, rfl, ?_, ?_⟩
  · rw [handleConnection_entry hpt hauth hentry ioHead (Or.inr rfl)]
    simp only [serveEntry, HttpRequest.withMethod, hrange, serveRange, hparse, if_true]
    rfl
  · rw [handleConnection_entry hpt hauth hentry ioGet (Or.inl rfl)]
    simp only [serveEntry, HttpRequest.withMethod, hrange, serveRange, hparse, reduceCtorEq,
      if_false]
    rfl

theorem answered_unsatisfiable {header : CxxString} (hrange : req.range = some header)
    (hparse : parseRangeHeader header entry.source.fileSize = none) :
    s.AnsweredBriefly req ioHead ioGet := by
  apply answeredBriefly_of_eq
    { smallResponse req 416 "Range Not Satisfiable".toList with
      contentRange := some ("bytes */".toList ++ CxxString.ofInt entry.source.fileSize) }
    (show "Range Not Satisfiable".toList ≠ [] by decide)
  intro io method hmethod
  rw [handleConnection_entry hpt hauth hentry io hmethod]
  simp only [serveEntry, HttpRequest.withMethod, hrange, serveRange, hparse]
  rfl

theorem answered_entry :
    s.Serves req ∧ s.AnsweredWithSlice req ioHead ioGet ∨
      ¬s.Serves req ∧ s.AnsweredBriefly req ioHead ioGet := by
  cases hrange : req.range with
  | none =>
    refine Or.inl ⟨⟨pt, entry, hpt, hauth, hentry, ?_⟩, answered_whole hpt hauth hentry hrange⟩
    intro header hheader
    rw [hrange] at hheader
    cases hheader
  | some header =>
    cases hparse : parseRangeHeader header entry.source.fileSize with
    | none =>
      refine Or.inr ⟨?_, answered_unsatisfiable hpt hauth hentry hrange hparse⟩
      rintro ⟨pt', entry', hpt', _, hentry', hserved⟩
      cases hpt.symm.trans hpt'
      cases hentry.symm.trans hentry'
      have hsome := hserved header hrange
      rw [hparse] at hsome
      cases hsome
    | some range =>
      refine Or.inl ⟨⟨pt, entry, hpt, hauth, hentry, ?_⟩,
        answered_range hpt hauth hentry hrange hparse⟩
      intro header' hheader'
      cases hrange.symm.trans hheader'
      rw [hparse]
      rfl

end Entry

/-- The request alone and the map of sources decide which of the two answers both get. -/
theorem answered_cases (s : HttpRangeServer) (req : HttpRequest) (ioHead ioGet : ConnectionIo) :
    s.Serves req ∧ s.AnsweredWithSlice req ioHead ioGet ∨
      ¬s.Serves req ∧ s.AnsweredBriefly req ioHead ioGet := by
  cases hpt : parseTarget req.target with
  | none =>
    refine Or.inr ⟨?_, answeredBriefly_of_eq (smallResponse req 404 "Not found".toList)
      (show "Not found".toList ≠ [] by decide) ?_⟩
    · rintro ⟨pt, _, hsome, _⟩
      rw [hpt] at hsome
      cases hsome
    · intro io method hmethod
      rw [handleConnection_withMethod io hmethod, hpt]
      rfl
  | some pt =>
    cases hauth : authorized s.authToken req with
    | false =>
      refine Or.inr ⟨?_, answeredBriefly_of_eq (smallResponse req 403 "Forbidden".toList)
        (show "Forbidden".toList ≠ [] by decide) ?_⟩
      · rintro ⟨_, _, _, htrue, _⟩
        rw [hauth] at htrue
        cases htrue
      · intro io method hmethod
        rw [handleConnection_withMethod io hmethod, hpt, hauth]
        rfl
    | true =>
      cases hentry : s.registered pt.torrentId pt.fileIndex with
      | none =>
        refine Or.inr ⟨?_, answeredBriefly_of_eq
          (smallResponse req 404 "Stream not found".toList)
          (show "Stream not found".toList ≠ [] by decide) ?_⟩
        · rintro ⟨pt', _, hpt', _, hsome, _⟩
          cases hpt.symm.trans hpt'
          rw [hentry] at hsome
          cases hsome
        · intro io method hmethod
          rw [handleConnection_withMethod io hmethod, hpt, hauth]
          simp only [hentry]
          rfl
      | some entry => exact answered_entry hpt hauth hentry

theorem sentBytes_notifyRange (range : ByteRange) (pt : ParsedTarget) :
    sentBytes (s.notifyRange range pt) = [] := by
  apply List.flatMap_eq_nil_iff.mpr
  intro e he
  exact ConnEvent.sent_of_not_transfer (s.notifyRange_quiet range pt e he).1

/-- HEAD mirrors GET exactly where a slice is served: the error responses have a body. -/
theorem head_mirrors_get_iff (s : HttpRangeServer) (req : HttpRequest)
    (ioHead ioGet : ConnectionIo) :
    Mirrors (s.handleConnection ioHead (req.withMethod .head))
      (s.handleConnection ioGet (req.withMethod .get)) ↔ s.Serves req := by
  rcases s.answered_cases req ioHead ioGet with
    ⟨hserves, range, pt, header, start, length, hbody, hhead, hget⟩ |
    ⟨hnot, res, hbody, hhead, hget⟩
  · refine ⟨fun _ => hserves, fun _ => ?_⟩
    rw [hhead, hget]
    refine ⟨header, header, ?_, ?_, rfl, hbody, ?_⟩
    · rw [responses_append, responses_notifyRange]
      rfl
    · rw [responses_append, responses_notifyRange, responses_streamBody]
      rfl
    · have hquiet := sentBytes_notifyRange (s := s) range pt
      unfold sentBytes at hquiet ⊢
      rw [List.flatMap_append, hquiet]
      rfl
  · refine ⟨?_, fun hserves => absurd hserves hnot⟩
    rintro ⟨res', _, hres', _, _, hempty, _⟩
    rw [hhead] at hres'
    cases hres'
    exact absurd hempty hbody

def headUnknownStream : HttpRequest := { method := .head, target := "/stream/cd/0".toList }

/-- A HEAD request for a stream that does not exist is answered with a text. -/
theorem head_of_unknown_stream_has_body :
    ¬Mirrors
      (tenBytesServer.handleConnection (downloaded tenBytesOnDisk fun _ => none)
        (headUnknownStream.withMethod .head))
      (tenBytesServer.handleConnection (downloaded tenBytesOnDisk fun _ => none)
        (headUnknownStream.withMethod .get)) := by
  have hconn : tenBytesServer.handleConnection (downloaded tenBytesOnDisk fun _ => none)
      (headUnknownStream.withMethod .head) =
        [.respond (smallResponse headUnknownStream 404 "Stream not found".toList)] := rfl
  rintro ⟨res, _, hres, _, _, hempty, _⟩
  rw [hconn] at hres
  cases hres
  exact absurd hempty (by decide)

end HttpRangeServer

end SeekServe
