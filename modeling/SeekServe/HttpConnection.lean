import SeekServe.Http
import SeekServe.HttpRangeServer
import SeekServe.RangeParser

/-!
# One connection of the stream server

`HttpRangeServer::handle_connection` on a request that has been read: what it writes
to the socket, which reads it issues and when it calls the range callback.
-/

namespace SeekServe

set_option autoImplicit false

def kChunkSize : Int := 65536

def mimeType (path : CxxString) : CxxString :=
  match CxxString.rfind '.' path with
  | none => "application/octet-stream".toList
  | some dot =>
    let ext := CxxString.substr path dot none
    if ext = ".mp4".toList then "video/mp4".toList
    else if ext = ".mkv".toList then "video/x-matroska".toList
    else if ext = ".avi".toList then "video/x-msvideo".toList
    else if ext = ".webm".toList then "video/webm".toList
    else if ext = ".ogv".toList then "video/ogg".toList
    else if ext = ".mov".toList then "video/quicktime".toList
    else if ext = ".mp3".toList then "audio/mpeg".toList
    else if ext = ".ogg".toList then "audio/ogg".toList
    else if ext = ".flac".toList then "audio/flac".toList
    else "application/octet-stream".toList

structure ParsedTarget where
  torrentId : TorrentId
  fileIndex : Int
  token : CxxString
  deriving DecidableEq, Repr

/-- `[a-fA-F0-9]` -/
def isHexDigit (c : Char) : Bool :=
  ('a' ≤ c && c ≤ 'f') || ('A' ≤ c && c ≤ 'F') || c.isDigit

theorem lt_of_isHexDigit {c : Char} (h : isHexDigit c = true) : c.toNat < 128 := by
  simp only [isHexDigit, Char.isDigit, Bool.or_eq_true, Bool.and_eq_true, decide_eq_true_eq] at h
  rcases h with (h | h) | h
  · have hle : c.toNat ≤ 'f'.toNat := h.2
    have hf : 'f'.toNat = 102 := rfl
    omega
  · have hle : c.toNat ≤ 'F'.toNat := h.2
    have hf : 'F'.toNat = 70 := rfl
    omega
  · have hle : c.toNat ≤ 57 := h.2
    omega

/-- The match of `/stream/([a-fA-F0-9]+)/(\d+)` with a whole path. -/
def matchStreamPath (path : CxxString) : Option (CxxString × CxxString) :=
  if "/stream/".toList.isPrefixOf path then
    let rest := path.drop 8
    let id := rest.takeWhile isHexDigit
    match rest.dropWhile isHexDigit with
    | '/' :: digits =>
      if id ≠ [] ∧ digits ≠ [] ∧ digits.all Char.isDigit then some (id, digits) else none
    | _ => none
  else none

def parseTarget (target : CxxString) : Option ParsedTarget :=
  let (path, query) :=
    match CxxString.find ['?'] target with
    | some qpos => (CxxString.substr target 0 (some qpos), CxxString.substr target (qpos + 1) none)
    | none => (target, [])
  match matchStreamPath path with
  | none => none
  | some (id, digits) =>
    match CxxString.stoi digits with
    | none => none
    | some fileIndex =>
      let token :=
        match CxxString.find "token=".toList query with
        | some tpos => tokenValue query tpos
        | none => []
      some ⟨id, fileIndex, token⟩

/-- How the socket and the byte source behave during one connection: whether the header
of a streamed response can be written, what the `k`-th read answers, and after how many
bytes the `k`-th body write fails, if it does. -/
structure ConnectionIo where
  headerFails : Bool
  read : Nat → Int → Int → Result (List Byte)
  write : Nat → Option Nat

inductive ConnEvent where
  | notify (callback : RangeCallback) (range : ByteRange) (id : TorrentId) (fi : Int)
  | respond (res : HttpResponse)
  | read (offset len : Int) (result : Result (List Byte))
  | send (bytes : List Byte) (whole : Bool)

/-- The loop of `stream_body`. -/
def streamChunks (io : ConnectionIo) (k : Nat) (offset remaining : Int) : List ConnEvent :=
  if remaining > 0 then
    let chunkLen := min kChunkSize remaining
    match io.read k offset chunkLen with
    | .error e => [.read offset chunkLen (.error e)]
    | .ok data =>
      let bytesRead : Int := data.length
      match io.write k with
      | some n => [.read offset chunkLen (.ok data), .send (data.take n) false]
      | none =>
        .read offset chunkLen (.ok data) :: .send data true ::
          if bytesRead < chunkLen then []
          else streamChunks io (k + 1) (offset + bytesRead) (remaining - bytesRead)
  else []
termination_by remaining.toNat
decreasing_by
  rename_i hpos hfull
  have hchunk : ¬(data.length : Int) < min 65536 remaining := hfull
  omega

def streamBody (io : ConnectionIo) (header : HttpResponse) (start length : Int) :
    List ConnEvent :=
  .respond header :: if io.headerFails then [] else streamChunks io 0 start length

namespace HttpRangeServer
variable (s : HttpRangeServer) (io : ConnectionIo) (req : HttpRequest)

def smallResponse (status : Nat) (body : CxxString) : HttpResponse where
  status := status
  version := req.version
  keepAlive := req.keepAlive
  contentType := some "text/plain".toList
  contentLength := body.length
  body := body

def sendError (status : Nat) (body : CxxString) : List ConnEvent :=
  [.respond (smallResponse req status body)]

def sliceHeader (status : Nat) (contentType : CxxString) (contentRange : Option CxxString)
    (contentLength : Int) : HttpResponse where
  status := status
  version := req.version
  keepAlive := req.keepAlive
  contentType := some contentType
  acceptRanges := some "bytes".toList
  contentRange := contentRange
  contentLength := contentLength

def notifyRange (range : ByteRange) (pt : ParsedTarget) : List ConnEvent :=
  (s.rangeCallback.map fun callback =>
    ConnEvent.notify callback range pt.torrentId pt.fileIndex).toList

def serveWhole (pt : ParsedTarget) (contentType : CxxString) (fileSize : Int) : List ConnEvent :=
  let header := sliceHeader req 200 contentType none fileSize
  s.notifyRange ⟨0, fileSize - 1⟩ pt ++
    if req.method = .head then [.respond header] else streamBody io header 0 fileSize

def contentRange (range : ParsedRange) (fileSize : Int) : CxxString :=
  "bytes ".toList ++ CxxString.ofInt range.start ++ "-".toList ++ CxxString.ofInt range.stop ++
    "/".toList ++ CxxString.ofInt fileSize

def serveRange (pt : ParsedTarget) (contentType : CxxString) (fileSize : Int)
    (rangeHeader : CxxString) : List ConnEvent :=
  match parseRangeHeader rangeHeader fileSize with
  | none =>
    [.respond
      { smallResponse req 416 "Range Not Satisfiable".toList with
        contentRange := some ("bytes */".toList ++ CxxString.ofInt fileSize) }]
  | some range =>
    let contentLength := range.stop - range.start + 1
    let header := sliceHeader req 206 contentType (some (contentRange range fileSize)) contentLength
    s.notifyRange ⟨range.start, range.stop⟩ pt ++
      if req.method = .head then [.respond header]
      else streamBody io header range.start contentLength

def serveEntry (pt : ParsedTarget) (entry : SourceEntry) : List ConnEvent :=
  let contentType :=
    if entry.filePath = [] then "application/octet-stream".toList else mimeType entry.filePath
  match req.range with
  | none => s.serveWhole io req pt contentType entry.source.fileSize
  | some rangeHeader => s.serveRange io req pt contentType entry.source.fileSize rangeHeader

def handleConnection : List ConnEvent :=
  if req.method ≠ .get ∧ req.method ≠ .head then sendError req 405 "Method not allowed".toList
  else
    match parseTarget req.target with
    | none => sendError req 404 "Not found".toList
    | some pt =>
      if authorized s.authToken req = false then sendError req 403 "Forbidden".toList
      else
        match s.registered pt.torrentId pt.fileIndex with
        | none => sendError req 404 "Stream not found".toList
        | some entry => s.serveEntry io req pt entry

end HttpRangeServer

end SeekServe
