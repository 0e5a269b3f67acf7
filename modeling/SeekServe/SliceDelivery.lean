import SeekServe.HttpConnection

/-!
# A response carries a slice of the file

The bytes that a streamed response sends are a prefix of the slice its header announces,
whatever the reads and the writes answer.
-/

namespace SeekServe

set_option autoImplicit false

def slice (D : List Byte) (start length : Int) : List Byte :=
  (D.drop start.toNat).take length.toNat

theorem slice_add (D : List Byte) {start m n : Int} (hs : 0 ≤ start) (hm : 0 ≤ m) (hn : 0 ≤ n) :
    slice D start (m + n) = slice D start m ++ slice D (start + m) n := by
  unfold slice
  rw [Int.toNat_add hm hn, Int.toNat_add hs hm, List.take_add, List.drop_drop]

theorem length_slice {D : List Byte} {start length : Int} (hs : 0 ≤ start) (hl : 0 ≤ length)
    (hend : start + length ≤ D.length) : ((slice D start length).length : Int) = length := by
  rw [slice, List.length_take, List.length_drop]
  omega

namespace ConnEvent

def sent : ConnEvent → List Byte
  | .send bytes _ => bytes
  | _ => []

def isRead : ConnEvent → Bool
  | .read _ _ _ => true
  | _ => false

def response : ConnEvent → Option HttpResponse
  | .respond res => some res
  | _ => none

def isTransfer : ConnEvent → Bool
  | .read _ _ _ | .send _ _ => true
  | _ => false

theorem isRead_of_not_transfer {e : ConnEvent} (h : e.isTransfer = false) : e.isRead = false := by
  cases e with
  | read | send => cases h
  | notify | respond => rfl

theorem sent_of_not_transfer {e : ConnEvent} (h : e.isTransfer = false) : e.sent = [] := by
  cases e with
  | read | send => cases h
  | notify | respond => rfl

end ConnEvent

def sentBytes (events : List ConnEvent) : List Byte := events.flatMap ConnEvent.sent

def responses (events : List ConnEvent) : List HttpResponse :=
  events.filterMap ConnEvent.response

/-- Every read returned all the bytes of the file that it asked for. -/
def FullReads (D : List Byte) (events : List ConnEvent) : Prop :=
  ∀ offset len result, .read offset len result ∈ events → result = .ok (slice D offset len)

def WritesSucceed (io : ConnectionIo) (events : List ConnEvent) : Prop :=
  io.headerFails = false ∧ ∀ bytes whole, .send bytes whole ∈ events → whole = true

/-- The transfers of a connection that answers with the slice. -/
structure Delivers (io : ConnectionIo) (D : List Byte) (start length : Int)
    (events : List ConnEvent) : Prop where
  reads_inside : ∀ offset len result, .read offset len result ∈ events →
    1 ≤ len ∧ len ≤ kChunkSize ∧ start ≤ offset ∧ offset + len ≤ start + length
  /-- The loop ends after at most one read for each chunk of the slice. -/
  reads_few : (events.countP ConnEvent.isRead : Int) ≤ (length + kChunkSize - 1) / kChunkSize
  sent_prefix : sentBytes events <+: slice D start length
  sent_all : FullReads D events → WritesSucceed io events → sentBytes events = slice D start length

theorem Delivers.nil (io : ConnectionIo) (D : List Byte) (start : Int) :
    Delivers io D start 0 [] := by
  refine ⟨?_, Int.le_refl 0, List.nil_prefix, fun _ _ => rfl⟩
  intro offset len result h
  cases h

theorem Delivers.quiet {io : ConnectionIo} {D : List Byte} {start length : Int}
    {events : List ConnEvent} (h : Delivers io D start length events) (first : List ConnEvent)
    (hq : ∀ e ∈ first, e.isTransfer = false) : Delivers io D start length (first ++ events) := by
  have hcount : first.countP ConnEvent.isRead = 0 :=
    List.countP_eq_zero.mpr fun e he => by simp [ConnEvent.isRead_of_not_transfer (hq e he)]
  have hsent : sentBytes (first ++ events) = sentBytes events := by
    have hnone : first.flatMap ConnEvent.sent = [] :=
      List.flatMap_eq_nil_iff.mpr fun e he => ConnEvent.sent_of_not_transfer (hq e he)
    rw [sentBytes, List.flatMap_append, hnone]
    rfl
  refine ⟨?_, ?_, hsent ▸ h.sent_prefix, ?_⟩
  · intro offset len result hm
    rcases List.mem_append.mp hm with hf | he
    · cases hq _ hf
    · exact h.reads_inside offset len result he
  · rw [List.countP_append, hcount, Nat.zero_add]
    exact h.reads_few
  · intro hfull hwrites
    rw [hsent]
    apply h.sent_all
    · intro offset len result hm
      exact hfull offset len result (List.mem_append_right _ hm)
    · refine ⟨hwrites.1, ?_⟩
      intro bytes whole hm
      exact hwrites.2 bytes whole (List.mem_append_right _ hm)

theorem readCount_cons (e : ConnEvent) (events : List ConnEvent) :
    (e :: events).countP ConnEvent.isRead =
      events.countP ConnEvent.isRead + if e.isRead then 1 else 0 := List.countP_cons

theorem Delivers.last {io : ConnectionIo} {D : List Byte} {start length chunkLen : Int}
    (hchunk : chunkLen = min kChunkSize length) (hpos : 0 < length)
    {result : Result (List Byte)} {sends : List ConnEvent}
    (hsends : ∀ e ∈ sends, e.isRead = false)
    (hsent : sentBytes sends <+: slice D start chunkLen) (hstart : 0 ≤ start)
    (hall : FullReads D (.read start chunkLen result :: sends) →
      WritesSucceed io (.read start chunkLen result :: sends) →
      sentBytes sends = slice D start length) :
    Delivers io D start length (.read start chunkLen result :: sends) := by
  have hk : kChunkSize = 65536 := rfl
  have hsplit : slice D start length =
      slice D start chunkLen ++ slice D (start + chunkLen) (length - chunkLen) := by
    rw [← slice_add D hstart (by omega) (by omega)]
    congr 1
    omega
  refine ⟨?_, ?_, ?_, hall⟩
  · intro offset len r hm
    rcases List.mem_cons.mp hm with he | hs
    · cases he
      omega
    · exact absurd (hsends _ hs) (by simp [ConnEvent.isRead])
  · have hcount : sends.countP ConnEvent.isRead = 0 :=
      List.countP_eq_zero.mpr fun e he => by simp [hsends e he]
    rw [readCount_cons, hcount, hk]
    simp only [ConnEvent.isRead, if_true]
    omega
  · rw [hsplit]
    exact hsent.trans (List.prefix_append _ _)

theorem Delivers.round {io : ConnectionIo} {D : List Byte} {start length chunkLen : Int}
    (hchunk : chunkLen = min kChunkSize length) (hpos : 0 < length) (hstart : 0 ≤ start)
    {data : List Byte} (hdata : data = slice D start chunkLen) {rest : List ConnEvent}
    (hrest : Delivers io D (start + chunkLen) (length - chunkLen) rest) :
    Delivers io D start length
      (.read start chunkLen (.ok data) :: .send data true :: rest) := by
  have hk : kChunkSize = 65536 := rfl
  have hsplit : slice D start length =
      slice D start chunkLen ++ slice D (start + chunkLen) (length - chunkLen) := by
    rw [← slice_add D hstart (by omega) (by omega)]
    congr 1
    omega
  have hsent : sentBytes (.read start chunkLen (.ok data) :: .send data true :: rest) =
      slice D start chunkLen ++ sentBytes rest := by
    rw [← hdata]
    rfl
  refine ⟨?_, ?_, ?_, ?_⟩
  · intro offset len r hm
    rcases List.mem_cons.mp hm with he | hm
    · cases he
      omega
    rcases List.mem_cons.mp hm with he | hm
    · cases he
    · have hin := hrest.reads_inside offset len r hm
      omega
  · have hfew := hrest.reads_few
    rw [hk] at hfew ⊢
    rw [readCount_cons, readCount_cons]
    simp only [ConnEvent.isRead, Bool.false_eq_true, if_true, if_false]
    omega
  · rw [hsent, hsplit]
    exact List.prefix_append_right_inj _ |>.mpr hrest.sent_prefix
  · intro hfull hwrites
    rw [hsent, hsplit]
    congr 1
    apply hrest.sent_all
    · intro offset len result hm
      exact hfull offset len result (by simp [hm])
    · refine ⟨hwrites.1, ?_⟩
      intro bytes whole hm
      exact hwrites.2 bytes whole (by simp [hm])

/-- What the byte source answers to a read inside the file: a part of the bytes it was
asked for, from their start. -/
def ReadsFile (io : ConnectionIo) (D : List Byte) : Prop :=
  ∀ k (offset len : Int) data, 0 ≤ offset → 1 ≤ len → offset + len ≤ D.length →
    io.read k offset len = .ok data → data <+: slice D offset len

/-- `data` is what some run of the reader over the files it found on disk has returned. -/
def ByteSource.Returns (src : ByteSource) (D : List Byte) (offset len : Int)
    (data : List Byte) : Prop :=
  ∃ s0 acts s, s0.pc = .entry ∧ (src.reader offset len).exec s0 acts = some s ∧
    (src.reader offset len).EachStep (src.FindsPieces D) s0 acts ∧ s.pc = .done (.ok data)

/-- The reads of a source whose file is still downloading answer like its final content. -/
theorem readsFile_of_returns {io : ConnectionIo} {src : ByteSource} {D : List Byte}
    (hm : src.mapper.WellFormed) (hsize : src.fileSize = D.length)
    (hio : ∀ k offset len data, io.read k offset len = .ok data →
      src.Returns D offset len data) : ReadsFile io D := by
  intro k offset len data _ hlen hend hread
  obtain ⟨s0, acts, s, hentry, hs, hfinds, hpc⟩ := hio k offset len data hread
  have hfinal : data = slice D offset len :=
    src.read_returns_final offset len hm hlen (hsize ▸ hend) hentry hs hfinds hpc
  rw [hfinal]

theorem delivers_streamChunks {io : ConnectionIo} {D : List Byte} (hreads : ReadsFile io D)
    (k : Nat) (offset remaining : Int) (h0 : 0 ≤ offset) (hr : 0 ≤ remaining)
    (hend : offset + remaining ≤ D.length) :
    Delivers io D offset remaining (streamChunks io k offset remaining) := by
  have hk : kChunkSize = 65536 := rfl
  induction k, offset, remaining using streamChunks.induct io with
  | case1 k offset remaining hpos chunkLen e hread =>
    -- the read fails
    rw [streamChunks, if_pos hpos]
    simp only [chunkLen] at hread
    simp only [hread]
    refine Delivers.last rfl hpos (by simp) (List.nil_prefix) h0 ?_
    intro hfull _
    have habs := hfull offset _ (.error e) List.mem_cons_self
    cases habs
  | case2 k offset remaining hpos chunkLen data hread n hwrite =>
    -- the write fails after `n` bytes
    rw [streamChunks, if_pos hpos]
    simp only [chunkLen] at hread
    simp only [hread, hwrite]
    refine Delivers.last rfl hpos (by simp [ConnEvent.isRead]) ?_ h0 ?_
    · have hpre := hreads k offset _ data h0 (by omega) (by omega) hread
      simpa [sentBytes, ConnEvent.sent] using (List.take_prefix n data).trans hpre
    · intro _ hwrites
      have habs := hwrites.2 (data.take n) false (by simp)
      cases habs
  | case3 k offset remaining hpos chunkLen data hread bytesRead hwrite ih =>
    rw [streamChunks, if_pos hpos]
    simp only [chunkLen] at hread
    simp only [chunkLen, bytesRead] at ih
    simp only [hread, hwrite]
    have hpre := hreads k offset _ data h0 (by omega) (by omega) hread
    have hlen : ((slice D offset (min kChunkSize remaining)).length : Int) =
        min kChunkSize remaining := length_slice h0 (by omega) (by omega)
    by_cases hshort : (data.length : Int) < min kChunkSize remaining
    -- a short read ends the loop with what it brought; a full one goes on behind it
    · rw [if_pos hshort]
      refine Delivers.last rfl hpos (by simp [ConnEvent.isRead]) ?_ h0 ?_
      · simpa [sentBytes, ConnEvent.sent] using hpre
      · intro hfull _
        have hdata := hfull offset _ _ List.mem_cons_self
        rw [← Except.ok.inj hdata] at hlen
        omega
    · rw [if_neg hshort]
      have hle := hpre.length_le
      have hdata : data = slice D offset (min kChunkSize remaining) :=
        hpre.eq_of_length (by omega)
      have hcount : (data.length : Int) = min kChunkSize remaining := by omega
      rw [hcount] at ih ⊢
      apply Delivers.round rfl hpos h0 hdata
      exact ih (by omega) (by omega) (by omega) (by omega)
  | case4 k offset remaining hpos =>
    rw [streamChunks, if_neg hpos]
    have hzero : remaining = 0 := by omega
    rw [hzero]
    exact Delivers.nil io D offset

theorem delivers_streamBody {io : ConnectionIo} {D : List Byte} (hreads : ReadsFile io D)
    (header : HttpResponse) (start length : Int) (h0 : 0 ≤ start) (hl : 0 ≤ length)
    (hend : start + length ≤ D.length) :
    Delivers io D start length (streamBody io header start length) := by
  have hquiet : ∀ e ∈ [ConnEvent.respond header], e.isTransfer = false := by
    intro e he
    rw [List.mem_singleton.mp he]
    rfl
  have hk : kChunkSize = 65536 := rfl
  unfold streamBody
  by_cases hfail : io.headerFails = true
  · rw [if_pos hfail]
    refine Delivers.quiet ⟨?_, ?_, ?_, ?_⟩ [.respond header] hquiet
    · intro offset len result h
      cases h
    · rw [hk]
      simp only [List.countP_nil]
      omega
    · exact List.nil_prefix
    · intro _ hwrites
      exact absurd hfail (by simp [hwrites.1])
  · rw [if_neg hfail]
    exact (delivers_streamChunks hreads 0 start length h0 hl hend).quiet [.respond header] hquiet

/-- The loop reads and sends; it writes no header and notifies no one. -/
theorem transfer_of_mem_streamChunks {io : ConnectionIo} {k : Nat} {offset remaining : Int}
    {e : ConnEvent} (h : e ∈ streamChunks io k offset remaining) : e.isTransfer = true := by
  induction k, offset, remaining using streamChunks.induct io with
  | case1 k offset remaining hpos chunkLen err hread =>
    simp only [chunkLen] at hread
    rw [streamChunks, if_pos hpos] at h
    simp only [hread, List.mem_singleton] at h
    rw [h]
    rfl
  | case2 k offset remaining hpos chunkLen data hread n hwrite =>
    simp only [chunkLen] at hread
    rw [streamChunks, if_pos hpos] at h
    simp only [hread, hwrite, List.mem_cons, List.not_mem_nil, or_false] at h
    rcases h with rfl | rfl <;> rfl
  | case3 k offset remaining hpos chunkLen data hread bytesRead hwrite ih =>
    simp only [chunkLen] at hread
    simp only [chunkLen, bytesRead] at ih
    rw [streamChunks, if_pos hpos] at h
    simp only [hread, hwrite, List.mem_cons] at h
    rcases h with rfl | rfl | hrest
    · rfl
    · rfl
    split at hrest
    · cases hrest
    · exact ih ‹_› hrest
  | case4 k offset remaining hpos =>
    rw [streamChunks, if_neg hpos] at h
    cases h

theorem filterMap_streamChunks {α : Type} {f : ConnEvent → Option α}
    (hf : ∀ e, e.isTransfer = true → f e = none) (io : ConnectionIo) (k : Nat)
    (offset remaining : Int) : (streamChunks io k offset remaining).filterMap f = [] :=
  List.filterMap_eq_nil_iff.mpr fun e he => hf e (transfer_of_mem_streamChunks he)

theorem responses_streamChunks (io : ConnectionIo) (k : Nat) (offset remaining : Int) :
    responses (streamChunks io k offset remaining) = [] := by
  apply filterMap_streamChunks
  intro e he
  cases e with
  | respond res => cases he
  | notify | read | send => rfl

theorem responses_append (events more : List ConnEvent) :
    responses (events ++ more) = responses events ++ responses more := List.filterMap_append

theorem responses_streamBody (io : ConnectionIo) (header : HttpResponse) (start length : Int) :
    responses (streamBody io header start length) = [header] := by
  have hchunks := responses_streamChunks io 0 start length
  unfold responses at hchunks ⊢
  unfold streamBody
  split
  · rfl
  · simp [ConnEvent.response, hchunks]

structure SliceAnswer (io : ConnectionIo) (D : List Byte) (status : Nat)
    (contentRange : Option CxxString) (start length : Int) (events : List ConnEvent) : Prop where
  response : ∃ res, responses events = [res] ∧ res.status = status ∧
    res.contentLength = length ∧ res.contentRange = contentRange
  delivers : Delivers io D start length events

namespace HttpRangeServer

theorem mem_notifyRange {s : HttpRangeServer} {range : ByteRange} {pt : ParsedTarget}
    {e : ConnEvent} (h : e ∈ s.notifyRange range pt) :
    ∃ callback, s.rangeCallback = some callback ∧
      e = .notify callback range pt.torrentId pt.fileIndex := by
  unfold notifyRange at h
  cases hc : s.rangeCallback with
  | none => simp [hc] at h
  | some callback =>
    rw [hc] at h
    exact ⟨callback, rfl, by simpa using h⟩

theorem notifyRange_quiet (s : HttpRangeServer) (range : ByteRange) (pt : ParsedTarget) :
    ∀ e ∈ s.notifyRange range pt, e.isTransfer = false ∧ e.response = none := by
  intro e he
  obtain ⟨callback, _, rfl⟩ := mem_notifyRange he
  exact ⟨rfl, rfl⟩

theorem responses_notifyRange (s : HttpRangeServer) (range : ByteRange) (pt : ParsedTarget) :
    responses (s.notifyRange range pt) = [] :=
  List.filterMap_eq_nil_iff.mpr fun e he => (s.notifyRange_quiet range pt e he).2

theorem sliceAnswer_streamBody (s : HttpRangeServer) {io : ConnectionIo} {D : List Byte}
    (hreads : ReadsFile io D) (range : ByteRange) (pt : ParsedTarget) (header : HttpResponse)
    (start : Int) (h0 : 0 ≤ start) (hl : 0 ≤ header.contentLength)
    (hend : start + header.contentLength ≤ D.length) :
    SliceAnswer io D header.status header.contentRange start header.contentLength
      (s.notifyRange range pt ++ streamBody io header start header.contentLength) := by
  refine ⟨⟨header, ?_, rfl, rfl, rfl⟩, ?_⟩
  · rw [responses_append, responses_notifyRange, responses_streamBody, List.nil_append]
  · exact (delivers_streamBody hreads header start header.contentLength h0 hl hend).quiet _
      fun e he => (s.notifyRange_quiet range pt e he).1

theorem handleConnection_of_found (s : HttpRangeServer) (io : ConnectionIo) (req : HttpRequest)
    {pt : ParsedTarget} {entry : SourceEntry} (hmethod : req.method = .get ∨ req.method = .head)
    (hpt : parseTarget req.target = some pt) (hauth : authorized s.authToken req = true)
    (hentry : s.registered pt.torrentId pt.fileIndex = some entry) :
    s.handleConnection io req = s.serveEntry io req pt entry := by
  have hallowed : ¬(req.method ≠ .get ∧ req.method ≠ .head) := by
    intro h
    rcases hmethod with hg | hh
    · exact h.1 hg
    · exact h.2 hh
  have hnot : ¬authorized s.authToken req = false := by
    rw [hauth]
    exact Bool.noConfusion
  unfold handleConnection
  rw [if_neg hallowed, hpt]
  simp only
  rw [if_neg hnot, hentry]

/-- The response to an authenticated GET of a registered file. -/
theorem get_answers_slice (s : HttpRangeServer) (io : ConnectionIo) (req : HttpRequest)
    (D : List Byte) {pt : ParsedTarget} {entry : SourceEntry} (hget : req.method = .get)
    (hpt : parseTarget req.target = some pt) (hauth : authorized s.authToken req = true)
    (hentry : s.registered pt.torrentId pt.fileIndex = some entry)
    (hsize : entry.source.fileSize = D.length) (hreads : ReadsFile io D) :
    (req.range = none →
      SliceAnswer io D 200 none 0 D.length (s.handleConnection io req)) ∧
    ∀ header, req.range = some header →
      (∀ r, parseRangeHeader header D.length = some r →
        r.Inside D.length ∧
          SliceAnswer io D 206
            (some ("bytes ".toList ++ CxxString.ofInt r.start ++ "-".toList ++
              CxxString.ofInt r.stop ++ "/".toList ++ CxxString.ofInt D.length))
            r.start (r.stop - r.start + 1) (s.handleConnection io req)) ∧
      (parseRangeHeader header D.length = none →
        sentBytes (s.handleConnection io req) = [] ∧
          ∃ res, responses (s.handleConnection io req) = [res] ∧ res.status = 416 ∧
            res.contentRange = some ("bytes */".toList ++ CxxString.ofInt D.length)) := by
  rw [s.handleConnection_of_found io req (Or.inl hget) hpt hauth hentry, serveEntry, hsize]
  generalize (if entry.filePath = [] then "application/octet-stream".toList
    else mimeType entry.filePath) = contentType
  have hnothead : ¬req.method = .head := by
    rw [hget]
    exact Method.noConfusion
  have hN : 0 ≤ (D.length : Int) := Int.natCast_nonneg _
  refine ⟨?_, ?_⟩
  · intro hrange
    simp only [hrange, serveWhole]
    rw [if_neg hnothead]
    exact s.sliceAnswer_streamBody hreads ⟨0, D.length - 1⟩ pt
      (sliceHeader req 200 contentType none D.length) 0 (Int.le_refl 0) hN
      (Int.le_of_eq (Int.zero_add _))
  · intro header hrange
    simp only [hrange, serveRange]
    refine ⟨?_, ?_⟩
    · intro r hr
      obtain ⟨h1, h2, h3⟩ := inside_of_parseRangeHeader hr
      have hlen : 0 ≤ r.stop - r.start + 1 := by omega
      have hend : r.start + (r.stop - r.start + 1) ≤ D.length := by omega
      refine ⟨⟨h1, h2, h3⟩, ?_⟩
      simp only [hr]
      rw [if_neg hnothead]
      exact s.sliceAnswer_streamBody hreads ⟨r.start, r.stop⟩ pt
        (sliceHeader req 206 contentType (some (contentRange r D.length)) (r.stop - r.start + 1))
        r.start h1 hlen hend
    · intro hr
      simp only [hr]
      exact ⟨rfl, _, rfl, rfl, rfl⟩

def tenBytesServer : HttpRangeServer :=
  (create {}).setByteSource ByteSource.tenBytes "ab".toList 0 "a.mp4".toList

def tenBytesOnDisk : List Byte := [0, 1, 2, 3, 4, 5, 6, 7, 8, 9]

def getTenBytes : HttpRequest := { method := .get, target := "/stream/ab/0".toList }

def downloaded (D : List Byte) (write : Nat → Option Nat) : ConnectionIo where
  headerFails := false
  read _ offset len := .ok (slice D offset len)
  write := write

theorem get_answers_slice_tenBytes :
    SliceAnswer (downloaded tenBytesOnDisk fun _ => none) tenBytesOnDisk 200 none 0 10
      (tenBytesServer.handleConnection (downloaded tenBytesOnDisk fun _ => none) getTenBytes) := by
  have hreads : ReadsFile (downloaded tenBytesOnDisk fun _ => none) tenBytesOnDisk := by
    intro k offset len data _ _ _ h
    cases h
    exact List.prefix_rfl
  have hpt : parseTarget getTenBytes.target = some ⟨"ab".toList, 0, []⟩ := by decide
  have hentry : tenBytesServer.registered "ab".toList 0 =
      some ⟨ByteSource.tenBytes, "ab".toList, 0, "a.mp4".toList⟩ := rfl
  have h := get_answers_slice tenBytesServer (downloaded tenBytesOnDisk fun _ => none) getTenBytes
    tenBytesOnDisk rfl hpt (by decide) hentry (by decide) hreads
  exact h.1 rfl

/-- Full reads alone do not bring the slice to the client: the write may fail. -/
theorem failed_write_cuts_slice :
    FullReads tenBytesOnDisk
      (tenBytesServer.handleConnection (downloaded tenBytesOnDisk fun _ => some 3) getTenBytes) ∧
    sentBytes
      (tenBytesServer.handleConnection (downloaded tenBytesOnDisk fun _ => some 3) getTenBytes) ≠
      slice tenBytesOnDisk 0 10 := by
  have hconn : tenBytesServer.handleConnection (downloaded tenBytesOnDisk fun _ => some 3)
      getTenBytes =
        .respond (sliceHeader getTenBytes 200 "video/mp4".toList none 10) ::
          streamChunks (downloaded tenBytesOnDisk fun _ => some 3) 0 0 10 := rfl
  have hloop : streamChunks (downloaded tenBytesOnDisk fun _ => some 3) 0 0 10 =
      [.read 0 10 (.ok tenBytesOnDisk), .send [0, 1, 2] false] := by
    rw [streamChunks]
    rfl
  rw [hconn, hloop]
  refine ⟨?_, by decide⟩
  intro offset len result h
  simp only [List.mem_cons, reduceCtorEq, ConnEvent.read.injEq, List.not_mem_nil, or_false,
    false_or] at h
  obtain ⟨rfl, rfl, rfl⟩ := h
  rfl

end HttpRangeServer

end SeekServe
