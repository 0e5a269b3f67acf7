import SeekServe.PromptReads
import SeekServe.RangeSyntax
import SeekServe.StreamUrl

/-!
# A player that comes back for the rest

A player fetches one file of the stream server, connection after connection. It stores what a
response brings behind what it has, at the place that the response names, and may ask for the
bytes that are still missing.
-/

namespace SeekServe

set_option autoImplicit false

/-- The first byte that a `Content-Range` names. -/
def rangeStart (value : CxxString) : Option Int :=
  if value.take 6 = "bytes ".toList then CxxString.stoll (value.drop 6) else none

/-- A torrent and a file that a stream URL can name. -/
structure StreamFile where
  id : TorrentId
  fi : Int
  id_ne_nil : id ≠ []
  id_isHexDigit : ∀ c ∈ id, isHexDigit c = true
  fi_nonneg : 0 ≤ fi
  fi_lt : fi < 2 ^ 31

/-- The first file of a torrent. -/
def StreamFile.first (id : TorrentId) (hid : id ≠ [])
    (hhex : ∀ c ∈ id, isHexDigit c = true) : StreamFile where
  id := id
  fi := 0
  id_ne_nil := hid
  id_isHexDigit := hhex
  fi_nonneg := Int.le_refl 0
  fi_lt := Int.pow_pos (by decide)

structure Player where
  file : StreamFile
  received : List Byte

namespace Player

/-- A GET for the target of the stream URL. -/
def request (p : Player) (token : CxxString) (range : Option CxxString) : HttpRequest where
  method := .get
  target := HttpRangeServer.streamTarget p.file.id p.file.fi token
  range := range

/-- The bytes from `offset` on take their place behind those that are there, unless there is a
gap between them. -/
def store (p : Player) (offset : Int) (bytes : List Byte) : Player :=
  if 0 ≤ offset ∧ offset ≤ p.received.length then
    { p with received := p.received ++ bytes.drop (p.received.length - offset).toNat }
  else p

def accept (p : Player) (events : List ConnEvent) : Player :=
  match responses events with
  | [res] =>
    if res.status = 200 then p.store 0 (sentBytes events)
    else if res.status = 206 then
      match res.contentRange.bind rangeStart with
      | none => p
      | some offset => p.store offset (sentBytes events)
    else p
  | _ => p

/-- The `Range` header for what is missing. -/
def rest (p : Player) : CxxString :=
  (ByteRangeSpec.fromFirst (.ofNat p.received.length)).header

/-- What the player has is the beginning of the file. -/
def Has (p : Player) (D : List Byte) : Prop := p.received <+: D

@[simp] theorem file_store (p : Player) (offset : Int) (bytes : List Byte) :
    (p.store offset bytes).file = p.file := by
  unfold store
  split <;> rfl

@[simp] theorem file_accept (p : Player) (events : List ConnEvent) :
    (p.accept events).file = p.file := by
  unfold accept
  split
  · split
    · exact p.file_store _ _
    split
    · split
      · rfl
      · exact p.file_store _ _
    · rfl
  · rfl

section Store
variable {p : Player} {D bytes : List Byte} {offset : Int} (h : p.Has D)
include h

/-- Bytes of the file that follow on those before. -/
theorem has_store (hbytes : bytes <+: D.drop offset.toNat) : (p.store offset bytes).Has D := by
  unfold store
  split
  · rename_i hplace
    obtain ⟨rest, hrest⟩ := h
    have hmore : bytes.drop (p.received.length - offset).toNat <+: rest := by
      have hdrop := hbytes.drop (p.received.length - offset).toNat
      have hsum : offset.toNat + (p.received.length - offset).toNat = p.received.length := by omega
      rw [List.drop_drop, hsum, ← hrest, List.drop_left] at hdrop
      exact hdrop
    exact hrest ▸ (List.prefix_append_right_inj _).mpr hmore
  · exact h

/-- All the bytes of the file from a place on that the player has reached. -/
theorem received_store (h0 : 0 ≤ offset) (hplace : offset ≤ p.received.length)
    (hbytes : bytes = D.drop offset.toNat) : (p.store offset bytes).received = D := by
  obtain ⟨rest, hrest⟩ := h
  have hsum : offset.toNat + (p.received.length - offset).toNat = p.received.length := by omega
  unfold store
  rw [if_pos ⟨h0, hplace⟩, hbytes, List.drop_drop, hsum]
  simp only [← hrest, List.drop_left]

end Store

end Player

section ContentRange
open CxxString

/-- The text that the server writes names the first byte of the slice. -/
theorem rangeStart_contentRange {r : ParsedRange} (h0 : 0 ≤ r.start) (hlt : r.start < 2 ^ 63)
    (fileSize : Int) : rangeStart (HttpRangeServer.contentRange r fileSize) = some r.start := by
  have hprefix : (HttpRangeServer.contentRange r fileSize).take 6 = "bytes ".toList := by
    unfold HttpRangeServer.contentRange
    simp only [List.append_assoc]
    exact List.take_left' rfl
  have hdigits : ∀ c ∈ ofInt r.start, c.isDigit = true := by
    intro c hc
    rw [ofInt_of_nonneg h0] at hc
    exact isDigit_of_mem_toDigits hc
  have hne : ofInt r.start ≠ [] := by
    rw [ofInt_of_nonneg h0]
    exact Nat.toDigits_ne_nil
  let rest := '-' :: (ofInt r.stop ++ ("/".toList ++ ofInt fileSize))
  let n : Numeral :=
    { blank := []
      sign := []
      digits := ofInt r.start
      rest := rest
      blank_isSpace := fun _ h => absurd h List.not_mem_nil
      sign_cases := Or.inl rfl
      digits_ne_nil := hne
      digits_isDigit := hdigits
      rest_head := by
        intro c hc
        cases hc
        decide }
  have htext : (HttpRangeServer.contentRange r fileSize).drop 6 = n.text := by
    unfold HttpRangeServer.contentRange
    have hdash : "-".toList = ['-'] := by decide
    simp only [List.append_assoc, hdash]
    exact List.drop_left' rfl
  have hvalue : n.value = r.start := by
    have hsame : n.value = digitsValue (ofInt r.start) := rfl
    rw [hsame, ofInt_of_nonneg h0]
    have hback : digitsValue (Nat.toDigits 10 r.start.toNat) = r.start.toNat :=
      Nat.ofDigitChars_toDigits (by decide) (by decide)
    omega
  unfold rangeStart
  rw [if_pos hprefix, htext, stoll, readInteger_text, hvalue, if_pos ⟨by omega, by omega⟩]

end ContentRange

/-- A read of the loop answers as the source does, and a send is whole unless its write fails. -/
theorem transfer_of_streamChunks {io : ConnectionIo} {k : Nat} {offset remaining : Int}
    {e : ConnEvent} (h : e ∈ streamChunks io k offset remaining) :
    (∃ k' o len, e = .read o len (io.read k' o len)) ∨
      ∃ k' bytes whole, e = .send bytes whole ∧ (io.write k' = none → whole = true) := by
  induction k, offset, remaining using streamChunks.induct io with
  | case1 k offset remaining hpos chunkLen err hread =>
    simp only [chunkLen] at hread
    rw [streamChunks, if_pos hpos] at h
    simp only [hread, List.mem_singleton] at h
    exact Or.inl ⟨k, offset, _, by rw [h, hread]⟩
  | case2 k offset remaining hpos chunkLen data hread n hwrite =>
    simp only [chunkLen] at hread
    rw [streamChunks, if_pos hpos] at h
    simp only [hread, hwrite, List.mem_cons, List.not_mem_nil, or_false] at h
    rcases h with rfl | rfl
    · exact Or.inl ⟨k, offset, _, by rw [hread]⟩
    · exact Or.inr ⟨k, _, false, rfl, fun hnone => by simp [hwrite] at hnone⟩
  | case3 k offset remaining hpos chunkLen data hread bytesRead hwrite ih =>
    simp only [chunkLen] at hread
    simp only [chunkLen, bytesRead] at ih
    rw [streamChunks, if_pos hpos] at h
    simp only [hread, hwrite, List.mem_cons] at h
    rcases h with rfl | rfl | hrest
    · exact Or.inl ⟨k, offset, _, by rw [hread]⟩
    · exact Or.inr ⟨k, data, true, rfl, fun _ => rfl⟩
    split at hrest
    · cases hrest
    · exact ih ‹_› hrest
  | case4 k offset remaining hpos =>
    rw [streamChunks, if_neg hpos] at h
    cases h

/-- Every read in the file brings all of its bytes. -/
def ReadsAll (io : ConnectionIo) (D : List Byte) : Prop :=
  ∀ k (offset len : Int), 0 ≤ offset → 1 ≤ len → offset + len ≤ D.length →
    io.read k offset len = .ok (slice D offset len)

theorem ReadsAll.readsFile {io : ConnectionIo} {D : List Byte} (h : ReadsAll io D) :
    ReadsFile io D := by
  intro k offset len data h0 hlen hend hdata
  rw [h k offset len h0 hlen hend] at hdata
  cases hdata
  exact List.prefix_rfl

/-- The connection brings through at least a byte, and no read is disturbed. -/
structure Brings (io : ConnectionIo) (src : ByteSource) (avail : PieceAvailabilityIndex)
    (path : CxxString) (D : List Byte) : Prop where
  header : io.headerFails = false
  first : io.write 0 ≠ some 0
  reads : ∀ k (offset len : Int), 0 ≤ offset → 1 ≤ len → offset + len ≤ D.length →
    src.ReturnsUndisturbed avail path D offset len (io.read k offset len)

/-- A connection that is not disturbed reads all that it asks for once the file is downloaded. -/
theorem Brings.readsAll {io : ConnectionIo} {src : ByteSource} {avail : PieceAvailabilityIndex}
    {path : CxxString} {D : List Byte} (h : Brings io src avail path D)
    (hm : src.mapper.WellFormed) (hsize : src.fileSize = D.length) (hpath : src.filePath = path)
    (hdown : src.Downloaded avail) : ReadsAll io D := by
  intro k offset len h0 hlen hend
  exact ByteSource.slice_of_returnsUndisturbed hm hdown hpath h0 hlen (hsize ▸ hend)
    (h.reads k offset len h0 hlen hend)

theorem brings_downloaded {src : ByteSource} {avail : PieceAvailabilityIndex} {path : CxxString}
    {D : List Byte} (hm : src.mapper.WellFormed) (hsize : src.fileSize = D.length)
    (hpath : src.filePath = path) (hdown : src.Downloaded avail) {write : Nat → Option Nat}
    (hwrite : write 0 ≠ some 0) :
    Brings (HttpRangeServer.downloaded D write) src avail path D := by
  refine ⟨rfl, hwrite, ?_⟩
  intro k offset len h0 hlen hend
  exact ByteSource.returnsUndisturbed_slice hm hdown hpath D h0 hlen (hsize ▸ hend)

namespace HttpRangeServer
variable {s : HttpRangeServer} {io : ConnectionIo}

/-- One small response, without a byte of the file. -/
def Refuses (events : List ConnEvent) : Prop :=
  ∃ res, events = [.respond res] ∧ res.status ≠ 200 ∧ res.status ≠ 206

/-- The header of a slice, and the loop that streams it. -/
def Streamed (s : HttpRangeServer) (io : ConnectionIo) (status : Nat)
    (contentRange : Option CxxString) (start length : Int) (events : List ConnEvent) : Prop :=
  ∃ range pt header, header.status = status ∧ header.contentRange = contentRange ∧
    header.contentLength = length ∧
    events = s.notifyRange range pt ++ streamBody io header start length

/-- What a GET for a registered file gets. -/
theorem serveEntry_cases (s : HttpRangeServer) (io : ConnectionIo) (p : Player) (token : CxxString)
    (range : Option CxxString) (pt : ParsedTarget) (entry : SourceEntry) {N : Int}
    (hsize : entry.source.fileSize = N) :
    range = none ∧ s.Streamed io 200 none 0 N (s.serveEntry io (p.request token range) pt entry) ∨
      (∃ header r, range = some header ∧ parseRangeHeader header N = some r ∧
        s.Streamed io 206 (some (contentRange r N)) r.start (r.stop - r.start + 1)
          (s.serveEntry io (p.request token range) pt entry)) ∨
      ∃ header, range = some header ∧ parseRangeHeader header N = none ∧
        Refuses (s.serveEntry io (p.request token range) pt entry) := by
  simp only [serveEntry, hsize]
  cases range with
  | none =>
    refine Or.inl ⟨rfl, ?_⟩
    simp only [Player.request, serveWhole, reduceCtorEq, if_false]
    exact ⟨_, _, sliceHeader _ 200 _ none N, rfl, rfl, rfl, rfl⟩
  | some header =>
    cases hr : parseRangeHeader header N with
    | none =>
      have h200 : (416 : Nat) ≠ 200 := by decide
      have h206 : (416 : Nat) ≠ 206 := by decide
      refine Or.inr (Or.inr ⟨header, rfl, hr, ?_⟩)
      simp only [Player.request, serveRange, hr]
      exact ⟨_, rfl, h200, h206⟩
    | some r =>
      refine Or.inr (Or.inl ⟨header, r, rfl, hr, ?_⟩)
      simp only [Player.request, serveRange, hr, reduceCtorEq, if_false]
      exact ⟨_, _, sliceHeader _ 206 _ (some (contentRange r N)) (r.stop - r.start + 1),
        rfl, rfl, rfl, rfl⟩

theorem parseTarget_request (p : Player) (token : CxxString) (range : Option CxxString) :
    ∃ t, parseTarget (p.request token range).target = some ⟨p.file.id, p.file.fi, t⟩ :=
  (parseTarget_streamTarget p.file.id_isHexDigit p.file.fi_nonneg p.file.fi_lt token).mpr
    p.file.id_ne_nil

/-- What a GET for a stream target gets: a refusal, or what the entry of its file serves. -/
theorem get_cases (s : HttpRangeServer) (io : ConnectionIo) (p : Player) (token : CxxString)
    (range : Option CxxString) :
    Refuses (s.handleConnection io (p.request token range)) ∨
      ∃ pt entry, s.registered p.file.id p.file.fi = some entry ∧
        s.handleConnection io (p.request token range) =
          s.serveEntry io (p.request token range) pt entry := by
  have hget : ¬((p.request token range).method ≠ .get ∧ (p.request token range).method ≠ .head) :=
    fun h => h.1 rfl
  have hrefuse : ∀ status body, status ≠ 200 → status ≠ 206 →
      Refuses (sendError (p.request token range) status body) :=
    fun status body h200 h206 => ⟨_, rfl, h200, h206⟩
  obtain ⟨t, hpt⟩ := parseTarget_request p token range
  unfold handleConnection
  rw [if_neg hget, hpt]
  simp only
  split
  · exact Or.inl (hrefuse 403 _ (by decide) (by decide))
  cases hreg : s.registered p.file.id p.file.fi with
  | none => exact Or.inl (hrefuse 404 _ (by decide) (by decide))
  | some entry => exact Or.inr ⟨⟨p.file.id, p.file.fi, t⟩, entry, rfl, rfl⟩

theorem Streamed.sliceAnswer {status : Nat} {contentRange : Option CxxString} {start length : Int}
    {events : List ConnEvent} (h : s.Streamed io status contentRange start length events)
    {D : List Byte} (hreads : ReadsFile io D) (h0 : 0 ≤ start) (hl : 0 ≤ length)
    (hend : start + length ≤ D.length) :
    SliceAnswer io D status contentRange start length events := by
  obtain ⟨range, pt, header, rfl, rfl, rfl, rfl⟩ := h
  exact s.sliceAnswer_streamBody hreads range pt header start h0 hl hend

/-- The whole slice arrives over a connection that is not cut. -/
theorem Streamed.sent_eq {status : Nat} {contentRange : Option CxxString} {start length : Int}
    {events : List ConnEvent} (h : s.Streamed io status contentRange start length events)
    {D : List Byte} (h0 : 0 ≤ start) (hl : 0 ≤ length) (hend : start + length ≤ D.length)
    (hread : ReadsAll io D)
    (hheader : io.headerFails = false) (hwhole : ∀ k, io.write k = none) :
    sentBytes events = slice D start length := by
  have hdelivers := (h.sliceAnswer hread.readsFile h0 hl hend).delivers
  have hmem : ∀ e ∈ events, e.isTransfer = true → ∃ k, e ∈ streamChunks io k start length := by
    obtain ⟨range, pt, header, rfl, rfl, rfl, rfl⟩ := h
    intro e he htransfer
    rcases List.mem_append.mp he with hnotify | hbody
    · have hquiet := (s.notifyRange_quiet range pt e hnotify).1
      rw [hquiet] at htransfer
      cases htransfer
    · unfold streamBody at hbody
      rw [hheader] at hbody
      rcases List.mem_cons.mp hbody with rfl | hchunk
      · cases htransfer
      · exact ⟨0, hchunk⟩
  apply hdelivers.sent_all
  · intro offset len result hin
    obtain ⟨k, hchunk⟩ := hmem _ hin rfl
    obtain ⟨h1, _, h2, h3⟩ := hdelivers.reads_inside offset len result hin
    rcases transfer_of_streamChunks hchunk with ⟨k', o, len', heq⟩ | ⟨_, _, _, heq, _⟩
    · cases heq
      exact hread k' offset len (by omega) h1 (by omega)
    · cases heq
  · refine ⟨hheader, ?_⟩
    intro bytes whole hin
    obtain ⟨k, hchunk⟩ := hmem _ hin rfl
    rcases transfer_of_streamChunks hchunk with ⟨_, _, _, heq⟩ | ⟨k', bytes', whole', heq, hw⟩
    · cases heq
    · cases heq
      exact hw (hwhole k')

/-- Of a slice that is not empty, something arrives if the first write brings a byte through. -/
theorem Streamed.sent_ne_nil {status : Nat} {contentRange : Option CxxString} {start length : Int}
    {events : List ConnEvent} (h : s.Streamed io status contentRange start length events)
    {D : List Byte} (h0 : 0 ≤ start) (hl : 0 < length) (hend : start + length ≤ D.length)
    (hread : ReadsAll io D)
    (hheader : io.headerFails = false) (hwrite : io.write 0 ≠ some 0) : sentBytes events ≠ [] := by
  have hk : kChunkSize = 65536 := rfl
  have hfirst := hread 0 start (min kChunkSize length) h0 (by omega) (by omega)
  have hlen := length_slice (D := D) h0 (Int.le_of_lt (by omega : 0 < min kChunkSize length))
    (by omega)
  have hchunks : sentBytes (streamChunks io 0 start length) ≠ [] := by
    rw [streamChunks, if_pos hl]
    simp only [hfirst]
    generalize slice D start (min kChunkSize length) = data at hlen ⊢
    have hdata : data ≠ [] := by
      rintro rfl
      simp only [List.length_nil] at hlen
      omega
    cases hw : io.write 0 with
    | some n =>
      have hn : n ≠ 0 := by
        rintro rfl
        exact hwrite hw
      simpa [sentBytes, ConnEvent.sent] using ⟨hn, hdata⟩
    | none =>
      intro hnil
      have hall := List.flatMap_eq_nil_iff.mp hnil (.send data true) (by simp)
      exact hdata hall
  obtain ⟨range, pt, header, rfl, rfl, rfl, rfl⟩ := h
  unfold streamBody
  rw [hheader]
  intro hnil
  apply hchunks
  apply List.flatMap_eq_nil_iff.mpr
  intro e he
  exact List.flatMap_eq_nil_iff.mp hnil e (by simp [he])

end HttpRangeServer

namespace Player
open HttpRangeServer
variable {s : HttpRangeServer} {io : ConnectionIo} {p : Player} {D : List Byte}

theorem accept_of_refuses {events : List ConnEvent} (h : Refuses events) : p.accept events = p := by
  obtain ⟨res, rfl, h200, h206⟩ := h
  have hone : responses [.respond res] = [res] := rfl
  unfold accept
  rw [hone]
  simp only [if_neg h200, if_neg h206]

theorem accept_whole {start length : Int} {events : List ConnEvent}
    (h : SliceAnswer io D 200 none start length events) :
    p.accept events = p.store 0 (sentBytes events) := by
  obtain ⟨res, hone, hstatus, _⟩ := h.response
  unfold accept
  rw [hone]
  simp only [hstatus, if_true]

theorem accept_part {r : ParsedRange} (h0 : 0 ≤ r.start) (hlt : r.start < 2 ^ 63) {N length : Int}
    {events : List ConnEvent}
    (h : SliceAnswer io D 206 (some (contentRange r N)) r.start length events) :
    p.accept events = p.store r.start (sentBytes events) := by
  obtain ⟨res, hone, hstatus, _, hrange⟩ := h.response
  have hother : (206 : Nat) ≠ 200 := by decide
  unfold accept
  rw [hone]
  simp only [hstatus, hrange, if_neg hother, if_true, Option.bind_some,
    rangeStart_contentRange h0 hlt]

theorem slice_prefix_drop (D : List Byte) (start length : Int) :
    slice D start length <+: D.drop start.toNat := List.take_prefix _ _

/-- Whatever the player asks for and however the connection ends, what it has stays the
beginning of the file. -/
theorem has_accept (h : p.Has D) (hD : D.length < 2 ^ 63) (token : CxxString)
    (range : Option CxxString)
    (hentry : ∀ entry, s.registered p.file.id p.file.fi = some entry →
      entry.source.fileSize = D.length ∧ ReadsFile io D) :
    (p.accept (s.handleConnection io (p.request token range))).Has D := by
  rcases s.get_cases io p token range with hrefused | ⟨pt, entry, hreg, hserve⟩
  · rw [accept_of_refuses hrefused]
    exact h
  obtain ⟨hsize, hreads⟩ := hentry entry hreg
  rw [hserve]
  rcases s.serveEntry_cases io p token range pt entry hsize with
    ⟨_, hstream⟩ | ⟨header, r, _, hparse, hstream⟩ | ⟨header, _, _, hrefused⟩
  · have hanswer := hstream.sliceAnswer hreads (Int.le_refl 0) (Int.natCast_nonneg _) (by omega)
    rw [accept_whole hanswer]
    exact has_store h (hanswer.delivers.sent_prefix.trans (slice_prefix_drop D 0 D.length))
  · obtain ⟨h1, h2, h3⟩ := inside_of_parseRangeHeader hparse
    have hanswer := hstream.sliceAnswer hreads h1 (by omega) (by omega)
    rw [accept_part h1 (by omega) hanswer]
    exact has_store h (hanswer.delivers.sent_prefix.trans (slice_prefix_drop D r.start _))
  · rw [accept_of_refuses hrefused]
    exact h

/-- The `Range` header for what is missing, as the server reads it. -/
theorem parse_rest (p : Player) {N : Int} (hN : N < 2 ^ 63) :
    parseRangeHeader p.rest N =
      if (p.received.length : Int) < N then some ⟨p.received.length, N - 1⟩ else none := by
  have hvalue : (DigitString.ofNat p.received.length).value = p.received.length := by
    have hback : CxxString.digitsValue (Nat.toDigits 10 p.received.length) = p.received.length :=
      Nat.ofDigitChars_toDigits (by decide) (by decide)
    exact congrArg Nat.cast hback
  unfold rest
  rw [ByteRangeSpec.parse_header]
  unfold rangeOfParts
  by_cases hempty : N ≤ 0
  · rw [if_pos hempty, if_neg (by omega)]
  · rw [if_neg hempty, if_neg (show (ByteRangeSpec.fromFirst _).left ≠ [] from
      (DigitString.ofNat p.received.length).chars_ne_nil)]
    refine (ByteRangeSpec.rangeFrom_fromFirst _ hN).trans ?_
    unfold ByteRangeSpec.answer
    simp only [hvalue]

theorem authorized_request (p : Player) (hauth : '&' ∉ s.authToken) (range : Option CxxString) :
    authorized s.authToken (p.request s.authToken range) = true := by
  have htoken : extractToken (p.request s.authToken range) = s.authToken.takeWhile (· != '&') :=
    extractToken_streamTarget p.file.id_isHexDigit s.authToken rfl rfl
  unfold authorized
  rw [htoken, CxxString.takeWhile_ne_eq_self_iff.mpr hauth,
    (constantTimeCompare_eq_true_iff _ _).mpr rfl, Bool.or_true]

section Authorized
variable (hD : D.length < 2 ^ 63) (hauth : '&' ∉ s.authToken) {entry : SourceEntry}
  (hreg : s.registered p.file.id p.file.fi = some entry)
  (hsize : entry.source.fileSize = D.length)
include hD hauth hreg hsize

/-- A request for what is missing is answered with all of it. -/
theorem accept_rest (hreads : ReadsFile io D) (hmissing : p.received.length < D.length) :
    ∃ events, s.Streamed io 206
        (some (contentRange ⟨p.received.length, D.length - 1⟩ D.length)) p.received.length
        (D.length - p.received.length) events ∧
      (p.accept (s.handleConnection io (p.request s.authToken (some p.rest)))).received =
        p.received ++ sentBytes events := by
  have h0 : (0 : Int) ≤ p.received.length := Int.natCast_nonneg _
  have hparse := p.parse_rest (N := D.length) (by omega)
  rw [if_pos (by omega)] at hparse
  obtain ⟨t, hpt⟩ := parseTarget_request p s.authToken (some p.rest)
  rw [s.handleConnection_of_found io _ (Or.inl rfl) hpt (p.authorized_request hauth _) hreg]
  rcases s.serveEntry_cases io p s.authToken (some p.rest) ⟨p.file.id, p.file.fi, t⟩ entry
      hsize with
    ⟨hnone, _⟩ | ⟨header, r, hheader, hr, hstream⟩ | ⟨header, hheader, hr, _⟩
  · cases hnone
  · cases hheader
    cases hparse.symm.trans hr
    have hlength : (D.length : Int) - 1 - p.received.length + 1 = D.length - p.received.length := by
      omega
    simp only [hlength] at hstream
    refine ⟨_, hstream, ?_⟩
    have hanswer := hstream.sliceAnswer hreads h0 (by omega) (by omega)
    rw [accept_part h0 (by simp only; omega) hanswer]
    unfold store
    rw [if_pos ⟨h0, Int.le_refl _⟩]
    simp
  · cases hheader
    cases hparse.symm.trans hr

/-- There is nothing left to ask for. -/
theorem accept_rest_of_all (hall : p.received = D) :
    p.accept (s.handleConnection io (p.request s.authToken (some p.rest))) = p := by
  have hparse := p.parse_rest (N := D.length) (by omega)
  rw [hall, if_neg (Int.lt_irrefl _)] at hparse
  obtain ⟨t, hpt⟩ := parseTarget_request p s.authToken (some p.rest)
  rw [s.handleConnection_of_found io _ (Or.inl rfl) hpt (p.authorized_request hauth _) hreg]
  rcases s.serveEntry_cases io p s.authToken (some p.rest) ⟨p.file.id, p.file.fi, t⟩ entry
      hsize with
    ⟨hnone, _⟩ | ⟨header, r, hheader, hr, _⟩ | ⟨header, _, _, hrefused⟩
  · cases hnone
  · cases hheader
    cases hparse.symm.trans hr
  · exact accept_of_refuses hrefused

/-- One connection that is not cut brings what is missing of a file that has been downloaded. -/
theorem received_accept (h : p.Has D) (hread : ReadsAll io D)
    (hheader : io.headerFails = false) (hwhole : ∀ k, io.write k = none)
    {range : Option CxxString} (hrange : range = none ∨ range = some p.rest) :
    (p.accept (s.handleConnection io (p.request s.authToken range))).received = D := by
  have hreads := hread.readsFile
  have hlength := h.length_le
  rcases hrange with rfl | rfl
  · obtain ⟨t, hpt⟩ := parseTarget_request p s.authToken none
    rw [s.handleConnection_of_found io _ (Or.inl rfl) hpt (p.authorized_request hauth _) hreg]
    rcases s.serveEntry_cases io p s.authToken none ⟨p.file.id, p.file.fi, t⟩ entry hsize with
      ⟨_, hstream⟩ | ⟨_, _, hnone, _⟩ | ⟨_, hnone, _⟩
    · have hanswer := hstream.sliceAnswer hreads (Int.le_refl 0) (Int.natCast_nonneg _) (by omega)
      rw [accept_whole hanswer]
      apply received_store h (Int.le_refl 0) (Int.natCast_nonneg _)
      rw [hstream.sent_eq (Int.le_refl 0) (Int.natCast_nonneg _) (by omega) hread hheader hwhole]
      simp [slice]
    · cases hnone
    · cases hnone
  · by_cases hmissing : p.received.length < D.length
    · obtain ⟨events, hstream, hreceived⟩ := accept_rest hD hauth hreg hsize hreads hmissing
      rw [hreceived, hstream.sent_eq (Int.natCast_nonneg _) (by omega) (by omega) hread hheader
        hwhole]
      obtain ⟨rest, hrest⟩ := h
      have hrestlen : (D.length - p.received.length : Int).toNat = rest.length := by
        rw [← hrest, List.length_append]
        omega
      unfold slice
      rw [hrestlen, Int.toNat_natCast, ← hrest, List.drop_left, List.take_length]
    · have hall : p.received = D := h.eq_of_length (by omega)
      rw [accept_rest_of_all hD hauth hreg hsize hall]
      exact hall

/-- A connection that brings anything at all brings the player on. -/
theorem length_accept_rest (hread : ReadsAll io D)
    (hheader : io.headerFails = false) (hwrite : io.write 0 ≠ some 0)
    (hmissing : p.received.length < D.length) :
    p.received.length <
      (p.accept (s.handleConnection io (p.request s.authToken (some p.rest)))).received.length := by
  obtain ⟨events, hstream, hreceived⟩ :=
    accept_rest hD hauth hreg hsize hread.readsFile hmissing
  have hsome :=
    hstream.sent_ne_nil (Int.natCast_nonneg _) (by omega) (by omega) hread hheader hwrite
  rw [hreceived, List.length_append]
  have hpos := List.length_pos_iff.mpr hsome
  omega

end Authorized

end Player

end SeekServe
