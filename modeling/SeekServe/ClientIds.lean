import SeekServe.ControlThread
import SeekServe.Events
import SeekServe.TorrentIdentity

/-!
# Torrent ids across the C API

`ss_add_torrent` copies the id of the torrent it added into a buffer of the caller, which cuts
off what does not fit; the Dart client passes a buffer of 64 bytes and reads the id from it.
-/

namespace SeekServe

set_option autoImplicit false

def ssOk : Int := 0
def ssErrInvalidArg : Int := -1
def ssErrNotFound : Int := -2
def ssErrMetadataPending : Int := -3
def ssErrTimeout : Int := -4
def ssErrIo : Int := -5
def ssErrAlreadyRunning : Int := -6
def ssErrCancelled : Int := -7

def mapError : Errc → Int
  | .success => ssOk
  | .invalidArgument => ssErrInvalidArg
  | .torrentNotFound | .fileNotFound => ssErrNotFound
  | .metadataNotReady => ssErrMetadataPending
  | .timeoutWaitingForPiece => ssErrTimeout
  | .ioError => ssErrIo
  | .serverAlreadyRunning => ssErrAlreadyRunning
  | .cancelled => ssErrCancelled
  | .pieceNotAvailable | .rangeNotSatisfiable | .sessionNotStarted => ssErrIo

/-- The bytes before the terminator. -/
def cString (mem : List UInt8) : List UInt8 := mem.takeWhile (· != 0)

/-- The `std::string` made of a `const char*`. -/
def ofCString (mem : List UInt8) : CxxString := (cString mem).map fun b => Char.ofNat b.toNat

/-- `memcpy` of what fits, and the terminator. -/
def copyId (out : List UInt8) (len : Int) (id : TorrentId) : List UInt8 :=
  let copyLen := min (len - 1).toNat id.length
  id.bytes.take copyLen ++ 0 :: out.drop (copyLen + 1)

def ssAddTorrent (env : Env) (e : SeekServeEngine) (uri : CxxString) (out : List UInt8)
    (len : Int) : Int × List UInt8 × SeekServeEngine :=
  match e.addTorrent env uri [] with
  | (.error err, e) => (mapError err, out, e)
  | (.ok id, e) => (ssOk, if len > 0 then copyId out len id else out, e)

def ssRemoveTorrent (e : SeekServeEngine) (torrentId : CxxString) : Int × SeekServeEngine :=
  match e.removeTorrent torrentId with
  | (.error err, e) => (mapError err, e)
  | (.ok (), e) => (ssOk, e)

def ssSelectFile (env : Env) (e : SeekServeEngine) (torrentId : CxxString) (fileIndex : Int) :
    Int × SeekServeEngine :=
  match e.selectFile env torrentId fileIndex with
  | (.error err, e) => (mapError err, e)
  | (.ok (), e) => (ssOk, e)

inductive ClientError where
  | seekServe (errorCode : Int)
  | format
  deriving DecidableEq, Repr

def checkError (code : Int) : Except ClientError Unit :=
  if code = ssOk then .ok () else .error (.seekServe code)

def toNativeUtf8 (s : DartString) : List UInt8 := Utf8.encode (Utf8.fromUtf16 s) ++ [0]

def toDartString (mem : List UInt8) : Except ClientError DartString :=
  match Utf8.toUtf16 (cString mem) with
  | some s => .ok s
  | none => .error .format

/-- The string that a C function makes of a Dart string. -/
def passed (s : DartString) : CxxString := ofCString (toNativeUtf8 s)

namespace SeekServeClient

def addTorrent (env : Env) (e : SeekServeEngine) (uri : DartString) :
    Except ClientError DartString × SeekServeEngine :=
  match ssAddTorrent env e (passed uri) (List.replicate 64 0) 64 with
  | (err, outId, e) => ((checkError err).bind fun _ => toDartString outId, e)

def removeTorrent (e : SeekServeEngine) (torrentId : DartString) :
    Except ClientError Unit × SeekServeEngine :=
  match ssRemoveTorrent e (passed torrentId) with
  | (err, e) => (checkError err, e)

def selectFile (env : Env) (e : SeekServeEngine) (torrentId : DartString) (fileIndex : Int) :
    Except ClientError Unit × SeekServeEngine :=
  match ssSelectFile env e (passed torrentId) fileIndex with
  | (err, e) => (checkError err, e)

end SeekServeClient

section Hex
variable {id : CxxString} (hid : ∀ c ∈ id, isHexDigit c = true)
include hid

theorem lt_of_hex : ∀ c ∈ id, c.toNat < 128 := fun c hc => lt_of_isHexDigit (hid c hc)

theorem null_not_mem_bytes : 0 ∉ id.bytes := by
  intro hmem
  obtain ⟨c, hc, hzero⟩ := List.mem_map.mp hmem
  have hlt := lt_of_hex hid c hc
  have hnat : c.toNat = 0 := by
    have h := congrArg UInt8.toNat hzero
    rw [UInt8.toNat_ofNat', Nat.mod_eq_of_lt (by omega)] at h
    exact h
  have hdigit := hid c hc
  rw [← Char.ofNat_toNat c, hnat] at hdigit
  cases hdigit

/-- What is read from the buffer is the part of the id that leaves room for the terminator. -/
theorem cString_copyId (out : List UInt8) (len : Int) :
    cString (copyId out len id) = CxxString.bytes (id.take (len - 1).toNat) := by
  have hlength : id.bytes.length = id.length := List.length_map _
  have htake : id.bytes.take (min (len - 1).toNat id.length) =
      CxxString.bytes (id.take (len - 1).toNat) := by
    rw [← hlength, ← List.take_eq_take_min]
    exact List.map_take.symm
  have hnull : 0 ∉ CxxString.bytes (id.take (len - 1).toNat) := by
    rw [← htake]
    intro hmem
    exact null_not_mem_bytes hid (List.mem_of_mem_take hmem)
  unfold cString copyId
  simp only
  rw [htake, List.takeWhile_append_of_pos (bne_of_not_mem hnull),
    List.takeWhile_cons_of_neg (by decide), List.append_nil]

/-- The client reads back what is left of the id, and passes it on as it is. -/
theorem toDartString_copyId (out : List UInt8) (len : Int) :
    toDartString (copyId out len id) = .ok (Json.units (id.take (len - 1).toNat)) := by
  have hlt : ∀ c ∈ id.take (len - 1).toNat, c.toNat < 128 := fun c hc =>
    lt_of_hex hid c (List.mem_of_mem_take hc)
  unfold toDartString
  rw [cString_copyId hid, Utf8.toUtf16_ascii (ascii_bytes hlt), widen_bytes hlt]

theorem chars_bytes : (id.bytes.map fun b => Char.ofNat b.toNat) = id := by
  have hsame : ∀ c ∈ id, Char.ofNat (UInt8.ofNat c.toNat).toNat = c := by
    intro c hc
    have h := lt_of_hex hid c hc
    rw [UInt8.toNat_ofNat', Nat.mod_eq_of_lt (by omega), Char.ofNat_toNat]
  rw [CxxString.bytes, List.map_map]
  exact (List.map_congr_left hsame).trans (List.map_id id)

theorem fromUtf16_units : Utf8.fromUtf16 (Json.units id) = id := by
  have hnat : ∀ c ∈ id, (UInt16.ofNat c.toNat).toNat = c.toNat := by
    intro c hc
    have h := lt_of_hex hid c hc
    rw [UInt16.toNat_ofNat', Nat.mod_eq_of_lt (by omega)]
  have hunits : ∀ u ∈ Json.units id, u.toNat < 0xD800 := by
    intro u hu
    obtain ⟨c, hc, rfl⟩ := List.mem_map.mp hu
    have h := lt_of_hex hid c hc
    rw [hnat c hc]
    omega
  have hsame : ∀ c ∈ id, Char.ofNat (UInt16.ofNat c.toNat).toNat = c := by
    intro c hc
    rw [hnat c hc, Char.ofNat_toNat]
  rw [Utf8.fromUtf16_of_lt hunits, Json.units, List.map_map]
  exact (List.map_congr_left hsame).trans (List.map_id id)

/-- An id that the client passes comes to the engine as it is. -/
theorem passed_units : passed (Json.units id) = id := by
  have hascii := ascii_bytes (lt_of_hex hid)
  have hencode : Utf8.encode id = id.bytes := by
    have h := Utf8.encode_ofNat hascii
    rw [chars_bytes hid] at h
    exact h
  have hread : cString (id.bytes ++ [0]) = id.bytes := by
    unfold cString
    rw [List.takeWhile_append_of_pos (bne_of_not_mem (null_not_mem_bytes hid)),
      List.takeWhile_cons_of_neg (by decide), List.append_nil]
  unfold passed toNativeUtf8 ofCString
  rw [fromUtf16_units hid, hencode, hread, chars_bytes hid]

end Hex

theorem take_infohashToHex_iff (ih : InfoHash) :
    (infohashToHex ih).take 63 = infohashToHex ih ↔ ih.hasV2 = false := by
  rw [List.take_eq_self_iff, length_infohashToHex]
  cases ih.hasV2 <;> simp

theorem passed_take (ih : InfoHash) :
    passed (Json.units ((infohashToHex ih).take 63)) = (infohashToHex ih).take 63 :=
  passed_units fun _ hc => isHexDigit_of_mem_infohashToHex (List.mem_of_mem_take hc)

theorem units_take_iff (ih : InfoHash) :
    Json.units ((infohashToHex ih).take 63) = Json.units (infohashToHex ih) ↔
      ih.hasV2 = false := by
  rw [← take_infohashToHex_iff]
  constructor
  · intro h
    have hsame := congrArg passed h
    rw [passed_take, passed_units fun _ hc => isHexDigit_of_mem_infohashToHex hc] at hsame
    exact hsame
  · intro h
    rw [h]

namespace SeekServeEngine

/-- The session holds its torrents under ids made of hashes. -/
def SessionsNamed (e : SeekServeEngine) : Prop :=
  ∀ id, e.sessions.hasTorrent id = true → ∃ ih, infohashToHex ih = id

theorem SessionsNamed.of_sessions {e e' : SeekServeEngine} (h : e.SessionsNamed)
    (hsessions : e'.sessions = e.sessions) : e'.SessionsNamed := by
  intro id hhas
  rw [hsessions] at hhas
  exact h id hhas

theorem SessionsNamed.of_addTorrent {e e' : SeekServeEngine} (h : e.SessionsNamed)
    {load : Loader} {params : AddTorrentParams}
    (hsessions : e'.sessions = (e.sessions.addTorrent load params).2) : e'.SessionsNamed := by
  intro id hhas
  rw [hsessions, TorrentSessionManager.hasTorrent_addTorrent] at hhas
  rcases hhas with hresult | hold
  · rw [TorrentSessionManager.addTorrent_result] at hresult
    cases hload : load.load params.uri with
    | error err =>
      rw [hload] at hresult
      cases hresult
    | ok ih =>
      rw [hload] at hresult
      exact ⟨ih, Except.ok.inj hresult⟩
  · exact h id hold

theorem SessionsNamed.of_removeTorrent {e e' : SeekServeEngine} (h : e.SessionsNamed)
    {id : TorrentId} (hsessions : e'.sessions = (e.sessions.removeTorrent id).2) :
    e'.SessionsNamed := by
  intro id' hhas
  rw [hsessions, TorrentSessionManager.hasTorrent_removeTorrent] at hhas
  exact h id' hhas.2

theorem sessionsNamed_create (env : Env) (config : Config) (cache : OfflineCacheManager) :
    (create env config cache).SessionsNamed := by
  have hfresh : (fresh config cache).SessionsNamed := by
    intro id hhas
    cases hhas
  unfold create
  generalize cache.listTorrentUris = rows
  generalize fresh config cache = e at hfresh
  induction rows generalizing e with
  | nil => exact hfresh
  | cons row rows ih =>
    apply ih
    unfold restoreRow
    split
    · rename_i sessions heq
      exact hfresh.of_addTorrent (by rw [heq])
    · exact hfresh.of_sessions rfl

theorem sessionsNamed_step {e : SeekServeEngine} (h : e.SessionsNamed) (ev : Event) :
    (e.step ev).2.SessionsNamed := by
  cases records_step e ev with
  | added uri savePath hop hrecords =>
    exact h.of_addTorrent (congrArg Records.sessions hrecords)
  | removed id deleteFiles hop hrecords =>
    exact h.of_removeTorrent (congrArg Records.sessions hrecords)
  | announced ih hop hrecords hmeta => exact h.of_sessions (congrArg Records.sessions hrecords)
  | controlled req server api hop hserver hapi hrecords hmeta =>
    have hsessions : (e.step ev).2.sessions = ((e.controlContext ev.env server api).serve
        (controlRoute api.authToken ev.env.json req)).sessions :=
      congrArg Records.sessions hrecords
    rw [ControlContext.serve_sessions] at hsessions
    cases hroute : controlRoute api.authToken ev.env.json req with
    | reject | preflight | crash | listTorrents | serverStop | listCache =>
      rw [hroute] at hsessions
      exact h.of_sessions hsessions
    | addTorrent params =>
      rw [hroute] at hsessions
      exact h.of_addTorrent hsessions
    | torrent id route =>
      rw [hroute] at hsessions
      cases route with
      | remove => exact h.of_removeTorrent hsessions
      | files | select | pause | resume | status | streamUrl | unknown =>
        exact h.of_sessions hsessions
  | restarted hop hnew =>
    rw [hnew]
    exact sessionsNamed_create ev.env e.config e.cache
  | quiet hop hunserved hrecords hmeta => exact h.of_sessions (congrArg Records.sessions hrecords)

theorem sessionsNamed_run (env : Env) (config : Config) (cache : OfflineCacheManager)
    (es : List Event) : (machine.run (create env config cache) es).SessionsNamed :=
  machine.run_invariant SessionsNamed (fun _ ev h => sessionsNamed_step h ev)
    (sessionsNamed_create env config cache) es

/-- No torrent is stored under an id that has been cut. -/
theorem SessionsNamed.hasTorrent_take_iff {e : SeekServeEngine} (h : e.SessionsNamed)
    {ih : InfoHash} (hhas : e.sessions.hasTorrent (infohashToHex ih) = true) :
    e.sessions.hasTorrent ((infohashToHex ih).take 63) = true ↔ ih.hasV2 = false := by
  rw [← take_infohashToHex_iff]
  constructor
  · intro hcut
    obtain ⟨ih', hid⟩ := h _ hcut
    have hlength := congrArg List.length hid
    rw [List.length_take, length_infohashToHex, length_infohashToHex] at hlength
    rw [take_infohashToHex_iff]
    cases hv2 : ih.hasV2 with
    | false => rfl
    | true =>
      rw [hv2] at hlength
      split at hlength
      · cases hlength
      · cases hlength
  · intro hsame
    rw [hsame]
    exact hhas

end SeekServeEngine

open SeekServeEngine

/-- The client returns the first 63 characters of the id that the torrent is stored under. -/
theorem addTorrent_returns (env : Env) (e : SeekServeEngine) (uri : DartString) {ih : InfoHash}
    (hload : env.load.load (passed uri) = .ok ih) :
    ∃ e', SeekServeClient.addTorrent env e uri =
        (.ok (Json.units ((infohashToHex ih).take 63)), e') ∧
      e'.sessions = (e.sessions.addTorrent env.load ⟨passed uri, []⟩).2 ∧
      e'.sessions.hasTorrent (infohashToHex ih) = true := by
  have hhex : ∀ c ∈ infohashToHex ih, isHexDigit c = true := fun _ hc =>
    isHexDigit_of_mem_infohashToHex hc
  have hresult := e.sessions.addTorrent_result env.load ⟨passed uri, []⟩
  have hhas := (e.sessions.hasTorrent_addTorrent env.load ⟨passed uri, []⟩ (infohashToHex ih)).mpr
  rw [hload] at hresult
  cases hadd : e.sessions.addTorrent env.load ⟨passed uri, []⟩ with
  | mk result sessions =>
    rw [hadd] at hresult hhas
    have hok : result = .ok (infohashToHex ih) := hresult
    subst hok
    refine ⟨{ e with
      sessions := sessions
      cache := e.cache.saveTorrentUri env.now (infohashToHex ih) (passed uri) }, ?_, rfl,
      hhas (.inl rfl)⟩
    have hread := toDartString_copyId hhex (List.replicate 64 0) 64
    simp only [SeekServeClient.addTorrent, ssAddTorrent, SeekServeEngine.addTorrent, hadd]
    rw [if_pos (by omega)]
    exact Prod.ext hread rfl

/-- A removal fails with "not found" exactly if the session has no torrent of that id. -/
theorem removeTorrent_result (e : SeekServeEngine) (torrentId : DartString) :
    (SeekServeClient.removeTorrent e torrentId).1 =
      if e.sessions.hasTorrent (passed torrentId) then .ok ()
      else .error (.seekServe ssErrNotFound) := by
  have hresult := (records_removeTorrent e (passed torrentId)).1
  unfold SeekServeClient.removeTorrent ssRemoveTorrent
  cases hremove : e.removeTorrent (passed torrentId) with
  | mk result e' =>
    rw [hremove] at hresult
    simp only at hresult
    subst hresult
    unfold TorrentSessionManager.removeTorrent TorrentSessionManager.hasTorrent
    cases e.sessions.handles.lookup (passed torrentId) with
    | none => rfl
    | some handle => rfl

theorem selectFile_not_found (env : Env) {e : SeekServeEngine} {torrentId : DartString}
    (h : e.sessions.hasTorrent (passed torrentId) = false) (fileIndex : Int) :
    (SeekServeClient.selectFile env e torrentId fileIndex).1 =
      .error (.seekServe ssErrNotFound) := by
  have hnone : e.sessions.getHandle (passed torrentId) = none := by
    apply Option.not_isSome_iff_eq_none.mp
    rw [show (e.sessions.getHandle (passed torrentId)).isSome = false from h]
    exact Bool.false_ne_true
  simp only [SeekServeClient.selectFile, ssSelectFile, SeekServeEngine.selectFile, hnone]
  rfl

/-- In every reachable state, the id that the client returns is the one that the torrent is
stored under exactly if the torrent has no v2 hash; otherwise it is the id of no torrent. -/
theorem returned_id_iff (env₀ : Env) (config : Config) (cache : OfflineCacheManager)
    (es : List Event) (env : Env) (uri : DartString) {ih : InfoHash}
    (hload : env.load.load (passed uri) = .ok ih) :
    ∃ s e', SeekServeClient.addTorrent env (machine.run (create env₀ config cache) es) uri =
        (.ok s, e') ∧
      e'.sessions.hasTorrent (infohashToHex ih) = true ∧
      (s = Json.units (infohashToHex ih) ↔ ih.hasV2 = false) ∧
      (passed s = infohashToHex ih ↔ ih.hasV2 = false) ∧
      (e'.sessions.hasTorrent (passed s) = true ↔ ih.hasV2 = false) ∧
      (SeekServeClient.removeTorrent e' s).1 =
        (if ih.hasV2 then .error (.seekServe ssErrNotFound) else .ok ()) ∧
      ∀ env' fi, (SeekServeClient.selectFile env' e' s fi).1 =
        if ih.hasV2 then .error (.seekServe ssErrNotFound)
        else checkError (ssSelectFile env' e' (infohashToHex ih) fi).1 := by
  obtain ⟨e', hadd, hsessions, hhas⟩ :=
    addTorrent_returns env (machine.run (create env₀ config cache) es) uri hload
  have hnamed := (sessionsNamed_run env₀ config cache es).of_addTorrent hsessions
  have hfound := hnamed.hasTorrent_take_iff hhas
  refine ⟨_, e', hadd, hhas, units_take_iff ih, ?_, ?_, ?_, ?_⟩
  · rw [passed_take, take_infohashToHex_iff]
  · rw [passed_take, hfound]
  · rw [removeTorrent_result, passed_take]
    cases hv2 : ih.hasV2 with
    | false => rw [if_pos (hfound.mpr hv2), if_neg Bool.false_ne_true]
    | true =>
      rw [if_neg fun h => absurd (hfound.mp h) (by simp [hv2]), if_pos rfl]
  · intro env' fi
    cases hv2 : ih.hasV2 with
    | false =>
      rw [if_neg Bool.false_ne_true]
      unfold SeekServeClient.selectFile
      rw [passed_take, (take_infohashToHex_iff ih).mpr hv2]
    | true =>
      rw [if_pos rfl]
      apply selectFile_not_found
      rw [passed_take]
      apply Bool.eq_false_of_not_eq_true
      intro h
      rw [hfound.mp h] at hv2
      cases hv2

/-- libtorrent loads a torrent with these hashes, whatever it is asked for. -/
def loadsAs (ih : InfoHash) : Env :=
  { sampleEnv with load := ⟨fun _ => some ih, fun _ => some ih⟩ }

theorem loadsAs_load (ih : InfoHash) (uri : CxxString) : (loadsAs ih).load.load uri = .ok ih := by
  unfold Loader.load
  by_cases hmagnet : CxxString.substr uri 0 (some 7) = "magnet:".toList
  · simp only [if_pos hmagnet]
    rfl
  · simp only [if_neg hmagnet]
    rfl

theorem returned_id_iff_v1 :
    ∃ s e', SeekServeClient.addTorrent (loadsAs (sampleHash 1)) (sampleRun [])
        (Json.word "a.torrent") = (.ok s, e') ∧
      s = Json.units (sampleId 1) ∧ (SeekServeClient.removeTorrent e' s).1 = .ok () := by
  obtain ⟨s, e', hadd, -, hsame, -, -, hremove, -⟩ := returned_id_iff sampleEnv {} .empty []
    (loadsAs (sampleHash 1)) (Json.word "a.torrent") (loadsAs_load (sampleHash 1) _)
  exact ⟨s, e', hadd, hsame.mpr rfl, hremove⟩

theorem hybrid_id_is_cut :
    ∃ s e', SeekServeClient.addTorrent (loadsAs hybridHash) (sampleRun [])
        (Json.word "a.torrent") = (.ok s, e') ∧
      e'.sessions.hasTorrent (infohashToHex hybridHash) = true ∧
      s ≠ Json.units (infohashToHex hybridHash) ∧
      e'.sessions.hasTorrent (passed s) ≠ true := by
  obtain ⟨e', hadd, hsessions, hhas⟩ := addTorrent_returns (loadsAs hybridHash) (sampleRun [])
    (Json.word "a.torrent") (loadsAs_load hybridHash _)
  have hnamed := (sessionsNamed_run sampleEnv {} .empty []).of_addTorrent hsessions
  have hv2 : hybridHash.hasV2 ≠ false := by decide
  refine ⟨_, e', hadd, hhas, ?_, ?_⟩
  · rw [ne_eq, units_take_iff]
    exact hv2
  · rw [passed_take, ne_eq, hnamed.hasTorrent_take_iff hhas]
    exact hv2

end SeekServe
