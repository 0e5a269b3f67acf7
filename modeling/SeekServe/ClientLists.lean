import SeekServe.CacheRows
import SeekServe.ClientIds
import SeekServe.NativeJson

/-!
# Lists through the C API

`ss_list_files` and `ss_list_torrents` answer with JSON texts, which the Dart client decodes.
-/

namespace SeekServe

set_option autoImplicit false

/-- How a call of the client ends; an exception in C++ ends the process. -/
inductive CallResult (α : Type) where
  | returned (a : α)
  | seekServe (errorCode : Int)
  /-- a `FormatException` -/
  | format
  /-- a cast that fails -/
  | type
  | terminated

def CallResult.bind {α β : Type} (r : CallResult α) (f : α → CallResult β) : CallResult β :=
  match r with
  | .returned a => f a
  | .seekServe errorCode => .seekServe errorCode
  | .format => .format
  | .type => .type
  | .terminated => .terminated

def CallResult.map {α β : Type} (f : α → β) (r : CallResult α) : CallResult β :=
  r.bind fun a => .returned (f a)

/-- An error code, and what the pointer for the answer points to afterwards. -/
structure CAnswer where
  code : Int
  out : Option (List UInt8)

/-- What an allocated string leaves behind the pointer. -/
def allocated (s : List UInt8) : CAnswer := ⟨ssOk, some (s ++ [0])⟩

namespace CApi
variable (dump : JsonValue → Option (List UInt8))

def fileJson (f : FileInfo) : JsonValue :=
  .object [("index".toList, .integer f.index), ("path".toList, .string f.path),
    ("size".toList, .integer f.size), ("first_piece".toList, .integer f.firstPiece),
    ("end_piece".toList, .integer f.endPiece)]

/-- `none` stands for an exception of `dump`. -/
def ssListFiles (e : SeekServeEngine) (torrentId : CxxString) : Option CAnswer :=
  match e.listFiles torrentId with
  | .error err => some ⟨mapError err, none⟩
  | .ok files =>
    let response := .object [("files".toList, .array (files.map fileJson))]
    (dump response).map allocated

def ssListTorrents (e : SeekServeEngine) : Option CAnswer :=
  (dump (.array (e.listTorrents.map .string))).map allocated

end CApi

/-- `FileInfo` on the Dart side. -/
structure ClientFile where
  index : Int
  path : DartString
  size : Int
  deriving DecidableEq

/-- A cast to a type without null. -/
def castInt : Option Json.Value → CallResult Int
  | some (.int i) => .returned i
  | _ => .type

def castString : Option Json.Value → CallResult DartString
  | some (.string s) => .returned s
  | _ => .type

def ClientFile.fromJson : Json.Value → CallResult ClientFile
  | .object json =>
    (castInt (Json.field (Json.word "index") json)).bind fun index =>
    (castString (Json.field (Json.word "path") json)).bind fun path =>
    (castInt (Json.field (Json.word "size") json)).map fun size => ⟨index, path, size⟩
  | _ => .type

/-- The elements one after the other, up to the first that throws. -/
def collect {α : Type} (f : Json.Value → CallResult α) : List Json.Value → CallResult (List α)
  | [] => .returned []
  | w :: ws => (f w).bind fun a => (collect f ws).map fun as => a :: as

namespace SeekServeClient

/-- The text of an answer: the code is checked, and the string read up to its terminator. -/
def jsonOf : Option CAnswer → CallResult Json.Value
  | none => .terminated
  | some answer =>
    match checkError answer.code with
    | .error (.seekServe errorCode) => .seekServe errorCode
    | .error .format => .format
    | .ok () =>
      match toDartString (answer.out.getD []) with
      | .error _ => .format
      | .ok jsonStr =>
        match Json.decode jsonStr with
        | none => .format
        | some decoded => .returned decoded

variable (dump : JsonValue → Option (List UInt8))

/-- `as List<dynamic>` where the key is there. -/
def fileItems : Json.Value → CallResult (List Json.Value)
  | .object members =>
    match Json.field (Json.word "files") members with
    | none => .returned []
    | some (.array list) => .returned list
    | some _ => .type
  | .array list => .returned list
  | _ => .returned []

def listFiles (e : SeekServeEngine) (torrentId : DartString) : CallResult (List ClientFile) :=
  (jsonOf (CApi.ssListFiles dump e (passed torrentId))).bind fun decoded =>
    (fileItems decoded).bind (collect ClientFile.fromJson)

/-- The casts of the elements, which the client makes as it goes through them. -/
def listTorrents (e : SeekServeEngine) : CallResult (List DartString) :=
  (jsonOf (CApi.ssListTorrents dump e)).bind fun decoded =>
    match decoded with
    | .array list => collect (fun w => castString (some w)) list
    | _ => .type

end SeekServeClient

/-- The text that a string holds in UTF-8. -/
def textOf (s : CxxString) : List Char := (Utf8.decode s.bytes).getD []

/-- The fields of a file as the C++ types hold them, with a path in UTF-8. -/
structure FileInfo.Sound (f : FileInfo) : Prop where
  path : f.path = utf8String (textOf f.path)
  index : -(2 ^ 31) ≤ f.index ∧ f.index < 2 ^ 31
  size : -(2 ^ 63) ≤ f.size ∧ f.size < 2 ^ 63
  firstPiece : -(2 ^ 31) ≤ f.firstPiece ∧ f.firstPiece < 2 ^ 31
  endPiece : -(2 ^ 31) ≤ f.endPiece ∧ f.endPiece < 2 ^ 31

def FileInfo.onClient (f : FileInfo) : ClientFile :=
  ⟨f.index, Utf8.utf16 (textOf f.path), f.size⟩

theorem textOf_utf8String (cs : List Char) : textOf (utf8String cs) = cs := by
  unfold textOf
  rw [bytes_utf8String, Utf8.decode_encode, Option.getD_some]

section Json
variable {dump : JsonValue → Option (List UInt8)} {parse : List UInt8 → Option JsonValue}
  (hjson : FollowsJson dump parse)
include hjson

/-- An answer that C++ writes is the value that the client decodes. -/
theorem jsonOf_dump {v : JsonValue} {w : Json.Value} (h : v.Stands w) :
    ∃ w', v.Stands w' ∧ SeekServeClient.jsonOf ((dump v).map allocated) = .returned w' := by
  obtain ⟨cs, w', hstands, hdump, hwrites⟩ := hjson.dump_text h
  have hnull : 0 ∉ Utf8.encode cs := fun hmem =>
    hwrites.null_not_mem (Utf8.mem_of_toUtf16 hmem (by decide) (Utf8.toUtf16_encode cs))
  have hread : cString (Utf8.encode cs ++ [0]) = Utf8.encode cs := by
    unfold cString
    rw [List.takeWhile_append_of_pos (bne_of_not_mem hnull),
      List.takeWhile_cons_of_neg (by decide), List.append_nil]
  have hstring : toDartString (Utf8.encode cs ++ [0]) = .ok (Utf8.utf16 cs) := by
    unfold toDartString
    rw [hread, Utf8.toUtf16_encode]
  refine ⟨w', hstands, ?_⟩
  rw [hdump]
  simp only [Option.map_some, SeekServeClient.jsonOf, allocated, checkError, if_true,
    Option.getD_some, hstring, Json.decode_of_writes hwrites]

end Json

theorem collect_of_forall₂ {α : Type} {f : Json.Value → CallResult α} {ws : List Json.Value}
    {as : List α} (h : List.Forall₂ (fun w a => f w = .returned a) ws as) :
    collect f ws = .returned as := by
  induction h with
  | nil => rfl
  | cons hw _ ih => rw [collect, hw, CallResult.bind, ih, CallResult.map, CallResult.bind]

/-- An array of C++, element by element, as the client collects it. -/
theorem collect_of_stands {α β : Type} {f : Json.Value → CallResult β} {toJson : α → JsonValue}
    {result : α → β} {xs : List α}
    (helement : ∀ x ∈ xs, ∀ w, (toJson x).Stands w → f w = .returned (result x)) {w : Json.Value}
    (h : (JsonValue.array (xs.map toJson)).Stands w) :
    ∃ ws, w = .array ws ∧ collect f ws = .returned (xs.map result) := by
  obtain ⟨ws, rfl, hforall⟩ := h.of_array
  refine ⟨ws, rfl, collect_of_forall₂ ?_⟩
  rw [List.forall₂_map_left_iff] at hforall
  rw [List.forall₂_map_right_iff]
  clear h
  induction hforall with
  | nil => exact .nil
  | cons hx _ ih =>
    refine .cons (helement _ List.mem_cons_self _ hx) (ih fun x hmem => ?_)
    exact helement x (List.mem_cons_of_mem _ hmem)

theorem stands_array {α : Type} {toJson : α → JsonValue} {xs : List α}
    (h : ∀ x ∈ xs, ∃ w, (toJson x).Stands w) :
    ∃ w, (JsonValue.array (xs.map toJson)).Stands w := by
  obtain ⟨ps, hps, hstands⟩ : ∃ ps : List (JsonValue × Json.Value),
      ps.map Prod.fst = xs.map toJson ∧ ∀ p ∈ ps, p.1.Stands p.2 := by
    induction xs with
    | nil => exact ⟨[], rfl, fun p hp => absurd hp List.not_mem_nil⟩
    | cons x xs ih =>
      obtain ⟨w, hw⟩ := h x List.mem_cons_self
      obtain ⟨ps, hps, hstands⟩ := ih fun y hy => h y (List.mem_cons_of_mem x hy)
      refine ⟨(toJson x, w) :: ps, congrArg (toJson x :: ·) hps, ?_⟩
      intro p hp
      rcases List.mem_cons.mp hp with rfl | hp
      · exact hw
      · exact hstands p hp
  exact ⟨_, hps ▸ JsonValue.Stands.array ps hstands⟩

section Files
variable {f : FileInfo} (hf : f.Sound)
include hf

theorem stands_fileJson : ∃ w, (CApi.fileJson f).Stands w := by
  refine ⟨_, @JsonValue.Stands.record ["index", "path", "size", "first_piece", "end_piece"]
    [("index", .integer f.index, .int f.index),
      ("path", .string f.path, .string (Utf8.utf16 (textOf f.path))),
      ("size", .integer f.size, .int f.size),
      ("first_piece", .integer f.firstPiece, .int f.firstPiece),
      ("end_piece", .integer f.endPiece, .int f.endPiece)] rfl (by decide) (by decide) ?_⟩
  have hinteger : ∀ {i : Int}, -(2 ^ 63) ≤ i → i < 2 ^ 63 →
      (JsonValue.integer i).Stands (.int i) := fun hlow hhigh => .integer hlow hhigh
  have hpath := JsonValue.Stands.string (textOf f.path)
  rw [← hf.path] at hpath
  have hindex := hf.index
  have hfirst := hf.firstPiece
  have hend := hf.endPiece
  intro p hp
  simp only [List.mem_cons, List.not_mem_nil, or_false] at hp
  rcases hp with rfl | rfl | rfl | rfl | rfl
  · exact hinteger (by omega) (by omega)
  · exact hpath
  · exact hinteger hf.size.1 hf.size.2
  · exact hinteger (by omega) (by omega)
  · exact hinteger (by omega) (by omega)

theorem fromJson_fileJson {w : Json.Value} (h : (CApi.fileJson f).Stands w) :
    ClientFile.fromJson w = .returned f.onClient := by
  obtain ⟨ns, rfl, hkeys⟩ := h.of_record
  obtain ⟨windex, hindex, hfieldIndex⟩ := (hkeys "index" (by decide)).1 _ List.mem_cons_self
  obtain ⟨wpath, hpath, hfieldPath⟩ := (hkeys "path" (by decide)).1 (.string f.path) (by simp)
  obtain ⟨wsize, hsize, hfieldSize⟩ := (hkeys "size" (by decide)).1 (.integer f.size) (by simp)
  obtain ⟨-, -, rfl⟩ := JsonValue.Stands.integer_iff.mp hindex
  obtain ⟨-, -, rfl⟩ := JsonValue.Stands.integer_iff.mp hsize
  rw [hf.path] at hpath
  rw [hpath.of_string] at hfieldPath
  simp only [ClientFile.fromJson, hfieldIndex, hfieldPath, hfieldSize]
  rfl

end Files

section Client
variable {dump : JsonValue → Option (List UInt8)} {parse : List UInt8 → Option JsonValue}
  (hjson : FollowsJson dump parse)
include hjson

/-- The client lists the files of the catalog in their order, whatever stands in their paths. -/
theorem listFiles_returned (e : SeekServeEngine) (torrentId : DartString) {files : List FileInfo}
    (hfiles : e.listFiles (passed torrentId) = .ok files) (hsound : ∀ f ∈ files, f.Sound) :
    SeekServeClient.listFiles dump e torrentId = .returned (files.map FileInfo.onClient) := by
  obtain ⟨array, harray⟩ := stands_array fun f hf => stands_fileJson (hsound f hf)
  have hrecord := @JsonValue.Stands.record ["files"]
    [("files", .array (files.map CApi.fileJson), array)] rfl (by decide) (by decide) (by
      intro p hp
      cases List.mem_singleton.mp hp
      exact harray)
  obtain ⟨w, hw, hanswer⟩ := jsonOf_dump hjson hrecord
  obtain ⟨ns, rfl, hkeys⟩ := hw.of_record
  obtain ⟨items, hitems, hfield⟩ := (hkeys "files" (by decide)).1 _ List.mem_cons_self
  obtain ⟨ws, rfl, hcollect⟩ :=
    collect_of_stands (fun f hf _ => fromJson_fileJson (hsound f hf)) hitems
  have hcall : CApi.ssListFiles dump e (passed torrentId) =
      (dump (.object [("files".toList, .array (files.map CApi.fileJson))])).map allocated := by
    unfold CApi.ssListFiles
    rw [hfiles]
  have hjsonOf : SeekServeClient.jsonOf (CApi.ssListFiles dump e (passed torrentId)) =
      .returned (.object ns) := by
    rw [hcall]
    exact hanswer
  have hlist : SeekServeClient.fileItems (.object ns) = .returned ws := by
    simp only [SeekServeClient.fileItems, hfield]
  unfold SeekServeClient.listFiles
  rw [hjsonOf, CallResult.bind, hlist, CallResult.bind, hcollect]

end Client

theorem listFiles_pending {dump : JsonValue → Option (List UInt8)} {e : SeekServeEngine}
    {torrentId : DartString}
    (hfiles : e.listFiles (passed torrentId) = .error .metadataNotReady) :
    SeekServeClient.listFiles dump e torrentId = .seekServe ssErrMetadataPending := by
  unfold SeekServeClient.listFiles CApi.ssListFiles
  rw [hfiles]
  rfl

namespace SeekServeEngine

/-- The files that a step leaves in the catalog: those before, none, or those announced. -/
theorem listFiles_step_cases (e : SeekServeEngine) (ev : Event) (id : TorrentId) :
    (e.step ev).2.catalog.listFiles id = e.catalog.listFiles id ∨
      (e.step ev).2.catalog.listFiles id = .error .metadataNotReady ∨
      ∃ ti, ev.op.announcement = some (id, ti) ∧
        (e.step ev).2.catalog.listFiles id = .ok ti.fileInfos := by
  have hmetadata : ∀ ih ti,
      (e.onMetadataReceived ev.env ih ti).catalog.listFiles id = e.catalog.listFiles id ∨
        (e.onMetadataReceived ev.env ih ti).catalog.listFiles id = .error .metadataNotReady ∨
        ∃ ti', some (infohashToHex ih, ti) = some (id, ti') ∧
          (e.onMetadataReceived ev.env ih ti).catalog.listFiles id = .ok ti'.fileInfos := by
    intro ih ti
    have h : (e.onMetadataReceived ev.env ih ti).catalog = _ :=
      congrArg Records.catalog (records_onMetadataReceived ev.env e ih ti)
    rw [h]
    split
    · exact Or.inl rfl
    · rw [MetadataCatalog.listFiles_onMetadataReceived]
      split
      · rename_i hnew
        exact Or.inr (Or.inr ⟨ti, by rw [hnew.1], rfl⟩)
      · exact Or.inl rfl
  unfold step
  cases hop : ev.op with
  | addTorrent uri savePath =>
    exact Or.inl (congrArg (fun r => r.catalog.listFiles id)
      (records_addTorrent ev.env e uri savePath).2)
  | removeTorrent id' deleteFiles =>
    have h : (e.removeTorrent id').2.catalog = e.catalog.remove id' :=
      congrArg Records.catalog (records_removeTorrent e id').2
    simp only [h, MetadataCatalog.remove, MetadataCatalog.listFiles, AssocMap.lookup_erase_eq]
    by_cases hid : id = id'
    · exact Or.inr (Or.inl (by rw [if_pos hid]))
    · exact Or.inl (by rw [if_neg hid])
  | selectFile id' fi => exact Or.inl (listFiles_selectFile ev.env e id' fi id)
  | startServer =>
    exact Or.inl (congrArg (fun r => r.catalog.listFiles id) (records_startServer ev.env e))
  | stopServer =>
    exact Or.inl (congrArg (fun r => r.catalog.listFiles id) (records_stopServer e))
  | metadataReceived ih ti => exact hmetadata ih ti
  | torrentAdded ih result =>
    rcases result with _ | _ | ti
    · exact Or.inl rfl
    · exact Or.inl rfl
    · exact hmetadata ih ti
  | pieceFinished ih piece => exact Or.inl rfl
  | fileCompleted ih fi => exact Or.inl rfl
  | tick => exact Or.inl (congrArg (fun r => r.catalog.listFiles id) (records_onTick ev.env e))
  | control req => exact Or.inl (listFiles_control ev.env e req id)
  | restart =>
    obtain ⟨sessions, cache, hnew⟩ := create_eq ev.env e.config e.cache
    have h : (e.restart ev.env).catalog = ⟨∅⟩ := congrArg SeekServeEngine.catalog hnew
    exact Or.inr (Or.inl (by rw [h]; rfl))

/-- In every run the catalog lists of a torrent what an alert has announced, or nothing yet. -/
theorem listFiles_run (env : Env) (config : Config) (cache : OfflineCacheManager)
    (evs : List Event) (id : TorrentId) :
    (machine.run (create env config cache) evs).listFiles id = .error .metadataNotReady ∨
      ∃ ev ∈ evs, ∃ ti, ev.op.announcement = some (id, ti) ∧
        (machine.run (create env config cache) evs).listFiles id = .ok ti.fileInfos := by
  have hstart : (create env config cache).catalog.listFiles id = .error .metadataNotReady := by
    obtain ⟨sessions, cache', hnew⟩ := create_eq env config cache
    rw [hnew]
    rfl
  refine machine.run_invariant_of (fun e => e.catalog.listFiles id = .error .metadataNotReady ∨
    ∃ ev ∈ evs, ∃ ti, ev.op.announcement = some (id, ti) ∧
      e.catalog.listFiles id = .ok ti.fileInfos) (fun ev => ev ∈ evs) ?_ (Or.inl hstart)
    fun ev hev => hev
  intro e ev hev h
  rcases listFiles_step_cases e ev id with hsame | hnone | ⟨ti, hann, hnew⟩
  · unfold machine
    simp only [hsame]
    exact h
  · exact Or.inl hnone
  · exact Or.inr ⟨ev, hev, ti, hann, hnew⟩

end SeekServeEngine

/-- The Dart client gets the files of the torrent as the engine knows them, whatever characters
their paths hold, or learns that there is no metadata yet. -/
theorem SeekServeClient.files_come_through {dump : JsonValue → Option (List UInt8)}
    {parse : List UInt8 → Option JsonValue} (hjson : FollowsJson dump parse) (env : Env)
    (config : Config) (cache : OfflineCacheManager) (evs : List Event)
    (hsound : ∀ ev ∈ evs, ∀ id ti, ev.op.announcement = some (id, ti) →
      ∀ f ∈ ti.fileInfos, f.Sound) (torrentId : DartString) :
    let e := SeekServeEngine.machine.run (.create env config cache) evs
    (e.listFiles (passed torrentId) = .error .metadataNotReady ∧
      listFiles dump e torrentId = .seekServe ssErrMetadataPending) ∨
    ∃ ev ∈ evs, ∃ ti, ev.op.announcement = some (passed torrentId, ti) ∧
      e.listFiles (passed torrentId) = .ok ti.fileInfos ∧
      listFiles dump e torrentId = .returned (ti.fileInfos.map FileInfo.onClient) := by
  intro e
  rcases SeekServeEngine.listFiles_run env config cache evs (passed torrentId) with
    hnone | ⟨ev, hev, ti, hann, hfiles⟩
  · exact Or.inl ⟨hnone, listFiles_pending hnone⟩
  · have hreturned := listFiles_returned hjson e torrentId hfiles (hsound ev hev _ ti hann)
    exact Or.inr ⟨ev, hev, ti, hann, hfiles, hreturned⟩

/-- A torrent of one file, whose path has quotes and an accent in it. -/
def quotedInfo : TorrentInfo := ⟨.ofFiles 4 [⟨utf8String "1/\"é\".mkv".toList, 10⟩]⟩

def quotedEvents : List Event :=
  sampleEvents [.addTorrent "a.torrent".toList [], .metadataReceived (sampleHash 1) quotedInfo]

theorem SeekServeClient.quoted_file_comes_through :
    listFiles JsonValue.compactDump
      (SeekServeEngine.machine.run (.create sampleEnv {} .empty) quotedEvents)
      (Json.units (sampleId 1)) = .returned [⟨0, Utf8.utf16 "1/\"é\".mkv".toList, 10⟩] := by
  have hpassed : passed (Json.units (sampleId 1)) = sampleId 1 :=
    passed_units fun _ hc => isHexDigit_of_mem_infohashToHex hc
  have hpath : (MetadataCatalog.fileInfo quotedInfo.layout 0).path =
      utf8String "1/\"é\".mkv".toList := rfl
  have htext := textOf_utf8String "1/\"é\".mkv".toList
  rw [← hpath] at htext
  have hann : ∀ ev ∈ quotedEvents, ∀ id ti, ev.op.announcement = some (id, ti) →
      ti = quotedInfo := by
    intro ev hev id ti hti
    simp only [quotedEvents, sampleEvents, List.map_cons, List.map_nil, List.mem_cons,
      List.not_mem_nil, or_false] at hev
    rcases hev with rfl | rfl
    · cases hti
    · cases hti
      rfl
  rcases files_come_through followsJson_compactDump sampleEnv {} .empty quotedEvents (by
      intro ev hev id ti hti f hf
      rw [hann ev hev id ti hti] at hf
      cases List.mem_singleton.mp hf
      exact ⟨hpath.trans (congrArg utf8String htext.symm), by decide, by decide, by decide,
        by decide⟩) (Json.units (sampleId 1)) with ⟨hnone, -⟩ | ⟨ev, hev, ti, hti, -, hreturned⟩
  · rw [hpassed] at hnone
    cases hnone
  · have hclient : (MetadataCatalog.fileInfo quotedInfo.layout 0).onClient =
        ⟨0, Utf8.utf16 "1/\"é\".mkv".toList, 10⟩ := by
      unfold FileInfo.onClient
      rw [htext]
      rfl
    rw [hreturned, hann ev hev _ ti hti]
    exact congrArg (fun file => CallResult.returned [file]) hclient

end SeekServe
