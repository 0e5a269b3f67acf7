import SeekServe.ClientLists
import SeekServe.FilePieces

/-!
# The catalog over a run

A step announces the files of a torrent, selects one of them or forgets them; in between the
entries stay as they are.
-/

namespace SeekServe

set_option autoImplicit false

/-- What one step of the engine does to the catalog. -/
inductive MetadataCatalog.Changes (c : MetadataCatalog) (removedIds : List TorrentId) (ev : Event) :
    MetadataCatalog → Prop
  | same : Changes c removedIds ev c
  | announced (id : TorrentId) (ti : TorrentInfo) (hann : ev.op.announcement = some (id, ti))
    (hnot : id ∉ removedIds) : Changes c removedIds ev (c.onMetadataReceived id ti)
  | selected (id : TorrentId) (fi : Int) : Changes c removedIds ev (c.selectFile id fi).2
  | removed (id : TorrentId) (deleteFiles : Bool) (hop : ev.op = .removeTorrent id deleteFiles) :
    Changes c removedIds ev (c.remove id)
  | restarted (hop : ev.op = .restart) : Changes c removedIds ev ⟨∅⟩

namespace SeekServeEngine

theorem catalog_selectFile (env : Env) (e : SeekServeEngine) (id : TorrentId) (fi : Int) :
    (e.selectFile env id fi).2.catalog = e.catalog ∨
      (e.selectFile env id fi).2.catalog = (e.catalog.selectFile id fi).2 := by
  have hdrop : ∀ e' : SeekServeEngine, (e'.dropPreviousSource id).catalog = e'.catalog := by
    intro e'
    unfold dropPreviousSource
    split
    · split <;> rfl
    · rfl
  unfold selectFile
  split
  · exact Or.inl rfl
  cases hselect : e.catalog.selectFile id fi with
  | mk result catalog =>
    cases result with
    | error err => exact Or.inr rfl
    | ok u =>
      right
      simp only
      split
      · exact hdrop _
      · exact hdrop _

theorem catalog_control (env : Env) (e : SeekServeEngine) (req : HttpRequest) :
    (e.control env req).2.catalog = e.catalog ∨
      ∃ id fi, (e.control env req).2.catalog = (e.catalog.selectFile id fi).2 := by
  rcases control_cases env e req with ⟨server, api, _, _, heq⟩ | ⟨_, heq⟩
  · have hserve := (e.controlContext env server api).serve_catalog
      (controlRoute api.authToken env.json req)
    have hstop : ∀ e' : SeekServeEngine, e'.stopServer.catalog = e'.catalog := fun e' =>
      congrArg Records.catalog (records_stopServer e')
    have hafter : (e.control env req).2.catalog = ((e.controlContext env server api).serve
        (controlRoute api.authToken env.json req)).catalog := by
      rw [heq]
      unfold afterControl
      simp only
      split
      · exact hstop _
      · rfl
    rw [hafter]
    exact hserve
  · rw [heq]
    exact Or.inl rfl

/-- One step of the engine, as the catalog sees it. -/
theorem catalog_step (e : SeekServeEngine) (ev : Event) :
    e.catalog.Changes e.removedIds ev (e.step ev).2.catalog := by
  have hsame : ∀ {c : MetadataCatalog}, c = e.catalog → e.catalog.Changes e.removedIds ev c := by
    intro c hc
    rw [hc]
    exact .same
  have hmetadata : ∀ ih ti, ev.op.announcement = some (infohashToHex ih, ti) →
      e.catalog.Changes e.removedIds ev (e.onMetadataReceived ev.env ih ti).catalog := by
    intro ih ti hann
    have h : (e.onMetadataReceived ev.env ih ti).catalog = _ :=
      congrArg Records.catalog (records_onMetadataReceived ev.env e ih ti)
    rw [h]
    split
    · exact .same
    · rename_i hnot
      exact .announced _ ti hann hnot
  unfold step
  cases hop : ev.op with
  | addTorrent uri savePath =>
    exact hsame (congrArg Records.catalog (records_addTorrent ev.env e uri savePath).2)
  | removeTorrent id deleteFiles =>
    have h : (e.removeTorrent id).2.catalog = e.catalog.remove id :=
      congrArg Records.catalog (records_removeTorrent e id).2
    simp only [h]
    exact .removed id deleteFiles hop
  | selectFile id fi =>
    rcases catalog_selectFile ev.env e id fi with h | h
    · exact hsame h
    · simp only [h]
      exact .selected id fi
  | startServer => exact hsame (congrArg Records.catalog (records_startServer ev.env e))
  | stopServer => exact hsame (congrArg Records.catalog (records_stopServer e))
  | metadataReceived ih ti =>
    apply hmetadata ih ti
    rw [hop]
    rfl
  | torrentAdded ih result =>
    rcases result with _ | _ | ti
    · exact .same
    · exact .same
    · apply hmetadata ih ti
      rw [hop]
      rfl
  | pieceFinished ih piece => exact .same
  | fileCompleted ih fi => exact .same
  | tick => exact hsame (congrArg Records.catalog (records_onTick ev.env e))
  | control req =>
    rcases catalog_control ev.env e req with h | ⟨id, fi, h⟩
    · exact hsame h
    · simp only [h]
      exact .selected id fi
  | restart =>
    obtain ⟨sessions, cache, hnew⟩ := create_eq ev.env e.config e.cache
    have h : (e.restart ev.env).catalog = ⟨∅⟩ := congrArg SeekServeEngine.catalog hnew
    simp only [h]
    exact .restarted hop

end SeekServeEngine

/-- The files stand at their indices, in the C++ types, and one of them may be selected. -/
structure TorrentEntry.Fits (entry : TorrentEntry) : Prop where
  index : ∀ (i : Nat) (file : FileInfo), entry.files[i]? = some file → file.index = i
  sound : ∀ f ∈ entry.files, f.Sound
  selected : ∀ fi, entry.selected = some fi → -(2 ^ 31) ≤ fi ∧ fi < 2 ^ 31

def MetadataCatalog.Fits (c : MetadataCatalog) : Prop :=
  ∀ id entry, c.catalog.lookup id = some entry → entry.Fits

/-- The metadata that an event announces fits into the C++ types. -/
def Event.Sound (ev : Event) : Prop :=
  ∀ id ti, ev.op.announcement = some (id, ti) → ∀ f ∈ ti.fileInfos, f.Sound

namespace TorrentEntry.Fits

theorem announced {ti : TorrentInfo} (h : ∀ f ∈ ti.fileInfos, f.Sound) :
    TorrentEntry.Fits ⟨ti, ti.fileInfos, none⟩ := by
  constructor
  · intro i file hfile
    obtain ⟨-, rfl⟩ := TorrentInfo.getElem?_fileInfos hfile
    rfl
  · exact h
  · intro fi hfi
    cases hfi

/-- The index of a file that is there has the 32 bits of its type. -/
theorem chosen {entry : TorrentEntry} (h : entry.Fits) {fi : Int} {file : FileInfo}
    (hfile : MetadataCatalog.TorrentEntry.file entry fi = .ok file) :
    TorrentEntry.Fits { entry with selected := some fi } := by
  refine ⟨h.index, h.sound, ?_⟩
  intro fi' hfi'
  cases hfi'
  unfold MetadataCatalog.TorrentEntry.file at hfile
  split at hfile
  · cases hfile
  · rename_i hpos
    split at hfile
    · cases hfile
    · rename_i found hget
      have hindex := h.index _ _ hget
      have hbound := (h.sound found (List.mem_of_getElem? hget)).index
      rw [hindex, Int.toNat_of_nonneg (by omega)] at hbound
      exact hbound

end TorrentEntry.Fits

namespace MetadataCatalog
variable {c c' : MetadataCatalog} {removedIds : List TorrentId} {ev : Event}

theorem Fits.onMetadataReceived (h : c.Fits) (id : TorrentId) {ti : TorrentInfo}
    (hti : ∀ f ∈ ti.fileInfos, f.Sound) : (c.onMetadataReceived id ti).Fits := by
  intro id' entry hentry
  unfold MetadataCatalog.onMetadataReceived at hentry
  split at hentry
  · exact h id' entry hentry
  · simp only [AssocMap.lookup_insert_eq] at hentry
    split at hentry
    · cases hentry
      exact .announced hti
    · exact h id' entry hentry

theorem Fits.selectFile (h : c.Fits) (id : TorrentId) (fi : Int) : (c.selectFile id fi).2.Fits := by
  intro id' entry hentry
  unfold MetadataCatalog.selectFile at hentry
  split at hentry
  · exact h id' entry hentry
  · rename_i old hold
    split at hentry
    · exact h id' entry hentry
    · rename_i file hfile
      simp only [AssocMap.lookup_insert_eq] at hentry
      split at hentry
      · cases hentry
        exact (h id old hold).chosen hfile
      · exact h id' entry hentry

theorem Fits.remove (h : c.Fits) (id : TorrentId) : (c.remove id).Fits := by
  intro id' entry hentry
  exact h id' entry (AssocMap.lookup_of_lookup_erase hentry).2

theorem Fits.step (h : c.Fits) (hev : ev.Sound) (hstep : c.Changes removedIds ev c') :
    c'.Fits := by
  cases hstep with
  | same => exact h
  | announced id ti hann hnot => exact h.onMetadataReceived id (hev id ti hann)
  | selected id fi => exact h.selectFile id fi
  | removed id deleteFiles hop => exact h.remove id
  | restarted hop =>
    intro id entry hentry
    cases hentry

theorem listFiles_ok_iff {id : TorrentId} {files : List FileInfo} :
    c.listFiles id = .ok files ↔
      ∃ entry, c.catalog.lookup id = some entry ∧ entry.files = files := by
  unfold listFiles
  cases c.catalog.lookup id with
  | none => simp
  | some entry => simp

theorem Fits.sound_of_listFiles (h : c.Fits) {id : TorrentId} {files : List FileInfo}
    (hfiles : c.listFiles id = .ok files) : ∀ f ∈ files, f.Sound := by
  obtain ⟨entry, hentry, rfl⟩ := listFiles_ok_iff.mp hfiles
  exact (h id entry hentry).sound

theorem Fits.selected_of_selectedFile (h : c.Fits) {id : TorrentId} {fi : Int}
    (hfi : c.selectedFile id = some fi) : -(2 ^ 31) ≤ fi ∧ fi < 2 ^ 31 := by
  obtain ⟨entry, hentry, hselected⟩ := Option.bind_eq_some_iff.mp hfi
  exact (h id entry hentry).selected fi hselected

theorem exists_files_iff {id : TorrentId} :
    (∃ files, c.listFiles id = .ok files) ↔ c.hasMetadata id = true := by
  rw [← listFiles_isOk]
  cases hfiles : c.listFiles id with
  | ok files => exact ⟨fun _ => rfl, fun _ => ⟨files, rfl⟩⟩
  | error err =>
    constructor
    · rintro ⟨files, hok⟩
      cases hok
    · intro hok
      cases hok

/-- The files of a torrent stay as they are, until the torrent is removed. -/
theorem Changes.files (hstep : c.Changes removedIds ev c') (hrestart : ev.op ≠ .restart)
    {id : TorrentId} (hremove : ∀ deleteFiles, ev.op ≠ .removeTorrent id deleteFiles)
    {files : List FileInfo} (hfiles : c.listFiles id = .ok files) :
    c'.listFiles id = .ok files := by
  cases hstep with
  | same => exact hfiles
  | announced id' ti hann hnot =>
    have hhas := exists_files_iff.mp ⟨files, hfiles⟩
    rw [listFiles_onMetadataReceived, if_neg]
    · exact hfiles
    · rintro ⟨rfl, hnone⟩
      rw [hhas] at hnone
      cases hnone
  | selected id' fi =>
    rw [listFiles_selectFile]
    exact hfiles
  | removed id' deleteFiles hop =>
    have hne : id ≠ id' := by
      rintro rfl
      exact hremove deleteFiles hop
    unfold MetadataCatalog.remove MetadataCatalog.listFiles
    simp only [AssocMap.lookup_erase_eq, if_neg hne]
    exact hfiles
  | restarted hop => exact absurd hop hrestart

/-- A torrent that has been removed gets no metadata. -/
theorem Changes.without (hstep : c.Changes removedIds ev c') {id : TorrentId}
    (hid : id ∈ removedIds) (hnone : c.hasMetadata id = false) : c'.hasMetadata id = false := by
  cases hstep with
  | same => exact hnone
  | announced id' ti hann hnot =>
    have hne : id ≠ id' := by
      rintro rfl
      exact hnot hid
    rw [hasMetadata_onMetadataReceived, decide_eq_false hne, hnone]
    rfl
  | selected id' fi =>
    rw [hasMetadata_selectFile]
    exact hnone
  | removed id' deleteFiles hop =>
    rw [hasMetadata_remove, hnone, Bool.and_false]
  | restarted hop => rfl

end MetadataCatalog

theorem SeekServeEngine.fits_run (env : Env) (config : Config) (cache : OfflineCacheManager)
    {evs : List Event} (hevs : ∀ ev ∈ evs, ev.Sound) :
    (machine.run (create env config cache) evs).catalog.Fits := by
  apply machine.run_invariant_of (fun e => e.catalog.Fits) Event.Sound _ _ hevs
  · intro e ev hev h
    exact h.step hev (catalog_step e ev)
  · obtain ⟨sessions, cache', hnew⟩ := create_eq env config cache
    rw [hnew]
    intro id entry hentry
    cases hentry

theorem sound_sampleMetadata (b : UInt8) :
    Event.Sound ⟨sampleEnv, .metadataReceived (sampleHash b) sampleInfo⟩ := by
  intro id ti hti f hf
  cases hti
  cases List.mem_singleton.mp hf
  exact ⟨by decide, by decide, by decide, by decide, by decide⟩

end SeekServe
