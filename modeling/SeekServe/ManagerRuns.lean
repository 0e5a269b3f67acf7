import SeekServe.SavedTorrents
import SeekServe.TorrentManager

/-!
# The torrent manager over a run

What the manager holds is compared with the engine after every step, whatever events are still on
their way.
-/

namespace SeekServe

set_option autoImplicit false

theorem ControlRoute.ne_remove {authToken : CxxString} {json : CxxString → JsonBody}
    {req : HttpRequest} (h : req.method ≠ .delete) (id : TorrentId) :
    controlRoute authToken json req ≠ .torrent id .remove := by
  have hadd : ∀ body, addRoute body ≠ .torrent id .remove := by
    intro body
    unfold addRoute
    repeat' split
    all_goals simp
  have hroute : ∀ sub, torrentRoute req.method sub ≠ .remove := by
    intro sub
    unfold torrentRoute
    rw [if_neg fun hdelete => h hdelete.1]
    repeat' split
    all_goals simp
  unfold controlRoute
  simp only
  repeat' split
  all_goals first
    | exact hadd _
    | (intro heq; exact hroute _ (ControlRoute.torrent.inj heq).2)
    | simp

/-- The operation neither saves a torrent nor removes one. -/
def Op.KeepsTorrents : Op → Prop
  | .addTorrent _ _ | .removeTorrent _ _ | .restart => False
  | .control req => req.method ≠ .delete
  | _ => True

/-- The alerts and the requests that the manager is made for. -/
structure Happening.Sound (h : Happening) : Prop where
  announced : h.event.Sound
  keeps : h.event.op.KeepsTorrents
  message : (EngineEvent.error h.message).Harmless

def EngineTurn.Sound : EngineTurn → Prop
  | .happen h => h.Sound
  | .goOn => True

namespace SeekServeEngine

/-- What holds of the engine whatever its threads do. -/
structure Settled (e : SeekServeEngine) : Prop where
  named : e.SessionsNamed
  /-- what is saved is in the session -/
  kept : ∀ id, e.cache.persisted id = true → e.sessions.hasTorrent id = true
  removed : ∀ id ∈ e.removedIds, e.catalog.hasMetadata id = false
  fits : e.catalog.Fits

/-- The torrents are the same, and the files that are known stay known. -/
structure Extends (e e' : SeekServeEngine) : Prop where
  persisted : ∀ id, e'.cache.persisted id = e.cache.persisted id
  removedIds : e'.removedIds = e.removedIds
  files : ∀ id files, e.listFiles id = .ok files → e'.listFiles id = .ok files

theorem Extends.refl (e : SeekServeEngine) : e.Extends e := ⟨fun _ => rfl, rfl, fun _ _ h => h⟩

theorem Extends.trans {e e' e'' : SeekServeEngine} (h : e.Extends e') (h' : e'.Extends e'') :
    e.Extends e'' :=
  ⟨fun id => (h'.persisted id).trans (h.persisted id), h'.removedIds.trans h.removedIds,
    fun id files hfiles => h'.files id files (h.files id files hfiles)⟩

theorem Extends.hasMetadata {e e' : SeekServeEngine} (h : e.Extends e') {id : TorrentId}
    (hhas : e.catalog.hasMetadata id = true) : e'.catalog.hasMetadata id = true := by
  obtain ⟨files, hfiles⟩ := MetadataCatalog.exists_files_iff.mpr hhas
  exact MetadataCatalog.exists_files_iff.mp ⟨files, h.files id files hfiles⟩

theorem Settled.hex {e : SeekServeEngine} (h : e.Settled) {id : TorrentId}
    (hid : e.cache.persisted id = true) : ∀ c ∈ id, isHexDigit c = true := by
  obtain ⟨ih, rfl⟩ := h.named id (h.kept id hid)
  exact fun c hc => isHexDigit_of_mem_infohashToHex hc

theorem Settled.hex_listTorrents {e : SeekServeEngine} (h : e.Settled) :
    ∀ id ∈ e.listTorrents, ∀ c ∈ id, isHexDigit c = true :=
  fun _ hid => h.hex (mem_listTorrents.mp hid)

theorem records_keeping (e : SeekServeEngine) {ev : Event} (hkeeps : ev.op.KeepsTorrents) :
    (∀ id, e.sessions.hasTorrent id = true → (e.step ev).2.sessions.hasTorrent id = true) ∧
      (e.step ev).2.cache.torrents = e.cache.torrents ∧
      (e.step ev).2.removedIds = e.removedIds := by
  cases records_step e ev with
  | added uri savePath hop hrecords =>
    rw [hop] at hkeeps
    exact hkeeps.elim
  | removed id deleteFiles hop hrecords =>
    rw [hop] at hkeeps
    exact hkeeps.elim
  | restarted hop hnew =>
    rw [hop] at hkeeps
    exact hkeeps.elim
  | announced ih hop hrecords hmeta =>
    have hsessions : (e.step ev).2.sessions = e.sessions := congrArg Records.sessions hrecords
    refine ⟨?_, congrArg Records.torrents hrecords, congrArg Records.removedIds hrecords⟩
    intro id hid
    rw [hsessions]
    exact hid
  | quiet hop hunserved hrecords hmeta =>
    have hsessions : (e.step ev).2.sessions = e.sessions := congrArg Records.sessions hrecords
    refine ⟨?_, congrArg Records.torrents hrecords, congrArg Records.removedIds hrecords⟩
    intro id hid
    rw [hsessions]
    exact hid
  | controlled req server api hop hserver hapi hrecords hmeta =>
    have hsessions : (e.step ev).2.sessions = ((e.controlContext ev.env server api).serve
        (controlRoute api.authToken ev.env.json req)).sessions :=
      congrArg Records.sessions hrecords
    refine ⟨?_, congrArg Records.torrents hrecords, congrArg Records.removedIds hrecords⟩
    intro id hid
    rw [hsessions, ControlContext.serve_sessions]
    rw [hop] at hkeeps
    have hremove := @ControlRoute.ne_remove api.authToken ev.env.json req hkeeps
    cases hroute : controlRoute api.authToken ev.env.json req with
    | reject | preflight | crash | listTorrents | serverStop | listCache => exact hid
    | addTorrent params =>
      exact (TorrentSessionManager.hasTorrent_addTorrent _ _ _ _).mpr (Or.inr hid)
    | torrent id' route =>
      cases route with
      | remove => exact absurd hroute (hremove id')
      | files | select | pause | resume | status | streamUrl | unknown => exact hid

namespace Settled
variable {e : SeekServeEngine}

theorem step (h : e.Settled) {ev : Event} (hkeeps : ev.op.KeepsTorrents) (hev : ev.Sound) :
    (e.step ev).2.Settled ∧ e.Extends (e.step ev).2 := by
  obtain ⟨hhas, htorrents, hremoved⟩ := records_keeping e hkeeps
  have hchanges := catalog_step e ev
  have hpersisted : ∀ id, (e.step ev).2.cache.persisted id = e.cache.persisted id := by
    intro id
    unfold OfflineCacheManager.persisted
    rw [htorrents]
  refine ⟨⟨sessionsNamed_step h.named ev, ?_, ?_, h.fits.step hev hchanges⟩, hpersisted,
    hremoved, ?_⟩
  · intro id hid
    rw [hpersisted] at hid
    exact hhas id (h.kept id hid)
  · intro id hid
    rw [hremoved] at hid
    exact hchanges.without hid (h.removed id hid)
  · intro id files hfiles
    apply hchanges.files
    · intro hop
      rw [hop] at hkeeps
      exact hkeeps
    · intro deleteFiles hop
      rw [hop] at hkeeps
      exact hkeeps
    · exact hfiles

theorem run (h : e.Settled) {evs : List Event}
    (hevs : ∀ ev ∈ evs, ev.op.KeepsTorrents ∧ ev.Sound) :
    (machine.run e evs).Settled ∧ e.Extends (machine.run e evs) := by
  induction evs generalizing e with
  | nil => exact ⟨h, .refl e⟩
  | cons ev evs ih =>
    obtain ⟨hkeeps, hsound⟩ := hevs ev List.mem_cons_self
    obtain ⟨hnext, hextends⟩ := h.step hkeeps hsound
    obtain ⟨hlast, hrest⟩ := ih hnext fun ev' hev' => hevs ev' (List.mem_cons_of_mem _ hev')
    exact ⟨hlast, hextends.trans hrest⟩

theorem selectFile (h : e.Settled) (env : Env) (id : TorrentId) (fi : Int) :
    (e.selectFile env id fi).2.Settled ∧ e.Extends (e.selectFile env id fi).2 := by
  have hsound : Event.Sound ⟨env, .selectFile id fi⟩ := by
    intro id' ti hann
    cases hann
  exact @Settled.step e h ⟨env, .selectFile id fi⟩ trivial hsound

theorem startServer (h : e.Settled) (env : Env) :
    (e.startServer env).2.Settled ∧ e.Extends (e.startServer env).2 := by
  have hsound : Event.Sound ⟨env, .startServer⟩ := by
    intro id' ti hann
    cases hann
  exact @Settled.step e h ⟨env, .startServer⟩ trivial hsound

/-- A saved torrent is added; the others stay as they are. -/
theorem addTorrent (h : e.Settled) (env : Env) (uri savePath : CxxString) :
    (e.addTorrent env uri savePath).2.Settled ∧
      (e.addTorrent env uri savePath).2.removedIds = e.removedIds ∧
      (e.addTorrent env uri savePath).2.catalog = e.catalog ∧
      ∀ id, (e.addTorrent env uri savePath).2.cache.persisted id = true ↔
        (e.addTorrent env uri savePath).1 = .ok id ∨ e.cache.persisted id = true := by
  obtain ⟨hresult, hrecords⟩ := records_addTorrent env e uri savePath
  have hsessions := congrArg Records.sessions hrecords
  have hcatalog : (e.addTorrent env uri savePath).2.catalog = e.catalog :=
    congrArg Records.catalog hrecords
  have htorrents := congrArg Records.torrents hrecords
  have hremoved : (e.addTorrent env uri savePath).2.removedIds = e.removedIds :=
    congrArg Records.removedIds hrecords
  simp only [records] at hsessions htorrents
  have hpersisted : ∀ id, (e.addTorrent env uri savePath).2.cache.persisted id = true ↔
      (e.addTorrent env uri savePath).1 = .ok id ∨ e.cache.persisted id = true := by
    intro id
    unfold OfflineCacheManager.persisted
    rw [htorrents, hresult]
    cases (e.sessions.addTorrent env.load ⟨uri, savePath⟩).1 with
    | error err => simp
    | ok id' =>
      have hsave := e.cache.persisted_saveTorrentUri env.now id' uri id
      rw [Except.ok.injEq, eq_comm (a := id')]
      exact hsave
  refine ⟨⟨h.named.of_addTorrent hsessions, ?_, ?_, ?_⟩, hremoved, hcatalog, hpersisted⟩
  · intro id hid
    rw [hsessions, TorrentSessionManager.hasTorrent_addTorrent, ← hresult]
    rcases (hpersisted id).mp hid with hnew | hold
    · exact Or.inl hnew
    · exact Or.inr (h.kept id hold)
  · intro id hid
    rw [hremoved] at hid
    rw [hcatalog]
    exact h.removed id hid
  · rw [hcatalog]
    exact h.fits

/-- A removal takes the torrent out of everything, and it can be seen to be removed. -/
theorem removeTorrent (h : e.Settled) (id : TorrentId) :
    (e.removeTorrent id).2.Settled ∧ (e.removeTorrent id).2.removedIds = id :: e.removedIds ∧
      (e.removeTorrent id).2.catalog = e.catalog.remove id ∧
      ∀ id', (e.removeTorrent id).2.cache.persisted id' = true ↔
        id' ≠ id ∧ e.cache.persisted id' = true := by
  obtain ⟨-, hrecords⟩ := records_removeTorrent e id
  have hsessions : (e.removeTorrent id).2.sessions = (e.sessions.removeTorrent id).2 :=
    congrArg Records.sessions hrecords
  have hcatalog : (e.removeTorrent id).2.catalog = e.catalog.remove id :=
    congrArg Records.catalog hrecords
  have htorrents : (e.removeTorrent id).2.cache.torrents =
      (e.cache.removeTorrentUri id).torrents := congrArg Records.torrents hrecords
  have hremoved : (e.removeTorrent id).2.removedIds = id :: e.removedIds :=
    congrArg Records.removedIds hrecords
  have hpersisted : ∀ id', (e.removeTorrent id).2.cache.persisted id' = true ↔
      id' ≠ id ∧ e.cache.persisted id' = true := by
    intro id'
    rw [← e.cache.persisted_removeTorrentUri id id']
    unfold OfflineCacheManager.persisted
    rw [htorrents]
  refine ⟨⟨h.named.of_removeTorrent hsessions, ?_, ?_, ?_⟩, hremoved, hcatalog, hpersisted⟩
  · intro id' hid'
    obtain ⟨hne, hold⟩ := (hpersisted id').mp hid'
    rw [hsessions, TorrentSessionManager.hasTorrent_removeTorrent]
    exact ⟨hne, h.kept id' hold⟩
  · intro id' hid'
    rw [hcatalog, MetadataCatalog.hasMetadata_remove]
    rw [hremoved] at hid'
    rcases List.mem_cons.mp hid' with rfl | hold
    · simp
    · rw [h.removed id' hold, Bool.and_false]
  · rw [hcatalog]
    exact h.fits.remove id

end Settled

/-- An event about metadata is fired when the metadata is there; the torrent may be removed
after it. -/
def Posted (e : SeekServeEngine) (s : List UInt8) : Prop :=
  ∃ ev : EngineEvent, ev.Harmless ∧ s = allocString ev.fire ∧ ∀ id, ev = .metadataReceived id →
    e.catalog.hasMetadata id.chars = true ∨ id.chars ∈ e.removedIds

/-- What a step must keep: metadata that has come stays there, unless its torrent is removed. -/
theorem Posted.of_known {e e' : SeekServeEngine}
    (hknown : ∀ id, e.catalog.hasMetadata id = true ∨ id ∈ e.removedIds →
      e'.catalog.hasMetadata id = true ∨ id ∈ e'.removedIds)
    {s : List UInt8} (hs : e.Posted s) : e'.Posted s := by
  obtain ⟨ev, hharmless, hfire, hreceived⟩ := hs
  exact ⟨ev, hharmless, hfire, fun id hev => hknown id.chars (hreceived id hev)⟩

theorem Extends.known {e e' : SeekServeEngine} (h : e.Extends e') (id : TorrentId)
    (hid : e.catalog.hasMetadata id = true ∨ id ∈ e.removedIds) :
    e'.catalog.hasMetadata id = true ∨ id ∈ e'.removedIds := by
  rw [h.removedIds]
  exact hid.imp_left h.hasMetadata

theorem Settled.known_addTorrent {e : SeekServeEngine} (h : e.Settled) (env : Env)
    (uri savePath : CxxString) (id : TorrentId)
    (hid : e.catalog.hasMetadata id = true ∨ id ∈ e.removedIds) :
    (e.addTorrent env uri savePath).2.catalog.hasMetadata id = true ∨
      id ∈ (e.addTorrent env uri savePath).2.removedIds := by
  obtain ⟨-, hremoved, hcatalog, -⟩ := h.addTorrent env uri savePath
  rw [hcatalog, hremoved]
  exact hid

theorem Settled.known_removeTorrent {e : SeekServeEngine} (h : e.Settled) (id id' : TorrentId)
    (hid' : e.catalog.hasMetadata id' = true ∨ id' ∈ e.removedIds) :
    (e.removeTorrent id).2.catalog.hasMetadata id' = true ∨
      id' ∈ (e.removeTorrent id).2.removedIds := by
  obtain ⟨-, hremoved, hcatalog, -⟩ := h.removeTorrent id
  rw [hcatalog, hremoved, MetadataCatalog.hasMetadata_remove, List.mem_cons]
  by_cases hsame : id' = id
  · exact Or.inr (Or.inl hsame)
  · rcases hid' with hhas | hold
    · exact Or.inl (by rw [hhas, decide_eq_false hsame]; rfl)
    · exact Or.inr (Or.inr hold)

/-- What comes through of it. -/
theorem Posted.received {e : SeekServeEngine} {s : List UInt8} (hs : e.Posted s) {id : TorrentId}
    (hid : ∀ c ∈ id, isHexDigit c = true)
    (hhandle : handleNativeEvent s = some (.metadataReceived (Json.units id))) :
    e.catalog.hasMetadata id = true ∨ id ∈ e.removedIds := by
  obtain ⟨ev, hharmless, rfl, hreceived⟩ := hs
  obtain ⟨-, event, hevent, hmatch⟩ := EngineEvent.survives_of_harmless hharmless
  rw [hhandle] at hevent
  cases hevent
  cases ev with
  | metadataReceived hexId =>
    have hsame : id = hexId.chars := by
      have h := congrArg passed hmatch
      rw [passed_units hid, passed_units hexId.isHex] at h
      exact h
    rw [hsame]
    exact hreceived hexId rfl
  | fileCompleted hexId fi => exact hmatch.elim
  | torrentPaused hexId => exact hmatch.elim
  | torrentResumed hexId => exact hmatch.elim
  | error message => exact hmatch.elim

/-- What holds while the thread of the alerts is in a handler: it enters a torrent that has not
been removed, and from then on the metadata is there unless the torrent is removed. -/
def Handles (e : SeekServeEngine) (handler : MetadataHandler) : Prop :=
  match handler.step with
  | .insert _ ti => handler.id ∉ e.removedIds ∧ ∀ f ∈ ti.fileInfos, f.Sound
  | _ => e.catalog.hasMetadata handler.id = true ∨ handler.id ∈ e.removedIds

/-- A step may remove a torrent, but not the one that the handler is about to enter. -/
theorem Handles.of_known {e e' : SeekServeEngine} {handler : MetadataHandler}
    (hhandles : e.Handles handler)
    (hknown : ∀ id, e.catalog.hasMetadata id = true ∨ id ∈ e.removedIds →
      e'.catalog.hasMetadata id = true ∨ id ∈ e'.removedIds)
    (hkeeps : handler.inserts = true → handler.id ∈ e'.removedIds → handler.id ∈ e.removedIds) :
    e'.Handles handler := by
  unfold MetadataHandler.inserts at hkeeps
  unfold Handles at hhandles ⊢
  cases hstep : handler.step with
  | insert env ti =>
    rw [hstep] at hhandles hkeeps
    exact ⟨fun hmem => hhandles.1 (hkeeps rfl hmem), hhandles.2⟩
  | list env | record env files | fire =>
    rw [hstep] at hhandles
    exact hknown handler.id hhandles

theorem Handles.of_extends {e e' : SeekServeEngine} (h : e.Extends e') {handler : MetadataHandler}
    (hhandles : e.Handles handler) : e'.Handles handler :=
  hhandles.of_known h.known fun _ hmem => h.removedIds ▸ hmem

/-- Each call of a handler keeps what the engine has, and an event is fired when the metadata is
there. -/
theorem Settled.goOn {e : SeekServeEngine} (h : e.Settled) {handler : MetadataHandler}
    (hhandles : e.Handles handler) {fired : List (List UInt8)} {e' : SeekServeEngine}
    {handler' : Option MetadataHandler} (hgo : handler.goOn e = (fired, e', handler')) :
    (e'.Settled ∧ e.Extends e') ∧ (∀ later, handler' = some later → e'.Handles later) ∧
      ∀ s ∈ fired, e'.Posted (allocString s) := by
  obtain ⟨ih, step⟩ := handler
  cases step with
  | insert env ti =>
    obtain ⟨hnot, hfiles⟩ := hhandles
    cases hgo
    have hchanges : e.catalog.Changes e.removedIds ⟨env, .metadataReceived ih ti⟩
        (e.catalog.onMetadataReceived (infohashToHex ih) ti) := .announced _ ti rfl hnot
    have hevent : Event.Sound ⟨env, .metadataReceived ih ti⟩ := by
      intro id ti' hann
      cases hann
      exact hfiles
    refine ⟨⟨⟨h.named, h.kept, ?_, h.fits.step hevent hchanges⟩, fun _ => rfl, rfl, ?_⟩, ?_,
      fun s hs => absurd hs List.not_mem_nil⟩
    · intro id hid
      exact hchanges.without hid (h.removed id hid)
    · intro id files hold
      exact hchanges.files (fun hop => by cases hop) (fun _ hop => by cases hop) hold
    · intro later hlater
      cases hlater
      left
      simp only [MetadataHandler.id]
      rw [MetadataCatalog.hasMetadata_onMetadataReceived, decide_eq_true rfl]
      rfl
  | list env =>
    unfold MetadataHandler.goOn at hgo
    simp only at hgo
    split at hgo
    · cases hgo
      refine ⟨⟨h, .refl e⟩, ?_, fun s hs => absurd hs List.not_mem_nil⟩
      intro later hlater
      cases hlater
      exact hhandles
    · cases hgo
      refine ⟨⟨h, .refl e⟩, ?_, fun s hs => absurd hs List.not_mem_nil⟩
      intro later hlater
      cases hlater
      exact hhandles
  | record env files =>
    cases hgo
    refine ⟨⟨⟨h.named, h.kept, h.removed, h.fits⟩, fun _ => rfl, rfl, fun _ _ hold => hold⟩, ?_,
      fun s hs => absurd hs List.not_mem_nil⟩
    intro later hlater
    cases hlater
    exact hhandles
  | fire =>
    cases hgo
    refine ⟨⟨h, .refl e⟩, fun later hlater => (by cases hlater), ?_⟩
    intro s hs
    refine ⟨.metadataReceived (.ofHash ih), trivial, ?_, ?_⟩
    · rw [List.mem_singleton.mp hs]
    · intro id heq
      cases heq
      exact hhandles

theorem posted_fired (e : SeekServeEngine) {h : Happening} (hsound : h.Sound) :
    ∀ s ∈ fired h, e.Posted (allocString s) := by
  intro s hs
  unfold fired at hs
  split at hs
  · refine ⟨.error h.message, hsound.message, ?_, ?_⟩
    · rw [List.mem_singleton.mp hs]
    · intro id heq
      cases heq
  · rename_i ih fi hop
    refine ⟨.fileCompleted (.ofHash ih) (Int32.ofInt fi), trivial, ?_, ?_⟩
    · rw [List.mem_singleton.mp hs]
    · intro id heq
      cases heq
  · cases hs

/-- Pausing and resuming fire the events of those names. -/
theorem posted_firing {e : SeekServeEngine} (hnamed : e.SessionsNamed) {type : String}
    (event : HexId → EngineEvent) (htype : ∀ id, (event id).type = type)
    (hdata : ∀ id, (event id).data = torrentData id) (hharmless : ∀ id, (event id).Harmless)
    (hother : ∀ id id', event id ≠ .metadataReceived id') (id : TorrentId) :
    ∀ s ∈ (firing type e id).2, e.Posted (allocString s) := by
  intro s hs
  unfold firing at hs
  cases hhandle : e.sessions.getHandle id with
  | none =>
    rw [hhandle] at hs
    cases hs
  | some handle =>
    rw [hhandle] at hs
    obtain ⟨ih, rfl⟩ := hnamed id ((e.sessions.hasTorrent_iff id).mpr ⟨handle, hhandle⟩)
    refine ⟨event (.ofHash ih), hharmless _, ?_, ?_⟩
    · rw [List.mem_singleton.mp hs]
      unfold EngineEvent.fire
      rw [htype, hdata]
      rfl
    · intro id' heq
      exact absurd heq (hother _ id')

end SeekServeEngine

/-- The engine with its threads, at any time after it was made. -/
structure EngineThreads.Settled (t : EngineThreads) : Prop where
  engine : t.engine.Settled
  handles : ∀ handler, t.handler = some handler → t.engine.Handles handler

theorem EngineThreads.Settled.turn {t : EngineThreads} (h : t.Settled) {next : EngineTurn}
    (hsound : next.Sound) :
    (t.turn next).2.Settled ∧ t.engine.Extends (t.turn next).2.engine ∧
      ∀ s ∈ (t.turn next).1, (t.turn next).2.engine.Posted (allocString s) := by
  have hstay : t.Settled ∧ t.engine.Extends t.engine ∧
      ∀ s ∈ ([] : List (List UInt8)), t.engine.Posted (allocString s) :=
    ⟨h, .refl _, fun s hs => absurd hs List.not_mem_nil⟩
  cases next with
  | goOn =>
    unfold EngineThreads.turn
    simp only
    split
    · exact hstay
    · rename_i handler hhandler
      obtain ⟨⟨hsettled, hextends⟩, hlater, hposted⟩ :=
        h.engine.goOn (h.handles handler hhandler) rfl
      exact ⟨⟨hsettled, hlater⟩, hextends, hposted⟩
  | happen hap =>
    have hhap : hap.Sound := hsound
    unfold EngineThreads.turn
    simp only
    split
    · exact hstay
    · split
      · obtain ⟨hsettled, hextends⟩ := h.engine.step hhap.keeps hhap.announced
        exact ⟨⟨hsettled, fun handler hhandler => (h.handles handler hhandler).of_extends hextends⟩,
          hextends, SeekServeEngine.posted_fired _ hhap⟩
      · rename_i ih ti hop
        split
        · exact hstay
        · rename_i hguard
          refine ⟨⟨h.engine, ?_⟩, hstay.2⟩
          intro handler hhandler
          cases hhandler
          refine ⟨fun hmem => hguard (List.contains_iff_mem.mpr hmem), ?_⟩
          exact hhap.announced _ ti (Op.announcement_of_metadata hop)

section Client
variable {dump : JsonValue → Option (List UInt8)} {parse : List UInt8 → Option JsonValue}
  (hjson : FollowsJson dump parse) {e : SeekServeEngine} (hsettled : e.Settled)
include hjson hsettled

theorem listFiles_cases (torrentId : DartString) :
    (∃ files, e.listFiles (passed torrentId) = .ok files ∧
        SeekServeClient.listFiles dump e torrentId =
          .returned (files.map FileInfo.onClient)) ∨
      e.catalog.hasMetadata (passed torrentId) = false ∧
        SeekServeClient.listFiles dump e torrentId = .seekServe ssErrMetadataPending := by
  have hok := e.catalog.listFiles_isOk (passed torrentId)
  cases hfiles : e.listFiles (passed torrentId) with
  | ok files =>
    have hsound := hsettled.fits.sound_of_listFiles hfiles
    exact Or.inl ⟨files, rfl, listFiles_returned hjson e torrentId hfiles hsound⟩
  | error err =>
    right
    have hfiles' : e.catalog.listFiles (passed torrentId) = .error err := hfiles
    rw [hfiles'] at hok
    have herr : err = .metadataNotReady := by
      unfold MetadataCatalog.listFiles at hfiles'
      split at hfiles'
      · exact (Except.error.inj hfiles').symm
      · cases hfiles'
    rw [herr] at hfiles
    exact ⟨hok.symm, listFiles_pending hfiles⟩

theorem listFiles_of_returned {id : TorrentId} (hid : ∀ c ∈ id, isHexDigit c = true)
    {list : List ClientFile}
    (hlist : SeekServeClient.listFiles dump e (Json.units id) = .returned list) :
    ∃ files, e.listFiles id = .ok files ∧ files.map FileInfo.onClient = list := by
  have hcases := listFiles_cases hjson hsettled (Json.units id)
  rw [hlist, passed_units hid] at hcases
  rcases hcases with ⟨files, hfiles, heq⟩ | ⟨-, heq⟩
  · exact ⟨files, hfiles, (CallResult.returned.inj heq).symm⟩
  · cases heq

/-- The status of a saved torrent tells whether its metadata is there. -/
theorem getStatus_saved {views : Views} (hviews : views.Sound)
    (hnames : ∀ handle, Dumpable (views.live handle).name) {id : TorrentId}
    (hid : e.cache.persisted id = true) :
    ∃ status, SeekServeClient.getStatus dump views e (Json.units id) = .returned status ∧
      status.hasMetadata = e.catalog.hasMetadata id := by
  have hhex := hsettled.hex hid
  have hpassed := passed_units hhex
  obtain ⟨handle, hhandle⟩ := (e.sessions.hasTorrent_iff id).mp (hsettled.kept id hid)
  rw [← hpassed] at hhandle hhex
  refine ⟨_, getStatus_returned hjson hhandle hviews (hnames handle) hsettled.fits hhex, ?_⟩
  rw [hpassed]
  rfl

end Client

theorem units_injective {id id' : TorrentId} (hid : ∀ c ∈ id, isHexDigit c = true)
    (hid' : ∀ c ∈ id', isHexDigit c = true) (h : Json.units id = Json.units id') : id = id' := by
  have hpassed := congrArg passed h
  rw [passed_units hid, passed_units hid'] at hpassed
  exact hpassed

namespace SsTorrentEntry

/-- What an entry holds is what the engine has of the torrent. -/
structure Follows (entry : SsTorrentEntry) (e : SeekServeEngine) (id : TorrentId) : Prop where
  name : entry.torrentId = Json.units id
  files : ∀ list, entry.files = some list →
    ∃ files, e.listFiles id = .ok files ∧ files.map FileInfo.onClient = list
  /-- without its files, an entry has this flag from an event about an earlier addition only -/
  received : entry.metadataReceived = true → entry.files ≠ none ∨ id ∈ e.removedIds
  status : ∀ status, entry.status = some status → status.hasMetadata = true →
    entry.metadataReceived = true ∧ e.catalog.hasMetadata id = true

theorem follows_new (e : SeekServeEngine) (id : TorrentId) :
    Follows { torrentId := Json.units id } e id := by
  constructor
  · rfl
  · intro list hlist
    cases hlist
  · intro hreceived
    cases hreceived
  · intro status hstatus
    cases hstatus

namespace Follows
variable {entry : SsTorrentEntry} {e e' : SeekServeEngine} {id : TorrentId}

theorem of_files (h : entry.Follows e id) (hremoved : id ∈ e.removedIds → id ∈ e'.removedIds)
    (hfiles : ∀ files, e.listFiles id = .ok files → e'.listFiles id = .ok files) :
    entry.Follows e' id := by
  constructor
  · exact h.name
  · intro list hlist
    obtain ⟨files, hold, hmap⟩ := h.files list hlist
    exact ⟨files, hfiles files hold, hmap⟩
  · intro hreceived
    exact (h.received hreceived).imp_right hremoved
  · intro status hstatus hhas
    obtain ⟨hreceived, hold⟩ := h.status status hstatus hhas
    obtain ⟨files, hlist⟩ := MetadataCatalog.exists_files_iff.mpr hold
    exact ⟨hreceived, MetadataCatalog.exists_files_iff.mp ⟨files, hfiles files hlist⟩⟩

theorem of_extends (h : entry.Follows e id) (hextends : e.Extends e') : entry.Follows e' id :=
  h.of_files (fun hid => hextends.removedIds ▸ hid) (hextends.files id)

theorem of_addTorrent (h : entry.Follows e id) (hsettled : e.Settled) (env : Env)
    (uri savePath : CxxString) : entry.Follows (e.addTorrent env uri savePath).2 id := by
  obtain ⟨-, hremoved, hcatalog, -⟩ := hsettled.addTorrent env uri savePath
  apply h.of_files
  · exact fun hid => hremoved ▸ hid
  · intro files hfiles
    unfold SeekServeEngine.listFiles
    rw [hcatalog]
    exact hfiles

theorem of_removeTorrent (h : entry.Follows e id) (hsettled : e.Settled) {id' : TorrentId}
    (hne : id ≠ id') : entry.Follows (e.removeTorrent id').2 id := by
  obtain ⟨-, hremoved, hcatalog, -⟩ := hsettled.removeTorrent id'
  apply h.of_files
  · intro hid
    rw [hremoved]
    exact List.mem_cons_of_mem id' hid
  · intro files hfiles
    unfold SeekServeEngine.listFiles MetadataCatalog.listFiles at hfiles ⊢
    rw [hcatalog, MetadataCatalog.remove, AssocMap.lookup_erase_eq, if_neg hne]
    exact hfiles

/-- The files are asked for and there. -/
theorem listed (h : entry.Follows e id) {files : List FileInfo}
    (hfiles : e.listFiles id = .ok files)
    (received : Bool) (hreceived : entry.metadataReceived = true → received = true) :
    Follows { entry with
      files := some (files.map FileInfo.onClient)
      metadataReceived := received } e id := by
  constructor
  · exact h.name
  · intro list hlist
    exact ⟨files, hfiles, Option.some.inj hlist⟩
  · intro _
    exact Or.inl (Option.some_ne_none _)
  · intro status hstatus hhas
    obtain ⟨hold, hmeta⟩ := h.status status hstatus hhas
    exact ⟨hreceived hold, hmeta⟩

/-- An event comes after the torrent has been removed. -/
theorem stale (h : entry.Follows e id) (hremoved : id ∈ e.removedIds) :
    Follows { entry with metadataReceived := true } e id := by
  constructor
  · exact h.name
  · exact h.files
  · intro _
    exact Or.inr hremoved
  · intro status hstatus hhas
    exact ⟨rfl, (h.status status hstatus hhas).2⟩

/-- Files that are kept in the entry. -/
theorem known (h : entry.Follows e id) {list : List ClientFile} (hlist : entry.files = some list) :
    Follows { entry with metadataReceived := true } e id := by
  constructor
  · exact h.name
  · exact h.files
  · intro _
    exact Or.inl (by rw [hlist]; exact Option.some_ne_none _)
  · intro status hstatus hhas
    exact ⟨rfl, (h.status status hstatus hhas).2⟩

theorem polled (h : entry.Follows e id) (status : TorrentStatus)
    (hstatus : status.hasMetadata = true →
      entry.metadataReceived = true ∧ e.catalog.hasMetadata id = true) :
    Follows { entry with status := some status } e id := by
  constructor
  · exact h.name
  · exact h.files
  · exact h.received
  · intro status' hnew hhas
    cases hnew
    exact hstatus hhas

/-- An entry that knows of metadata which is there has its files. -/
theorem exists_files (h : entry.Follows e id) (hsettled : e.Settled)
    (hreceived : entry.metadataReceived = true) (hhas : e.catalog.hasMetadata id = true) :
    ∃ list, entry.files = some list := by
  rcases h.received hreceived with hsome | hremoved
  · exact Option.ne_none_iff_exists'.mp hsome
  · rw [hsettled.removed id hremoved] at hhas
    cases hhas

/-- The files of an entry are those that the client lists. -/
theorem returned {dump : JsonValue → Option (List UInt8)} {parse : List UInt8 → Option JsonValue}
    (hjson : FollowsJson dump parse) (h : entry.Follows e id) (hsettled : e.Settled)
    (hid : e.cache.persisted id = true) {list : List ClientFile} (hlist : entry.files = some list) :
    SeekServeClient.listFiles dump e (Json.units id) = .returned list := by
  obtain ⟨files, hfiles, rfl⟩ := h.files list hlist
  have hsound := hsettled.fits.sound_of_listFiles hfiles
  rw [← passed_units (hsettled.hex hid)] at hfiles
  exact listFiles_returned hjson e _ hfiles hsound

end Follows

end SsTorrentEntry

/-- The client returns the id of a torrent with a v1 hash. -/
theorem SeekServeClient.addTorrent_cases (env : Env) (e : SeekServeEngine) (uri : DartString)
    (hv1 : ∀ ih, env.load.load (passed uri) = .ok ih → ih.hasV2 = false) :
    (∃ id, (e.addTorrent env (passed uri) []).1 = .ok id ∧
        SeekServeClient.addTorrent env e uri =
          (.ok (Json.units id), (e.addTorrent env (passed uri) []).2)) ∨
      ∃ err code, (e.addTorrent env (passed uri) []).1 = .error err ∧
        SeekServeClient.addTorrent env e uri =
          (.error (.seekServe code), (e.addTorrent env (passed uri) []).2) := by
  have hresult := (SeekServeEngine.records_addTorrent env e (passed uri) []).1
  rw [TorrentSessionManager.addTorrent_result] at hresult
  unfold SeekServeClient.addTorrent ssAddTorrent
  cases hadd : e.addTorrent env (passed uri) [] with
  | mk result e' =>
    rw [hadd] at hresult
    cases hload : env.load.load (passed uri) with
    | ok ih =>
      rw [hload] at hresult
      have hok : result = .ok (infohashToHex ih) := hresult
      subst hok
      left
      refine ⟨_, rfl, ?_⟩
      have hhex : ∀ c ∈ infohashToHex ih, isHexDigit c = true := fun _ hc =>
        isHexDigit_of_mem_infohashToHex hc
      have hread := toDartString_copyId hhex (List.replicate 64 0) 64
      have hwhole := (take_infohashToHex_iff ih).mpr (hv1 ih hload)
      simp only
      rw [if_pos (by omega), hread]
      simp only [checkError, if_pos, Except.bind]
      rw [show ((64 : Int) - 1).toNat = 63 from rfl, hwhole]
    | error err =>
      have herr : err = .invalidArgument := by
        unfold Loader.load at hload
        simp only at hload
        generalize (if CxxString.substr (passed uri) 0 (some 7) = "magnet:".toList then
          env.load.parseMagnetUri (passed uri) else env.load.loadTorrentFile (passed uri)) =
            loaded at hload
        cases loaded with
        | none => exact (Except.error.inj hload).symm
        | some ih => cases hload
      rw [hload, herr] at hresult
      have hbad : result = .error .invalidArgument := hresult
      subst hbad
      right
      exact ⟨_, _, rfl, rfl⟩

/-- The entry goes exactly when the torrent was in the session. -/
theorem SeekServeClient.removeTorrent_cases (e : SeekServeEngine) (torrentId : DartString) :
    (e.sessions.hasTorrent (passed torrentId) = true ∧
        SeekServeClient.removeTorrent e torrentId =
          (.ok (), (e.removeTorrent (passed torrentId)).2)) ∨
      e.sessions.hasTorrent (passed torrentId) = false ∧
        SeekServeClient.removeTorrent e torrentId =
          (.error (.seekServe ssErrNotFound), (e.removeTorrent (passed torrentId)).2) := by
  have hresult := removeTorrent_result e torrentId
  have hengine : (SeekServeClient.removeTorrent e torrentId).2 =
      (e.removeTorrent (passed torrentId)).2 := by
    unfold SeekServeClient.removeTorrent ssRemoveTorrent
    cases hremove : e.removeTorrent (passed torrentId) with
    | mk result e' => cases result <;> rfl
  cases hhas : e.sessions.hasTorrent (passed torrentId) with
  | true =>
    rw [hhas, if_pos rfl] at hresult
    exact Or.inl ⟨rfl, Prod.ext hresult hengine⟩
  | false =>
    rw [hhas, if_neg Bool.false_ne_true] at hresult
    exact Or.inr ⟨rfl, Prod.ext hresult hengine⟩

namespace App

theorem getEntry_setEntry (app : App) (torrentId : DartString) (entry : SsTorrentEntry) :
    (app.setEntry torrentId entry).manager.getEntry torrentId = some entry := by
  have h := app.manager.torrents.lookup_set torrentId torrentId entry
  rw [if_pos rfl] at h
  exact h

/-- The manager has the saved torrents, and of each what the engine has. -/
structure Consistent (app : App) : Prop where
  settled : app.engine.Settled
  handles : ∀ handler, app.threads.handler = some handler → app.engine.Handles handler
  keys : ∀ key ∈ app.manager.torrents.keys,
    ∃ id, app.engine.cache.persisted id = true ∧ Json.units id = key
  entries : ∀ id, app.engine.cache.persisted id = true →
    ∃ entry, app.manager.getEntry (Json.units id) = some entry ∧ entry.Follows app.engine id
  posted : ∀ s ∈ app.inFlight, app.engine.Posted s

namespace Consistent
variable {app : App} (h : app.Consistent)
include h

theorem report (error : Option ManagerError) : (app.report error).Consistent :=
  ⟨h.settled, h.handles, h.keys, h.entries, h.posted⟩

theorem post {fired : List (List UInt8)}
    (hfired : ∀ s ∈ fired, app.engine.Posted (allocString s)) : (app.post fired).Consistent := by
  refine ⟨h.settled, h.handles, h.keys, h.entries, ?_⟩
  intro s hs
  rcases List.mem_append.mp hs with hold | hnew
  · exact h.posted s hold
  · obtain ⟨t, ht, rfl⟩ := List.mem_map.mp hnew
    exact hfired t ht

theorem extend {threads : EngineThreads} (hsettled : threads.Settled)
    (hextends : app.engine.Extends threads.engine) :
    Consistent { app with threads := threads } := by
  constructor
  · exact hsettled.engine
  · exact hsettled.handles
  · intro key hkey
    obtain ⟨id, hid, hunits⟩ := h.keys key hkey
    exact ⟨id, (hextends.persisted id).trans hid, hunits⟩
  · intro id hid
    obtain ⟨entry, hentry, hfollows⟩ := h.entries id ((hextends.persisted id).symm.trans hid)
    exact ⟨entry, hentry, hfollows.of_extends hextends⟩
  · intro s hs
    exact (h.posted s hs).of_known hextends.known

theorem setEngine {e : SeekServeEngine} (hsettled : e.Settled) (hextends : app.engine.Extends e) :
    (app.setEngine e).Consistent := by
  refine h.extend ⟨hsettled, ?_⟩ hextends
  intro handler hhandler
  exact (h.handles handler hhandler).of_extends hextends

theorem turn {t : EngineTurn} (hsound : t.Sound) :
    (app.turn t).Consistent ∧ app.engine.Extends (app.turn t).engine := by
  have hthreads : app.threads.Settled := ⟨h.settled, h.handles⟩
  obtain ⟨hsettled, hextends, hposted⟩ := hthreads.turn hsound
  exact ⟨(h.extend hsettled hextends).post hposted, hextends⟩

theorem setEntry {id : TorrentId} (hid : app.engine.cache.persisted id = true)
    {entry : SsTorrentEntry} (hentry : entry.Follows app.engine id) :
    (app.setEntry (Json.units id) entry).Consistent := by
  refine ⟨h.settled, h.handles, ?_, ?_, h.posted⟩
  · intro key hkey
    rcases OrderedMap.mem_keys_set.mp hkey with rfl | hold
    · exact ⟨id, hid, rfl⟩
    · exact h.keys key hold
  · intro id' hid'
    have hlookup := app.manager.torrents.lookup_set (Json.units id) (Json.units id') entry
    by_cases hsame : id' = id
    · subst hsame
      rw [if_pos rfl] at hlookup
      exact ⟨entry, hlookup, hentry⟩
    · have hne : Json.units id' ≠ Json.units id := fun heq =>
        hsame (units_injective (h.settled.hex hid') (h.settled.hex hid) heq)
      rw [if_neg hne] at hlookup
      obtain ⟨old, hold, hfollows⟩ := h.entries id' hid'
      exact ⟨old, hlookup.trans hold, hfollows⟩

theorem getEntry {torrentId : DartString} {entry : SsTorrentEntry}
    (hentry : app.manager.getEntry torrentId = some entry) :
    ∃ id, app.engine.cache.persisted id = true ∧ Json.units id = torrentId ∧
      entry.Follows app.engine id := by
  obtain ⟨id, hid, rfl⟩ := h.keys torrentId (OrderedMap.mem_keys_iff.mpr ⟨entry, hentry⟩)
  obtain ⟨entry', hentry', hfollows⟩ := h.entries id hid
  rw [hentry] at hentry'
  cases hentry'
  exact ⟨id, hid, rfl, hfollows⟩

theorem addTorrent (env : Env) (uri : DartString)
    (hv1 : ∀ ih, env.load.load (passed uri) = .ok ih → ih.hasV2 = false) :
    (app.addTorrent env uri).2.Consistent := by
  obtain ⟨hsettled, hremoved, -, hpersisted⟩ := h.settled.addTorrent env (passed uri) []
  have hknown := h.settled.known_addTorrent env (passed uri) []
  have hhandles := fun handler hhandler =>
    (h.handles handler hhandler).of_known hknown fun _ hmem => hremoved ▸ hmem
  have hposted := fun s hs => (h.posted s hs).of_known hknown
  unfold App.addTorrent
  rcases SeekServeClient.addTorrent_cases env app.engine uri hv1 with
    ⟨id, hok, heq⟩ | ⟨err, code, hbad, heq⟩
  · rw [heq]
    refine ⟨hsettled, hhandles, ?_, ?_, hposted⟩
    · intro key hkey
      rcases OrderedMap.mem_keys_set.mp hkey with rfl | hold
      · exact ⟨id, (hpersisted id).mpr (Or.inl hok), rfl⟩
      · obtain ⟨id', hid', hunits⟩ := h.keys key hold
        exact ⟨id', (hpersisted id').mpr (Or.inr hid'), hunits⟩
    · intro id' hid'
      have hlookup := app.manager.torrents.lookup_set (Json.units id) (Json.units id')
        { torrentId := Json.units id }
      by_cases hsame : id' = id
      · subst hsame
        rw [if_pos rfl] at hlookup
        exact ⟨_, hlookup, SsTorrentEntry.follows_new _ id'⟩
      · have hnew := hsettled.hex ((hpersisted id).mpr (Or.inl hok))
        have hne : Json.units id' ≠ Json.units id := fun heq' =>
          hsame (units_injective (hsettled.hex hid') hnew heq')
        rw [if_neg hne] at hlookup
        rcases (hpersisted id').mp hid' with hadded | hold
        · rw [hok] at hadded
          exact absurd (Except.ok.inj hadded).symm hsame
        · obtain ⟨entry, hentry, hold'⟩ := h.entries id' hold
          exact ⟨entry, hlookup.trans hentry, hold'.of_addTorrent h.settled env (passed uri) []⟩
  · rw [heq]
    refine ⟨hsettled, hhandles, ?_, ?_, hposted⟩
    · intro key hkey
      obtain ⟨id, hid, hunits⟩ := h.keys key hkey
      exact ⟨id, (hpersisted id).mpr (Or.inr hid), hunits⟩
    · intro id hid
      rcases (hpersisted id).mp hid with hnew | hold
      · rw [hbad] at hnew
        cases hnew
      · obtain ⟨entry, hentry, hold'⟩ := h.entries id hold
        exact ⟨entry, hentry, hold'.of_addTorrent h.settled env (passed uri) []⟩

theorem removeTorrent {id : TorrentId} (hid : ∀ c ∈ id, isHexDigit c = true)
    (hapart : ∀ handler, app.threads.handler = some handler → handler.inserts = true →
      handler.id ≠ id) :
    (app.removeTorrent (Json.units id)).Consistent := by
  obtain ⟨hsettled, hremoved, -, hpersisted⟩ := h.settled.removeTorrent id
  have hknown := h.settled.known_removeTorrent id
  have hposted := fun s hs => (h.posted s hs).of_known hknown
  have hhandles : ∀ handler, app.threads.handler = some handler →
      (app.engine.removeTorrent id).2.Handles handler := by
    intro handler hhandler
    apply (h.handles handler hhandler).of_known hknown
    intro hinserts hmem
    rw [hremoved] at hmem
    exact (List.mem_cons.mp hmem).resolve_left (hapart handler hhandler hinserts)
  -- the other torrents keep their rows, their entries and their files
  have hothers : ∀ id', (app.engine.removeTorrent id).2.cache.persisted id' = true → id' ≠ id ∧
      ∃ entry, app.manager.getEntry (Json.units id') = some entry ∧
        entry.Follows (app.engine.removeTorrent id).2 id' := by
    intro id' hid'
    obtain ⟨hne, hold⟩ := (hpersisted id').mp hid'
    obtain ⟨entry, hentry, hfollows⟩ := h.entries id' hold
    exact ⟨hne, entry, hentry, hfollows.of_removeTorrent h.settled hne⟩
  have hcases := SeekServeClient.removeTorrent_cases app.engine (Json.units id)
  rw [passed_units hid] at hcases
  unfold App.removeTorrent
  rcases hcases with ⟨-, heq⟩ | ⟨hnone, heq⟩
  · rw [heq]
    refine ⟨hsettled, hhandles, ?_, ?_, hposted⟩
    · intro key hkey
      obtain ⟨hne, hold⟩ := OrderedMap.mem_keys_erase.mp hkey
      obtain ⟨id', hid', rfl⟩ := h.keys key hold
      have hother : id' ≠ id := fun hsame => hne (congrArg Json.units hsame)
      exact ⟨id', (hpersisted id').mpr ⟨hother, hid'⟩, rfl⟩
    · intro id' hid'
      obtain ⟨hne, entry, hentry, hfollows⟩ := hothers id' hid'
      have hlookup := app.manager.torrents.lookup_erase (Json.units id) (Json.units id')
      have hunits : Json.units id' ≠ Json.units id := fun heq' =>
        hne (units_injective (hsettled.hex hid') hid heq')
      rw [if_neg hunits] at hlookup
      exact ⟨entry, hlookup.trans hentry, hfollows⟩
  · rw [heq]
    refine ⟨hsettled, hhandles, ?_, ?_, hposted⟩
    · intro key hkey
      obtain ⟨id', hid', hunits⟩ := h.keys key hkey
      -- a saved torrent is in the session, so this one is not saved
      have hother : id' ≠ id := by
        rintro rfl
        rw [h.settled.kept id' hid'] at hnone
        cases hnone
      exact ⟨id', (hpersisted id').mpr ⟨hother, hid'⟩, hunits⟩
    · intro id' hid'
      exact (hothers id' hid').2

theorem noting (result : Except ClientError Unit) : (app.noting result).Consistent := by
  cases result with
  | ok u => exact h.report _
  | error err => exact h.report _

theorem pauseTorrent (torrentId : DartString) : (app.pauseTorrent torrentId).Consistent := by
  have hfired : (CApi.ssPauseTorrent app.engine (passed torrentId)).2 =
      (app.engine.pauseTorrent (passed torrentId)).2 := by
    unfold CApi.ssPauseTorrent
    cases app.engine.pauseTorrent (passed torrentId) with
    | mk result fired => cases result <;> rfl
  have hposted := SeekServeEngine.posted_firing h.settled.named .torrentPaused
    (fun _ => rfl) (fun _ => rfl) (fun _ => trivial) (fun _ _ heq => by cases heq)
    (passed torrentId)
  exact (h.post (hfired ▸ hposted)).noting _

theorem resumeTorrent (torrentId : DartString) : (app.resumeTorrent torrentId).Consistent := by
  have hfired : (CApi.ssResumeTorrent app.engine (passed torrentId)).2 =
      (app.engine.resumeTorrent (passed torrentId)).2 := by
    unfold CApi.ssResumeTorrent
    cases app.engine.resumeTorrent (passed torrentId) with
    | mk result fired => cases result <;> rfl
  have hposted := SeekServeEngine.posted_firing h.settled.named .torrentResumed
    (fun _ => rfl) (fun _ => rfl) (fun _ => trivial) (fun _ _ heq => by cases heq)
    (passed torrentId)
  exact (h.post (hfired ▸ hposted)).noting _

theorem togglePause (torrentId : DartString) : (app.togglePause torrentId).Consistent := by
  unfold App.togglePause
  split
  · exact h
  · split
    · exact h.resumeTorrent torrentId
    · exact h.pauseTorrent torrentId

theorem selectAndStream (env : Env) (torrentId : DartString) (fileIndex : Int) :
    (app.selectAndStream env torrentId fileIndex).2.Consistent := by
  obtain ⟨hsettled, hextends⟩ := h.settled.selectFile env (passed torrentId) fileIndex
  have hengine : (SeekServeClient.selectFile env app.engine torrentId fileIndex).2 =
      (app.engine.selectFile env (passed torrentId) fileIndex).2 := by
    unfold SeekServeClient.selectFile ssSelectFile
    cases hselect : app.engine.selectFile env (passed torrentId) fileIndex with
    | mk result e' => cases result <;> rfl
  rw [← hengine] at hsettled hextends
  have hnext := h.setEngine hsettled hextends
  unfold App.selectAndStream
  split
  · exact h.report _
  · split
    · rename_i err engine heq
      rw [heq] at hnext
      exact hnext.report _
    · rename_i engine heq
      rw [heq] at hnext
      simp only
      split
      · exact hnext.report _
      · exact hnext.report _

theorem turns {ts : List EngineTurn} (hsound : ∀ t ∈ ts, t.Sound) :
    (ts.foldl App.turn app).Consistent ∧ app.engine.Extends (ts.foldl App.turn app).engine := by
  induction ts generalizing app with
  | nil => exact ⟨h, .refl app.engine⟩
  | cons t ts ih =>
    obtain ⟨hnext, hextends⟩ := h.turn (hsound t List.mem_cons_self)
    obtain ⟨hlast, hrest⟩ := ih hnext fun t' hmem => hsound t' (List.mem_cons_of_mem _ hmem)
    exact ⟨hlast, hextends.trans hrest⟩

section Json
variable {dump : JsonValue → Option (List UInt8)} {parse : List UInt8 → Option JsonValue}
  (hjson : FollowsJson dump parse)
include hjson

theorem listFiles (torrentId : DartString) :
    ∃ result, app.listFiles dump torrentId = some result ∧ result.2.Consistent := by
  unfold App.listFiles
  split
  · exact ⟨_, rfl, h⟩
  · rcases listFiles_cases hjson h.settled torrentId with ⟨files, hfiles, heq⟩ | ⟨hnone, heq⟩
    · rw [heq]
      cases hentry : app.manager.getEntry torrentId with
      | none => exact ⟨_, rfl, h⟩
      | some entry =>
        obtain ⟨id, hid, rfl, hfollows⟩ := h.getEntry hentry
        rw [passed_units (h.settled.hex hid)] at hfiles
        exact ⟨_, rfl, h.setEntry hid (hfollows.listed hfiles _ fun hreceived => hreceived)⟩
    · rw [heq]
      exact ⟨_, rfl, h.report _⟩

/-- The event may be about an earlier addition of the torrent. -/
theorem onEvent {event : SeekServeEvent}
    (hreceived : ∀ id, event = .metadataReceived (Json.units id) →
      (∀ c ∈ id, isHexDigit c = true) →
      app.engine.catalog.hasMetadata id = true ∨ id ∈ app.engine.removedIds) :
    ∃ app', app.onEvent dump event = some app' ∧ app'.Consistent := by
  unfold App.onEvent
  cases event with
  | metadataReceived torrentId =>
    cases hentry : app.manager.getEntry torrentId with
    | none =>
      simp only [hentry]
      exact ⟨_, rfl, h⟩
    | some entry =>
      obtain ⟨id, hid, rfl, hfollows⟩ := h.getEntry hentry
      have hhex := h.settled.hex hid
      have hcases := listFiles_cases hjson h.settled (Json.units id)
      rw [passed_units hhex] at hcases
      rcases hcases with ⟨files, hfiles, heq⟩ | ⟨hnone, heq⟩
      · simp only [hentry, heq]
        exact ⟨_, rfl, h.setEntry hid (hfollows.listed hfiles true fun _ => rfl)⟩
      · have hremoved : id ∈ app.engine.removedIds := by
          rcases hreceived id rfl hhex with hhas | hremoved
          · rw [hnone] at hhas
            cases hhas
          · exact hremoved
        simp only [hentry, heq]
        exact ⟨_, rfl, h.setEntry hid (hfollows.stale hremoved)⟩
  | fileCompleted torrentId fileIndex => exact ⟨_, rfl, h⟩
  | torrentPaused torrentId => exact ⟨_, rfl, h⟩
  | torrentResumed torrentId => exact ⟨_, rfl, h⟩
  | torrentError torrentId message => exact ⟨_, rfl, h.report _⟩
  | unknown type data => exact ⟨_, rfl, h⟩

theorem deliver : ∃ app', app.deliver dump = some app' ∧ app'.Consistent := by
  unfold App.deliver
  cases hqueue : app.inFlight with
  | nil => exact ⟨_, rfl, h⟩
  | cons eventJson inFlight =>
    have hposted := h.posted
    rw [hqueue] at hposted
    have hrest : Consistent { app with inFlight := inFlight } :=
      ⟨h.settled, h.handles, h.keys, h.entries, fun s hs => hposted s (List.mem_cons_of_mem _ hs)⟩
    simp only
    split
    · rename_i event hlistening hhandle
      apply hrest.onEvent hjson
      rintro id rfl hhex
      exact (hposted eventJson List.mem_cons_self).received hhex hhandle
    · exact ⟨_, rfl, hrest⟩

/-- After a poll the entry has the files that were there before it. -/
theorem pollEntry {views : Views} (hviews : views.Sound)
    (hnames : ∀ handle, Dumpable (views.live handle).name) {meanwhile : List EngineTurn}
    (hmeanwhile : ∀ t ∈ meanwhile, t.Sound) (torrentId : DartString) :
    ∃ app', app.pollEntry dump views meanwhile torrentId = some app' ∧ app'.Consistent ∧
      ∀ entry, app.manager.getEntry torrentId = some entry → ∀ list,
        SeekServeClient.listFiles dump app.engine torrentId = .returned list →
        ∃ entry', app'.manager.getEntry torrentId = some entry' ∧ entry'.files = some list := by
  unfold App.pollEntry
  cases hentry : app.manager.getEntry torrentId with
  | none =>
    refine ⟨_, rfl, h, ?_⟩
    intro entry hsome
    cases hsome
  | some entry =>
    obtain ⟨id, hid, rfl, hfollows⟩ := h.getEntry hentry
    obtain ⟨name, before, cached, received⟩ := entry
    obtain rfl : name = Json.units id := hfollows.name
    have hhex := h.settled.hex hid
    obtain ⟨status, hstatus, hmeta⟩ := getStatus_saved hjson h.settled hviews hnames hid
    simp only [hstatus, CallResult.caught, Option.bind_some]
    -- files that the entry has already are those that are there
    have hcached : ∀ old, cached = some old → ∀ list,
        SeekServeClient.listFiles dump app.engine (Json.units id) = .returned list →
        cached = some list := by
      intro old hold list hlist
      rw [hfollows.returned hjson h.settled hid hold] at hlist
      cases hlist
      exact hold
    split
    · rename_i hnew
      obtain ⟨hlast, hextends⟩ := h.turns hmeanwhile
      have hid' := (hextends.persisted id).trans hid
      have hfollows' := hfollows.of_extends hextends
      have hhas := hextends.hasMetadata (hmeta.symm.trans hnew.1)
      cases cached with
      | some old =>
        have hnext := (hfollows'.known rfl).polled status fun _ => ⟨rfl, hhas⟩
        refine ⟨_, rfl, hlast.setEntry hid' hnext, ?_⟩
        intro _ _ list hlist
        exact ⟨_, getEntry_setEntry _ _ _, hcached old rfl list hlist⟩
      | none =>
        have hcases := listFiles_cases hjson hlast.settled (Json.units id)
        rw [passed_units hhex] at hcases
        rcases hcases with ⟨files, hfiles, heq⟩ | ⟨hnone, -⟩
        · have hnext := (hfollows'.listed hfiles true fun _ => rfl).polled status
            fun _ => ⟨rfl, hhas⟩
          simp only [heq]
          refine ⟨_, rfl, hlast.setEntry hid' hnext, ?_⟩
          intro _ _ list hlist
          obtain ⟨files', hfiles', rfl⟩ := listFiles_of_returned hjson h.settled hhex hlist
          rw [hextends.files id files' hfiles'] at hfiles
          cases hfiles
          exact ⟨_, getEntry_setEntry _ _ _, rfl⟩
        · rw [hhas] at hnone
          cases hnone
    · rename_i hold
      have hseen : status.hasMetadata = true → received = true := by
        intro hhas
        cases received with
        | true => rfl
        | false => exact absurd ⟨hhas, rfl⟩ hold
      have hnext := hfollows.polled status fun hhas =>
        ⟨hseen hhas, hmeta.symm.trans hhas⟩
      refine ⟨_, rfl, h.setEntry hid hnext, ?_⟩
      intro _ _ list hlist
      obtain ⟨files, hfiles, -⟩ := listFiles_of_returned hjson h.settled hhex hlist
      have hhas := MetadataCatalog.exists_files_iff.mp ⟨files, hfiles⟩
      obtain ⟨old, hold⟩ := hfollows.exists_files h.settled (hseen (hmeta.trans hhas)) hhas
      exact ⟨_, getEntry_setEntry _ _ _, hcached old hold list hlist⟩

end Json

end Consistent

end App

/-- What libtorrent and the schedulers report, with names in UTF-8. -/
structure Views.Readable (views : Views) : Prop where
  sound : views.Sound
  names : ∀ handle, Dumpable (views.live handle).name

/-- What the manager is used for: torrents with v1 hashes, and the ids of torrents. A torrent is not
removed while a handler that has passed its guard is about to enter it into the catalog. -/
def App.Sound (app : App) : AppOp → Prop
  | .addTorrent env uri => ∀ ih, env.load.load (passed uri) = .ok ih → ih.hasV2 = false
  | .removeTorrent torrentId =>
    ∃ id, (∀ c ∈ id, isHexDigit c = true) ∧ Json.units id = torrentId ∧
      ∀ handler, app.threads.handler = some handler → handler.inserts = true → handler.id ≠ id
  | .pollEntry views meanwhile _ => views.Readable ∧ ∀ t ∈ meanwhile, t.Sound
  | .turn t => t.Sound
  | .pauseTorrent _ | .resumeTorrent _ | .togglePause _ | .listFiles _ | .selectAndStream _ _ _
  | .deliver => True

namespace App

section Json
variable {dump : JsonValue → Option (List UInt8)} {parse : List UInt8 → Option JsonValue}
  (hjson : FollowsJson dump parse)
include hjson

theorem Consistent.next {app : App} (h : app.Consistent) {op : AppOp} (hop : app.Sound op) :
    ∃ app', app.next dump op = some app' ∧ app'.Consistent := by
  cases op with
  | addTorrent env uri => exact ⟨_, rfl, h.addTorrent env uri hop⟩
  | removeTorrent torrentId =>
    obtain ⟨id, hid, rfl, hapart⟩ := hop
    exact ⟨_, rfl, h.removeTorrent hid hapart⟩
  | pauseTorrent torrentId => exact ⟨_, rfl, h.pauseTorrent torrentId⟩
  | resumeTorrent torrentId => exact ⟨_, rfl, h.resumeTorrent torrentId⟩
  | togglePause torrentId => exact ⟨_, rfl, h.togglePause torrentId⟩
  | listFiles torrentId =>
    obtain ⟨result, hresult, hnext⟩ := h.listFiles hjson torrentId
    exact ⟨result.2, by rw [App.next, hresult]; rfl, hnext⟩
  | selectAndStream env torrentId fileIndex =>
    exact ⟨_, rfl, h.selectAndStream env torrentId fileIndex⟩
  | deliver => exact h.deliver hjson
  | pollEntry views meanwhile torrentId =>
    obtain ⟨app', hpoll, hnext, -⟩ :=
      h.pollEntry hjson hop.1.sound hop.1.names hop.2 torrentId
    exact ⟨app', hpoll, hnext⟩
  | turn t => exact ⟨_, rfl, (h.turn hop).1⟩

/-- By induction on the run: no call ends the process, and the manager follows the engine. -/
theorem Consistent.exec {app : App} (h : app.Consistent) {ops : List AppOp}
    (hops : (system dump).EachStep App.Sound app ops) :
    ∃ app', (system dump).exec app ops = some app' ∧ app'.Consistent := by
  induction ops generalizing app with
  | nil => exact ⟨app, rfl, h⟩
  | cons op ops ih =>
    obtain ⟨mid, hmid, hnext⟩ := h.next hjson (hops [] op ops app rfl rfl)
    obtain ⟨app', hexec, hlast⟩ := ih hnext (hops.tail _ hmid)
    exact ⟨app', (Runs.System.exec_cons_iff _).mpr ⟨mid, hmid, hexec⟩, hlast⟩

theorem Consistent.listTorrents {app : App} (h : app.Consistent) :
    ∃ ids, SeekServeClient.listTorrents dump app.engine = .returned ids ∧
      (app.manager.entries.map SsTorrentEntry.torrentId).Perm ids := by
  have hhex := h.settled.hex_listTorrents
  refine ⟨_, listTorrents_returned hjson hhex, ?_⟩
  have hkeys : app.manager.entries.map SsTorrentEntry.torrentId = app.manager.torrents.keys := by
    unfold SsTorrentManager.entries OrderedMap.values OrderedMap.keys
    rw [List.map_map]
    apply List.map_congr_left
    rintro ⟨key, entry⟩ hmem
    obtain ⟨id, -, rfl, hfollows⟩ := h.getEntry (OrderedMap.mem_entries_iff.mp hmem)
    exact hfollows.name
  have hnodup : (app.engine.listTorrents.map Json.units).Nodup := by
    apply List.Nodup.map_on
    · intro id hid id' hid' heq
      exact units_injective (hhex id hid) (hhex id' hid') heq
    · exact app.engine.cache.nodup_listTorrentUris
  rw [hkeys, List.perm_ext_iff_of_nodup app.manager.torrents.nodup_keys hnodup]
  intro key
  constructor
  · intro hkey
    obtain ⟨id, hid, rfl⟩ := h.keys key hkey
    exact List.mem_map_of_mem (SeekServeEngine.mem_listTorrents.mpr hid)
  · intro hkey
    obtain ⟨id, hid, rfl⟩ := List.mem_map.mp hkey
    obtain ⟨entry, hentry, -⟩ := h.entries id (SeekServeEngine.mem_listTorrents.mp hid)
    exact OrderedMap.mem_keys_iff.mpr ⟨entry, hentry⟩

end Json

end App

def sampleIdOf (uri : CxxString) : TorrentId :=
  match sampleEnv.load.load uri with
  | .ok ih => infohashToHex ih
  | .error _ => []

end SeekServe
