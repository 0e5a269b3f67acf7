import SeekServe.Records

/-!
# Removing a torrent

What a removal leaves behind, through the engine and through the control API, and whether
a torrent that was removed can be added again.
-/

namespace SeekServe

set_option autoImplicit false

/-- Since the last addition or removal of a torrent through the engine. -/
inductive Life where
  | absent
  /-- added with these hashes; no metadata alert for them yet -/
  | added (ih : InfoHash)
  /-- a metadata alert for it has come, under this id -/
  | announced (name : TorrentId)
  deriving DecidableEq

/-- The two are the hashes of one torrent, one of which may still lack a hash. -/
def InfoHash.shares (a b : InfoHash) : Bool :=
  (a.v1.isSome && a.v1 == b.v1) || (a.v2.isSome && a.v2 == b.v2)

def Life.announce (ih : InfoHash) : Life → Life
  | .added ih' => if ih'.shares ih then .announced (infohashToHex ih) else .added ih'
  | life => life

theorem Life.announced_of_announce {ih : InfoHash} {name : TorrentId} (life : Life)
    (hname : name ≠ infohashToHex ih) (h : life.announce ih = .announced name) :
    life = .announced name := by
  cases life with
  | absent => cases h
  | announced name' => exact h
  | added ih' =>
    by_cases hshares : ih'.shares ih = true
    · simp only [announce, hshares, if_true, announced.injEq] at h
      exact absurd h.symm hname
    · simp [announce, hshares] at h

/-- What the engine's calls and alerts say about each torrent. -/
structure TorrentLog where
  /-- `remove_torrent` has been called since the engine was made -/
  removed : TorrentId → Bool := fun _ => false
  /-- a metadata alert whose hashes give this id has been handled since then -/
  described : TorrentId → Bool := fun _ => false
  life : TorrentId → Life := fun _ => .absent

namespace TorrentLog

def remove (log : TorrentLog) (id : TorrentId) : TorrentLog :=
  { log with
    removed := Function.update log.removed id true
    life := Function.update log.life id .absent }

def announce (log : TorrentLog) (ih : InfoHash) : TorrentLog :=
  { log with
    described := Function.update log.described (infohashToHex ih) true
    life := fun id => (log.life id).announce ih }

def note (log : TorrentLog) (entry : Event × Reply) : TorrentLog :=
  match entry.1.op, entry.2 with
  | .addTorrent uri _, .added (.ok id) =>
    match entry.1.env.load.load uri with
    | .ok ih => { log with life := Function.update log.life id (.added ih) }
    | .error _ => log
  | .removeTorrent id _, _ => log.remove id
  | .restart, _ => {}
  | op, _ =>
    match op.metadataHash with
    | some ih => log.announce ih
    | none => log

def ofTrace (trace : List (Event × Reply)) : TorrentLog := trace.foldl note {}

theorem note_announced (log : TorrentLog) {ev : Event} {ih : InfoHash}
    (h : ev.op.metadataHash = some ih) (reply : Reply) :
    log.note (ev, reply) = log.announce ih := by
  unfold note
  split
  · rename_i hop _
    rw [hop] at h
    cases h
  · rename_i hop
    rw [hop] at h
    cases h
  · rename_i hop
    rw [hop] at h
    cases h
  · rw [h]

theorem note_keeps (log : TorrentLog) {ev : Event} (h : ev.op.KeepsMetadata) (reply : Reply) :
    (log.note (ev, reply)).removed = log.removed ∧
      (log.note (ev, reply)).described = log.described ∧
      ∀ id name, (log.note (ev, reply)).life id = .announced name →
        log.life id = .announced name := by
  obtain ⟨hremove, hnone, hrestart⟩ := h
  unfold note
  split
  · split
    · rename_i id _ _ _ ih _
      refine ⟨rfl, rfl, ?_⟩
      intro id' name hlife
      by_cases hid : id' = id
      · simp [hid] at hlife
      · simpa [hid] using hlife
    · exact ⟨rfl, rfl, fun _ _ hlife => hlife⟩
  · exact absurd ‹_› (hremove _ _)
  · exact absurd ‹_› hrestart
  · rw [hnone]
    exact ⟨rfl, rfl, fun _ _ hlife => hlife⟩

end TorrentLog

namespace SeekServeEngine

/-- The catalog has what was described and never removed. -/
structure Recorded (e : SeekServeEngine) (log : TorrentLog) : Prop where
  removed : ∀ id, id ∈ e.removedIds ↔ log.removed id = true
  metadata : ∀ id, e.catalog.hasMetadata id = (log.described id && !log.removed id)
  announced : ∀ id name, log.life id = .announced name → log.described name = true

theorem recorded_create (env : Env) (config : Config) (cache : OfflineCacheManager) :
    (create env config cache).Recorded {} := by
  obtain ⟨sessions, cache', heq⟩ := create_eq env config cache
  rw [heq]
  refine ⟨?_, fun _ => rfl, ?_⟩
  · intro id
    simp [fresh]
  · intro id name hlife
    cases hlife

theorem Recorded.keeps {e e' : SeekServeEngine} {log : TorrentLog} (h : e.Recorded log)
    {ev : Event} (hop : ev.op.KeepsMetadata) (hremoved : e'.removedIds = e.removedIds)
    (hmeta : ∀ id, e'.catalog.hasMetadata id = e.catalog.hasMetadata id) (reply : Reply) :
    e'.Recorded (log.note (ev, reply)) := by
  obtain ⟨hsame, hdescribed, hlives⟩ := log.note_keeps hop reply
  refine ⟨?_, ?_, ?_⟩
  · intro id
    rw [hremoved, hsame]
    exact h.removed id
  · intro id
    rw [hmeta, hsame, hdescribed]
    exact h.metadata id
  · intro id name hlife
    rw [hdescribed]
    exact h.announced id name (hlives id name hlife)

theorem Recorded.remove {e e' : SeekServeEngine} {log : TorrentLog} (h : e.Recorded log)
    {id : TorrentId} (hremoved : e'.removedIds = id :: e.removedIds)
    (hcatalog : e'.catalog = e.catalog.remove id) : e'.Recorded (log.remove id) := by
  refine ⟨?_, ?_, ?_⟩
  · intro id'
    rw [hremoved, List.mem_cons, h.removed id']
    by_cases hid : id' = id
    · simp [TorrentLog.remove, hid]
    · simp [TorrentLog.remove, hid]
  · intro id'
    rw [hcatalog, MetadataCatalog.hasMetadata_remove, h.metadata id']
    by_cases hid : id' = id
    · simp [TorrentLog.remove, hid]
    · simp [TorrentLog.remove, hid]
  · intro id' name hlife
    by_cases hid : id' = id
    · simp [TorrentLog.remove, hid] at hlife
    · exact h.announced id' name (by simpa [TorrentLog.remove, hid] using hlife)

/-- The guard keeps metadata out when the torrent was ever removed. -/
theorem Recorded.announce {e e' : SeekServeEngine} {log : TorrentLog} (h : e.Recorded log)
    {ih : InfoHash} (hremoved : e'.removedIds = e.removedIds)
    (hmeta : ∀ id, e'.catalog.hasMetadata id = true ↔
      id = infohashToHex ih ∧ infohashToHex ih ∉ e.removedIds ∨ e.catalog.hasMetadata id = true) :
    e'.Recorded (log.announce ih) := by
  refine ⟨fun id => hremoved ▸ h.removed id, ?_, ?_⟩
  · intro id
    rw [Bool.eq_iff_iff, hmeta, h.metadata id]
    by_cases hid : id = infohashToHex ih
    · subst hid
      simp [TorrentLog.announce, h.removed]
    · simp [TorrentLog.announce, hid]
  · intro id name hlife
    by_cases hname : name = infohashToHex ih
    · subst hname
      exact Function.update_self _ _ _
    · simp only [TorrentLog.announce, Function.update_of_ne hname]
      apply h.announced id
      exact (log.life id).announced_of_announce hname hlife

theorem recorded_step {e : SeekServeEngine} {log : TorrentLog} (h : e.Recorded log) (ev : Event) :
    (e.step ev).2.Recorded (log.note (ev, (e.step ev).1)) := by
  cases records_step e ev with
  | removed id deleteFiles hop hrecords =>
    have hnote : log.note (ev, (e.step ev).1) = log.remove id := by
      simp only [TorrentLog.note, hop]
    rw [hnote]
    exact h.remove (congrArg Records.removedIds hrecords) (congrArg Records.catalog hrecords)
  | announced ih hop hrecords hmeta =>
    rw [log.note_announced hop]
    exact h.announce (congrArg Records.removedIds hrecords) hmeta
  | restarted hop hnew =>
    have hnote : log.note (ev, (e.step ev).1) = {} := by
      simp only [TorrentLog.note, hop]
    rw [hnote, hnew]
    exact recorded_create ev.env e.config e.cache
  | added uri savePath hop hrecords =>
    have hcatalog : (e.step ev).2.catalog = e.catalog := congrArg Records.catalog hrecords
    refine h.keeps ?_ (congrArg Records.removedIds hrecords) ?_ _
    · simp [Op.KeepsMetadata, hop, Op.metadataHash]
    · intro id
      rw [hcatalog]
  | controlled req server api hop _ _ hrecords hmeta =>
    refine h.keeps ?_ (congrArg Records.removedIds hrecords) hmeta _
    simp [Op.KeepsMetadata, hop, Op.metadataHash]
  | quiet hop _ hrecords hmeta =>
    exact h.keeps hop (congrArg Records.removedIds hrecords) hmeta _

theorem recorded_run (env : Env) (config : Config) (cache : OfflineCacheManager)
    (es : List Event) :
    (machine.run (create env config cache) es).Recorded
      (TorrentLog.ofTrace (machine.trace (create env config cache) es)) := by
  apply Runs.Machine.run_tracks machine Recorded TorrentLog.note (fun _ => True)
  · intro e log ev _ h
    exact recorded_step h ev
  · exact recorded_create env config cache
  · intro ev _
    trivial

structure Usable (e : SeekServeEngine) (id : TorrentId) : Prop where
  catalog : e.catalog.hasMetadata id = true
  listed : ∃ files, e.listFiles id = .ok files
  selectable : ∀ env fi, (e.selectFile env id fi).1 ≠ .error .metadataNotReady

theorem usable_iff (e : SeekServeEngine) (id : TorrentId) :
    e.Usable id ↔ e.catalog.hasMetadata id = true := by
  refine ⟨fun h => h.catalog, ?_⟩
  intro hmeta
  refine ⟨hmeta, ?_, ?_⟩
  · have hok := e.catalog.listFiles_isOk id
    rw [hmeta] at hok
    unfold listFiles
    cases hfiles : e.catalog.listFiles id with
    | ok files => exact ⟨files, rfl⟩
    | error err =>
      rw [hfiles] at hok
      cases hok
  · intro env fi
    have hready := (e.catalog.selectFile_ne_metadataNotReady_iff id fi).mpr hmeta
    rcases selectFile_cases env e id fi with ⟨err, catalog, heq, herr, _⟩ | ⟨_, _, _, _, _, heq⟩
    · rw [heq]
      intro hnot
      cases hnot
      rcases herr with hfound | hselect
      · cases hfound
      · exact hready hselect
    · rw [heq]
      intro hnot
      cases hnot

/-- A torrent that was added last, and whose metadata has come since, is usable exactly when
it was never removed before and metadata has come under its id. -/
theorem added_is_usable_iff (env : Env) (config : Config) (cache : OfflineCacheManager)
    (es : List Event) {id name : TorrentId}
    (h : (TorrentLog.ofTrace (machine.trace (create env config cache) es)).life id =
      .announced name) :
    ((machine.run (create env config cache) es).Usable id ↔
      (TorrentLog.ofTrace (machine.trace (create env config cache) es)).removed id = false ∧
        (TorrentLog.ofTrace (machine.trace (create env config cache) es)).described id = true) ∧
      (name = id →
        (TorrentLog.ofTrace (machine.trace (create env config cache) es)).described id = true) := by
  have hrecorded := recorded_run env config cache es
  refine ⟨?_, ?_⟩
  · rw [usable_iff, hrecorded.metadata id]
    simp [and_comm]
  · intro hname
    exact hname ▸ hrecorded.announced id name h

theorem added_is_usable_iff_once :
    (sampleRun (addSample 1 "a.torrent".toList)).Usable (sampleId 1) := by
  have hlife : (TorrentLog.ofTrace (machine.trace (create sampleEnv {} .empty)
      (sampleEvents (addSample 1 "a.torrent".toList)))).life (sampleId 1) =
        .announced (sampleId 1) := by decide
  have h := added_is_usable_iff sampleEnv {} .empty _ hlife
  exact h.1.mpr ⟨by decide, h.2 rfl⟩

def removeAddAgain : List Op :=
  addSample 1 "a.torrent".toList ++ [.removeTorrent (sampleId 1) false] ++
    addSample 1 "a.torrent".toList

theorem added_again_is_not_usable :
    (TorrentLog.ofTrace (machine.trace (create sampleEnv {} .empty)
      (sampleEvents removeAddAgain))).life (sampleId 1) = .announced (sampleId 1) ∧
      (sampleRun removeAddAgain).catalog.hasMetadata (sampleId 1) = false ∧
      (sampleRun removeAddAgain).listFiles (sampleId 1) = .error .metadataNotReady ∧
      ((sampleRun removeAddAgain).selectFile sampleEnv (sampleId 1) 0).1 =
        .error .metadataNotReady := by
  decide

def StatesDescribed (e : SeekServeEngine) : Prop :=
  ∀ id held, e.serving.held id = some held → e.catalog.hasMetadata id = true

theorem statesDescribed_step {e : SeekServeEngine} (h : e.StatesDescribed) (ev : Event) :
    (e.step ev).2.StatesDescribed := by
  intro id held hheld
  have hbefore : e.catalog.hasMetadata id = true := by
    rcases held_step hheld with ⟨hold, _⟩ | ⟨_, _, _, hmeta⟩
    · exact h id held hold
    · exact hmeta
  cases records_step e ev with
  | removed id' deleteFiles hop hrecords =>
    have hcatalog : (e.step ev).2.catalog = e.catalog.remove id' :=
      congrArg Records.catalog hrecords
    have hid := ne_of_held_removeTorrent hheld hop
    simp [hcatalog, MetadataCatalog.hasMetadata_remove, hid, hbefore]
  | announced ih hop hrecords hmeta => exact (hmeta id).mpr (Or.inr hbefore)
  | restarted hop hnew =>
    rw [hnew, serving_create] at hheld
    cases hheld
  | added uri savePath hop hrecords =>
    have hcatalog : (e.step ev).2.catalog = e.catalog := congrArg Records.catalog hrecords
    rw [hcatalog]
    exact hbefore
  | controlled _ _ _ _ _ _ _ hmeta | quiet _ _ _ hmeta =>
    rw [hmeta]
    exact hbefore

theorem statesDescribed_run (env : Env) (config : Config) (cache : OfflineCacheManager)
    (es : List Event) : (machine.run (create env config cache) es).StatesDescribed := by
  apply Runs.Machine.run_invariant machine StatesDescribed
  · intro e ev h
    exact statesDescribed_step h ev
  · intro id held hheld
    rw [serving_create] at hheld
    cases hheld

/-- The event removes the torrent, through one of the two interfaces. -/
def Removes (e : SeekServeEngine) (ev : Event) (id : TorrentId) : Prop :=
  (∃ deleteFiles, ev.op = .removeTorrent id deleteFiles ∧ (e.removeTorrent id).1 = .ok ()) ∨
    ∃ req api, ev.op = .control req ∧ e.apiServer = some api ∧
      controlRoute api.authToken ev.env.json req = .torrent id .remove ∧
      (e.control ev.env req).1 = some (.sent 200 (.status "removed".toList))

/-- Nothing is left of the torrent, and what was served of it is cancelled. -/
structure RemovedCompletely (e e' : SeekServeEngine) (id : TorrentId) : Prop where
  session : e'.sessions.getHandle id = none
  catalog : e'.catalog.hasMetadata id = false
  states : e'.states.lookup id = none
  registered : ∀ fi entry, ¬e'.serving.Registered id fi entry
  cancelled : ∀ fi entry, e.serving.Registered id fi entry → entry.source.addr ∈ e'.cancelled

theorem removedCompletely_removeTorrent {e : SeekServeEngine} {log : ServingLog}
    (h : e.serving.Tracks log) (id : TorrentId) :
    e.RemovedCompletely (e.removeTorrent id).2 id := by
  have hrecords := (records_removeTorrent e id).2
  have hsessions : (e.removeTorrent id).2.sessions = (e.sessions.removeTorrent id).2 :=
    congrArg Records.sessions hrecords
  have hcatalog : (e.removeTorrent id).2.catalog = e.catalog.remove id :=
    congrArg Records.catalog hrecords
  have htracks := tracks_removeTorrent h id
  refine ⟨?_, ?_, ?_, ?_, ?_⟩
  · rw [hsessions, TorrentSessionManager.getHandle_removeTorrent, if_pos rfl]
  · simp [hcatalog, MetadataCatalog.hasMetadata_remove]
  · have hheld := congrFun (held_removeTorrent e id) id
    rw [Function.update_self] at hheld
    exact Option.map_eq_none_iff.mp hheld
  · intro fi entry hreg
    have hserved := (htracks.served id fi).mp ⟨entry, hreg⟩
    simp [ServingLog.remove] at hserved
  · intro fi entry hreg
    exact mem_cancelled_dropSources (e := { e with cache := e.cache.removeTorrentUri id }) hreg

/-- `DELETE` on a torrent takes it out of the session and does nothing else. -/
theorem control_remove {e : SeekServeEngine} {env : Env} {req : HttpRequest}
    {api : ControlApiServer} {id : TorrentId} (hapi : e.apiServer = some api)
    (hroute : controlRoute api.authToken env.json req = .torrent id .remove)
    (hreply : (e.control env req).1 = some (.sent 200 (.status "removed".toList))) :
    (e.control env req).2 = { e with sessions := (e.sessions.removeTorrent id).2 } := by
  rcases control_cases env e req with ⟨server, api', _, hapi', heq⟩ | ⟨_, heq⟩
  · cases hapi.symm.trans hapi'
    have hserve : (e.controlContext env server api).handleConnection req =
        (e.controlContext env server api).serve (.torrent id .remove) :=
      congrArg (e.controlContext env server api).serve hroute
    rw [heq, hserve] at hreply
    rw [heq, hserve]
    simp only [ControlContext.serve] at hreply ⊢
    split at hreply
    · cases hreply
    rename_i hhas
    rw [if_neg hhas]
    simp only [ControlContext.serveTorrent] at hreply ⊢
    split at hreply
    · cases hreply
    · rename_i sessions hremove
      have hsessions : (e.sessions.removeTorrent id).2 = sessions := congrArg Prod.snd hremove
      rw [hsessions]
      rfl
  · rw [heq] at hreply
    cases hreply

/-- A successful removal is complete exactly when it goes through the engine or the torrent
has no metadata. -/
theorem removal_is_complete_iff (env : Env) (config : Config) (cache : OfflineCacheManager)
    (es : List Event) {ev : Event} {id : TorrentId}
    (h : (machine.run (create env config cache) es).Removes ev id) :
    (machine.run (create env config cache) es).RemovedCompletely
        ((machine.run (create env config cache) es).step ev).2 id ↔
      ev.op.isControl = false ∨
        (machine.run (create env config cache) es).catalog.hasMetadata id = false := by
  have htracks := tracks_run env config cache es
  have hdescribed := statesDescribed_run env config cache es
  generalize machine.run (create env config cache) es = e at h htracks hdescribed ⊢
  rcases h with ⟨deleteFiles, hop, _⟩ | ⟨req, api, hop, hapi, hroute, hreply⟩
  · have hstep : (e.step ev).2 = (e.removeTorrent id).2 := by
      simp only [step, hop]
    rw [hstep, hop]
    exact ⟨fun _ => Or.inl rfl, fun _ => removedCompletely_removeTorrent htracks id⟩
  · have hstep : (e.step ev).2 = { e with sessions := (e.sessions.removeTorrent id).2 } := by
      rw [← control_remove hapi hroute hreply]
      simp only [step, hop]
    rw [hstep, hop]
    refine ⟨fun hcomplete => Or.inr hcomplete.catalog, ?_⟩
    intro hor
    have hmeta : e.catalog.hasMetadata id = false := hor.resolve_left Bool.noConfusion
    -- without metadata the torrent has no state, and so nothing of it is registered
    have hheld : e.serving.held id = none := by
      cases hheld : e.serving.held id with
      | none => rfl
      | some held =>
        rw [hdescribed id held hheld] at hmeta
        cases hmeta
    have hreg : ∀ fi entry, ¬e.serving.Registered id fi entry := by
      intro fi entry hreg
      obtain ⟨held, hsome, _⟩ := htracks.source id fi entry hreg
      rw [hheld] at hsome
      cases hsome
    refine ⟨?_, hmeta, Option.map_eq_none_iff.mp hheld, hreg, ?_⟩
    · exact (e.sessions.getHandle_removeTorrent id id).trans (if_pos rfl)
    · intro fi entry hr
      exact absurd hr (hreg fi entry)

def addStart : List Op := addSample 1 "a.torrent".toList ++ [.startServer]

def deleteSample : HttpRequest :=
  { method := .delete, target := "/api/torrents/".toList ++ sampleId 1 }

theorem removal_is_complete_iff_engine :
    (sampleRun addStart).RemovedCompletely
      ((sampleRun addStart).step ⟨sampleEnv, .removeTorrent (sampleId 1) false⟩).2 (sampleId 1) :=
  (removal_is_complete_iff sampleEnv {} .empty (sampleEvents addStart)
    (Or.inl ⟨false, rfl, by decide⟩)).mpr (Or.inl rfl)

theorem rest_removal_is_not_complete :
    (sampleRun addStart).Removes ⟨sampleEnv, .control deleteSample⟩ (sampleId 1) ∧
      ¬(sampleRun addStart).RemovedCompletely
        ((sampleRun addStart).step ⟨sampleEnv, .control deleteSample⟩).2 (sampleId 1) := by
  refine ⟨Or.inr ⟨deleteSample, ⟨[], true, 8081⟩, rfl, ?_, rfl, ?_⟩, ?_⟩
  · decide
  · decide
  · intro hcomplete
    exact absurd hcomplete.catalog (by decide)

end SeekServeEngine

end SeekServe
