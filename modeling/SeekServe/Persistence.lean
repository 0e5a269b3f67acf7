import SeekServe.Records

/-!
# The persisted torrents and the session

Both hold the same ids as long as only the engine's own calls, and restarts, change them.
-/

namespace SeekServe

set_option autoImplicit false

theorem OfflineCacheManager.nodup_listTorrentUris (c : OfflineCacheManager) :
    (c.listTorrentUris.map Prod.fst).Nodup := by
  have hperm := List.perm_insertionSort
    (fun a b : Sigma fun _ : TorrentId => TorrentRow => a.2.addedAt ≤ b.2.addedAt)
    c.torrents.entries.reverse
  have hkeys : (c.torrents.entries.map Sigma.fst).Nodup := c.torrents.nodupKeys
  have hids : c.listTorrentUris.map Prod.fst =
      (c.torrents.entries.reverse.insertionSort
        fun a b => a.2.addedAt ≤ b.2.addedAt).map Sigma.fst := by
    rw [listTorrentUris, List.map_map]
    rfl
  rw [hids, (hperm.map Sigma.fst).nodup_iff, List.map_reverse, List.nodup_reverse]
  exact hkeys

/-- The request leaves the set of torrents in the session as it is. -/
def ControlRoute.KeepsTorrents (sessions : TorrentSessionManager) (load : Loader) :
    ControlRoute → Prop
  | .addTorrent params =>
    ∀ ih, load.load params.uri = .ok ih → sessions.hasTorrent (infohashToHex ih) = true
  | .torrent id .remove => sessions.hasTorrent id = false
  | _ => True

theorem ControlContext.keepsTorrents_iff (ctx : ControlContext) (route : ControlRoute) :
    (∀ id, (ctx.serve route).sessions.hasTorrent id = true ↔
        ctx.sessions.hasTorrent id = true) ↔ route.KeepsTorrents ctx.sessions ctx.load := by
  rw [ctx.serve_sessions]
  cases route with
  | reject | preflight | crash | listTorrents | serverStop | listCache =>
    exact ⟨fun _ => trivial, fun _ _ => Iff.rfl⟩
  | addTorrent params =>
    have hresult := ctx.sessions.addTorrent_result ctx.load params
    simp only [TorrentSessionManager.hasTorrent_addTorrent, hresult,
      ControlRoute.KeepsTorrents]
    refine ⟨?_, ?_⟩
    · intro h ih hload
      apply (h (infohashToHex ih)).mp
      exact Or.inl (by rw [hload]; rfl)
    · intro h id
      refine ⟨?_, Or.inr⟩
      intro hor
      rcases hor with hok | hin
      · cases hload : ctx.load.load params.uri with
        | error err =>
          rw [hload] at hok
          cases hok
        | ok ih =>
          rw [hload] at hok
          exact Except.ok.inj hok ▸ h ih hload
      · exact hin
  | torrent id route =>
    cases route with
    | remove =>
      simp only [TorrentSessionManager.hasTorrent_removeTorrent, ControlRoute.KeepsTorrents]
      refine ⟨?_, ?_⟩
      · intro h
        apply Bool.eq_false_iff.mpr
        intro hin
        exact ((h id).mpr hin).1 rfl
      · intro h id'
        refine ⟨fun hb => hb.2, ?_⟩
        intro hin
        refine ⟨?_, hin⟩
        intro heq
        rw [heq, h] at hin
        cases hin
    | files | select | pause | resume | status | streamUrl | unknown =>
      exact ⟨fun _ => trivial, fun _ _ => Iff.rfl⟩

namespace SeekServeEngine

theorem mem_listTorrents {e : SeekServeEngine} {id : TorrentId} :
    id ∈ e.listTorrents ↔ e.cache.persisted id = true := by
  rw [OfflineCacheManager.persisted_iff]
  simp only [listTorrents, List.mem_map, Prod.exists, exists_and_right, exists_eq_right,
    OfflineCacheManager.mem_listTorrentUris]
  refine ⟨?_, ?_⟩
  · intro h
    obtain ⟨_, row, hrow, _⟩ := h
    exact ⟨row, hrow⟩
  · intro h
    obtain ⟨row, hrow⟩ := h
    exact ⟨row.uri, row, hrow, rfl⟩

def KeepsTable (e : SeekServeEngine) (ev : Event) : Prop :=
  match ev.op with
  | .control req =>
    ∀ server api, e.httpServer = some server → e.apiServer = some api →
      (controlRoute api.authToken ev.env.json req).KeepsTorrents e.sessions ev.env.load
  | _ => True

/-- The table and the session hold the same torrents. -/
def Agrees (e : SeekServeEngine) : Prop :=
  ∀ id, id ∈ e.listTorrents ↔ e.sessions.hasTorrent id = true

section IdsOfUris

/-! Adding the same URI again yields the same id: `idOf` gives it. -/

variable (idOf : CxxString → TorrentId)

def Env.LoadsAs (env : Env) : Prop :=
  ∀ uri ih, env.load.load uri = .ok ih → infohashToHex ih = idOf uri

/-- Every row stands under the id of its URI. -/
def RowsOf (torrents : AssocMap TorrentId TorrentRow) : Prop :=
  ∀ id row, torrents.lookup id = some row → idOf row.uri = id

variable {idOf}

theorem addTorrent_ok_eq {m : TorrentSessionManager} {env : Env} {params : AddTorrentParams}
    {id : TorrentId} (henv : Env.LoadsAs idOf env)
    (h : (m.addTorrent env.load params).1 = .ok id) : id = idOf params.uri := by
  rw [TorrentSessionManager.addTorrent_result] at h
  cases hload : env.load.load params.uri with
  | error err => simp [hload, Except.map] at h
  | ok ih =>
    simp only [hload, Except.map, Except.ok.injEq] at h
    rw [← h]
    exact henv params.uri ih hload

/-- In the middle of the constructor's loop, with the rows that are left. -/
structure Restoring (idOf : CxxString → TorrentId) (e : SeekServeEngine)
    (rows : List (TorrentId × CxxString)) : Prop where
  rowsOf : RowsOf idOf e.cache.torrents
  nodup : (rows.map Prod.fst).Nodup
  left : ∀ row ∈ rows, idOf row.2 = row.1 ∧ e.cache.persisted row.1 = true ∧
    e.sessions.hasTorrent row.1 = false
  persisted : ∀ id, e.sessions.hasTorrent id = true → e.cache.persisted id = true
  restored : ∀ id, e.cache.persisted id = true →
    e.sessions.hasTorrent id = true ∨ id ∈ rows.map Prod.fst

theorem RowsOf.remove {cache : OfflineCacheManager} (h : RowsOf idOf cache.torrents)
    (id : TorrentId) : RowsOf idOf (cache.removeTorrentUri id).torrents := by
  intro id' row hrow
  exact h id' row (AssocMap.lookup_of_lookup_erase hrow).2

section Row
variable {e : SeekServeEngine} {row : TorrentId × CxxString} {rows : List (TorrentId × CxxString)}

theorem Restoring.other (h : Restoring idOf e (row :: rows)) :
    ∀ row' ∈ rows, row'.1 ≠ row.1 := by
  obtain ⟨hfresh, _⟩ := List.nodup_cons.mp h.nodup
  intro row' hmem heq
  exact hfresh (heq ▸ List.mem_map_of_mem hmem)

/-- The session gains the id of the row. -/
theorem Restoring.gains (h : Restoring idOf e (row :: rows)) {sessions : TorrentSessionManager}
    (hhas : ∀ id, sessions.hasTorrent id = true ↔
      id = row.1 ∨ e.sessions.hasTorrent id = true) :
    Restoring idOf { e with sessions := sessions } rows := by
  obtain ⟨_, hnodup⟩ := List.nodup_cons.mp h.nodup
  obtain ⟨_, hpersisted, _⟩ := h.left row List.mem_cons_self
  refine ⟨h.rowsOf, hnodup, ?_, ?_, ?_⟩
  · intro row' hmem
    obtain ⟨hid', hpersisted', hnew'⟩ := h.left row' (List.mem_cons_of_mem _ hmem)
    refine ⟨hid', hpersisted', Bool.eq_false_iff.mpr ?_⟩
    intro hin
    rcases (hhas row'.1).mp hin with heq | hold
    · exact h.other row' hmem heq
    · rw [hnew'] at hold
      cases hold
  · intro id' hin
    rcases (hhas id').mp hin with rfl | hold
    · exact hpersisted
    · exact h.persisted id' hold
  · intro id' hin
    rcases h.restored id' hin with hold | hrow
    · exact Or.inl ((hhas id').mpr (Or.inr hold))
    rcases List.mem_cons.mp hrow with heq | hrest
    · exact Or.inl ((hhas id').mpr (Or.inl heq))
    · exact Or.inr hrest

/-- The row goes; no earlier row has put its id into the session. -/
theorem Restoring.drops (h : Restoring idOf e (row :: rows)) :
    Restoring idOf { e with cache := e.cache.removeTorrentUri row.1 } rows := by
  obtain ⟨_, hnodup⟩ := List.nodup_cons.mp h.nodup
  obtain ⟨_, _, hnew⟩ := h.left row List.mem_cons_self
  have hgone := e.cache.persisted_removeTorrentUri row.1
  refine ⟨h.rowsOf.remove row.1, hnodup, ?_, ?_, ?_⟩
  · intro row' hmem
    obtain ⟨hid', hpersisted', hnew'⟩ := h.left row' (List.mem_cons_of_mem _ hmem)
    exact ⟨hid', (hgone row'.1).mpr ⟨h.other row' hmem, hpersisted'⟩, hnew'⟩
  · intro id' hin
    refine (hgone id').mpr ⟨?_, h.persisted id' hin⟩
    intro heq
    rw [heq, hnew] at hin
    cases hin
  · intro id' hin
    obtain ⟨hne, hin'⟩ := (hgone id').mp hin
    rcases h.restored id' hin' with hold | hrow
    · exact Or.inl hold
    · exact Or.inr ((List.mem_cons.mp hrow).resolve_left hne)

theorem restoring_restoreRow {env : Env} (henv : Env.LoadsAs idOf env)
    (h : Restoring idOf e (row :: rows)) : Restoring idOf (restoreRow env e row) rows := by
  obtain ⟨hid, _, _⟩ := h.left row List.mem_cons_self
  unfold restoreRow
  cases hadd : e.sessions.addTorrent env.load ⟨row.2, e.config.session.savePath⟩ with
  | mk result sessions =>
    cases result with
    | ok id =>
      apply h.gains
      intro id'
      have hadd' := e.sessions.hasTorrent_addTorrent env.load
        ⟨row.2, e.config.session.savePath⟩ id'
      -- the URI has kept its id
      have hok := addTorrent_ok_eq henv (congrArg Prod.fst hadd)
      rw [hadd, hok, hid, Except.ok.injEq, eq_comm (a := row.1)] at hadd'
      exact hadd'
    | error err => exact h.drops

end Row

/-- The constructor leaves no row without a torrent, and no torrent without a row. -/
theorem restoring_create {env : Env} (henv : Env.LoadsAs idOf env) (config : Config)
    {cache : OfflineCacheManager} (hrows : RowsOf idOf cache.torrents) :
    Restoring idOf (create env config cache) [] := by
  have hfold : ∀ rows e, Restoring idOf e rows →
      Restoring idOf (rows.foldl (restoreRow env) e) [] := by
    intro rows
    induction rows with
    | nil =>
      intro e h
      exact h
    | cons row rows ih =>
      intro e h
      exact ih _ (restoring_restoreRow henv h)
  apply hfold
  refine ⟨hrows, cache.nodup_listTorrentUris, ?_, ?_, ?_⟩
  · intro row hmem
    obtain ⟨entry, hentry, huri⟩ := OfflineCacheManager.mem_listTorrentUris.mp hmem
    refine ⟨?_, OfflineCacheManager.persisted_iff.mpr ⟨entry, hentry⟩, rfl⟩
    rw [← huri]
    exact hrows row.1 entry hentry
  · intro id hin
    cases hin
  · intro id hin
    obtain ⟨entry, hentry⟩ := OfflineCacheManager.persisted_iff.mp hin
    exact Or.inr (List.mem_map.mpr
      ⟨(id, entry.uri), OfflineCacheManager.mem_listTorrentUris.mpr ⟨entry, hentry, rfl⟩, rfl⟩)

theorem Restoring.agrees {e : SeekServeEngine} (h : Restoring idOf e []) : e.Agrees := by
  intro id
  rw [mem_listTorrents]
  refine ⟨?_, h.persisted id⟩
  intro hin
  rcases h.restored id hin with hold | hrow
  · exact hold
  · cases hrow

theorem rowsOf_step {e : SeekServeEngine} (h : RowsOf idOf e.cache.torrents) {ev : Event}
    (henv : Env.LoadsAs idOf ev.env) : RowsOf idOf (e.step ev).2.cache.torrents := by
  cases records_step e ev with
  | added uri savePath hop hrecords =>
    have htorrents := congrArg Records.torrents hrecords
    simp only [records] at htorrents
    rw [htorrents]
    cases hadd : (e.sessions.addTorrent ev.env.load ⟨uri, savePath⟩).1 with
    | error err => exact h
    | ok id =>
      have hid := addTorrent_ok_eq henv hadd
      intro id' row hrow
      simp only [OfflineCacheManager.saveTorrentUri, AssocMap.lookup_insert_eq] at hrow
      split at hrow
      · rename_i heq
        cases hrow
        rw [heq, hid]
      · exact h id' row hrow
  | removed id deleteFiles hop hrecords =>
    have htorrents : (e.step ev).2.cache.torrents = (e.cache.removeTorrentUri id).torrents :=
      congrArg Records.torrents hrecords
    rw [htorrents]
    exact h.remove id
  | restarted hop hnew =>
    rw [hnew]
    exact (restoring_create henv e.config h).rowsOf
  | announced _ _ hrecords | controlled _ _ _ _ _ _ hrecords | quiet _ _ hrecords =>
    have htorrents : (e.step ev).2.cache.torrents = e.cache.torrents :=
      congrArg Records.torrents hrecords
    rw [htorrents]
    exact h

theorem agrees_iff {e : SeekServeEngine} : e.Agrees ↔ ∀ id,
    (e.cache.torrents.lookup id).isSome = true ↔ e.sessions.hasTorrent id = true := by
  unfold Agrees
  simp only [mem_listTorrents, OfflineCacheManager.persisted]

theorem agrees_of_records {e e' : SeekServeEngine} (h : e.Agrees)
    (hrecords : e'.records = { e.records with catalog := e'.catalog }) : e'.Agrees := by
  have hsessions : e'.sessions = e.sessions := congrArg Records.sessions hrecords
  have htorrents : e'.cache.torrents = e.cache.torrents := congrArg Records.torrents hrecords
  apply agrees_iff.mpr
  rw [hsessions, htorrents]
  exact agrees_iff.mp h

/-- One step keeps the agreement exactly when it does not change the session alone. -/
theorem agrees_step_iff {e : SeekServeEngine} {ev : Event} (henv : Env.LoadsAs idOf ev.env)
    (hrows : RowsOf idOf e.cache.torrents) (h : e.Agrees) :
    (e.step ev).2.Agrees ↔ e.KeepsTable ev := by
  have hold := agrees_iff.mp h
  cases records_step e ev with
  | added uri savePath hop hrecords =>
    refine ⟨fun _ => by simp only [KeepsTable, hop], fun _ => agrees_iff.mpr ?_⟩
    have hsessions := congrArg Records.sessions hrecords
    have htorrents := congrArg Records.torrents hrecords
    simp only [records] at hsessions htorrents
    intro id
    rw [hsessions, htorrents, TorrentSessionManager.hasTorrent_addTorrent, ← hold id]
    cases hadd : (e.sessions.addTorrent ev.env.load ⟨uri, savePath⟩).1 with
    | error err => simp
    | ok id' =>
      have hsave := e.cache.persisted_saveTorrentUri ev.env.now id' uri id
      rw [Except.ok.injEq, eq_comm (a := id')]
      exact hsave
  | removed id deleteFiles hop hrecords =>
    refine ⟨fun _ => by simp only [KeepsTable, hop], fun _ => agrees_iff.mpr ?_⟩
    have hsessions := congrArg Records.sessions hrecords
    have htorrents := congrArg Records.torrents hrecords
    simp only [records] at hsessions htorrents
    intro id'
    rw [hsessions, htorrents, TorrentSessionManager.hasTorrent_removeTorrent, ← hold id']
    exact e.cache.persisted_removeTorrentUri id id'
  | controlled req server api hop hserver hapi hrecords hmeta =>
    have hroute := (e.controlContext ev.env server api).keepsTorrents_iff
      (controlRoute api.authToken ev.env.json req)
    have hkeeps : e.KeepsTable ev ↔
        (controlRoute api.authToken ev.env.json req).KeepsTorrents e.sessions ev.env.load := by
      simp only [KeepsTable, hop]
      refine ⟨fun hall => hall server api hserver hapi, ?_⟩
      intro hk server' api' _ hapi'
      cases hapi.symm.trans hapi'
      exact hk
    have hsessions := congrArg Records.sessions hrecords
    have htorrents := congrArg Records.torrents hrecords
    simp only [records] at hsessions htorrents
    rw [hkeeps, agrees_iff, hsessions, htorrents]
    refine Iff.trans ?_ hroute
    refine forall_congr' ?_
    intro id
    rw [hold id]
    exact iff_comm
  | restarted hop hnew =>
    refine ⟨fun _ => by simp only [KeepsTable, hop], fun _ => ?_⟩
    rw [hnew]
    exact (restoring_create henv e.config hrows).agrees
  | announced ih hop hrecords hmeta =>
    refine ⟨fun _ => ?_, fun _ => agrees_of_records h hrecords⟩
    unfold KeepsTable
    split
    · rename_i req hcontrol
      rw [hcontrol] at hop
      cases hop
    · trivial
  | quiet hop hunserved hrecords hmeta =>
    refine ⟨fun _ => ?_, fun _ => agrees_of_records h hrecords⟩
    unfold KeepsTable
    split
    · rename_i req hcontrol
      intro server api hserver hapi
      exact absurd hapi (hunserved req server api hcontrol hserver)
    · trivial

/-- In runs in which a URI always has the same id, the table and the session agree after
every operation exactly when no control request adds or removes a torrent. -/
theorem table_agrees_iff {env : Env} (config : Config) {cache : OfflineCacheManager}
    {es : List Event} (hrows : RowsOf idOf cache.torrents) (henv : Env.LoadsAs idOf env)
    (hes : ∀ ev ∈ es, Env.LoadsAs idOf ev.env) :
    machine.Always Agrees (create env config cache) es ↔
      machine.EachStep KeepsTable (create env config cache) es := by
  have hrestoring := restoring_create henv config hrows
  apply Runs.Machine.always_iff_eachStep machine (fun e => RowsOf idOf e.cache.torrents) Agrees
    KeepsTable (fun ev => Env.LoadsAs idOf ev.env)
  · intro e ev hev h
    exact rowsOf_step h hev
  · intro e ev hev hrows h
    exact agrees_step_iff hev hrows h
  · exact hrestoring.rowsOf
  · exact hrestoring.agrees
  · exact hes

end IdsOfUris

def sampleIdOf (uri : CxxString) : TorrentId :=
  if uri = "a.torrent".toList then sampleId 1 else sampleId 2

theorem sampleEnv_loadsAs : Env.LoadsAs sampleIdOf sampleEnv := by
  intro uri ih h
  have hload : sampleEnv.load.loadTorrentFile uri = some ih := by
    simp only [Loader.load] at h
    split at h
    · cases h
    · rename_i loaded hloaded
      cases h
      split at hloaded
      · cases hloaded
      · exact hloaded
  simp only [sampleEnv] at hload
  unfold sampleIdOf
  split at hload
  · rw [if_pos ‹_›]
    cases hload
    rfl
  · rw [if_neg ‹_›]
    split at hload
    · cases hload
      rfl
    · cases hload

def engineOnly : List Op :=
  [.addTorrent "a.torrent".toList [], .addTorrent "b.torrent".toList [], .restart,
    .removeTorrent (sampleId 1) false, .restart]

theorem sampleEvents_loadsAs (ops : List Op) :
    ∀ ev ∈ sampleEvents ops, Env.LoadsAs sampleIdOf ev.env := by
  intro ev hev
  obtain ⟨op, _, rfl⟩ := List.mem_map.mp hev
  exact sampleEnv_loadsAs

theorem table_agrees_iff_engineOnly :
    machine.Always Agrees (create sampleEnv {} .empty) (sampleEvents engineOnly) := by
  apply (table_agrees_iff {} _ sampleEnv_loadsAs (sampleEvents_loadsAs engineOnly)).mpr
  · exact ⟨trivial, trivial, trivial, trivial, trivial, trivial⟩
  · intro id row h
    cases h

def postSample : HttpRequest := { method := .post, target := "/api/torrents".toList }

/-- A torrent that comes through the control API has no row in the table. -/
theorem rest_addition_is_not_persisted :
    (∀ ev ∈ sampleEvents [.startServer, .control postSample], Env.LoadsAs sampleIdOf ev.env) ∧
      ¬machine.Always Agrees (create sampleEnv {} .empty)
        (sampleEvents [.startServer, .control postSample]) := by
  refine ⟨sampleEvents_loadsAs _, ?_⟩
  intro halways
  have hagrees := halways _ List.prefix_rfl (sampleId 1)
  have hnot : sampleId 1 ∉ (sampleRun [.startServer, .control postSample]).listTorrents := by
    decide
  exact hnot (hagrees.mpr (by decide))

end SeekServeEngine

end SeekServe
