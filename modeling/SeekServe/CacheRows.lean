import SeekServe.Records

/-!
# What a step does to the rows of `cache_entries`

Rows are made when the metadata of a torrent arrives and become ready when a file of it
completes. Nothing else in the engine adds a row, takes one away or changes its size.
-/

namespace SeekServe

set_option autoImplicit false

/-- The torrent whose metadata an alert brings, with the metadata. -/
def Op.announcement : Op → Option (TorrentId × TorrentInfo)
  | .metadataReceived ih ti => some (infohashToHex ih, ti)
  | .torrentAdded ih (some (some ti)) => some (infohashToHex ih, ti)
  | _ => none

namespace SeekServeEngine

theorem keepsFiles_tickStates (env : Env) (e : SeekServeEngine) :
    e.cache.KeepsFiles (e.tickStates env).cache := by
  unfold tickStates
  generalize e.states.entries = entries
  generalize e.cache = cache
  induction entries generalizing cache with
  | nil => exact .of_eq rfl
  | cons entry rest ih =>
    rw [List.foldl_cons]
    split
    · exact (cache.keepsFiles_onProgressUpdate env.now _ _ _).trans (ih _)
    · exact ih _

theorem keepsFiles_onTick (env : Env) (e : SeekServeEngine) :
    e.cache.KeepsFiles (e.onTick env).cache := by
  unfold onTick
  split
  · exact e.keepsFiles_tickStates env
  · exact .of_eq rfl

theorem keepsFiles_startServer (env : Env) (e : SeekServeEngine) :
    e.cache.KeepsFiles (e.startServer env).2.cache := by
  unfold startServer
  split
  · exact .of_eq rfl
  simp only
  split
  · exact .of_eq rfl
  split
  · exact .of_eq rfl
  · exact keepsFiles_tickStates env _

theorem cache_stopServer (e : SeekServeEngine) : e.stopServer.cache = e.cache := by
  unfold stopServer
  split <;> rfl

theorem keepsFiles_addTorrent (env : Env) (e : SeekServeEngine) (uri savePath : CxxString) :
    e.cache.KeepsFiles (e.addTorrent env uri savePath).2.cache := by
  unfold addTorrent
  split <;> exact .of_eq rfl

theorem keepsFiles_removeTorrent (e : SeekServeEngine) (id : TorrentId) :
    e.cache.KeepsFiles (e.removeTorrent id).2.cache := by
  have hdrop : (({ e with cache := e.cache.removeTorrentUri id }).dropSources id).cache =
      e.cache.removeTorrentUri id := by
    unfold dropSources
    split <;> rfl
  refine .of_eq ?_
  simp only [removeTorrent, hdrop]
  rfl

theorem cache_selectFile (env : Env) (e : SeekServeEngine) (id : TorrentId) (fi : Int) :
    (e.selectFile env id fi).2.cache = e.cache := by
  rcases selectFile_cases env e id fi with ⟨err, catalog, heq, _⟩ | ⟨handle, ti, _, _, _, heq⟩
  · rw [heq]
  · rw [heq]
    unfold publish dropPreviousSource
    split
    · split <;> rfl
    · rfl

theorem cache_control (env : Env) (e : SeekServeEngine) (req : HttpRequest) :
    (e.control env req).2.cache = e.cache := by
  rcases control_cases env e req with ⟨server, api, _, _, heq⟩ | ⟨_, heq⟩
  · rw [heq]
    unfold afterControl
    simp only
    split
    · exact cache_stopServer _
    · rfl
  · rw [heq]

/-- The restored engine has lost rows of `torrents` at most. -/
theorem keepsFiles_restart (env : Env) (e : SeekServeEngine) :
    e.cache.KeepsFiles (e.restart env).cache := by
  unfold restart create
  generalize e.cache.listTorrentUris = rows
  have hfold : ∀ e' : SeekServeEngine, e.cache.KeepsFiles e'.cache →
      e.cache.KeepsFiles (rows.foldl (restoreRow env) e').cache := by
    induction rows with
    | nil => exact fun e' h => h
    | cons row rows ih =>
      intro e' h
      rw [List.foldl_cons]
      apply ih
      unfold restoreRow
      split
      · exact h
      · exact h.trans (.of_eq rfl)
  exact hfold _ (.of_eq rfl)

/-- What one step does to the rows, by the kind of its event. -/
inductive RowsStep (e : SeekServeEngine) (ev : Event) (e' : SeekServeEngine) : Prop
  | announced (id : TorrentId) (ti : TorrentInfo) (files : List FileInfo)
    (hop : ev.op.announcement = some (id, ti)) (hnew : id ∉ e.removedIds)
    (hfiles : (e.catalog.onMetadataReceived id ti).listFiles id = .ok files)
    (hcache : e'.cache = e.cache.onTorrentAdded ev.env.now id files)
  | completed (ih : InfoHash) (fi : Int) (hop : ev.op = .fileCompleted ih fi)
    (hcache : e'.cache = e.cache.onFileCompleted ev.env.now (infohashToHex ih) fi)
  | kept (hop : ∀ ih fi, ev.op ≠ .fileCompleted ih fi)
    (hnew : ∀ id ti, ev.op.announcement = some (id, ti) → id ∈ e.removedIds)
    (h : e.cache.KeepsFiles e'.cache)

theorem RowsStep.of_metadata {e : SeekServeEngine} {ev : Event} {ih : InfoHash} {ti : TorrentInfo}
    (hop : ev.op.announcement = some (infohashToHex ih, ti))
    (hnot : ∀ ih fi, ev.op ≠ .fileCompleted ih fi) :
    e.RowsStep ev (e.onMetadataReceived ev.env ih ti) := by
  by_cases hremoved : infohashToHex ih ∈ e.removedIds
  · refine .kept hnot ?_ ?_
    · intro id ti' h
      rw [hop] at h
      cases h
      exact hremoved
    · unfold onMetadataReceived
      simp only [hremoved, if_true]
      exact .of_eq rfl
  · cases hfiles : (e.catalog.onMetadataReceived (infohashToHex ih) ti).listFiles
        (infohashToHex ih) with
    | ok files =>
      refine .announced (infohashToHex ih) ti files hop hremoved hfiles ?_
      unfold onMetadataReceived
      simp only [hremoved, if_false, hfiles]
    | error err =>
      have hhas := e.catalog.hasMetadata_onMetadataReceived (infohashToHex ih) ti
        (infohashToHex ih)
      rw [← MetadataCatalog.listFiles_isOk, hfiles] at hhas
      simp [Except.isOk, Except.toBool] at hhas

theorem rows_step (e : SeekServeEngine) (ev : Event) : e.RowsStep ev (e.step ev).2 := by
  unfold step
  cases hop : ev.op with
  | addTorrent uri savePath =>
    exact .kept (by simp [hop]) (by simp [hop, Op.announcement])
      (keepsFiles_addTorrent ev.env e uri savePath)
  | removeTorrent id deleteFiles =>
    exact .kept (by simp [hop]) (by simp [hop, Op.announcement]) (keepsFiles_removeTorrent e id)
  | selectFile id fi =>
    exact .kept (by simp [hop]) (by simp [hop, Op.announcement])
      (.of_eq (by rw [cache_selectFile]))
  | startServer =>
    exact .kept (by simp [hop]) (by simp [hop, Op.announcement]) (keepsFiles_startServer ev.env e)
  | stopServer =>
    exact .kept (by simp [hop]) (by simp [hop, Op.announcement]) (.of_eq (by rw [cache_stopServer]))
  | metadataReceived ih ti =>
    exact .of_metadata (by simp [hop, Op.announcement]) (by simp [hop])
  | torrentAdded ih result =>
    rcases onTorrentAdded_cases ev.env e ih result with ⟨ti, rfl, heq⟩ | ⟨hnone, heq⟩
    · simp only [heq]
      exact .of_metadata (by simp [hop, Op.announcement]) (by simp [hop])
    · simp only [heq]
      refine .kept (by simp [hop]) ?_ (.of_eq rfl)
      intro id ti h
      rcases result with _ | _ | ti'
      · simp [hop, Op.announcement] at h
      · simp [hop, Op.announcement] at h
      · exact absurd rfl (hnone ti')
  | pieceFinished ih piece =>
    exact .kept (by simp [hop]) (by simp [hop, Op.announcement]) (.of_eq rfl)
  | fileCompleted ih fi => exact .completed ih fi hop rfl
  | tick =>
    exact .kept (by simp [hop]) (by simp [hop, Op.announcement]) (keepsFiles_onTick ev.env e)
  | control req =>
    exact .kept (by simp [hop]) (by simp [hop, Op.announcement]) (.of_eq (by rw [cache_control]))
  | restart =>
    exact .kept (by simp [hop]) (by simp [hop, Op.announcement]) (keepsFiles_restart ev.env e)

theorem listFiles_selectFile (env : Env) (e : SeekServeEngine) (id : TorrentId) (fi : Int)
    (id' : TorrentId) :
    (e.selectFile env id fi).2.catalog.listFiles id' = e.catalog.listFiles id' := by
  have hcatalog : (e.selectFile env id fi).2.catalog = e.catalog ∨
      (e.selectFile env id fi).2.catalog = (e.catalog.selectFile id fi).2 := by
    unfold selectFile
    split
    · exact Or.inl rfl
    cases hsel : e.catalog.selectFile id fi with
    | mk result catalog =>
      cases result with
      | error err => exact Or.inr rfl
      | ok u =>
        have hdrop : ({ e with catalog := catalog }.dropPreviousSource id).catalog = catalog := by
          unfold dropPreviousSource
          split
          · split <;> rfl
          · rfl
        simp only
        split
        · exact Or.inr hdrop
        · exact Or.inr hdrop
  rcases hcatalog with h | h
  · rw [h]
  · rw [h]
    exact e.catalog.listFiles_selectFile id fi id'

theorem listFiles_control (env : Env) (e : SeekServeEngine) (req : HttpRequest) (id : TorrentId) :
    (e.control env req).2.catalog.listFiles id = e.catalog.listFiles id := by
  rcases control_cases env e req with ⟨server, api, _, _, heq⟩ | ⟨_, heq⟩
  · have hserve := (e.controlContext env server api).serve_listFiles
      (controlRoute api.authToken env.json req) id
    rw [heq]
    unfold afterControl
    simp only
    split
    · have hstop : ∀ e' : SeekServeEngine, e'.stopServer.catalog = e'.catalog := fun e' =>
        congrArg Records.catalog (records_stopServer e')
      rw [hstop]
      exact hserve
    · exact hserve
  · rw [heq]

/-- What the catalog lists after a step that removes no torrent. -/
theorem listFiles_step {e : SeekServeEngine} {ev : Event}
    (hremove : ∀ id deleteFiles, ev.op ≠ .removeTorrent id deleteFiles)
    (hrestart : ev.op ≠ .restart) (hremoved : e.removedIds = []) (id : TorrentId) :
    (e.step ev).2.catalog.listFiles id =
      match ev.op.announcement with
      | some (id', ti) => (e.catalog.onMetadataReceived id' ti).listFiles id
      | none => e.catalog.listFiles id := by
  have hmetadata : ∀ ih ti, (e.onMetadataReceived ev.env ih ti).catalog.listFiles id =
      (e.catalog.onMetadataReceived (infohashToHex ih) ti).listFiles id := by
    intro ih ti
    have h := congrArg Records.catalog (records_onMetadataReceived ev.env e ih ti)
    rw [hremoved] at h
    exact congrArg (fun catalog => MetadataCatalog.listFiles catalog id) h
  unfold step
  cases hop : ev.op with
  | addTorrent uri savePath =>
    exact congrArg (fun r => r.catalog.listFiles id) (records_addTorrent ev.env e uri savePath).2
  | removeTorrent id deleteFiles => exact absurd hop (hremove id deleteFiles)
  | selectFile id' fi => exact listFiles_selectFile ev.env e id' fi id
  | startServer => exact congrArg (fun r => r.catalog.listFiles id) (records_startServer ev.env e)
  | stopServer => exact congrArg (fun r => r.catalog.listFiles id) (records_stopServer e)
  | metadataReceived ih ti => exact hmetadata ih ti
  | torrentAdded ih result =>
    rcases result with _ | _ | ti
    · rfl
    · rfl
    · exact hmetadata ih ti
  | pieceFinished ih piece => rfl
  | fileCompleted ih fi => rfl
  | tick => exact congrArg (fun r => r.catalog.listFiles id) (records_onTick ev.env e)
  | control req => exact listFiles_control ev.env e req id
  | restart => exact absurd hop hrestart

end SeekServeEngine

end SeekServe
