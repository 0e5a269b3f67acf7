import SeekServe.CacheRows

/-!
# Offline-ready files and the data on disk

The engine beside libtorrent's files: which of them are completely present, and the
`file_completed` alerts that have been posted and not handled. Data belongs to a torrent, which
may have had another id before its v2 hash was known.
-/

namespace SeekServe

set_option autoImplicit false

structure OfflineWorld (τ : Type) where
  engine : SeekServeEngine
  /-- The files whose data is completely present. -/
  disk : Finset (τ × Int)
  posted : List (InfoHash × Int)

inductive OfflineEvent where
  /-- Anything that happens to the engine but the delivery of a `file_completed` alert. -/
  | call (ev : Event) (h : ∀ ih fi, ev.op ≠ .fileCompleted ih fi)
  | dataComplete (ih : InfoHash) (fi : Int)
  | deliver (env : Env)

namespace OfflineWorld

/-- The id under which a torrent is removed with its files. -/
def deletedTorrent (e : SeekServeEngine) : Op → Option TorrentId
  | .removeTorrent id true => if e.sessions.hasTorrent id then some id else none
  | _ => none

section World
variable {τ : Type} [DecidableEq τ] (torrentOf : TorrentId → τ)

/-- libtorrent deletes all files of the torrent, whatever ids it has had. -/
def diskAfter (w : OfflineWorld τ) (op : Op) : Finset (τ × Int) :=
  match deletedTorrent w.engine op with
  | some id => w.disk.filter fun pair => pair.1 ≠ torrentOf id
  | none => w.disk

/-- The alerts of a session that is destroyed are lost. -/
def postedAfter (w : OfflineWorld τ) : Op → List (InfoHash × Int)
  | .restart => []
  | _ => w.posted

def step (w : OfflineWorld τ) : OfflineEvent → OfflineWorld τ
  | .call ev _ =>
    { engine := (w.engine.step ev).2
      disk := w.diskAfter torrentOf ev.op
      posted := w.postedAfter ev.op }
  | .dataComplete ih fi =>
    { w with
      disk := insert (torrentOf (infohashToHex ih), fi) w.disk
      posted := w.posted ++ [(ih, fi)] }
  | .deliver env =>
    match w.posted with
    | [] => w
    | (ih, fi) :: rest =>
      { w with
        engine := (w.engine.step ⟨env, .fileCompleted ih fi⟩).2
        posted := rest }

def machine : Runs.Machine (OfflineWorld τ) OfflineEvent Unit :=
  ⟨fun w ev => ((), w.step torrentOf ev)⟩

def start (env : Env) (config : Config) (disk : Finset (τ × Int)) : OfflineWorld τ :=
  ⟨.create env config .empty, disk, []⟩

def ready (w : OfflineWorld τ) (id : TorrentId) (fi : Int) : Bool :=
  w.engine.cache.isOfflineReady id fi

def ReadyOnDisk (w : OfflineWorld τ) : Prop :=
  ∀ id fi, w.ready id fi = true → (torrentOf id, fi) ∈ w.disk

/-- No files are deleted of a torrent that has a ready file under any of its ids, and no alert is
handled, for a file that has a row, after the file is gone. -/
def LosesNoReady (w : OfflineWorld τ) : OfflineEvent → Prop
  | .call ev _ => ∀ id, deletedTorrent w.engine ev.op = some id →
      ∀ id' fi, torrentOf id' = torrentOf id → w.ready id' fi = false
  | .dataComplete _ _ => True
  | .deliver _ => ∀ ih fi rest, w.posted = (ih, fi) :: rest →
      (w.engine.cache.cacheEntries.lookup (infohashToHex ih, fi)).isSome = true →
        (torrentOf (infohashToHex ih), fi) ∈ w.disk

variable {torrentOf} {w : OfflineWorld τ}

theorem ready_call {ev : Event} (h : ∀ ih fi, ev.op ≠ .fileCompleted ih fi)
    (id : TorrentId) (fi : Int) :
    (w.step torrentOf (.call ev h)).ready id fi = w.ready id fi := by
  unfold ready
  rcases w.engine.rows_step ev with ⟨id', ti, files, _, _, _, hcache⟩ | ⟨ih, fi', hop, _⟩ |
    ⟨_, _, hkept⟩
  · have hstep : (w.step torrentOf (.call ev h)).engine.cache =
        w.engine.cache.onTorrentAdded ev.env.now id' files := hcache
    rw [hstep]
    exact OfflineCacheManager.ready_foldl_addRow ev.env.now id' files _ (id, fi)
  · exact absurd hop (h ih fi')
  · exact hkept.ready id fi

theorem mem_diskAfter {op : Op} {pair : τ × Int} :
    pair ∈ w.diskAfter torrentOf op ↔
      pair ∈ w.disk ∧ ∀ id, deletedTorrent w.engine op = some id → pair.1 ≠ torrentOf id := by
  unfold diskAfter
  cases deletedTorrent w.engine op with
  | none => simp
  | some id => simp

theorem readyOnDisk_call_iff (hw : w.ReadyOnDisk torrentOf) {ev : Event}
    (h : ∀ ih fi, ev.op ≠ .fileCompleted ih fi) :
    (w.step torrentOf (.call ev h)).ReadyOnDisk torrentOf ↔
      w.LosesNoReady torrentOf (.call ev h) := by
  have hdisk : (w.step torrentOf (.call ev h)).disk = w.diskAfter torrentOf ev.op := rfl
  unfold ReadyOnDisk
  rw [hdisk]
  constructor
  · intro hall id hdel id' fi hsame
    cases hready : w.ready id' fi with
    | false => rfl
    | true =>
      have hmem := hall id' fi ((ready_call h id' fi).trans hready)
      exact absurd hsame ((mem_diskAfter.mp hmem).2 id hdel)
  · intro hloses id' fi hready
    rw [ready_call h id' fi] at hready
    refine mem_diskAfter.mpr ⟨hw id' fi hready, ?_⟩
    intro id hdel hsame
    rw [hloses id hdel id' fi hsame] at hready
    cases hready

theorem readyOnDisk_deliver_iff (hw : w.ReadyOnDisk torrentOf) (env : Env) :
    (w.step torrentOf (.deliver env)).ReadyOnDisk torrentOf ↔
      w.LosesNoReady torrentOf (.deliver env) := by
  unfold LosesNoReady
  cases hposted : w.posted with
  | nil =>
    have hstep : w.step torrentOf (.deliver env) = w := by simp only [step, hposted]
    rw [hstep]
    exact ⟨fun _ ih fi rest h => absurd h (by simp), fun _ => hw⟩
  | cons alert rest =>
    obtain ⟨ih, fi⟩ := alert
    have hready : ∀ id' fi', (w.step torrentOf (.deliver env)).ready id' fi' = true ↔
        (id', fi') = (infohashToHex ih, fi) ∧
            (w.engine.cache.cacheEntries.lookup (infohashToHex ih, fi)).isSome = true ∨
          w.ready id' fi' = true := by
      intro id' fi'
      have hstep : (w.step torrentOf (.deliver env)).engine.cache =
          w.engine.cache.onFileCompleted env.now (infohashToHex ih) fi := by
        simp only [step, hposted]
        rfl
      unfold ready
      rw [hstep]
      exact OfflineCacheManager.isOfflineReady_onFileCompleted _ _ _ _ _ _
    have hdisk : (w.step torrentOf (.deliver env)).disk = w.disk := by simp only [step, hposted]
    unfold ReadyOnDisk
    rw [hdisk]
    constructor
    · intro hall ih' fi' rest' heq hrow
      cases heq
      exact hall _ _ ((hready _ _).mpr (Or.inl ⟨rfl, hrow⟩))
    · intro hloses id' fi' h
      rcases (hready id' fi').mp h with ⟨hkey, hrow⟩ | hold
      · obtain ⟨rfl, rfl⟩ := Prod.mk.inj hkey
        exact hloses ih fi' rest rfl hrow
      · exact hw id' fi' hold

theorem readyOnDisk_step_iff (hw : w.ReadyOnDisk torrentOf) (ev : OfflineEvent) :
    (w.step torrentOf ev).ReadyOnDisk torrentOf ↔ w.LosesNoReady torrentOf ev := by
  cases ev with
  | call ev h => exact readyOnDisk_call_iff hw h
  | dataComplete ih fi =>
    refine ⟨fun _ => trivial, fun _ => ?_⟩
    intro id fi' hready
    exact Finset.mem_insert_of_mem (hw id fi' hready)
  | deliver env => exact readyOnDisk_deliver_iff hw env

end World

/-- The ready files are on disk throughout a run exactly when no step of it loses one. -/
theorem ready_files_on_disk_iff {τ : Type} [DecidableEq τ] (torrentOf : TorrentId → τ) (env : Env)
    (config : Config) (disk : Finset (τ × Int)) (evs : List OfflineEvent) :
    (machine torrentOf).Always (ReadyOnDisk torrentOf) (start env config disk) evs ↔
      (machine torrentOf).EachStep (LosesNoReady torrentOf) (start env config disk) evs := by
  apply Runs.Machine.always_iff_eachStep (machine torrentOf) (fun _ => True)
    (ReadyOnDisk torrentOf) (LosesNoReady torrentOf) (fun _ => True)
  · intro w ev _ _
    trivial
  · intro w ev _ _ hw
    exact readyOnDisk_step_iff hw ev
  · trivial
  · intro id fi hready
    have hempty := (SeekServeEngine.keepsFiles_restart env
      (SeekServeEngine.fresh config .empty)).ready id fi
    have hnot : (start env config disk).ready id fi = false := hempty
    rw [hnot] at hready
    cases hready
  · intro ev _
    trivial

/-- A torrent of one file is downloaded, and then removed with its files. -/
def downloadThenDelete : List OfflineEvent :=
  [.call ⟨sampleEnv, .addTorrent "a.torrent".toList []⟩ (by simp),
    .call ⟨sampleEnv, .metadataReceived (sampleHash 1) sampleInfo⟩ (by simp),
    .dataComplete (sampleHash 1) 0, .deliver sampleEnv,
    .call ⟨sampleEnv, .removeTorrent (sampleId 1) true⟩ (by simp)]

theorem deleted_file_stays_ready :
    ((machine id).run (start sampleEnv {} ∅) downloadThenDelete).ready (sampleId 1) 0 = true ∧
      (sampleId 1, 0) ∉ ((machine id).run (start sampleEnv {} ∅) downloadThenDelete).disk := by
  decide

end OfflineWorld

end SeekServe
