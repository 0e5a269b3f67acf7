import SeekServe.EngineRuns

/-!
# A removal among alert handlers and selections

`remove_torrent(id)` in one thread, and in others the metadata handlers and `select_file`
calls for the same torrent. A call into a component of the engine, or a block under its mutex,
is one step.
-/

namespace SeekServe.RemovalRace

set_option autoImplicit false

/-- What `remove_torrent` has done. -/
inductive Remover where
  | start
  | unlisted
  | dropped
  | erased
  | forgotten
  | finished
  deriving DecidableEq, Repr

def Remover.hasDropped : Remover → Bool
  | .start | .unlisted => false
  | .dropped | .erased | .forgotten | .finished => true

def Remover.hasErased : Remover → Bool
  | .start | .unlisted | .dropped => false
  | .erased | .forgotten | .finished => true

def Remover.hasForgotten : Remover → Bool
  | .start | .unlisted | .dropped | .erased => false
  | .forgotten | .finished => true

/-- What another thread does next, with its local variables. -/
inductive Late where
  | guard (env : Env) (ti : TorrentInfo)
  | insert (env : Env) (ti : TorrentInfo)
  | list (env : Env)
  | record (env : Env) (files : List FileInfo)
  | validate (env : Env) (fi : Int)
  | select (env : Env) (fi : Int) (handle : TorrentHandle)
  | readOld (env : Env) (fi : Int) (handle : TorrentHandle)
  | dropOld (env : Env) (fi : Int) (handle : TorrentHandle) (oldFi : Int)
  | readInfo (env : Env) (fi : Int) (handle : TorrentHandle)
  | readFile (env : Env) (fi : Int) (handle : TorrentHandle) (ti : TorrentInfo)
  | register (handle : TorrentHandle) (state : TorrentState) (path : CxxString)
  | setCallback (handle : TorrentHandle) (state : TorrentState)
  | publish (state : TorrentState)
  | finished

structure State where
  engine : SeekServeEngine
  remover : Remover
  threads : List Late

inductive Action where
  | remove
  | step (thread : Nat)
  deriving DecidableEq, Repr

section
variable (id : TorrentId)

def removeStep (e : SeekServeEngine) : Remover → Option (SeekServeEngine × Remover)
  | .start => some ({ e with cache := e.cache.removeTorrentUri id }, .unlisted)
  | .unlisted => some (e.dropSources id, .dropped)
  | .dropped =>
    some
      ({ e with
          removedIds := id :: e.removedIds
          states := AList.erase id e.states }, .erased)
  | .erased => some ({ e with catalog := e.catalog.remove id }, .forgotten)
  | .forgotten => some ({ e with sessions := (e.sessions.removeTorrent id).2 }, .finished)
  | .finished => none

def lateStep (e : SeekServeEngine) : Late → Option (SeekServeEngine × Late)
  | .guard env ti => some (e, if e.removedIds.contains id then .finished else .insert env ti)
  | .insert env ti => some ({ e with catalog := e.catalog.onMetadataReceived id ti }, .list env)
  | .list env =>
    some (e,
      match e.catalog.listFiles id with
      | .ok files => .record env files
      | .error _ => .finished)
  | .record env files =>
    some ({ e with cache := e.cache.onTorrentAdded env.now id files }, .finished)
  | .validate env fi =>
    some (e,
      match e.sessions.getHandle id with
      | some handle => .select env fi handle
      | none => .finished)
  | .select env fi handle =>
    match e.catalog.selectFile id fi with
    | (.ok (), catalog) => some ({ e with catalog := catalog }, .readOld env fi handle)
    | (.error _, catalog) => some ({ e with catalog := catalog }, .finished)
  | .readOld env fi handle =>
    some (e,
      match e.states.lookup id with
      | some old =>
        if old.selectedFile ≥ 0 then .dropOld env fi handle old.selectedFile
        else .readInfo env fi handle
      | none => .readInfo env fi handle)
  | .dropOld env fi handle oldFi =>
    match e.httpServer with
    | some server =>
      let (server, cancelled) := server.removeByteSource id oldFi
      some ({ e with httpServer := some server, cancelled := cancelled ++ e.cancelled },
        .readInfo env fi handle)
    | none => some (e, .readInfo env fi handle)
  | .readInfo env fi handle =>
    some (e,
      match e.catalog.torrentInfo id with
      | some ti => .readFile env fi handle ti
      | none => .finished)
  | .readFile env fi handle ti =>
    -- `value()` of an error throws
    match e.catalog.getFile id fi with
    | .ok file =>
      some ({ e with nextAddr := e.nextAddr + 2 },
        .register handle (e.newState env id fi handle ti) file.path)
    | .error _ => some (e, .finished)
  | .register handle state path =>
    some
      ({ e with
          httpServer := e.httpServer.map fun server =>
            server.setByteSource state.source id state.selectedFile path },
        .setCallback handle state)
  | .setCallback handle state =>
    some
      ({ e with
          httpServer := e.httpServer.map fun server =>
            server.setRangeCallback ⟨state.scheduler, handle⟩ }, .publish state)
  | .publish state => some ({ e with states := AList.insert id state e.states }, .finished)
  | .finished => none

def next (s : State) : Action → Option State
  | .remove =>
    (removeStep id s.engine s.remover).map fun r => { s with engine := r.1, remover := r.2 }
  | .step i =>
    match s.threads[i]? with
    | none => none
    | some pc =>
      (lateStep id s.engine pc).map fun r =>
        { s with engine := r.1, threads := s.threads.set i r.2 }

def system : Runs.System State Action := ⟨next id⟩

def initial (e : SeekServeEngine) (threads : List Late) : State := ⟨e, .start, threads⟩

/-- Without another thread the steps of the removal are `remove_torrent`. -/
theorem remover_alone (e : SeekServeEngine) (threads : List Late) :
    (system id).exec (initial e threads) (List.replicate 5 .remove) =
      some ⟨(e.removeTorrent id).2, .finished, threads⟩ := rfl

/-- The steps of one other thread, with no removal going on. -/
theorem exec_step {e e' : SeekServeEngine} {pc pc' : Late} {n : Nat} {s : State}
    (h : lateStep id e pc = some (e', pc'))
    (hs : (system id).exec (initial e' [pc']) (List.replicate n (.step 0)) = some s) :
    (system id).exec (initial e [pc]) (List.replicate (n + 1) (.step 0)) = some s := by
  refine (Runs.System.exec_cons_iff _).mpr ⟨initial e' [pc'], ?_, hs⟩
  simp [system, next, initial, h]

theorem handler_alone (env : Env) (e : SeekServeEngine) (ih : InfoHash) (ti : TorrentInfo) :
    ∃ n, (system (infohashToHex ih)).exec (initial e [.guard env ti])
      (List.replicate n (.step 0)) =
        some (initial (e.onMetadataReceived env ih ti) [.finished]) := by
  unfold SeekServeEngine.onMetadataReceived
  generalize infohashToHex ih = id
  by_cases hremoved : id ∈ e.removedIds
  · have hguard : lateStep id e (.guard env ti) = some (e, .finished) := by
      simp [lateStep, hremoved]
    refine ⟨1, exec_step id hguard ?_⟩
    simp [hremoved]
  · have hguard : lateStep id e (.guard env ti) = some (e, .insert env ti) := by
      simp [lateStep, hremoved]
    have hlist : lateStep id { e with catalog := e.catalog.onMetadataReceived id ti } (.list env) =
        some ({ e with catalog := e.catalog.onMetadataReceived id ti },
          match (e.catalog.onMetadataReceived id ti).listFiles id with
          | .ok files => .record env files
          | .error _ => .finished) := rfl
    simp only [hremoved, if_false]
    split
    · rename_i files hfiles
      rw [hfiles] at hlist
      exact ⟨4, exec_step id hguard (exec_step id rfl (exec_step id hlist (exec_step id rfl rfl)))⟩
    · rename_i err hfiles
      rw [hfiles] at hlist
      exact ⟨3, exec_step id hguard (exec_step id rfl (exec_step id hlist rfl))⟩

theorem getFile_of_selectFile {c c' : MetadataCatalog} {fi : Int}
    (h : c.selectFile id fi = (.ok (), c')) : ∃ file, c'.getFile id fi = .ok file := by
  unfold MetadataCatalog.selectFile at h
  split at h
  · cases h
  · rename_i entry hentry
    split at h
    · cases h
    · rename_i file hfile
      cases h
      refine ⟨file, ?_⟩
      simp only [MetadataCatalog.getFile, AList.lookup_insert]
      exact hfile

theorem publish_alone (env : Env) {e : SeekServeEngine} {fi : Int} {file : FileInfo}
    (handle : TorrentHandle) (ti : TorrentInfo) (hfile : e.catalog.getFile id fi = .ok file) :
    (system id).exec (initial e [.readFile env fi handle ti]) (List.replicate 4 (.step 0)) =
      some (initial (e.publish id handle (e.newState env id fi handle ti)) [.finished]) := by
  have hread : lateStep id e (.readFile env fi handle ti) =
      some ({ e with nextAddr := e.nextAddr + 2 },
        .register handle (e.newState env id fi handle ti) file.path) := by
    simp [lateStep, hfile]
  have hpublish : e.publish id handle (e.newState env id fi handle ti) =
      { e with
        nextAddr := e.nextAddr + 2
        httpServer := (e.httpServer.map fun server =>
          server.setByteSource (e.newState env id fi handle ti).source id fi file.path).map
            fun server =>
              server.setRangeCallback ⟨(e.newState env id fi handle ti).scheduler, handle⟩
        states := AList.insert id (e.newState env id fi handle ti) e.states } := by
    have hsel : (e.newState env id fi handle ti).selectedFile = fi := rfl
    simp only [SeekServeEngine.publish, hsel, hfile, Option.map_map]
    rfl
  rw [hpublish]
  exact exec_step id hread (exec_step id rfl (exec_step id rfl (exec_step id rfl rfl)))

theorem dropPrevious_alone (env : Env) (e : SeekServeEngine) (fi : Int) (handle : TorrentHandle)
    {n : Nat} {s : State}
    (hs : (system id).exec (initial (e.dropPreviousSource id) [.readInfo env fi handle])
      (List.replicate n (.step 0)) = some s) :
    ∃ m, (system id).exec (initial e [.readOld env fi handle]) (List.replicate m (.step 0)) =
      some s := by
  unfold SeekServeEngine.dropPreviousSource at hs
  cases hold : e.states.lookup id with
  | none =>
    have hread : lateStep id e (.readOld env fi handle) = some (e, .readInfo env fi handle) := by
      simp [lateStep, hold]
    rw [hold] at hs
    exact ⟨n + 1, exec_step id hread hs⟩
  | some old =>
    rw [hold] at hs
    by_cases hsel : old.selectedFile ≥ 0
    · have hread : lateStep id e (.readOld env fi handle) =
          some (e, .dropOld env fi handle old.selectedFile) := by
        simp [lateStep, hold, hsel]
      refine ⟨n + 2, exec_step id hread ?_⟩
      cases hserver : e.httpServer with
      | none =>
        rw [hserver] at hs
        exact exec_step id (by simp [lateStep, hserver]) hs
      | some server =>
        rw [hserver] at hs
        simp only [hsel, if_true] at hs
        exact exec_step id (by simp [lateStep, hserver]) hs
    · have hread : lateStep id e (.readOld env fi handle) =
          some (e, .readInfo env fi handle) := by
        simp [lateStep, hold, hsel]
      refine ⟨n + 1, exec_step id hread ?_⟩
      cases hserver : e.httpServer with
      | none =>
        rw [hserver] at hs
        exact hs
      | some server =>
        rw [hserver] at hs
        simp only [hsel, if_false] at hs
        exact hs

theorem readInfo_alone (env : Env) {e : SeekServeEngine} {fi : Int} {file : FileInfo}
    (handle : TorrentHandle) (hfile : e.catalog.getFile id fi = .ok file) :
    ∃ n, (system id).exec (initial e [.readInfo env fi handle]) (List.replicate n (.step 0)) =
      some (initial (match e.catalog.torrentInfo id with
        | none => (Except.error Errc.metadataNotReady, e)
        | some ti => (.ok (), e.publish id handle (e.newState env id fi handle ti))).2
          [.finished]) := by
  cases hti : e.catalog.torrentInfo id with
  | none =>
    have hread : lateStep id e (.readInfo env fi handle) = some (e, .finished) := by
      simp [lateStep, hti]
    exact ⟨1, exec_step id hread rfl⟩
  | some ti =>
    have hread : lateStep id e (.readInfo env fi handle) =
        some (e, .readFile env fi handle ti) := by
      simp [lateStep, hti]
    exact ⟨5, exec_step id hread (publish_alone id env handle ti hfile)⟩

/-- Without a removal the steps of a selection are `select_file`. -/
theorem selector_alone (env : Env) (e : SeekServeEngine) (fi : Int) :
    ∃ n, (system id).exec (initial e [.validate env fi]) (List.replicate n (.step 0)) =
      some (initial (e.selectFile env id fi).2 [.finished]) := by
  unfold SeekServeEngine.selectFile
  cases hhandle : e.sessions.getHandle id with
  | none =>
    have hvalidate : lateStep id e (.validate env fi) = some (e, .finished) := by
      simp [lateStep, hhandle]
    exact ⟨1, exec_step id hvalidate rfl⟩
  | some handle =>
    have hvalidate : lateStep id e (.validate env fi) = some (e, .select env fi handle) := by
      simp [lateStep, hhandle]
    simp only
    split
    · rename_i err catalog hsel
      have hselect : lateStep id e (.select env fi handle) =
          some ({ e with catalog := catalog }, .finished) := by
        simp [lateStep, hsel]
      exact ⟨2, exec_step id hvalidate (exec_step id hselect rfl)⟩
    · rename_i catalog hsel
      have hselect : lateStep id e (.select env fi handle) =
          some ({ e with catalog := catalog }, .readOld env fi handle) := by
        simp [lateStep, hsel]
      obtain ⟨file, hfile⟩ := getFile_of_selectFile id hsel
      have hkept := ({ e with catalog := catalog } : SeekServeEngine).catalog_dropPreviousSource id
      obtain ⟨n, hn⟩ := readInfo_alone id env handle
        ((congrArg (fun c => MetadataCatalog.getFile c id fi) hkept).trans hfile)
      obtain ⟨m, hm⟩ := dropPrevious_alone id env { e with catalog := catalog } fi handle hn
      exact ⟨m + 2, exec_step id hvalidate (exec_step id hselect hm)⟩

/-- The step enters the torrent into the catalog. -/
def Late.inserts : Late → Bool
  | .insert _ _ => true
  | _ => false

/-- The step stores a torrent state. -/
def Late.publishes : Late → Bool
  | .publish _ => true
  | _ => false

/-- The step puts a source into the server's map. -/
def Late.registers : Late → Bool
  | .register _ _ _ => true
  | _ => false

def Known (e : SeekServeEngine) : Prop := e.catalog.hasMetadata id = true

def Held (e : SeekServeEngine) : Prop := (e.states.lookup id).isSome = true

def Registered (e : SeekServeEngine) : Prop :=
  ∃ server fi, e.httpServer = some server ∧ (server.registered id fi).isSome = true

/-- Nothing of the torrent is left. -/
structure Gone (e : SeekServeEngine) : Prop where
  catalog : ¬Known id e
  states : ¬Held id e
  sources : ¬Registered id e

/-- What the removal has taken away has not come back. -/
structure Cleared (s : State) : Prop where
  sources : s.remover.hasDropped = true → ¬Registered id s.engine
  states : s.remover.hasErased = true → ¬Held id s.engine
  catalog : s.remover.hasForgotten = true → ¬Known id s.engine

/-- No thread brings back what the removal has taken away. -/
def InTime (s : State) : Action → Prop
  | .remove => True
  | .step i =>
    ∀ pc, s.threads[i]? = some pc →
      (pc.registers = true → s.remover.hasDropped = true → s.engine.httpServer = none) ∧
      (pc.publishes = true → s.remover.hasErased = false) ∧
      (pc.inserts = true → s.remover.hasForgotten = false)

theorem known_lateStep {e e' : SeekServeEngine} {pc pc' : Late}
    (h : lateStep id e pc = some (e', pc')) : Known id e' ↔ pc.inserts = true ∨ Known id e := by
  cases pc with
  | insert env ti =>
    cases h
    simp [Known, Late.inserts, MetadataCatalog.hasMetadata_onMetadataReceived]
  | select env fi handle =>
    have hkept := e.catalog.hasMetadata_selectFile id fi id
    simp only [lateStep] at h
    split at h
    · rename_i catalog hsel
      cases h
      rw [hsel] at hkept
      simp [Known, Late.inserts, hkept]
    · rename_i catalog hsel
      cases h
      rw [hsel] at hkept
      simp [Known, Late.inserts, hkept]
  | dropOld env fi handle oldFi =>
    simp only [lateStep] at h
    split at h <;> cases h <;> simp [Known, Late.inserts]
  | readFile env fi handle ti =>
    simp only [lateStep] at h
    split at h <;> cases h <;> simp [Known, Late.inserts]
  | finished => cases h
  | guard | list | record | validate | readOld | readInfo | register | setCallback | publish =>
    cases h
    simp [Known, Late.inserts]

theorem held_lateStep {e e' : SeekServeEngine} {pc pc' : Late}
    (h : lateStep id e pc = some (e', pc')) : Held id e' ↔ pc.publishes = true ∨ Held id e := by
  cases pc with
  | publish state =>
    cases h
    simp [Held, Late.publishes]
  | select env fi handle =>
    simp only [lateStep] at h
    split at h <;> cases h <;> simp [Held, Late.publishes]
  | dropOld env fi handle oldFi =>
    simp only [lateStep] at h
    split at h <;> cases h <;> simp [Held, Late.publishes]
  | readFile env fi handle ti =>
    simp only [lateStep] at h
    split at h <;> cases h <;> simp [Held, Late.publishes]
  | finished => cases h
  | guard | insert | list | record | validate | readOld | readInfo | register | setCallback =>
    cases h
    simp [Held, Late.publishes]

/-- Only the registration of a source brings one into the server's map. -/
theorem registered_of_lateStep {e e' : SeekServeEngine} {pc pc' : Late}
    (h : lateStep id e pc = some (e', pc')) (hr : Registered id e') :
    pc.registers = true ∧ e.httpServer ≠ none ∨ Registered id e := by
  obtain ⟨server, fi, hserver, hreg⟩ := hr
  cases pc with
  | register handle state path =>
    cases h
    obtain ⟨old, hold, _⟩ := Option.map_eq_some_iff.mp hserver
    exact Or.inl ⟨rfl, by simp [hold]⟩
  | setCallback handle state =>
    cases h
    obtain ⟨old, hold, rfl⟩ := Option.map_eq_some_iff.mp hserver
    exact Or.inr ⟨old, fi, hold, hreg⟩
  | dropOld env fi' handle oldFi =>
    simp only [lateStep] at h
    split at h
    · rename_i old hold
      cases h
      cases hserver
      rw [HttpRangeServer.registered_removeByteSource] at hreg
      split at hreg
      · cases hreg
      · exact Or.inr ⟨old, fi, hold, hreg⟩
    · cases h
      exact Or.inr ⟨server, fi, hserver, hreg⟩
  | select env fi' handle | readFile env fi' handle ti =>
    simp only [lateStep] at h
    split at h <;> cases h <;> exact Or.inr ⟨server, fi, hserver, hreg⟩
  | finished => cases h
  | guard | insert | list | record | validate | readOld | readInfo | publish =>
    cases h
    exact Or.inr ⟨server, fi, hserver, hreg⟩

theorem registered_register {e e' : SeekServeEngine} {pc pc' : Late}
    (h : lateStep id e pc = some (e', pc')) (hpc : pc.registers = true)
    (hserver : e.httpServer ≠ none) : Registered id e' := by
  cases pc with
  | register handle state path =>
    cases h
    obtain ⟨server, hs⟩ := Option.ne_none_iff_exists'.mp hserver
    refine ⟨_, state.selectedFile, Option.map_eq_some_iff.mpr ⟨server, hs, rfl⟩, ?_⟩
    simp [HttpRangeServer.registered_setByteSource]
  | _ => cases hpc

theorem not_registered_dropSources (e : SeekServeEngine) : ¬Registered id (e.dropSources id) := by
  rintro ⟨server, fi, hserver, hreg⟩
  unfold SeekServeEngine.dropSources at hserver
  split at hserver
  · rename_i hnone
    rw [hnone] at hserver
    cases hserver
  · rename_i old _
    cases hserver
    have hnone := old.registered_removeByteSourcesForTorrent id id fi
    rw [if_pos rfl] at hnone
    have hsome : ((old.removeByteSourcesForTorrent id).1.registered id fi).isSome = true := hreg
    rw [hnone] at hsome
    cases hsome

/-- A step of the removal takes away what it is for, and brings nothing back. -/
theorem cleared_remove {s s' : State} (h : Cleared id s)
    (hn : next id s .remove = some s') : Cleared id s' := by
  obtain ⟨⟨e, remover⟩, hstep, rfl⟩ := Option.map_eq_some_iff.mp hn
  obtain ⟨hsources, hstates, hcatalog⟩ := h
  cases hpc : s.remover with
  | start =>
    rw [hpc] at hstep
    cases hstep
    constructor <;> intro hd <;> cases hd
  | unlisted =>
    rw [hpc] at hstep
    cases hstep
    refine ⟨fun _ => not_registered_dropSources id s.engine, ?_, ?_⟩ <;> intro hd <;> cases hd
  | dropped =>
    rw [hpc] at hstep hsources
    cases hstep
    refine ⟨fun _ => hsources rfl, fun _ => ?_, ?_⟩
    · simp [Held]
    · intro hd
      cases hd
  | erased =>
    rw [hpc] at hstep hsources hstates
    cases hstep
    refine ⟨fun _ => hsources rfl, fun _ => hstates rfl, fun _ => ?_⟩
    simp [Known, MetadataCatalog.hasMetadata_remove]
  | forgotten =>
    rw [hpc] at hstep hsources hstates hcatalog
    cases hstep
    exact ⟨fun _ => hsources rfl, fun _ => hstates rfl, fun _ => hcatalog rfl⟩
  | finished =>
    rw [hpc] at hstep
    cases hstep

theorem cleared_step_iff {s s' : State} {i : Nat} (h : Cleared id s)
    (hn : next id s (.step i) = some s') : Cleared id s' ↔ InTime s (.step i) := by
  simp only [next] at hn
  cases hpc : s.threads[i]? with
  | none =>
    rw [hpc] at hn
    cases hn
  | some pc =>
    rw [hpc] at hn
    obtain ⟨⟨e, pc'⟩, hstep, rfl⟩ := Option.map_eq_some_iff.mp hn
    have hknown := known_lateStep id hstep
    have hheld := held_lateStep id hstep
    constructor
    · rintro ⟨hsources, hstates, hcatalog⟩ pc₂ hpc₂
      cases hpc.symm.trans hpc₂
      refine ⟨?_, ?_, ?_⟩
      · intro hr hd
        by_contra hserver
        exact hsources hd (registered_register id hstep hr hserver)
      · intro hp
        cases he : s.remover.hasErased with
        | false => rfl
        | true => exact absurd (hheld.mpr (Or.inl hp)) (hstates he)
      · intro hi
        cases hf : s.remover.hasForgotten with
        | false => rfl
        | true => exact absurd (hknown.mpr (Or.inl hi)) (hcatalog hf)
    · intro hin
      obtain ⟨hreg, hpub, hins⟩ := hin pc hpc
      constructor
      · intro hd hr
        rcases registered_of_lateStep id hstep hr with ⟨hpc', hserver⟩ | hold
        · exact hserver (hreg hpc' hd)
        · exact h.sources hd hold
      · intro he hh
        rcases hheld.mp hh with hp | hold
        · exact absurd he (by simp [hpub hp])
        · exact h.states he hold
      · intro hf hk
        rcases hknown.mp hk with hi | hold
        · exact absurd hf (by simp [hins hi])
        · exact h.catalog hf hold

theorem cleared_next_iff {s s' : State} {a : Action} (h : Cleared id s)
    (hn : next id s a = some s') : Cleared id s' ↔ InTime s a := by
  cases a with
  | remove => exact ⟨fun _ => trivial, fun _ => cleared_remove id h hn⟩
  | step i => exact cleared_step_iff id h hn

theorem cleared_initial (e : SeekServeEngine) (threads : List Late) :
    Cleared id (initial e threads) := by
  constructor <;> intro h <;> cases h

theorem inTime_of_start {s : State} (h : s.remover = .start) (a : Action) : InTime s a := by
  cases a with
  | remove => trivial
  | step i =>
    intro pc _
    rw [h]
    exact ⟨fun _ hd => (by cases hd), fun _ => rfl, fun _ => rfl⟩

theorem inTime_removes (s : State) (n : Nat) :
    (system id).EachStep InTime s (List.replicate n .remove) := by
  refine .of_forall _ ?_ s
  intro a ha u
  rw [List.eq_of_mem_replicate ha]
  trivial

theorem remover_step {s s' : State} {i : Nat} (h : next id s (.step i) = some s') :
    s'.remover = s.remover := by
  unfold next at h
  simp only at h
  split at h
  · cases h
  · obtain ⟨r, _, rfl⟩ := Option.map_eq_some_iff.mp h
    rfl

/-- The other threads are in time as long as the removal has not started. -/
theorem inTime_before_removal {s : State} (h : s.remover = .start) (steps : List Nat) (n : Nat) :
    (system id).EachStep InTime s (steps.map .step ++ List.replicate n .remove) := by
  induction steps generalizing s with
  | nil => exact inTime_removes id s n
  | cons i steps ih =>
    refine .cons _ (inTime_of_start h _) fun s' hs' => ?_
    exact ih ((remover_step id hs').trans h)

/-- Nothing of the torrent comes back exactly when every late step is in time, and then
nothing is left of it once the removal has finished. -/
theorem removal_is_final_iff (e : SeekServeEngine) (threads : List Late) {acts : List Action}
    {s : State} (hs : (system id).exec (initial e threads) acts = some s) :
    ((system id).Always (Cleared id) (initial e threads) acts ↔
        (system id).EachStep InTime (initial e threads) acts) ∧
      ((system id).EachStep InTime (initial e threads) acts →
        s.remover = .finished → Gone id s.engine) := by
  have hiff : (system id).Always (Cleared id) (initial e threads) acts ↔
      (system id).EachStep InTime (initial e threads) acts := by
    refine Runs.System.always_iff_eachStep _ (fun _ => True) (Cleared id) InTime ?_ ?_ trivial
      (cleared_initial id e threads) hs
    · intro u a u' _ _
      trivial
    · intro u a u' _ hu hn
      exact cleared_next_iff id hu hn
  refine ⟨hiff, ?_⟩
  intro hin hfinished
  have hcleared : Cleared id s := hiff.mpr hin acts s (List.prefix_refl acts) hs
  constructor
  · exact hcleared.catalog (by rw [hfinished]; rfl)
  · exact hcleared.states (by rw [hfinished]; rfl)
  · exact hcleared.sources (by rw [hfinished]; rfl)

end

section Samples

def oneTorrent : SeekServeEngine := sampleRun (addSample 1 "a.torrent".toList ++ [.startServer])

/-- The handler has announced the torrent before the removal starts. -/
theorem removal_is_final_iff_announced :
    Gone (sampleId 1)
      ((oneTorrent.onMetadataReceived sampleEnv (sampleHash 1) sampleInfo).removeTorrent
        (sampleId 1)).2 := by
  have hrun : (system (sampleId 1)).exec (initial oneTorrent [.guard sampleEnv sampleInfo])
      (.step 0 :: .step 0 :: .step 0 :: .step 0 :: List.replicate 5 .remove) =
        some ⟨((oneTorrent.onMetadataReceived sampleEnv (sampleHash 1) sampleInfo).removeTorrent
          (sampleId 1)).2, .finished, [.finished]⟩ := rfl
  have hfinal := (removal_is_final_iff (sampleId 1) oneTorrent _ hrun).2
  exact hfinal (inTime_before_removal _ rfl [0, 0, 0, 0] 5) rfl

/-- The handler has passed its guard and the selection is about to register its source when
the removal runs from its first step to its last. -/
def handlerAndSelection : List Action :=
  List.replicate 5 (.step 0) ++ [.step 1] ++ List.replicate 5 .remove ++
    List.replicate 3 (.step 0) ++ List.replicate 3 (.step 1)

def Late.isFinished : Late → Bool
  | .finished => true
  | _ => false

theorem removed_torrent_comes_back :
    ((system (sampleId 1)).exec
        (initial oneTorrent [.validate sampleEnv 0, .guard sampleEnv sampleInfo])
        handlerAndSelection).map
      (fun s =>
        (s.remover, s.threads.all Late.isFinished, s.engine.catalog.hasMetadata (sampleId 1),
          (s.engine.states.lookup (sampleId 1)).isSome,
          s.engine.httpServer.any fun server => (server.registered (sampleId 1) 0).isSome)) =
      some (.finished, true, true, true, true) := by decide

end Samples

end SeekServe.RemovalRace
