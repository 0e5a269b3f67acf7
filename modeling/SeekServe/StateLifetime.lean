import SeekServe.HttpConnection
import SeekServe.RemovalRace
import SeekServe.ServingRuns

/-!
# A connection while its torrent state goes away

A connection thread streams a file of one torrent, and a second thread calls `remove_torrent`
and `select_file` for that torrent. The mapper and the availability index that the source
refers to live in the `TorrentState`, which an erasure or a replacement destroys. The range
callback is left out.
-/

namespace SeekServe.StateLifetime

set_option autoImplicit false

open RemovalRace (Remover Late removeStep lateStep)

/-- The slice of the file that is streamed, if the response has a body from the file. -/
def bodySlice (req : HttpRequest) (fileSize : Int) : Option (Int × Int) :=
  match req.range with
  | none => if req.method = .head then none else some (0, fileSize)
  | some header =>
    match parseRangeHeader header fileSize with
    | none => none
    | some range =>
      if req.method = .head then none else some (range.start, range.stop - range.start + 1)

/-- Whether and what `serveEntry` streams. -/
theorem serveEntry_eq (s : HttpRangeServer) (io : ConnectionIo) (req : HttpRequest)
    (pt : ParsedTarget) (entry : SourceEntry) :
    ∃ notes header, s.serveEntry io req pt entry =
      notes ++ match bodySlice req entry.source.fileSize with
        | some (start, length) => streamBody io header start length
        | none => [.respond header] := by
  unfold HttpRangeServer.serveEntry bodySlice
  cases req.range with
  | none =>
    simp only [HttpRangeServer.serveWhole]
    by_cases hhead : req.method = .head
    · simp only [hhead, if_true]
      exact ⟨_, _, rfl⟩
    · simp only [hhead, if_false]
      exact ⟨_, _, rfl⟩
  | some rangeHeader =>
    simp only [HttpRangeServer.serveRange]
    cases parseRangeHeader rangeHeader entry.source.fileSize with
    | none => exact ⟨[], _, rfl⟩
    | some range =>
      by_cases hhead : req.method = .head
      · simp only [hhead, if_true]
        exact ⟨_, _, rfl⟩
      · simp only [hhead, if_false]
        exact ⟨_, _, rfl⟩

/-- Where the connection thread is, with its local variables. Inside `read` the mapping of the
range is a step between the first check of the flag and the wait. -/
inductive Conn where
  | lookup (req : HttpRequest) (fi : Int)
  | fileSize (req : HttpRequest) (src : ByteSource)
  | chunk (src : ByteSource) (offset remaining : Int)
  | mapping (src : ByteSource) (offset remaining : Int)
  | reading (src : ByteSource) (offset remaining : Int) (pc : ByteSource.Pc)
  | finished

def Conn.source : Conn → Option ByteSource
  | .lookup _ _ | .finished => none
  | .fileSize _ src | .chunk src _ _ | .mapping src _ _ | .reading src _ _ _ => some src

/-- The source whose mapper or index the next step of the connection uses. -/
def Conn.uses : Conn → Option Nat
  | .fileSize _ src | .mapping src _ _ | .reading src _ _ (.scan _ _) => some src.addr
  | .lookup _ _ | .chunk _ _ _ | .finished => none
  | .reading _ _ _ (.entry) | .reading _ _ _ (.predicate _) | .reading _ _ _ .asleep
  | .reading _ _ _ (.woken _) | .reading _ _ _ .reading | .reading _ _ _ (.done _) => none

/-- What the thread that calls the engine is doing. -/
inductive Op where
  | idle
  | removing (pc : Remover)
  | selecting (pc : Late)

def Op.ofRemover : Remover → Op
  | .finished => .idle
  | pc => .removing pc

def Op.ofLate : Late → Op
  | .finished => .idle
  | pc => .selecting pc

/-- The torrent state that a selection has made and not yet stored. -/
def Op.made : Op → Option TorrentState
  | .selecting (.register _ state _) | .selecting (.setCallback _ state)
  | .selecting (.publish state) => some state
  | _ => none

/-- The file of the previous selection, once a new one has read it. -/
def Op.previous : Op → Option Int
  | .selecting (.dropOld _ _ _ oldFi) => some oldFi
  | _ => none

structure World where
  engine : SeekServeEngine
  op : Op
  /-- the sources whose `TorrentState` has been destroyed -/
  freed : List Nat
  conn : Conn

inductive Action where
  | remove
  | select (env : Env) (fi : Int)
  | operate
  | pieceFinished (ih : InfoHash) (piece : Int)
  /-- `stale` is what freed memory holds -/
  | connect (stale : PieceAvailabilityIndex) (turn : ByteSource.Action)
  /-- the header or the last chunk could not be written -/
  | writeFails

section
variable (id : TorrentId)

/-- The source of the torrent state that the next step of the operation destroys. -/
def doomed (w : World) : Option Nat :=
  match w.op with
  | .removing .dropped | .selecting (.publish _) =>
    (w.engine.states.lookup id).map fun state => state.source.addr
  | _ => none

/-- The index that the source refers to. -/
def index (w : World) (src : ByteSource) (stale : PieceAvailabilityIndex) :
    PieceAvailabilityIndex :=
  let states := (w.engine.states.lookup id).toList ++ w.op.made.toList
  match states.find? fun state => state.source.addr = src.addr with
  | some state => state.avail
  | none => stale

def readState (w : World) (src : ByteSource) (stale : PieceAvailabilityIndex)
    (pc : ByteSource.Pc) : ByteSource.ReadState where
  avail := index id w src stale
  cancelled := decide (src.addr ∈ w.engine.cancelled)
  pc := pc

/-- Between the first check and the predicate lies the mapping of the range. -/
def resume (src : ByteSource) (offset remaining : Int) : ByteSource.Pc → ByteSource.Pc → Conn
  | .entry, .predicate _ => .mapping src offset remaining
  | _, pc => .reading src offset remaining pc

def connStep (w : World) (stale : PieceAvailabilityIndex) : Conn → ByteSource.Action → Option Conn
  | .lookup req fi, .step =>
    match w.engine.httpServer.bind fun server => server.registered id fi with
    | some entry => some (.fileSize req entry.source)
    | none => some .finished
  | .fileSize req src, .step =>
    match bodySlice req src.fileSize with
    | some (start, length) => some (.chunk src start length)
    | none => some .finished
  | .chunk src offset remaining, .step =>
    some (if remaining > 0 then .reading src offset remaining .entry else .finished)
  | .mapping src offset remaining, .step => some (.reading src offset remaining (.predicate false))
  | .reading src offset remaining (.done (.ok data)), .step =>
    let bytesRead : Int := data.length
    some (if bytesRead < min kChunkSize remaining then .finished
      else .chunk src (offset + bytesRead) (remaining - bytesRead))
  | .reading _ _ _ (.done (.error _)), .step => some .finished
  | .reading _ _ _ _, .outside _ => none
  | .reading src offset remaining pc, turn =>
    (src.next offset (min kChunkSize remaining) (readState id w src stale pc) turn).map
      fun s => resume src offset remaining pc s.pc
  | _, _ => none

def next (w : World) : Action → Option World
  | .remove =>
    match w.op with
    | .idle => some { w with op := .removing .start }
    | _ => none
  | .select env fi =>
    match w.op with
    | .idle => some { w with op := .selecting (.validate env fi) }
    | _ => none
  | .operate =>
    match w.op with
    | .idle => none
    | .removing pc =>
      (removeStep id w.engine pc).map fun r =>
        { w with
          engine := r.1
          op := .ofRemover r.2
          freed := (doomed id w).toList ++ w.freed }
    | .selecting pc =>
      (lateStep id w.engine pc).map fun r =>
        { w with
          engine := r.1
          op := .ofLate r.2
          freed := (doomed id w).toList ++ w.freed }
  | .pieceFinished ih piece => some { w with engine := w.engine.onPieceFinished ih piece }
  | .connect stale turn =>
    (connStep id w stale w.conn turn).map fun conn => { w with conn := conn }
  | .writeFails =>
    match w.conn with
    | .chunk _ _ _ => some { w with conn := .finished }
    | _ => none

def system : Runs.System World Action := ⟨next id⟩

/-- A connection has been accepted by an engine that has run before. -/
def start (env : Env) (config : Config) (cache : OfflineCacheManager) (evs : List Event)
    (req : HttpRequest) (fi : Int) : World where
  engine := SeekServeEngine.machine.run (.create env config cache) evs
  op := .idle
  freed := []
  conn := .lookup req fi

/-- The step of the connection uses no torrent state that is gone. -/
def UsesPresent (w : World) : Action → Prop
  | .connect _ _ => ∀ a, w.conn.uses = some a → a ∉ w.freed
  | _ => True

/-- Whenever the connection is about to use a torrent state, it is present. -/
def Safe (w : World) : Prop := ∀ a, w.conn.uses = some a → a ∉ w.freed

/-- The step destroys no torrent state that the connection is about to use. -/
def Spares (w : World) : Action → Prop
  | .operate => ∀ a, doomed id w = some a → w.conn.uses ≠ some a
  | _ => True

/-- The only source that can be registered is that of `own`. -/
def ServesOnly (v : Serving) (own : Option Held) : Prop :=
  ∀ fi entry, v.Registered id fi entry →
    ∃ held, own = some held ∧ held.selectedFile = fi ∧ held.source.addr = entry.source.addr

/-- The torrent state whose source may be registered, at each point of an operation. -/
def owner (v : Serving) : Op → Option Held
  | .idle | .removing .start | .removing .unlisted => v.held id
  | .selecting (.validate _ _) | .selecting (.select _ _ _) | .selecting (.readOld _ _ _)
  | .selecting (.dropOld _ _ _ _) => v.held id
  | .selecting (.setCallback _ state) | .selecting (.publish state) => some state.held
  | _ => none

/-- A state that is present, at an address given out before. -/
structure Lives (nextAddr : Nat) (freed : List Nat) (held : Held) : Prop where
  addr : held.source.addr < nextAddr
  file : 0 ≤ held.selectedFile
  present : held.source.addr ∉ freed

structure Inv (w : World) : Prop where
  freed : ∀ a ∈ w.freed, a < w.engine.nextAddr
  held : ∀ held, w.engine.serving.held id = some held → Lives w.engine.nextAddr w.freed held
  made : ∀ state, w.op.made = some state → Lives w.engine.nextAddr w.freed state.held ∧
    ∀ held, w.engine.serving.held id = some held → held.source.addr ≠ state.source.addr
  previous : ∀ oldFi, w.op.previous = some oldFi →
    ∃ held, w.engine.serving.held id = some held ∧ held.selectedFile = oldFi
  serves : ServesOnly id w.engine.serving (owner id w.engine.serving w.op)
  conn : ∀ src, w.conn.source = some src →
    (∃ fi entry, w.engine.serving.Registered id fi entry ∧ entry.source = src) ∨
      src.addr ∈ w.engine.serving.cancelled

theorem ServesOnly.of_none {v : Serving} (h : ServesOnly id v none) (own : Option Held) :
    ServesOnly id v own := by
  intro fi entry hreg
  obtain ⟨held, hnone, _⟩ := h fi entry hreg
  cases hnone

/-- What is registered is present. -/
theorem Inv.registered {w : World} (h : Inv id w) {fi : Int} {entry : SourceEntry}
    (hreg : w.engine.serving.Registered id fi entry) : entry.source.addr ∉ w.freed := by
  obtain ⟨held, hown, _, haddr⟩ := h.serves fi entry hreg
  rw [← haddr]
  have hcases : w.engine.serving.held id = some held ∨
      ∃ state, w.op.made = some state ∧ state.held = held := by
    revert hown
    unfold owner
    split
    · exact Or.inl
    · exact Or.inl
    · exact Or.inl
    · exact Or.inl
    · exact Or.inl
    · exact Or.inl
    · exact Or.inl
    · rename_i heq
      intro hown
      exact Or.inr ⟨_, by rw [heq]; rfl, Option.some.inj hown⟩
    · rename_i heq
      intro hown
      exact Or.inr ⟨_, by rw [heq]; rfl, Option.some.inj hown⟩
    · intro hown
      cases hown
  rcases hcases with hheld | ⟨state, hmade, rfl⟩
  · exact (h.held held hheld).present
  · exact (h.made state hmade).1.present

/-- Steps that change nothing that is served. -/
theorem Inv.move {e e' : SeekServeEngine} {op op' : Op} {freed : List Nat} {conn : Conn}
    (h : Inv id ⟨e, op, freed, conn⟩) (hserving : e'.serving = e.serving)
    (hmade : ∀ state, op'.made = some state → op.made = some state)
    (hprevious : ∀ oldFi, op'.previous = some oldFi →
      ∃ held, e.serving.held id = some held ∧ held.selectedFile = oldFi)
    (hserves : ServesOnly id e.serving (owner id e.serving op')) :
    Inv id ⟨e', op', freed, conn⟩ := by
  have haddr : e'.nextAddr = e.nextAddr := congrArg Serving.nextAddr hserving
  constructor <;> simp only [hserving, haddr]
  · exact h.freed
  · exact h.held
  · intro state hs
    exact h.made state (hmade state hs)
  · exact hprevious
  · exact hserves
  · exact h.conn

/-- Such steps to a point where the operation has nothing of its own. -/
theorem Inv.quiet {e e' : SeekServeEngine} {op op' : Op} {freed : List Nat} {conn : Conn}
    (h : Inv id ⟨e, op, freed, conn⟩) (hserving : e'.serving = e.serving)
    (hmade : op'.made = none) (hprevious : op'.previous = none)
    (hserves : ServesOnly id e.serving (owner id e.serving op')) :
    Inv id ⟨e', op', freed, conn⟩ := by
  refine h.move id hserving ?_ ?_ hserves
  · intro state hs
    cases hmade.symm.trans hs
  · intro oldFi hs
    cases hprevious.symm.trans hs

/-- All sources of the torrent leave the server and are cancelled. -/
theorem Inv.drop {e e' : SeekServeEngine} {op op' : Op} {freed : List Nat} {conn : Conn}
    (h : Inv id ⟨e, op, freed, conn⟩) (hheld : e'.serving.held = e.serving.held)
    (haddr : e'.nextAddr = e.nextAddr)
    (hnone : ∀ fi entry, ¬e'.serving.Registered id fi entry)
    (hkept : ∀ a ∈ e.serving.cancelled, a ∈ e'.serving.cancelled)
    (hcancel : ∀ fi entry, e.serving.Registered id fi entry →
      entry.source.addr ∈ e'.serving.cancelled)
    (hmade : op'.made = none) (hprevious : op'.previous = none) :
    Inv id ⟨e', op', freed, conn⟩ := by
  constructor
  · intro a ha
    rw [haddr]
    exact h.freed a ha
  · intro held hh
    rw [hheld] at hh
    have hlives := h.held held hh
    exact ⟨haddr ▸ hlives.addr, hlives.file, hlives.present⟩
  · intro state hs
    cases hmade.symm.trans hs
  · intro oldFi hs
    cases hprevious.symm.trans hs
  · intro fi entry hreg
    exact absurd hreg (hnone fi entry)
  · intro src hsrc
    rcases h.conn src hsrc with ⟨fi, entry, hreg, rfl⟩ | hc
    · exact Or.inr (hcancel fi entry hreg)
    · exact Or.inr (hkept src.addr hc)

theorem cancelled_kept_dropSources (e : SeekServeEngine) {a : Nat}
    (h : a ∈ e.serving.cancelled) : a ∈ (e.dropSources id).serving.cancelled := by
  unfold SeekServeEngine.dropSources
  split
  · exact h
  · exact List.mem_append_right _ h

theorem inv_removing {e e' : SeekServeEngine} {pc pc' : Remover} {freed : List Nat} {conn : Conn}
    (h : Inv id ⟨e, .removing pc, freed, conn⟩) (hstep : removeStep id e pc = some (e', pc')) :
    Inv id ⟨e', .ofRemover pc',
      (doomed id ⟨e, .removing pc, freed, conn⟩).toList ++ freed, conn⟩ := by
  cases pc with
  | start =>
    cases hstep
    exact h.quiet id rfl rfl rfl h.serves
  | unlisted =>
    cases hstep
    have hdrop := SeekServeEngine.dropped_dropSources e id
    apply h.drop id hdrop.held hdrop.nextAddr
    · intro fi entry hreg
      exact ((hdrop.registered id fi entry).mp hreg).1 rfl
    · intro a ha
      exact cancelled_kept_dropSources id e ha
    · intro fi entry hreg
      exact SeekServeEngine.mem_cancelled_dropSources hreg
    · rfl
    · rfl
  | dropped =>
    cases hstep
    have hnone : ∀ fi entry, ¬e.serving.Registered id fi entry := by
      intro fi entry hreg
      obtain ⟨held, hown, _⟩ := h.serves fi entry hreg
      cases hown
    constructor
    · intro a ha
      rcases List.mem_append.mp ha with hnew | hin
      · obtain ⟨state, hstate, rfl⟩ := Option.map_eq_some_iff.mp (Option.mem_toList.mp hnew)
        exact (h.held state.held (by simp [SeekServeEngine.serving, hstate])).addr
      · exact h.freed a hin
    · intro held hh
      simp [SeekServeEngine.serving] at hh
    · intro state hs
      cases hs
    · intro oldFi hs
      cases hs
    · intro fi entry hreg
      exact absurd hreg (hnone fi entry)
    · exact h.conn
  | erased =>
    cases hstep
    exact h.quiet id rfl rfl rfl (ServesOnly.of_none id h.serves _)
  | forgotten =>
    cases hstep
    exact h.quiet id rfl rfl rfl (ServesOnly.of_none id h.serves _)
  | finished => cases hstep

theorem registered_iff {e : SeekServeEngine} {fi : Int} {entry : SourceEntry} :
    e.serving.Registered id fi entry ↔
      (e.httpServer.bind fun server => server.registered id fi) = some entry := by
  rw [Option.bind_eq_some_iff]
  rfl

theorem selected_of_getFile {c : MetadataCatalog} {fi : Int} {file : FileInfo}
    (h : c.getFile id fi = .ok file) : 0 ≤ fi := by
  by_contra hneg
  have hlt : fi < 0 := by omega
  unfold MetadataCatalog.getFile MetadataCatalog.TorrentEntry.file at h
  split at h
  · cases h
  · simp [hlt] at h

theorem inv_dropOld {e e' : SeekServeEngine} {pc' : Late} {freed : List Nat} {conn : Conn}
    {env : Env} {fi : Int} {handle : TorrentHandle} {oldFi : Int}
    (h : Inv id ⟨e, .selecting (.dropOld env fi handle oldFi), freed, conn⟩)
    (hstep : lateStep id e (.dropOld env fi handle oldFi) = some (e', pc')) :
    Inv id ⟨e', .ofLate pc', freed, conn⟩ := by
  -- the one source that the server has of the torrent is the one that is removed
  have hold : ∀ fi entry, e.serving.Registered id fi entry → fi = oldFi := by
    intro fi' entry hreg
    obtain ⟨held, hown, hfi, _⟩ := h.serves fi' entry hreg
    obtain ⟨held', hheld', hfi'⟩ := h.previous oldFi rfl
    have hsame : held = held' := Option.some.inj (hown.symm.trans hheld')
    rw [← hfi, hsame, hfi']
  simp only [lateStep] at hstep
  split at hstep
  · rename_i server hserver
    cases hstep
    have hremoved := server.registered_removeByteSource id oldFi id
    apply Inv.drop id h
    · rfl
    · rfl
    · rintro fi' entry ⟨server', hserver', hreg⟩
      cases hserver'
      rw [hremoved] at hreg
      split at hreg
      · cases hreg
      · rename_i hne
        exact hne ⟨rfl, hold fi' entry ⟨server, hserver, hreg⟩⟩
    · intro a ha
      exact List.mem_append_right _ ha
    · intro fi' entry hreg
      have hfi := hold fi' entry hreg
      obtain ⟨server', hserver', hreg⟩ := hreg
      cases hserver.symm.trans hserver'
      rw [hfi] at hreg
      exact List.mem_append_left _
        (HttpRangeServer.mem_cancelled_removeByteSource.mpr ⟨entry, hreg, rfl⟩)
    · rfl
    · rfl
  · rename_i hserver
    cases hstep
    refine h.quiet id rfl rfl rfl ?_
    intro fi' entry hreg
    exact absurd hreg (Serving.not_registered hserver id fi' entry)

theorem inv_readFile {e e' : SeekServeEngine} {pc' : Late} {freed : List Nat} {conn : Conn}
    {env : Env} {fi : Int} {handle : TorrentHandle} {ti : TorrentInfo}
    (h : Inv id ⟨e, .selecting (.readFile env fi handle ti), freed, conn⟩)
    (hstep : lateStep id e (.readFile env fi handle ti) = some (e', pc')) :
    Inv id ⟨e', .ofLate pc', freed, conn⟩ := by
  simp only [lateStep] at hstep
  split at hstep
  · rename_i file hfile
    cases hstep
    have hlt : ∀ a, a < e.nextAddr → a < e.nextAddr + 2 := fun a ha => by omega
    constructor
    · intro a ha
      exact hlt a (h.freed a ha)
    · intro held hh
      have hlives := h.held held hh
      exact ⟨hlt _ hlives.addr, hlives.file, hlives.present⟩
    · intro state hs
      cases hs
      -- the new source has an address that nothing else has had
      refine ⟨⟨?_, selected_of_getFile id hfile, ?_⟩, ?_⟩
      · exact Nat.lt_add_of_pos_right (by omega)
      · intro hin
        exact Nat.lt_irrefl _ (h.freed e.nextAddr hin)
      · intro held hh haddr
        have hlives : held.source.addr < e.nextAddr := (h.held held hh).addr
        have heq : held.source.addr = e.nextAddr := haddr
        omega
    · intro oldFi hs
      cases hs
    · exact h.serves
    · exact h.conn
  · cases hstep
    exact h.quiet id rfl rfl rfl (ServesOnly.of_none id h.serves _)

theorem inv_register {e e' : SeekServeEngine} {pc' : Late} {freed : List Nat} {conn : Conn}
    {handle : TorrentHandle} {state : TorrentState} {path : CxxString}
    (h : Inv id ⟨e, .selecting (.register handle state path), freed, conn⟩)
    (hstep : lateStep id e (.register handle state path) = some (e', pc')) :
    Inv id ⟨e', .ofLate pc', freed, conn⟩ := by
  have hnone : ∀ fi entry, ¬e.serving.Registered id fi entry := by
    intro fi entry hreg
    obtain ⟨held, hown, _⟩ := h.serves fi entry hreg
    cases hown
  cases hstep
  constructor
  · exact h.freed
  · exact h.held
  · exact h.made
  · intro oldFi hs
    cases hs
  · rintro fi entry ⟨server', hserver', hreg⟩
    obtain ⟨server, hserver, rfl⟩ := Option.map_eq_some_iff.mp hserver'
    rw [HttpRangeServer.registered_setByteSource] at hreg
    split at hreg
    · rename_i hkey
      cases hreg
      exact ⟨state.held, rfl, hkey.2.symm, rfl⟩
    · exact absurd ⟨server, hserver, hreg⟩ (hnone fi entry)
  · intro src hsrc
    rcases h.conn src hsrc with ⟨fi, entry, hreg, _⟩ | hc
    · exact absurd hreg (hnone fi entry)
    · exact Or.inr hc

theorem inv_setCallback {e e' : SeekServeEngine} {pc' : Late} {freed : List Nat} {conn : Conn}
    {handle : TorrentHandle} {state : TorrentState}
    (h : Inv id ⟨e, .selecting (.setCallback handle state), freed, conn⟩)
    (hstep : lateStep id e (.setCallback handle state) = some (e', pc')) :
    Inv id ⟨e', .ofLate pc', freed, conn⟩ := by
  cases hstep
  have hiff : ∀ fi entry, Serving.Registered
      { e.serving with
        server := e.httpServer.map fun server =>
          server.setRangeCallback ⟨state.scheduler, handle⟩ } id fi entry ↔
        e.serving.Registered id fi entry := by
    intro fi entry
    constructor
    · rintro ⟨server', hserver', hreg⟩
      obtain ⟨server, hserver, rfl⟩ := Option.map_eq_some_iff.mp hserver'
      exact ⟨server, hserver, hreg⟩
    · rintro ⟨server, hserver, hreg⟩
      exact ⟨_, Option.map_eq_some_iff.mpr ⟨server, hserver, rfl⟩, hreg⟩
  constructor
  · exact h.freed
  · exact h.held
  · exact h.made
  · intro oldFi hs
    cases hs
  · intro fi entry hreg
    exact h.serves fi entry ((hiff fi entry).mp hreg)
  · intro src hsrc
    rcases h.conn src hsrc with ⟨fi, entry, hreg, hentry⟩ | hc
    · exact Or.inl ⟨fi, entry, (hiff fi entry).mpr hreg, hentry⟩
    · exact Or.inr hc

/-- The new state takes the place of the old one, which is destroyed. -/
theorem inv_publish {e e' : SeekServeEngine} {pc' : Late} {freed : List Nat} {conn : Conn}
    {state : TorrentState} (h : Inv id ⟨e, .selecting (.publish state), freed, conn⟩)
    (hstep : lateStep id e (.publish state) = some (e', pc')) :
    Inv id ⟨e', .ofLate pc',
      (doomed id ⟨e, .selecting (.publish state), freed, conn⟩).toList ++ freed, conn⟩ := by
  obtain ⟨hlives, hdistinct⟩ := h.made state rfl
  cases hstep
  have hheld : ∀ held, (AList.insert id state e.states).lookup id = some held →
      held = state := by
    intro held hh
    rw [AssocMap.lookup_insert_eq, if_pos rfl] at hh
    exact (Option.some.inj hh).symm
  have hold : ∀ a ∈ (doomed id ⟨e, .selecting (.publish state), freed, conn⟩).toList,
      ∃ held, e.serving.held id = some held ∧ held.source.addr = a := by
    intro a ha
    obtain ⟨old, hlook, rfl⟩ := Option.map_eq_some_iff.mp (Option.mem_toList.mp ha)
    exact ⟨old.held, by simp [SeekServeEngine.serving, hlook], rfl⟩
  constructor
  · intro a ha
    rcases List.mem_append.mp ha with hnew | hin
    · obtain ⟨held, hh, rfl⟩ := hold a hnew
      exact (h.held held hh).addr
    · exact h.freed a hin
  · intro held hh
    obtain ⟨new, hnew, rfl⟩ := Option.map_eq_some_iff.mp hh
    rw [hheld new hnew]
    refine ⟨hlives.addr, hlives.file, ?_⟩
    intro hin
    rcases List.mem_append.mp hin with hdoomed | hin
    · obtain ⟨held, hh, haddr⟩ := hold _ hdoomed
      exact hdistinct held hh haddr
    · exact hlives.present hin
  · intro state' hs
    cases hs
  · intro oldFi hs
    cases hs
  · intro fi entry hreg
    obtain ⟨held, hown, hfi, haddr⟩ := h.serves fi entry hreg
    refine ⟨held, ?_, hfi, haddr⟩
    rw [← hown]
    simp [owner, Op.ofLate, SeekServeEngine.serving]
  · exact h.conn

theorem inv_selecting {e e' : SeekServeEngine} {pc pc' : Late} {freed : List Nat} {conn : Conn}
    (h : Inv id ⟨e, .selecting pc, freed, conn⟩) (hstep : lateStep id e pc = some (e', pc')) :
    Inv id ⟨e', .ofLate pc',
      (doomed id ⟨e, .selecting pc, freed, conn⟩).toList ++ freed, conn⟩ := by
  cases pc with
  | guard env ti =>
    cases hstep
    cases hremoved : e.removedIds.contains id <;>
      exact h.quiet id rfl rfl rfl (ServesOnly.of_none id h.serves _)
  | insert env ti | record env files =>
    cases hstep
    exact h.quiet id rfl rfl rfl (ServesOnly.of_none id h.serves _)
  | list env =>
    cases hstep
    cases hfiles : e.catalog.listFiles id <;>
      exact h.quiet id rfl rfl rfl (ServesOnly.of_none id h.serves _)
  | validate env fi =>
    cases hstep
    cases hhandle : e.sessions.getHandle id <;>
      exact h.quiet id rfl rfl rfl h.serves
  | select env fi handle =>
    simp only [lateStep] at hstep
    split at hstep <;> cases hstep <;>
      exact h.quiet id rfl rfl rfl h.serves
  | readOld env fi handle =>
    cases hstep
    have hserves : ServesOnly id e.serving ((e.states.lookup id).map TorrentState.held) :=
      h.serves
    cases hold : e.states.lookup id with
    | none =>
      rw [hold] at hserves
      exact h.quiet id rfl rfl rfl hserves
    | some old =>
      have hheld : e.serving.held id = some old.held := by simp [SeekServeEngine.serving, hold]
      have hsel : old.selectedFile ≥ 0 := (h.held old.held hheld).file
      simp only [hsel, if_true]
      refine h.move id rfl (by simp [Op.ofLate, Op.made]) ?_ h.serves
      intro oldFi hs
      cases hs
      exact ⟨old.held, hheld, rfl⟩
  | dropOld env fi handle oldFi => exact inv_dropOld id h hstep
  | readInfo env fi handle =>
    cases hstep
    cases hti : e.catalog.torrentInfo id <;>
      exact h.quiet id rfl rfl rfl (ServesOnly.of_none id h.serves _)
  | readFile env fi handle ti => exact inv_readFile id h hstep
  | register handle state path => exact inv_register id h hstep
  | setCallback handle state => exact inv_setCallback id h hstep
  | publish state => exact inv_publish id h hstep
  | finished => cases hstep

/-- The connection moves on with the source it has, or with one that is registered. -/
theorem source_connStep {w : World} {stale : PieceAvailabilityIndex} {conn conn' : Conn}
    {turn : ByteSource.Action} (h : connStep id w stale conn turn = some conn') {src : ByteSource}
    (hsrc : conn'.source = some src) : conn.source = some src ∨
      ∃ fi entry, w.engine.serving.Registered id fi entry ∧ entry.source = src := by
  unfold connStep at h
  split at h
  · rename_i req fi
    split at h
    · rename_i entry hentry
      cases h
      cases hsrc
      exact Or.inr ⟨fi, entry, (registered_iff id).mpr hentry, rfl⟩
    · cases h
      cases hsrc
  · split at h
    · cases h
      exact Or.inl hsrc
    · cases h
      cases hsrc
  · cases h
    split at hsrc
    · exact Or.inl hsrc
    · cases hsrc
  · cases h
    exact Or.inl hsrc
  · cases h
    split at hsrc
    · cases hsrc
    · exact Or.inl hsrc
  · cases h
    cases hsrc
  · cases h
  · obtain ⟨s, _, rfl⟩ := Option.map_eq_some_iff.mp h
    unfold resume at hsrc
    split at hsrc
    · exact Or.inl hsrc
    · exact Or.inl hsrc
  · cases h

/-- The wait goes beyond a check of the flag only where the flag is not set. -/
theorem clear_of_next {src : ByteSource} {offset len : Int} {s s' : ByteSource.ReadState}
    {turn : ByteSource.Action} (h : src.next offset len s turn = some s')
    (hturn : ∀ call, turn ≠ .outside call) :
    (s.pc = .entry → (∃ t, s'.pc = .predicate t) → s.cancelled = false) ∧
      ((∃ t p, s'.pc = .scan t p) → (∃ t p, s.pc = .scan t p) ∨
        (∃ t, s.pc = .predicate t) ∧ s.cancelled = false) := by
  cases turn with
  | outside call => exact absurd rfl (hturn call)
  | step =>
    obtain ⟨pc, hadv, rfl⟩ := Option.map_eq_some_iff.mp h
    cases hpc : s.pc with
    | entry =>
      rw [hpc] at hadv
      cases hadv
      cases hc : s.cancelled <;> simp
    | predicate t =>
      rw [hpc] at hadv
      cases hadv
      cases hc : s.cancelled <;> simp
    | scan t p => simp
    | woken ok =>
      rw [hpc] at hadv
      cases hadv
      cases hc : s.cancelled <;> cases ok <;> simp
    | asleep | reading | done r =>
      rw [hpc] at hadv
      cases hadv
  | wake | timeout | readFile file =>
    simp only [ByteSource.next] at h
    split at h <;> cases h
    rename_i hpc
    simp [hpc]

theorem uses_resume {src : ByteSource} {offset remaining : Int} {pc pc' : ByteSource.Pc} {a : Nat}
    (h : (resume src offset remaining pc pc').uses = some a) :
    src.addr = a ∧ ((pc = .entry ∧ ∃ t, pc' = .predicate t) ∨ ∃ t p, pc' = .scan t p) := by
  unfold resume at h
  split at h
  · exact ⟨Option.some.inj h, Or.inl ⟨rfl, _, rfl⟩⟩
  · unfold Conn.uses at h
    split at h
    · rename_i heq
      cases heq
    · rename_i heq
      cases heq
    · rename_i heq
      cases heq
      exact ⟨Option.some.inj h, Or.inr ⟨_, _, rfl⟩⟩
    all_goals cases h

/-- What the connection comes to use is registered, or was not cancelled at its last check. -/
theorem uses_connStep {w : World} {stale : PieceAvailabilityIndex} {conn conn' : Conn}
    {turn : ByteSource.Action} (h : connStep id w stale conn turn = some conn') {a : Nat}
    (huses : conn'.uses = some a) :
    (∃ fi entry, w.engine.serving.Registered id fi entry ∧ entry.source.addr = a) ∨
      conn.uses = some a ∨
        ∃ src, conn.source = some src ∧ src.addr = a ∧ a ∉ w.engine.cancelled := by
  unfold connStep at h
  split at h
  · rename_i req fi
    split at h
    · rename_i entry hentry
      cases h
      cases huses
      exact Or.inl ⟨fi, entry, (registered_iff id).mpr hentry, rfl⟩
    · cases h
      cases huses
  · split at h <;> cases h <;> cases huses
  · cases h
    split at huses <;> cases huses
  · cases h
    cases huses
  · cases h
    split at huses <;> cases huses
  · cases h
    cases huses
  · cases h
  · rename_i src _ _ pc _ _ hturn
    obtain ⟨s, hs, rfl⟩ := Option.map_eq_some_iff.mp h
    obtain ⟨hentry, hscan⟩ := clear_of_next hs hturn
    have hclear : (readState id w src stale pc).cancelled = false →
        src.addr ∉ w.engine.cancelled := by
      intro hc
      simpa [readState] using hc
    obtain ⟨rfl, ⟨hpc, hnew⟩ | hnew⟩ := uses_resume huses
    · exact Or.inr (Or.inr ⟨src, rfl, rfl, hclear (hentry hpc hnew)⟩)
    · rcases hscan hnew with ⟨t, p, hold⟩ | ⟨_, hc⟩
      · have hpc : pc = .scan t p := hold
        refine Or.inr (Or.inl ?_)
        rw [hpc]
        rfl
      · exact Or.inr (Or.inr ⟨src, rfl, rfl, hclear hc⟩)
  · cases h

theorem Inv.reconnect {w : World} (h : Inv id w) {conn : Conn}
    (hconn : ∀ src, conn.source = some src →
      (∃ fi entry, w.engine.serving.Registered id fi entry ∧ entry.source = src) ∨
        src.addr ∈ w.engine.serving.cancelled) : Inv id { w with conn := conn } :=
  ⟨h.freed, h.held, h.made, h.previous, h.serves, hconn⟩

theorem inv_next {w w' : World} {a : Action} (h : Inv id w) (hn : next id w a = some w') :
    Inv id w' := by
  obtain ⟨e, op, freed, conn⟩ := w
  cases a with
  | remove | select env fi =>
    simp only [next] at hn
    split at hn <;> cases hn
    exact h.quiet id rfl rfl rfl h.serves
  | operate =>
    cases op with
    | idle => cases hn
    | removing pc =>
      obtain ⟨⟨e', pc'⟩, hstep, rfl⟩ := Option.map_eq_some_iff.mp hn
      exact inv_removing id h hstep
    | selecting pc =>
      obtain ⟨⟨e', pc'⟩, hstep, rfl⟩ := Option.map_eq_some_iff.mp hn
      exact inv_selecting id h hstep
  | pieceFinished ih piece =>
    cases hn
    exact h.move id (SeekServeEngine.serving_onPieceFinished e ih piece) (fun _ hs => hs)
      h.previous h.serves
  | connect stale turn =>
    obtain ⟨conn', hstep, rfl⟩ := Option.map_eq_some_iff.mp hn
    apply h.reconnect id
    intro src hsrc
    rcases source_connStep id hstep hsrc with hsame | hreg
    · exact h.conn src hsame
    · exact Or.inl hreg
  | writeFails =>
    simp only [next] at hn
    split at hn <;> cases hn
    apply h.reconnect id
    intro src hsrc
    cases hsrc

theorem operate_conn {w w' : World} (hn : next id w .operate = some w') :
    w'.conn = w.conn ∧ w'.freed = (doomed id w).toList ++ w.freed := by
  simp only [next] at hn
  split at hn
  · cases hn
  · obtain ⟨r, _, rfl⟩ := Option.map_eq_some_iff.mp hn
    exact ⟨rfl, rfl⟩
  · obtain ⟨r, _, rfl⟩ := Option.map_eq_some_iff.mp hn
    exact ⟨rfl, rfl⟩

theorem safe_next_iff {w w' : World} {a : Action} (hi : Inv id w) (hs : Safe w)
    (hn : next id w a = some w') : Safe w' ↔ Spares id w a := by
  cases a with
  | operate =>
    obtain ⟨hconn, hfreed⟩ := operate_conn id hn
    unfold Safe
    rw [hconn, hfreed]
    constructor
    · intro h b hb huses
      exact h b huses (List.mem_append_left _ (Option.mem_toList.mpr hb))
    · intro h b huses hin
      rcases List.mem_append.mp hin with hb | hold
      · exact h b (Option.mem_toList.mp hb) huses
      · exact hs b huses hold
  | remove | select env fi =>
    simp only [next] at hn
    split at hn <;> cases hn
    exact ⟨fun _ => trivial, fun _ => hs⟩
  | pieceFinished ih piece =>
    cases hn
    exact ⟨fun _ => trivial, fun _ => hs⟩
  | connect stale turn =>
    obtain ⟨conn', hstep, rfl⟩ := Option.map_eq_some_iff.mp hn
    refine ⟨fun _ => trivial, fun _ => ?_⟩
    intro b huses
    rcases uses_connStep id hstep huses with ⟨fi, entry, hreg, rfl⟩ | hsame | ⟨src, hsrc, rfl, hc⟩
    · exact hi.registered id hreg
    · exact hs b hsame
    · rcases hi.conn src hsrc with ⟨fi, entry, hreg, rfl⟩ | hcancelled
      · exact hi.registered id hreg
      · exact absurd hcancelled hc
  | writeFails =>
    simp only [next] at hn
    split at hn <;> cases hn
    refine ⟨fun _ => trivial, fun _ => ?_⟩
    intro b huses
    cases huses

theorem inv_start (env : Env) (config : Config) (cache : OfflineCacheManager) (evs : List Event)
    (req : HttpRequest) (fi : Int) : Inv id (start env config cache evs req fi) := by
  have htracks := SeekServeEngine.tracks_run env config cache evs
  unfold start
  generalize SeekServeEngine.machine.run (.create env config cache) evs = e at htracks
  constructor
  · intro a ha
    cases ha
  · intro held hh
    have hfresh := htracks.fresh.held id held hh
    exact ⟨hfresh.1, hfresh.2.2, List.not_mem_nil⟩
  · intro state hs
    cases hs
  · intro oldFi hs
    cases hs
  · intro fi' entry hreg
    obtain ⟨held, hh, hfi, hsource, _⟩ := htracks.source id fi' entry hreg
    exact ⟨held, hh, hfi, congrArg ByteSource.addr hsource⟩
  · intro src hsrc
    cases hsrc

/-- The connection is never about to use a torrent state that is gone exactly when no step of
the operations destroys a state that it is about to use; and then it never uses one. -/
theorem uses_present_iff (env : Env) (config : Config) (cache : OfflineCacheManager)
    (evs : List Event) (req : HttpRequest) (fi : Int) {w : World} {acts : List Action}
    (hw : (system id).exec (start env config cache evs req fi) acts = some w) :
    ((system id).Always Safe (start env config cache evs req fi) acts ↔
        (system id).EachStep (Spares id) (start env config cache evs req fi) acts) ∧
      ((system id).EachStep (Spares id) (start env config cache evs req fi) acts →
        (system id).EachStep UsesPresent (start env config cache evs req fi) acts) := by
  have hiff : (system id).Always Safe (start env config cache evs req fi) acts ↔
      (system id).EachStep (Spares id) (start env config cache evs req fi) acts := by
    refine Runs.System.always_iff_eachStep _ (Inv id) Safe (Spares id) ?_ ?_
      (inv_start id env config cache evs req fi) ?_ hw
    · intro u a u' hu hn
      exact inv_next id hu hn
    · intro u a u' hu hs hn
      exact safe_next_iff id hu hs hn
    · intro b huses
      cases huses
  refine ⟨hiff, ?_⟩
  intro hspares pre a post u hacts hu
  have hsafe : Safe u := hiff.mpr hspares pre u (hacts ▸ List.prefix_append _ _) hu
  cases a with
  | connect stale turn => exact hsafe
  | remove | select env' fi' | operate | pieceFinished ih piece | writeFails => trivial

theorem spares_of_not_operate (w : World) {acts : List Action} (h : ∀ a ∈ acts, a ≠ .operate) :
    (system id).EachStep (Spares id) w acts := by
  refine .of_forall _ ?_ w
  intro a ha u
  cases a with
  | operate => exact absurd rfl (h _ ha)
  | remove | select env fi | pieceFinished ih piece | connect stale turn | writeFails => trivial

/-- An operation does no harm to a connection that is not about to use a torrent state. -/
theorem spares_operates {w : World} (h : w.conn.uses = none) (n : Nat) :
    (system id).EachStep (Spares id) w (List.replicate n .operate) := by
  induction n generalizing w with
  | zero => exact Runs.System.eachStep_nil _ _ _
  | succ n ih =>
    refine .cons _ ?_ ?_
    · intro a _ huses
      rw [h] at huses
      cases huses
    · intro w' hn
      apply ih
      rw [(operate_conn id hn).1]
      exact h

end

section Samples

def selectedSample : List Event :=
  sampleEvents (addSample 1 "a.torrent".toList ++ [.startServer, .selectFile (sampleId 1) 0])

def getSample : HttpRequest := { method := .get, target := [] }

def startSample : World := start sampleEnv {} .empty selectedSample getSample 0

def connects (n : Nat) : List Action :=
  List.replicate n (.connect (.reset 0 0 0) .step)

/-- The connection sleeps, waiting for the first piece, while the torrent is removed. -/
theorem uses_present_iff_asleep :
    (system (sampleId 1)).EachStep UsesPresent startSample
      ((connects 7 ++ [.remove]) ++ List.replicate 5 .operate) := by
  have hrun : ((system (sampleId 1)).exec startSample
      ((connects 7 ++ [.remove]) ++ List.replicate 5 .operate)).isSome = true := by decide
  have hasleep : (((system (sampleId 1)).exec startSample (connects 7 ++ [.remove])).bind
      fun w => w.conn.uses) = none := by decide
  obtain ⟨w, hw⟩ := Option.isSome_iff_exists.mp hrun
  refine (uses_present_iff (sampleId 1) sampleEnv {} .empty selectedSample getSample 0 hw).2 ?_
  apply Runs.System.EachStep.append
  · exact spares_of_not_operate _ _ (by simp [connects])
  · intro t ht
    have ht' : (system (sampleId 1)).exec startSample (connects 7 ++ [.remove]) = some t := ht
    rw [ht'] at hasleep
    exact spares_operates _ hasleep 5

/-- The torrent is removed between the first check of the flag and the mapping of the range. -/
theorem removal_before_mapping :
    ((system (sampleId 1)).exec startSample
        (connects 4 ++ .remove :: List.replicate 5 .operate)).map
      (fun w =>
        (w.conn.uses, w.freed,
          ((system (sampleId 1)).next w (.connect (.reset 0 0 0) .step)).isSome)) =
      some (some 0, [0], true) := by decide

end Samples

end SeekServe.StateLifetime
