import SeekServe.ServingRuns

/-!
# Piece completions while a file is being selected

`select_file` takes a snapshot of libtorrent's bitfield into a new index and
publishes the index in `states_` later; alerts handled in between mark the index
that is still published, or none. The parties are libtorrent, the alert thread and
any number of threads inside `select_file` for one torrent.
-/

namespace SeekServe.SelectionWindow

set_option autoImplicit false

structure State where
  /-- libtorrent's bitfield of completed pieces -/
  pieces : Int → Bool
  /-- `piece_finished` alerts that have not been handled, oldest first -/
  inFlight : List Int
  /-- indices of `select_file` calls that have taken their snapshot and not yet published -/
  building : List PieceAvailabilityIndex
  /-- the index of the `TorrentState` in `states_`, if there is one -/
  published : Option PieceAvailabilityIndex

inductive Action where
  | complete (piece : Int)
  | snapshot
  | publish (call : Nat)
  | handle
  deriving DecidableEq, Repr

variable (numPieces pieceLength lastPieceSize : Int)

/-- Steps 245 to 263 of `select_file`: a reset index that holds the reported bits. -/
def snapshotIndex (pieces : Int → Bool) : PieceAvailabilityIndex :=
  (PieceAvailabilityIndex.reset numPieces pieceLength lastPieceSize).populate pieces

def next (s : State) : Action → Option State
  | .complete piece =>
    if 0 ≤ piece ∧ piece < numPieces ∧ s.pieces piece = false then
      some { s with
        pieces := fun p => p == piece || s.pieces p
        inFlight := s.inFlight ++ [piece] }
    else none
  | .snapshot =>
    some { s with
      building := s.building ++ [snapshotIndex numPieces pieceLength lastPieceSize s.pieces] }
  | .publish call =>
    match s.building[call]? with
    | some index => some { s with building := s.building.eraseIdx call, published := some index }
    | none => none
  | .handle =>
    match s.inFlight with
    | [] => none
    | piece :: rest =>
      some { s with
        inFlight := rest
        published := s.published.map fun index => index.markComplete piece }

def system : Runs.System State Action := ⟨next numPieces pieceLength lastPieceSize⟩

def initial (pieces : Int → Bool) : State := ⟨pieces, [], [], none⟩

/-- A piece that libtorrent has completed is marked, or its alert is still to come. -/
def Covers (s : State) (index : PieceAvailabilityIndex) : Prop :=
  index.numPieces = numPieces ∧
    ∀ p, 0 ≤ p → p < numPieces → s.pieces p = true →
      index.isComplete p = true ∨ p ∈ s.inFlight

structure Inv (s : State) : Prop where
  building : ∀ index ∈ s.building, Covers numPieces s index
  published : ∀ index, s.published = some index → Covers numPieces s index

/-- The alert at the head of the queue is for a piece that every snapshot taken and
not yet published already holds. Other steps are free. -/
def OutsideWindow (s : State) (a : Action) : Prop :=
  a = .handle → ∀ piece rest, s.inFlight = piece :: rest →
    ∀ index ∈ s.building, index.isComplete piece = true

/-- Once the alerts are handled, the published index knows every completed piece. -/
def NothingLost (s : State) : Prop :=
  s.inFlight = [] → ∀ index, s.published = some index →
    ∀ p, 0 ≤ p → p < numPieces → s.pieces p = true → index.isComplete p = true

theorem inv_initial (pieces : Int → Bool) : Inv numPieces (initial pieces) := by
  constructor
  · intro index hi
    cases hi
  · intro index hi
    cases hi

theorem covers_snapshotIndex (s : State) :
    Covers numPieces s (snapshotIndex numPieces pieceLength lastPieceSize s.pieces) := by
  have hn : (PieceAvailabilityIndex.reset numPieces pieceLength lastPieceSize).numPieces =
      numPieces := rfl
  refine ⟨by rw [snapshotIndex, PieceAvailabilityIndex.numPieces_populate, hn], ?_⟩
  intro p h0 hlt hp
  apply Or.inl
  apply (PieceAvailabilityIndex.isComplete_populate _ _ _).mpr
  exact Or.inl ⟨⟨h0, by rw [hn]; exact hlt⟩, hp⟩

theorem Covers.complete {s : State} {index : PieceAvailabilityIndex} (piece : Int)
    (h : Covers numPieces s index) :
    Covers numPieces
      { s with
        pieces := fun p => p == piece || s.pieces p
        inFlight := s.inFlight ++ [piece] } index := by
  refine ⟨h.1, ?_⟩
  intro p h0 hlt hp
  by_cases he : p = piece
  · exact Or.inr (by simp [he])
  · have hold : s.pieces p = true := by simpa [he] using hp
    rcases h.2 p h0 hlt hold with hc | hf
    · exact Or.inl hc
    · exact Or.inr (List.mem_append.mpr (Or.inl hf))

theorem Covers.handle {s : State} {index : PieceAvailabilityIndex} {piece : Int} {rest : List Int}
    (hf : s.inFlight = piece :: rest) (h : Covers numPieces s index)
    (hp : index.isComplete piece = true) (published : Option PieceAvailabilityIndex) :
    Covers numPieces { s with inFlight := rest, published := published } index := by
  refine ⟨h.1, ?_⟩
  intro p h0 hlt hbit
  rcases h.2 p h0 hlt hbit with hc | hmem
  · exact Or.inl hc
  · rw [hf] at hmem
    rcases List.mem_cons.mp hmem with he | hrest
    · exact Or.inl (he ▸ hp)
    · exact Or.inr hrest

theorem Covers.markComplete {s : State} {index : PieceAvailabilityIndex} {piece : Int}
    {rest : List Int} (hf : s.inFlight = piece :: rest) (h : Covers numPieces s index)
    (published : Option PieceAvailabilityIndex) :
    Covers numPieces { s with inFlight := rest, published := published }
      (index.markComplete piece) := by
  refine ⟨by rw [PieceAvailabilityIndex.numPieces_markComplete]; exact h.1, ?_⟩
  intro p h0 hlt hbit
  by_cases he : p = piece
  · have hin : index.inRange piece := ⟨he ▸ h0, by rw [h.1]; exact he ▸ hlt⟩
    exact Or.inl ((index.isComplete_markComplete piece p).mpr (Or.inl ⟨he, hin⟩))
  · rcases h.2 p h0 hlt hbit with hc | hmem
    · exact Or.inl (PieceAvailabilityIndex.isComplete_markComplete_of_isComplete hc piece)
    · rw [hf] at hmem
      exact Or.inr ((List.mem_cons.mp hmem).resolve_left he)

theorem inv_next {s s' : State} {a : Action} (hi : Inv numPieces s) (hg : OutsideWindow s a)
    (h : next numPieces pieceLength lastPieceSize s a = some s') : Inv numPieces s' := by
  cases a with
  | complete piece =>
    simp only [next] at h
    split at h
    · cases h
      exact ⟨fun index hm => (hi.building index hm).complete numPieces piece,
        fun index hm => (hi.published index hm).complete numPieces piece⟩
    · cases h
  | snapshot =>
    cases h
    refine ⟨?_, hi.published⟩
    intro index hm
    rcases List.mem_append.mp hm with hold | hnew
    · exact hi.building index hold
    · rw [List.mem_singleton.mp hnew]
      exact covers_snapshotIndex numPieces pieceLength lastPieceSize s
  | publish call =>
    simp only [next] at h
    split at h
    · rename_i index hget
      cases h
      have hmem : index ∈ s.building := List.mem_of_getElem? hget
      refine ⟨fun i hm => hi.building i (List.mem_of_mem_eraseIdx hm), ?_⟩
      intro i hi'
      cases hi'
      exact hi.building index hmem
    · cases h
  | handle =>
    simp only [next] at h
    split at h
    · cases h
    · rename_i piece rest hf
      cases h
      constructor
      · intro index hm
        have hp := hg rfl piece rest hf index hm
        exact (hi.building index hm).handle numPieces hf hp _
      · intro index hm
        obtain ⟨old, hold, rfl⟩ := Option.map_eq_some_iff.mp hm
        exact (hi.published old hold).markComplete numPieces hf _

theorem nothingLost_of_inv {s : State} (hi : Inv numPieces s) : NothingLost numPieces s := by
  intro hf index hp p h0 hlt hbit
  rcases (hi.published index hp).2 p h0 hlt hbit with hc | hmem
  · exact hc
  · rw [hf] at hmem
    cases hmem

/-- In every interleaving in which no alert falls between a snapshot that misses its
piece and the publication of that snapshot, no completion is lost. -/
theorem nothingLost_of_outsideWindow (pieces : Int → Bool) (acts : List Action) (s : State)
    (hG : (system numPieces pieceLength lastPieceSize).EachStep OutsideWindow
      (initial pieces) acts)
    (hs : (system numPieces pieceLength lastPieceSize).exec (initial pieces) acts = some s) :
    NothingLost numPieces s := by
  apply nothingLost_of_inv
  apply Runs.System.exec_invariant _ (Inv numPieces) OutsideWindow _
    (inv_initial numPieces pieces) hG hs
  intro u a u' hi hg h
  exact inv_next numPieces pieceLength lastPieceSize hi hg h

theorem nothingLost_of_outsideWindow_early :
    ∃ s, (system 1 16384 100).exec (initial fun _ => false)
      [.complete 0, .handle, .snapshot, .publish 0] = some s ∧ NothingLost 1 s := by
  refine ⟨_, rfl, ?_⟩
  refine nothingLost_of_outsideWindow 1 16384 100 (fun _ => false)
    [.complete 0, .handle, .snapshot, .publish 0] _ ?_ rfl
  refine .cons _ (fun h => nomatch h) fun s1 h1 => ?_
  cases h1
  refine .cons _ (fun _ piece rest _ index hm => nomatch hm) fun s2 h2 => ?_
  cases h2
  refine .cons _ (fun h => nomatch h) fun s3 h3 => ?_
  cases h3
  refine .cons _ (fun h => nomatch h) fun s4 h4 => ?_
  exact Runs.System.eachStep_nil _ _ _

/-- The piece completes after the snapshot and its alert is handled before the
publication: nothing is in flight any more and the published index misses it. -/
theorem completion_in_window_is_lost :
    ∃ s index, (system 1 16384 100).exec (initial fun _ => false)
        [.snapshot, .complete 0, .handle, .publish 0] = some s ∧
      s.building = [] ∧ s.inFlight = [] ∧ s.published = some index ∧
      s.pieces 0 = true ∧ index.isComplete 0 = false :=
  ⟨_, _, rfl, rfl, rfl, rfl, rfl, rfl⟩

/-- Every alert in flight is for a completed piece, and for each piece there is one. -/
structure Queued (s : State) : Prop where
  nodup : s.inFlight.Nodup
  completed : ∀ p ∈ s.inFlight, 0 ≤ p ∧ p < numPieces ∧ s.pieces p = true

theorem queued_next {s s' : State} {a : Action} (hq : Queued numPieces s)
    (h : next numPieces pieceLength lastPieceSize s a = some s') : Queued numPieces s' := by
  cases a with
  | complete piece =>
    simp only [next] at h
    split at h
    · rename_i hc
      cases h
      obtain ⟨h0, hlt, hbit⟩ := hc
      have hnew : piece ∉ s.inFlight := by
        intro hm
        have := (hq.completed piece hm).2.2
        simp [hbit] at this
      constructor
      · apply List.nodup_append.mpr
        refine ⟨hq.nodup, List.pairwise_singleton _ piece, ?_⟩
        intro p hp q hpq he
        rw [he, List.mem_singleton.mp hpq] at hp
        exact hnew hp
      · intro p hp
        rcases List.mem_append.mp hp with hold | hlast
        · have := hq.completed p hold
          exact ⟨this.1, this.2.1, by simp [this.2.2]⟩
        · rw [List.mem_singleton.mp hlast]
          exact ⟨h0, hlt, by simp⟩
    · cases h
  | snapshot =>
    cases h
    exact ⟨hq.nodup, hq.completed⟩
  | publish call =>
    simp only [next] at h
    split at h
    · cases h
      exact ⟨hq.nodup, hq.completed⟩
    · cases h
  | handle =>
    simp only [next] at h
    split at h
    · cases h
    · rename_i piece rest hf
      cases h
      have hnodup := hq.nodup
      rw [hf, List.nodup_cons] at hnodup
      refine ⟨hnodup.2, ?_⟩
      intro p hp
      exact hq.completed p (hf ▸ List.mem_cons_of_mem piece hp)

theorem drain_keeps_gap {s : State} {piece : Int} {index : PieceAvailabilityIndex}
    (hp : s.published = some index) (hgap : index.isComplete piece = false)
    (hrest : piece ∉ s.inFlight) :
    ∃ t index', (system numPieces pieceLength lastPieceSize).exec s
        (List.replicate s.inFlight.length .handle) = some t ∧
      t.inFlight = [] ∧ t.pieces = s.pieces ∧ t.published = some index' ∧
      index'.isComplete piece = false := by
  -- each alert marks its own piece in the published index, so the gap stays
  obtain ⟨pieces, queue, building, published⟩ := s
  induction queue generalizing index published with
  | nil => exact ⟨_, index, rfl, rfl, rfl, hp, hgap⟩
  | cons q queue ih =>
    have hne : piece ≠ q := fun he => hrest (he ▸ List.mem_cons_self)
    have hgap' : (index.markComplete q).isComplete piece = false := by
      apply Bool.eq_false_iff.mpr
      intro h
      rcases (index.isComplete_markComplete q piece).mp h with hq | hc
      · exact hne hq.1
      · rw [hgap] at hc
        cases hc
    have hp' : published.map (fun i => i.markComplete q) = some (index.markComplete q) := by
      rw [show published = some index from hp]
      rfl
    obtain ⟨t, index', ht, hrest'⟩ := ih hgap' (published.map fun i => i.markComplete q) hp'
      (fun hm => hrest (List.mem_cons_of_mem q hm))
    exact ⟨t, index', (Runs.System.exec_cons_iff _).mpr ⟨_, rfl, ht⟩, hrest'⟩

/-- The condition leaves nothing out: an alert handled inside the window of a snapshot
that misses its piece is lost as soon as that snapshot is published. -/
theorem lost_of_inside_window (pieces : Int → Bool) (acts : List Action) {s : State}
    {piece : Int} {rest : List Int} {call : Nat} {index : PieceAvailabilityIndex}
    (hs : (system numPieces pieceLength lastPieceSize).exec (initial pieces) acts = some s)
    (hf : s.inFlight = piece :: rest) (hcall : s.building[call]? = some index)
    (hgap : index.isComplete piece = false) :
    ∃ t, (system numPieces pieceLength lastPieceSize).exec s
        (.handle :: .publish call :: List.replicate rest.length .handle) = some t ∧
      ¬ NothingLost numPieces t := by
  have hq : Queued numPieces s := by
    apply Runs.System.exec_invariant_of_step _ _ _ hs
    · intro u a u' hu h
      exact queued_next numPieces pieceLength lastPieceSize hu h
    · exact ⟨List.nodup_nil, fun p hp => nomatch hp⟩
  have hnodup := hq.nodup
  rw [hf, List.nodup_cons] at hnodup
  obtain ⟨h0, hlt, hbit⟩ := hq.completed piece (hf ▸ List.mem_cons_self)
  -- the state right after the publication: its index still misses the piece
  let u : State := ⟨s.pieces, rest, s.building.eraseIdx call, some index⟩
  obtain ⟨t, index', ht, hflight, hpieces, hpub, hmiss⟩ :=
    drain_keeps_gap numPieces pieceLength lastPieceSize (s := u) rfl hgap hnodup.1
  refine ⟨t, ?_, ?_⟩
  · apply (Runs.System.exec_cons_iff _).mpr
    refine ⟨{ s with
      inFlight := rest
      published := s.published.map fun i => i.markComplete piece },
      by simp only [system, next, hf], ?_⟩
    apply (Runs.System.exec_cons_iff _).mpr
    exact ⟨u, by simp only [system, next, hcall, u], ht⟩
  · intro h
    have hc := h hflight index' hpub piece h0 hlt (by rw [hpieces]; exact hbit)
    rw [hmiss] at hc
    cases hc

/-- The published index is the one in the engine's state of the torrent. -/
def Shows (s : State) (e : SeekServeEngine) (id : TorrentId) : Prop :=
  s.published = (e.states.lookup id).map TorrentState.avail

/-- Handling an alert is one step. -/
theorem shows_onPieceFinished {s : State} {e : SeekServeEngine} {ih : InfoHash} {piece : Int}
    {rest : List Int} (h : Shows s e (infohashToHex ih)) (hf : s.inFlight = piece :: rest) :
    ∃ s', next numPieces pieceLength lastPieceSize s .handle = some s' ∧
      Shows s' (e.onPieceFinished ih piece) (infohashToHex ih) := by
  refine ⟨{ s with
    inFlight := rest
    published := s.published.map fun index => index.markComplete piece },
    by simp only [next, hf], ?_⟩
  unfold Shows SeekServeEngine.onPieceFinished at *
  simp only [h, AssocMap.lookup_modify, if_true, Option.map_map]
  rfl

/-- A selection that succeeds is a snapshot and its publication with nothing in between. -/
theorem shows_selectFile {s : State} {e : SeekServeEngine} {env : Env} {id : TorrentId} {fi : Int}
    {ti : TorrentInfo} (hpieces : env.pieces = s.pieces) (hti : e.catalog.torrentInfo id = some ti)
    (hok : (e.selectFile env id fi).1 = .ok ()) :
    let lastPieceSize :=
      ti.layout.totalSize - (ti.layout.numPieces - 1) * ti.layout.pieceLength
    ∃ s', (system ti.layout.numPieces ti.layout.pieceLength lastPieceSize).exec s
        [.snapshot, .publish s.building.length] = some s' ∧
      Shows s' (e.selectFile env id fi).2 id := by
  intro lastPieceSize
  rcases e.selectFile_cases env id fi with ⟨err, catalog, heq, _⟩ | ⟨handle, ti', _, _, hti', heq⟩
  · rw [heq] at hok
    cases hok
  · have hsame : ti = ti' := Option.some.inj (hti.symm.trans hti')
    subst hsame
    rw [heq]
    have herase : ∀ index, (s.building ++ [index]).eraseIdx s.building.length = s.building := by
      intro index
      rw [List.eraseIdx_append_of_length_le (Nat.le_refl _), Nat.sub_self]
      exact List.append_nil _
    refine ⟨{ s with
      published := some
        (snapshotIndex ti.layout.numPieces ti.layout.pieceLength lastPieceSize s.pieces) }, ?_, ?_⟩
    · simp [Runs.System.exec, system, next, herase]
    · unfold Shows SeekServeEngine.publish
      rw [AssocMap.lookup_insert_eq, if_pos rfl, ← hpieces]
      rfl

end SeekServe.SelectionWindow
