import SeekServe.PieceSpans
import SeekServe.SliceDelivery

/-!
# Reads that do not wait

Once all pieces under a range are complete, a read of it goes from one step of its own to the
next, whatever other threads mark, until it has the bytes. Only `cancel()` could stop it.
-/

namespace SeekServe

set_option autoImplicit false

namespace ByteSource

/-- No one cancels the source, and the file that is stored under `path` opens and holds what the
index says. Of a source that reads elsewhere nothing is known. -/
structure Undisturbed (src : ByteSource) (path : CxxString) (D : List Byte) (s : ReadState)
    (a : Action) : Prop where
  alive : a ≠ .outside .cancel
  opens : src.filePath = path → a ≠ .readFile none
  finds : src.filePath = path → src.FindsPieces D s a

/-- A step that the thread of the read takes itself. -/
def Action.isOwn : Action → Bool
  | .step | .readFile _ => true
  | .outside _ | .wake | .timeout => false

section Reader
variable (src : ByteSource) (offset len : Int)

/-- How many own steps lie before the reader when nothing makes it wait. -/
def stepsLeft : Pc → Nat
  | .entry => ((src.span offset len).last + 1 - (src.span offset len).first).toNat + 5
  | .predicate _ => ((src.span offset len).last + 1 - (src.span offset len).first).toNat + 4
  | .scan _ piece => ((src.span offset len).last + 1 - piece).toNat + 3
  | .woken _ => 2
  | .reading => 1
  | .asleep | .done _ => 0

/-- Where a step leads to when all pieces are complete. -/
theorem advance_of_ready {s : ReadState} (h : src.Ready offset len s) {pc : Pc}
    (hadv : src.advance offset len s s.pc = some pc) :
    src.stepsLeft offset len pc + 1 = src.stepsLeft offset len s.pc ∧ ∀ r, pc ≠ .done r := by
  have hprompt := h.prompt
  cases hpc : s.pc with
  | entry | predicate timedOut =>
    rw [hpc] at hadv
    cases hadv
    simp [h.clear, stepsLeft]
  | scan timedOut piece =>
    rw [hpc] at hadv hprompt
    have hfirst : (src.span offset len).first ≤ piece := hprompt
    cases hadv
    by_cases hend : piece > (src.span offset len).last
    · simp only [hend, if_true, stepsLeft]
      refine ⟨by omega, fun r => Pc.noConfusion⟩
    · have hall := (PieceAvailabilityIndex.isSpanComplete_eq_true_iff _ _).mp h.complete
      have hc := hall piece hfirst (by omega)
      simp only [hend, hc, if_true, if_false, stepsLeft]
      refine ⟨by omega, fun r => Pc.noConfusion⟩
  | woken ok =>
    rw [hpc] at hadv hprompt
    have hok : ok = true := hprompt
    cases hadv
    simp [h.clear, hok, stepsLeft]
  | asleep | reading | done r =>
    rw [hpc] at hadv
    cases hadv

/-- One step of an undisturbed run. -/
theorem next_of_ready {s s' : ReadState} {a : Action} (h : src.Ready offset len s)
    (hn : src.next offset len s a = some s') :
    src.stepsLeft offset len s'.pc + (if a.isOwn then 1 else 0) = src.stepsLeft offset len s.pc ∧
      ∀ r, s'.pc = .done r →
        s.pc = .done r ∨ ∃ file, a = .readFile file ∧ r = readFromDisk file offset len := by
  cases a with
  | outside call =>
    cases hn
    have hpc : (s.apply call).pc = s.pc := by cases call <;> rfl
    rw [hpc]
    exact ⟨rfl, fun r hr => Or.inl hr⟩
  | step =>
    obtain ⟨pc, hadv, rfl⟩ := Option.map_eq_some_iff.mp hn
    obtain ⟨hleft, hdone⟩ := src.advance_of_ready offset len h hadv
    exact ⟨hleft, fun r hr => absurd hr (hdone r)⟩
  | wake | timeout =>
    -- a reader that does not sleep is not woken
    have hprompt := h.prompt
    simp only [next] at hn
    split at hn
    · rename_i hpc
      rw [hpc] at hprompt
      exact absurd hprompt id
    · cases hn
  | readFile file =>
    simp only [next] at hn
    split at hn
    · rename_i hpc
      cases hn
      rw [hpc]
      exact ⟨rfl, fun r hr => Or.inr ⟨file, rfl, (Pc.done.inj hr).symm⟩⟩
    · cases hn

/-- An own step is enabled until the read has ended. -/
theorem enabled_of_ready {s : ReadState} (h : src.Ready offset len s) (file : Option (List Byte)) :
    (∃ r, s.pc = .done r) ∨ ∃ a s', a.isOwn = true ∧ (a = .step ∨ a = .readFile file) ∧
      src.next offset len s a = some s' := by
  have hprompt := h.prompt
  cases hpc : s.pc with
  | entry | predicate timedOut | scan timedOut piece | woken ok =>
    obtain ⟨s', hs'⟩ : ∃ s', src.next offset len s .step = some s' := by
      simp only [next, hpc, advance, Option.map_some, Option.some.injEq, exists_eq']
    exact Or.inr ⟨.step, s', rfl, Or.inl rfl, hs'⟩
  | asleep =>
    rw [hpc] at hprompt
    exact absurd hprompt id
  | reading =>
    obtain ⟨s', hs'⟩ : ∃ s', src.next offset len s (.readFile file) = some s' := by
      simp only [next, hpc, Option.some.injEq, exists_eq']
    exact Or.inr ⟨.readFile file, s', rfl, Or.inr rfl, hs'⟩
  | done r => exact Or.inl ⟨r, rfl⟩

/-- What there is to say of every run of a read that nothing disturbs. -/
structure Prompt (D : List Byte) (acts : List Action) (s : ReadState) : Prop where
  awake : s.pc ≠ .asleep
  goesOn : ∀ file, (∃ r, s.pc = .done r) ∨ ∃ a s', a.isOwn = true ∧
    (a = .step ∨ a = .readFile file) ∧ src.next offset len s a = some s'
  steps : acts.countP Action.isOwn + src.stepsLeft offset len s.pc =
    ((src.span offset len).last + 1 - (src.span offset len).first).toNat + 5
  answer : ∀ r, s.pc = .done r → r = .ok (slice D offset len)

/-- The file opens and has the bytes. -/
theorem readFromDisk_of_undisturbed (hm : src.mapper.WellFormed) (h0 : 0 ≤ offset)
    (hlen : 1 ≤ len) (hend : offset + len ≤ src.fileSize) {path : CxxString}
    (hpath : src.filePath = path) {D : List Byte} {s : ReadState} {file : Option (List Byte)}
    (hready : src.Ready offset len s) (hs : src.Undisturbed path D s (.readFile file)) :
    readFromDisk file offset len = .ok (slice D offset len) := by
  cases file with
  | none => exact absurd rfl (hs.opens hpath)
  | some bytes =>
    have hneg : ¬offset < 0 := by omega
    have hread : readFromDisk (some bytes) offset len =
        .ok ((bytes.drop offset.toNat).take len.toNat) := by
      simp only [readFromDisk, if_neg hneg]
    have hdata := src.readFromDisk_of_holdsPieces offset len hm h0 hlen hend hready.complete
      (hs.finds hpath bytes rfl) hread
    rw [hread, hdata]
    rfl

theorem prompt_of_undisturbed (hm : src.mapper.WellFormed) (h0 : 0 ≤ offset) (hlen : 1 ≤ len)
    (hend : offset + len ≤ src.fileSize) {path : CxxString} (hpath : src.filePath = path)
    {D : List Byte} {s0 s : ReadState} {acts : List Action}
    (hentry : s0.pc = .entry) (hready : src.Ready offset len s0)
    (hs : (src.reader offset len).exec s0 acts = some s)
    (hacts : (src.reader offset len).EachStep (src.Undisturbed path D) s0 acts) :
    src.Prompt offset len D acts s := by
  have hrun : src.Ready offset len s ∧
      acts.countP Action.isOwn + src.stepsLeft offset len s.pc = src.stepsLeft offset len s0.pc ∧
      ∀ r, s.pc = .done r → r = .ok (slice D offset len) := by
    revert hacts
    apply Runs.System.exec_history _ (fun acts s =>
      (src.reader offset len).EachStep (src.Undisturbed path D) s0 acts → src.Ready offset len s ∧
        acts.countP Action.isOwn + src.stepsLeft offset len s.pc = src.stepsLeft offset len s0.pc ∧
        ∀ r, s.pc = .done r → r = .ok (slice D offset len)) _ _ hs
    · intro _
      refine ⟨hready, by simp, ?_⟩
      intro r hr
      rw [hentry] at hr
      cases hr
    · intro es u a u' hu ih hn hacts
      have hpre : (src.reader offset len).EachStep (src.Undisturbed path D) s0 es := by
        intro pre e post v hes hv
        exact hacts pre e (post ++ [a]) v (by simp [hes]) hv
      obtain ⟨hreadyu, hcount, hanswer⟩ := ih hpre
      have hua : src.Undisturbed path D u a := hacts es a [] u rfl hu
      obtain ⟨hleft, hdone⟩ := src.next_of_ready offset len hreadyu hn
      refine ⟨src.ready_next offset len hreadyu hua.alive hn, ?_, ?_⟩
      · rw [List.countP_append, List.countP_singleton]
        omega
      · intro r hr
        rcases hdone r hr with hold | ⟨file, rfl, rfl⟩
        · exact hanswer r hold
        · exact src.readFromDisk_of_undisturbed offset len hm h0 hlen hend hpath hreadyu hua
  obtain ⟨hlast, hcount, hanswer⟩ := hrun
  have hprompt := hlast.prompt
  refine ⟨?_, src.enabled_of_ready offset len hlast, ?_, hanswer⟩
  · intro hpc
    rw [hpc] at hprompt
    exact hprompt
  · rw [hcount, hentry]
    rfl

/-- A read that nothing disturbs can be run to its end. -/
theorem exists_end_of_ready (path : CxxString) (D : List Byte) {s : ReadState}
    (h : src.Ready offset len s) :
    ∃ acts s', (src.reader offset len).exec s acts = some s' ∧
      (src.reader offset len).EachStep (src.Undisturbed path D) s acts ∧ ∃ r, s'.pc = .done r := by
  generalize hk : src.stepsLeft offset len s.pc = k
  induction k generalizing s with
  | zero =>
    rcases src.enabled_of_ready offset len h (some D) with hdone | ⟨a, s', hown, _, hn⟩
    · exact ⟨[], s, rfl, Runs.System.eachStep_nil _ _ s, hdone⟩
    · have hleft := (src.next_of_ready offset len h hn).1
      rw [hown, hk] at hleft
      exact absurd hleft (by simp)
  | succ k ih =>
    rcases src.enabled_of_ready offset len h (some D) with hdone | ⟨a, s', hown, ha, hn⟩
    · exact ⟨[], s, rfl, Runs.System.eachStep_nil _ _ s, hdone⟩
    · have hquiet : src.Undisturbed path D s a := by
        rcases ha with rfl | rfl
        · exact ⟨by simp, by simp, fun _ file hfile => by cases hfile⟩
        · refine ⟨by simp, by simp, ?_⟩
          intro _ file hfile
          cases hfile
          exact fun i _ => rfl
      have hleft := (src.next_of_ready offset len h hn).1
      rw [hown, hk] at hleft
      have hready := src.ready_next offset len h hquiet.alive hn
      obtain ⟨acts, t, ht, hacts, hend⟩ := ih hready (by simpa using hleft)
      refine ⟨a :: acts, t, Runs.System.exec_cons_iff _ |>.mpr ⟨s', hn, ht⟩, ?_, hend⟩
      refine .cons _ hquiet ?_
      intro u hu
      have hsame : src.next offset len s a = some u := hu
      cases hn.symm.trans hsame
      exact hacts

end Reader

/-- `result` is what an undisturbed read has returned that began when the index was `avail`, or
later. -/
def ReturnsUndisturbed (src : ByteSource) (avail : PieceAvailabilityIndex) (path : CxxString)
    (D : List Byte) (offset len : Int) (result : Result (List Byte)) : Prop :=
  ∃ history acts s, .cancel ∉ history ∧
    (src.reader offset len).exec (started ⟨avail, false, .entry⟩ history) acts = some s ∧
    (src.reader offset len).EachStep (src.Undisturbed path D)
      (started ⟨avail, false, .entry⟩ history) acts ∧ s.pc = .done result

theorem not_cancelled_foldl {history : List Outside} (h : .cancel ∉ history) {w : ReadState}
    (hw : w.cancelled = false) : (history.foldl ReadState.apply w).cancelled = false := by
  induction history generalizing w with
  | nil => exact hw
  | cons call rest ih =>
    apply ih (fun hm => h (List.mem_cons_of_mem _ hm))
    cases call with
    | markComplete piece => exact hw
    | cancel => exact absurd List.mem_cons_self h

/-- Every piece of the file is complete. -/
def Downloaded (src : ByteSource) (avail : PieceAvailabilityIndex) : Prop :=
  ∀ p, src.mapper.firstPiece ≤ p → p < src.mapper.endPiece → avail.isComplete p = true

theorem isAvailable_of_downloaded {src : ByteSource} (hm : src.mapper.WellFormed)
    {avail : PieceAvailabilityIndex} (h : src.Downloaded avail) {offset len : Int}
    (h0 : 0 ≤ offset) (hlen : 1 ≤ len) (hend : offset + len ≤ src.fileSize) :
    src.isAvailable avail offset len = true := by
  unfold fileSize at hend
  have hl := hm.fs.pieceLength_pos
  have hfirst : src.mapper.firstPiece ≤ (src.mapper.map ⟨offset, offset + len - 1⟩).first ∧
      (src.mapper.map ⟨offset, offset + len - 1⟩).first < src.mapper.endPiece :=
    ByteRangeMapper.first_map_mem hm h0 (by simp only; omega)
  have hlast : (src.mapper.map ⟨offset, offset + len - 1⟩).last =
      (src.mapper.fileOffset + (offset + len - 1)) / src.mapper.fs.pieceLength :=
    ByteRangeMapper.last_map hm (by simp only; omega) (by simp only; omega)
  have hend' := ByteRangeMapper.endPiece_eq hm (by omega)
  have hle := Int.ediv_le_ediv hl (a := src.mapper.fileOffset + (offset + len - 1))
    (b := src.mapper.fileOffset + (src.mapper.fileSize - 1)) (by omega)
  apply (PieceAvailabilityIndex.isSpanComplete_eq_true_iff _ _).mpr
  intro p h1 h2
  have h1' : (src.mapper.map ⟨offset, offset + len - 1⟩).first ≤ p := h1
  have h2' : p ≤ (src.mapper.map ⟨offset, offset + len - 1⟩).last := h2
  exact h p (by omega) (by omega)

theorem ready_of_downloaded {src : ByteSource} (hm : src.mapper.WellFormed)
    {avail : PieceAvailabilityIndex} (h : src.Downloaded avail) {offset len : Int}
    (h0 : 0 ≤ offset) (hlen : 1 ≤ len) (hend : offset + len ≤ src.fileSize)
    {history : List Outside} (hhistory : .cancel ∉ history) :
    src.Ready offset len (started ⟨avail, false, .entry⟩ history) := by
  refine ⟨?_, not_cancelled_foldl hhistory rfl, trivial⟩
  exact src.spanComplete_foldl offset len (w := ⟨avail, false, .entry⟩)
    (isAvailable_of_downloaded hm h h0 hlen hend)

theorem slice_of_returnsUndisturbed {src : ByteSource} (hm : src.mapper.WellFormed)
    {avail : PieceAvailabilityIndex} (h : src.Downloaded avail) {path : CxxString}
    (hpath : src.filePath = path) {D : List Byte} {offset len : Int}
    (h0 : 0 ≤ offset) (hlen : 1 ≤ len) (hend : offset + len ≤ src.fileSize)
    {result : Result (List Byte)}
    (hresult : src.ReturnsUndisturbed avail path D offset len result) :
    result = .ok (slice D offset len) := by
  obtain ⟨history, acts, s, hhistory, hs, hacts, hpc⟩ := hresult
  have hready := ready_of_downloaded hm h h0 hlen hend hhistory
  exact (src.prompt_of_undisturbed offset len hm h0 hlen hend hpath rfl hready hs hacts).answer
    result hpc

/-- There is such a read. -/
theorem returnsUndisturbed_slice {src : ByteSource} (hm : src.mapper.WellFormed)
    {avail : PieceAvailabilityIndex} (h : src.Downloaded avail) {path : CxxString}
    (hpath : src.filePath = path) (D : List Byte) {offset len : Int}
    (h0 : 0 ≤ offset) (hlen : 1 ≤ len) (hend : offset + len ≤ src.fileSize) :
    src.ReturnsUndisturbed avail path D offset len (.ok (slice D offset len)) := by
  have hready : src.Ready offset len (started ⟨avail, false, .entry⟩ []) :=
    ready_of_downloaded hm h h0 hlen hend List.not_mem_nil
  obtain ⟨acts, s, hs, hacts, r, hpc⟩ := src.exists_end_of_ready offset len path D hready
  have hanswer : r = .ok (slice D offset len) :=
    (src.prompt_of_undisturbed offset len hm h0 hlen hend hpath rfl hready hs hacts).answer r hpc
  exact ⟨[], acts, s, List.not_mem_nil, hs, hacts, hanswer ▸ hpc⟩

end ByteSource

end SeekServe
