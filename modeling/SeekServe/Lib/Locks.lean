import SeekServe.Lib.Runs

/-!
# Locks, threads and the order of waiting

Threads take and give back mutexes, start other threads and wait for their end. When all
that a thread waits for ranks above all that it holds, no interleaving gets stuck.
-/

namespace Locks

set_option autoImplicit false

universe u v w

variable {L : Type u} {T : Type v} {ρ : Type w}

inductive Act (L : Type u) (T : Type v) where
  | acquire (l : L)
  | release (l : L)
  | start (t : T)
  | join (t : T)

/-- A program without its data: `guard` is a lock with a scope, and `wait` a timed wait on a
condition variable, which gives the lock back and takes it again. -/
inductive Prog (L : Type u) (T : Type v) where
  | skip
  | guard (l : L) (body : Prog L T)
  | wait (l : L)
  | start (t : T)
  | join (t : T)
  | seq (p q : Prog L T)
  | either (p q : Prog L T)
  | loop (p : Prog L T)

namespace Prog

/-- What a run of a program may do. -/
inductive Trace : Prog L T → List (Act L T) → Prop
  | skip : Trace skip []
  | guard {l : L} {p : Prog L T} {as : List (Act L T)} (h : Trace p as) :
      Trace (guard l p) (.acquire l :: (as ++ [.release l]))
  | wait (l : L) : Trace (wait l) [.release l, .acquire l]
  | start (t : T) : Trace (start t) [.start t]
  | join (t : T) : Trace (join t) [.join t]
  | seq {p q : Prog L T} {as bs : List (Act L T)} (hp : Trace p as) (hq : Trace q bs) :
      Trace (seq p q) (as ++ bs)
  | left {p : Prog L T} (q : Prog L T) {as : List (Act L T)} (h : Trace p as) :
      Trace (either p q) as
  | right (p : Prog L T) {q : Prog L T} {as : List (Act L T)} (h : Trace q as) :
      Trace (either p q) as
  | done (p : Prog L T) : Trace (loop p) []
  | again {p : Prog L T} {as bs : List (Act L T)} (hp : Trace p as)
      (hloop : Trace (loop p) bs) : Trace (loop p) (as ++ bs)

/-- One program after the other. -/
def inTurn : List (Prog L T) → Prog L T
  | [] => skip
  | p :: ps => seq p (inTurn ps)

/-- A program that may also be left out. -/
def maybe (p : Prog L T) : Prog L T := either skip p

end Prog

/-- Ranks of the locks, and of the ends of the threads. -/
structure Ranks (L : Type u) (T : Type v) (ρ : Type w) where
  lock : L → ρ
  last : T → ρ

namespace Ranks

variable [LT ρ] (o : Ranks L T ρ)

/-- A rank above all that a thread holds; its own end is something that it holds. -/
def Above (t : T) (held : List L) (r : ρ) : Prop := o.last t < r ∧ ∀ l ∈ held, o.lock l < r

/-- Actions of a thread that wait only above what is held, and end with nothing held. -/
def Runs (t : T) : List L → List (Act L T) → Prop
  | held, [] => held = []
  | held, .acquire l :: as => o.Above t held (o.lock l) ∧ Runs t (l :: held) as
  | held, .release l :: as => ∃ rest, held = l :: rest ∧ Runs t rest as
  | held, .start _ :: as => Runs t held as
  | held, .join u :: as => o.Above t held (o.last u) ∧ Runs t held as

end Ranks

namespace Prog

variable [LT ρ] (o : Ranks L T ρ)

/-- The check of a program: every lock and every join in it is above what is held there. -/
def Ordered (t : T) : List L → Prog L T → Prop
  | _, skip => True
  | held, guard l p => o.Above t held (o.lock l) ∧ Ordered t (l :: held) p
  | held, wait l => ∃ rest, held = l :: rest ∧ o.Above t rest (o.lock l)
  | _, start _ => True
  | held, join u => o.Above t held (o.last u)
  | held, seq p q => Ordered t held p ∧ Ordered t held q
  | held, either p q => Ordered t held p ∧ Ordered t held q
  | held, loop p => Ordered t held p

section

variable {o} {t : T} {held : List L} {p q : Prog L T}

@[simp] theorem ordered_skip : (skip : Prog L T).Ordered o t held := trivial

@[simp] theorem ordered_guard {l : L} :
    (guard l p).Ordered o t held ↔ o.Above t held (o.lock l) ∧ p.Ordered o t (l :: held) :=
  Iff.rfl

@[simp] theorem ordered_wait {l : L} :
    (wait l : Prog L T).Ordered o t (l :: held) ↔ o.Above t held (o.lock l) := by
  constructor
  · intro ⟨rest, hrest, habove⟩
    cases hrest
    exact habove
  · intro habove
    exact ⟨held, rfl, habove⟩

@[simp] theorem ordered_start {u : T} : (start u : Prog L T).Ordered o t held := trivial

@[simp] theorem ordered_join {u : T} :
    (join u : Prog L T).Ordered o t held ↔ o.Above t held (o.last u) := Iff.rfl

@[simp] theorem ordered_seq :
    (seq p q).Ordered o t held ↔ p.Ordered o t held ∧ q.Ordered o t held := Iff.rfl

@[simp] theorem ordered_either :
    (either p q).Ordered o t held ↔ p.Ordered o t held ∧ q.Ordered o t held := Iff.rfl

@[simp] theorem ordered_loop : (loop p).Ordered o t held ↔ p.Ordered o t held := Iff.rfl

@[simp] theorem ordered_maybe : (maybe p).Ordered o t held ↔ p.Ordered o t held := by
  simp [maybe]

@[simp] theorem ordered_inTurn {ps : List (Prog L T)} :
    (inTurn ps).Ordered o t held ↔ ∀ p ∈ ps, p.Ordered o t held := by
  induction ps with
  | nil => simp [inTurn]
  | cons p ps ih => simp [inTurn, ih]

end

variable {o}

/-- A checked program waits in order, and leaves held what was held before. -/
theorem Trace.runs {t : T} {p : Prog L T} {as : List (Act L T)} (htrace : p.Trace as)
    {held : List L} (hp : p.Ordered o t held) {rest : List (Act L T)}
    (hrest : o.Runs t held rest) : o.Runs t held (as ++ rest) := by
  induction htrace generalizing held rest with
  | skip => exact hrest
  | @guard l p as h ih =>
    obtain ⟨habove, hbody⟩ := hp
    have hlast : o.Runs t (l :: held) (.release l :: rest) := ⟨held, rfl, hrest⟩
    have hinner := ih hbody hlast
    rw [List.cons_append, List.append_assoc]
    exact ⟨habove, hinner⟩
  | wait l =>
    obtain ⟨below, rfl, habove⟩ := hp
    exact ⟨below, rfl, habove, hrest⟩
  | start t => exact hrest
  | join u => exact ⟨hp, hrest⟩
  | seq _ _ ihp ihq =>
    rw [List.append_assoc]
    apply ihp hp.1
    exact ihq hp.2 hrest
  | left _ _ ih => exact ih hp.1 hrest
  | right _ _ ih => exact ih hp.2 hrest
  | done _ => exact hrest
  | again _ _ ihp ihloop =>
    rw [List.append_assoc]
    apply ihp hp
    exact ihloop hp hrest

/-- Every program has some run. -/
theorem exists_trace (p : Prog L T) : ∃ as, p.Trace as := by
  induction p with
  | skip => exact ⟨_, .skip⟩
  | guard l p ih =>
    obtain ⟨as, h⟩ := ih
    exact ⟨_, .guard h⟩
  | wait l => exact ⟨_, .wait l⟩
  | start t => exact ⟨_, .start t⟩
  | join t => exact ⟨_, .join t⟩
  | seq p q ihp ihq =>
    obtain ⟨as, hp⟩ := ihp
    obtain ⟨bs, hq⟩ := ihq
    exact ⟨_, .seq hp hq⟩
  | either p q ihp _ =>
    obtain ⟨as, hp⟩ := ihp
    exact ⟨_, .left q hp⟩
  | loop p _ => exact ⟨_, .done p⟩

end Prog

/-- The actions still to come, the owner of each mutex, the threads that were started, and
whether the process has been ended before its threads were. -/
structure State (L : Type u) (T : Type v) where
  todo : T → List (Act L T)
  owner : L → Option T
  started : T → Bool
  ended : Bool

namespace State

variable [DecidableEq L] [DecidableEq T]

def next (s : State L T) (t : T) : Option (State L T) :=
  if s.started t = true ∧ s.ended = false then
    match s.todo t with
    | [] => none
    | .acquire l :: as =>
      if s.owner l = none then
        some { s with
          todo := Function.update s.todo t as
          owner := Function.update s.owner l (some t) }
      else none
    | .release l :: as =>
      -- a mutex is given back by the thread that holds it
      if s.owner l = some t then
        some { s with
          todo := Function.update s.todo t as
          owner := Function.update s.owner l none }
      else none
    | .start u :: as =>
      some { s with
        todo := Function.update s.todo t as
        started := Function.update s.started u true }
    | .join u :: as =>
      -- to join oneself is an error, which nothing catches
      if u = t then some { s with todo := Function.update s.todo t as, ended := true }
      -- a thread that was not started is not joinable
      else if s.started u = true ∧ s.todo u ≠ [] then none
      else some { s with todo := Function.update s.todo t as }
  else none

/-- What the threads do next, in the order in which the steps are taken. -/
def system : Runs.System (State L T) T where
  next := next

/-- The five kinds of steps. -/
theorem next_cases {s s' : State L T} {t : T} (h : s.next t = some s') :
    s.started t = true ∧ s.ended = false ∧
      ((∃ l as, s.todo t = .acquire l :: as ∧ s.owner l = none ∧
          s' = ⟨Function.update s.todo t as, Function.update s.owner l (some t), s.started,
            s.ended⟩) ∨
        (∃ l as, s.todo t = .release l :: as ∧ s.owner l = some t ∧
          s' = ⟨Function.update s.todo t as, Function.update s.owner l none, s.started,
            s.ended⟩) ∨
        (∃ u as, s.todo t = .start u :: as ∧
          s' = ⟨Function.update s.todo t as, s.owner, Function.update s.started u true,
            s.ended⟩) ∨
        (∃ u as, s.todo t = .join u :: as ∧ ¬ (s.started u = true ∧ s.todo u ≠ []) ∧
          s' = ⟨Function.update s.todo t as, s.owner, s.started, s.ended⟩) ∨
        ∃ as, s.todo t = .join t :: as ∧
          s' = ⟨Function.update s.todo t as, s.owner, s.started, true⟩) := by
  unfold next at h
  split at h
  case isFalse => cases h
  case isTrue hlive =>
    refine ⟨hlive.1, hlive.2, ?_⟩
    split at h
    case h_1 => cases h
    case h_2 l as htodo =>
      split at h
      case isTrue howner =>
        cases h
        exact Or.inl ⟨l, as, htodo, howner, rfl⟩
      case isFalse => cases h
    case h_3 l as htodo =>
      split at h
      case isTrue howner =>
        cases h
        exact Or.inr (Or.inl ⟨l, as, htodo, howner, rfl⟩)
      case isFalse => cases h
    case h_4 u as htodo =>
      cases h
      exact Or.inr (Or.inr (Or.inl ⟨u, as, htodo, rfl⟩))
    case h_5 u as htodo =>
      split at h
      case isTrue hself =>
        cases h
        rw [hself] at htodo
        exact Or.inr (Or.inr (Or.inr (Or.inr ⟨as, htodo, rfl⟩)))
      case isFalse =>
        split at h
        case isTrue => cases h
        case isFalse hjoin =>
          cases h
          exact Or.inr (Or.inr (Or.inr (Or.inl ⟨u, as, htodo, hjoin, rfl⟩)))

/-- A step takes one action of its thread, and leaves the other threads theirs. -/
theorem todo_next {s s' : State L T} {t : T} (h : s.next t = some s') :
    ∃ a as, s.todo t = a :: as ∧ s'.todo = Function.update s.todo t as := by
  obtain ⟨-, -, ⟨l, as, htodo, -, rfl⟩ | ⟨l, as, htodo, -, rfl⟩ | ⟨u, as, htodo, rfl⟩ |
    ⟨u, as, htodo, -, rfl⟩ | ⟨as, htodo, rfl⟩⟩ := next_cases h
  · exact ⟨.acquire l, as, htodo, rfl⟩
  · exact ⟨.release l, as, htodo, rfl⟩
  · exact ⟨.start u, as, htodo, rfl⟩
  · exact ⟨.join u, as, htodo, rfl⟩
  · exact ⟨.join t, as, htodo, rfl⟩

theorem started_next {s s' : State L T} {t u : T} (h : s.next t = some s')
    (hu : s.started u = true) : s'.started u = true := by
  obtain ⟨-, -, ⟨l, as, -, -, rfl⟩ | ⟨l, as, -, -, rfl⟩ | ⟨v, as, -, rfl⟩ | ⟨v, as, -, -, rfl⟩ |
    ⟨as, -, rfl⟩⟩ := next_cases h
  · exact hu
  · exact hu
  · by_cases huv : u = v
    · rw [huv]
      exact Function.update_self _ _ _
    · rw [← hu]
      exact Function.update_of_ne huv _ _
  · exact hu
  · exact hu

/-- Only these threads have something to do. -/
def Idle (threads : Finset T) (s : State L T) : Prop := ∀ t, t ∉ threads → s.todo t = []

theorem Idle.next {threads : Finset T} {s s' : State L T} {t : T} (hidle : s.Idle threads)
    (h : s.next t = some s') : s'.Idle threads := by
  obtain ⟨a, as, htodo, hnext⟩ := todo_next h
  intro u hu
  have hut : u ≠ t := by
    intro heq
    have hnil := hidle u hu
    rw [heq, htodo] at hnil
    cases hnil
  rw [hnext, Function.update_of_ne hut]
  exact hidle u hu

/-- How many actions are left. -/
def work (threads : Finset T) (s : State L T) : Nat := ∑ t ∈ threads, (s.todo t).length

theorem work_next {threads : Finset T} {s s' : State L T} {t : T} (hidle : s.Idle threads)
    (h : s.next t = some s') : s.work threads = s'.work threads + 1 := by
  obtain ⟨a, as, htodo, hnext⟩ := todo_next h
  have ht : t ∈ threads := by
    by_contra hnot
    have hnil := hidle t hnot
    rw [htodo] at hnil
    cases hnil
  have hother : ∀ u ∈ threads.erase t, (s'.todo u).length = (s.todo u).length := by
    intro u hu
    rw [hnext, Function.update_of_ne (Finset.ne_of_mem_erase hu)]
  unfold work
  rw [← Finset.add_sum_erase _ _ ht, ← Finset.add_sum_erase _ (fun u => (s'.todo u).length) ht,
    Finset.sum_congr rfl hother, htodo, hnext, Function.update_self, List.length_cons]
  omega

/-- No run is longer than the actions that it takes. -/
theorem work_exec {threads : Finset T} {s s' : State L T} {ts : List T}
    (hidle : s.Idle threads) (hrun : system.exec s ts = some s') :
    s'.Idle threads ∧ s.work threads = s'.work threads + ts.length := by
  induction ts generalizing s with
  | nil =>
    cases hrun
    exact ⟨hidle, rfl⟩
  | cons t ts ih =>
    obtain ⟨u, hu, hrest⟩ := system.exec_cons_iff.mp hrun
    have hone := work_next hidle hu
    obtain ⟨hlast, hlater⟩ := ih (hidle.next hu) hrest
    refine ⟨hlast, ?_⟩
    rw [hone, hlater, List.length_cons]
    omega

theorem started_exec {s s' : State L T} {t : T} (ht : s.started t = true) {ts : List T}
    (hrun : system.exec s ts = some s') : s'.started t = true := by
  apply system.exec_invariant_of_step (I := fun u => u.started t = true) _ ht hrun
  intro u v u' hu h
  exact started_next h hu

/-- Nothing is left to do, and the process was not ended before. -/
structure Finished (s : State L T) : Prop where
  alive : s.ended = false
  done : ∀ t, s.started t = true → s.todo t = []

/-- Which locks each thread holds, the last one first. -/
structure Held [LT ρ] (o : Ranks L T ρ) (s : State L T) (held : T → List L) : Prop where
  todo : ∀ t, o.Runs t (held t) (s.todo t)
  owner : ∀ l t, s.owner l = some t ↔ l ∈ held t
  sorted : ∀ t, (held t).Pairwise fun l k => o.lock k < o.lock l
  started : ∀ t, held t ≠ [] → s.started t = true
  alive : s.ended = false

namespace Held

section step

variable [Preorder ρ] {o : Ranks L T ρ} {s : State L T} {held : T → List L}

theorem acquire (hs : s.Held o held) {t : T} {l : L} {as : List (Act L T)}
    (hstarted : s.started t = true) (htodo : s.todo t = .acquire l :: as)
    (howner : s.owner l = none) :
    Held o ⟨Function.update s.todo t as, Function.update s.owner l (some t), s.started, s.ended⟩
      (Function.update held t (l :: held t)) := by
  have hruns := hs.todo t
  rw [htodo] at hruns
  obtain ⟨⟨-, habove⟩, hruns⟩ := hruns
  have hfree : ∀ u, l ∉ held u := by
    intro u hl
    have howned := (hs.owner l u).mpr hl
    rw [howner] at howned
    cases howned
  constructor
  · intro u
    by_cases hu : u = t
    · subst hu
      simpa using hruns
    · simpa [hu] using hs.todo u
  · intro k u
    by_cases hk : k = l
    · subst hk
      by_cases hu : u = t
      · subst hu
        simp
      · simp [hu, hfree u, Ne.symm hu]
    · by_cases hu : u = t
      · subst hu
        simpa [hk] using hs.owner k u
      · simpa [hk, hu] using hs.owner k u
  · intro u
    by_cases hu : u = t
    · subst hu
      simpa using ⟨habove, hs.sorted u⟩
    · simpa [hu] using hs.sorted u
  · intro u hne
    by_cases hu : u = t
    · rw [hu]
      exact hstarted
    · apply hs.started u
      simpa [hu] using hne
  · exact hs.alive

theorem release (hs : s.Held o held) {t : T} {l : L} {as : List (Act L T)}
    (htodo : s.todo t = .release l :: as) :
    Held o ⟨Function.update s.todo t as, Function.update s.owner l none, s.started, s.ended⟩
      (Function.update held t (held t).tail) := by
  have hruns := hs.todo t
  rw [htodo] at hruns
  obtain ⟨rest, hheld, hruns⟩ := hruns
  have hsorted := hs.sorted t
  rw [hheld] at hsorted
  obtain ⟨hbelow, hsorted⟩ := List.pairwise_cons.mp hsorted
  have hmem : l ∈ held t := by
    rw [hheld]
    exact List.mem_cons_self
  have howner := (hs.owner l t).mpr hmem
  have hfree : ∀ u, u ≠ t → l ∉ held u := by
    intro u hu hl
    have howned := (hs.owner l u).mpr hl
    rw [howner] at howned
    exact hu (Option.some.inj howned).symm
  have hrest : l ∉ rest := fun hl => lt_irrefl _ (hbelow l hl)
  constructor
  · intro u
    by_cases hu : u = t
    · subst hu
      simpa [hheld] using hruns
    · simpa [hu] using hs.todo u
  · intro k u
    by_cases hk : k = l
    · subst hk
      by_cases hu : u = t
      · subst hu
        simp [hheld, hrest]
      · simp [hu, hfree u hu]
    · have hkeep := hs.owner k u
      by_cases hu : u = t
      · subst hu
        rw [hheld] at hkeep
        simpa [hk, hheld] using hkeep
      · simpa [hk, hu] using hkeep
  · intro u
    by_cases hu : u = t
    · subst hu
      simpa [hheld] using hsorted
    · simpa [hu] using hs.sorted u
  · intro u hne
    apply hs.started u
    by_cases hu : u = t
    · subst hu
      rw [hheld]
      exact List.cons_ne_nil l rest
    · simpa [hu] using hne
  · exact hs.alive

omit [DecidableEq L] in
/-- The actions that leave the locks alone. -/
theorem pass (hs : s.Held o held) {t : T} {as : List (Act L T)}
    (hruns : o.Runs t (held t) as) {started : T → Bool}
    (hstarted : ∀ u, s.started u = true → started u = true) :
    Held o ⟨Function.update s.todo t as, s.owner, started, s.ended⟩ held := by
  constructor
  · intro u
    by_cases hu : u = t
    · subst hu
      simpa using hruns
    · simpa [hu] using hs.todo u
  · exact hs.owner
  · exact hs.sorted
  · intro u hne
    exact hstarted u (hs.started u hne)
  · exact hs.alive

/-- Every step of every thread keeps the order. -/
theorem step (hs : s.Held o held) {s' : State L T} {t : T} (h : s.next t = some s') :
    ∃ held', s'.Held o held' := by
  have hruns := hs.todo t
  obtain ⟨hstarted, -, ⟨l, as, htodo, howner, rfl⟩ | ⟨l, as, htodo, -, rfl⟩ |
    ⟨u, as, htodo, rfl⟩ | ⟨u, as, htodo, -, rfl⟩ | ⟨as, htodo, -⟩⟩ := next_cases h
  · exact ⟨_, hs.acquire hstarted htodo howner⟩
  · exact ⟨_, hs.release htodo⟩
  · rw [htodo] at hruns
    have hlater : o.Runs t (held t) as := hruns
    exact ⟨held, hs.pass hlater fun v hv => started_next h hv⟩
  · rw [htodo] at hruns
    exact ⟨held, hs.pass hruns.2 fun v hv => hv⟩
  · -- no end of a thread ranks above itself
    rw [htodo] at hruns
    exact absurd hruns.1.1 (lt_irrefl _)

end step

omit [DecidableEq L] [DecidableEq T] in
/-- With nothing left to do, no lock is held. -/
theorem free_of_finished [LT ρ] {o : Ranks L T ρ} {s : State L T} {held : T → List L}
    (hs : s.Held o held) (hfinished : s.Finished) (l : L) : s.owner l = none := by
  cases howner : s.owner l with
  | none => rfl
  | some t =>
    have hl := (hs.owner l t).mp howner
    have hstarted := hs.started t (List.ne_nil_of_mem hl)
    have hruns := hs.todo t
    rw [hfinished.done t hstarted] at hruns
    have hnone : held t = [] := hruns
    rw [hnone] at hl
    cases hl

end Held

/-- What a thread that cannot take its next step waits for. -/
def Waits [LT ρ] (o : Ranks L T ρ) (s : State L T) (t : T) (r : ρ) : Prop :=
  (∃ l as, s.todo t = .acquire l :: as ∧ s.owner l ≠ none ∧ r = o.lock l) ∨
    ∃ u as, s.todo t = .join u :: as ∧ s.started u = true ∧ s.todo u ≠ [] ∧ r = o.last u

theorem Held.waits [LT ρ] {o : Ranks L T ρ} {s : State L T} {held : T → List L}
    (hs : s.Held o held) {t : T} (hstarted : s.started t = true) (htodo : s.todo t ≠ [])
    (hblocked : s.next t = none) : ∃ r, s.Waits o t r ∧ o.Above t (held t) r := by
  have hruns := hs.todo t
  unfold next at hblocked
  rw [if_pos ⟨hstarted, hs.alive⟩] at hblocked
  cases hacts : s.todo t with
  | nil => exact absurd hacts htodo
  | cons a as =>
    rw [hacts] at hruns hblocked
    cases a with
    | acquire l =>
      refine ⟨o.lock l, Or.inl ⟨l, as, hacts, ?_, rfl⟩, hruns.1⟩
      intro hfree
      simp [hfree] at hblocked
    | release l =>
      -- the lock that a thread gives back is its own
      obtain ⟨rest, hheld, -⟩ := hruns
      have howner : s.owner l = some t := by
        apply (hs.owner l t).mpr
        rw [hheld]
        exact List.mem_cons_self
      simp [howner] at hblocked
    | start u => cases hblocked
    | join u =>
      have hwait : s.started u = true ∧ s.todo u ≠ [] := by
        simp only at hblocked
        split at hblocked
        · cases hblocked
        · by_contra hnot
          rw [if_neg hnot] at hblocked
          cases hblocked
      exact ⟨o.last u, Or.inr ⟨u, as, hacts, hwait.1, hwait.2, rfl⟩, hruns.1⟩

omit [DecidableEq L] [DecidableEq T] in
/-- Whoever is waited for, and waits himself, waits for something that ranks higher. -/
theorem Held.waits_above [LT ρ] {o : Ranks L T ρ} {s : State L T} {held : T → List L}
    (hs : s.Held o held) {t : T} {r : ρ} (hwaits : s.Waits o t r) :
    ∃ u, s.started u = true ∧ s.todo u ≠ [] ∧ ∀ q, o.Above u (held u) q → r < q := by
  obtain ⟨l, as, -, howner, rfl⟩ | ⟨u, as, -, hstarted, htodo, rfl⟩ := hwaits
  · obtain ⟨u, hu⟩ := Option.ne_none_iff_exists'.mp howner
    have hl := (hs.owner l u).mp hu
    refine ⟨u, hs.started u (List.ne_nil_of_mem hl), ?_, ?_⟩
    · intro hnil
      have hruns := hs.todo u
      rw [hnil] at hruns
      have hnone : held u = [] := hruns
      rw [hnone] at hl
      cases hl
    · intro q hq
      exact hq.2 l hl
  · exact ⟨u, hstarted, htodo, fun q hq => hq.1⟩

variable [LinearOrder ρ] {o : Ranks L T ρ}

/-- The locks are held in order by somebody. -/
def Orderly (o : Ranks L T ρ) (s : State L T) : Prop := ∃ held, s.Held o held

omit [DecidableEq L] [DecidableEq T] in
/-- Threads that have taken nothing yet, and wait in order. -/
theorem orderly_of_runs {todo : T → List (Act L T)} (htodo : ∀ t, o.Runs t [] (todo t))
    (started : T → Bool) : Orderly o ⟨todo, fun _ => none, started, false⟩ := by
  refine ⟨fun _ => [], htodo, ?_, fun _ => List.Pairwise.nil, fun _ h => absurd rfl h, rfl⟩
  intro l t
  constructor
  · intro h
    cases h
  · intro h
    cases h

namespace Orderly

variable {s : State L T}

theorem exec (hs : Orderly o s) {ts : List T} {s' : State L T}
    (hrun : system.exec s ts = some s') : Orderly o s' := by
  apply system.exec_invariant_of_step (I := Orderly o) _ hs hrun
  intro u t u' hu h
  obtain ⟨held, hheld⟩ := hu
  exact hheld.step h

/-- Some thread can go on as long as one has something left to do: among the threads that
cannot, one waits for what ranks highest, and whoever it waits for would wait for more. -/
theorem can_step (hs : Orderly o s) {threads : Finset T} (hidle : s.Idle threads)
    (hwork : ¬ s.Finished) : ∃ t s', s.next t = some s' := by
  by_contra hstuck
  obtain ⟨held, hheld⟩ := hs
  have hblocked : ∀ t, s.next t = none := by
    intro t
    cases h : s.next t with
    | none => rfl
    | some s' => exact absurd ⟨t, s', h⟩ hstuck
  have hwaits : ∀ t, s.started t = true → s.todo t ≠ [] →
      ∃ r, s.Waits o t r ∧ o.Above t (held t) r :=
    fun t hstarted htodo => hheld.waits hstarted htodo (hblocked t)
  have hsome : ∃ t, s.started t = true ∧ s.todo t ≠ [] := by
    by_contra hnone
    push Not at hnone
    exact hwork ⟨hheld.alive, hnone⟩
  have hfinite : {t | s.started t = true ∧ s.todo t ≠ []}.Finite := by
    apply threads.finite_toSet.subset
    intro t ht
    by_contra hnot
    exact ht.2 (hidle t hnot)
  have : Nonempty ρ := hsome.nonempty.map o.last
  choose! r hr using hwaits
  obtain ⟨t, ⟨hstarted, htodo⟩, hmax⟩ := Set.exists_max_image _ r hfinite hsome
  obtain ⟨u, hu, hutodo, habove⟩ := hheld.waits_above (hr t hstarted htodo).1
  have hhigher := habove _ (hr u hu hutodo).2
  exact absurd (hmax u ⟨hu, hutodo⟩) (not_le.mpr hhigher)

/-- Whatever was done so far, the threads can go on until nothing is left to do. -/
theorem finishes (hs : Orderly o s) {threads : Finset T} (hidle : s.Idle threads) :
    ∃ ts s', system.exec s ts = some s' ∧ s'.Finished := by
  induction hwork : s.work threads generalizing s with
  | zero =>
    refine ⟨[], s, rfl, ?_⟩
    by_contra hnot
    obtain ⟨t, s', h⟩ := hs.can_step hidle hnot
    have hone := work_next hidle h
    omega
  | succ n ih =>
    by_cases hfinished : s.Finished
    · exact ⟨[], s, rfl, hfinished⟩
    · obtain ⟨t, u, h⟩ := hs.can_step hidle hfinished
      have hone := work_next hidle h
      have hu : Orderly o u := by
        obtain ⟨held, hheld⟩ := hs
        exact hheld.step h
      obtain ⟨ts, s', hrun, hs'⟩ := ih hu (hidle.next h) (by omega)
      exact ⟨t :: ts, s', system.exec_cons_iff.mpr ⟨u, h, hrun⟩, hs'⟩

end Orderly

omit [LinearOrder ρ] in
/-- A thread that takes a lock which it holds never gets further, and keeps the lock. -/
theorem stuck_of_own {s s' : State L T} {t : T} {l : L} {as : List (Act L T)}
    (htodo : s.todo t = .acquire l :: as) (howner : s.owner l = some t) {ts : List T}
    (hrun : system.exec s ts = some s') :
    s'.todo t = .acquire l :: as ∧ s'.owner l = some t := by
  apply system.exec_invariant_of_step
    (I := fun u => u.todo t = .acquire l :: as ∧ u.owner l = some t) _ ⟨htodo, howner⟩ hrun
  intro u v u' ⟨hu, hl⟩ h
  have hne : v ≠ t := by
    intro heq
    obtain ⟨-, -, ⟨k, bs, hacts, hfree, -⟩ | ⟨k, bs, hacts, -, -⟩ | ⟨w, bs, hacts, -⟩ |
      ⟨w, bs, hacts, -, -⟩ | ⟨bs, hacts, -⟩⟩ := next_cases h
    all_goals
      rw [heq, hu] at hacts
      cases hacts
    rw [hl] at hfree
    cases hfree
  obtain ⟨-, -, ⟨k, bs, -, hfree, rfl⟩ | ⟨k, bs, -, hk, rfl⟩ | ⟨w, bs, -, rfl⟩ |
    ⟨w, bs, -, -, rfl⟩ | ⟨bs, -, rfl⟩⟩ := next_cases h
  · have hkl : l ≠ k := by
      intro heq
      rw [← heq, hl] at hfree
      cases hfree
    exact ⟨by simpa [hne.symm] using hu, by simpa [hkl] using hl⟩
  · have hkl : l ≠ k := by
      intro heq
      rw [← heq, hl] at hk
      exact hne (Option.some.inj hk).symm
    exact ⟨by simpa [hne.symm] using hu, by simpa [hkl] using hl⟩
  · exact ⟨by simpa [hne.symm] using hu, hl⟩
  · exact ⟨by simpa [hne.symm] using hu, hl⟩
  · exact ⟨by simpa [hne.symm] using hu, hl⟩

omit [LinearOrder ρ] in
/-- Nothing comes after the end of the process. -/
theorem exec_of_ended {s s' : State L T} (hended : s.ended = true) {ts : List T}
    (hrun : system.exec s ts = some s') : s' = s := by
  cases ts with
  | nil =>
    cases hrun
    rfl
  | cons t ts =>
    obtain ⟨u, h, -⟩ := system.exec_cons_iff.mp hrun
    obtain ⟨-, halive, -⟩ := next_cases h
    rw [hended] at halive
    cases halive

/-- Some run leads there. -/
def Reaches (s s' : State L T) : Prop := ∃ ts, system.exec s ts = some s'

omit [LinearOrder ρ] in
theorem Reaches.trans {s u v : State L T} (hsu : s.Reaches u) (huv : u.Reaches v) :
    s.Reaches v := by
  obtain ⟨ts, hts⟩ := hsu
  obtain ⟨us, hus⟩ := huv
  exact ⟨ts ++ us, system.exec_append_iff.mpr ⟨u, hts, hus⟩⟩

omit [LinearOrder ρ] in
theorem Reaches.of_next {s s' : State L T} {t : T} (h : s.next t = some s') : s.Reaches s' :=
  ⟨[t], system.exec_cons_iff.mpr ⟨s', h, rfl⟩⟩

/-- A thread that runs has these actions before it. -/
structure Before (s : State L T) (t : T) (as : List (Act L T)) : Prop where
  started : s.started t = true
  alive : s.ended = false
  todo : s.todo t = as

namespace Before

variable {s : State L T} {t : T} {l : L} {as : List (Act L T)}

omit [LinearOrder ρ] in
/-- A thread takes a lock that is free. -/
theorem acquire (h : s.Before t (.acquire l :: as)) (hfree : s.owner l = none) :
    ∃ s', s.Reaches s' ∧ s'.Before t as ∧ s'.owner = Function.update s.owner l (some t) := by
  have hnext : s.next t = some ⟨Function.update s.todo t as,
      Function.update s.owner l (some t), s.started, s.ended⟩ := by
    simp [next, h.started, h.alive, h.todo, hfree]
  exact ⟨_, Reaches.of_next hnext, ⟨h.started, h.alive, Function.update_self _ _ _⟩, rfl⟩

omit [LinearOrder ρ] in
theorem release (h : s.Before t (.release l :: as)) (howner : s.owner l = some t) :
    ∃ s', s.Reaches s' ∧ s'.Before t as ∧ s'.owner = Function.update s.owner l none := by
  have hnext : s.next t = some ⟨Function.update s.todo t as,
      Function.update s.owner l none, s.started, s.ended⟩ := by
    simp [next, h.started, h.alive, h.todo, howner]
  exact ⟨_, Reaches.of_next hnext, ⟨h.started, h.alive, Function.update_self _ _ _⟩, rfl⟩

omit [LinearOrder ρ] in
/-- A thread that joins itself ends the process. -/
theorem join_self (h : s.Before t (.join t :: as)) : ∃ s', s.Reaches s' ∧ s'.ended = true := by
  have hnext : s.next t = some ⟨Function.update s.todo t as, s.owner, s.started, true⟩ := by
    simp [next, h.started, h.alive, h.todo]
  exact ⟨_, Reaches.of_next hnext, rfl⟩

end Before

end State

/-- One lock after the other, each given back at once. -/
def brief (ls : List L) : List (Act L T) := ls.flatMap fun l => [.acquire l, .release l]

theorem brief_append (ls ks : List L) :
    (brief (ls ++ ks) : List (Act L T)) = brief ls ++ brief ks :=
  List.flatMap_append

namespace State

variable [DecidableEq L] [DecidableEq T]

/-- One thread with something to do. -/
def alone (t : T) (as : List (Act L T)) : State L T :=
  ⟨Function.update (fun _ => []) t as, fun _ => none, fun _ => true, false⟩

omit [DecidableEq L] in
theorem before_alone (t : T) (as : List (Act L T)) : (alone t as).Before t as := by
  refine ⟨rfl, rfl, ?_⟩
  simp [alone]

/-- A thread passes locks that are free. -/
theorem Before.brief {s : State L T} {t : T} {ls : List L} {as : List (Act L T)}
    (h : s.Before t (Locks.brief ls ++ as)) (hfree : ∀ l ∈ ls, s.owner l = none) :
    ∃ s', s.Reaches s' ∧ s'.Before t as ∧ s'.owner = s.owner := by
  induction ls generalizing s with
  | nil => exact ⟨s, ⟨[], rfl⟩, h, rfl⟩
  | cons l ls ih =>
    have hl := hfree l List.mem_cons_self
    obtain ⟨u, hsu, hu, huowner⟩ := Before.acquire h hl
    have hown : u.owner l = some t := by
      rw [huowner]
      exact Function.update_self _ _ _
    obtain ⟨v, huv, hv, hvowner⟩ := hu.release hown
    have hback : v.owner = s.owner := by
      rw [hvowner, huowner, Function.update_idem, ← hl, Function.update_eq_self]
    obtain ⟨w, hvw, hw, hwowner⟩ := ih hv (by
      intro k hk
      rw [hback]
      exact hfree k (List.mem_cons_of_mem l hk))
    exact ⟨w, hsu.trans (huv.trans hvw), hw, hwowner.trans hback⟩

end State
end Locks
