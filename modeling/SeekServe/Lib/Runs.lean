import Mathlib

/-!
# Runs of machines and of interleaved systems

A `Machine` answers every event; a `System` has steps that are not always
enabled. Invariants, history functions and conditions on single steps are
lifted here from one step to a whole run, once for every model that follows.
-/

namespace Runs

set_option autoImplicit false

universe u v w z

/-- Every event is answered and leads to one next state. -/
structure Machine (σ : Type u) (ε : Type v) (ρ : Type w) where
  step : σ → ε → ρ × σ

namespace Machine
variable {σ : Type u} {ε : Type v} {ρ : Type w} (m : Machine σ ε ρ)

def run (s : σ) : List ε → σ
  | [] => s
  | e :: es => run (m.step s e).2 es

def trace (s : σ) : List ε → List (ε × ρ)
  | [] => []
  | e :: es => (e, (m.step s e).1) :: trace (m.step s e).2 es

@[simp] theorem run_nil (s : σ) : m.run s [] = s := rfl

@[simp] theorem run_cons (s : σ) (e : ε) (es : List ε) :
    m.run s (e :: es) = m.run (m.step s e).2 es := rfl

@[simp] theorem trace_nil (s : σ) : m.trace s [] = [] := rfl

@[simp] theorem trace_cons (s : σ) (e : ε) (es : List ε) :
    m.trace s (e :: es) = (e, (m.step s e).1) :: m.trace (m.step s e).2 es := rfl

/-- A property that every step keeps holds after every run. -/
theorem run_invariant (I : σ → Prop) (hstep : ∀ s e, I s → I (m.step s e).2)
    {s : σ} (hs : I s) (es : List ε) : I (m.run s es) := by
  induction es generalizing s with
  | nil => exact hs
  | cons e es ih => exact ih (hstep s e hs)

/-- The same for runs of allowed events. -/
theorem run_invariant_of (I : σ → Prop) (E : ε → Prop)
    (hstep : ∀ s e, E e → I s → I (m.step s e).2) {s : σ} (hs : I s) {es : List ε}
    (hes : ∀ e ∈ es, E e) : I (m.run s es) := by
  induction es generalizing s with
  | nil => exact hs
  | cons e es ih =>
    have he := hstep s e (hes e List.mem_cons_self) hs
    exact ih he fun f hf => hes f (List.mem_cons_of_mem e hf)

/-- A function of the history is followed by the states: what relates a state to
the history so far at every step relates them after every run of allowed events. -/
theorem run_tracks {α : Type z} (R : σ → α → Prop) (note : α → ε × ρ → α) (E : ε → Prop)
    (hstep : ∀ s a e, E e → R s a → R (m.step s e).2 (note a (e, (m.step s e).1)))
    {s : σ} {a : α} (hs : R s a) {es : List ε} (hes : ∀ e ∈ es, E e) :
    R (m.run s es) ((m.trace s es).foldl note a) := by
  induction es generalizing s a with
  | nil => exact hs
  | cons e es ih =>
    have he := hstep s a e (hes e List.mem_cons_self) hs
    exact ih he fun f hf => hes f (List.mem_cons_of_mem e hf)

/-- The same for a function of the events alone. -/
theorem run_follows {α : Type z} (R : σ → α → Prop) (note : α → ε → α) (E : ε → Prop)
    (hstep : ∀ s a e, E e → R s a → R (m.step s e).2 (note a e))
    {s : σ} {a : α} (hs : R s a) {es : List ε} (hes : ∀ e ∈ es, E e) :
    R (m.run s es) (es.foldl note a) := by
  induction es generalizing s a with
  | nil => exact hs
  | cons e es ih =>
    have he := hstep s a e (hes e List.mem_cons_self) hs
    exact ih he fun f hf => hes f (List.mem_cons_of_mem e hf)

/-- `P` holds at the start and after every step of the run. -/
def Always (P : σ → Prop) (s : σ) (es : List ε) : Prop :=
  ∀ pre, pre <+: es → P (m.run s pre)

/-- Every step of the run is taken in a state that meets `G` for its event. -/
def EachStep (G : σ → ε → Prop) : σ → List ε → Prop
  | _, [] => True
  | s, e :: es => G s e ∧ EachStep G (m.step s e).2 es

theorem always_nil_iff (P : σ → Prop) (s : σ) : m.Always P s [] ↔ P s := by
  constructor
  · intro h
    exact h [] List.nil_prefix
  · intro h pre hpre
    rw [List.prefix_nil.mp hpre]
    exact h

theorem always_cons_iff (P : σ → Prop) (s : σ) (e : ε) (es : List ε) :
    m.Always P s (e :: es) ↔ P s ∧ m.Always P (m.step s e).2 es := by
  constructor
  · intro h
    refine ⟨h [] List.nil_prefix, ?_⟩
    intro pre hpre
    exact h (e :: pre) (List.cons_prefix_cons.mpr ⟨rfl, hpre⟩)
  · rintro ⟨hs, h⟩ pre hpre
    cases pre with
    | nil => exact hs
    | cons f pre =>
      obtain ⟨rfl, htail⟩ := List.cons_prefix_cons.mp hpre
      exact h pre htail

/-- Where `G` decides of one step whether it keeps `P`, it decides of a whole run. -/
theorem always_iff_eachStep (J P : σ → Prop) (G : σ → ε → Prop) (E : ε → Prop)
    (hJ : ∀ s e, E e → J s → J (m.step s e).2)
    (hG : ∀ s e, E e → J s → P s → (P (m.step s e).2 ↔ G s e))
    {s : σ} (hs : J s) (hP : P s) {es : List ε} (hes : ∀ e ∈ es, E e) :
    m.Always P s es ↔ m.EachStep G s es := by
  induction es generalizing s with
  | nil => exact (m.always_nil_iff P s).trans ⟨fun _ => trivial, fun _ => hP⟩
  | cons e es ih =>
    have he := hes e List.mem_cons_self
    have hrest : ∀ f ∈ es, E f := fun f hf => hes f (List.mem_cons_of_mem e hf)
    have hJ' := hJ s e he hs
    have hiff := hG s e he hs hP
    rw [m.always_cons_iff]
    constructor
    · rintro ⟨_, h⟩
      have hP' : P (m.step s e).2 := h [] List.nil_prefix
      exact ⟨hiff.mp hP', (ih hJ' hP' hrest).mp h⟩
    · rintro ⟨hg, h⟩
      exact ⟨hP, (ih hJ' (hiff.mpr hg) hrest).mpr h⟩

/-- What the steps that meet `G` keep holds throughout a run of such steps. -/
theorem always_of_eachStep (I P : σ → Prop) (G : σ → ε → Prop)
    (hstep : ∀ s e, I s → G s e → I (m.step s e).2) (hP : ∀ s, I s → P s)
    {s : σ} (hs : I s) {es : List ε} (hG : m.EachStep G s es) : m.Always P s es := by
  induction es generalizing s with
  | nil => exact (m.always_nil_iff P s).mpr (hP s hs)
  | cons e es ih =>
    obtain ⟨hg, hrest⟩ := hG
    exact (m.always_cons_iff P s e es).mpr ⟨hP s hs, ih (hstep s e hs hg) hrest⟩

end Machine

/-- Steps of several parties over one state; a step that is not enabled yields nothing. -/
structure System (σ : Type u) (ε : Type v) where
  next : σ → ε → Option σ

namespace System
variable {σ : Type u} {ε : Type v} (m : System σ ε)

def exec (s : σ) : List ε → Option σ
  | [] => some s
  | e :: es => (m.next s e).bind fun s' => exec s' es

@[simp] theorem exec_nil (s : σ) : m.exec s [] = some s := rfl

theorem exec_cons_iff {s t : σ} {e : ε} {es : List ε} :
    m.exec s (e :: es) = some t ↔ ∃ s', m.next s e = some s' ∧ m.exec s' es = some t := by
  simp only [exec, Option.bind_eq_some_iff]

theorem exec_append_iff {s t : σ} {es fs : List ε} :
    m.exec s (es ++ fs) = some t ↔ ∃ u, m.exec s es = some u ∧ m.exec u fs = some t := by
  induction es generalizing s with
  | nil => simp
  | cons e es ih =>
    simp only [List.cons_append, exec_cons_iff, ih]
    constructor
    · rintro ⟨s', hs, u, hu, ht⟩
      exact ⟨u, ⟨s', hs, hu⟩, ht⟩
    · rintro ⟨u, ⟨s', hs, hu⟩, ht⟩
      exact ⟨s', hs, u, hu, ht⟩

theorem exec_concat_iff {s t : σ} {es : List ε} {e : ε} :
    m.exec s (es ++ [e]) = some t ↔ ∃ u, m.exec s es = some u ∧ m.next u e = some t := by
  rw [exec_append_iff]
  constructor
  · rintro ⟨u, hu, ht⟩
    obtain ⟨t', ht', hnil⟩ := (m.exec_cons_iff).mp ht
    cases hnil
    exact ⟨u, hu, ht'⟩
  · rintro ⟨u, hu, ht⟩
    exact ⟨u, hu, (m.exec_cons_iff).mpr ⟨t, ht, rfl⟩⟩

/-- Every step of the interleaving is taken in a state that meets `G` for it. -/
def EachStep (G : σ → ε → Prop) (s : σ) (es : List ε) : Prop :=
  ∀ pre e post u, es = pre ++ e :: post → m.exec s pre = some u → G u e

theorem eachStep_nil (G : σ → ε → Prop) (s : σ) : m.EachStep G s [] := by
  intro pre e post u hes
  exact absurd hes.symm (by simp)

theorem EachStep.of_forall {G : σ → ε → Prop} {es : List ε} (h : ∀ e ∈ es, ∀ u, G u e) (s : σ) :
    m.EachStep G s es := by
  intro pre e post u hes _
  exact h e (by simp [hes]) u

theorem EachStep.cons {G : σ → ε → Prop} {s : σ} {e : ε} {es : List ε} (he : G s e)
    (h : ∀ s', m.next s e = some s' → m.EachStep G s' es) : m.EachStep G s (e :: es) := by
  intro pre f post u hes hu
  cases pre with
  | nil =>
    cases hu
    exact (List.cons.inj hes).1 ▸ he
  | cons d pre =>
    obtain ⟨rfl, hrest⟩ := List.cons.inj hes
    obtain ⟨s', hs', hu'⟩ := (m.exec_cons_iff).mp hu
    exact h s' hs' pre f post u hrest hu'

theorem EachStep.tail {G : σ → ε → Prop} {s s' : σ} {e : ε} {es : List ε}
    (h : m.EachStep G s (e :: es)) (hs : m.next s e = some s') : m.EachStep G s' es := by
  intro pre f post u hes hu
  exact h (e :: pre) f post u (by simp [hes]) ((m.exec_cons_iff).mpr ⟨s', hs, hu⟩)

theorem EachStep.append {G : σ → ε → Prop} {s : σ} {es fs : List ε} (h : m.EachStep G s es)
    (hfs : ∀ t, m.exec s es = some t → m.EachStep G t fs) : m.EachStep G s (es ++ fs) := by
  induction es generalizing s with
  | nil => exact hfs s rfl
  | cons e es ih =>
    refine .cons m (h [] e es s rfl rfl) ?_
    intro s' hs'
    apply ih (h.tail m hs')
    intro t ht
    exact hfs t ((m.exec_cons_iff).mpr ⟨s', hs', ht⟩)

/-- An invariant that the steps meeting `G` keep holds after every run of such steps. -/
theorem exec_invariant (I : σ → Prop) (G : σ → ε → Prop)
    (hstep : ∀ s e s', I s → G s e → m.next s e = some s' → I s')
    {s t : σ} {es : List ε} (hs : I s) (hG : m.EachStep G s es) (ht : m.exec s es = some t) :
    I t := by
  induction es generalizing s with
  | nil =>
    cases ht
    exact hs
  | cons e es ih =>
    obtain ⟨s', hs', ht'⟩ := (m.exec_cons_iff).mp ht
    have hg : G s e := hG [] e es s rfl rfl
    exact ih (hstep s e s' hs hg hs') (hG.tail m hs') ht'

/-- An invariant of every step. -/
theorem exec_invariant_of_step {I : σ → Prop} (hstep : ∀ s e s', I s → m.next s e = some s' → I s')
    {s t : σ} {es : List ε} (hs : I s) (ht : m.exec s es = some t) : I t := by
  apply m.exec_invariant I (fun _ _ => True) _ hs _ ht
  · intro u e u' hu _ hn
    exact hstep u e u' hu hn
  · exact .of_forall m (fun _ _ _ => trivial) s

/-- `P` holds at the start and after every step of the run. -/
def Always (P : σ → Prop) (s : σ) (es : List ε) : Prop :=
  ∀ pre u, pre <+: es → m.exec s pre = some u → P u

theorem always_cons_iff (P : σ → Prop) {s s' : σ} {e : ε} {es : List ε}
    (hs : m.next s e = some s') : m.Always P s (e :: es) ↔ P s ∧ m.Always P s' es := by
  constructor
  · intro h
    refine ⟨h [] s List.nil_prefix rfl, ?_⟩
    intro pre u hpre hu
    exact h (e :: pre) u (List.cons_prefix_cons.mpr ⟨rfl, hpre⟩)
      ((m.exec_cons_iff).mpr ⟨s', hs, hu⟩)
  · rintro ⟨hp, h⟩ pre u hpre hu
    cases pre with
    | nil =>
      cases hu
      exact hp
    | cons f pre =>
      obtain ⟨rfl, htail⟩ := List.cons_prefix_cons.mp hpre
      obtain ⟨t, ht, hu'⟩ := (m.exec_cons_iff).mp hu
      cases hs.symm.trans ht
      exact h pre u htail hu'

/-- Where `G` decides of one step whether it keeps `P`, it decides of a whole run. -/
theorem always_iff_eachStep (J P : σ → Prop) (G : σ → ε → Prop)
    (hJ : ∀ s e s', J s → m.next s e = some s' → J s')
    (hG : ∀ s e s', J s → P s → m.next s e = some s' → (P s' ↔ G s e))
    {s t : σ} {es : List ε} (hs : J s) (hP : P s) (ht : m.exec s es = some t) :
    m.Always P s es ↔ m.EachStep G s es := by
  induction es generalizing s with
  | nil =>
    refine ⟨fun _ => m.eachStep_nil G s, fun _ => ?_⟩
    intro pre u hpre hu
    rw [List.prefix_nil.mp hpre] at hu
    cases hu
    exact hP
  | cons e es ih =>
    obtain ⟨s', hs', ht'⟩ := (m.exec_cons_iff).mp ht
    have hiff := hG s e s' hs hP hs'
    rw [m.always_cons_iff P hs']
    constructor
    · rintro ⟨_, h⟩
      have hP' : P s' := h [] s' List.nil_prefix rfl
      refine .cons m (hiff.mp hP') ?_
      intro u hu
      cases hs'.symm.trans hu
      exact (ih (hJ s e s' hs hs') hP' ht').mp h
    · intro h
      have hP' : P s' := hiff.mpr (h [] e es s rfl rfl)
      exact ⟨hP, (ih (hJ s e s' hs hs') hP' ht').mpr (h.tail m hs')⟩

/-- A property of the steps taken so far and the state they lead to. -/
theorem exec_history (J : List ε → σ → Prop) {s : σ} (h0 : J [] s)
    (hstep : ∀ es u e u', m.exec s es = some u → J es u → m.next u e = some u' →
      J (es ++ [e]) u')
    {es : List ε} {t : σ} (ht : m.exec s es = some t) : J es t := by
  induction es using List.reverseRecOn generalizing t with
  | nil =>
    cases ht
    exact h0
  | append_singleton es e ih =>
    obtain ⟨u, hu, hnext⟩ := (m.exec_concat_iff).mp ht
    exact hstep es u e t hu (ih hu) hnext

/-- Somewhere in the run a step led from a state to the next as `P` describes. -/
def Took (P : σ → σ → Prop) (s : σ) (es : List ε) : Prop :=
  ∃ pre e post u v, es = pre ++ e :: post ∧ m.exec s pre = some u ∧ m.next u e = some v ∧ P u v

theorem Took.concat {P : σ → σ → Prop} {s : σ} {es : List ε} (h : m.Took P s es) (e : ε) :
    m.Took P s (es ++ [e]) := by
  obtain ⟨pre, f, post, u, v, rfl, hu, hv, hp⟩ := h
  exact ⟨pre, f, post ++ [e], u, v, by simp, hu, hv, hp⟩

theorem Took.last {P : σ → σ → Prop} {s u v : σ} {es : List ε} {e : ε}
    (hu : m.exec s es = some u) (hv : m.next u e = some v) (hp : P u v) :
    m.Took P s (es ++ [e]) :=
  ⟨es, e, [], u, v, rfl, hu, hv, hp⟩

theorem Took.mono {P Q : σ → σ → Prop} {s : σ} {es : List ε} (h : m.Took P s es)
    (hPQ : ∀ u v, P u v → Q u v) : m.Took Q s es := by
  obtain ⟨pre, e, post, u, v, hes, hu, hv, hp⟩ := h
  exact ⟨pre, e, post, u, v, hes, hu, hv, hPQ u v hp⟩

/-- What a step brought about, and no step undoes, holds at the end of the run. -/
theorem Took.remains {I : σ → Prop} (hstep : ∀ u e v, I u → m.next u e = some v → I v)
    {s t : σ} {es : List ε} (h : m.Took (fun _ v => I v) s es) (ht : m.exec s es = some t) :
    I t := by
  obtain ⟨pre, e, post, u, v, rfl, hu, hv, hi⟩ := h
  obtain ⟨u', hu', hrest⟩ := (m.exec_append_iff).mp ht
  obtain ⟨v', hv', hpost⟩ := (m.exec_cons_iff).mp hrest
  have hue : u' = u := Option.some.inj (hu'.symm.trans hu)
  rw [hue, hv] at hv'
  have hve : v = v' := Option.some.inj hv'
  exact m.exec_invariant_of_step hstep (hve ▸ hi) hpost

end System

/-- One thread of a list of threads goes on; the others are counted as before. -/
theorem countP_set_of_getElem {τ : Type u} {p : τ → Bool} {ts : List τ} {i : Nat} {old : τ}
    (new : τ) (h : ts[i]? = some old) :
    (ts.set i new).countP p + (if p old then 1 else 0) =
      ts.countP p + if p new then 1 else 0 := by
  obtain ⟨hi, rfl⟩ := List.getElem?_eq_some_iff.mp h
  have hmem : p ts[i] = true → 0 < ts.countP p := fun hp =>
    List.countP_pos_iff.mpr ⟨_, List.getElem_mem hi, hp⟩
  rw [List.countP_set hi]
  by_cases hp : p ts[i] = true
  · have := hmem hp
    simp only [hp, if_true]
    omega
  · simp [hp]

end Runs
