import SeekServe.Lib.AssocMap
import SeekServe.Lib.Runs

/-!
# The alert dispatcher

`on` stores a handler under the type of its alerts. The thread of the dispatcher pops alerts in
batches and calls the handler that it finds for each, under the mutex that `on` takes.
-/

namespace SeekServe.AlertDispatcher

set_option autoImplicit false

variable {H α : Type}

structure Alert (α : Type) where
  type : Int
  content : α
  deriving DecidableEq, Repr

/-- What `on` makes of a handler: `alert_cast` looks at the type of the alert again. -/
structure TypedHandler (H : Type) where
  alertType : Int
  handler : H

/-- The registrations made before the alerts are dispatched, newest first, and the calls. -/
structure Batch (H α : Type) where
  registered : List (Int × H)
  alerts : List (Alert α)
  calls : List (H × Alert α)

inductive ThreadPc (H α : Type) where
  | off
  | waiting
  | awake
  | popped (alerts : List (Alert α))
  /-- `mu_` is held; the loop has not come to the alerts of `rest`. -/
  | dispatching (batch : Batch H α) (rest : List (Alert α))

structure State (H α : Type) where
  handlers : AssocMap Int (TypedHandler H)
  running : Bool
  pc : ThreadPc H α
  /-- What the catch clause logs. -/
  errors : List (Int × String)
  /-- Every call of `on` so far, newest first. -/
  registrations : List (Int × H)
  /-- The batches that are done. -/
  dispatched : List (Batch H α)

inductive Action (H α : Type) where
  | on (type : Int) (handler : H)
  | start
  | stop
  | wake
  | pop (alerts : List (Alert α))
  | lock
  /-- The next alert; `thrown` is the text of the exception that its handler ends with. -/
  | deliver (thrown : Option String)
  | unlock

/-- `handlers_.find(alert->type())`, and the cast in the handler found. -/
def State.handlerOf (s : State H α) (alert : Alert α) : Option H :=
  match s.handlers.lookup alert.type with
  | some typed => if alert.type = typed.alertType then some typed.handler else none
  | none => none

def State.deliver (s : State H α) (batch : Batch H α) (alert : Alert α)
    (rest : List (Alert α)) (thrown : Option String) : State H α :=
  match s.handlerOf alert with
  | some handler =>
    { s with
      pc := .dispatching { batch with calls := batch.calls ++ [(handler, alert)] } rest
      errors :=
        match thrown with
        | some what => s.errors ++ [(alert.type, what)]
        | none => s.errors }
  | none => { s with pc := .dispatching batch rest }

def next (s : State H α) : Action H α → Option (State H α)
  | .on type handler =>
    match s.pc with
    | .dispatching _ _ => none
    | _ =>
      some
        { s with
          handlers := s.handlers.insert type ⟨type, handler⟩
          registrations := (type, handler) :: s.registrations }
  | .start =>
    if s.running then some s
    else
      match s.pc with
      | .off => some { s with running := true, pc := .waiting }
      | _ => none
  | .stop => some { s with running := false }
  | .wake =>
    match s.pc with
    | .waiting => some { s with pc := if s.running then .awake else .off }
    | _ => none
  | .pop alerts =>
    match s.pc with
    | .awake => some { s with pc := .popped alerts }
    | _ => none
  | .lock =>
    match s.pc with
    | .popped alerts => some { s with pc := .dispatching ⟨s.registrations, alerts, []⟩ alerts }
    | _ => none
  | .deliver thrown =>
    match s.pc with
    | .dispatching batch (alert :: rest) => some (s.deliver batch alert rest thrown)
    | _ => none
  | .unlock =>
    match s.pc with
    | .dispatching batch [] =>
      some { s with pc := .waiting, dispatched := s.dispatched ++ [batch] }
    | _ => none

def system : Runs.System (State H α) (Action H α) := ⟨next⟩

def initial : State H α := ⟨∅, false, .off, [], [], []⟩

/-- Alert after alert, every handler registered for its type is called once, and no other. -/
def Serves (registered : List (Int × H)) : List (Alert α) → List (H × Alert α) → Prop
  | [], calls => calls = []
  | alert :: alerts, calls =>
    ∃ (now : List H) (later : List (H × Alert α)),
      calls = now.map (·, alert) ++ later ∧ now.Nodup ∧
        (∀ h, h ∈ now ↔ (alert.type, h) ∈ registered) ∧ Serves registered alerts later

def Batch.Served (b : Batch H α) : Prop := Serves b.registered b.alerts b.calls

/-- All registrations for the type name one handler. -/
def OneHandler (registered : List (Int × H)) (type : Int) : Prop :=
  ∀ h h', (type, h) ∈ registered → (type, h') ∈ registered → h = h'

def latest (registered : List (Int × H)) (type : Int) : Option H :=
  (registered.find? fun r => r.1 = type).map (·.2)

def latestCalls (registered : List (Int × H)) (alerts : List (Alert α)) : List (H × Alert α) :=
  alerts.filterMap fun alert => (latest registered alert.type).map (·, alert)

theorem latest_cons (registered : List (Int × H)) (type t : Int) (h : H) :
    latest ((type, h) :: registered) t = if type = t then some h else latest registered t := by
  unfold latest
  rw [List.find?_cons]
  by_cases ht : type = t
  · simp [ht]
  · simp [ht]

theorem mem_of_latest {registered : List (Int × H)} {type : Int} {h : H}
    (hl : latest registered type = some h) : (type, h) ∈ registered := by
  obtain ⟨⟨t, h'⟩, hfind, rfl⟩ := Option.map_eq_some_iff.mp hl
  have ht := List.find?_some hfind
  rw [decide_eq_true_eq] at ht
  subst ht
  exact List.mem_of_find?_eq_some hfind

theorem not_mem_of_latest {registered : List (Int × H)} {type : Int}
    (hl : latest registered type = none) (h : H) : (type, h) ∉ registered := by
  intro hm
  have hnone := List.find?_eq_none.mp (Option.map_eq_none_iff.mp hl) (type, h) hm
  simp at hnone

theorem latestCalls_cons (registered : List (Int × H)) (alert : Alert α)
    (alerts : List (Alert α)) :
    latestCalls registered (alert :: alerts) =
      (latest registered alert.type).toList.map (·, alert) ++ latestCalls registered alerts := by
  unfold latestCalls
  rw [List.filterMap_cons]
  cases latest registered alert.type with
  | none => rfl
  | some h => rfl

theorem latestCalls_concat (registered : List (Int × H)) (alerts : List (Alert α))
    (alert : Alert α) :
    latestCalls registered (alerts ++ [alert]) =
      latestCalls registered alerts ++ (latest registered alert.type).toList.map (·, alert) := by
  have hone := latestCalls_cons registered alert []
  unfold latestCalls at hone ⊢
  rw [List.filterMap_append, hone]
  simp

theorem latest_of_mem_latestCalls {registered : List (Int × H)} {alerts : List (Alert α)}
    {h : H} {alert : Alert α} (hm : (h, alert) ∈ latestCalls registered alerts) :
    latest registered alert.type = some h := by
  unfold latestCalls at hm
  obtain ⟨a, -, ha⟩ := List.mem_filterMap.mp hm
  obtain ⟨k, hk, hpair⟩ := Option.map_eq_some_iff.mp ha
  cases hpair
  exact hk

theorem serves_cons_of_none {registered : List (Int × H)} {alert : Alert α}
    (hl : latest registered alert.type = none) (alerts : List (Alert α))
    (calls : List (H × Alert α)) :
    Serves registered (alert :: alerts) calls ↔ Serves registered alerts calls := by
  have hnone := not_mem_of_latest hl
  constructor
  · rintro ⟨now, later, rfl, -, hnow, hlater⟩
    have hnil : now = [] := by
      apply List.eq_nil_iff_forall_not_mem.mpr
      intro h hm
      exact hnone h ((hnow h).mp hm)
    rw [hnil]
    exact hlater
  · intro hserves
    refine ⟨[], calls, rfl, List.nodup_nil, ?_, hserves⟩
    intro h
    exact ⟨fun hm => absurd hm List.not_mem_nil, fun hm => absurd hm (hnone h)⟩

/-- The call of the last handler is enough for an alert exactly if there is no other handler. -/
theorem serves_cons_of_some {registered : List (Int × H)} {alert : Alert α} {h : H}
    (hl : latest registered alert.type = some h) (alerts : List (Alert α)) :
    Serves registered (alert :: alerts) ((h, alert) :: latestCalls registered alerts) ↔
      OneHandler registered alert.type ∧
        Serves registered alerts (latestCalls registered alerts) := by
  have hmem := mem_of_latest hl
  constructor
  · rintro ⟨now, later, hcalls, hnodup, hnow, hlater⟩
    have hsame : ∀ k ∈ now, k = h := by
      intro k hk
      have hcall : (k, alert) ∈ latestCalls registered (alert :: alerts) := by
        rw [latestCalls_cons, hl]
        change (k, alert) ∈ (h, alert) :: latestCalls registered alerts
        rw [hcalls]
        exact List.mem_append_left _ (List.mem_map_of_mem hk)
      have hlast := latest_of_mem_latestCalls hcall
      rw [hl] at hlast
      exact (Option.some.inj hlast).symm
    have hone : now = [h] := by
      apply List.perm_singleton.mp
      rw [List.perm_ext_iff_of_nodup hnodup (List.nodup_singleton h)]
      intro k
      rw [List.mem_singleton]
      exact ⟨hsame k, fun hk => hk ▸ (hnow h).mpr hmem⟩
    rw [hone] at hcalls
    have hrest : latestCalls registered alerts = later := (List.cons.inj hcalls).2
    rw [hrest]
    refine ⟨?_, hlater⟩
    intro k k' hk hk'
    rw [hsame k ((hnow k).mpr hk), hsame k' ((hnow k').mpr hk')]
  · rintro ⟨hone, hserves⟩
    refine ⟨[h], latestCalls registered alerts, rfl, List.nodup_singleton h, ?_, hserves⟩
    intro k
    rw [List.mem_singleton]
    constructor
    · rintro rfl
      exact hmem
    · intro hk
      exact hone k h hk hmem

/-- The calls of the last handlers alone serve the alerts exactly if there is no other one. -/
theorem serves_latestCalls_iff (registered : List (Int × H)) (alerts : List (Alert α)) :
    Serves registered alerts (latestCalls registered alerts) ↔
      ∀ alert ∈ alerts, OneHandler registered alert.type := by
  induction alerts with
  | nil =>
    constructor
    · intro _ alert ha
      exact absurd ha List.not_mem_nil
    · intro _
      rfl
  | cons alert alerts ih =>
    rw [List.forall_mem_cons, latestCalls_cons, ← ih]
    cases hl : latest registered alert.type with
    | none =>
      have hone : OneHandler registered alert.type := fun h _ hm =>
        absurd hm (not_mem_of_latest hl h)
      exact (serves_cons_of_none hl alerts _).trans (iff_and_self.mpr fun _ => hone)
    | some h => exact serves_cons_of_some hl alerts

/-- The map holds the last registration for each type, and every call so far was made by it. -/
structure Inv (s : State H α) : Prop where
  found : ∀ type, s.handlers.lookup type = (latest s.registrations type).map (⟨type, ·⟩)
  underWay : ∀ batch rest, s.pc = .dispatching batch rest →
    batch.registered = s.registrations ∧ ∃ done, batch.alerts = done ++ rest ∧
      batch.calls = latestCalls batch.registered done
  done : ∀ b ∈ s.dispatched, b.calls = latestCalls b.registered b.alerts

theorem inv_initial : Inv (initial : State H α) := by
  constructor
  · intro type
    rfl
  · intro batch rest hpc
    cases hpc
  · intro b hb
    exact absurd hb List.not_mem_nil

theorem handlerOf_eq {s : State H α} (hs : Inv s) (alert : Alert α) :
    s.handlerOf alert = latest s.registrations alert.type := by
  unfold State.handlerOf
  rw [hs.found]
  cases latest s.registrations alert.type with
  | none => rfl
  | some h => simp

/-- A step that leaves the handlers alone and does not dispatch. -/
theorem Inv.move {s : State H α} (hs : Inv s) {pc : ThreadPc H α}
    (hpc : ∀ batch rest, pc ≠ .dispatching batch rest) (running : Bool) :
    Inv { s with running := running, pc := pc } :=
  ⟨hs.found, fun batch rest h => absurd h (hpc batch rest), hs.done⟩

theorem inv_on {s : State H α} (hs : Inv s) (hpc : ∀ batch rest, s.pc ≠ .dispatching batch rest)
    (type : Int) (handler : H) :
    Inv { s with
      handlers := s.handlers.insert type ⟨type, handler⟩
      registrations := (type, handler) :: s.registrations } := by
  constructor
  · intro t
    rw [AssocMap.lookup_insert_eq, latest_cons]
    by_cases ht : t = type
    · rw [if_pos ht, if_pos ht.symm, ht]
      rfl
    · rw [if_neg ht, if_neg (Ne.symm ht)]
      exact hs.found t
  · intro batch rest h
    exact absurd h (hpc batch rest)
  · exact hs.done

/-- Whatever the handler ends with, its call is made and the loop goes on. -/
theorem deliver_eq {s : State H α} (hs : Inv s) (batch : Batch H α) (alert : Alert α)
    (rest : List (Alert α)) (thrown : Option String) :
    ∃ errors, s.deliver batch alert rest thrown =
      { s with
        pc := .dispatching
          { batch with
            calls := batch.calls ++
              (latest s.registrations alert.type).toList.map (·, alert) } rest
        errors := errors } := by
  unfold State.deliver
  rw [handlerOf_eq hs]
  cases latest s.registrations alert.type with
  | none => exact ⟨s.errors, by simp⟩
  | some h => exact ⟨_, rfl⟩

theorem inv_deliver {s : State H α} (hs : Inv s) {batch : Batch H α} {alert : Alert α}
    {rest : List (Alert α)} (hpc : s.pc = .dispatching batch (alert :: rest))
    (thrown : Option String) : Inv (s.deliver batch alert rest thrown) := by
  obtain ⟨errors, heq⟩ := deliver_eq hs batch alert rest thrown
  obtain ⟨hreg, done, halerts, hcalls⟩ := hs.underWay batch _ hpc
  rw [heq]
  constructor
  · exact hs.found
  · intro b r hb
    cases hb
    refine ⟨hreg, done ++ [alert], ?_, ?_⟩
    · rw [halerts, List.append_assoc]
      rfl
    · simp only
      rw [latestCalls_concat, hcalls, hreg]
  · exact hs.done

theorem inv_unlock {s : State H α} (hs : Inv s) {batch : Batch H α}
    (hpc : s.pc = .dispatching batch []) :
    Inv { s with pc := .waiting, dispatched := s.dispatched ++ [batch] } := by
  obtain ⟨-, done, halerts, hcalls⟩ := hs.underWay batch _ hpc
  constructor
  · exact hs.found
  · intro b r hb
    cases hb
  · intro b hb
    rcases List.mem_append.mp hb with hb | hb
    · exact hs.done b hb
    · rw [List.mem_singleton.mp hb, halerts, List.append_nil]
      exact hcalls

theorem inv_next {s s' : State H α} {e : Action H α} (hs : Inv s) (hn : next s e = some s') :
    Inv s' := by
  cases e with
  | on type handler =>
    simp only [next] at hn
    split at hn
    · cases hn
    · rename_i hpc
      cases hn
      exact inv_on hs hpc type handler
  | start =>
    simp only [next] at hn
    split at hn
    · cases hn
      exact hs
    · split at hn
      · cases hn
        exact hs.move (by simp) true
      · cases hn
  | stop =>
    cases hn
    exact ⟨hs.found, hs.underWay, hs.done⟩
  | wake =>
    simp only [next] at hn
    split at hn
    · cases hn
      refine hs.move ?_ s.running
      intro batch rest
      split <;> simp
    · cases hn
  | pop alerts =>
    simp only [next] at hn
    split at hn
    · cases hn
      exact hs.move (by simp) s.running
    · cases hn
  | lock =>
    simp only [next] at hn
    split at hn
    · cases hn
      refine ⟨hs.found, ?_, hs.done⟩
      intro batch rest hb
      cases hb
      exact ⟨rfl, [], rfl, rfl⟩
    · cases hn
  | deliver thrown =>
    simp only [next] at hn
    split at hn
    · rename_i batch alert rest hpc
      cases hn
      exact inv_deliver hs hpc thrown
    · cases hn
  | unlock =>
    simp only [next] at hn
    split at hn
    · rename_i batch hpc
      cases hn
      exact inv_unlock hs hpc
    · cases hn

theorem inv_run {acts : List (Action H α)} {s : State H α}
    (ht : system.exec initial acts = some s) : Inv s :=
  system.exec_invariant_of_step (fun _ _ _ hs hn => inv_next hs hn) inv_initial ht

/-- A batch that has been popped is dispatched to its end, whatever the handlers end with. -/
theorem dispatch_ends {s : State H α} (hs : Inv s) {batch : Batch H α}
    {rest : List (Alert α)} (hpc : s.pc = .dispatching batch rest)
    (outcomes : List (Option String)) (hlen : outcomes.length = rest.length) :
    ∃ t b, system.exec s (outcomes.map .deliver ++ [.unlock]) = some t ∧
      t.dispatched = s.dispatched ++ [b] ∧ b.registered = batch.registered ∧
      b.alerts = batch.alerts := by
  induction rest generalizing s batch outcomes with
  | nil =>
    cases List.eq_nil_of_length_eq_zero hlen
    refine ⟨{ s with pc := .waiting, dispatched := s.dispatched ++ [batch] }, batch, ?_, rfl, rfl,
      rfl⟩
    simp only [List.map_nil, List.nil_append, Runs.System.exec, system, next, hpc,
      Option.bind_some]
  | cons alert rest ih =>
    cases outcomes with
    | nil => cases hlen
    | cons thrown outcomes =>
      obtain ⟨errors, heq⟩ := deliver_eq hs batch alert rest thrown
      have hinv := inv_deliver hs hpc thrown
      have hpc' := congrArg State.pc heq
      obtain ⟨t, b, ht, hdone, hreg, halerts⟩ :=
        ih hinv hpc' outcomes (Nat.succ.inj hlen)
      refine ⟨t, b, ?_, ?_, hreg, halerts⟩
      · rw [List.map_cons, List.cons_append, Runs.System.exec_cons_iff]
        exact ⟨_, by simp only [system, next, hpc], ht⟩
      · rw [hdone, heq]

/-- The batches that are done are served exactly if none of them holds an alert for whose type
two handlers were registered; a batch that is not done can always be brought to its end. -/
theorem handlers_are_served_iff {acts : List (Action H α)} {s : State H α}
    (ht : system.exec initial acts = some s) :
    ((∀ b ∈ s.dispatched, b.Served) ↔
      ∀ b ∈ s.dispatched, ∀ alert ∈ b.alerts, OneHandler b.registered alert.type) ∧
    ∀ batch rest, s.pc = .dispatching batch rest →
      ∀ outcomes : List (Option String), outcomes.length = rest.length →
        ∃ t b, system.exec s (outcomes.map .deliver ++ [.unlock]) = some t ∧
          t.dispatched = s.dispatched ++ [b] ∧ b.registered = batch.registered ∧
          b.alerts = batch.alerts := by
  have hs := inv_run ht
  have hiff : ∀ b ∈ s.dispatched,
      (b.Served ↔ ∀ alert ∈ b.alerts, OneHandler b.registered alert.type) := by
    intro b hb
    unfold Batch.Served
    rw [hs.done b hb]
    exact serves_latestCalls_iff b.registered b.alerts
  refine ⟨?_, fun batch rest hpc outcomes => dispatch_ends hs hpc outcomes⟩
  constructor
  · intro h b hb
    exact (hiff b hb).mp (h b hb)
  · intro h b hb
    exact (hiff b hb).mpr (h b hb)

inductive DemoHandler where
  | availability
  | byteSource
  | scheduler
  deriving DecidableEq, Repr

/-- `piece_finished_alert::alert_type` -/
def pieceFinished : Int := 27

/-- One handler, which throws at the first alert; nothing listens to the second one's type. -/
def oneHandlerRun : List (Action DemoHandler Nat) :=
  [.on pieceFinished .availability, .start, .wake, .pop [⟨27, 0⟩, ⟨5, 1⟩, ⟨27, 2⟩], .lock,
    .deliver (some "bad piece"), .deliver none, .deliver none, .unlock]

theorem handlers_are_served_iff_one :
    ∃ s, system.exec initial oneHandlerRun = some s ∧
      s.dispatched = [⟨[(pieceFinished, .availability)], [⟨27, 0⟩, ⟨5, 1⟩, ⟨27, 2⟩],
        [(.availability, ⟨27, 0⟩), (.availability, ⟨27, 2⟩)]⟩] ∧
      ∀ b ∈ s.dispatched, b.Served := by
  obtain ⟨s, hs, hdone⟩ : ∃ s, system.exec initial oneHandlerRun = some s ∧
      s.dispatched = [⟨[(pieceFinished, .availability)], [⟨27, 0⟩, ⟨5, 1⟩, ⟨27, 2⟩],
        [(.availability, ⟨27, 0⟩), (.availability, ⟨27, 2⟩)]⟩] := ⟨_, rfl, rfl⟩
  refine ⟨s, hs, hdone, (handlers_are_served_iff hs).1.mpr ?_⟩
  rw [hdone]
  intro b hb alert _ h h' hh hh'
  cases List.mem_singleton.mp hb
  rw [List.mem_singleton, Prod.mk.injEq] at hh hh'
  rw [hh.2, hh'.2]

/-- The demo's three handlers for one type, and one alert of it. -/
def demoRun : List (Action DemoHandler Nat) :=
  [.on pieceFinished .availability, .on pieceFinished .byteSource, .on pieceFinished .scheduler,
    .start, .wake, .pop [⟨27, 0⟩], .lock, .deliver none, .unlock]

theorem demo_handlers_are_not_served :
    ∃ s b, system.exec initial demoRun = some s ∧ s.dispatched = [b] ∧
      b.alerts = [⟨27, 0⟩] ∧ b.calls = [(.scheduler, ⟨27, 0⟩)] ∧ ¬ b.Served := by
  refine ⟨_, _, rfl, rfl, rfl, rfl, ?_⟩
  intro hserved
  have hone := (serves_latestCalls_iff _ _).mp hserved ⟨27, 0⟩ List.mem_cons_self
  have heq := hone .availability .scheduler (by decide) (by decide)
  cases heq

end SeekServe.AlertDispatcher
