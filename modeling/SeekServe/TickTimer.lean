import SeekServe.Lib.Runs

/-!
# The tick timer and `stop_server`

`on_tick` on the io thread against `stop_server` on another one, from a started server on.
`on_tick` uses `tick_timer_` after its loop and without `mu_`; `stop_server` resets it long
before it stops the io context and joins the thread.
-/

namespace SeekServe.TickTimer

set_option autoImplicit false

/-- The wait on the timer and the tick that follows it. -/
inductive Tick where
  | waiting
  /-- the handler is queued with success, where `cancel` no longer reaches it -/
  | expired
  /-- the handler is queued with `operation_aborted` -/
  | aborted
  /-- in the loop over `states_`, under `mu_` -/
  | looping
  /-- before `tick_timer_->expires_after` -/
  | expiring
  /-- before `tick_timer_->async_wait` -/
  | arming
  /-- `on_tick` has returned and nothing is queued -/
  | ended
  /-- `on_tick` has used the timer and found none -/
  | faulted
  deriving DecidableEq, Repr

/-- What `stop_server` has done. -/
inductive Stop where
  | idle
  | cleared
  | cancelled
  | reset
  | serversStopped
  | sourcesCancelled
  | contextStopped
  | joined
  deriving DecidableEq, Repr

structure State where
  serverRunning : Bool
  /-- `tick_timer_` is not null -/
  timer : Bool
  tick : Tick
  stop : Stop
  deriving DecidableEq, Repr

inductive Action where
  /-- a second has passed -/
  | expire
  /-- the io thread calls the queued handler -/
  | onTick
  | endLoop
  | expiresAfter
  | asyncWait
  /-- `server_running_.exchange(false)` -/
  | clearRunning
  | cancelTimer
  | resetTimer
  | stopServers
  | cancelSources
  | stopContext
  | join
  deriving DecidableEq, Repr

/-- The wait that is pending ends with `operation_aborted`. -/
def Tick.abort : Tick → Tick
  | .waiting => .aborted
  | tick => tick

/-- `on_tick` has begun and has not returned. -/
def Tick.Running (tick : Tick) : Prop := tick = .looping ∨ tick = .expiring ∨ tick = .arming

instance (tick : Tick) : Decidable tick.Running := inferInstanceAs (Decidable (_ ∨ _))

/-- A use of the timer, after which `on_tick` goes on if there is one. -/
def State.use (s : State) (tick : Tick) : State :=
  { s with tick := if s.timer then tick else .faulted }

def next (s : State) : Action → Option State
  | .expire => if s.tick = .waiting then some { s with tick := .expired } else none
  | .onTick =>
    if s.stop = .contextStopped ∨ s.stop = .joined then none
    else match s.tick with
      | .expired => some { s with tick := .looping }
      | .aborted => some { s with tick := .ended }
      | _ => none
  | .endLoop => if s.tick = .looping then some { s with tick := .expiring } else none
  | .expiresAfter => if s.tick = .expiring then some (s.use .arming) else none
  | .asyncWait => if s.tick = .arming then some (s.use .waiting) else none
  | .clearRunning =>
    if s.stop = .idle ∧ s.serverRunning then
      some { s with serverRunning := false, stop := .cleared }
    else none
  | .cancelTimer =>
    if s.stop = .cleared then
      some { s with tick := if s.timer then s.tick.abort else s.tick, stop := .cancelled }
    else none
  | .resetTimer =>
    -- the destructor of the timer cancels too
    if s.stop = .cancelled then
      some { s with
        timer := false
        tick := if s.timer then s.tick.abort else s.tick
        stop := .reset }
    else none
  | .stopServers => if s.stop = .reset then some { s with stop := .serversStopped } else none
  | .cancelSources =>
    -- under `mu_`
    if s.stop = .serversStopped ∧ s.tick ≠ .looping then
      some { s with stop := .sourcesCancelled }
    else none
  | .stopContext =>
    if s.stop = .sourcesCancelled then some { s with stop := .contextStopped } else none
  | .join =>
    if s.stop = .contextStopped ∧ ¬s.tick.Running then some { s with stop := .joined } else none

def system : Runs.System State Action := ⟨next⟩

/-- `start_server` has returned. -/
def start : State := ⟨true, true, .waiting, .idle⟩

/-- The timer is reset while no `on_tick` runs, and none begins after that. -/
def Apart (s : State) (a : Action) : Prop :=
  (a = .resetTimer → ¬s.tick.Running) ∧ (a = .onTick → s.tick = .expired → s.timer = true)

instance (s : State) (a : Action) : Decidable (Apart s a) :=
  inferInstanceAs (Decidable ((a = .resetTimer → ¬s.tick.Running) ∧
    (a = .onTick → s.tick = .expired → s.timer = true)))

/-- `on_tick` has found the timer whenever it used it. -/
def State.Found (s : State) : Prop := s.tick ≠ .faulted

/-- And it will: while it runs the timer is there. -/
structure State.Safe (s : State) : Prop where
  found : s.Found
  timer : s.tick.Running → s.timer = true

/-- `on_tick` runs, or has run, into the null pointer. -/
structure State.Doomed (s : State) : Prop where
  timer : s.timer = false
  tick : s.tick.Running ∨ s.tick = .faulted

theorem running_abort_iff {tick : Tick} : tick.abort.Running ↔ tick.Running := by
  cases tick <;> decide

theorem abort_eq_faulted_iff {tick : Tick} : tick.abort = .faulted ↔ tick = .faulted := by
  cases tick <;> decide

/-- What a step does to the timer and to the tick. -/
theorem next_cases {s s' : State} {a : Action} (h : next s a = some s') :
    (a = .expire ∧ s.tick = .waiting ∧ s' = { s with tick := .expired }) ∨
    (a = .onTick ∧ s.tick = .expired ∧ s' = { s with tick := .looping }) ∨
    (a = .onTick ∧ s.tick = .aborted ∧ s' = { s with tick := .ended }) ∨
    (a = .endLoop ∧ s.tick = .looping ∧ s' = { s with tick := .expiring }) ∨
    (a = .expiresAfter ∧ s.tick = .expiring ∧ s' = s.use .arming) ∨
    (a = .asyncWait ∧ s.tick = .arming ∧ s' = s.use .waiting) ∨
    ((a = .resetTimer ∧ s'.timer = false ∨ a ≠ .resetTimer ∧ a ≠ .onTick ∧ s'.timer = s.timer) ∧
      (s'.tick = s.tick ∨ s'.tick = s.tick.abort)) := by
  have habort : (if s.timer then s.tick.abort else s.tick) = s.tick ∨
      (if s.timer then s.tick.abort else s.tick) = s.tick.abort := by
    cases s.timer
    · exact .inl rfl
    · exact .inr rfl
  cases a with
  | expire =>
    obtain ⟨htick, hs⟩ := Option.ite_none_right_eq_some.mp h
    exact .inl ⟨rfl, htick, (Option.some.inj hs).symm⟩
  | onTick =>
    simp only [next] at h
    split at h
    · cases h
    · split at h
      · rename_i htick
        exact .inr (.inl ⟨rfl, htick, (Option.some.inj h).symm⟩)
      · rename_i htick
        exact .inr (.inr (.inl ⟨rfl, htick, (Option.some.inj h).symm⟩))
      · cases h
  | endLoop =>
    obtain ⟨htick, hs⟩ := Option.ite_none_right_eq_some.mp h
    exact .inr (.inr (.inr (.inl ⟨rfl, htick, (Option.some.inj hs).symm⟩)))
  | expiresAfter =>
    obtain ⟨htick, hs⟩ := Option.ite_none_right_eq_some.mp h
    exact .inr (.inr (.inr (.inr (.inl ⟨rfl, htick, (Option.some.inj hs).symm⟩))))
  | asyncWait =>
    obtain ⟨htick, hs⟩ := Option.ite_none_right_eq_some.mp h
    exact .inr (.inr (.inr (.inr (.inr (.inl ⟨rfl, htick, (Option.some.inj hs).symm⟩)))))
  | resetTimer =>
    obtain ⟨_, hs⟩ := Option.ite_none_right_eq_some.mp h
    cases hs
    exact .inr (.inr (.inr (.inr (.inr (.inr ⟨.inl ⟨rfl, rfl⟩, habort⟩)))))
  | cancelTimer =>
    obtain ⟨_, hs⟩ := Option.ite_none_right_eq_some.mp h
    cases hs
    exact .inr (.inr (.inr (.inr (.inr (.inr ⟨.inr ⟨nofun, nofun, rfl⟩, habort⟩)))))
  | clearRunning | stopServers | cancelSources | stopContext | join =>
    obtain ⟨_, hs⟩ := Option.ite_none_right_eq_some.mp h
    cases hs
    exact .inr (.inr (.inr (.inr (.inr (.inr ⟨.inr ⟨nofun, nofun, rfl⟩, .inl rfl⟩)))))

/-- Aborting a wait concerns no tick that runs. -/
theorem running_of_abort {tick tick' : Tick} (h : tick' = tick ∨ tick' = tick.abort) :
    (tick'.Running ↔ tick.Running) ∧ (tick' = .faulted ↔ tick = .faulted) := by
  rcases h with rfl | rfl
  · exact ⟨Iff.rfl, Iff.rfl⟩
  · exact ⟨running_abort_iff, abort_eq_faulted_iff⟩

theorem use_timer {s : State} (h : s.timer = true) (tick : Tick) :
    s.use tick = { s with tick := tick } := by
  unfold State.use
  rw [if_pos h]

theorem safe_next_iff {s s' : State} {a : Action} (h : s.Safe) (hn : next s a = some s') :
    s'.Safe ↔ Apart s a := by
  rcases next_cases hn with ⟨rfl, htick, rfl⟩ | ⟨rfl, htick, rfl⟩ | ⟨rfl, htick, rfl⟩ |
    ⟨rfl, htick, rfl⟩ | ⟨rfl, htick, rfl⟩ | ⟨rfl, htick, rfl⟩ | ⟨htimer, habort⟩
  · refine iff_of_true ⟨nofun, fun hr => ?_⟩ ⟨nofun, nofun⟩
    rcases hr with hr | hr | hr <;> cases hr
  · constructor
    · intro hsafe
      exact ⟨nofun, fun _ _ => hsafe.timer (.inl rfl)⟩
    · intro hapart
      exact ⟨nofun, fun _ => hapart.2 rfl htick⟩
  · refine iff_of_true ⟨nofun, fun hr => ?_⟩ ⟨nofun, fun _ he => ?_⟩
    · rcases hr with hr | hr | hr <;> cases hr
    · rw [htick] at he
      cases he
  · exact iff_of_true ⟨nofun, fun _ => h.timer (.inl htick)⟩ ⟨nofun, nofun⟩
  · have htimer := h.timer (.inr (.inl htick))
    rw [use_timer htimer]
    exact iff_of_true ⟨nofun, fun _ => htimer⟩ ⟨nofun, nofun⟩
  · have htimer := h.timer (.inr (.inr htick))
    rw [use_timer htimer]
    exact iff_of_true ⟨nofun, fun _ => htimer⟩ ⟨nofun, nofun⟩
  · obtain ⟨hrunning, hfaulted⟩ := running_of_abort habort
    rcases htimer with ⟨rfl, htimer⟩ | ⟨hreset, htick, htimer⟩
    · constructor
      · intro hsafe
        refine ⟨fun _ hr => ?_, nofun⟩
        have hthere := hsafe.timer (hrunning.mpr hr)
        rw [htimer] at hthere
        cases hthere
      · intro hapart
        refine ⟨fun hf => h.found (hfaulted.mp hf), fun hr => ?_⟩
        exact absurd (hrunning.mp hr) (hapart.1 rfl)
    · refine iff_of_true ⟨fun hf => h.found (hfaulted.mp hf), fun hr => ?_⟩
        ⟨fun he => absurd he hreset, fun he => absurd he htick⟩
      rw [htimer]
      exact h.timer (hrunning.mp hr)

/-- Nothing brings the timer back. -/
theorem doomed_next {s s' : State} {a : Action} (h : s.Doomed) (hn : next s a = some s') :
    s'.Doomed := by
  have hnot : ∀ tick : Tick, s.tick = tick → ¬tick.Running → tick ≠ .faulted → False := by
    intro tick htick hr hf
    rcases h.tick with hrun | hfault
    · exact hr (htick ▸ hrun)
    · exact hf (htick ▸ hfault)
  have huse : ∀ tick, (s.use tick).Doomed := by
    intro tick
    unfold State.use
    rw [h.timer]
    exact ⟨rfl, .inr rfl⟩
  rcases next_cases hn with ⟨rfl, htick, rfl⟩ | ⟨rfl, htick, rfl⟩ | ⟨rfl, htick, rfl⟩ |
    ⟨rfl, htick, rfl⟩ | ⟨rfl, htick, rfl⟩ | ⟨rfl, htick, rfl⟩ | ⟨htimer, habort⟩
  · exact (hnot _ htick (by decide) nofun).elim
  · exact (hnot _ htick (by decide) nofun).elim
  · exact (hnot _ htick (by decide) nofun).elim
  · exact ⟨h.timer, .inl (.inr (.inl rfl))⟩
  · exact huse _
  · exact huse _
  · obtain ⟨hrunning, hfaulted⟩ := running_of_abort habort
    refine ⟨?_, h.tick.imp hrunning.mpr hfaulted.mpr⟩
    rcases htimer with ⟨_, htimer⟩ | ⟨_, _, htimer⟩
    · exact htimer
    · exact htimer.trans h.timer

theorem safe_start : start.Safe := ⟨nofun, fun _ => rfl⟩

theorem always_safe_iff {acts : List Action} {s : State} (hs : system.exec start acts = some s) :
    system.Always State.Safe start acts ↔ system.EachStep Apart start acts := by
  refine Runs.System.always_iff_eachStep _ (fun _ => True) _ _ ?_ ?_ trivial safe_start hs
  · intro u a u' _ _
    trivial
  · intro u a u' _ hu hn
    exact safe_next_iff hu hn

/-- A state that is not safe does not become so, and leads to the null pointer. -/
theorem always_safe_of_found {acts : List Action} {s : State}
    (hs : system.exec start acts = some s) (hend : ¬s.tick.Running)
    (h : system.Always State.Found start acts) : system.Always State.Safe start acts := by
  intro pre u hpre hu
  refine ⟨h pre u hpre hu, fun hr => ?_⟩
  by_contra htimer
  obtain ⟨post, rfl⟩ := hpre
  obtain ⟨u', hu', hrest⟩ := (Runs.System.exec_append_iff _).mp hs
  cases hu.symm.trans hu'
  have hdoomed : s.Doomed := system.exec_invariant_of_step (fun _ _ _ => doomed_next)
    ⟨Bool.eq_false_of_not_eq_true htimer, .inl hr⟩ hrest
  rcases hdoomed.tick with hrun | hfault
  · exact hend hrun
  · exact h _ s List.prefix_rfl hs hfault

/-- If the reset does not meet a tick, every use finds the timer; and only then, in a run at
whose end no tick is under way. -/
theorem timer_found_of_apart {acts : List Action} {s : State}
    (hs : system.exec start acts = some s) :
    (system.EachStep Apart start acts → system.Always State.Found start acts) ∧
      (¬s.tick.Running → system.Always State.Found start acts →
        system.EachStep Apart start acts) := by
  constructor
  · intro hapart pre u hpre hu
    exact ((always_safe_iff hs).mpr hapart pre u hpre hu).found
  · intro hend hfound
    exact (always_safe_iff hs).mp (always_safe_of_found hs hend hfound)

theorem timer_found_of_apart_idle :
    system.Always State.Found start [.expire, .onTick, .endLoop, .expiresAfter, .asyncWait,
      .clearRunning, .cancelTimer, .resetTimer] := by
  apply (timer_found_of_apart (s := ⟨false, false, .aborted, .reset⟩) rfl).1
  refine .cons _ (by decide) fun s1 h1 => ?_
  cases h1
  refine .cons _ (by decide) fun s2 h2 => ?_
  cases h2
  refine .cons _ (by decide) fun s3 h3 => ?_
  cases h3
  refine .cons _ (by decide) fun s4 h4 => ?_
  cases h4
  refine .cons _ (by decide) fun s5 h5 => ?_
  cases h5
  refine .cons _ (by decide) fun s6 h6 => ?_
  cases h6
  refine .cons _ (by decide) fun s7 h7 => ?_
  cases h7
  exact .cons _ (by decide) fun s8 _ => Runs.System.eachStep_nil _ _ s8

/-- The timer is reset while the tick is in its loop. -/
theorem reset_during_tick :
    ¬system.Always State.Found start [.expire, .onTick, .clearRunning, .cancelTimer, .resetTimer,
      .endLoop, .expiresAfter] := by
  intro h
  exact h _ ⟨false, false, .faulted, .reset⟩ List.prefix_rfl rfl rfl

end SeekServe.TickTimer
