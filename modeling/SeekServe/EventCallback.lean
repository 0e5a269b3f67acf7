import SeekServe.LockOrder

/-!
# The calls that an event callback may make

The callback runs on the thread that fires the event, with `event_mu_` held, and mostly on the
thread of the dispatcher.
-/

namespace SeekServe.Locking

set_option autoImplicit false

open Locks

namespace Call

/-- A quiet call can go by with locks that are taken and given back at once, none of them of
the dispatcher or the callback. -/
theorem exists_brief {c : Call} (hc : c.quiet = true) (callback : LockProg) :
    ∃ ms : List Mutex, (c.prog callback).Trace (brief ms) ∧ ∀ m ∈ ms, 4 < m.rank := by
  cases c with
  | destroy => cases hc
  | addTorrent =>
    exact ⟨[], .seq (trace_maybe _) (.seq (trace_maybe _) .skip), by simp⟩
  | removeTorrent =>
    have htrace : SeekServeEngine.removeTorrent.Trace _ :=
      .seq (trace_locked .cache) (.seq (trace_maybe _) (.seq (trace_locked .states)
        (.seq (trace_locked .catalog) (.seq (trace_locked .sessions) .skip))))
    exact ⟨[.cache, .states, .catalog, .sessions], htrace, by simp⟩
  | pauseTorrent => cases hc
  | resumeTorrent => cases hc
  | listTorrents => exact ⟨[.cache], trace_locked .cache, by simp⟩
  | listFiles => exact ⟨[.catalog], trace_locked .catalog, by simp⟩
  | selectFile =>
    refine ⟨[.sessions], ?_, by simp⟩
    exact .seq (trace_locked .sessions) (.seq (trace_maybe _) .skip)
  | getStreamUrl => exact ⟨[], trace_maybe _, by simp⟩
  | getStatusJson =>
    refine ⟨[.sessions], ?_, by simp⟩
    exact .seq (trace_locked .sessions) (.seq (trace_maybe _) .skip)
  | startServer => exact ⟨[], trace_maybe _, by simp⟩
  | stopServer => exact ⟨[], trace_maybe _, by simp⟩
  | setEventCallback => cases hc

/-- Where the dispatcher ends with any other call that it makes while it runs the callback: at the
lock that it holds, or at its own end. -/
def fatal : Call → Act Mutex Thread
  | .destroy _ => .join .alerts
  | _ => .acquire .event

theorem exists_fatal {c : Call} (hc : c.quiet = false) :
    ∃ (ms : List Mutex) (as : List (Act Mutex Thread)),
      (c.prog .skip).Trace (brief ms ++ c.fatal :: as) ∧ ∀ m ∈ ms, 4 < m.rank := by
  cases c with
  | destroy run =>
    have hjoin : (Prog.maybe (.join .alerts) : LockProg).Trace _ := .right _ (.join Thread.alerts)
    have hstop : AlertDispatcher.stop.Trace _ :=
      .right _ (.seq (trace_locked .notify) (.seq hjoin .skip))
    have htrace : (SeekServeEngine.destroy run).Trace _ :=
      .seq (trace_maybe _) (.seq hstop (.seq (trace_maybe _) .skip))
    exact ⟨[.notify], [], htrace, by simp⟩
  | pauseTorrent =>
    refine ⟨[.sessions], [.release .event], ?_, by simp⟩
    exact .seq (trace_locked .sessions) (.seq (.right _ (.guard (trace_maybe _))) .skip)
  | resumeTorrent =>
    refine ⟨[.sessions], [.release .event], ?_, by simp⟩
    exact .seq (trace_locked .sessions) (.seq (.right _ (.guard (trace_maybe _))) .skip)
  | setEventCallback => exact ⟨[], [.release .event], .guard .skip, by simp⟩
  | _ => cases hc

/-- The first call that is not quiet decides. -/
theorem exists_fatal_of_find {cs : List Call} {c : Call}
    (hfirst : cs.find? (fun c => !c.quiet) = some c) :
    ∃ (ms : List Mutex) (as : List (Act Mutex Thread)),
      (Prog.inTurn (cs.map (prog .skip))).Trace (brief ms ++ c.fatal :: as) ∧
        ∀ m ∈ ms, 4 < m.rank := by
  induction cs with
  | nil => cases hfirst
  | cons d cs ih =>
    cases hd : d.quiet with
    | false =>
      rw [List.find?_cons_of_pos (by rw [hd]; rfl)] at hfirst
      cases hfirst
      obtain ⟨ms, as, htrace, hms⟩ := exists_fatal hd
      obtain ⟨bs, hrest⟩ := (Prog.inTurn (cs.map (prog .skip))).exists_trace
      refine ⟨ms, as ++ bs, ?_, hms⟩
      have hall := Prog.Trace.seq htrace hrest
      rw [List.append_assoc] at hall
      exact hall
    | true =>
      rw [List.find?_cons_of_neg (by rw [hd]; exact Bool.false_ne_true)] at hfirst
      obtain ⟨ms, as, htrace, hms⟩ := ih hfirst
      obtain ⟨ks, hquiet, hks⟩ := exists_brief hd .skip
      refine ⟨ks ++ ms, as, ?_, ?_⟩
      · have hall := Prog.Trace.seq hquiet htrace
        rw [brief_append, List.append_assoc]
        exact hall
      · intro m hm
        rcases List.mem_append.mp hm with hm | hm
        · exact hks m hm
        · exact hms m hm

end Call

namespace AlertDispatcher

/-- With nothing else going on, the dispatcher gets as far as the call that it cannot finish. -/
theorem reaches_fatal {ms : List Mutex} (hms : ∀ m ∈ ms, 4 < m.rank) (a : Act Mutex Thread)
    (as : List (Act Mutex Thread)) :
    ∃ s', (State.alone .alerts (script (brief ms ++ a :: as))).Reaches s' ∧
      s'.Before .alerts (a :: (as ++ [.release .event, .release .handlers])) ∧
        s'.owner .event = some .alerts := by
  have hfirst := State.before_alone (L := Mutex) Thread.alerts (script (brief ms ++ a :: as))
  obtain ⟨u, hu, hubefore, huowner⟩ := State.Before.brief hfirst fun _ _ => rfl
  have hfree : u.owner = fun _ => none := huowner
  have hhandlers : u.owner .handlers = none := by rw [hfree]
  obtain ⟨v, hv, hvbefore, hvowner⟩ := hubefore.acquire hhandlers
  obtain ⟨w, hw, hwbefore, hwowner⟩ := State.Before.brief hvbefore (by simp [hvowner, hfree])
  have hevent : w.owner .event = none := by simp [hwowner, hvowner, hfree]
  obtain ⟨x, hx, hxbefore, hxowner⟩ := hwbefore.acquire hevent
  rw [List.append_assoc] at hxbefore
  -- the locks of the calls before are none of the two that are held
  have hpast : ∀ m ∈ ms, x.owner m = none := by
    intro m hm
    have hrank := hms m hm
    have hevent : m ≠ .event := by
      intro heq
      rw [heq] at hrank
      exact absurd hrank (by decide)
    have hhandlers : m ≠ .handlers := by
      intro heq
      rw [heq] at hrank
      exact absurd hrank (by decide)
    rw [hxowner, hwowner, hvowner, hfree, Function.update_of_ne hevent,
      Function.update_of_ne hhandlers]
  obtain ⟨y, hy, hybefore, hyowner⟩ := State.Before.brief hxbefore hpast
  refine ⟨y, (((hu.trans hv).trans hw).trans hx).trans hy, hybefore, ?_⟩
  rw [hyowner, hxowner]
  exact Function.update_self _ _ _

/-- The end of the dispatcher in this call: the process is over, or it waits for the lock of the
callback while it holds it, and never takes another step. -/
def LostIn (s : State Mutex Thread) : Call → Prop
  | .destroy _ => s.ended = true
  | _ => ∃ as, ∀ us s', State.system.exec s us = some s' →
      s'.todo .alerts = .acquire .event :: as ∧ s'.owner .event = some .alerts

theorem reaches_lost {s : State Mutex Thread} {c : Call} {as : List (Act Mutex Thread)}
    (h : s.Before .alerts (c.fatal :: as)) (howner : s.owner .event = some .alerts) :
    ∃ s', s.Reaches s' ∧ LostIn s' c := by
  cases c with
  | destroy run =>
    obtain ⟨s', hreaches, hended⟩ := h.join_self
    exact ⟨s', hreaches, hended⟩
  | _ => exact ⟨s, ⟨[], rfl⟩, as, fun _ _ hrun => State.stuck_of_own h.todo howner hrun⟩

/-- The threads cannot all come to their end any more. -/
theorem LostIn.not_finished {s s' : State Mutex Thread} {c : Call} (h : LostIn s c)
    (hstarted : s.started .alerts = true) {us : List Thread}
    (hrun : State.system.exec s us = some s') : ¬ s'.Finished := by
  intro hfinished
  cases c with
  | destroy run =>
    have hended : s.ended = true := h
    rw [State.exec_of_ended hended hrun] at hfinished
    rw [hfinished.alive] at hended
    cases hended
  | _ =>
    obtain ⟨as, hstuck⟩ := h
    have hnone := hfinished.done .alerts (State.started_exec hstarted hrun)
    rw [(hstuck us s' hrun).1] at hnone
    cases hnone

end AlertDispatcher

/-- The dispatcher alone, for one file that was completed. -/
def Plan.fileCompleted (cs : List Call) : Plan where
  callback := cs
  saved := 0
  calls _ := []
  passes := [[.fileCompleted]]
  handlers _ := []
  streams _ := (0, 0)
  routes _ := .refused
  notices := 0

theorem Plan.scripts_fileCompleted {cs : List Call} {as : List (Act Mutex Thread)}
    (htrace : (Prog.inTurn (cs.map (Call.prog .skip))).Trace as) :
    (Plan.fileCompleted cs).Scripts {.alerts}
      (Function.update (fun _ => []) .alerts (AlertDispatcher.script as)) := by
  constructor
  · intro t ht
    rw [Finset.mem_singleton.mp ht, Function.update_self]
    exact AlertDispatcher.trace_script htrace
  · intro t ht
    have hother : t ≠ .alerts := fun heq => ht (Finset.mem_singleton.mpr heq)
    exact Function.update_of_ne hother _ _

/-- The dispatcher comes to the first call that is not quiet, and is lost in it. -/
theorem AlertDispatcher.exists_lost {cs : List Call} {c : Call}
    (hfirst : cs.find? (fun c => !c.quiet) = some c) :
    ∃ todo, (Plan.fileCompleted cs).Scripts {.alerts} todo ∧ ∃ ts s,
      State.system.exec ⟨todo, fun _ => none, fun _ => true, false⟩ ts = some s ∧ LostIn s c := by
  obtain ⟨ms, as, htrace, hms⟩ := Call.exists_fatal_of_find hfirst
  obtain ⟨s, hs, hbefore, howner⟩ := reaches_fatal hms c.fatal as
  obtain ⟨s', hs', hlost⟩ := reaches_lost hbefore howner
  obtain ⟨ts, hrun⟩ := hs.trans hs'
  exact ⟨_, Plan.scripts_fileCompleted htrace, ts, s', hrun, hlost⟩

/-- All threads can always come to their end, whatever they do, exactly when the calls that the
callback makes fire no event, do not set a callback and do not destroy the engine. With the first
call that does, the dispatcher ends the process or waits for ever. -/
theorem SeekServeEngine.callback_calls (cs : List Call) :
    ((∀ plan : Plan, plan.callback = cs → ∀ threads todo, plan.Scripts threads todo →
      ∀ (started : Thread → Bool) (ts : List Thread) (s : State Mutex Thread),
        State.system.exec ⟨todo, fun _ => none, started, false⟩ ts = some s →
          ∃ us s', State.system.exec s us = some s' ∧ s'.Finished) ↔
      ∀ c ∈ cs, c.quiet = true) ∧
    ∀ c, cs.find? (fun c => !c.quiet) = some c →
      ∃ plan : Plan, plan.callback = cs ∧ ∃ threads todo, plan.Scripts threads todo ∧ ∃ ts s,
        State.system.exec ⟨todo, fun _ => none, fun _ => true, false⟩ ts = some s ∧
          AlertDispatcher.LostIn s c := by
  refine ⟨⟨?_, ?_⟩, ?_⟩
  · intro hends c hc
    by_contra hloud
    obtain ⟨d, hfirst⟩ : ∃ d, cs.find? (fun c => !c.quiet) = some d := by
      rw [← Option.isSome_iff_exists, List.find?_isSome]
      exact ⟨c, hc, by simpa using hloud⟩
    obtain ⟨todo, hscripts, ts, s, hrun, hlost⟩ := AlertDispatcher.exists_lost hfirst
    obtain ⟨us, s', hlast, hfinished⟩ :=
      hends (Plan.fileCompleted cs) rfl {.alerts} todo hscripts _ ts s hrun
    exact hlost.not_finished (State.started_exec rfl hrun) hlast hfinished
  · intro hquiet plan hcallback threads todo hscripts started ts s hrun
    rw [← hcallback] at hquiet
    have horderly := (Plan.orderly hquiet hscripts started).exec hrun
    have hfirst : State.Idle threads ⟨todo, fun _ => none, started, false⟩ := hscripts.2
    exact horderly.finishes (State.work_exec hfirst hrun).1
  · intro c hfirst
    exact ⟨Plan.fileCompleted cs, rfl, {.alerts}, AlertDispatcher.exists_lost hfirst⟩

end SeekServe.Locking
