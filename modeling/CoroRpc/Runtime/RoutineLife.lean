import CoroRpc.Runtime.CoroutineSteps
import CoroRpc.Runtime.StackIntegrity

/-!
# The life of a routine

What holds of the tables of the scheduler and of the count of live routines in every run of the
runtime: who is queued, who runs, who may be taken from the pool, and that `live_routine_count_`
counts the routines that were started through `Coroutine` and have not finished.

The count is kept by two parties. `Coroutine::Resume` and `Coroutine::Spawn` add a routine, and
`OnRoutineFinished` takes it away, but only from a routine to which `CreateCo` gave that callback. The
scheduler, which `CoroutineScheduler::Current()` gives to everybody on the thread, creates and starts
routines too. A routine that one of the two has created and the other starts is counted and never
taken away, or taken away without having been counted. `ThroughCreator` excludes that.
-/

namespace CoroRpc.Runtime

open Lib List Function Scheduler

namespace Coroutine

variable {options : CoroutineOptions} {s s' : Coroutine} {r : Nat}

/-- A routine gets its first start from whom created it. -/
def ThroughCreator (s : Coroutine) : CoroutineOp → Prop
  | .resume r _ => s.state r = some .init → s.onFinish r = true
  | .schedulerResume r _ => s.state r = some .init → s.onFinish r = false
  | _ => True

instance (s : Coroutine) (op : CoroutineOp) : Decidable (s.ThroughCreator op) :=
  match op with
  | .resume r _ => inferInstanceAs (Decidable (s.state r = some .init → s.onFinish r = true))
  | .schedulerResume r _ =>
    inferInstanceAs (Decidable (s.state r = some .init → s.onFinish r = false))
  | .createCo _ | .spawn _ | .schedulerCreate .. | .schedulerSpawn .. | .runReady | .yield _
  | .yieldFor .. | .yieldUntilFlush _ | .await .. | .scheduleAtFlush _ | .cancelWait _ | .cancelFd _
  | .poll .. | .finish _ | .poke .. | .epollCtl _ => .isTrue trivial

/-- The count is that of the routines that will call `OnRoutineFinished`. -/
structure Live (s : Coroutine) : Prop where
  count : s.liveRoutineCount = s.started.length
  nodup : s.started.Nodup
  mem : ∀ r, r ∈ s.started ↔ s.onFinish r = true ∧ s.Alive r

namespace Live

theorem not_mem (h : Live s) (hr : ¬ s.Alive r) : r ∉ s.started :=
  fun hmem => hr ((h.mem r).mp hmem).2

theorem same (h : Live s) (hs : SameLife s s') : Live s' :=
  ⟨by rw [hs.count, hs.started]; exact h.count, by rw [hs.started]; exact h.nodup, fun r => by
    rw [hs.started, hs.onFinish, hs.alive]
    exact h.mem r⟩

theorem created {b : Bool} (h : Live s) (hc : Created s s' r b) : Live s' := by
  refine ⟨by rw [hc.count, hc.started]; exact h.count, by rw [hc.started]; exact h.nodup,
    fun q => ?_⟩
  rw [hc.started, hc.onFinish, hc.alive]
  by_cases hq : q = r
  · subst hq
    exact iff_of_false (h.not_mem hc.idle) fun hboth => hc.idle hboth.2
  · rw [update_of_ne hq]
    exact h.mem q

theorem not_alive_of_init (hr : s.state r = some .init) : ¬ s.Alive r := by
  simp [Alive, hr]

theorem begins (h : Live s) (hb : Begins s s' r) (hon : s.onFinish r = true)
    (hcount : s'.liveRoutineCount = s.liveRoutineCount + 1) (hstarted : s'.started = r :: s.started) :
    Live s' := by
  have hnot : r ∉ s.started := h.not_mem (not_alive_of_init hb.fresh)
  refine ⟨by rw [hcount, hstarted, h.count, length_cons], ?_, fun q => ?_⟩
  · rw [hstarted]
    exact nodup_cons.mpr ⟨hnot, h.nodup⟩
  · rw [hstarted, hb.onFinish, hb.alive, mem_cons, h.mem]
    by_cases hq : q = r
    · simp [hq, hon]
    · simp [hq]

theorem beginsUncounted (h : Live s) (hb : Begins s s' r) (hon : s.onFinish r = false)
    (hcount : s'.liveRoutineCount = s.liveRoutineCount) (hstarted : s'.started = s.started) :
    Live s' := by
  refine ⟨by rw [hcount, hstarted, h.count], by rw [hstarted]; exact h.nodup, fun q => ?_⟩
  rw [hstarted, hb.onFinish, hb.alive, h.mem]
  by_cases hq : q = r
  · simp [hq, hon]
  · simp [hq]

theorem ends (h : Live s) (he : Ends s s' r) : Live s' := by
  have halive : s.Alive r := by simp [Alive, he.current]
  refine ⟨?_, by rw [he.started]; exact h.nodup.erase r, fun q => ?_⟩
  · rw [he.count, he.started]
    split
    · rename_i hon
      rw [length_erase_of_mem ((h.mem r).mpr ⟨hon, halive⟩), h.count]
    · rename_i hon
      rw [erase_of_not_mem fun hmem => hon ((h.mem r).mp hmem).1, h.count]
  · rw [he.started, h.nodup.mem_erase_iff, he.onFinish, he.alive, h.mem]
    exact and_left_comm

theorem step {op : CoroutineOp} (h : Live s) (hop : s.ThroughCreator op) (hl : Life s op s') :
    Live s' := by
  cases hl with
  | same hsame => exact h.same hsame
  | created hcreated => exact h.created hcreated
  | @spawned t r b hcreated hbegins hcount hstarted =>
    have hon : t.onFinish r = b := by rw [hcreated.onFinish, update_self]
    rw [← hcreated.count, ← hcreated.started] at *
    cases b with
    | true => exact (h.created hcreated).begins hbegins hon hcount hstarted
    | false => exact (h.created hcreated).beginsUncounted hbegins hon hcount hstarted
  | resumed heq hbegins hcount hstarted =>
    subst heq
    exact h.begins hbegins (hop hbegins.fresh) hcount hstarted
  | schedulerResumed heq hbegins hcount hstarted =>
    subst heq
    exact h.beginsUncounted hbegins (hop hbegins.fresh) hcount hstarted
  | ended hends => exact h.ends hends

theorem init {nowMs : Nat} (hs : Coroutine.init options nowMs = .ok s) : Live s := by
  unfold Coroutine.init at hs
  split at hs
  · cases hs
  split at hs
  · cases hs
  cases hs
  exact ⟨rfl, nodup_nil, fun r => by simp⟩

end Live

/-! ## Runs -/

theorem live_of_reaches {nowMs : Nat} {s₀ : Coroutine} (hinit : init options nowMs = .ok s₀)
    (h : Reaches (step options) ThroughCreator s₀ s) : Live s := by
  have hboth : Coherent options none [] s ∧ Live s :=
    h.invariant (p := fun s => Coherent options none [] s ∧ Live s)
      ⟨(coherent_init hinit).1, .init hinit⟩ fun _ _ _ hp hok hs =>
      ⟨(step_spec hp.1 hs).coherent, hp.2.step hok (step_spec hp.1 hs).life⟩
  exact hboth.2

theorem acquire_at_rest (h : Coherent options none [] s) {stackSize : Nat} {held pool : List Nat}
    (ha : s.scheduler.acquire stackSize (s.unreferenced held) = some (r, pool)) :
    s.state r = some .finished ∧ r ∉ s.scheduler.readyQueue ∧ r ∉ s.flushQueue ∧
      r ∉ s.scheduler.callStack ∧ ¬ s.timerWheel.Linked (routineNode r) ∧
      ∀ k ∈ s.scheduler.stackTable, k.occupant ≠ some r := by
  obtain ⟨hunref, hperm⟩ := acquire_spec ha
  have hpool : r ∈ s.scheduler.pool := hperm.mem_iff.mp (by simp)
  have hfin : s.state r = some .finished := h.good.control.pooled r hpool
  have hflush : r ∉ s.flushQueue := by
    simp only [unreferenced, mem_filter, Bool.and_eq_true, decide_eq_true_eq] at hunref
    exact hunref.2.1.2
  have hcall : r ∉ s.scheduler.callStack := h.good.control.not_running hfin (by decide)
  refine ⟨hfin, h.good.control.not_queued hfin (by decide), hflush, hcall, fun hl => ?_,
    fun k hk hocc => ?_⟩
  · cases hfin.symm.trans ((h.waits.timer r).mp (.inl hl))
  · obtain ⟨j, hj⟩ := mem_iff_getElem?.mp hk
    obtain ⟨x, hx, -, hcur | hparked⟩ := h.good.inv.kept.occupant j r k hj hocc
    · exact hcall (Scheduler.mem_callStack_of_current h.good.inv hcur)
    · rw [state, control_state, hx] at hfin
      exact hparked.state_ne_finished (Option.some.inj hfin)

end Coroutine

/-- **The scheduler's tables and the live count**, in every run in which a routine gets its first
    start from whom created it. -/
theorem scheduler_tables_and_live_count (options : CoroutineOptions) {nowMs : Nat}
    {s₀ s : Coroutine} (hinit : Coroutine.init options nowMs = .ok s₀)
    (h : Reaches (Coroutine.step options) Coroutine.ThroughCreator s₀ s) :
    ((∀ r x, s.scheduler.routines[r]? = some x → (x.queued = true ↔ r ∈ s.scheduler.readyQueue)) ∧
      s.scheduler.readyQueue.Nodup ∧ ∀ r ∈ s.scheduler.readyQueue, s.state r = some .ready) ∧
    ((∀ r, s.state r = some .running ↔ r ∈ s.scheduler.callStack) ∧
      s.scheduler.callStack.Nodup ∧ s.scheduler.current = s.scheduler.callStack.head?) ∧
    (s.scheduler.current = none → s.scheduler.readyQueue ≠ [] →
      ∃ t, s.scheduler.step options.scheduler (.runReady 0) = some t) ∧
    (s.liveRoutineCount = s.started.length ∧ s.started.Nodup ∧
      (∀ r, r ∈ s.started ↔ s.onFinish r = true ∧ s.Alive r) ∧
      ∀ r, s.scheduler.current = some r → s.onFinish r = true → 0 < s.liveRoutineCount) ∧
    ∀ stackSize held r pool, s.scheduler.acquire stackSize (s.unreferenced held) = some (r, pool) →
      s.state r = some .finished ∧ r ∉ s.scheduler.readyQueue ∧ r ∉ s.flushQueue ∧
        r ∉ s.scheduler.callStack ∧ ¬ s.timerWheel.Linked (routineNode r) ∧
        ∀ k ∈ s.scheduler.stackTable, k.occupant ≠ some r := by
  have hc := Coroutine.coherent_of_reaches hinit h
  have hl := Coroutine.live_of_reaches hinit h
  have hcontrol := hc.good.control
  refine ⟨⟨fun r x hx => ?_, hcontrol.queueNodup, hcontrol.ready⟩,
    ⟨fun r => (hcontrol.running r).symm, hcontrol.callNodup, hc.good.inv.current⟩,
    fun hroot hne => ?_, ⟨hl.count, hl.nodup, hl.mem, fun r hcur hon => ?_⟩,
    fun stackSize held r pool ha => Coroutine.acquire_at_rest hc ha⟩
  · exact hcontrol.queued r x.flags (by rw [control_flags, hx]; rfl)
  · obtain ⟨r, rest, hqueue⟩ := exists_cons_of_ne_nil hne
    have hsp : s.scheduler.onStack 0 = true := by simp [onStack, hroot]
    obtain ⟨t, ht⟩ := runReady_total hc.good hqueue hsp
    refine ⟨t, ?_⟩
    simp only [Scheduler.step, hqueue, hsp, if_true, ht]
    rfl
  · have hrun : s.state r = some .running :=
      (hcontrol.running r).mp (Scheduler.mem_callStack_of_current hc.good.inv hcur)
    have hmem : r ∈ s.started := (hl.mem r).mpr ⟨hon, by simp [Coroutine.Alive, hrun]⟩
    rw [hl.count]
    exact length_pos_of_mem hmem

def oneSlotRuntime : CoroutineOptions where
  scheduler := oneSlot
  timerSlots := 2
  flushIntervalMs := 5

/-- Routine 0 spawns routine 1, yields for a time and is resumed early, by the other one. -/
theorem scheduler_tables_and_live_count_nested : ∃ s₀ s, Coroutine.init oneSlotRuntime 0 = .ok s₀ ∧
      Reaches (Coroutine.step oneSlotRuntime) Coroutine.ThroughCreator s₀ s ∧
      s.scheduler.current = some 0 ∧ s.scheduler.callStack = [0, 1] ∧ s.started = [1, 0] ∧
      s.liveRoutineCount = s.started.length := by
  obtain ⟨s₀, hinit⟩ : ∃ s₀, Coroutine.init oneSlotRuntime 0 = .ok s₀ := ⟨_, rfl⟩
  obtain ⟨s, hreach, hcur, hcalls, hstarted⟩ : ∃ s,
      Reaches (Coroutine.step oneSlotRuntime) Coroutine.ThroughCreator s₀ s ∧
      s.scheduler.current = some 0 ∧ s.scheduler.callStack = [0, 1] ∧ s.started = [1, 0] :=
    exists_reaches_of_exec [.createCo [], .resume 0 0, .spawn [], .yieldFor 4 0 28, .runReady,
      .resume 0 28] (by cases hinit; decide +kernel) fun _ _ hs => hs
  obtain ⟨-, -, -, ⟨hcount, -⟩, -⟩ := scheduler_tables_and_live_count oneSlotRuntime hinit hreach
  exact ⟨s₀, s, hinit, hreach, hcur, hcalls, hstarted, hcount⟩

/-- The scheduler creates routine 0 and `Coroutine::Resume` starts it. When it has finished no routine
    is left and one is counted, so that `Join` never returns. If `CreateCo` creates it and the
    scheduler starts it, `OnRoutineFinished` will find the count at zero. -/
theorem live_count_of_foreign_start : ∃ s₀, Coroutine.init oneSlotRuntime 0 = .ok s₀ ∧
      (∃ s, Reachable (Coroutine.step oneSlotRuntime) s₀ s ∧ s.liveRoutineCount = 1 ∧
        s.started = [] ∧ ∀ x ∈ s.scheduler.routines, x.state = .finished) ∧
      ∃ s, Reachable (Coroutine.step oneSlotRuntime) s₀ s ∧ s.scheduler.current = some 0 ∧
        s.onFinish 0 = true ∧ s.liveRoutineCount = 0 := by
  obtain ⟨s₀, hinit⟩ : ∃ s₀, Coroutine.init oneSlotRuntime 0 = .ok s₀ := ⟨_, rfl⟩
  refine ⟨s₀, hinit, exists_reaches_of_exec [.schedulerCreate 8 [], .resume 0 0, .finish 28]
    (by cases hinit; decide +kernel) fun _ _ hs => hs, ?_⟩
  exact exists_reaches_of_exec [.createCo [], .schedulerResume 0 0]
    (by cases hinit; decide +kernel) fun _ _ hs => hs

end CoroRpc.Runtime
