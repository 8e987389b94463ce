import CoroRpc.Runtime.StackIntegrity

/-!
# The scheduler without its stacks

Which coroutine may run next does not depend on what is on the stacks. `Control` is the scheduler
as a machine on flags and queues, and every function of `Scheduler` moves it in the way its name
says (`resume_control` and its likes). The invariant of the flags (`Control.Inv`) is proved here on
the small machine and holds of the scheduler because of that.

The stacks come back in one place. `PrepareSharedStack` throws if a stored stack pointer is outside
its stack or if a snapshot has no address to go back to. Neither can be (`resume_total`), so what a
`Resume` checks of the flags is all that it checks.
-/

namespace CoroRpc.Runtime

open Lib List Option Routine

/-- What the scheduler decides by. -/
structure Flags where
  state : CoroutineState
  queued : Bool
  deriving DecidableEq

def Routine.flags (x : Routine) : Flags := ⟨x.state, x.queued⟩

/-- The routines by their flags, and where the scheduler keeps them. -/
structure Control where
  flags : List Flags
  readyQueue : List Nat
  callStack : List Nat
  pool : List Nat
  deriving DecidableEq

namespace Control

def state (c : Control) (r : Nat) : Option CoroutineState :=
  c.flags[r]?.map Flags.state

def setState (c : Control) (r : Nat) (next : CoroutineState) : Control :=
  { c with flags := c.flags.modify r fun f => { f with state := next } }

def enqueueReady (c : Control) (r : Nat) : Control :=
  if c.flags[r]? = some ⟨.ready, false⟩ then
    { c with
      flags := c.flags.modify r fun f => { f with queued := true }
      readyQueue := c.readyQueue ++ [r] }
  else c

/-- Control goes to `r`, on top of the call stack. -/
def enter (c : Control) (r : Nat) : Control :=
  { c.setState r .running with callStack := r :: c.callStack }

/-- Control leaves `r`, the top of the call stack, which becomes `next`. -/
def exit (c : Control) (r : Nat) (next : CoroutineState) : Control :=
  { c.setState r next with callStack := c.callStack.tail }

/-- `r` has finished, and is pooled if the pool has room. -/
def release (limit : Nat) (c : Control) (r : Nat) : Control :=
  if c.pool.length < limit then { c with pool := c.pool ++ [r] } else c

def popReady (c : Control) (r : Nat) (rest : List Nat) : Control :=
  { c with
    flags := c.flags.modify r fun f => { f with queued := false }
    readyQueue := rest }

/-- `Create` takes `r` from the pool and leaves `pool`. -/
def recycle (c : Control) (r : Nat) (pool : List Nat) : Control :=
  { c with flags := c.flags.modify r fun _ => ⟨.init, false⟩, pool := pool }

def createRaw (c : Control) : Control :=
  { c with flags := c.flags ++ [⟨.init, false⟩] }

/-! ## The invariant -/

/-- The queue, the call stack and the pool hold routines in the state that belongs there, once
    each. -/
structure Inv (c : Control) : Prop where
  queued : ∀ r f, c.flags[r]? = some f → (f.queued = true ↔ r ∈ c.readyQueue)
  queueNodup : c.readyQueue.Nodup
  ready : ∀ r ∈ c.readyQueue, c.state r = some .ready
  running : ∀ r, r ∈ c.callStack ↔ c.state r = some .running
  callNodup : c.callStack.Nodup
  pooled : ∀ r ∈ c.pool, c.state r = some .finished
  poolNodup : c.pool.Nodup

section
variable {c : Control} {r q : Nat} {next old : CoroutineState} {rest pool : List Nat}

theorem state_eq_some : c.state r = some old ↔ ∃ f, c.flags[r]? = some f ∧ f.state = old := by
  rw [state, map_eq_some_iff]

theorem state_setState (h : c.state r = some old) :
    (c.setState r next).state q = if q = r then some next else c.state q := by
  simp only [state, setState, getElem?_modify]
  split
  · rename_i hrq
    obtain ⟨f, hf, -⟩ := state_eq_some.mp h
    rw [if_pos hrq.symm, ← hrq, hf]
    rfl
  · rename_i hrq
    rw [if_neg (Ne.symm hrq)]
    simp

theorem state_modify_queued {b : Bool} :
    ({ c with flags := c.flags.modify r fun f => { f with queued := b } } : Control).state q =
      c.state q := by
  simp only [state, getElem?_modify]
  cases c.flags[q]? with
  | none => rfl
  | some f => by_cases hrq : r = q <;> simp [hrq]

theorem state_enqueueReady : (c.enqueueReady r).state q = c.state q := by
  unfold enqueueReady
  split
  · exact state_modify_queued
  · rfl

theorem queued_setState {f : Flags} (h : (c.setState r next).flags[q]? = some f) :
    ∃ f', c.flags[q]? = some f' ∧ f.queued = f'.queued := by
  obtain ⟨f', hf', rfl⟩ := getElem?_modify_iff.mp h
  refine ⟨f', hf', ?_⟩
  split <;> rfl

namespace Inv

section
variable (h : c.Inv) (hs : c.state r = some old)
include h hs

/-- Only routines that are `READY` are in the queue. -/
theorem not_queued (hne : old ≠ .ready) :
    r ∉ c.readyQueue := by
  intro hr
  rw [h.ready r hr] at hs
  exact hne (some.inj hs).symm

theorem not_running (hne : old ≠ .running) :
    r ∉ c.callStack := by
  rw [h.running, hs]
  simpa using hne

theorem not_pooled (hne : old ≠ .finished) :
    r ∉ c.pool := by
  intro hr
  rw [h.pooled r hr] at hs
  exact hne (some.inj hs).symm

/-- A routine that is in no queue and in no pool changes its state; the call stack follows. -/
theorem setState (hq : r ∉ c.readyQueue) (hp : r ∉ c.pool) {callStack : List Nat}
    (hnodup : callStack.Nodup) (hr : r ∈ callStack ↔ next = .running)
    (hother : ∀ q, q ≠ r → (q ∈ callStack ↔ q ∈ c.callStack)) :
    Inv { c.setState r next with callStack := callStack } where
  queued q f hf := by
    obtain ⟨f', hf', heq⟩ := queued_setState hf
    rw [heq]
    exact h.queued q f' hf'
  queueNodup := h.queueNodup
  ready q hmem := by
    have hne : q ≠ r := fun heq => hq (heq ▸ hmem)
    exact (state_setState hs).trans ((if_neg hne).trans (h.ready q hmem))
  running q := by
    have hstate : ({ c.setState r next with callStack := callStack } : Control).state q =
        if q = r then some next else c.state q := state_setState hs
    rw [hstate]
    split
    · rename_i heq
      rw [heq, hr, some.injEq]
    · rename_i hne
      rw [hother q hne, h.running q]
  callNodup := hnodup
  pooled q hmem := by
    have hne : q ≠ r := fun heq => hp (heq ▸ hmem)
    exact (state_setState hs).trans ((if_neg hne).trans (h.pooled q hmem))
  poolNodup := h.poolNodup

theorem enter (hq : r ∉ c.readyQueue) (hrun : old ≠ .running) (hfin : old ≠ .finished) :
    (c.enter r).Inv := by
  have hnot := h.not_running hs hrun
  refine h.setState hs hq (h.not_pooled hs hfin) (nodup_cons.mpr ⟨hnot, h.callNodup⟩) ?_ ?_
  · simp
  · intro q hne
    simp [hne]

end

theorem exit (h : c.Inv) {callers : List Nat} (hcalls : c.callStack = r :: callers)
    (hnext : next ≠ .running) : (c.exit r next).Inv := by
  have hs : c.state r = some .running := (h.running r).mp (by simp [hcalls])
  have hnodup := h.callNodup
  rw [hcalls, nodup_cons] at hnodup
  refine h.setState hs (h.not_queued hs (by decide)) (h.not_pooled hs (by decide)) ?_ ?_ ?_
  · rw [hcalls]
    exact hnodup.2
  · rw [hcalls]
    exact iff_of_false hnodup.1 hnext
  · intro q hne
    simp [hcalls, hne]

/-- A waiting routine becomes `READY`; it comes into the queue after that. -/
theorem wake (h : c.Inv) (hs : c.state r = some old) (hrun : old ≠ .running) (hready : old ≠ .ready)
    (hfin : old ≠ .finished) : (c.setState r .ready).Inv :=
  h.setState hs (h.not_queued hs hready) (h.not_pooled hs hfin) h.callNodup
    (iff_of_false (h.not_running hs hrun) (by decide)) fun _ _ => Iff.rfl

/-- The flag keeps a routine from being queued twice. -/
theorem enqueueReady (h : c.Inv) : (c.enqueueReady r).Inv := by
  unfold Control.enqueueReady
  split
  · rename_i hf
    have hnew : r ∉ c.readyQueue := fun hmem =>
      by cases (h.queued r _ hf).mpr hmem
    refine ⟨fun q f hq => ?_, ?_, fun q hmem => ?_, fun q => ?_, h.callNodup, fun q hmem => ?_,
      h.poolNodup⟩
    · rw [mem_append, mem_singleton]
      rcases getElem?_modify_cases hq with ⟨f', rfl, -, rfl⟩ | ⟨hne, hf'⟩
      · simp
      · rw [h.queued q f hf']
        simp [Ne.symm hne]
    · exact nodup_append.mpr ⟨h.queueNodup, by simp, fun a ha b hb heq => by
        rw [heq, mem_singleton.mp hb] at ha
        exact hnew ha⟩
    · refine state_modify_queued.trans ?_
      rcases mem_append.mp hmem with hmem | hmem
      · exact h.ready q hmem
      · rw [mem_singleton.mp hmem, state, hf]
        rfl
    · rw [h.running]
      exact (state_modify_queued (c := c) ▸ Iff.rfl)
    · exact state_modify_queued.trans (h.pooled q hmem)
  · exact h

theorem popReady (h : c.Inv) (hqueue : c.readyQueue = r :: rest) : (c.popReady r rest).Inv := by
  have hnodup := h.queueNodup
  rw [hqueue, nodup_cons] at hnodup
  refine ⟨fun q f hq => ?_, hnodup.2, fun q hmem => ?_, fun q => ?_, h.callNodup, fun q hmem => ?_,
    h.poolNodup⟩
  · change _ ↔ q ∈ rest
    rcases getElem?_modify_cases hq with ⟨f', rfl, -, rfl⟩ | ⟨hne, hf'⟩
    · simp [hnodup.1]
    · rw [h.queued q f hf', hqueue]
      simp [Ne.symm hne]
  · exact state_modify_queued.trans (h.ready q (by rw [hqueue]; exact mem_cons_of_mem _ hmem))
  · refine (h.running q).trans ?_
    rw [← state_modify_queued (c := c) (r := r) (b := false)]
    rfl
  · exact state_modify_queued.trans (h.pooled q hmem)

theorem release {limit : Nat} (h : c.Inv) (hs : c.state r = some .finished) (hnew : r ∉ c.pool) :
    (c.release limit r).Inv := by
  unfold Control.release
  split
  · refine { h with pooled := fun q hmem => ?_, poolNodup := ?_ }
    · rcases mem_append.mp hmem with hmem | hmem
      · exact h.pooled q hmem
      · rw [mem_singleton.mp hmem]
        exact hs
    · exact nodup_append.mpr ⟨h.poolNodup, by simp, fun a ha b hb heq => by
        rw [heq, mem_singleton.mp hb] at ha
        exact hnew ha⟩
  · exact h

theorem recycle (h : c.Inv) (hs : c.state r = some .finished) (hpool : ∀ q ∈ pool, q ∈ c.pool)
    (hgone : r ∉ pool) (hnodup : pool.Nodup) : (c.recycle r pool).Inv := by
  have hq := h.not_queued hs (by decide)
  have hrun := h.not_running hs (by decide)
  have hstate : ∀ q, q ≠ r → (c.recycle r pool).state q = c.state q := fun q hne => by
    simp only [state, Control.recycle, getElem?_modify_of_ne (Ne.symm hne)]
  obtain ⟨f, hf, -⟩ := state_eq_some.mp hs
  have hnew : (c.recycle r pool).state r = some .init :=
    state_eq_some.mpr ⟨_, getElem?_modify_self hf, rfl⟩
  refine ⟨fun q f hq' => ?_, h.queueNodup, fun q hmem => ?_, fun q => ?_, h.callNodup,
    fun q hmem => ?_, hnodup⟩
  · rcases getElem?_modify_cases hq' with ⟨f', rfl, -, rfl⟩ | ⟨-, hf'⟩
    · exact iff_of_false (by simp) hq
    · exact h.queued q f hf'
  · rw [hstate q fun heq => hq (heq ▸ hmem)]
    exact h.ready q hmem
  · by_cases hqr : q = r
    · rw [hqr, hnew]
      exact iff_of_false hrun (by simp)
    · rw [hstate q hqr]
      exact h.running q
  · rw [hstate q fun heq => hgone (heq ▸ hmem)]
    exact h.pooled q (hpool q hmem)

theorem createRaw (h : c.Inv) : c.createRaw.Inv ∧ c.state c.flags.length = none ∧
    ∀ q, c.createRaw.state q = if q = c.flags.length then some .init else c.state q := by
  have hnone : c.flags[c.flags.length]? = none := getElem?_eq_none (Nat.le_refl _)
  have hstate : ∀ q, c.createRaw.state q =
      if q = c.flags.length then some .init else c.state q := by
    intro q
    unfold Control.createRaw state
    split
    · rename_i heq
      rw [heq, getElem?_concat_length]
      rfl
    · rename_i hne
      rw [getElem?_append]
      split
      · rfl
      · rw [getElem?_eq_none (by simp; omega), getElem?_eq_none (by omega)]
  have hold : ∀ {q} {s}, c.state q = some s → q ≠ c.flags.length := by
    intro q s hs heq
    rw [state, heq, hnone] at hs
    cases hs
  refine ⟨⟨fun q f hq => ?_, h.queueNodup, fun q hmem => ?_, fun q => ?_, h.callNodup,
    fun q hmem => ?_, h.poolNodup⟩, by rw [state, hnone]; rfl, hstate⟩
  · rcases getElem?_snoc hq with hq | ⟨hlen, rfl⟩
    · exact h.queued q f hq
    · refine iff_of_false (by simp) fun hmem => hold (h.ready q hmem) hlen
  · rw [hstate, if_neg (hold (h.ready q hmem))]
    exact h.ready q hmem
  · rw [hstate]
    split
    · rename_i heq
      refine iff_of_false (fun hmem => hold ((h.running q).mp hmem) heq) (by simp)
    · exact h.running q
  · rw [hstate, if_neg (hold (h.pooled q hmem))]
    exact h.pooled q hmem

end Inv

end

end Control

/-! ## The scheduler moves it -/

namespace Scheduler

/-- What is left of the scheduler without its stacks. -/
def control (s : Scheduler) : Control :=
  ⟨s.routines.map flags, s.readyQueue, s.callStack, s.pool⟩

variable {s s' : Scheduler} {r sp : Nat}

theorem control_flags : s.control.flags[r]? = s.routines[r]?.map flags := by
  rw [control, getElem?_map]

theorem control_state : s.control.state r = s.routines[r]?.map state := by
  rw [Control.state, control_flags]
  cases s.routines[r]? <;> rfl

/-- Only state and flag of a routine are seen. -/
theorem control_setRoutine {f : Routine → Routine} (hf : ∀ x, (f x).flags = x.flags) :
    (s.setRoutine r f).control = s.control := by
  simp only [control, setRoutine, map_modify_eq hf]

theorem flags_modify {f : Routine → Routine} {g : Flags → Flags}
    (hf : ∀ x, (f x).flags = g x.flags) :
    (s.routines.modify r f).map flags = (s.routines.map flags).modify r g := by
  apply ext_getElem?
  intro q
  rw [getElem?_map, getElem?_modify, getElem?_modify, getElem?_map]
  cases s.routines[q]? with
  | none => rfl
  | some x => by_cases hrq : r = q <;> simp [hrq, hf]

theorem control_setState (next : CoroutineState) :
    (s.setRoutine r fun x => { x with state := next }).control = s.control.setState r next := by
  simp only [control, Control.setState, setRoutine]
  rw [flags_modify (g := fun f => { f with state := next }) fun _ => rfl]

theorem control_leave : (s.leave sp).control = s.control ∧ (s.leave sp).current = s.current := by
  unfold leave
  split
  · unfold noteGaveUp
    split
    · split
      · exact ⟨control_setRoutine fun _ => rfl, rfl⟩
      · exact ⟨rfl, rfl⟩
    · exact ⟨rfl, rfl⟩
  · exact ⟨rfl, rfl⟩

theorem control_initializeContext : (s.initializeContext r).control = s.control := by
  unfold initializeContext
  split
  · split
    · exact control_setRoutine fun _ => rfl
    · rfl
  · rfl

theorem control_saveSharedStack {pointer : Option Nat} (h : s.saveSharedStack r pointer = .ok s') :
    s'.control = s.control ∧ s'.current = s.current := by
  unfold saveSharedStack at h
  split at h
  · cases h; exact ⟨rfl, rfl⟩
  · split at h
    · cases h; exact ⟨rfl, rfl⟩
    · split at h
      · cases h; exact ⟨rfl, rfl⟩
      · dsimp only at h
        split at h
        · cases h
        · cases h
          exact ⟨control_setRoutine fun _ => rfl, rfl⟩

theorem control_prepareSharedStack {left : Option Nat} {restore : Option (Nat × Bytes)}
    (h : s.prepareSharedStack r left sp = .ok (s', restore)) :
    s'.control = s.control ∧ s'.current = s.current := by
  unfold prepareSharedStack at h
  split at h
  · cases h; exact ⟨rfl, rfl⟩
  · split at h
    · cases h; exact ⟨rfl, rfl⟩
    · split at h
      · cases h; exact ⟨rfl, rfl⟩
      · dsimp only at h
        split at h
        · cases h
        · rename_i t hsaved
          have ht : t.control = s.control ∧ t.current = s.current := by
            split at hsaved
            · exact control_saveSharedStack hsaved
            · cases hsaved; exact ⟨rfl, rfl⟩
          rw [← ht.1, ← ht.2]
          split at h
          · cases h; exact ⟨rfl, rfl⟩
          · split at h
            · cases h
            · cases h; exact ⟨rfl, rfl⟩

theorem control_contextSwitch {left entered : Option Nat} {restore : Option (Nat × Bytes)} :
    (s.contextSwitch left sp entered restore).control = s.control ∧
      (s.contextSwitch left sp entered restore).current = s.current := by
  have hstore : ∀ c, (s.setRoutine c fun x => { x with context := some sp }).control = s.control :=
    fun c => control_setRoutine fun _ => rfl
  unfold contextSwitch
  cases left with
  | none =>
    dsimp only
    split
    · split <;> exact ⟨rfl, rfl⟩
    · exact ⟨rfl, rfl⟩
  | some c =>
    dsimp only
    split
    · split
      · exact ⟨hstore c, rfl⟩
      · exact ⟨hstore c, rfl⟩
    · exact ⟨hstore c, rfl⟩

theorem control_enqueueReady : (s.enqueueReady r).control = s.control.enqueueReady r := by
  unfold enqueueReady Control.enqueueReady
  rw [control_flags]
  split
  · rename_i x hx
    have hiff : s.routines[r]?.map flags = some ⟨.ready, false⟩ ↔
        x.state = .ready ∧ x.queued = false := by
      rw [hx]
      simp [flags]
    by_cases hcond : x.state = .ready ∧ x.queued = false
    · rw [if_pos hcond, if_pos (hiff.mpr hcond)]
      simp only [control, setRoutine]
      rw [flags_modify (g := fun f => { f with queued := true }) fun _ => rfl]
    · rw [if_neg hcond, if_neg fun h => hcond (hiff.mp h)]
  · rename_i hx
    rw [hx, if_neg (by simp)]

/-- `Resume` enters a routine that may run, is not running and is in no queue. -/
theorem resume_control (h : s.resume r sp = .ok s') :
    s'.control = s.control.enter r ∧ s'.current = some r ∧ s.current ≠ some r ∧
      ∃ f, s.control.flags[r]? = some f ∧ f.queued = false ∧
        (f.state = .init ∨ f.state = .ready ∨ f.state = .waitEvent) := by
  obtain ⟨x, prepared, restore, hx, hcur, hstate, hprep, hs'⟩ := resume_ok h
  have hcontrol : prepared.control = s.control :=
    (control_prepareSharedStack hprep).1.trans (control_initializeContext.trans control_leave.1)
  have hqueued : x.queued = false := by
    unfold resume at h
    rw [hx] at h
    dsimp only at h
    rw [if_neg hcur] at h
    split at h
    · cases h
    · rename_i hq
      simpa using hq
  refine ⟨?_, ?_, hcur, x.flags, by rw [control_flags, hx]; rfl, hqueued, hstate⟩
  · rw [hs', control_contextSwitch.1, Control.enter, ← hcontrol, ← control_setState]
    rfl
  · rw [hs', control_contextSwitch.2]

theorem control_finishRoutine (options : SchedulerOptions) (hr : ∃ x, s.routines[r]? = some x) :
    (s.finishRoutine options r).control = s.control.release (poolLimit options) r ∧
      (s.finishRoutine options r).current = s.current := by
  obtain ⟨x, hx⟩ := hr
  have hsame : ∀ t : Scheduler, (t.setRoutine r fun x =>
      { x with stackSnapshot := [], stackSnapshotBegin := 0 }).control = t.control :=
    fun t => control_setRoutine fun _ => rfl
  unfold finishRoutine Control.release
  rw [hx]
  dsimp only
  have hpool : ((s.setStack x.stack fun k => if k.occupant = some r then { k with occupant := none }
      else k).setRoutine r fun x => { x with stackSnapshot := [], stackSnapshotBegin := 0 }).pool =
      s.control.pool := rfl
  split
  · rename_i hroom
    rw [if_pos (hpool ▸ hroom)]
    refine ⟨?_, rfl⟩
    rw [← (hsame _ : _ = s.control)]
    rfl
  · rename_i hfull
    rw [if_neg (hpool ▸ hfull)]
    exact ⟨hsame _, rfl⟩

/-- Control leaves the routine that runs, and its caller's `Resume` goes on. -/
theorem yieldCurrent_control {options : SchedulerOptions} {next : CoroutineState}
    (hinv : Inv options s) (h : s.yieldCurrent options next sp = .ok s') (hnext : next ≠ .ready) :
    ∃ r callers, s.current = some r ∧ s.callStack = r :: callers ∧ s'.current = callers.head? ∧
      s'.control =
        if next = .finished then (s.control.exit r next).release (poolLimit options) r
        else s.control.exit r next := by
  obtain ⟨r, callers, prepared, restore, hcur, hcalls, m, hm, hprep, hs'⟩ := yieldCurrent_ok h
  have hcontrol : m.control = s.control.exit r next := by
    have hnoted : (if next = .finished then s.setRoutine r fun x => { x with gaveUp := none }
        else s.leave sp).control = s.control := by
      split
      · exact control_setRoutine fun _ => rfl
      · exact control_leave.1
    have hset := control_setState (s := if next = .finished then
      s.setRoutine r fun x => { x with gaveUp := none } else s.leave sp) (r := r) next
    rw [hnoted] at hset
    have htail : s.control.callStack.tail = callers := by
      change s.callStack.tail = callers
      rw [hcalls]
      rfl
    rw [hm, Control.exit, htail, ← hset]
    rfl
  have hprepared : prepared.control = m.control ∧ prepared.current = m.current := by
    split at hprep
    · exact control_prepareSharedStack hprep
    · cases hprep
      exact ⟨rfl, rfl⟩
  have hmcur : m.current = callers.head? := by rw [hm]
  generalize ht : prepared.contextSwitch (some r) sp m.current restore = t at hs'
  have htcontrol : t.control = s.control.exit r next := by
    rw [← ht, control_contextSwitch.1, hprepared.1, hcontrol]
  have htcur : t.current = callers.head? := by
    rw [← ht, control_contextSwitch.2, hprepared.2, hmcur]
  refine ⟨r, callers, hcur, hcalls, ?_⟩
  rw [if_neg hnext] at hs'
  split
  · rename_i hfin
    rw [if_pos hfin] at hs'
    obtain ⟨x, hx⟩ : ∃ x, t.routines[r]? = some x := by
      obtain ⟨y, hy, hrun, -⟩ := hinv.running r (mem_callStack_of_current hinv hcur)
      have hstate : s.control.state r = some .running := by
        rw [control_state, hy, ← hrun]
        rfl
      have hnew : t.control.state r = some next := by
        rw [htcontrol]
        exact (Control.state_setState hstate).trans (if_pos rfl)
      rw [control_state] at hnew
      obtain ⟨x, hx, -⟩ := map_eq_some_iff.mp hnew
      exact ⟨x, hx⟩
    obtain ⟨hrelease, hsame⟩ := control_finishRoutine options ⟨x, hx⟩
    rw [hs', hrelease, hsame, htcontrol, htcur]
    exact ⟨rfl, rfl⟩
  · rename_i hfin
    rw [if_neg hfin] at hs'
    rw [hs', htcontrol, htcur]
    exact ⟨rfl, rfl⟩

/-- `Acquire` takes one routine that nobody refers to out of the pool. -/
theorem acquire_spec {stackSize : Nat} {unreferenced pool : List Nat}
    (h : s.acquire stackSize unreferenced = some (r, pool)) :
    r ∈ unreferenced ∧ (pool ++ [r]).Perm s.pool := by
  unfold acquire at h
  dsimp only at h
  split at h
  · cases h
  rename_i n hn
  split at h
  · rename_i r' last hr' hlast
    cases h
    refine ⟨?_, perm_set_dropLast hr' hlast⟩
    -- the position that was found, counted from the end
    obtain ⟨hlt, hsuits, -⟩ := findIdx?_eq_some_iff_getElem.mp hn
    rw [length_reverse] at hlt
    rw [getElem_reverse] at hsuits
    rw [getElem?_eq_getElem (by omega), some.injEq] at hr'
    rw [hr', Bool.and_eq_true, decide_eq_true_eq] at hsuits
    exact hsuits.1
  · cases h

/-- `Create` gives a routine that is new, or one that had finished and was in the pool. -/
theorem create_control {options : SchedulerOptions} {stackSize : Nat} {hs : 0 < stackSize}
    {unreferenced : List Nat} (h : s.create options stackSize hs unreferenced = some (s', r)) :
    s'.current = s.current ∧
    ((r = s.control.flags.length ∧ s'.control = s.control.createRaw) ∨
      ∃ pool, s.control.state r = some .finished ∧ r ∈ unreferenced ∧
        (pool ++ [r]).Perm s.control.pool ∧ s'.control = s.control.recycle r pool) := by
  unfold create at h
  split at h
  · rename_i r' pool hacquire
    obtain ⟨t, ht, heq⟩ := map_eq_some_iff.mp h
    obtain ⟨rfl, rfl⟩ := Prod.mk.inj heq
    obtain ⟨hun, hperm⟩ := acquire_spec hacquire
    unfold reset at ht
    split at ht
    · rename_i x hx
      split at ht
      · rename_i hfin
        cases ht
        refine ⟨rfl, .inr ⟨pool, ?_, hun, hperm, ?_⟩⟩
        · rw [control_state, show s.routines[r']? = some x from hx, map_some, hfin]
        · simp only [control, Control.recycle, setRoutine]
          rw [flags_modify (s := { s with pool := pool }) (g := fun _ => ⟨.init, false⟩)
            fun _ => rfl]
      · cases ht
    · cases ht
  · cases h
    unfold createRaw
    split <;> simp [control, Control.createRaw, flags]

end Scheduler

/-! ## No switch throws -/

/-- A routine that has given up control at no time has no snapshot. One that is about to finish
    may be left out (`but`): it has a snapshot for a little longer. -/
def Fresh (but : Option Nat) (routines : List Routine) : Prop :=
  ∀ (r : Nat) (x : Routine), routines[r]? = some x → but ≠ some r → x.gaveUp = none →
    x.stackSnapshot = []

namespace Fresh

variable {but : Option Nat} {routines : List Routine} {r : Nat} {f : Routine → Routine}

theorem modify (h : Fresh but routines) (hf : ∀ x, (x.gaveUp = none → x.stackSnapshot = []) →
      (f x).gaveUp = none → (f x).stackSnapshot = []) : Fresh but (routines.modify r f) := by
  intro q y hy hq
  rcases getElem?_modify_cases hy with ⟨x, rfl, hx, rfl⟩ | ⟨-, hx⟩
  · exact hf x (h r x hx hq)
  · exact h q y hx hq

theorem modifyBut (h : Fresh none routines) : Fresh (some r) (routines.modify r f) := by
  intro q y hy hq
  rw [getElem?_modify_of_ne fun heq => hq (congrArg some heq)] at hy
  exact h q y hy (by simp)

theorem clear (h : Fresh (some r) routines) (hf : ∀ x, (f x).stackSnapshot = []) :
    Fresh none (routines.modify r f) := by
  intro q y hy _
  rcases getElem?_modify_cases hy with ⟨x, rfl, -, rfl⟩ | ⟨hne, hx⟩
  · exact fun _ => hf x
  · exact h q y hx fun heq => hne (some.inj heq)

theorem append {x : Routine} (h : Fresh but routines) (hx : x.stackSnapshot = []) :
    Fresh but (routines ++ [x]) := by
  intro q y hy
  rcases getElem?_snoc hy with hy | ⟨-, rfl⟩
  · exact h q y hy
  · exact fun _ _ => hx

end Fresh

namespace Scheduler

variable {s s' : Scheduler} {r sp : Nat} {left but : Option Nat}

/-- The occupant of a slot can be saved: the stack pointer it gave up control at is on the slot. -/
theorem saveSharedStack_total (h : Kept s.routines s.stackTable (fun _ => False) left sp)
    {j o : Nat} {k : Stack} (hk : s.stackTable[j]? = some k) (ho : k.occupant = some o) :
    ∃ t, s.saveSharedStack o (if left = some o then some sp else none) = .ok t := by
  obtain ⟨x, hx, rfl, hp⟩ := h.occupant j o k hk ho
  obtain ⟨⟨a, bytes⟩, hg⟩ := isSome_iff_exists.mp (hp.resolve_left id).gaveUp
  obtain ⟨hptr, hstored⟩ := h.parked o x a bytes hx id hg
  have hrsp : (if left = some o then some sp else none).getD (x.context.getD 0) = a := by
    unfold pointerOf at hptr
    split at hptr
    · next hl => rw [if_pos hl]; exact some.inj hptr
    · next hl => rw [if_neg hl, hptr]; rfl
  have hbottom := (hstored k hk).bottom
  have htop := (hstored k hk).top
  simp only [saveSharedStack, hx, hk]
  split
  · exact ⟨s, rfl⟩
  · rw [hrsp, if_neg (by omega)]
    exact ⟨_, rfl⟩

/-- `PrepareSharedStack` does not throw. -/
theorem prepareSharedStack_total {x : Routine}
    (h : Kept s.routines s.stackTable (fun _ => False) left sp) (hfresh : Fresh none s.routines)
    (hx : s.routines[r]? = some x) :
    ∃ t restore, s.prepareSharedStack r left sp = .ok (t, restore) := by
  obtain ⟨k, hk⟩ := h.stack hx
  simp only [prepareSharedStack, hx, hk]
  by_cases hstay : k.isShared = false ∨ k.occupant = some r
  · rw [if_pos hstay]
    exact ⟨s, none, rfl⟩
  rw [if_neg hstay]
  obtain ⟨hshared, hocc⟩ : k.isShared = true ∧ k.occupant ≠ some r := by
    constructor
    · by_contra hns; exact hstay (.inl (by simpa using hns))
    · exact fun ho => hstay (.inr ho)
  -- A snapshot was taken at a stack pointer above the guard page.
  have hbegin : x.stackSnapshot ≠ [] → x.stackSnapshotBegin ≠ 0 := by
    intro hsome
    have hg : x.gaveUp ≠ none := fun hnone => hsome (hfresh r x hx (by simp) hnone)
    obtain ⟨⟨a, bytes⟩, hg⟩ := ne_none_iff_exists'.mp hg
    have hstored := (h.parked r x a bytes hx id hg).2 k hk
    have hbegin := (hstored.snapshot hshared hocc).2
    have := k.bottom_pos
    have := hstored.bottom
    omega
  have hinstall : ∀ t : Scheduler, ∃ t' restore, (if x.stackSnapshot = [] then
        .ok (t.setStack x.stack fun k => { k with occupant := some r }, none)
      else if x.stackSnapshotBegin = 0 then
        .error "shared stack snapshot has no restore address"
      else
        .ok (t.setStack x.stack fun k => { k with occupant := some r },
          some (x.stackSnapshotBegin, x.stackSnapshot)) :
        Except String (Scheduler × Option (Nat × Bytes))) = .ok (t', restore) := by
    intro t
    by_cases hempty : x.stackSnapshot = []
    · rw [if_pos hempty]
      exact ⟨_, _, rfl⟩
    · rw [if_neg hempty, if_neg (hbegin hempty)]
      exact ⟨_, _, rfl⟩
  cases ho : k.occupant with
  | none => exact hinstall s
  | some o =>
    obtain ⟨t, ht⟩ := saveSharedStack_total h hk ho
    dsimp only
    rw [ht]
    exact hinstall t

/-! ## Who has a snapshot -/

/-- Only a routine that has given up control is ever saved. -/
theorem fresh_saveSharedStack {o : Nat} {pointer : Option Nat} (h : Fresh but s.routines)
    (ho : ∀ x, s.routines[o]? = some x → x.gaveUp.isSome ∨ x.state = .finished)
    (hs : s.saveSharedStack o pointer = .ok s') : Fresh but s'.routines := by
  unfold saveSharedStack at hs
  split at hs
  · cases hs; exact h
  · rename_i x hx
    split at hs
    · cases hs; exact h
    · split at hs
      · cases hs; exact h
      · rename_i hskip
        dsimp only at hs
        split at hs
        · cases hs
        · cases hs
          have hg := (ho x hx).resolve_right fun hfin => hskip (.inr (.inr hfin))
          intro q y hy
          rcases getElem?_modify_cases hy with ⟨x', rfl, hx', rfl⟩ | ⟨-, hx'⟩
          · cases hx.symm.trans hx'
            intro _ hnone
            rw [show x.gaveUp = none from hnone] at hg
            cases hg
          · exact h q y hx'

variable {restore : Option (Nat × Bytes)}

theorem fresh_prepareSharedStack (h : Fresh but s.routines)
    (hocc : ∀ (j : Nat) (k : Stack) (o : Nat) (x : Routine), s.stackTable[j]? = some k →
      k.occupant = some o → s.routines[o]? = some x → x.gaveUp.isSome ∨ x.state = .finished)
    (hp : s.prepareSharedStack r left sp = .ok (s', restore)) : Fresh but s'.routines := by
  unfold prepareSharedStack at hp
  split at hp
  · cases hp; exact h
  · split at hp
    · cases hp; exact h
    · rename_i k hk
      split at hp
      · cases hp; exact h
      · dsimp only at hp
        split at hp
        · cases hp
        · rename_i t hsaved
          have ht : Fresh but t.routines := by
            split at hsaved
            · rename_i o ho
              exact fresh_saveSharedStack h (fun x hx => hocc _ k o x hk ho hx) hsaved
            · cases hsaved; exact h
          split at hp
          · cases hp; exact ht
          · split at hp
            · cases hp
            · cases hp; exact ht

theorem fresh_leave (h : Fresh but s.routines) : Fresh but (s.leave sp).routines := by
  unfold leave
  split
  · unfold noteGaveUp
    split
    · split
      · exact h.modify fun _ _ hnone => by cases hnone
      · exact h
    · exact h
  · exact h

theorem fresh_initializeContext (h : Fresh but s.routines) :
    Fresh but (s.initializeContext r).routines := by
  unfold initializeContext
  split
  · split
    · exact h.modify fun _ hx => hx
    · exact h
  · exact h

theorem fresh_contextSwitch {entered : Option Nat} (h : Fresh but s.routines) :
    Fresh but (s.contextSwitch left sp entered restore).routines := by
  have hstore : ∀ c, Fresh but (s.setRoutine c fun x => { x with context := some sp }).routines :=
    fun c => h.modify fun _ hx => hx
  unfold contextSwitch
  cases left with
  | none =>
    dsimp only
    split
    · split <;> exact h
    · exact h
  | some c =>
    dsimp only
    split
    · split <;> exact hstore c
    · exact hstore c

theorem fresh_enqueueReady (h : Fresh but s.routines) : Fresh but (s.enqueueReady r).routines := by
  unfold enqueueReady
  split
  · split
    · exact h.modify fun _ hx => hx
    · exact h
  · exact h

theorem fresh_create {options : SchedulerOptions} {stackSize : Nat} {hs : 0 < stackSize}
    {unreferenced : List Nat} (h : Fresh but s.routines)
    (hc : s.create options stackSize hs unreferenced = some (s', r)) : Fresh but s'.routines := by
  unfold create at hc
  split at hc
  · obtain ⟨t, ht, heq⟩ := map_eq_some_iff.mp hc
    cases heq
    unfold reset at ht
    split at ht
    · split at ht
      · cases ht
        exact Fresh.modify h fun _ _ _ => rfl
      · cases ht
    · cases ht
  · cases hc
    unfold createRaw
    split
    · exact Fresh.append h rfl
    · exact Fresh.append h rfl

/-- What holds of the scheduler between its steps. -/
structure Good (options : SchedulerOptions) (s : Scheduler) : Prop where
  inv : Inv options s
  fresh : Fresh none s.routines
  control : s.control.Inv

variable {options : SchedulerOptions}

/-- **A `Resume` whose checks pass does not throw.** -/
theorem resume_total (h : Good options s) (hsp : s.onStack sp = true) {f : Flags}
    (hf : s.control.flags[r]? = some f) (hcur : s.current ≠ some r) (hq : f.queued = false)
    (hstate : f.state = .init ∨ f.state = .ready ∨ f.state = .waitEvent) :
    ∃ t, s.resume r sp = .ok t := by
  rw [control_flags] at hf
  obtain ⟨x, hx, rfl⟩ := map_eq_some_iff.mp hf
  obtain ⟨hleave, -, -, hother, -⟩ := leave_kept h.inv hsp
  obtain ⟨hinit, -, heq, -, y, hy, -⟩ :=
    initializeContext_kept hleave hcur ((hother r hcur).trans hx)
  have hstacks : ((s.leave sp).initializeContext r).stackTable = (s.leave sp).stackTable := by rw [heq]
  rw [← hstacks] at hinit
  obtain ⟨prepared, restore, hprep⟩ := prepareSharedStack_total hinit
    (fresh_initializeContext (fresh_leave h.fresh)) hy
  have hnot : ¬ (x.state ≠ .init ∧ x.state ≠ .ready ∧ x.state ≠ .waitEvent) := by
    rintro ⟨h₁, h₂, h₃⟩
    rcases hstate with h | h | h
    · exact h₁ h
    · exact h₂ h
    · exact h₃ h
  unfold resume
  rw [hx]
  dsimp only
  rw [if_neg hcur, if_neg (by simpa [flags] using hq), if_neg hnot, hprep]
  exact ⟨_, rfl⟩

section
variable (h : Inv options s)
include h

theorem fresh_resume (hfresh : Fresh but s.routines) (hsp : s.onStack sp = true)
    (hs : s.resume r sp = .ok s') : Fresh but s'.routines := by
  obtain ⟨x, prepared, restore, hx, hcur, -, hprep, hs'⟩ := resume_ok hs
  obtain ⟨hleave, -, -, hother, -⟩ := leave_kept h hsp
  obtain ⟨hinit, -, heq, -⟩ := initializeContext_kept hleave hcur ((hother r hcur).trans hx)
  have hstacks : ((s.leave sp).initializeContext r).stackTable = (s.leave sp).stackTable := by rw [heq]
  have hft : Fresh but prepared.routines := by
    refine fresh_prepareSharedStack (fresh_initializeContext (fresh_leave hfresh)) ?_ hprep
    intro j k o y hj ho hy
    rw [hstacks] at hj
    obtain ⟨z, hz, -, hp⟩ := hinit.occupant j o k hj ho
    cases hy.symm.trans hz
    exact .inl (hp.resolve_left id).gaveUp
  rw [hs']
  exact fresh_contextSwitch (hft.modify fun _ hx => hx)

/-- Who occupies a slot, other than the routine that runs, has given up control. -/
theorem gaveUp_of_occupant {j o : Nat} {k : Stack} {x : Routine} (hj : s.stackTable[j]? = some k)
    (ho : k.occupant = some o) (hx : s.routines[o]? = some x) (hcur : s.current ≠ some o) :
    x.gaveUp.isSome := by
  obtain ⟨y, hy, -, hp⟩ := h.kept.occupant j o k hj ho
  cases hx.symm.trans hy
  exact (hp.resolve_left hcur).gaveUp

/-- The routine that runs is taken off the call stack as `m`, and the others are as they were. -/
theorem fresh_yieldCurrent {m prepared : Scheduler} (hcur : s.current = some r)
    (hm : Fresh but m.routines)
    (hr : ∀ x, m.routines[r]? = some x → x.gaveUp.isSome ∨ x.state = .finished)
    (hother : ∀ q, r ≠ q → m.routines[q]? = s.routines[q]?) (hstacks : m.stackTable = s.stackTable)
    (hp : (match m.current with
      | some c => m.prepareSharedStack c (some r) sp
      | none => .ok (m, none)) = .ok (prepared, restore)) :
    Fresh but (prepared.contextSwitch (some r) sp m.current restore).routines := by
  apply fresh_contextSwitch
  split at hp
  · refine fresh_prepareSharedStack hm ?_ hp
    intro j k o x hj ho hx
    by_cases hro : r = o
    · exact hr x (hro ▸ hx)
    · rw [hother o hro] at hx
      rw [hstacks] at hj
      exact .inl (gaveUp_of_occupant h hj ho hx (by rw [hcur]; simpa using hro))
  · cases hp
    exact hm

/-- Who suspends has given up control, and may be saved. -/
theorem fresh_suspend {next : CoroutineState} (hfresh : Fresh none s.routines)
    (hsp : s.onStack sp = true) (hnext : next ≠ .ready) (hfin : next ≠ .finished)
    (hs : s.yieldCurrent options next sp = .ok s') : Fresh none s'.routines := by
  obtain ⟨r, callers, prepared, restore, hcur, -, m, hm, hprep, hs'⟩ := yieldCurrent_ok hs
  obtain ⟨-, -, heq, hother, hgave⟩ := leave_kept h hsp
  rw [if_neg hfin] at hm
  rw [if_neg hfin, if_neg hnext] at hs'
  have hroutines : m.routines =
      (s.leave sp).routines.modify r fun x => { x with state := next } := by
    rw [hm]
    rfl
  have hstacks : m.stackTable = s.stackTable := by
    rw [hm, ← show (s.leave sp).stackTable = s.stackTable by rw [heq]]
    rfl
  rw [hs']
  refine fresh_yieldCurrent h hcur ?_ ?_ ?_ hstacks hprep
  · rw [hroutines]
    exact (fresh_leave hfresh).modify fun _ hx => hx
  · intro x hx
    obtain ⟨y, hy, hyg⟩ := hgave r hcur
    rw [hroutines, getElem?_modify_self hy] at hx
    cases hx
    exact .inl hyg
  · intro q hq
    rw [hroutines, getElem?_modify_of_ne hq]
    exact hother q (by rw [hcur]; simpa using hq)

/-- Who finishes may be saved as well, but `FinishRoutine` drops the snapshot. -/
theorem fresh_finish (hfresh : Fresh none s.routines)
    (hs : s.yieldCurrent options .finished sp = .ok s') : Fresh none s'.routines := by
  obtain ⟨r, callers, prepared, restore, hcur, -, m, hm, hprep, hs'⟩ := yieldCurrent_ok hs
  rw [if_pos rfl] at hm hs'
  have hroutines : m.routines = (s.routines.modify r fun x => { x with gaveUp := none }).modify r
      fun x => { x with state := .finished } := by
    rw [hm]
    rfl
  obtain ⟨x, hx, -⟩ := h.running r (mem_callStack_of_current h hcur)
  have hleft : Fresh (some r) (prepared.contextSwitch (some r) sp m.current restore).routines := by
    refine fresh_yieldCurrent h hcur ?_ ?_ ?_ (by rw [hm]; rfl) hprep
    · rw [hroutines]
      exact hfresh.modifyBut.modify fun _ hx => hx
    · intro y hy
      rw [hroutines, getElem?_modify_self (getElem?_modify_self hx)] at hy
      cases hy
      exact .inr rfl
    · intro q hq
      rw [hroutines, getElem?_modify_of_ne hq, getElem?_modify_of_ne hq]
  rw [hs']
  unfold finishRoutine
  split
  · rename_i hnone
    intro q y hy _
    refine hleft q y hy fun heq => ?_
    rw [← some.inj heq, hnone] at hy
    cases hy
  · dsimp only
    split
    · exact hleft.clear fun _ => rfl
    · exact hleft.clear fun _ => rfl

end

/-! ## The control along a run -/

theorem create_state (h : s.control.Inv) {stackSize : Nat} {hs : 0 < stackSize}
    {unreferenced : List Nat} (hc : s.create options stackSize hs unreferenced = some (s', r)) :
    s'.control.Inv ∧ (s.control.state r = none ∨ s.control.state r = some .finished) ∧
      ∀ q, s'.control.state q = if q = r then some .init else s.control.state q := by
  rcases (create_control hc).2 with ⟨rfl, heq⟩ | ⟨pool, hfin, -, hperm, heq⟩
  · rw [heq]
    obtain ⟨hinv, hnone, hstate⟩ := h.createRaw
    exact ⟨hinv, .inl hnone, hstate⟩
  · rw [heq]
    have hnodup := hperm.nodup_iff.mpr h.poolNodup
    obtain ⟨hpool, -, hdisj⟩ := nodup_append.mp hnodup
    refine ⟨h.recycle hfin (fun q hq => hperm.mem_iff.mp (mem_append_left _ hq))
      (fun hr => hdisj r hr r (by simp) rfl) hpool, .inr hfin, fun q => ?_⟩
    obtain ⟨f, hf, -⟩ := Control.state_eq_some.mp hfin
    split
    · rename_i hqr
      rw [hqr]
      exact Control.state_eq_some.mpr ⟨_, getElem?_modify_self hf, rfl⟩
    · rename_i hqr
      simp only [Control.state, Control.recycle, getElem?_modify_of_ne (Ne.symm hqr)]

theorem wake_state (h : s.control.Inv) {old : CoroutineState} (hr : s.control.state r = some old)
    (hrun : old ≠ .running) (hready : old ≠ .ready) (hfin : old ≠ .finished) :
    ((s.setRoutine r fun x => { x with state := .ready }).enqueueReady r).control.Inv ∧
      ∀ q, ((s.setRoutine r fun x => { x with state := .ready }).enqueueReady r).control.state q =
        if q = r then some .ready else s.control.state q := by
  rw [control_enqueueReady, control_setState]
  refine ⟨(h.wake hr hrun hready hfin).enqueueReady, fun q => ?_⟩
  rw [Control.state_enqueueReady, Control.state_setState hr]

theorem good_wake (h : Good options s) {old : CoroutineState} (hr : s.control.state r = some old)
    (hrun : old ≠ .running) (hready : old ≠ .ready) (hfin : old ≠ .finished) :
    Good options ((s.setRoutine r fun x => { x with state := .ready }).enqueueReady r) := by
  obtain ⟨x, hx, rfl⟩ := map_eq_some_iff.mp (control_state.symm.trans hr)
  exact ⟨inv_enqueueReady (inv_setReady h.inv hx hrun hfin) r,
    fresh_enqueueReady (h.fresh.modify fun _ hx => hx),
    (wake_state h.control hr hrun hready hfin).1⟩

theorem resume_state (h : s.control.Inv) (hs : s.resume r sp = .ok s') :
    s'.control.Inv ∧ ∀ q, s'.control.state q = if q = r then some .running else s.control.state
      q := by
  obtain ⟨heq, -, -, f, hf, hq, hstate⟩ := resume_control hs
  have hr : s.control.state r = some f.state := Control.state_eq_some.mpr ⟨f, hf, rfl⟩
  have hnot : r ∉ s.control.readyQueue := fun hmem => by
    rw [(h.queued r f hf).mpr hmem] at hq
    cases hq
  rw [heq]
  refine ⟨h.enter hr hnot ?_ ?_, fun q => Control.state_setState hr⟩
  · rcases hstate with h | h | h <;> rw [h] <;> decide
  · rcases hstate with h | h | h <;> rw [h] <;> decide

theorem control_popReady {rest : List Nat} :
    ({ s.setRoutine r fun x => { x with queued := false } with readyQueue := rest } :
      Scheduler).control = s.control.popReady r rest := by
  simp only [control, Control.popReady, setRoutine]
  rw [flags_modify (g := fun f => { f with queued := false }) fun _ => rfl]

theorem yieldCurrent_state (hinv : Inv options s) (h : s.control.Inv) {next : CoroutineState}
    (hs : s.yieldCurrent options next sp = .ok s') (hready : next ≠ .ready)
    (hrun : next ≠ .running) :
    s'.control.Inv ∧ ∃ r, s.current = some r ∧ s.control.state r = some .running ∧
      ∀ q, s'.control.state q = if q = r then some next else s.control.state q := by
  obtain ⟨r, callers, hcur, hcalls, -, heq⟩ := yieldCurrent_control hinv hs hready
  have hr : s.control.state r = some .running :=
    (h.running r).mp (show r ∈ s.callStack by simp [hcalls])
  have hexit : (s.control.exit r next).Inv := h.exit hcalls hrun
  have hstate : ∀ q, (s.control.exit r next).state q =
      if q = r then some next else s.control.state q := fun q => Control.state_setState hr
  rw [heq]
  split
  · rename_i hfin
    have hnot : r ∉ (s.control.exit r next).pool := h.not_pooled hr (by decide)
    refine ⟨hexit.release ?_ hnot, r, hcur, hr, fun q => ?_⟩
    · rw [hstate, if_pos rfl, hfin]
    · unfold Control.release
      split
      · exact hstate q
      · exact hstate q
  · exact ⟨hexit, r, hcur, hr, hstate⟩

theorem good_popReady (h : Good options s) {rest : List Nat} (hqueue : s.readyQueue = r :: rest) :
    Good options { s.setRoutine r fun x => { x with queued := false } with readyQueue :=
      rest } := by
  have hready : s.control.state r = some .ready :=
    h.control.ready r (show r ∈ s.readyQueue by simp [hqueue])
  rw [control_state] at hready
  obtain ⟨x, hx, -⟩ := map_eq_some_iff.mp hready
  refine ⟨inv_popReady h.inv hx rest, h.fresh.modify fun _ hx => hx, ?_⟩
  rw [control_popReady]
  exact h.control.popReady hqueue

/-- **`RunReady` does not throw.** -/
theorem runReady_total (h : Good options s) {rest : List Nat} (hqueue : s.readyQueue = r :: rest)
    (hsp : s.onStack sp = true) :
    ∃ t, ({ s.setRoutine r fun x => { x with queued := false } with readyQueue := rest } :
      Scheduler).resume r sp = .ok t := by
  have hready : s.control.state r = some .ready :=
    h.control.ready r (show r ∈ s.readyQueue by simp [hqueue])
  obtain ⟨f, hf, hstate⟩ := Control.state_eq_some.mp hready
  refine resume_total (f := { f with queued := false }) (good_popReady h hqueue)
    (onStack_popReady h.inv hsp rest) ?_ ?_ rfl (.inr (.inl hstate))
  · rw [control_popReady]
    exact getElem?_modify_self hf
  · -- a routine that is ready does not run
    intro hcur
    have hrun := (h.control.running r).mp (mem_callStack_of_current h.inv hcur)
    rw [hready] at hrun
    cases hrun

theorem good_step {l : Label} (h : Good options s) (hs : s.step options l = some s') :
    Good options s' := by
  suffices hflags : Fresh none s'.routines ∧ s'.control.Inv from
    ⟨(step_spec h.inv hs).1, hflags.1, hflags.2⟩
  cases l with
  | create stackSize unreferenced =>
    simp only [step] at hs
    split at hs
    · obtain ⟨⟨t, r⟩, hc, rfl⟩ := map_eq_some_iff.mp hs
      exact ⟨fresh_create h.fresh hc, (create_state h.control hc).1⟩
    · cases hs
  | spawn stackSize unreferenced =>
    simp only [step] at hs
    split at hs
    · obtain ⟨⟨t, r⟩, hc, rfl⟩ := map_eq_some_iff.mp hs
      obtain ⟨hinv, -, hstate⟩ := create_state h.control hc
      have hinit : t.control.state r = some .init := by rw [hstate, if_pos rfl]
      exact ⟨fresh_enqueueReady ((fresh_create h.fresh hc).modify fun _ hx => hx),
        (wake_state hinv hinit (by decide) (by decide) (by decide)).1⟩
    · cases hs
  | resume r sp =>
    simp only [step] at hs
    split at hs
    · rename_i hsp
      have hok := eq_ok_of_toOption hs
      exact ⟨fresh_resume h.inv h.fresh hsp hok, (resume_state h.control hok).1⟩
    · cases hs
  | runReady sp =>
    simp only [step] at hs
    split at hs
    · cases hs
    · rename_i r rest hqueue
      split at hs
      · rename_i hsp
        have hok := eq_ok_of_toOption hs
        have hpop := good_popReady h hqueue
        exact ⟨fresh_resume hpop.inv hpop.fresh (onStack_popReady h.inv hsp rest) hok,
          (resume_state hpop.control hok).1⟩
      · cases hs
  | makeReady r =>
    simp only [step] at hs
    split at hs
    · rename_i x hx
      split at hs
      · rename_i hw
        cases hs
        have hstate : s.control.state r = some x.state := by
          rw [control_state, hx]
          rfl
        refine ⟨fresh_enqueueReady (h.fresh.modify fun _ hx => hx),
          (wake_state h.control hstate ?_ ?_ ?_).1⟩
        all_goals
          intro heq
          rw [heq] at hw
          cases hw
      · cases hs
    · cases hs
  | prepareTimerResume r =>
    simp only [step] at hs
    split at hs
    · rename_i x hx
      split at hs
      · rename_i hw
        cases hs
        refine ⟨h.fresh.modify fun _ hx => hx, ?_⟩
        rw [control_setState]
        have hstate : s.control.state r = some .waitTimer := by
          rw [control_state, hx, map_some, hw]
        exact h.control.wake hstate (by decide) (by decide) (by decide)
      · cases hs
    · cases hs
  | suspend waiting sp =>
    simp only [step] at hs
    split at hs
    · rename_i hw
      have hok := eq_ok_of_toOption hs
      have hne : waiting ≠ .ready ∧ waiting ≠ .finished ∧ waiting ≠ .running := by
        refine ⟨?_, ?_, ?_⟩ <;>
          · rintro rfl
            cases hw.1
      exact ⟨fresh_suspend h.inv h.fresh hw.2 hne.1 hne.2.1 hok,
        (yieldCurrent_state h.inv h.control hok hne.1 hne.2.2).1⟩
    · cases hs
  | finish sp =>
    simp only [step] at hs
    split at hs
    · have hok := eq_ok_of_toOption hs
      exact ⟨fresh_finish h.inv h.fresh hok,
        (yieldCurrent_state h.inv h.control hok (by decide) (by decide)).1⟩
    · cases hs
  | poke a byte =>
    simp only [step] at hs
    split at hs
    · cases hs
    · split at hs
      · cases hs
      · cases hs
        exact ⟨h.fresh, h.control⟩

theorem good_prewarm (h : Good options s) : Good options (s.prewarm options) := by
  have hraw : (s.createRaw options options.poolStackSize options.poolStackSize_pos).control =
      s.control.createRaw := by
    unfold createRaw
    split <;> simp [control, Control.createRaw, flags]
  obtain ⟨hinv, hnone, hstate⟩ := h.control.createRaw
  have hlen : s.control.flags.length = s.routines.length := length_map _
  rw [hlen] at hnone hstate
  have hinit : s.control.createRaw.state s.routines.length = some .init := by
    rw [hstate, if_pos rfl]
  have hpool : s.routines.length ∉ s.pool := fun hmem => by
    have := h.control.pooled _ hmem
    rw [hnone] at this
    cases this
  refine ⟨inv_prewarm h.inv, ?_, ?_⟩
  · refine Fresh.modify ?_ fun _ hx => hx
    unfold createRaw
    split
    · exact h.fresh.append rfl
    · exact h.fresh.append rfl
  · -- the new routine goes to the pool as if it had finished
    have hset : (s.control.createRaw.setState s.routines.length .finished).Inv :=
      hinv.setState hinit (hinv.not_queued hinit (by decide)) hpool hinv.callNodup
        (iff_of_false (hinv.not_running hinit (by decide)) (by decide)) fun _ _ => Iff.rfl
    have hfin : (s.control.createRaw.setState s.routines.length .finished).state
        s.routines.length = some .finished := by
      rw [Control.state_setState hinit, if_pos rfl]
    have heq : (s.prewarm options).control =
        (s.control.createRaw.setState s.routines.length .finished).release (s.pool.length + 1)
          s.routines.length := by
      refine Eq.trans ?_ (if_pos (Nat.lt_succ_self s.pool.length)).symm
      rw [← hraw, ← control_setState]
      unfold prewarm control createRaw
      split <;> rfl
    rw [heq]
    exact hset.release hfin hpool

theorem good_init (options : SchedulerOptions) : Good options (.init options) :=
  List.foldlRecOn (motive := Good options) _ _
    ⟨inv_empty options, by simp [Fresh], ⟨by simp [control], by simp [control], by simp [control],
      by simp [control, Control.state], by simp [control], by simp [control], by simp [control]⟩⟩
    fun _ ht _ _ => good_prewarm ht

/-- At first there are only pooled routines. -/
theorem state_init (options : SchedulerOptions) {st : CoroutineState}
    (hr : (init options).control.state r = some st) : st = .finished := by
  have hall : ∀ (q : Nat) (x : Routine), (init options).routines[q]? = some x →
      x.state = .finished := by
    refine List.foldlRecOn (motive := fun s : Scheduler => ∀ (q : Nat) (x : Routine),
      s.routines[q]? = some x → x.state = .finished) _ _ (by simp) fun s ih _ _ q x hx => ?_
    obtain ⟨y, hy⟩ : ∃ y, (s.createRaw options options.poolStackSize
        options.poolStackSize_pos).routines = s.routines ++ [y] := by
      unfold createRaw
      split <;> exact ⟨_, rfl⟩
    rcases getElem?_modify_cases hx with ⟨x₀, -, -, rfl⟩ | ⟨hne, hx⟩
    · rfl
    · rw [hy] at hx
      rcases getElem?_snoc hx with hx | ⟨heq, -⟩
      · exact ih q x hx
      · exact absurd heq.symm hne
  rw [control_state] at hr
  obtain ⟨x, hx, rfl⟩ := map_eq_some_iff.mp hr
  exact hall r x hx

/-- All of this holds in every state of every run. -/
theorem good_of_reachable (h : Reachable (step options) (.init options) s) : Good options s :=
  h.invariant (good_init options) fun _ _ _ hp _ hs => good_step hp hs

/-- Routine 0 resumes routine 1 on the one shared stack; that one writes over it and suspends. -/
theorem good_of_nested_resume : ∃ s, Reachable (step oneSlot) (.init oneSlot) s ∧
    s.current = some 0 ∧ s.routines.map state = [.running, .waitEvent] ∧
    Good oneSlot s := by
  refine exists_reaches_of_exec (p := fun s => s.current = some 0 ∧
      s.routines.map state = [.running, .waitEvent])
    [.create 8 [0], .create 8 [], .resume 0 0, .poke 28 7, .resume 1 28, .poke 28 9, .poke 30 9,
      .suspend .waitEvent 24] (by decide +kernel) fun s hreach hs => ?_
  obtain ⟨hcurrent, hstates⟩ := hs
  exact ⟨hcurrent, hstates, good_of_reachable hreach⟩

end Scheduler

end CoroRpc.Runtime
