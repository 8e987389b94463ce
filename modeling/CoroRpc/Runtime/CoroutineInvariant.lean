import CoroRpc.Runtime.WaitTable

/-!
# The runtime keeps its tables

`Coherent` joins the invariant of the scheduler (`Scheduler.Good`) and that of the waits (`Waits`).
Each function of the runtime has one lemma here that says that it is kept; the loops of `Poll` are
inductions over the events, the flush queue and the expired list.

Two more things are carried along, because later results need them of the same functions. `SameLife`:
no routine starts or ends. `Smooth`: as long as `epoll_ctl` succeeds nothing throws, and no routine
is stranded.
-/

namespace CoroRpc.Runtime

open Lib List Option Function TimerWheel

/-- Whether the events end a wait for this direction. -/
def EpollEvents.ends (events : EpollEvents) : WaitDirection → Bool
  | .read => events.epollin || events.epollerr || events.epollhup || events.epollrdhup
  | .write => events.epollout || events.epollerr || events.epollhup

namespace Coroutine

def state (s : Coroutine) (r : Nat) : Option CoroutineState :=
  s.scheduler.control.state r

structure Coherent (options : CoroutineOptions) (out : Option Nat) (loose : List Nat)
    (s : Coroutine) : Prop where
  good : Scheduler.Good options.scheduler s.scheduler
  waits : Waits out loose s.state s.table

/-- The routine has been started, or made ready for it, and has not finished. -/
def Alive (s : Coroutine) (r : Nat) : Prop :=
  (s.state r).any (fun st => st ≠ .init ∧ st ≠ .finished) = true

structure SameLife (s s' : Coroutine) : Prop where
  onFinish : s'.onFinish = s.onFinish
  count : s'.liveRoutineCount = s.liveRoutineCount
  started : s'.started = s.started
  alive : ∀ r, s'.Alive r ↔ s.Alive r

def CtlSucceeds (outcomes : List Bool) : Prop := ∀ b ∈ outcomes, b = true

structure Smooth (s : Coroutine) : Prop where
  ctl : CtlSucceeds s.epollCtl
  stranded : s.stranded = []

theorem SameLife.refl (s : Coroutine) : SameLife s s := ⟨rfl, rfl, rfl, fun _ => Iff.rfl⟩

theorem SameLife.trans {s s' s'' : Coroutine} (h : SameLife s s') (h' : SameLife s' s'') :
    SameLife s s'' :=
  ⟨h'.onFinish.trans h.onFinish, h'.count.trans h.count, h'.started.trans h.started,
    fun r => (h'.alive r).trans (h.alive r)⟩

variable {options : CoroutineOptions} {s s' : Coroutine} {out : Option Nat} {loose : List Nat}

/-! ## One routine changes its state -/

section
variable {t : Scheduler} {r : Nat} {old next : CoroutineState}

theorem alive_iff (ht : ∀ q, t.control.state q = if q = r then some next else s.state q) {q : Nat} :
    ({ s with scheduler := t } : Coroutine).Alive q ↔
      if q = r then next ≠ .init ∧ next ≠ .finished else s.Alive q := by
  have hq : ({ s with scheduler := t } : Coroutine).state q =
      if q = r then some next else s.state q := ht q
  unfold Alive
  rw [hq]
  split
  · simp
  · rfl

theorem sameLife_of_states (ht : ∀ q, t.control.state q = if q = r then some next else s.state q)
    (hr : s.state r = some old) (hold : old ≠ .init ∧ old ≠ .finished)
    (hnext : next ≠ .init ∧ next ≠ .finished) : SameLife s { s with scheduler := t } := by
  refine ⟨rfl, rfl, rfl, fun q => (alive_iff ht).trans ?_⟩
  split
  · rename_i heq
    exact iff_of_true hnext (by simpa [Alive, heq, hr] using hold)
  · rfl

theorem Coherent.reschedule (h : Coherent options out loose s)
    (hgood : Scheduler.Good options.scheduler t)
    (ht : ∀ q, t.control.state q = if q = r then some next else s.state q)
    (hr : ∀ st, s.state r = some st → st ≠ .waitIo ∧ st ≠ .waitTimer)
    (hnext : next ≠ .waitIo ∧ next ≠ .waitTimer) :
    Coherent options out loose { s with scheduler := t } := by
  have hstate : ∀ q st, (st = .waitIo ∨ st = .waitTimer) →
      (t.control.state q = some st ↔ s.state q = some st) := by
    intro q st hst
    rw [ht]
    split
    · rename_i heq
      subst heq
      refine iff_of_false (fun h => ?_) fun h => ?_
      · cases h
        exact hst.elim hnext.1 hnext.2
      · exact hst.elim (hr st h).1 (hr st h).2
    · rfl
  exact ⟨hgood, h.waits.restate (fun q => hstate q _ (.inl rfl)) fun q => hstate q _ (.inr rfl)⟩

end

/-! ## Waking -/

theorem act_eq_some {l : Label} : s.act options l = some s' ↔
    ∃ t, s.scheduler.step options.scheduler l = some t ∧ s' = { s with scheduler := t } := by
  rw [act, map_eq_some_iff]
  exact exists_congr fun t => and_congr_right fun _ => eq_comm

theorem makeReady_eq (options : CoroutineOptions) (s : Coroutine) (r : Nat) :
    ∃ t, s.makeReady options r = { s with scheduler := t } := by
  unfold makeReady
  cases hact : s.act options (.makeReady r) with
  | none => exact ⟨_, rfl⟩
  | some s' =>
    obtain ⟨t, -, rfl⟩ := act_eq_some.mp hact
    exact ⟨t, rfl⟩

theorem makeReady_spec (h : Scheduler.Good options.scheduler s.scheduler) {r : Nat}
    {w : CoroutineState} (hr : s.state r = some w) (hw : w.isWaiting = true) :
    ∃ t, s.makeReady options r = { s with scheduler := t } ∧ Scheduler.Good options.scheduler t ∧
      (∀ q, t.control.state q = if q = r then some .ready else s.state q) ∧
      SameLife s { s with scheduler := t } := by
  obtain ⟨x, hx, rfl⟩ : ∃ x, s.scheduler.routines[r]? = some x ∧ x.state = w := by
    rw [state, Scheduler.control_state] at hr
    exact map_eq_some_iff.mp hr
  have hstep : s.scheduler.step options.scheduler (.makeReady r) =
      some ((s.scheduler.setRoutine r fun x => { x with state := .ready }).enqueueReady r) := by
    simp only [Scheduler.step, hx, hw, if_true]
  have hne : ∀ st, st.isWaiting = false → x.state ≠ st := by
    rintro _ hst rfl
    cases hst.symm.trans hw
  have hstates := (Scheduler.wake_state h.control hr (hne _ rfl) (hne _ rfl) (hne _ rfl)).2
  refine ⟨_, ?_, Scheduler.good_step h hstep, hstates,
    sameLife_of_states hstates hr ⟨hne _ rfl, hne _ rfl⟩ (by decide)⟩
  rw [makeReady, act, hstep]
  rfl

/-! ## The end of a wait -/

variable {fd : Int} {d : WaitDirection}

theorem slotOf_setFd {c : Option FdContext} {fd' : Int} : (s.setFd fd c).table.slotOf fd' d =
      if fd' = fd then c.bind fun c => c.slot d else s.table.slotOf fd' d := by
  simp only [WaitTable.slotOf, table, setFd, update_apply]
  split <;> rfl

variable {c : FdContext}

theorem slotOf_eq (hc : s.fds fd = some c) : s.table.slotOf fd d = c.slot d := by
  simp [WaitTable.slotOf, table, hc]

theorem slotOf_setFd_same {c' : FdContext} {fd' : Int} (hc : s.fds fd = some c)
    (hsame : ∀ d, c'.slot d = c.slot d) :
    (s.setFd fd (some c')).table.slotOf fd' d = s.table.slotOf fd' d := by
  rw [slotOf_setFd]
  split
  · rename_i heq
    rw [heq, slotOf_eq hc]
    exact hsame d
  · rfl

theorem updateInterest_spec (s : Coroutine) (fd : Int) :
    ∃ fds ctl b, s.updateInterest fd = ({ s with fds := fds, epollCtl := ctl }, b) ∧
      (∀ fd' d, ({ s.table with fds := fds } : WaitTable).slotOf fd' d = s.table.slotOf fd' d) ∧
      (CtlSucceeds s.epollCtl → b = true ∧ CtlSucceeds ctl) := by
  have htail : CtlSucceeds s.epollCtl → CtlSucceeds s.epollCtl.tail := fun h b hb =>
    h b (mem_of_mem_tail hb)
  unfold updateInterest
  split
  · exact ⟨s.fds, s.epollCtl, true, rfl, fun _ _ => rfl, fun h => ⟨rfl, h⟩⟩
  · rename_i c hc
    split
    · exact ⟨_, _, true, rfl, fun fd' d => slotOf_setFd_same hc fun d => by cases d <;> rfl,
        fun h => ⟨rfl, htail h⟩⟩
    · rename_i hfail
      refine ⟨s.fds, _, false, rfl, fun _ _ => rfl, fun h => absurd ?_ hfail⟩
      cases hctl : s.epollCtl with
      | nil => rfl
      | cons b rest => exact h b (by simp [hctl])

theorem slotOf_clear {k : Nat} (hc : s.fds fd = some c) (hslot : c.slot d = some k)
    (honly : ∀ fd' d', s.table.slotOf fd' d' = some k → fd' = fd ∧ d' = d) (fd' : Int)
    (d' : WaitDirection) :
    (s.setFd fd (some (c.setSlot none d))).table.slotOf fd' d' =
      if s.table.slotOf fd' d' = some k then none else s.table.slotOf fd' d' := by
  rw [slotOf_setFd]
  split
  · rename_i hfd
    rw [hfd, slotOf_eq hc]
    by_cases hd : d' = d
    · rw [hd, if_pos hslot]
      cases d <;> rfl
    · rw [if_neg fun heq => hd (honly fd d' ((slotOf_eq hc).trans heq)).2]
      cases d <;> cases d' <;> first | rfl | exact absurd rfl hd
  · rename_i hfd
    rw [if_neg fun heq => hfd (honly fd' d' heq).1]

variable {k : Nat} {op : IoWaitOperation} {result : WaitResult} {reading : Option Nat}

/-- `CompleteWait` takes the operation out of its slot, if it is there. -/
theorem detach_slot (op : IoWaitOperation)
    (honly : ∀ fd d, s.table.slotOf fd d = some k → fd = op.fd ∧ d = op.direction) :
    ∃ fds ctl b, s.detach k op = ({ s with fds := fds, epollCtl := ctl }, b) ∧
      (∀ fd d, ({ s.table with fds := fds } : WaitTable).slotOf fd d =
        if s.table.slotOf fd d = some k then none else s.table.slotOf fd d) ∧
      (CtlSucceeds s.epollCtl → b = true ∧ CtlSucceeds ctl) ∧
      (s.table.slotOf op.fd op.direction ≠ some k → b = true) := by
  have hstay : s.table.slotOf op.fd op.direction ≠ some k → ∀ fd d, s.table.slotOf fd d =
      if s.table.slotOf fd d = some k then none else s.table.slotOf fd d := by
    intro hne fd d
    rw [if_neg]
    intro hk
    obtain ⟨rfl, rfl⟩ := honly fd d hk
    exact hne hk
  unfold detach
  cases hc : s.fds op.fd with
  | none =>
    exact ⟨s.fds, s.epollCtl, true, rfl, hstay (by simp [WaitTable.slotOf, table, hc]),
      fun h => ⟨rfl, h⟩, fun _ => rfl⟩
  | some c =>
    dsimp only
    split
    · rename_i hslot
      obtain ⟨fds, ctl, b, hupdate, hsame, hctl⟩ :=
        updateInterest_spec (s.setFd op.fd (some (c.setSlot none op.direction))) op.fd
      refine ⟨fds, ctl, b, hupdate, fun fd d =>
        (hsame fd d).trans (slotOf_clear hc hslot honly fd d), hctl, fun hne => absurd ?_ hne⟩
      simpa [WaitTable.slotOf, table, hc] using hslot
    · rename_i hslot
      refine ⟨s.fds, s.epollCtl, true, rfl, hstay ?_, fun h => ⟨rfl, h⟩, fun _ => rfl⟩
      simpa [WaitTable.slotOf, table, hc] using hslot

/-- The operation is out of the wheel; one without a deadline was not in it. -/
theorem untime_spec (op : IoWaitOperation) (hwheel : s.timerWheel.Inv)
    (hclock : s.timerWheel.Linked (operationNode k) → op.deadlineMs.isSome) :
    ∃ w, s.untime k op = s.setWheel w ∧ w.Inv ∧ TimerWheel.SameRing s.timerWheel w ∧
      w.expired = s.timerWheel.expired.erase (operationNode k) ∧
      w = s.timerWheel.remove (operationNode k) ∧
      TimerWheel.Relinked s.timerWheel w fun u =>
        u ≠ operationNode k ∧ s.timerWheel.Linked u := by
  by_cases hsome : op.deadlineMs.isSome
  · obtain ⟨-, hring, hexpired, -⟩ := remove_spec hwheel.toRepresents (operationNode k)
    exact ⟨_, if_pos hsome, hwheel.remove _, hring, hexpired, rfl,
      relinked_remove hwheel.toRepresents _⟩
  · have hoff : ¬ s.timerWheel.Linked (operationNode k) := fun hl => hsome (hclock hl)
    refine ⟨_, if_neg hsome, hwheel, .refl _, (erase_of_not_mem fun hmem => ?_).symm,
      (if_pos (not_not.mp hoff)).symm, ⟨fun u => ⟨fun hu => ⟨?_, hu⟩, And.right⟩, fun _ => rfl,
      fun _ => rfl⟩⟩
    · exact hoff (hwheel.linked_iff.mpr (.inr hmem))
    · rintro rfl
      exact hoff hu

/-- Both outcomes of `CompleteWait`, for an operation whose waiter has not been woken. -/
theorem completeWait_cases (options : CoroutineOptions) (result : WaitResult) (reading : Option Nat)
    (h : Waits out loose s.state s.table) (hop : s.operations[k]? = some op)
    (hwait : s.ioWait op.routine = some k) :
    ∃ w fds ctl, Waits.Detached s.table k w fds ∧ TimerWheel.SameRing s.timerWheel w ∧
      w.expired = s.timerWheel.expired.erase (operationNode k) ∧
      w = s.timerWheel.remove (operationNode k) ∧
      ((s.completeWait options k result reading = (({ s with
              timerWheel := w
              fds := fds
              operations := s.operations.modify k fun op =>
                { op with result := result, completions := op.completions ++ [(result, reading)] }
              ioWait := update s.ioWait op.routine none
              stranded := s.stranded.filter (· ≠ op.routine)
              epollCtl := ctl } : Coroutine).makeReady options op.routine, true) ∧
          (CtlSucceeds s.epollCtl → CtlSucceeds ctl)) ∨
        (s.completeWait options k result reading = ({ s with
              timerWheel := w
              fds := fds
              operations := s.operations.modify k fun op => { op with result := result }
              stranded := op.routine :: s.stranded
              epollCtl := ctl }, false) ∧ ¬ CtlSucceeds s.epollCtl ∧
          s.table.slotOf op.fd op.direction = some k)) := by
  obtain ⟨w, hw, hinv, hring, hexpired, hremove, hrelinked⟩ :=
    untime_spec (s := s) (k := k) op h.wheel fun hl => by
    obtain ⟨op', hop', -, hdeadline⟩ := h.clock k (.inl hl)
    cases hop.symm.trans hop'
    exact isSome_of_eq_some hdeadline
  have huntimed : (s.setOperation k fun op => { op with result := result }).untime k op = { s with
        timerWheel := w
        operations := s.operations.modify k fun op => { op with result := result } } := by
    have heq := congrArg (fun u =>
      u.setOperation k fun op => { op with result := result }) hw
    refine Eq.trans ?_ heq
    unfold untime
    split <;> rfl
  have honly : ∀ fd d, s.table.slotOf fd d = some k → fd = op.fd ∧ d = op.direction := by
    intro fd d hk
    obtain ⟨op', hop', hfd, hdir, -⟩ := h.slot fd d k hk
    cases hop.symm.trans hop'
    exact ⟨hfd.symm, hdir.symm⟩
  obtain ⟨fds, ctl, b, hdetached, hslots, hctl, hloose⟩ := detach_slot (s := { s with
    timerWheel := w
    operations := s.operations.modify k fun op => { op with result := result } }) op honly
  refine ⟨w, fds, ctl, ⟨hinv, hrelinked.type, hrelinked.deadlineMs, hrelinked.linked, hslots⟩,
    hring, hexpired, hremove, ?_⟩
  simp only [completeWait, hop]
  rw [huntimed, hdetached]
  cases b with
  | false =>
    refine .inr ⟨rfl, fun hsucc => absurd (hctl hsucc).1 (by simp), ?_⟩
    by_contra hne
    cases hloose hne
  | true =>
    refine .inl ⟨?_, fun hsucc => (hctl hsucc).2⟩
    dsimp only
    rw [if_pos hwait]
    simp only [setOperation, setIoWait, modify_modify_eq]
    rfl

/-- What a function that ends waits, all with the same outcome, leaves behind. -/
structure Served (options : CoroutineOptions) (loose : List Nat) (outcome : WaitResult × Option Nat)
    (s : Coroutine) (p : Coroutine × Bool) : Prop where
  coherent : Coherent options none loose p.1
  life : SameLife s p.1
  ring : TimerWheel.SameRing s.timerWheel p.1.timerWheel
  expired : p.1.timerWheel.expired.Sublist s.timerWheel.expired
  smooth : Smooth s → Smooth p.1 ∧ p.2 = true
  history : Extends s.operations p.1.operations
  added : Adds outcome s.operations p.1.operations

variable {outcome : WaitResult × Option Nat}

theorem Served.refl (h : Coherent options none loose s) :
    Served options loose outcome s (s, true) :=
  ⟨h, .refl s, .refl _, List.Sublist.refl _, fun hs => ⟨hs, rfl⟩, .refl _, .refl _⟩

theorem Served.trans {p : Coroutine × Bool} (h : Served options loose outcome s (s', true))
    (h' : Served options loose outcome s' p) : Served options loose outcome s p :=
  ⟨h'.coherent, h.life.trans h'.life, h.ring.trans h'.ring, h'.expired.trans h.expired,
    fun hs => h'.smooth (h.smooth hs).1, h.history.trans h'.history, h'.added.trans h.added⟩

/-- **`CompleteWait`** ends one wait and leaves the others alone, or strands its waiter. -/
theorem completeWait_spec (h : Coherent options out loose s) (hop : s.operations[k]? = some op)
    (hwait : s.ioWait op.routine = some k) (hout : ∀ v, out = some v → v = operationNode k)
    (hallowed : ({ op with result := result } : IoWaitOperation).Ended (result, reading)) :
    Served options loose (result, reading) s (s.completeWait options k result reading) ∧
    (∀ j, j ≠ k → (s.completeWait options k result reading).1.operations[j]? = s.operations[j]?) ∧
    (∀ r, r ≠ op.routine → (s.completeWait options k result reading).1.ioWait r = s.ioWait r) ∧
    (s.table.slotOf op.fd op.direction ≠ some k →
      (s.completeWait options k result reading).2 = true ∧
      (s.completeWait options k result reading).1.ioWait op.routine = none) ∧
    (∀ fd d, (s.completeWait options k result reading).1.table.slotOf fd d =
      if s.table.slotOf fd d = some k then none else s.table.slotOf fd d) ∧
    (s.completeWait options k result reading).1.timerWheel =
      s.timerWheel.remove (operationNode k) := by
  have hstate := (h.waits.waiter _ k hwait).1
  obtain ⟨w, fds, ctl, hd, hring, hexpired, hremove, ⟨heq, hctl⟩ | ⟨heq, hfail, hslot⟩⟩ :=
    completeWait_cases options result reading h.waits hop hwait
  · rw [heq]
    obtain ⟨t, ht, hgood, hstates, hlife⟩ := makeReady_spec (s := { s with
      timerWheel := w
      fds := fds
      operations := s.operations.modify k fun op =>
        { op with result := result, completions := op.completions ++ [(result, reading)] }
      ioWait := update s.ioWait op.routine none
      stranded := s.stranded.filter (· ≠ op.routine)
      epollCtl := ctl }) h.good hstate (by decide)
    rw [ht]
    refine ⟨⟨⟨hgood, ?_⟩, { hlife with }, hring, ?_, fun hs => ⟨⟨hctl hs.ctl, ?_⟩, rfl⟩,
      .modify fun op => ⟨rfl, rfl, rfl, rfl, prefix_append ..⟩, .of_modify fun op c hc => ?_⟩,
      fun j hj => ?_, fun r hr => ?_, fun _ => ⟨rfl, ?_⟩, hd.slots, hremove⟩
    · have hnext : CoroutineState.ready ≠ .waitIo ∧ CoroutineState.ready ≠ .waitTimer := by decide
      exact h.waits.complete hop hwait hout hd hnext hstates
        (fun q hq => by simp [hq, table]) hallowed
    · dsimp only
      rw [hexpired]
      exact erase_sublist
    · simp [hs.stranded]
    · exact (mem_append.mp hc).imp_right mem_singleton.mp
    · exact getElem?_modify_of_ne (Ne.symm hj)
    · exact update_of_ne hr _ _
    · exact update_self ..
  · rw [heq]
    refine ⟨⟨⟨h.good, h.waits.strand hop hwait hout hd⟩, ⟨rfl, rfl, rfl, fun _ => Iff.rfl⟩,
      hring, ?_, fun hs => absurd hs.ctl hfail,
      .modify fun op => ⟨rfl, rfl, rfl, rfl, prefix_rfl⟩, .of_modify fun op c => .inl⟩,
      fun j hj => ?_, fun _ _ => rfl, fun hne => absurd hslot hne, hd.slots, hremove⟩
    · dsimp only
      rw [hexpired]
      exact erase_sublist
    · exact getElem?_modify_of_ne (Ne.symm hj)

/-! ## Events -/

theorem ended_of_ne_timeout (reading : Option Nat) (h : result = .ioReady ∨ result = .cancelled) :
    ({ op with result := result } : IoWaitOperation).Ended (result, reading) :=
  ⟨rfl, h.elim .inl fun h => .inr (.inl h)⟩

theorem completeSlot_spec (h : Coherent options none loose s) (fd : Int) (d : WaitDirection)
    (ends : Bool) : Served options loose (.ioReady, none) s
      (s.completeSlot options (s.table.slotOf fd d) ends) := by
  unfold completeSlot
  split
  · rename_i k hk
    split
    · obtain ⟨op, hop, -, -, hwait⟩ := h.waits.slot fd d k hk
      exact (completeWait_spec h hop hwait (by simp) (ended_of_ne_timeout _ (.inl rfl))).1
    · exact .refl h
  · exact .refl h

theorem deregister_spec (h : Coherent options none loose s) (hc : s.fds fd = some c) :
    Served options loose outcome s (s.deregister fd c, true) := by
  refine ⟨⟨h.good, h.waits.refds fun fd' d => ?_⟩, ⟨rfl, rfl, rfl, fun _ => Iff.rfl⟩, .refl _,
    List.Sublist.refl _, fun hs => ⟨⟨fun b hb => hs.ctl b (mem_of_mem_tail hb), hs.stranded⟩,
    rfl⟩, .refl _, .refl _⟩
  exact slotOf_setFd_same hc fun d => by cases d <;> rfl

theorem completeIo_spec (h : Coherent options none loose s) (fd : Int) (events : EpollEvents) :
    Served options loose (.ioReady, none) s (s.completeIo options fd events) ∧ (Smooth s → ∃ t u,
        s.completeSlot options (s.table.slotOf fd .read) (events.ends .read) = (t, true) ∧
        t.completeSlot options (t.table.slotOf fd .write) (events.ends .write) = (u, true) ∧
        Served options loose (.ioReady, none) u (s.completeIo options fd events)) := by
  have hfirst := completeSlot_spec h fd .read (events.ends .read)
  unfold completeIo
  split
  · rename_i t ht
    change s.completeSlot options (s.table.slotOf fd .read) (events.ends .read) = _ at ht
    rw [ht] at hfirst
    exact ⟨hfirst, fun hs => absurd (hfirst.smooth hs).2 (by simp)⟩
  · rename_i t ht
    change s.completeSlot options (s.table.slotOf fd .read) (events.ends .read) = _ at ht
    rw [ht] at hfirst
    have hsecond := completeSlot_spec hfirst.coherent fd .write (events.ends .write)
    split
    · rename_i u hu
      change t.completeSlot options (t.table.slotOf fd .write) (events.ends .write) = _ at hu
      rw [hu] at hsecond
      exact ⟨hfirst.trans hsecond, fun hs =>
        absurd (hsecond.smooth (hfirst.smooth hs).1).2 (by simp)⟩
    · rename_i u hu
      change t.completeSlot options (t.table.slotOf fd .write) (events.ends .write) = _ at hu
      rw [hu] at hsecond
      have hlast : ∀ {p}, Served options loose (.ioReady, none) u p →
          Served options loose (.ioReady, none) s p ∧ (Smooth s → ∃ t u,
            s.completeSlot options (s.table.slotOf fd .read) (events.ends .read) = (t, true) ∧
            t.completeSlot options (t.table.slotOf fd .write) (events.ends .write) = (u, true) ∧
            Served options loose (.ioReady, none) u p) := fun hp =>
        ⟨hfirst.trans (hsecond.trans hp), fun _ => ⟨t, u, ht, hu, hp⟩⟩
      split
      · rename_i c hc
        split
        · exact hlast (deregister_spec hsecond.coherent hc)
        · exact hlast (.refl hsecond.coherent)
      · exact hlast (.refl hsecond.coherent)

theorem completeEvents_spec (events : List (Int × EpollEvents))
    (h : Coherent options none loose s) :
    Served options loose (.ioReady, none) s (completeEvents options events s) := by
  induction events generalizing s with
  | nil => exact .refl h
  | cons e rest ih =>
    have hone := (completeIo_spec h e.1 e.2).1
    unfold completeEvents
    split
    · rename_i t ht
      rw [ht] at hone
      exact hone
    · rename_i t ht
      rw [ht] at hone
      exact hone.trans (ih hone.coherent)

theorem cancelWait_spec (h : Coherent options none loose s) (r : Nat) :
    Served options loose (.cancelled, none) s (s.cancelWait options r) := by
  unfold cancelWait
  split
  · rename_i k hk
    split
    · obtain ⟨-, op, hop, rfl⟩ := h.waits.waiter r k hk
      exact (completeWait_spec h hop hk (by simp) (ended_of_ne_timeout _ (.inr rfl))).1
    · exact .refl h
  · exact .refl h

/-- A wait that `CancelFd` has taken out of its slot ends without a call of `epoll_ctl`. -/
theorem cancelSlot_spec (h : Coherent options none loose s) (slot : Option Nat)
    (hslot : ∀ k, slot = some k → ∃ op, s.operations[k]? = some op ∧
      s.ioWait op.routine = some k ∧ s.table.slotOf op.fd op.direction = none) :
    ∃ t, s.cancelSlot options slot = (t, true) ∧
      Served options loose (.cancelled, none) s (t, true) ∧
      (∀ j, slot ≠ some j → t.operations[j]? = s.operations[j]?) ∧
      (∀ r j, t.ioWait r = some j ↔ s.ioWait r = some j ∧ slot ≠ some j) ∧
      ∀ fd d, s.table.slotOf fd d = none → t.table.slotOf fd d = none := by
  cases slot with
  | none => exact ⟨s, rfl, .refl h, fun _ _ => rfl, fun r j => by simp, fun _ _ hfd => hfd⟩
  | some k =>
    obtain ⟨op, hop, hwait, hnone⟩ := hslot k rfl
    obtain ⟨hserved, hops, hwaits, hreturns, hslots, -⟩ :=
      completeWait_spec h hop hwait (by simp) (ended_of_ne_timeout none (.inr rfl))
    obtain ⟨htrue, hgone⟩ := hreturns (by simp [hnone])
    generalize hp : s.completeWait options k .cancelled none = p at *
    obtain ⟨t, b⟩ := p
    obtain rfl : b = true := htrue
    refine ⟨t, hp, hserved, fun j hj => hops j fun heq => hj (heq ▸ rfl), fun r j => ?_,
      fun fd d hfd => by rw [hslots, hfd]; rfl⟩
    by_cases hr : r = op.routine
    · rw [hr, show t.ioWait op.routine = none from hgone, hwait]
      simp
    · rw [show t.ioWait r = s.ioWait r from hwaits r hr]
      refine ⟨fun hj => ⟨hj, fun heq => hr ?_⟩, And.left⟩
      -- only the waiter of an operation refers to it
      cases heq
      obtain ⟨-, op', hop', hroutine⟩ := h.waits.waiter r k hj
      cases hop.symm.trans hop'
      exact hroutine.symm

theorem emptyFd_spec (h : Coherent options none [] s) (hc : s.fds fd = some c) :
    ∃ t, (if c.registered then s.deregister fd { c with read := none, write := none }
        else s.setFd fd (some { c with read := none, write := none })) = t ∧
      Served options (c.read.toList ++ c.write.toList) outcome s (t, true) ∧
      t.operations = s.operations ∧ t.ioWait = s.ioWait ∧ ∀ d, t.table.slotOf fd d = none := by
  have hloose : ∀ ctl c', (∀ d, c'.slot d = none) →
      (CtlSucceeds s.epollCtl → CtlSucceeds ctl) →
      Served options (c.read.toList ++ c.write.toList) outcome s
        (({ s with epollCtl := ctl } : Coroutine).setFd fd (some c'), true) ∧
      ∀ d, (({ s with epollCtl := ctl } : Coroutine).setFd fd (some c')).table.slotOf fd d =
        none := by
    intro ctl c' hempty hctl
    have hnone : ∀ d, (({ s with epollCtl := ctl } : Coroutine).setFd fd (some c')).table.slotOf
        fd d = none := fun d => by
      rw [slotOf_setFd, if_pos rfl]
      exact hempty d
    refine ⟨⟨⟨h.good, ?_⟩, ⟨rfl, rfl, rfl, fun _ => Iff.rfl⟩, .refl _, List.Sublist.refl _,
      fun hs => ⟨⟨hctl hs.ctl, hs.stranded⟩, rfl⟩, .refl _, .refl _⟩, hnone⟩
    rw [← append_nil (c.read.toList ++ c.write.toList)]
    refine h.waits.loosen (fun fd' d hne => slotOf_setFd.trans (if_neg hne)) hnone ?_
    intro d k hk
    rw [slotOf_eq hc] at hk
    cases d with
    | read => simp [show c.read = some k from hk]
    | write => simp [show c.write = some k from hk]
  split
  · obtain ⟨hserved, hnone⟩ := hloose s.epollCtl.tail
      { c with read := none, write := none, registered := false, interest := {} }
      (fun d => by cases d <;> rfl) fun hs b hb => hs b (mem_of_mem_tail hb)
    exact ⟨_, rfl, hserved, rfl, rfl, hnone⟩
  · obtain ⟨hserved, hnone⟩ := hloose s.epollCtl { c with read := none, write := none }
      (fun d => by cases d <;> rfl) id
    exact ⟨_, rfl, hserved, rfl, rfl, hnone⟩

theorem cancelFd_spec (h : Coherent options none [] s) (fd : Int) :
    Served options [] (.cancelled, none) s (s.cancelFd options fd) ∧
      (s.cancelFd options fd).2 = true := by
  unfold cancelFd
  split
  · exact ⟨.refl h, rfl⟩
  rename_i c hc
  obtain ⟨s₁, heq, hempty, hops, hwaits, hnone⟩ := emptyFd_spec h hc
  dsimp only
  rw [heq]
  -- the waits of the two slots end one after the other
  have hslot : ∀ d k, c.slot d = some k → ∃ op, s.operations[k]? = some op ∧
      s.ioWait op.routine = some k ∧ op.fd = fd ∧ op.direction = d := by
    intro d k hk
    obtain ⟨op, hop, hfd, hdir, hwait⟩ := h.waits.slot fd d k ((slotOf_eq hc).trans hk)
    exact ⟨op, hop, hwait, hfd, hdir⟩
  obtain ⟨s₂, hread, hserved₂, hops₂, hwaits₂, hslots₂⟩ :=
    cancelSlot_spec hempty.coherent c.read fun k hk => by
      obtain ⟨op, hop, hwait, hfd, -⟩ := hslot .read k hk
      exact ⟨op, by rw [hops, hop], by rw [hwaits, hwait], by rw [hfd, hnone]⟩
  obtain ⟨s₃, hwrite, hserved₃, -, hwaits₃, hslots₃⟩ :=
    cancelSlot_spec hserved₂.coherent c.write fun k hk => by
      obtain ⟨op, hop, hwait, hfd, hdir⟩ := hslot .write k hk
      have hne : c.read ≠ some k := fun hk' => by
        obtain ⟨op', hop', -, -, hdir'⟩ := hslot .read k hk'
        cases hop.symm.trans hop'
        rw [hdir] at hdir'
        cases hdir'
      exact ⟨op, by rw [hops₂ k hne, hops, hop], (hwaits₂ _ k).mpr ⟨by rw [hwaits, hwait], hne⟩,
        hslots₂ _ _ (by rw [hfd, hnone])⟩
  rw [hread]
  dsimp only
  rw [hwrite]
  have hall := (hempty.trans hserved₂).trans hserved₃
  have hended : ∀ k ∈ c.read.toList ++ c.write.toList, ∀ r, s₃.table.ioWait r ≠ some k := by
    intro k hk r hr
    obtain ⟨hr₂, hnot₃⟩ := (hwaits₃ r k).mp hr
    obtain ⟨-, hnot₂⟩ := (hwaits₂ r k).mp hr₂
    rcases mem_append.mp hk with hk | hk
    · exact hnot₂ (mem_toList.mp hk)
    · exact hnot₃ (mem_toList.mp hk)
  refine ⟨{ hall with
    coherent := ⟨hall.coherent.good, (hall.coherent.waits.unloose hended).refds fun fd' d => ?_⟩
    life := { hall.life with }
    smooth := fun hs => ⟨{ (hall.smooth hs).1 with }, rfl⟩ }, rfl⟩
  refine slotOf_setFd.trans ?_
  split
  · rename_i hfd
    rw [hfd, hslots₃ fd d (hslots₂ fd d (hnone d))]
    rfl
  · rfl

/-! ## The flush queue -/

theorem flushRoutine_spec (h : Coherent options none loose s) (r : Nat) :
    Served options loose outcome s (s.flushRoutine options r, true) := by
  unfold flushRoutine
  have htaken : Served options loose outcome s
      ({ s with flushQueued := update s.flushQueued r false }, true) :=
    ⟨⟨h.good, h.waits⟩, ⟨rfl, rfl, rfl, fun _ => Iff.rfl⟩, .refl _, List.Sublist.refl _,
      fun hs => ⟨⟨hs.ctl, hs.stranded⟩, rfl⟩, .refl _, .refl _⟩
  dsimp only
  split
  · rename_i hevent
    refine htaken.trans ?_
    obtain ⟨x, hx, hwait⟩ := (any_eq_true _ _).mp hevent
    have hstate : ({ s with flushQueued := update s.flushQueued r false } :
        Coroutine).state r = some .waitEvent := by
      rw [state, Scheduler.control_state, hx, map_some, of_decide_eq_true hwait]
    obtain ⟨t, ht, hgood, hstates, hlife⟩ :=
      makeReady_spec htaken.coherent.good hstate (by decide)
    rw [ht]
    refine ⟨htaken.coherent.reschedule hgood hstates (fun st hst => ?_) (by decide), hlife, .refl _,
      List.Sublist.refl _, fun hs => ⟨⟨hs.ctl, hs.stranded⟩, rfl⟩, .refl _, .refl _⟩
    cases hstate.symm.trans hst
    decide
  · exact htaken

theorem foldl_flushRoutine_spec (queue : List Nat) (h : Coherent options none loose s) :
    Served options loose outcome s (queue.foldl (flushRoutine options) s, true) := by
  induction queue generalizing s with
  | nil => exact .refl h
  | cons r rest ih =>
    have hone : Served options loose outcome s _ := flushRoutine_spec h r
    exact hone.trans (ih hone.coherent)

/-- A flush concerns the scheduler and the queue. -/
theorem flushScheduledEvents_eq (options : CoroutineOptions) (s : Coroutine) (nowMs : Nat) :
    ∃ scheduler queue queued deadline,
    s.flushScheduledEvents options nowMs = { s with
      scheduler := scheduler
      flushQueue := queue
      flushQueued := queued
      nextFlushDeadlineMs := deadline } := by
  have hfold : ∀ (queue : List Nat) (u : Coroutine), ∃ scheduler queued,
      queue.foldl (flushRoutine options) u =
        { u with scheduler := scheduler, flushQueued := queued } := by
    intro queue
    induction queue with
    | nil => exact fun u => ⟨_, _, rfl⟩
    | cons r rest ih =>
      intro u
      obtain ⟨t, ht⟩ : ∃ t, u.flushRoutine options r =
          { u with scheduler := t, flushQueued := update u.flushQueued r false } := by
        unfold flushRoutine
        dsimp only
        split
        · obtain ⟨t, ht⟩ := makeReady_eq options
            { u with flushQueued := update u.flushQueued r false } r
          exact ⟨t, ht⟩
        · exact ⟨_, rfl⟩
      rw [foldl_cons, ht]
      exact ih _
  unfold flushScheduledEvents
  split
  · exact ⟨_, _, _, _, rfl⟩
  · obtain ⟨scheduler, queued, heq⟩ := hfold s.flushQueue { s with
      nextFlushDeadlineMs := s.nextFlushDeadlineMs +
        ((nowMs - s.nextFlushDeadlineMs) / options.flushIntervalMs + 1) * options.flushIntervalMs }
    dsimp only
    rw [heq]
    exact ⟨_, _, _, _, rfl⟩

theorem flushScheduledEvents_spec (h : Coherent options none loose s) (nowMs : Nat) :
    Served options loose outcome s (s.flushScheduledEvents options nowMs, true) := by
  unfold flushScheduledEvents
  split
  · exact .refl h
  · dsimp only
    have hmoved : Coherent options none loose { s with
          nextFlushDeadlineMs := s.nextFlushDeadlineMs +
            ((nowMs - s.nextFlushDeadlineMs) / options.flushIntervalMs + 1) *
              options.flushIntervalMs } := ⟨h.good, h.waits⟩
    have hfold : Served options loose outcome _ _ := foldl_flushRoutine_spec s.flushQueue hmoved
    exact ⟨⟨hfold.coherent.good, hfold.coherent.waits⟩, ⟨hfold.life.onFinish, hfold.life.count,
      hfold.life.started, hfold.life.alive⟩, hfold.ring, hfold.expired,
      fun hs => ⟨{ (hfold.smooth { hs with }).1 with }, rfl⟩, hfold.history, hfold.added⟩

/-! ## The expired list -/

theorem operationNode_of_type {v : Nat} (h : nodeType v = .ioWait) : operationNode (v / 2) = v := by
  unfold nodeType at h
  split at h
  · cases h
  · unfold operationNode
    omega

theorem routineNode_of_type {v : Nat} (h : nodeType v ≠ .ioWait) : routineNode (v / 2) = v := by
  unfold nodeType at h
  split at h
  · unfold routineNode
    omega
  · exact absurd rfl h

theorem pop_spec (h : Coherent options none loose s) {v : Nat} {rest : List Nat}
    (hexp : s.timerWheel.expired = v :: rest) :
    Coherent options (some v) loose (s.setWheel (s.timerWheel.unlink v)) ∧
      TimerWheel.SameRing s.timerWheel (s.timerWheel.unlink v) ∧
      (s.timerWheel.unlink v).expired = rest := by
  have hwheel : s.timerWheel.Inv := h.waits.wheel
  obtain ⟨hinv, hring, hrest, hlist, -, -⟩ := hwheel.unlink_expired hexp
  have hlinks := relinked_unlink hwheel.toLinks v
  have hv : s.timerWheel.Linked v := hwheel.linked_iff.mpr (.inr (by simp [hexp]))
  refine ⟨⟨h.good, h.waits.rewheel hinv hlinks.type (fun u => ?_) (fun u _ => hlinks.deadlineMs u)
    fun u hu => ?_⟩, hring, hrest⟩
  · change (s.timerWheel.unlink v).Linked u ∨ _ ↔ s.timerWheel.Linked u ∨ _
    rw [hlinks.linked]
    by_cases huv : u = v
    · simpa [huv] using hv
    · simp [huv, Ne.symm huv]
  · cases hu
    exact fun hl => hl hlist

/-- `CompleteTimeout` or `CompleteTimer` for a node whose deadline is still to come. -/
theorem readd_spec {v : Nat} (h : Coherent options (some v) loose s)
    (hd : s.timerWheel.currentTickMs < (s.timerWheel.node v).deadlineMs) :
    ∃ w, s.timerWheel.add v = .ok w ∧ Served options loose outcome s (s.setWheel w, true) := by
  have hwheel : s.timerWheel.Inv := h.waits.wheel
  obtain ⟨w, hadd, hinv, hring, hexp, -, hlinks⟩ := TimerWheel.Inv.add hwheel.toRepresents
    hwheel.typed (fun u i _ => hwheel.timely u i) (v := v) hd
  refine ⟨w, hadd, ⟨h.good, h.waits.rewheel hinv hlinks.type (fun u => ?_)
    (fun u _ => hlinks.deadlineMs u) (by simp)⟩, ⟨rfl, rfl, rfl, fun _ => Iff.rfl⟩, hring,
    hexp ▸ erase_sublist, fun hs => ⟨⟨hs.ctl, hs.stranded⟩, rfl⟩, .refl _, .refl _⟩
  change w.Linked u ∨ _ ↔ s.timerWheel.Linked u ∨ _
  rw [hlinks.linked]
  simp only [reduceCtorEq, or_false, some.injEq]
  rw [or_comm, eq_comm]

theorem fireTimer_spec {r : Nat} (h : Coherent options (some (routineNode r)) loose s) :
    Served options loose outcome s (s.makeReady options r, true) ∧
      (s.makeReady options r).timerWheel = s.timerWheel := by
  have hstate : s.state r = some .waitTimer := (h.waits.timer r).mp (.inr rfl)
  obtain ⟨t, ht, hgood, hstates, hlife⟩ :=
    makeReady_spec h.good hstate (by decide)
  have hoff : ¬ s.timerWheel.Linked (routineNode r) := h.waits.off _ rfl
  rw [ht]
  refine ⟨⟨⟨hgood, ?_⟩, hlife, .refl _, List.Sublist.refl _,
    fun hs => ⟨⟨hs.ctl, hs.stranded⟩, rfl⟩, .refl _, .refl _⟩, rfl⟩
  refine h.waits.retime (r := r) h.waits.wheel (fun _ => rfl) (fun v hv => ⟨?_, rfl⟩) ?_ (by simp)
    (fun q hq => (hstates q).trans (if_neg hq)) ?_ ?_
  · change s.timerWheel.Linked v ∨ none = some v ↔ s.timerWheel.Linked v ∨ _
    simp [Ne.symm hv]
  · refine iff_of_false ?_ ?_
    · simpa [Tracked] using hoff
    · rw [state, hstates, if_pos rfl]
      simp
  · rw [hstate]
    simp
  · rw [state, hstates, if_pos rfl]
    simp

/-- One round of the loop: a node is taken out of the list, and its wait ends or goes on. On the wheel
    it is a round of the wheel's own loop. -/
theorem completeExpired_cons {v : Nat} {rest : List Nat} {nowMs : Nat} (fuel : Nat)
    (h : Coherent options none loose s) (hexp : s.timerWheel.expired = v :: rest)
    (hnow : s.timerWheel.currentTickMs = nowMs) :
    ∃ t b, completeExpired options nowMs (fuel + 1) s =
        (if b then completeExpired options nowMs fuel t else (t, false)) ∧
      Served options loose (.timeout, some nowMs) s (t, b) ∧ t.timerWheel.expired.Sublist rest ∧
      ∃ fired, s.timerWheel.completeExpired nowMs (fuel + 1) =
        (t.timerWheel.completeExpired nowMs fuel).map fun p => (p.1, fired ++ p.2) := by
  obtain ⟨hpop, hring, hrest⟩ := pop_spec h hexp
  have hwheel : s.timerWheel.Inv := h.waits.wheel
  obtain ⟨hinv, -, -, hlist, -⟩ := hwheel.unlink_expired hexp
  rw [completeExpired, hexp, TimerWheel.completeExpired_cons nowMs fuel hexp (hinv.typed v) hlist]
  dsimp only
  have hfirst : ∀ {p},
      Served options loose (.timeout, some nowMs) (s.setWheel (s.timerWheel.unlink v)) p →
      Served options loose (.timeout, some nowMs) s p ∧ p.1.timerWheel.expired.Sublist rest := by
    intro p hp
    have hsub : p.1.timerWheel.expired.Sublist rest := hrest ▸ hp.expired
    exact ⟨⟨hp.coherent, ⟨hp.life.onFinish, hp.life.count, hp.life.started, hp.life.alive⟩,
      hring.trans hp.ring, hexp ▸ hsub.trans (sublist_cons_self v rest),
      fun hs => hp.smooth ⟨hs.ctl, hs.stranded⟩, hp.history, hp.added⟩, hsub⟩
  replace hring : (s.setWheel (s.timerWheel.unlink v)).timerWheel.currentTickMs = nowMs :=
    hring.tick.trans hnow
  -- the node is in no list, so completing its wait leaves the wheel alone
  have hremove : (s.timerWheel.unlink v).remove v = s.timerWheel.unlink v := if_pos hlist
  have hpopped : s.timerWheel.unlink v = (s.setWheel (s.timerWheel.unlink v)).timerWheel := rfl
  generalize s.setWheel (s.timerWheel.unlink v) = popped at *
  rw [hpopped] at hremove ⊢
  have htype : (popped.timerWheel.node v).type = nodeType v := hpop.waits.typed v
  have hsome : (popped.timerWheel.node v).type ≠ .none := by
    rw [htype, nodeType]
    split <;> decide
  rw [if_neg hsome]
  split
  · rename_i hearly
    obtain ⟨w, hadd, hserved⟩ := readd_spec hpop (hring ▸ hearly)
    obtain ⟨hserved, hsub⟩ := hfirst hserved
    refine ⟨_, true, by rw [hadd]; rfl, hserved, hsub, [], ?_⟩
    rw [hadd]
    exact (congrFun Except.map_id _).symm
  · rename_i hdue
    split
    · rename_i hio
      have hv : operationNode (v / 2) = v := operationNode_of_type (htype ▸ hio)
      obtain ⟨op, hop, hwait, hdeadline⟩ := hpop.waits.clock (v / 2) (.inr (congrArg some hv.symm))
      rw [hv] at hdeadline
      have hended : ({ op with result := .timeout } : IoWaitOperation).Ended
          (.timeout, some nowMs) :=
        ⟨rfl, .inr (.inr ⟨rfl, nowMs, _, rfl, hdeadline, Nat.le_of_not_lt hdue⟩)⟩
      obtain ⟨hserved, -, -, -, -, hsame⟩ := completeWait_spec hpop hop hwait
        (fun u hu => (some.inj hu).symm.trans hv.symm) hended
      rw [hv, hremove] at hsame
      generalize popped.completeWait options (v / 2) .timeout (some nowMs) = p at hserved hsame
      obtain ⟨t, b⟩ := p
      obtain ⟨hserved, hsub⟩ := hfirst hserved
      exact ⟨t, b, by cases b <;> rfl, hserved, hsub, [v], by rw [hsame]; rfl⟩
    · rename_i hroutine
      have hv : routineNode (v / 2) = v := routineNode_of_type (htype ▸ hroutine)
      rw [← hv] at hpop
      obtain ⟨hserved, hsame⟩ := fireTimer_spec hpop
      obtain ⟨hserved, hsub⟩ := hfirst hserved
      exact ⟨_, true, rfl, hserved, hsub, [v], by rw [hsame]; rfl⟩

/-- **The loop over the expired list** ends or puts back every timer in it, and does to the wheel what
    the loop of `TimerExpiry` does. -/
theorem completeExpired_spec (nowMs fuel : Nat) (h : Coherent options none loose s)
    (hfuel : s.timerWheel.expired.length ≤ fuel)
    (htick : s.timerWheel.expired ≠ [] → s.timerWheel.currentTickMs = nowMs) :
    Served options loose (.timeout, some nowMs) s (completeExpired options nowMs fuel s) ∧
      ((completeExpired options nowMs fuel s).2 = true →
        (completeExpired options nowMs fuel s).1.timerWheel.expired = [] ∧
        ∃ fired, s.timerWheel.completeExpired nowMs fuel =
          .ok ((completeExpired options nowMs fuel s).1.timerWheel, fired)) := by
  induction fuel generalizing s with
  | zero =>
    exact ⟨.refl h, fun _ => ⟨length_eq_zero_iff.mp (Nat.le_zero.mp hfuel), [], rfl⟩⟩
  | succ fuel ih =>
    cases hexp : s.timerWheel.expired with
    | nil =>
      have heq : completeExpired options nowMs (fuel + 1) s = (s, true) := by
        rw [completeExpired, hexp]
      rw [heq, TimerWheel.completeExpired, hexp]
      exact ⟨.refl h, fun _ => ⟨rfl, [], rfl⟩⟩
    | cons v rest =>
      have hnow := htick (by simp [hexp])
      obtain ⟨t, b, heq, hserved, hrest, first, hround⟩ := completeExpired_cons fuel h hexp hnow
      rw [heq, hround]
      cases b with
      | false => exact ⟨hserved, fun hb => by cases hb⟩
      | true =>
        have hlen : t.timerWheel.expired.length ≤ fuel := by
          have := hrest.length_le
          rw [hexp, length_cons] at hfuel
          omega
        obtain ⟨hmore, hdone⟩ := ih hserved.coherent hlen fun _ => hserved.ring.tick.trans hnow
        refine ⟨hserved.trans hmore, fun hb => ?_⟩
        obtain ⟨hempty, fired, hloop⟩ := hdone hb
        exact ⟨hempty, first ++ fired, by rw [hloop]; rfl⟩

/-- `Poll` after its events: the waits that are over their time end, and the wheel goes through a
    round of its own. -/
theorem expire_spec (h : Coherent options none [] s) (hexp : s.timerWheel.expired = [])
    (nowMs : Nat) :
    Coherent options none [] (s.poll options [] nowMs).1 ∧ SameLife s (s.poll options [] nowMs).1 ∧
      Extends s.operations (s.poll options [] nowMs).1.operations ∧
      Adds (.timeout, some nowMs) s.operations (s.poll options [] nowMs).1.operations ∧
      (Smooth s → Smooth (s.poll options [] nowMs).1 ∧
        (s.poll options [] nowMs).1.timerWheel.expired = [] ∧
        ∃ fired, s.timerWheel.poll nowMs =
          .ok ((s.poll options [] nowMs).1.timerWheel, fired)) := by
  obtain ⟨u, hu, hflushed, hsame⟩ : ∃ u, (if s.flushQueue ≠ [] then
        s.flushScheduledEvents options nowMs else s) = u ∧
      Served options [] (.timeout, some nowMs) s (u, true) ∧ u.timerWheel = s.timerWheel := by
    refine ⟨_, rfl, ?_⟩
    split
    · refine ⟨flushScheduledEvents_spec h nowMs, ?_⟩
      obtain ⟨_, _, _, _, heq⟩ := flushScheduledEvents_eq options s nowMs
      rw [heq]
    · exact ⟨.refl h, rfl⟩
  have hpoll : s.poll options [] nowMs = completeExpired options nowMs
      (u.setWheel (u.timerWheel.advance nowMs)).timerWheel.expired.length
      (u.setWheel (u.timerWheel.advance nowMs)) := by
    rw [← hu]
    rfl
  have hempty : u.timerWheel.expired = [] := hsame ▸ hexp
  have hwheel : u.timerWheel.Inv := hflushed.coherent.waits.wheel
  obtain ⟨hinv, htick, -⟩ := advance_spec hwheel hempty nowMs
  have hlinks := relinked_advance hwheel.toRepresents nowMs
  have hadvanced : Coherent options none [] (u.setWheel (u.timerWheel.advance nowMs)) := by
    refine ⟨hflushed.coherent.good, hflushed.coherent.waits.rewheel hinv hlinks.type
      (fun v => ?_) (fun v _ => hlinks.deadlineMs v) (by simp)⟩
    exact or_congr_left (hlinks.linked v)
  obtain ⟨hserved, hdone⟩ := completeExpired_spec nowMs _ hadvanced (Nat.le_refl _) htick
  rw [← hpoll] at hserved hdone
  have hlife : SameLife u (u.setWheel (u.timerWheel.advance nowMs)) :=
    ⟨rfl, rfl, rfl, fun _ => Iff.rfl⟩
  refine ⟨hserved.coherent, hflushed.life.trans (hlife.trans hserved.life),
    hflushed.history.trans hserved.history, hserved.added.trans hflushed.added, fun hs => ?_⟩
  have hsu := (hflushed.smooth hs).1
  obtain ⟨hsmooth, hreturned⟩ := hserved.smooth ⟨hsu.ctl, hsu.stranded⟩
  obtain ⟨hgone, fired, hloop⟩ := hdone hreturned
  exact ⟨hsmooth, hgone, fired, by rw [← hsame]; exact hloop⟩

/-- **`Poll`** completes the waits of its events, and then those that are over their time. -/
theorem poll_spec (h : Coherent options none [] s) (hexp : s.timerWheel.expired = [])
    (events : List (Int × EpollEvents)) (nowMs : Nat) :
    Coherent options none [] (s.poll options events nowMs).1 ∧
      SameLife s (s.poll options events nowMs).1 ∧
      Extends s.operations (s.poll options events nowMs).1.operations ∧
      (Smooth s → Smooth (s.poll options events nowMs).1 ∧
        (s.poll options events nowMs).1.timerWheel.expired = [] ∧
        ∃ t, completeEvents options events s = (t, true) ∧
          s.poll options events nowMs = t.poll options [] nowMs) := by
  have hevents := completeEvents_spec events h
  cases hp : completeEvents options events s with
  | mk t b =>
    rw [hp] at hevents
    cases b with
    | false =>
      have hpoll : s.poll options events nowMs = (t, false) := by rw [poll, hp]
      rw [hpoll]
      exact ⟨hevents.coherent, hevents.life, hevents.history,
        fun hs => absurd (hevents.smooth hs).2 (by simp)⟩
    | true =>
      have hpoll : s.poll options events nowMs = t.poll options [] nowMs := by
        rw [poll, hp]
        rfl
      have hempty : t.timerWheel.expired = [] := sublist_nil.mp (hexp ▸ hevents.expired)
      obtain ⟨hcoherent, hlife, hhistory, -, hsmooth⟩ :=
        expire_spec hevents.coherent hempty nowMs
      rw [hpoll]
      refine ⟨hcoherent, hevents.life.trans hlife, hevents.history.trans hhistory, fun hs => ?_⟩
      obtain ⟨hsmooth, hgone, -⟩ := hsmooth (hevents.smooth hs).1
      exact ⟨hsmooth, hgone, t, rfl, rfl⟩

end Coroutine

end CoroRpc.Runtime
