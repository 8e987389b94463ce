import CoroRpc.Runtime.CoroutineInvariant

/-!
# Every step of the runtime keeps its tables

The functions of `CoroutineInvariant` end waits. Those here begin them (`Await`, `YieldFor`), give
control away and take it back, and make and finish routines. With them `Coherent` holds in every state
of a run, whatever `epoll_ctl` answers; where it succeeds, no step leaves an expired timer behind.
-/

namespace CoroRpc.Runtime

open Lib List Option Function Scheduler TimerWheel

namespace Coroutine

/-- What every step but `Poll` keeps. -/
structure Kept (options : CoroutineOptions) (s s' : Coroutine) : Prop where
  coherent : Coherent options none [] s'
  expired : s'.timerWheel.expired = []
  smooth : Smooth s → Smooth s'
  history : Extends s.operations s'.operations

variable {options : CoroutineOptions} {s s' : Coroutine} {r sp : Nat}

theorem Served.kept {outcome : WaitResult × Option Nat} {p : Coroutine × Bool}
    (h : Served options [] outcome s p) (hexp : s.timerWheel.expired = []) : Kept options s p.1 :=
  ⟨h.coherent, sublist_nil.mp (hexp ▸ h.expired), fun hs => (h.smooth hs).1, h.history⟩

theorem Kept.refl (h : Coherent options none [] s) (hexp : s.timerWheel.expired = []) :
    Kept options s s := ⟨h, hexp, id, .refl _⟩

theorem Coherent.kept {t : Scheduler} (h : Coherent options none [] { s with scheduler := t })
    (hexp : s.timerWheel.expired = []) : Kept options s { s with scheduler := t } :=
  ⟨h, hexp, fun hs => ⟨hs.ctl, hs.stranded⟩, .refl _⟩

/-! ## Control -/

theorem suspend_spec {waiting : CoroutineState} (hs : s.act options (.suspend waiting sp) = some s')
    (h : Scheduler.Good options.scheduler s.scheduler) :
    ∃ t r, s' = { s with scheduler := t } ∧ Scheduler.Good options.scheduler t ∧
      s.scheduler.current = some r ∧ s.state r = some .running ∧
      (∀ q, t.control.state q = if q = r then some waiting else s.state q) ∧
      SameLife s { s with scheduler := t } := by
  obtain ⟨t, ht, rfl⟩ := act_eq_some.mp hs
  have hgood := good_step h ht
  simp only [Scheduler.step] at ht
  split at ht
  · rename_i hw
    have hne : ∀ st, st.isWaiting = false → waiting ≠ st := by
      rintro _ hst rfl
      cases hst.symm.trans hw.1
    obtain ⟨-, r, hcur, hrun, hstates⟩ := Scheduler.yieldCurrent_state h.inv h.control
      (eq_ok_of_toOption ht) (hne _ rfl) (hne _ rfl)
    exact ⟨t, r, rfl, hgood, hcur, hrun, hstates,
      sameLife_of_states hstates hrun (by decide) ⟨hne _ rfl, hne _ rfl⟩⟩
  · cases ht

theorem act_resume_spec (h : Coherent options none [] s)
    (hs : s.act options (.resume r sp) = some s') :
    ∃ t old, s' = { s with scheduler := t } ∧ Coherent options none [] s' ∧
      s.state r = some old ∧ (old = .init ∨ old = .ready ∨ old = .waitEvent) ∧
      ∀ q, t.control.state q = if q = r then some .running else s.state q := by
  obtain ⟨t, ht, rfl⟩ := act_eq_some.mp hs
  have hgood := good_step h.good ht
  simp only [Scheduler.step] at ht
  split at ht
  · have hok := eq_ok_of_toOption ht
    obtain ⟨-, -, -, f, hf, -, hold⟩ := Scheduler.resume_control hok
    have hr : s.state r = some f.state := Control.state_eq_some.mpr ⟨f, hf, rfl⟩
    have hstates := (resume_state h.good.control hok).2
    refine ⟨t, f.state, rfl, h.reschedule hgood hstates (fun st hst => ?_) (by decide), hr, hold,
      hstates⟩
    cases hr.symm.trans hst
    rcases hold with heq | heq | heq <;> rw [heq] <;> decide
  · cases ht

theorem act_runReady_spec (h : Coherent options none [] s)
    (hs : s.act options (.runReady sp) = some s') :
    ∃ t, s' = { s with scheduler := t } ∧ Coherent options none [] s' ∧ SameLife s s' := by
  obtain ⟨t, ht, rfl⟩ := act_eq_some.mp hs
  have hgood := good_step h.good ht
  simp only [Scheduler.step] at ht
  split at ht
  · cases ht
  · rename_i r rest hqueue
    split at ht
    · have hready : s.state r = some .ready :=
        h.good.control.ready r (show r ∈ s.scheduler.readyQueue by simp [hqueue])
      have hpop := good_popReady h.good hqueue
      have hstates := (resume_state hpop.control (eq_ok_of_toOption ht)).2
      have hsame : ∀ q, t.control.state q = if q = r then some .running else s.state q := by
        intro q
        have hq : (s.scheduler.control.popReady r rest).state q = s.state q :=
          Control.state_modify_queued
        rw [hstates, control_popReady, hq]
      refine ⟨t, rfl, h.reschedule hgood hsame (fun st hst => ?_) (by decide),
        sameLife_of_states hsame hready (by decide) (by decide)⟩
      cases hready.symm.trans hst
      decide
    · cases ht

theorem act_poke_spec (h : Coherent options none [] s) {address : Nat} {byte : UInt8}
    (hs : s.act options (.poke address byte) = some s') :
    ∃ t, s' = { s with scheduler := t } ∧ Coherent options none [] s' ∧ SameLife s s' := by
  obtain ⟨t, ht, rfl⟩ := act_eq_some.mp hs
  have hgood := good_step h.good ht
  simp only [Scheduler.step] at ht
  split at ht
  · cases ht
  · split at ht
    · cases ht
    · cases ht
      exact ⟨_, rfl, ⟨hgood, h.waits⟩, ⟨rfl, rfl, rfl, fun _ => Iff.rfl⟩⟩

/-! ## A wait begins -/

section
variable {op : IoWaitOperation}

theorem slotOf_getD (s : Coroutine) (fd : Int) (d : WaitDirection) :
    s.table.slotOf fd d = ((s.fds fd).getD {}).slot d := by
  cases hc : s.fds fd with
  | none =>
    simp only [WaitTable.slotOf, table, hc]
    cases d <;> rfl
  | some c => exact slotOf_eq hc

/-- The operation takes its slot, which was free. -/
theorem armed_taken (h : Coherent options none [] s) (op : IoWaitOperation)
    (hfree : (((s.fds op.fd).getD {}).slot op.direction).isSome = false) :
    Waits.Armed s.table op false s.timerWheel
      (s.setFd op.fd (some (((s.fds op.fd).getD {}).setSlot (some s.operations.length)
        op.direction))).fds := by
  refine ⟨h.waits.wheel, fun _ => rfl, fun v => by simp [table], fun _ _ => rfl, by simp,
    fun fd d => ?_, ?_⟩
  · refine slotOf_setFd.trans ?_
    by_cases hfd : fd = op.fd
    · rw [if_pos hfd, hfd, slotOf_getD]
      cases d <;> cases hd : op.direction <;> simp [FdContext.slot, FdContext.setSlot, table]
    · rw [if_neg hfd, if_neg fun heq => hfd heq.1]
  · rw [slotOf_getD]
    exact isNone_iff_eq_none.mp (isSome_eq_false_iff.mp hfree)

/-- The operation enters the wheel, or the deadline is not after the last tick. -/
theorem addTimer_spec {fds : Int → Option FdContext} (h : Coherent options none [] s)
    (ha : Waits.Armed s.table op false s.timerWheel fds) {w : TimerWheel Nat}
    (hw : s.addTimer s.operations.length op = .ok w) :
    Waits.Armed s.table op op.deadlineMs.isSome w fds ∧ w.expired = s.timerWheel.expired := by
  obtain ⟨hoff, -⟩ := h.waits.fresh
  unfold addTimer at hw
  split at hw
  · rename_i d hd
    obtain ⟨w', hadd, hinv, hexp, hnode, hlinks⟩ := ha.inv.addAt (lt_of_addAt hw)
    obtain rfl := Except.ok.inj (hadd.symm.trans hw)
    rw [hd]
    refine ⟨⟨hinv, fun v => ?_, fun v => ?_, fun v hv => ?_, fun _ => ?_, ha.slots, ha.free⟩,
      hexp.trans (erase_of_not_mem fun hmem => hoff (ha.inv.linked_iff.mpr (.inr hmem)))⟩
    · exact (hlinks.type v).trans ((ha.inv.toRepresents.setDeadline _ _).2 v).2.2
    · rw [hlinks.linked, or_comm]
      simp [table]
    · rw [(hnode v).1]
      exact if_neg hv
    · rw [hd, (hnode _).1]
      exact congrArg some (if_pos rfl).symm
  · rename_i hd
    cases hw
    rw [hd]
    exact ⟨ha, rfl⟩

theorem contexts_untime (s : Coroutine) (k : Nat) (op : IoWaitOperation) :
    ((s.untime k op).fds, (s.untime k op).epollCtl) = (s.fds, s.epollCtl) := by
  unfold untime
  split <;> rfl

theorem rollback_eq {k : Nat} (hslot : s.table.slotOf op.fd op.direction = some k) :
    s.rollback k op = ((s.untime k op).detach k op).1 := by
  obtain ⟨c, hc, hcs⟩ := bind_eq_some_iff.mp hslot
  have hc' : (s.untime k op).fds op.fd = some c := by
    rw [(Prod.mk.inj (contexts_untime s k op)).1]
    exact hc
  simp only [rollback, detach, hc', hcs, if_true]

/-- `Register` fails, and takes back what it has done. -/
theorem rollback_spec {timed : Bool} {w : TimerWheel Nat} {fds : Int → Option FdContext}
    {ctl : List Bool} (h : Coherent options none [] s) (ha : Waits.Armed s.table op timed w fds)
    (htimed : timed = true → op.deadlineMs.isSome) (hexp : w.expired = [])
    (hctl : CtlSucceeds s.epollCtl → CtlSucceeds ctl) :
    ∃ w' fds' ctl', ({ s with timerWheel := w, fds := fds, epollCtl := ctl } : Coroutine).rollback
        s.operations.length op = { s with timerWheel := w', fds := fds', epollCtl := ctl' } ∧
      Waits.Undone s.table w' fds' ∧ w'.expired = [] ∧
      (CtlSucceeds s.epollCtl → CtlSucceeds ctl') := by
  obtain ⟨hoff, hnobody⟩ := h.waits.fresh
  have hslot : ({ s with timerWheel := w, fds := fds, epollCtl := ctl } : Coroutine).table.slotOf
      op.fd op.direction = some s.operations.length := (ha.slots _ _).trans (if_pos ⟨rfl, rfl⟩)
  rw [rollback_eq hslot]
  obtain ⟨w', hw', hinv, -, hexp', -, hlinks⟩ := untime_spec
    (s := { s with timerWheel := w, fds := fds, epollCtl := ctl }) (k := s.operations.length)
    op ha.inv fun hl => by
      rcases (ha.linked _).mp hl with hl | hl
      · exact absurd hl hoff
      · exact htimed hl.2
  obtain ⟨fds', ctl', b, hdetach, hslots, hctl', -⟩ := detach_slot
    (s := ({ s with timerWheel := w, fds := fds, epollCtl := ctl } : Coroutine).setWheel w')
    (k := s.operations.length) op fun fd d hk => by
      have hk' := (ha.slots fd d).symm.trans hk
      split at hk'
      · assumption
      · exact absurd hk' (hnobody fd d)
  have hgone : w'.expired = [] := by
    rw [hexp']
    exact (congrArg (List.erase · _) hexp).trans rfl
  rw [hw', hdetach]
  exact ⟨w', fds', ctl', rfl, h.waits.disarm ha hinv hlinks hslots, hgone,
    fun hs => (hctl' (hctl hs)).2⟩

/-- **`Register`** leaves everything as it was, or has a new operation in its places. -/
theorem register_spec (h : Coherent options none [] s) (hexp : s.timerWheel.expired = [])
    (op : IoWaitOperation) :
    (∃ w fds ctl, s.register op = ({ s with timerWheel := w, fds := fds, epollCtl := ctl }, false) ∧
      Waits.Undone s.table w fds ∧ w.expired = [] ∧
      (CtlSucceeds s.epollCtl → CtlSucceeds ctl)) ∨
    ∃ w fds ctl, s.register op = ({ s with
            timerWheel := w
            fds := fds
            operations := s.operations ++ [op]
            epollCtl := ctl }, true) ∧
      Waits.Armed s.table op op.deadlineMs.isSome w fds ∧ w.expired = [] ∧
      (CtlSucceeds s.epollCtl → CtlSucceeds ctl) := by
  unfold register
  dsimp only
  split
  · rename_i hfull
    refine .inl ⟨s.timerWheel, _, s.epollCtl, rfl, ⟨h.waits.wheel, fun _ => rfl, fun _ => Iff.rfl,
      fun _ _ => rfl, fun fd d => slotOf_setFd.trans ?_⟩, hexp, id⟩
    split
    · rename_i hfd
      rw [hfd, slotOf_getD]
      rfl
    · rfl
  · rename_i hfree
    have ha := armed_taken h op (Bool.eq_false_iff.mpr hfree)
    split
    · obtain ⟨w, fds, ctl, heq, hundone⟩ := rollback_spec h ha (by simp) hexp id
      exact .inl ⟨w, fds, ctl, congrArg (·, false) heq, hundone⟩
    · rename_i w hw
      obtain ⟨harmed, hexp'⟩ := addTimer_spec h ha hw
      obtain ⟨fds, ctl, b, hupdate, hslots, hctl⟩ := updateInterest_spec ((s.setFd op.fd (some
        (((s.fds op.fd).getD {}).setSlot (some s.operations.length) op.direction))).setWheel w) op.fd
      have harmed' : Waits.Armed s.table op op.deadlineMs.isSome w fds :=
        { harmed with slots := fun fd d => (hslots fd d).trans (harmed.slots fd d) }
      rw [hupdate]
      cases b with
      | false =>
        obtain ⟨w', fds', ctl', heq, hundone⟩ :=
          rollback_spec h harmed' id (hexp'.trans hexp) fun hs => (hctl hs).2
        exact .inl ⟨w', fds', ctl', congrArg (·, false) heq, hundone⟩
      | true => exact .inr ⟨w, fds, ctl, rfl, harmed', hexp'.trans hexp, fun hs => (hctl hs).2⟩

theorem await_spec (h : Coherent options none [] s) (hexp : s.timerWheel.expired = []) {fd : Int}
    {direction : WaitDirection} {timeoutMs nowMs : Nat}
    (hs : s.await options fd direction timeoutMs nowMs sp = some s') :
    Kept options s s' ∧ SameLife s s' := by
  unfold await at hs
  split at hs
  · cases hs
  rename_i r hcur
  split at hs
  · cases hs
    exact ⟨.refl h hexp, .refl s⟩
  dsimp only at hs
  generalize hop : (⟨r, fd, direction, if timeoutMs = kNoTimeout then none
    else some (deadlineAfter nowMs timeoutMs), .error, []⟩ : IoWaitOperation) = op at hs
  have hroutine : op.routine = r := hop ▸ rfl
  have hnew : op.completions = [] := hop ▸ rfl
  rcases register_spec h hexp op with ⟨w, fds, ctl, ht, hu, hw, hctl⟩ | ⟨w, fds, ctl, ht, ha, hw, hctl⟩
  · rw [ht] at hs
    cases hs
    exact ⟨⟨⟨h.good, h.waits.undo hu⟩, hw, fun hs => ⟨hctl hs.ctl, hs.stranded⟩, .refl _⟩,
      ⟨rfl, rfl, rfl, fun _ => Iff.rfl⟩⟩
  · rw [ht] at hs
    obtain ⟨t, q, rfl, hgood, hq, hrun, hstates, hlife⟩ := suspend_spec hs h.good
    cases hcur.symm.trans hq
    refine ⟨⟨⟨hgood, ?_⟩, hw, fun hs => ⟨hctl hs.ctl, hs.stranded⟩, .append _ _⟩, { hlife with }⟩
    subst hroutine
    exact h.waits.begin hnew hrun ha hstates

end

/-! ## Waiting for a time -/

theorem Coherent.setDeadline (h : Coherent options none [] s)
    (hoff : ¬ s.timerWheel.Linked (routineNode r)) (d : Nat) :
    Coherent options none [] (s.setWheel (s.timerWheel.setDeadline (routineNode r) d)) := by
  have hwheel : s.timerWheel.Inv := h.waits.wheel
  obtain ⟨-, hkeep⟩ := hwheel.toRepresents.setDeadline (routineNode r) d
  refine ⟨h.good, h.waits.rewheel (hwheel.setDeadline hoff d) (fun v => (hkeep v).2.2) (fun v => ?_)
    (fun v hv => ?_) (by simp)⟩
  · refine or_congr_left ?_
    exact not_congr (Eq.congr_left (hkeep v).1)
  · have hne : v ≠ routineNode r := by
      rintro rfl
      exact hv.elim hoff (by simp)
    exact congrArg TimerNode.deadlineMs (node_setDeadline.trans (if_neg hne))

theorem yieldFor_spec (h : Coherent options none [] s) (hexp : s.timerWheel.expired = [])
    {milliseconds nowMs : Nat} (hs : s.yieldFor options milliseconds nowMs sp = some s') :
    Kept options s s' ∧ SameLife s s' := by
  unfold yieldFor at hs
  split at hs
  · cases hs
  rename_i r hcur
  dsimp only at hs
  split at hs
  · cases hs
    exact ⟨.refl h hexp, .refl s⟩
  split at hs
  · cases hs
  rename_i hidle
  have hoff : ¬ s.timerWheel.Linked (routineNode r) := fun hl => hidle (.inr hl)
  split at hs
  · cases hs
    exact ⟨⟨h.setDeadline hoff _, hexp, fun hs => ⟨hs.ctl, hs.stranded⟩, .refl _⟩,
      ⟨rfl, rfl, rfl, fun _ => Iff.rfl⟩⟩
  · rename_i w hw
    have hwheel : s.timerWheel.Inv := h.waits.wheel
    obtain ⟨w', hadd, hinv, hexp', hnode, hlinks⟩ := hwheel.addAt (lt_of_addAt hw)
    obtain rfl := Except.ok.inj (hadd.symm.trans hw)
    obtain ⟨t, q, rfl, hgood, hq, hrun, hstates, hlife⟩ := suspend_spec hs h.good
    cases hcur.symm.trans hq
    refine ⟨⟨⟨hgood, ?_⟩, ?_, fun hs => ⟨hs.ctl, hs.stranded⟩, .refl _⟩, { hlife with }⟩
    · refine h.waits.retime (r := r) hinv (fun v => ?_) (fun v hv => ⟨?_, ?_⟩) ?_ (by simp)
        (fun q hq => (hstates q).trans (if_neg hq)) ?_ ?_
      · exact (hlinks.type v).trans ((hwheel.toRepresents.setDeadline _ _).2 v).2.2
      · refine or_congr_left ((hlinks.linked v).trans ?_)
        simp [hv, table]
      · exact (hnode v).1.trans (if_neg hv)
      · refine iff_of_true (.inl ((hlinks.linked _).mpr (.inl rfl))) ?_
        exact (hstates r).trans (if_pos rfl)
      · exact fun heq => by cases hrun.symm.trans heq
      · exact fun heq => absurd ((hstates r).symm.trans heq) (by simp)
    · exact hexp'.trans ((congrArg (List.erase · _) hexp).trans rfl)

theorem prepareTimerResume_spec (h : Coherent options none [] s) (hexp : s.timerWheel.expired = [])
    (hs : s.prepareTimerResume options r = some s') :
    Kept options s s' ∧ SameLife s s' ∧ s.state r = some .waitTimer ∧ s'.state r = some .ready := by
  obtain ⟨t, ht, rfl⟩ := act_eq_some.mp hs
  have hgood := good_step h.good ht
  simp only [Scheduler.step] at ht
  split at ht
  · rename_i x hx
    split at ht
    · rename_i hwait
      cases ht
      have hr : s.state r = some .waitTimer := by
        change s.scheduler.routines[r]? = some x at hx
        rw [state, control_state, hx, map_some, hwait]
      have hwheel : s.timerWheel.Inv := h.waits.wheel
      obtain ⟨-, -, hexp', -⟩ := remove_spec hwheel.toRepresents (routineNode r)
      have hlinks := relinked_remove hwheel.toRepresents (routineNode r)
      have hstates : ∀ q, (s.scheduler.setRoutine r fun x => { x with state := .ready }).control.state
          q = if q = r then some .ready else s.state q := by
        intro q
        rw [control_setState, Control.state_setState hr]
        rfl
      have hlife := sameLife_of_states hstates hr (by decide) (by decide)
      refine ⟨⟨⟨hgood, ?_⟩, ?_, fun hs => ⟨hs.ctl, hs.stranded⟩, .refl _⟩, { hlife with }, hr,
        (hstates r).trans (if_pos rfl)⟩
      · refine h.waits.retime (r := r) (hwheel.remove _) hlinks.type
          (fun v hv => ⟨or_congr_left ?_, hlinks.deadlineMs v⟩) ?_ (by simp)
          (fun q hq => (hstates q).trans (if_neg hq)) ?_ ?_
        · refine (hlinks.linked v).trans ?_
          simp [hv, table]
        · refine iff_of_false ?_ fun heq => absurd ((hstates r).symm.trans heq) (by simp)
          rintro (hl | hl)
          · exact ((hlinks.linked _).mp hl).1 rfl
          · cases hl
        · exact fun heq => by cases hr.symm.trans heq
        · exact fun heq => absurd ((hstates r).symm.trans heq) (by simp)
      · exact hexp'.trans ((congrArg (List.erase · _) hexp).trans rfl)
    · cases ht
  · cases ht

/-! ## Routines start and end -/

/-- A routine gets control, or is made ready, for the first time. -/
structure Begins (s s' : Coroutine) (r : Nat) : Prop where
  onFinish : s'.onFinish = s.onFinish
  fresh : s.state r = some .init
  alive : ∀ q, s'.Alive q ↔ q = r ∨ s.Alive q

theorem begins_of_states {t : Scheduler} {next : CoroutineState} (hr : s.state r = some .init)
    (ht : ∀ q, t.control.state q = if q = r then some next else s.state q)
    (hnext : next ≠ .init ∧ next ≠ .finished) : Begins s { s with scheduler := t } r := by
  refine ⟨rfl, hr, fun q => (alive_iff ht).trans ?_⟩
  split
  · rename_i hq
    exact iff_of_true hnext (.inl hq)
  · rename_i hq
    simp [hq]

/-- `Resume` of the scheduler, for a routine of any age. -/
theorem act_resume_life (h : Coherent options none [] s) (hexp : s.timerWheel.expired = [])
    (hs : s.act options (.resume r sp) = some s') :
    Kept options s s' ∧ s'.liveRoutineCount = s.liveRoutineCount ∧ s'.started = s.started ∧
      (SameLife s s' ∧ s.state r ≠ some .init ∨ Begins s s' r) := by
  obtain ⟨t, old, rfl, hcoherent, hr, hold, hstates⟩ := act_resume_spec h hs
  refine ⟨hcoherent.kept hexp, rfl, rfl, ?_⟩
  by_cases hinit : old = .init
  · rw [hinit] at hr
    exact .inr (begins_of_states hr hstates (by decide))
  · refine .inl ⟨sameLife_of_states hstates hr ⟨hinit, ?_⟩ (by decide), ?_⟩
    · rcases hold with heq | heq | heq <;> rw [heq] <;> decide
    · rw [hr]
      exact fun heq => hinit (some.inj heq)

/-- `Coroutine::Resume` counts the routine if this is its first start. -/
theorem resume_spec (h : Coherent options none [] s) (hexp : s.timerWheel.expired = [])
    (hs : s.resume options r sp = some s') :
    Kept options s s' ∧
      (SameLife s s' ∨ Begins s s' r ∧ s'.liveRoutineCount = s.liveRoutineCount + 1 ∧
        s'.started = r :: s.started) := by
  unfold resume at hs
  split at hs
  · cases hs
  rename_i x hx
  have hr : s.state r = some x.state := by
    rw [state, control_state, hx, map_some]
  split at hs
  · cases hs
    exact ⟨.refl h hexp, .inl (.refl s)⟩
  obtain ⟨t, ht, hs⟩ := bind_eq_some_iff.mp hs
  obtain ⟨u, hu, rfl⟩ := map_eq_some_iff.mp hs
  split at ht
  · rename_i htimer
    obtain ⟨hprepared, hlife, -, hready⟩ := prepareTimerResume_spec h hexp ht
    obtain ⟨hkept, -, -, hsame | hbegins⟩ :=
      act_resume_life hprepared.coherent hprepared.expired hu
    · rw [if_neg (by rw [htimer]; decide)]
      exact ⟨⟨hkept.coherent, hkept.expired, fun hs => hkept.smooth (hprepared.smooth hs),
        hprepared.history.trans hkept.history⟩,
        .inl (hlife.trans hsame.1)⟩
    · cases hready.symm.trans hbegins.fresh
  · cases ht
    obtain ⟨hkept, hcount, hstarted, ⟨hsame, hne⟩ | hbegins⟩ := act_resume_life h hexp hu
    · rw [if_neg fun hinit => hne (hr.trans (congrArg some hinit))]
      exact ⟨hkept, .inl hsame⟩
    · rw [if_pos (some.inj (hr.symm.trans hbegins.fresh))]
      exact ⟨⟨⟨hkept.coherent.good, hkept.coherent.waits⟩, hkept.expired, fun hs =>
        { hkept.smooth hs with }, hkept.history⟩,
        .inr ⟨{ hbegins with }, congrArg (· + 1) hcount, congrArg (r :: ·) hstarted⟩⟩

/-- Routine `r`, which was not alive, is one that has not started yet. -/
structure Created (s s' : Coroutine) (r : Nat) (onFinish : Bool) : Prop where
  onFinish : s'.onFinish = update s.onFinish r onFinish
  count : s'.liveRoutineCount = s.liveRoutineCount
  started : s'.started = s.started
  idle : ¬ s.Alive r
  fresh : s'.state r = some .init
  alive : ∀ q, s'.Alive q ↔ s.Alive q

section
variable (h : Coherent options none [] s) (hexp : s.timerWheel.expired = [])
include h hexp

theorem schedulerCreate_spec {stackSize : Nat} {hpos : 0 < stackSize} {held : List Nat}
    (hs : s.schedulerCreate options stackSize hpos held = some (s', r)) :
    Kept options s s' ∧ Created s s' r false := by
  unfold schedulerCreate at hs
  split at hs
  · cases hs
  rename_i t q hcreate
  obtain ⟨s₁, hreset, heq⟩ := map_eq_some_iff.mp hs
  obtain ⟨rfl, rfl⟩ := Prod.mk.inj heq
  have hgood : Scheduler.Good options.scheduler t :=
    good_step (l := .create stackSize (s.unreferenced held)) h.good
      (by simp [Scheduler.step, hpos, hcreate])
  obtain ⟨-, hold, hstates⟩ := Scheduler.create_state h.good.control hcreate
  have hsched : Coherent options none [] { s with scheduler := t } :=
    h.reschedule hgood hstates (fun st hst => by
      rcases hold with hnone | hfin
      · cases hnone.symm.trans hst
      · cases hfin.symm.trans hst
        decide) (by decide)
  unfold reset at hreset
  dsimp only at hreset
  split at hreset
  · cases hreset
  rename_i hidle
  cases hreset
  have hdeadline := hsched.setDeadline (r := q) (fun hl => hidle (.inr hl)) 0
  -- a routine that does not wait has no operation
  have hnone : update s.ioWait q none = s.ioWait := by
    refine update_eq_self_iff.mpr ?_
    cases hio : s.ioWait q with
    | none => rfl
    | some k =>
      have hwait := (h.waits.waiter q k hio).1
      rcases hold with hold | hold <;> cases hold.symm.trans hwait
  have hidle' : ¬ s.Alive q := by
    unfold Alive
    rcases hold with hold | hold <;> simp [state, hold]
  refine ⟨⟨⟨hgood, ?_⟩, hexp, fun hs => ⟨hs.ctl, hs.stranded⟩, .refl _⟩, rfl, rfl, rfl, hidle',
    (hstates q).trans (if_pos rfl), fun p => (alive_iff hstates).trans ?_⟩
  · change Waits none [] _ ⟨_, s.fds, s.operations, update s.ioWait q none, s.stranded⟩
    rw [hnone]
    exact hdeadline.waits
  · split
    · rename_i hp
      rw [hp]
      exact iff_of_false (by simp) hidle'
    · rfl

theorem createCo_spec {held : List Nat} (hs : s.createCo options held = some (s', r)) :
    Kept options s s' ∧ Created s s' r true := by
  obtain ⟨⟨t, q⟩, hcreate, heq⟩ := map_eq_some_iff.mp hs
  cases heq
  obtain ⟨hkept, hcreated⟩ := schedulerCreate_spec h hexp hcreate
  refine ⟨⟨⟨hkept.coherent.good, hkept.coherent.waits⟩, hkept.expired, fun hs =>
    { hkept.smooth hs with }, hkept.history⟩, { hcreated with onFinish := ?_ }⟩
  rw [hcreated.onFinish, update_idem]

theorem publish_spec (hr : s.state r = some .init) :
    Kept options s (s.publish r) ∧ Begins s (s.publish r) r ∧
      (s.publish r).liveRoutineCount = s.liveRoutineCount ∧ (s.publish r).started = s.started := by
  have hgood := good_wake h.good hr (by decide) (by decide) (by decide)
  have hstates := (wake_state h.good.control hr (by decide) (by decide) (by decide)).2
  have hcoherent : Coherent options none [] (s.publish r) :=
    h.reschedule hgood hstates (fun st hst => by
      cases hr.symm.trans hst
      decide) (by decide)
  exact ⟨hcoherent.kept hexp, begins_of_states hr hstates (by decide), rfl, rfl⟩

end

/-- The routine that runs finishes; its `on_finish`, if it has one, counts it off. -/
structure Ends (s s' : Coroutine) (r : Nat) : Prop where
  current : s.state r = some .running
  onFinish : s'.onFinish = s.onFinish
  counted : s.onFinish r = true → s.liveRoutineCount ≠ 0
  count : s'.liveRoutineCount =
    if s.onFinish r then s.liveRoutineCount - 1 else s.liveRoutineCount
  started : s'.started = s.started.erase r
  alive : ∀ q, s'.Alive q ↔ q ≠ r ∧ s.Alive q

theorem finish_spec (h : Coherent options none [] s) (hexp : s.timerWheel.expired = [])
    (hs : s.finish options sp = some s') : Kept options s s' ∧ ∃ r, Ends s s' r := by
  unfold finish at hs
  split at hs
  · cases hs
  rename_i r hcur
  split at hs
  · cases hs
  rename_i hcount
  obtain ⟨u, hu, rfl⟩ := map_eq_some_iff.mp hs
  obtain ⟨t, ht, rfl⟩ := act_eq_some.mp hu
  have hgood := good_step h.good ht
  simp only [Scheduler.step] at ht
  split at ht
  · obtain ⟨-, q, hq, hrun, hstates⟩ := Scheduler.yieldCurrent_state h.good.inv h.good.control
      (eq_ok_of_toOption ht) (by decide) (by decide)
    cases hcur.symm.trans hq
    have hcoherent := h.reschedule hgood hstates (fun st hst => by
      cases hrun.symm.trans hst
      decide) (by decide)
    refine ⟨⟨⟨hgood, hcoherent.waits⟩, hexp, fun hs => ⟨hs.ctl, hs.stranded⟩, .refl _⟩, r, hrun, rfl,
      fun hon hzero => hcount (.inl ⟨hon, hzero⟩), rfl, rfl, fun q => (alive_iff hstates).trans ?_⟩
    split
    · rename_i heq
      simp [heq]
    · rename_i hne
      simp [hne]
  · cases ht

/-! ## Steps -/

theorem act_yield_spec (hs : s.act options (.suspend .waitEvent sp) = some s')
    (h : Coherent options none [] s) (hexp : s.timerWheel.expired = []) :
    Kept options s s' ∧ SameLife s s' := by
  obtain ⟨t, r, rfl, hgood, -, hrun, hstates, hlife⟩ := suspend_spec hs h.good
  refine ⟨Coherent.kept (h.reschedule hgood hstates (fun st hst => ?_) (by decide)) hexp, hlife⟩
  cases hrun.symm.trans hst
  decide

theorem yieldUntilFlush_spec (h : Coherent options none [] s) (hexp : s.timerWheel.expired = [])
    (hs : s.yieldUntilFlush options sp = some s') : Kept options s s' ∧ SameLife s s' := by
  unfold yieldUntilFlush at hs
  split at hs
  · cases hs
  split at hs
  · cases hs
  obtain ⟨hkept, hlife⟩ := act_yield_spec hs ⟨h.good, h.waits⟩ hexp
  exact ⟨{ hkept with smooth := fun hs => hkept.smooth ⟨hs.ctl, hs.stranded⟩ }, { hlife with }⟩

/-- What a step does to the lives of the routines. -/
inductive Life (s : Coroutine) (op : CoroutineOp) (s' : Coroutine) : Prop where
  | same (h : SameLife s s')
  | created {r : Nat} {b : Bool} (h : Created s s' r b)
  | spawned {t : Coroutine} {r : Nat} {b : Bool} (h : Created s t r b) (h' : Begins t s' r)
      (hcount : s'.liveRoutineCount = s.liveRoutineCount + b.toNat)
      (hstarted : s'.started = if b then r :: s.started else s.started)
  | resumed {r sp : Nat} (hop : op = .resume r sp) (h : Begins s s' r)
      (hcount : s'.liveRoutineCount = s.liveRoutineCount + 1) (hstarted : s'.started = r :: s.started)
  | schedulerResumed {r sp : Nat} (hop : op = .schedulerResume r sp) (h : Begins s s' r)
      (hcount : s'.liveRoutineCount = s.liveRoutineCount) (hstarted : s'.started = s.started)
  | ended {r : Nat} (h : Ends s s' r)

structure Stepped (options : CoroutineOptions) (s : Coroutine) (op : CoroutineOp) (s' : Coroutine) :
    Prop where
  coherent : Coherent options none [] s'
  smooth : Smooth s → (∀ outcomes, op = .epollCtl outcomes → CtlSucceeds outcomes) →
    Smooth s' ∧ s'.timerWheel.expired = []
  history : Extends s.operations s'.operations
  life : Life s op s'

variable {op : CoroutineOp}

theorem Kept.stepped (h : Kept options s s') (hlife : Life s op s') :
    Stepped options s op s' ∧ (s'.timerWheel.expired = [] ∨ ∃ events nowMs,
      op = .poll events nowMs) :=
  ⟨⟨h.coherent, fun hs _ => ⟨h.smooth hs, h.expired⟩, h.history, hlife⟩, .inl h.expired⟩

theorem spawn_spec {b : Bool} {t : Coroutine} (hkept : Kept options s t)
    (hcreated : Created s t r b) (hs : s' = (if b then t.account r else t).publish r) :
    Stepped options s op s' ∧
      (s'.timerWheel.expired = [] ∨ ∃ events nowMs, op = .poll events nowMs) := by
  subst hs
  cases b with
  | false =>
    obtain ⟨hkept', hbegins, hcount, hstarted⟩ :=
      publish_spec hkept.coherent hkept.expired hcreated.fresh
    exact Kept.stepped ⟨hkept'.coherent, hkept'.expired, fun hs => hkept'.smooth (hkept.smooth hs),
      hkept.history.trans hkept'.history⟩
      (.spawned hcreated hbegins (hcount.trans hcreated.count) (hstarted.trans hcreated.started))
  | true =>
    have hcoherent : Coherent options none [] (t.account r) :=
      ⟨hkept.coherent.good, hkept.coherent.waits⟩
    obtain ⟨hkept', hbegins, hcount, hstarted⟩ :=
      publish_spec hcoherent hkept.expired hcreated.fresh
    refine Kept.stepped ⟨hkept'.coherent, hkept'.expired, fun hs => hkept'.smooth
      { hkept.smooth hs with }, hkept.history.trans hkept'.history⟩
      (.spawned hcreated { hbegins with } (hcount.trans ?_) (hstarted.trans ?_))
    · exact congrArg (· + 1) hcreated.count
    · exact congrArg (r :: ·) hcreated.started

/-- Every step keeps the tables coherent, and only `Poll` may leave expired timers behind. -/
theorem step_cases (h : Coherent options none [] s) (hs : s.step options op = some s') :
    Stepped options s op s' ∧
      (s'.timerWheel.expired = [] ∨ ∃ events nowMs, op = .poll events nowMs) := by
  unfold step at hs
  split at hs
  · cases hs
  rename_i hempty
  have hexp : s.timerWheel.expired = [] := not_not.mp hempty
  cases op with
  | createCo held =>
    obtain ⟨⟨t, r⟩, hcreate, rfl⟩ := map_eq_some_iff.mp hs
    obtain ⟨hkept, hcreated⟩ := createCo_spec h hexp hcreate
    exact hkept.stepped (.created hcreated)
  | spawn held =>
    obtain ⟨⟨t, r⟩, hcreate, rfl⟩ := map_eq_some_iff.mp hs
    obtain ⟨hkept, hcreated⟩ := createCo_spec h hexp hcreate
    exact spawn_spec hkept hcreated rfl
  | resume r sp =>
    obtain ⟨hkept, hsame | ⟨hbegins, hcount, hstarted⟩⟩ := resume_spec h hexp hs
    · exact hkept.stepped (.same hsame)
    · exact hkept.stepped (.resumed rfl hbegins hcount hstarted)
  | schedulerCreate stackSize held =>
    dsimp only at hs
    split at hs
    · obtain ⟨⟨t, r⟩, hcreate, rfl⟩ := map_eq_some_iff.mp hs
      obtain ⟨hkept, hcreated⟩ := schedulerCreate_spec h hexp hcreate
      exact hkept.stepped (.created hcreated)
    · cases hs
  | schedulerSpawn stackSize held =>
    dsimp only at hs
    split at hs
    · obtain ⟨⟨t, r⟩, hcreate, rfl⟩ := map_eq_some_iff.mp hs
      obtain ⟨hkept, hcreated⟩ := schedulerCreate_spec h hexp hcreate
      exact spawn_spec hkept hcreated rfl
    · cases hs
  | schedulerResume r sp =>
    obtain ⟨hkept, hcount, hstarted, hsame | hbegins⟩ := act_resume_life h hexp hs
    · exact hkept.stepped (.same hsame.1)
    · exact hkept.stepped (.schedulerResumed rfl hbegins hcount hstarted)
  | runReady =>
    dsimp only at hs
    split at hs
    · obtain ⟨t, rfl, hcoherent, hlife⟩ := act_runReady_spec h hs
      exact (hcoherent.kept hexp).stepped (.same hlife)
    · cases hs
  | yield sp =>
    obtain ⟨hkept, hlife⟩ := act_yield_spec hs h hexp
    exact hkept.stepped (.same hlife)
  | yieldFor milliseconds nowMs sp =>
    obtain ⟨hkept, hlife⟩ := yieldFor_spec h hexp hs
    exact hkept.stepped (.same hlife)
  | yieldUntilFlush sp =>
    obtain ⟨hkept, hlife⟩ := yieldUntilFlush_spec h hexp hs
    exact hkept.stepped (.same hlife)
  | await fd direction timeoutMs nowMs sp =>
    obtain ⟨hkept, hlife⟩ := await_spec h hexp hs
    exact hkept.stepped (.same hlife)
  | scheduleAtFlush r =>
    cases hs
    unfold scheduleAtFlush
    split
    · exact Kept.stepped ⟨⟨h.good, h.waits⟩, hexp, fun hs => ⟨hs.ctl, hs.stranded⟩, .refl _⟩
        (.same ⟨rfl, rfl, rfl, fun _ => Iff.rfl⟩)
    · exact Kept.stepped (.refl h hexp) (.same (.refl s))
  | cancelWait r =>
    cases hs
    have hserved := cancelWait_spec h r
    exact (hserved.kept hexp).stepped (.same hserved.life)
  | cancelFd fd =>
    cases hs
    have hserved := (cancelFd_spec h fd).1
    exact (hserved.kept hexp).stepped (.same hserved.life)
  | poll events nowMs =>
    cases hs
    obtain ⟨hcoherent, hlife, hhistory, hsmooth⟩ := poll_spec h hexp events nowMs
    exact ⟨⟨hcoherent, fun hs _ => ⟨(hsmooth hs).1, (hsmooth hs).2.1⟩, hhistory, .same hlife⟩,
      .inr ⟨events, nowMs, rfl⟩⟩
  | finish sp =>
    obtain ⟨hkept, r, hends⟩ := finish_spec h hexp hs
    exact hkept.stepped (.ended hends)
  | poke address byte =>
    obtain ⟨t, rfl, hcoherent, hlife⟩ := act_poke_spec h hs
    exact (hcoherent.kept hexp).stepped (.same hlife)
  | epollCtl outcomes =>
    cases hs
    exact ⟨⟨⟨h.good, h.waits⟩, fun hs hctl => ⟨⟨hctl outcomes rfl, hs.stranded⟩, hexp⟩,
      .refl _, .same ⟨rfl, rfl, rfl, fun _ => Iff.rfl⟩⟩, .inl hexp⟩

theorem step_spec (h : Coherent options none [] s) (hs : s.step options op = some s') :
    Stepped options s op s' :=
  (step_cases h hs).1

/-! ## Who touches the descriptors, and who strands a waiter -/

/-- What epoll has been told, and who waits in vain. -/
def io (s : Coroutine) : (Int → Option FdContext) × List Bool × List Nat :=
  (s.fds, s.epollCtl, s.stranded)

/-- The operations that work on descriptors. -/
def touchesIo : CoroutineOp → Bool
  | .await .. | .cancelWait _ | .cancelFd _ | .poll .. | .epollCtl _ => true
  | _ => false

theorem io_act {l : Label} (hs : s.act options l = some s') : s'.io = s.io := by
  obtain ⟨t, -, rfl⟩ := act_eq_some.mp hs
  rfl

theorem io_makeReady (options : CoroutineOptions) (s : Coroutine) (r : Nat) :
    (s.makeReady options r).io = s.io := by
  obtain ⟨t, ht⟩ := makeReady_eq options s r
  rw [ht]
  rfl

theorem io_schedulerCreate {stackSize : Nat} {hpos : 0 < stackSize} {held : List Nat}
    (hs : s.schedulerCreate options stackSize hpos held = some (s', r)) : s'.io = s.io := by
  unfold schedulerCreate at hs
  split at hs
  · cases hs
  obtain ⟨t, ht, heq⟩ := map_eq_some_iff.mp hs
  obtain ⟨rfl, -⟩ := Prod.mk.inj heq
  unfold reset at ht
  dsimp only at ht
  split at ht
  · cases ht
  · cases ht
    rfl

theorem io_step (hs : s.step options op = some s') (hop : touchesIo op = false) : s'.io = s.io := by
  unfold step at hs
  split at hs
  · cases hs
  cases op with
  | createCo held | spawn held =>
    obtain ⟨⟨t, r⟩, hcreate, rfl⟩ := map_eq_some_iff.mp hs
    obtain ⟨⟨u, q⟩, hu, heq⟩ := map_eq_some_iff.mp hcreate
    cases heq
    exact (io_schedulerCreate hu :)
  | schedulerCreate stackSize held | schedulerSpawn stackSize held =>
    dsimp only at hs
    split at hs
    · obtain ⟨⟨t, r⟩, hcreate, rfl⟩ := map_eq_some_iff.mp hs
      exact (io_schedulerCreate hcreate :)
    · cases hs
  | resume r sp =>
    simp only [resume] at hs
    split at hs
    · cases hs
    split at hs
    · cases hs
      rfl
    obtain ⟨t, ht, hs⟩ := bind_eq_some_iff.mp hs
    obtain ⟨u, hu, rfl⟩ := map_eq_some_iff.mp hs
    have hprepared : t.io = s.io := by
      split at ht
      · exact (io_act ht).trans rfl
      · cases ht
        rfl
    have hu := (io_act hu).trans hprepared
    split <;> exact hu
  | schedulerResume r sp | yield sp | poke address byte => exact io_act hs
  | runReady =>
    dsimp only at hs
    split at hs
    · exact io_act hs
    · cases hs
  | yieldFor milliseconds nowMs sp =>
    simp only [yieldFor] at hs
    split at hs
    · cases hs
    split at hs
    · cases hs
      rfl
    split at hs
    · cases hs
    split at hs
    · cases hs
      rfl
    · exact (io_act hs).trans rfl
  | yieldUntilFlush sp =>
    simp only [yieldUntilFlush] at hs
    split at hs
    · cases hs
    split at hs
    · cases hs
    · exact (io_act hs).trans rfl
  | scheduleAtFlush r =>
    cases hs
    unfold scheduleAtFlush
    split <;> rfl
  | finish sp =>
    simp only [finish] at hs
    split at hs
    · cases hs
    split at hs
    · cases hs
    · obtain ⟨u, hu, rfl⟩ := map_eq_some_iff.mp hs
      exact (io_act hu).trans rfl
  | _ => cases hop

theorem stranded_detach {k : Nat} {op : IoWaitOperation} :
    (s.detach k op).1.stranded = s.stranded := by
  unfold detach
  split
  · split
    · obtain ⟨fds, ctl, b, heq, -⟩ := updateInterest_spec
        (s.setFd op.fd (some (‹FdContext›.setSlot none op.direction))) op.fd
      rw [heq]
      rfl
    · rfl
  · rfl

theorem stranded_completeWait {k : Nat} {result : WaitResult} {reading : Option Nat} {t : Coroutine}
    (hs : s.completeWait options k result reading = (t, true)) (hnone : s.stranded = []) :
    t.stranded = [] := by
  unfold completeWait at hs
  split at hs
  · cases hs
    exact hnone
  rename_i op hop
  dsimp only at hs
  have hdetach := @stranded_detach
    ((s.setOperation k fun op => { op with result := result }).untime k op) k op
  have huntime : ((s.setOperation k fun op => { op with result := result }).untime k op).stranded =
      [] := by
    unfold untime
    split <;> exact hnone
  split at hs
  · exact absurd (Prod.mk.inj hs).2 (by simp)
  · rename_i u hu
    rw [hu, huntime] at hdetach
    cases hs
    rw [show ∀ v : Coroutine, v.stranded = v.io.2.2 from fun _ => rfl, io_makeReady]
    split <;> simp [io, setOperation, setIoWait, show u.stranded = [] from hdetach]

theorem stranded_cancelFd (h : Coherent options none [] s) (hnone : s.stranded = []) (fd : Int) :
    (s.cancelFd options fd).1.stranded = [] := by
  have hslot : ∀ {u t : Coroutine} {slot : Option Nat}, u.cancelSlot options slot = (t, true) →
      u.stranded = [] → t.stranded = [] := by
    intro u t slot hs hu
    cases slot with
    | none =>
      cases hs
      exact hu
    | some k => exact stranded_completeWait hs hu
  have hreturns := (cancelFd_spec h fd).2
  unfold cancelFd at hreturns ⊢
  split
  · exact hnone
  · rename_i c hc
    simp only [hc] at hreturns ⊢
    have hempty : (if c.registered then s.deregister fd { c with read := none, write := none }
        else s.setFd fd (some { c with read := none, write := none })).stranded = [] := by
      split <;> exact hnone
    split at hreturns
    · cases hreturns
    · rename_i s₂ hread
      split at hreturns
      · cases hreturns
      · rename_i s₃ hwrite
        have hended : s₃.stranded = [] := hslot hwrite (hslot hread hempty)
        exact hended

/-- Only a completion whose `epoll_ctl` fails strands its waiter, and `CancelFd`, which empties the
    slots first, makes no such call. -/
theorem stranded_step (h : Coherent options none [] s) (hs : s.step options op = some s')
    (hnone : s.stranded = []) (hpoll : ∀ events nowMs, op ≠ .poll events nowMs)
    (hcancel : ∀ r, op ≠ .cancelWait r) : s'.stranded = [] := by
  cases hop : touchesIo op with
  | false => exact (congrArg (·.2.2) (io_step hs hop)).trans hnone
  | true =>
    unfold step at hs
    split at hs
    · cases hs
    rename_i hempty
    cases op with
    | await fd direction timeoutMs nowMs sp =>
      simp only [await] at hs
      split at hs
      · cases hs
      split at hs
      · cases hs
        exact hnone
      rename_i r _ _
      rcases register_spec h (not_not.mp hempty) (⟨r, fd, direction, if timeoutMs = kNoTimeout
        then none else some (deadlineAfter nowMs timeoutMs), .error, []⟩) with ⟨w, fds, ctl, ht, -⟩ |
          ⟨w, fds, ctl, ht, -⟩
      · rw [ht] at hs
        cases hs
        exact hnone
      · rw [ht] at hs
        exact (congrArg (·.2.2) (io_act hs)).trans hnone
    | cancelWait r => exact absurd rfl (hcancel r)
    | cancelFd fd =>
      cases hs
      exact stranded_cancelFd h hnone fd
    | poll events nowMs => exact absurd rfl (hpoll events nowMs)
    | epollCtl outcomes =>
      cases hs
      exact hnone
    | _ => cases hop

theorem coherent_init {nowMs : Nat} (hs : init options nowMs = .ok s) :
    Coherent options none [] s ∧ Smooth s ∧ s.timerWheel.expired = [] := by
  unfold init at hs
  split at hs
  · cases hs
  rename_i w hw
  split at hs
  · cases hs
  cases hs
  have hinv : w.Inv := inv_make (fun v => by unfold nodeType; split <;> decide) hw
  have hstate : ∀ r st, (Scheduler.init options.scheduler).control.state r = some st → st = .finished :=
    fun r st hst => Scheduler.state_init _ hst
  unfold TimerWheel.make at hw
  split at hw
  · cases hw
  cases hw
  refine ⟨⟨good_init _, hinv, fun v => rfl, by simp, fun r => ?_, by simp [table],
    fun r hr => ?_, by simp [table, WaitTable.slotOf], fun k hk => ?_, by simp [table],
    by simp [table]⟩, ⟨fun b hb => absurd hb (by simp), rfl⟩, rfl⟩
  · exact iff_of_false (by simp [Tracked, table, TimerWheel.Linked]) fun hr =>
      by cases hstate r _ hr
  · cases hstate r _ hr
  · exact absurd hk (by simp [Tracked, table, TimerWheel.Linked])

/-! ## Runs -/

/-- The tables are coherent in every state of every run. -/
theorem coherent_of_reaches {ok : Coroutine → CoroutineOp → Prop} {nowMs : Nat} {s₀ : Coroutine}
    (hinit : init options nowMs = .ok s₀) (h : Reaches (step options) ok s₀ s) :
    Coherent options none [] s :=
  h.invariant (coherent_init hinit).1 fun _ _ _ hp _ hs => (step_spec hp hs).coherent

theorem extends_of_reaches {ok : Coroutine → CoroutineOp → Prop} (hc : Coherent options none [] s)
    (h : Reaches (step options) ok s s') : Extends s.operations s'.operations := by
  have hboth : Coherent options none [] s' ∧ Extends s.operations s'.operations :=
    h.invariant (p := fun t => Coherent options none [] t ∧ Extends s.operations t.operations)
      ⟨hc, .refl _⟩ fun _ _ _ hp _ hs =>
        ⟨(step_spec hp.1 hs).coherent, hp.2.trans (step_spec hp.1 hs).history⟩
  exact hboth.2

/-- No call of `epoll_ctl` fails. -/
def EpollCtlSucceeds (_ : Coroutine) : CoroutineOp → Prop
  | .epollCtl outcomes => CtlSucceeds outcomes
  | _ => True

/-- Where `epoll_ctl` succeeds, nobody is stranded and no `Poll` leaves its list behind. -/
theorem smooth_of_reaches {nowMs : Nat} {s₀ : Coroutine} (hinit : init options nowMs = .ok s₀)
    (h : Reaches (step options) EpollCtlSucceeds s₀ s) :
    Coherent options none [] s ∧ Smooth s ∧ s.timerWheel.expired = [] := by
  refine h.invariant (p := fun s => Coherent options none [] s ∧ Smooth s ∧
    s.timerWheel.expired = []) (coherent_init hinit) fun s op s' hp hok hs => ?_
  have hstep := step_spec hp.1 hs
  refine ⟨hstep.coherent, hstep.smooth hp.2.1 ?_⟩
  rintro outcomes rfl
  exact hok

end Coroutine

end CoroRpc.Runtime
