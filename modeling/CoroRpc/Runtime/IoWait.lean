import CoroRpc.Runtime.RoutineLife

/-!
# The protocol of waits

`AwaitReadable` and `AwaitWritable` put an operation into the slot of its descriptor and direction,
into the timer wheel if it has a deadline, and into the `io_wait_` of its routine. An event, the
clock, `CancelWait` and `CancelFd` may each end the wait, and whichever comes first takes the
operation out of all three. Between steps, as long as `epoll_ctl` succeeds, the three indexes therefore
agree with the states of the routines, and an operation that has ended is in none of them.
-/

namespace CoroRpc.Runtime

open Lib List Option Coroutine

namespace Coroutine

variable {options : CoroutineOptions} {s s' : Coroutine} {r k : Nat}

/-- The operation `k` is one of the routine `r`, and is in a slot. -/
def Registered (s : Coroutine) (r k : Nat) : Prop :=
  ∃ op fd direction, s.operations[k]? = some op ∧ op.routine = r ∧
    s.table.slotOf fd direction = some k

/-- The operation has ended: it has one completion, and nothing refers to it. -/
structure Over (s : Coroutine) (k : Nat) (op : IoWaitOperation) : Prop where
  completed : ∃ c, op.completions = [c] ∧ op.Ended c
  slot : ∀ fd direction, s.table.slotOf fd direction ≠ some k
  timer : (s.timerWheel.node (operationNode k)).scheduled = false
  ioWait : ∀ r, s.ioWait r ≠ some k

/-- The operation waits: nobody has completed it, and everything that has to refers to it. -/
structure Pending (s : Coroutine) (k : Nat) (op : IoWaitOperation) : Prop where
  completions : op.completions = []
  state : s.state op.routine = some .waitIo
  slot : s.table.slotOf op.fd op.direction = some k
  timer : (s.timerWheel.node (operationNode k)).scheduled = true ↔ op.deadlineMs.isSome
  ioWait : s.ioWait op.routine = some k

section
variable (h : Coherent options none [] s)
include h

theorem linked_iff_scheduled (hexp : s.timerWheel.expired = []) {v : Nat} :
    s.timerWheel.Linked v ↔ (s.timerWheel.node v).scheduled = true := by
  have hwheel : s.timerWheel.Inv := h.waits.wheel
  rw [hwheel.linked_iff, hexp]
  simp

theorem timer_iff (hexp : s.timerWheel.expired = []) :
    s.state r = some .waitTimer ↔ (s.timerWheel.node (routineNode r)).scheduled = true := by
  rw [← h.waits.timer r, ← linked_iff_scheduled h hexp]
  simp [Tracked, table]

theorem pending_of_ioWait (hnone : s.stranded = [])
    (hexp : s.timerWheel.expired = []) {op : IoWaitOperation} (hop : s.operations[k]? = some op)
    (hwait : s.ioWait op.routine = some k) : Pending s k op := by
  obtain ⟨hfirst, hstranded | ⟨hslot, htimer⟩⟩ := h.waits.kept k op hop hwait
  · rw [show s.table.stranded = [] from hnone] at hstranded
    cases hstranded
  · refine ⟨hfirst, (h.waits.waiter _ k hwait).1, hslot.resolve_left (by simp), ?_, hwait⟩
    rw [← linked_iff_scheduled h hexp]
    refine ⟨fun hl => ?_, fun hsome => (htimer hsome).resolve_right (by simp)⟩
    obtain ⟨op', hop', -, hdeadline⟩ := h.waits.clock k (.inl hl)
    cases hop.symm.trans hop'
    exact isSome_of_eq_some hdeadline

theorem over_of_not_ioWait (hexp : s.timerWheel.expired = []) {op : IoWaitOperation}
    (hop : s.operations[k]? = some op) (hwait : s.ioWait op.routine ≠ some k) : Over s k op := by
  refine ⟨h.waits.done k op hop hwait, fun fd d hslot => ?_, ?_, fun r hr => ?_⟩
  · obtain ⟨op', hop', -, -, hw⟩ := h.waits.slot fd d k hslot
    cases hop.symm.trans hop'
    exact hwait hw
  · rw [Bool.eq_false_iff, ne_eq, ← linked_iff_scheduled h hexp]
    intro hl
    obtain ⟨op', hop', hw, -⟩ := h.waits.clock k (.inl hl)
    cases hop.symm.trans hop'
    exact hwait hw
  · obtain ⟨-, op', hop', hroutine⟩ := h.waits.waiter r k hr
    cases hop.symm.trans hop'
    exact hwait (hroutine ▸ hr)

theorem waitIo_iff (hnone : s.stranded = []) (hexp : s.timerWheel.expired = []) :
    s.state r = some .waitIo ↔ ∃! k, s.Registered r k := by
  constructor
  · intro hr
    obtain ⟨k, hk⟩ := h.waits.pending r hr
    obtain ⟨-, op, hop, rfl⟩ := h.waits.waiter r k hk
    refine ⟨k, ⟨op, _, _, hop, rfl, (pending_of_ioWait h hnone hexp hop hk).slot⟩, ?_⟩
    rintro j ⟨op', fd, d, hop', hroutine, hslot⟩
    obtain ⟨op'', hop'', -, -, hw⟩ := h.waits.slot fd d j hslot
    cases hop'.symm.trans hop''
    rw [hroutine] at hw
    exact some.inj (hw.symm.trans hk)
  · rintro ⟨k, ⟨op, fd, d, hop, rfl, hslot⟩, -⟩
    obtain ⟨op', hop', -, -, hw⟩ := h.waits.slot fd d k hslot
    cases hop.symm.trans hop'
    exact (h.waits.waiter _ k hw).1

end

/-! ## What ends a wait -/

/-- The operation has ended, with this completion. -/
def EndedWith (s : Coroutine) (k : Nat) (c : WaitResult × Option Nat) : Prop :=
  ∃ op, s.operations[k]? = some op ∧ s.Over k op ∧ op.completions = [c]

/-- Each of the four that may end the wait of an operation does. -/
structure Ending (s : Coroutine) (options : CoroutineOptions) (k : Nat) (op : IoWaitOperation) :
    Prop where
  event : ∀ events nowMs, (∃ e, (op.fd, e) ∈ events ∧ e.ends op.direction = true) →
    ∃ t, s.step options (.poll events nowMs) = some t ∧ t.EndedWith k (.ioReady, none)
  /-- An event of the same `Poll` comes first. -/
  deadline : ∀ events nowMs deadlineMs, op.deadlineMs = some deadlineMs → deadlineMs ≤ nowMs →
    ∃ t, s.step options (.poll events nowMs) = some t ∧
      (t.EndedWith k (.ioReady, none) ∨ t.EndedWith k (.timeout, some nowMs))
  cancelWait : ∃ t, s.step options (.cancelWait op.routine) = some t ∧
    t.EndedWith k (.cancelled, none)
  cancelFd : ∃ t, s.step options (.cancelFd op.fd) = some t ∧ t.EndedWith k (.cancelled, none)

section
variable {t : Coroutine} {op : IoWaitOperation} {c : WaitResult × Option Nat}
variable (h : Coherent options none [] s) (hop : s.operations[k]? = some op)
include h hop

/-- A wait that has ended does not begin again. -/
theorem ioWait_of_extends (ht : Coherent options none [] t)
    (hext : Extends s.operations t.operations) (hwait : t.ioWait op.routine = some k) :
    s.ioWait op.routine = some k := by
  by_contra hnot
  obtain ⟨c, hone, -⟩ := h.waits.done k op hop hnot
  obtain ⟨op', hop', hroutine, -, -, -, hprefix⟩ := hext k op hop
  rw [hone, (ht.waits.kept k op' hop' (hroutine ▸ hwait)).1] at hprefix
  cases prefix_nil.mp hprefix

theorem slot_of_ioWait (hnone : s.stranded = []) (hwait : s.ioWait op.routine = some k) :
    s.table.slotOf op.fd op.direction = some k := by
  obtain ⟨-, hstranded | ⟨hslot, -⟩⟩ := h.waits.kept k op hop hwait
  · rw [show s.table.stranded = [] from hnone] at hstranded
    cases hstranded
  · exact hslot.resolve_left (by simp)

omit h in
/-- A wait whose slot is empty is over. -/
theorem not_ioWait_of_served {p : Coroutine × Bool} (hs : Smooth s) (hp : Served options [] c s p)
    (hslot : p.1.table.slotOf op.fd op.direction ≠ some k) : p.1.ioWait op.routine ≠ some k := by
  intro hwait
  obtain ⟨op', hop', hroutine, hfd, hdirection, -⟩ := hp.history k op hop
  rw [← hroutine] at hwait
  have hback := slot_of_ioWait hp.coherent hop' (hp.smooth hs).1.stranded hwait
  rw [hfd, hdirection] at hback
  exact hslot hback

theorem completeWait_ends {result : WaitResult} (hs : Smooth s)
    (hwait : s.ioWait op.routine = some k) (hresult : result = .ioReady ∨ result = .cancelled) :
    (s.completeWait options k result none).1.ioWait op.routine ≠ some k := by
  obtain ⟨hserved, -, -, -, hslots, -⟩ :=
    completeWait_spec h hop hwait (by simp) (ended_of_ne_timeout none hresult)
  refine not_ioWait_of_served hop hs hserved ?_
  rw [hslots]
  split <;> simp_all

theorem completeSlot_ends (hs : Smooth s) :
    (s.completeSlot options (s.table.slotOf op.fd op.direction) true).1.ioWait op.routine ≠
      some k := by
  intro hwait
  have hserved := completeSlot_spec h op.fd op.direction true
  have hbefore := ioWait_of_extends h hop hserved.coherent hserved.history hwait
  rw [slot_of_ioWait h hop hs.stranded hbefore] at hwait
  exact completeWait_ends h hop hs hbefore (.inl rfl) hwait

theorem completeIo_ends {events : EpollEvents} (hs : Smooth s)
    (he : events.ends op.direction = true) :
    (s.completeIo options op.fd events).1.ioWait op.routine ≠ some k := by
  obtain ⟨hserved, hparts⟩ := completeIo_spec h op.fd events
  obtain ⟨t, u, hread, hwrite, hlast⟩ := hparts hs
  have hfirst := completeSlot_spec h op.fd .read (events.ends .read)
  have hends := completeSlot_ends h hop hs
  rw [hread] at hfirst
  have hsecond := completeSlot_spec hfirst.coherent op.fd .write (events.ends .write)
  obtain ⟨op', hop', hroutine, hfd, hdirection, -⟩ := hfirst.history k op hop
  have hends' := completeSlot_ends hfirst.coherent hop' (hfirst.smooth hs).1
  rw [hwrite] at hsecond
  intro hwait
  -- a waiter that still waits in the end has waited all along
  obtain ⟨op'', hop'', hroutine', -⟩ := hsecond.history k op' hop'
  rw [← hroutine, ← hroutine'] at hwait
  have hu := ioWait_of_extends hsecond.coherent hop'' hlast.coherent hlast.history hwait
  rw [hroutine'] at hu
  have ht := ioWait_of_extends hfirst.coherent hop' hsecond.coherent hsecond.history hu
  cases hd : op.direction with
  | read =>
    rw [hd] at he hends
    rw [he] at hread
    rw [hread] at hends
    exact hends (hroutine ▸ ht)
  | write =>
    rw [hd] at he
    rw [hfd, hdirection, hd, ← he, hwrite] at hends'
    exact hends' hu

end

theorem slotOf_cancelFd {fd : Int} {d : WaitDirection}
    (hreturns : (s.cancelFd options fd).2 = true) :
    (s.cancelFd options fd).1.table.slotOf fd d = none := by
  unfold cancelFd at hreturns ⊢
  cases hc : s.fds fd with
  | none => simp [WaitTable.slotOf, table, hc]
  | some c =>
    simp only [hc] at hreturns ⊢
    split at hreturns
    · cases hreturns
    · split at hreturns
      · cases hreturns
      · exact slotOf_setFd.trans (if_pos rfl)

theorem completeEvents_ends (events : List (Int × EpollEvents)) {op : IoWaitOperation}
    (h : Coherent options none [] s) (hop : s.operations[k]? = some op) (hs : Smooth s)
    (he : ∃ e, (op.fd, e) ∈ events ∧ e.ends op.direction = true) :
    (completeEvents options events s).1.ioWait op.routine ≠ some k := by
  induction events generalizing s op with
  | nil =>
    obtain ⟨e, hmem, -⟩ := he
    cases hmem
  | cons first rest ih =>
    obtain ⟨fd, events⟩ := first
    obtain ⟨hone, -⟩ := completeIo_spec h fd events
    have hreturns := (hone.smooth hs).2
    unfold completeEvents
    cases hp : s.completeIo options fd events with
    | mk t b =>
      rw [hp] at hone hreturns
      obtain rfl : b = true := hreturns
      dsimp only
      have hrest := completeEvents_spec rest hone.coherent
      obtain ⟨op', hop', hroutine, hfd, hdirection, -⟩ := hone.history k op hop
      obtain ⟨e, hmem, hends⟩ := he
      rcases mem_cons.mp hmem with heq | hmem
      · cases heq
        intro hwait
        rw [← hroutine] at hwait
        have hback := ioWait_of_extends hone.coherent hop' hrest.coherent hrest.history hwait
        have hover := completeIo_ends h hop hs hends
        rw [hp] at hover
        exact hover (hroutine ▸ hback)
      · rw [← hroutine]
        exact ih hone.coherent hop' (hone.smooth hs).1 ⟨e, by rw [hfd]; exact hmem, by
          rw [hdirection]; exact hends⟩

section
variable {t : Coroutine} {op : IoWaitOperation} {c : WaitResult × Option Nat}

theorem endedWith_of_adds (hop : s.operations[k]? = some op) (hfirst : op.completions = [])
    (ht : Coherent options none [] t) (hexp : t.timerWheel.expired = [])
    (hext : Extends s.operations t.operations) (hadds : Adds c s.operations t.operations)
    (hnot : t.ioWait op.routine ≠ some k) : t.EndedWith k c := by
  obtain ⟨op', hop', hroutine, -⟩ := hext k op hop
  rw [← hroutine] at hnot
  refine ⟨op', hop', over_of_not_ioWait ht hexp hop' hnot, ?_⟩
  obtain ⟨c', hone, -⟩ := ht.waits.done k op' hop' hnot
  obtain ⟨_, hsame, hadded⟩ := hadds k op' hop'
  cases hop.symm.trans hsame
  rcases hadded c' (by simp [hone]) with hold | rfl
  · rw [hfirst] at hold
    cases hold
  · exact hone

theorem EndedWith.stays (h : s.EndedWith k c) (hs : Coherent options none [] s)
    (ht : Coherent options none [] t) (hexp : t.timerWheel.expired = [])
    (hext : Extends s.operations t.operations) : t.EndedWith k c := by
  obtain ⟨op, hop, hover, hone⟩ := h
  obtain ⟨op', hop', hroutine, -, -, -, hprefix⟩ := hext k op hop
  have hnot : t.ioWait op'.routine ≠ some k := by
    rw [hroutine]
    exact fun hwait => hover.ioWait _ (ioWait_of_extends hs hop ht hext hwait)
  refine ⟨op', hop', over_of_not_ioWait ht hexp hop' hnot, ?_⟩
  obtain ⟨c', hone', -⟩ := ht.waits.done k op' hop' hnot
  rw [hone, hone'] at hprefix
  obtain ⟨rest, heq⟩ := hprefix
  rw [hone', (cons.inj heq).1]

variable (h : Coherent options none [] s) (hop : s.operations[k]? = some op) (hs : Smooth s)
  (hexp : s.timerWheel.expired = []) (hp : s.Pending k op)
include h hop hs hexp hp

theorem poll_ends (events : List (Int × EpollEvents)) (nowMs : Nat) :
    ((∃ e, (op.fd, e) ∈ events ∧ e.ends op.direction = true) →
      (s.poll options events nowMs).1.EndedWith k (.ioReady, none)) ∧
    ∀ deadlineMs, op.deadlineMs = some deadlineMs → deadlineMs ≤ nowMs →
      (s.poll options events nowMs).1.EndedWith k (.ioReady, none) ∨
        (s.poll options events nowMs).1.EndedWith k (.timeout, some nowMs) := by
  obtain ⟨-, -, t, hevents, hpoll⟩ := (poll_spec h hexp events nowMs).2.2.2 hs
  have hserved := completeEvents_spec events h
  have hover := completeEvents_ends events h hop hs
  rw [hevents] at hserved hover
  rw [hpoll]
  have hempty : t.timerWheel.expired = [] := sublist_nil.mp (hexp ▸ hserved.expired)
  obtain ⟨hc, -, hext, hadds, hsmooth⟩ := expire_spec hserved.coherent hempty nowMs
  obtain ⟨hsmooth, hgone, fired, hround⟩ := hsmooth (hserved.smooth hs).1
  have hready : t.ioWait op.routine ≠ some k →
      (t.poll options [] nowMs).1.EndedWith k (.ioReady, none) := fun hnot =>
    (endedWith_of_adds hop hp.completions hserved.coherent hempty hserved.history hserved.added
      hnot).stays hserved.coherent hc hgone hext
  refine ⟨fun he => hready (hover he), fun deadlineMs hdeadline hdue => ?_⟩
  by_cases hwait : t.ioWait op.routine = some k
  case neg => exact .inl (hready hwait)
  right
  obtain ⟨op', hop', hroutine, -, -, hdl, -⟩ := hserved.history k op hop
  rw [← hroutine] at hwait
  have hpending := pending_of_ioWait hserved.coherent (hserved.smooth hs).1.stranded hempty hop' hwait
  refine endedWith_of_adds hop' hpending.completions hc hgone hext hadds ?_
  -- the round of the wheel fires the timer of the operation, so that it waits no longer
  have hscheduled : (t.timerWheel.node (operationNode k)).scheduled = true :=
    hpending.timer.mpr (by rw [hdl, hdeadline]; rfl)
  obtain ⟨op₁, hop₁, -, hnode⟩ := hserved.coherent.waits.clock k
    (.inl ((linked_iff_scheduled hserved.coherent hempty).mpr hscheduled))
  cases hop'.symm.trans hop₁
  obtain ⟨w, fired', hstep, -, -, -, hfired, htimers⟩ :=
    TimerWheel.step_poll hserved.coherent.waits.wheel hempty nowMs
  obtain ⟨rfl, rfl⟩ := Prod.mk.inj (Except.ok.inj (hstep.symm.trans hround))
  intro hwaits
  obtain ⟨op₂, hop₂, hroutine₂, -, -, hdl₂, -⟩ := hext k op' hop'
  have hlate := (pending_of_ioWait hc hsmooth.stranded hgone hop₂ (hroutine₂ ▸ hwaits)).timer.mpr
    (by rw [hdl₂, hdl, hdeadline]; rfl)
  have hgone := htimers (operationNode k)
  rw [if_pos ((hfired _).mpr ⟨_, TimerWheel.timers_eq_some.mpr ⟨hscheduled, rfl⟩, ?_⟩),
    TimerWheel.timers, if_pos hlate] at hgone
  · cases hgone
  · rw [hdl, hdeadline] at hnode
    exact (some.inj hnode) ▸ hdue

theorem ending_of_pending : s.Ending options k op := by
  have hstep : ∀ {c} {p}, Served options [] c s p →
      p.1.ioWait op.routine ≠ some k → p.1.EndedWith k c := fun hserved hnot =>
    endedWith_of_adds hop hp.completions hserved.coherent
      (sublist_nil.mp (hexp ▸ hserved.expired)) hserved.history hserved.added hnot
  have hready : ¬ s.timerWheel.expired ≠ [] := not_not.mpr hexp
  have hcancel : s.cancelWait options op.routine = s.completeWait options k .cancelled none := by
    obtain ⟨x, hx, hwaits⟩ := map_eq_some_iff.mp ((Scheduler.control_state ..).symm.trans hp.state)
    simp [cancelWait, hp.ioWait, hx, hwaits]
  refine ⟨fun events nowMs he => ⟨_, if_neg hready, ?_⟩, fun events nowMs deadlineMs hd hdue =>
    ⟨_, if_neg hready, ?_⟩, ⟨_, if_neg hready, ?_⟩, ⟨_, if_neg hready, ?_⟩⟩
  · exact (poll_ends h hop hs hexp hp events nowMs).1 he
  · exact (poll_ends h hop hs hexp hp events nowMs).2 deadlineMs hd hdue
  · refine hstep (cancelWait_spec h op.routine) ?_
    rw [hcancel]
    exact completeWait_ends h hop hs hp.ioWait (.inr rfl)
  · obtain ⟨hserved, hreturns⟩ := cancelFd_spec h op.fd
    refine hstep hserved (not_ioWait_of_served hop hs hserved ?_)
    rw [slotOf_cancelFd hreturns]
    simp

end

instance (outcomes : List Bool) : Decidable (CtlSucceeds outcomes) :=
  inferInstanceAs (Decidable (∀ b ∈ outcomes, b = true))

instance (s : Coroutine) (op : CoroutineOp) : Decidable (s.EpollCtlSucceeds op) :=
  match op with
  | .epollCtl outcomes => inferInstanceAs (Decidable (CtlSucceeds outcomes))
  | .createCo _ | .spawn _ | .resume .. | .schedulerCreate .. | .schedulerSpawn ..
  | .schedulerResume .. | .runReady | .yield _ | .yieldFor .. | .yieldUntilFlush _ | .await ..
  | .scheduleAtFlush _ | .cancelWait _ | .cancelFd _ | .poll .. | .finish _ | .poke .. =>
    .isTrue trivial

end Coroutine

/-- **The protocol of waits**, in every run in which `epoll_ctl` succeeds, and from each of its states
    on: the states of the routines are those of the indexes; an operation waits or is over; one that
    waits is ended by an event, by its deadline, by `CancelWait` and by `CancelFd`, whichever comes
    first; and one that is over stays as it is. -/
theorem io_wait_protocol (options : CoroutineOptions) {nowMs : Nat} {s₀ s s' : Coroutine}
    (hinit : init options nowMs = .ok s₀)
    (h : Reaches (step options) Coroutine.EpollCtlSucceeds s₀ s)
    (h' : Reaches (step options) Coroutine.EpollCtlSucceeds s s') :
    (∀ r, s.state r = some .waitIo ↔ ∃! k, s.Registered r k) ∧
    (∀ fd direction k, s.table.slotOf fd direction = some k → ∃ op, s.operations[k]? = some op ∧
      op.fd = fd ∧ op.direction = direction ∧ s.Pending k op) ∧
    (∀ r, s.state r = some .waitTimer ↔ (s.timerWheel.node (routineNode r)).scheduled = true) ∧
    (∀ k op, s.operations[k]? = some op → s.Pending k op ∨ s.Over k op) ∧
    (∀ k op, s.operations[k]? = some op → s.Pending k op → s.Ending options k op) ∧
    ∀ (k : Nat) (op : IoWaitOperation) c, s.operations[k]? = some op → op.completions = [c] →
      ∃ op' : IoWaitOperation, s'.operations[k]? = some op' ∧ op'.completions = [c] := by
  obtain ⟨hc, hsmooth, hexp⟩ := smooth_of_reaches hinit h
  obtain ⟨hc', hsmooth', hexp'⟩ := smooth_of_reaches hinit (h.trans h')
  have hpending : ∀ k op, s.operations[k]? = some op → s.ioWait op.routine = some k →
      s.Pending k op := fun k op => pending_of_ioWait hc hsmooth.stranded hexp
  refine ⟨fun r => waitIo_iff hc hsmooth.stranded hexp, fun fd d k hslot => ?_,
    fun r => timer_iff hc hexp, fun k op hop => ?_,
    fun k op hop => ending_of_pending hc hop hsmooth hexp, fun k op c hop hcomp => ?_⟩
  · obtain ⟨op, hop, hfd, hd, hw⟩ := hc.waits.slot fd d k hslot
    exact ⟨op, hop, hfd, hd, hpending k op hop hw⟩
  · by_cases hw : s.ioWait op.routine = some k
    · exact .inl (hpending k op hop hw)
    · exact .inr (over_of_not_ioWait hc hexp hop hw)
  · -- it has a completion, so it does not wait
    have hover : s.ioWait op.routine ≠ some k := by
      intro hw
      rw [(hc.waits.kept k op hop hw).1] at hcomp
      cases hcomp
    have hended : s.EndedWith k c :=
      ⟨op, hop, over_of_not_ioWait hc hexp hop hover, hcomp⟩
    obtain ⟨op', hop', -, hone⟩ := hended.stays hc hc' hexp' (extends_of_reaches hc h')
    exact ⟨op', hop', hone⟩

/-- Routine 0 waits for descriptor 5 until time 10. The wheel has two slots, so that the first `Poll`
    finds the operation expired too early and puts it back; the second one ends the wait, and an event
    for the descriptor after that finds nobody. -/
theorem io_wait_protocol_timeout : ∃ s₀ s s', init oneSlotRuntime 0 = .ok s₀ ∧
      Reaches (step oneSlotRuntime) Coroutine.EpollCtlSucceeds s₀ s ∧
      Reaches (step oneSlotRuntime) Coroutine.EpollCtlSucceeds s s' ∧
      s.operations.map IoWaitOperation.completions = [[(.timeout, some 12)]] ∧
      s'.scheduler.readyQueue = [0] ∧
      ∃ op' : IoWaitOperation, s'.operations[0]? = some op' ∧
        op'.completions = [(.timeout, some 12)] := by
  obtain ⟨s₀, hinit⟩ : ∃ s₀, init oneSlotRuntime 0 = .ok s₀ := ⟨_, rfl⟩
  obtain ⟨s, hreach, hcomp, hrun⟩ : ∃ s,
      Reaches (step oneSlotRuntime) Coroutine.EpollCtlSucceeds s₀ s ∧
      s.operations.map IoWaitOperation.completions = [[(.timeout, some 12)]] ∧
      (exec (step oneSlotRuntime) Coroutine.EpollCtlSucceeds s
        [.poll [(5, { epollin := true })] 13]).any
          (fun s' => decide (s'.scheduler.readyQueue = [0])) = true :=
    exists_reaches_of_exec
      [.createCo [], .resume 0 0, .await 5 .read 10 0 28, .poll [] 2, .poll [] 12]
      (by cases hinit; decide +kernel) fun _ _ hs => hs
  obtain ⟨s', hreach', hqueue⟩ := exists_reaches_of_exec _ hrun fun _ _ hs => hs
  obtain ⟨op, hop, hone⟩ : ∃ op, s.operations[0]? = some op ∧
      op.completions = [(.timeout, some 12)] := by
    have h0 := congrArg (fun l => l[0]?) hcomp
    simpa using h0
  obtain ⟨-, -, -, -, -, hstays⟩ := io_wait_protocol oneSlotRuntime hinit hreach hreach'
  exact ⟨s₀, s, s', hinit, hreach, hreach', hcomp, hqueue, hstays 0 op _ hop hone⟩

/-! ## Where `epoll_ctl` may fail -/

namespace Coroutine

variable {options : CoroutineOptions} {s : Coroutine}

/-- No call of `epoll_ctl` fails while waits are completed; one that begins a wait may. -/
def CompletionsSucceed (s : Coroutine) : CoroutineOp → Prop
  | .poll .. | .cancelWait _ => CtlSucceeds s.epollCtl
  | _ => True

theorem settled_of_reaches {nowMs : Nat} {s₀ : Coroutine} (hinit : init options nowMs = .ok s₀)
    (h : Reaches (step options) CompletionsSucceed s₀ s) :
    Coherent options none [] s ∧ s.stranded = [] ∧ s.timerWheel.expired = [] := by
  obtain ⟨hc₀, hsmooth₀, hexp₀⟩ := coherent_init hinit
  refine h.invariant (p := fun s => Coherent options none [] s ∧ s.stranded = [] ∧
    s.timerWheel.expired = []) ⟨hc₀, hsmooth₀.stranded, hexp₀⟩ ?_
  rintro s op s' ⟨hc, hnone, hexp⟩ hok hs
  obtain ⟨hstep, hrest⟩ := step_cases hc hs
  -- a step that completes waits is one at which every call succeeds
  have hsmooth : CtlSucceeds s.epollCtl → (∀ outcomes, op ≠ .epollCtl outcomes) →
      s'.stranded = [] ∧ s'.timerWheel.expired = [] := by
    intro hctl hne
    obtain ⟨hs', hexp'⟩ := hstep.smooth ⟨hctl, hnone⟩ fun outcomes heq => absurd heq (hne outcomes)
    exact ⟨hs'.stranded, hexp'⟩
  refine ⟨hstep.coherent, ?_⟩
  by_cases hpoll : ∃ events nowMs, op = .poll events nowMs
  · obtain ⟨events, nowMs, rfl⟩ := hpoll
    exact hsmooth hok (by simp)
  by_cases hcancel : ∃ r, op = .cancelWait r
  · obtain ⟨r, rfl⟩ := hcancel
    exact hsmooth hok (by simp)
  · refine ⟨stranded_step hc hs hnone ?_ ?_, hrest.resolve_right hpoll⟩
    · exact fun events nowMs heq => hpoll ⟨events, nowMs, heq⟩
    · exact fun r heq => hcancel ⟨r, heq⟩

instance (s : Coroutine) (op : CoroutineOp) : Decidable (s.CompletionsSucceed op) :=
  match op with
  | .poll .. | .cancelWait _ => inferInstanceAs (Decidable (CtlSucceeds s.epollCtl))
  | .createCo _ | .spawn _ | .resume .. | .schedulerCreate .. | .schedulerSpawn ..
  | .schedulerResume .. | .runReady | .yield _ | .yieldFor .. | .yieldUntilFlush _ | .await ..
  | .scheduleAtFlush _ | .cancelFd _ | .finish _ | .poke .. | .epollCtl _ => .isTrue trivial

end Coroutine

/-- **A waiter stays registered**, whatever `epoll_ctl` answers to those that begin or abandon a wait:
    if a completion never finds that it fails, then every routine that waits for a descriptor has its
    operation in its slot, and in the wheel if it has a deadline; and a `Register` that throws leaves
    the slots, the timers and the waits as they were. -/
theorem waiters_stay_registered (options : CoroutineOptions) {nowMs : Nat} {s₀ s : Coroutine}
    (hinit : init options nowMs = .ok s₀)
    (h : Reaches (step options) Coroutine.CompletionsSucceed s₀ s) :
    (∀ r, s.state r = some .waitIo →
      ∃ k op, s.operations[k]? = some op ∧ op.routine = r ∧ s.Pending k op) ∧
    ∀ (op : IoWaitOperation) (t : Coroutine), s.register op = (t, false) →
      (∀ fd direction, t.table.slotOf fd direction = s.table.slotOf fd direction) ∧
      (∀ v, t.timerWheel.timers v = s.timerWheel.timers v) ∧
      t.operations = s.operations ∧ t.ioWait = s.ioWait ∧ t.scheduler = s.scheduler := by
  obtain ⟨hc, hnone, hexp⟩ := settled_of_reaches hinit h
  refine ⟨fun r hr => ?_, fun op t ht => ?_⟩
  · obtain ⟨k, hk⟩ := hc.waits.pending r hr
    obtain ⟨-, op, hop, rfl⟩ := hc.waits.waiter r k hk
    exact ⟨k, op, hop, rfl, pending_of_ioWait hc hnone hexp hop hk⟩
  · rcases register_spec hc hexp op with ⟨w, fds, ctl, heq, hu, hw, -⟩ | ⟨w, fds, ctl, heq, -⟩
    · obtain ⟨rfl, -⟩ := Prod.mk.inj (ht.symm.trans heq)
      refine ⟨hu.slots, fun v => ?_, rfl, rfl, rfl⟩
      have hcw : Coroutine.Coherent options none []
          { s with timerWheel := w, fds := fds, epollCtl := ctl } := ⟨hc.good, hc.waits.undo hu⟩
      have hsame : (w.node v).scheduled = (s.timerWheel.node v).scheduled := by
        rw [Bool.eq_iff_iff, ← linked_iff_scheduled hc hexp]
        exact (linked_iff_scheduled hcw hw).symm.trans (hu.linked v)
      unfold TimerWheel.timers
      rw [hsame]
      split
      · exact congrArg some (hu.deadline v ((linked_iff_scheduled hc hexp).mpr ‹_›))
      · rfl
    · exact absurd (Prod.mk.inj (ht.symm.trans heq)).2 (by simp)

/-- The first `Await` of routine 0 throws, and the second one succeeds. -/
theorem waiter_stays_registered_after_failure : ∃ s₀ s, init oneSlotRuntime 0 = .ok s₀ ∧
      Reaches (step oneSlotRuntime) Coroutine.CompletionsSucceed s₀ s ∧
      s.state 0 = some .waitIo ∧
      ∃ k op, s.operations[k]? = some op ∧ op.routine = 0 ∧ s.Pending k op := by
  obtain ⟨s₀, hinit⟩ : ∃ s₀, init oneSlotRuntime 0 = .ok s₀ := ⟨_, rfl⟩
  obtain ⟨s, hreach, hwait⟩ : ∃ s, Reaches (step oneSlotRuntime) Coroutine.CompletionsSucceed s₀ s ∧
      s.state 0 = some .waitIo :=
    exists_reaches_of_exec [.createCo [], .resume 0 0, .epollCtl [false], .await 5 .read 10 0 28,
      .await 5 .read 10 0 28] (by cases hinit; decide +kernel) fun _ _ hs => hs
  exact ⟨s₀, s, hinit, hreach, hwait, (waiters_stay_registered oneSlotRuntime hinit hreach).1 0 hwait⟩

/-- The event for which routine 0 waits arrives, and `EPOLL_CTL_MOD` fails: the routine waits on, and
    is in no slot. -/
theorem waiter_stranded_by_failing_mod : ∃ s₀ s, init oneSlotRuntime 0 = .ok s₀ ∧
      Reachable (step oneSlotRuntime) s₀ s ∧ s.state 0 = some .waitIo ∧
      s.table.slotOf 5 .read = none := by
  obtain ⟨s₀, hinit⟩ : ∃ s₀, init oneSlotRuntime 0 = .ok s₀ := ⟨_, rfl⟩
  obtain ⟨s, hs⟩ : ∃ s, Reachable (step oneSlotRuntime) s₀ s ∧ s.state 0 = some .waitIo ∧
      s.table.slotOf 5 .read = none :=
    exists_reaches_of_exec [.createCo [], .resume 0 0, .await 5 .read 10 0 28, .epollCtl [false],
      .poll [(5, { epollin := true })] 1] (by cases hinit; decide +kernel) fun _ _ hs => hs
  exact ⟨s₀, s, hinit, hs⟩

end CoroRpc.Runtime
