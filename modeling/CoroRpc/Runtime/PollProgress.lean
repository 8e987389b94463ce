import CoroRpc.Runtime.IoWait
import Mathlib.Algebra.Order.BigOperators.Group.List
import Mathlib.Algebra.Order.Ring.Nat

/-!
# Polls that are woken by descriptors

epoll is level triggered: a descriptor for which nothing is done is reported again by the next `Poll`.
The mask that `UpdateInterest` asks for, the masks that complete a reader and a writer, and the masks
that detach a descriptor without waiters are written in three places. They fit together but for one
combination: a peer that has closed its side (`EPOLLRDHUP`) while only a writer waits.

The potential of a descriptor is the number of its waiters, and one more while epoll has it. A `Poll`
never makes it greater, and one that is woken makes it smaller, unless all it is told is of that kind.
-/

namespace CoroRpc.Runtime

open Lib List Option Function Coroutine FdContext

namespace FdContext

variable {c : FdContext} {events : EpollEvents}

/-- epoll has the mask that the waiters need, and knows every descriptor that has one. -/
def Tuned (c : FdContext) : Prop :=
  if c.registered then c.interest = c.wanted else c.read = none ∧ c.write = none

def weight (c : FdContext) : Nat :=
  c.read.isSome.toNat + c.write.isSome.toNat + c.registered.toNat

/-- The events that `epoll_wait` may report: some of those asked for, `EPOLLERR` and `EPOLLHUP`. -/
def reports (c : FdContext) (events : EpollEvents) : Bool :=
  c.registered && decide (events ≠ {}) && (!events.epollin || c.interest.epollin) &&
    (!events.epollout || c.interest.epollout) && (!events.epollrdhup || c.interest.epollrdhup)

/-- The peer has closed its side, and only a writer waits. -/
def halfClosed (c : FdContext) (events : EpollEvents) : Bool :=
  decide (events = { epollrdhup := true }) && c.read.isNone && c.write.isSome

/-- What is reported ends a wait, or finds nobody and detaches the descriptor. -/
theorem reports_cases (hc : c.Tuned) (h : c.reports events = true) : (c.read.isSome ∧
      (events.epollin || events.epollerr || events.epollhup || events.epollrdhup) = true) ∨
    (c.write.isSome ∧ (events.epollout || events.epollerr || events.epollhup) = true) ∨
    ((events.epollerr || events.epollhup || events.epollrdhup) = true ∧ c.read = none ∧
      c.write = none ∧ c.registered) ∨
    c.halfClosed events = true := by
  obtain ⟨read, write, registered, interest⟩ := c
  obtain ⟨i, o, e, u, r⟩ := events
  cases registered
  · cases h
  · replace hc : interest = wanted ⟨read, write, true, interest⟩ := hc
    rw [hc] at h
    cases read <;> cases write <;> cases i <;> cases o <;> cases e <;> cases u <;> cases r <;>
      first | (cases h; done) | simp [halfClosed]

end FdContext

namespace Coroutine

variable {options : CoroutineOptions} {s s' t : Coroutine} {fd : Int} {k : Nat} {c : FdContext}
  {op : IoWaitOperation}

def weight (s : Coroutine) (fd : Int) : Nat := (s.fds fd).elim 0 FdContext.weight

/-- The `Poll` is woken by descriptors. -/
def woken (s : Coroutine) (events : List (Int × EpollEvents)) : Bool :=
  !events.isEmpty && events.all fun e => (s.fds e.1).any (·.reports e.2)

/-- A waiter is woken, or a descriptor is taken out of epoll. -/
def Progress (s s' : Coroutine) : Prop :=
  (∃ (k : Nat) (op op' : IoWaitOperation), s.operations[k]? = some op ∧ op.completions = [] ∧
    s'.operations[k]? = some op' ∧ op'.completions ≠ []) ∨
  ∃ fd, (s.fds fd).any registered = true ∧ (s'.fds fd).any registered = false

/-- What a `Poll` is told is not only that peers of waiting writers have closed their sides. -/
def told (s : Coroutine) : CoroutineOp → Bool
  | .poll events _ => events.isEmpty || events.any fun e => !(s.fds e.1).any (·.halfClosed e.2)
  | _ => true

def Responsive (s : Coroutine) (op : CoroutineOp) : Prop :=
  s.EpollCtlSucceeds op ∧ s.told op = true

instance (s : Coroutine) (op : CoroutineOp) : Decidable (s.Responsive op) :=
  inferInstanceAs (Decidable (_ ∧ _))

structure Tuned (s : Coroutine) : Prop where
  ctl : CtlSucceeds s.epollCtl
  contexts : ∀ fd c, s.fds fd = some c → c.Tuned

structure Wanes (s t : Coroutine) : Prop where
  tuned : Tuned t
  weight : ∀ fd, t.weight fd ≤ s.weight fd

theorem weight_congr (h : t.fds = s.fds) (fd : Int) : t.weight fd = s.weight fd := by
  rw [weight, h, weight]

theorem weight_eq (hc : s.fds fd = some c) : s.weight fd = c.weight := by
  rw [weight, hc]
  rfl

theorem Wanes.refl (h : Tuned s) : Wanes s s := ⟨h, fun _ => Nat.le_refl _⟩

theorem Wanes.trans {u : Coroutine} (h : Wanes s t) (h' : Wanes t u) : Wanes s u :=
  ⟨h'.tuned, fun fd => Nat.le_trans (h'.weight fd) (h.weight fd)⟩

namespace Tuned

variable (h : Tuned s)
include h

theorem same (hio : (t.fds, t.epollCtl) = (s.fds, s.epollCtl)) : Wanes s t := by
  obtain ⟨hfds, hctl⟩ := Prod.mk.inj hio
  exact ⟨⟨hctl ▸ h.ctl, hfds ▸ h.contexts⟩, fun fd => Nat.le_of_eq (weight_congr hfds fd)⟩

theorem same_io (hio : t.io = s.io) : Wanes s t :=
  h.same (congrArg (fun i => (i.1, i.2.1)) hio)

/-- One context is replaced, after some calls of `epoll_ctl`. -/
theorem setFd {ctl : List Bool} {c : Option FdContext} (hctl : CtlSucceeds ctl)
    (hc : c.elim True FdContext.Tuned) : Tuned ({ s with epollCtl := ctl }.setFd fd c) := by
  refine ⟨hctl, fun fd' c' hc' => ?_⟩
  simp only [Coroutine.setFd, update_apply] at hc'
  split at hc'
  · rwa [hc'] at hc
  · exact h.contexts fd' c' hc'

theorem wanes_setFd {ctl : List Bool} {c : Option FdContext} (hctl : CtlSucceeds ctl)
    (hc : c.elim True FdContext.Tuned) (hle : c.elim 0 FdContext.weight ≤ s.weight fd) :
    Wanes s ({ s with epollCtl := ctl }.setFd fd c) := by
  refine ⟨h.setFd hctl hc, fun fd' => ?_⟩
  simp only [Coroutine.weight, Coroutine.setFd, update_apply]
  split
  · rename_i heq
    exact heq ▸ hle
  · exact Nat.le_refl _

theorem tail : CtlSucceeds s.epollCtl.tail := fun b hb => h.ctl b (mem_of_mem_tail hb)

/-- A call of `epoll_ctl` succeeds, and leaves a context of less weight. -/
theorem lessen {c' : FdContext} (hc : s.fds fd = some c) (hlt : c'.weight < c.weight)
    (hc' : c'.Tuned) :
    Wanes s ({ s with epollCtl := s.epollCtl.tail }.setFd fd (some c')) ∧
      ({ s with epollCtl := s.epollCtl.tail }.setFd fd (some c')).weight fd < s.weight fd := by
  rw [← weight_eq hc] at hlt
  refine ⟨h.wanes_setFd h.tail hc' (Nat.le_of_lt hlt), ?_⟩
  rwa [weight_eq (update_self ..)]

end Tuned

theorem updateInterest_eq (hctl : CtlSucceeds s.epollCtl) (hc : s.fds fd = some c) :
    s.updateInterest fd = ({ s with epollCtl := s.epollCtl.tail }.setFd fd
      (some { c with registered := true, interest := c.wanted }), true) := by
  have hhead : s.epollCtl.headD true = true := by
    cases heq : s.epollCtl with
    | nil => rfl
    | cons b rest => exact hctl b (by simp [heq])
  simp only [updateInterest, hc, hhead, if_true]

/-! ## The end of a wait -/

theorem detach_wanes (h : Tuned s) (k : Nat) (op : IoWaitOperation) :
    ∃ t, s.detach k op = (t, true) ∧ Wanes s t ∧
      (s.table.slotOf op.fd op.direction = some k → t.weight op.fd < s.weight op.fd) := by
  unfold detach
  cases hc : s.fds op.fd with
  | none => exact ⟨s, rfl, .refl h, by simp [WaitTable.slotOf, table, hc]⟩
  | some c =>
    dsimp only
    split
    · rename_i hslot
      have hlt : ({ c.setSlot none op.direction with
          registered := true
          interest := (c.setSlot none op.direction).wanted } : FdContext).weight < c.weight := by
        have htuned := h.contexts _ c hc
        -- it has a waiter, so epoll has it
        have hreg : c.registered = true := by
          by_contra hreg
          rw [FdContext.Tuned, if_neg hreg] at htuned
          cases hd : op.direction <;> simp [hd, FdContext.slot, htuned] at hslot
        cases hd : op.direction <;> rw [hd] at hslot <;>
          simp_all [FdContext.weight, setSlot, FdContext.slot]
      have heq := updateInterest_eq (s := s.setFd op.fd (some (c.setSlot none op.direction)))
        h.ctl (update_self ..)
      simp only [setFd, update_idem] at heq
      obtain ⟨hwanes, hless⟩ := h.lessen hc hlt rfl
      exact ⟨_, heq, hwanes, fun _ => hless⟩
    · rename_i hslot
      exact ⟨s, rfl, .refl h, fun hk => absurd ((slotOf_eq hc).symm.trans hk) hslot⟩

theorem completeWait_wanes (options : CoroutineOptions) (h : Tuned s) (k : Nat)
    (result : WaitResult) (reading : Option Nat) :
    ∃ t, s.completeWait options k result reading = (t, true) ∧ Wanes s t ∧
      ∀ op, s.operations[k]? = some op → s.table.slotOf op.fd op.direction = some k →
        t.weight op.fd < s.weight op.fd := by
  unfold completeWait
  cases hop : s.operations[k]? with
  | none => exact ⟨s, rfl, .refl h, by simp⟩
  | some op =>
    dsimp only
    have hio := contexts_untime (s.setOperation k fun op => { op with result := result }) k op
    generalize (s.setOperation k fun op => { op with result := result }).untime k op = u at hio
    have hsame : Wanes s u := h.same hio
    obtain ⟨t, ht, hwanes, hlt⟩ := detach_wanes hsame.tuned k op
    rw [ht]
    dsimp only
    have hwoken : ∀ v, Wanes t v → ∃ t', (v, true) = (t', true) ∧ Wanes s t' ∧
        ∀ op', some op = some op' → s.table.slotOf op'.fd op'.direction = some k →
          t'.weight op'.fd < s.weight op'.fd := by
      intro v hv
      refine ⟨v, rfl, hsame.trans (hwanes.trans hv), fun op' hop' hslot => ?_⟩
      cases hop'
      refine Nat.lt_of_le_of_lt (hv.weight _) (Nat.lt_of_lt_of_le (hlt ?_) (hsame.weight _))
      exact (congrArg (fun i => (i.1 op.fd).bind (·.slot op.direction)) hio).trans hslot
    refine hwoken _ (hwanes.tuned.same ((congrArg (fun i => (i.1, i.2.1)) (io_makeReady ..)).trans ?_))
    split <;> rfl

section
variable (h : Tuned s) (hc : Coherent options none [] s)
include h hc

theorem completeSlot_wanes (fd : Int) (d : WaitDirection) (ends : Bool) :
    ∃ t, s.completeSlot options (s.table.slotOf fd d) ends = (t, true) ∧ Wanes s t ∧
      if (s.table.slotOf fd d).isSome ∧ ends = true then t.weight fd < s.weight fd else t = s := by
  cases hslot : s.table.slotOf fd d with
  | none => exact ⟨s, rfl, .refl h, by simp⟩
  | some k =>
    cases ends with
    | false => exact ⟨s, rfl, .refl h, by simp⟩
    | true =>
      obtain ⟨op, hop, rfl, rfl, -⟩ := hc.waits.slot fd d k hslot
      obtain ⟨t, ht, hwanes, hlt⟩ := completeWait_wanes options h k .ioReady none
      exact ⟨t, ht, hwanes, by simpa using hlt op hop hslot⟩

/-- **One event**: the potential of its descriptor becomes smaller, or only a writer waits for a peer
    that has closed its side. -/
theorem completeIo_wanes (fd : Int) (events : EpollEvents) :
    ∃ v, s.completeIo options fd events = (v, true) ∧ Wanes s v ∧
      ((s.fds fd).any (·.reports events) = true → v.weight fd < s.weight fd ∨
        ((s.fds fd).any (·.halfClosed events) = true ∧ v = s)) := by
  obtain ⟨t, ht, hst, hread⟩ := completeSlot_wanes h hc fd .read
    (events.epollin || events.epollerr || events.epollhup || events.epollrdhup)
  have hserved := completeSlot_spec hc fd .read
    (events.epollin || events.epollerr || events.epollhup || events.epollrdhup)
  rw [ht] at hserved
  obtain ⟨u, hu, htu, hwrite⟩ := completeSlot_wanes hst.tuned hserved.coherent fd .write
    (events.epollout || events.epollerr || events.epollhup)
  have hrest : ∀ v, Wanes u v → (∀ c, u.fds fd = some c →
        if (events.epollerr || events.epollhup || events.epollrdhup) = true ∧ c.read = none ∧
          c.write = none ∧ c.registered then v.weight fd < u.weight fd else v = u) →
      Wanes s v ∧ ((s.fds fd).any (·.reports events) = true → v.weight fd < s.weight fd ∨
        ((s.fds fd).any (·.halfClosed events) = true ∧ v = s)) := by
    intro v huv hdetach
    refine ⟨hst.trans (htu.trans huv), fun hrep => ?_⟩
    obtain ⟨c, hcs, hrep⟩ := (any_eq_true _ _).mp hrep
    have hcases := reports_cases (h.contexts fd c hcs) hrep
    -- whoever is woken first makes the difference; what comes after it only takes away
    split at hread
    · exact .inl (Nat.lt_of_le_of_lt (Nat.le_trans (huv.weight fd) (htu.weight fd)) hread)
    rename_i hnoread
    subst hread
    split at hwrite
    · exact .inl (Nat.lt_of_le_of_lt (huv.weight fd) hwrite)
    rename_i hnowrite
    subst hwrite
    rw [slotOf_eq hcs] at hnoread hnowrite
    replace hcases := (hcases.resolve_left hnoread).resolve_left hnowrite
    have hdetach := hdetach c hcs
    rcases hcases with hgone | hhalf
    · rw [if_pos hgone] at hdetach
      exact .inl hdetach
    · refine .inr ⟨by rw [hcs]; exact hhalf, ?_⟩
      rwa [if_neg] at hdetach
      simp only [halfClosed, Bool.and_eq_true] at hhalf
      intro hgone
      simp [hgone.2.2.1] at hhalf
  change s.completeSlot options ((s.fds fd).bind read) _ = _ at ht
  change t.completeSlot options ((t.fds fd).bind write) _ = _ at hu
  unfold completeIo
  rw [ht]
  dsimp only
  rw [hu]
  dsimp only
  cases hcu : u.fds fd with
  | none => exact ⟨u, rfl, hrest u (.refl htu.tuned) (by simp [hcu])⟩
  | some c =>
    dsimp only
    split
    · rename_i hd
      have hlt : ({ c with registered := false, interest := {} } : FdContext).weight < c.weight := by
        simp [FdContext.weight, hd.2.2.2]
      obtain ⟨hwanes, hless⟩ := htu.tuned.lessen hcu hlt ⟨hd.2.1, hd.2.2.1⟩
      refine ⟨_, rfl, hrest _ hwanes fun c' hc' => ?_⟩
      cases hcu.symm.trans hc'
      rwa [if_pos hd]
    · rename_i hd
      refine ⟨u, rfl, hrest u (.refl htu.tuned) fun c' hc' => ?_⟩
      cases hcu.symm.trans hc'
      rw [if_neg hd]

theorem completeEvents_wanes (events : List (Int × EpollEvents)) :
    ∃ v, completeEvents options events s = (v, true) ∧ Wanes s v ∧
      ((∀ e ∈ events, (s.fds e.1).any (·.reports e.2) = true) →
        (∃ e ∈ events, (s.fds e.1).any (·.halfClosed e.2) = false) →
        ∃ fd, v.weight fd < s.weight fd) := by
  induction events generalizing s with
  | nil => exact ⟨s, rfl, .refl h, by simp⟩
  | cons e rest ih =>
    obtain ⟨t, ht, hst, hone⟩ := completeIo_wanes h hc e.1 e.2
    have hserved := (completeIo_spec hc e.1 e.2).1
    rw [ht] at hserved
    obtain ⟨v, hv, htv, hmore⟩ := ih hst.tuned hserved.coherent
    refine ⟨v, by rw [completeEvents, ht]; exact hv, hst.trans htv, fun hrep hgood => ?_⟩
    rcases hone (hrep e mem_cons_self) with hlt | ⟨hhalf, rfl⟩
    · exact ⟨e.1, Nat.lt_of_le_of_lt (htv.weight _) hlt⟩
    · refine hmore (fun e' he' => hrep e' (mem_cons_of_mem _ he')) ?_
      obtain ⟨e', he', hfalse⟩ := hgood
      rcases mem_cons.mp he' with rfl | he'
      · cases hhalf.symm.trans hfalse
      · exact ⟨e', he', hfalse⟩

end

/-! ## Steps -/

theorem completeExpired_wanes (options : CoroutineOptions) (h : Tuned s) (nowMs fuel : Nat) :
    Wanes s (completeExpired options nowMs fuel s).1 := by
  induction fuel generalizing s with
  | zero => exact .refl h
  | succ fuel ih =>
    unfold completeExpired
    split
    · exact .refl h
    rename_i v _ _
    have hpop : Wanes s (s.setWheel (s.timerWheel.unlink v)) := h.same rfl
    have hmore : ∀ t, Wanes s t → Wanes s (completeExpired options nowMs fuel t).1 :=
      fun t ht => ht.trans (ih ht.tuned)
    dsimp only
    split
    · exact hpop
    split
    · split
      · exact hpop
      · exact hmore _ (h.same rfl)
    split
    · obtain ⟨t, ht, hwanes, -⟩ := completeWait_wanes options hpop.tuned (v / 2) .timeout (some nowMs)
      rw [ht]
      exact hmore t (hpop.trans hwanes)
    · exact hmore _ (hpop.trans (hpop.tuned.same_io (io_makeReady ..)))

section
variable (h : Tuned s)
include h

theorem poll_wanes (hc : Coherent options none [] s) (events : List (Int × EpollEvents))
    (nowMs : Nat) :
    Wanes s (s.poll options events nowMs).1 ∧ (s.woken events = true →
      s.Responsive (.poll events nowMs) →
      ∃ fd, (s.poll options events nowMs).1.weight fd < s.weight fd) := by
  obtain ⟨t, ht, hst, hlt⟩ := completeEvents_wanes h hc events
  unfold poll
  rw [ht]
  dsimp only
  have hflushed : Wanes t
      (if t.flushQueue ≠ [] then t.flushScheduledEvents options nowMs else t) := by
    split
    · obtain ⟨_, _, _, _, heq⟩ := flushScheduledEvents_eq options t nowMs
      rw [heq]
      exact hst.tuned.same rfl
    · exact .refl hst.tuned
  generalize (if t.flushQueue ≠ [] then t.flushScheduledEvents options nowMs else t) = u at hflushed ⊢
  have hadvanced : Wanes t (u.setWheel (u.timerWheel.advance nowMs)) :=
    hflushed.trans (hflushed.tuned.same rfl)
  have hrest := hadvanced.trans (completeExpired_wanes options hadvanced.tuned nowMs
    (u.timerWheel.advance nowMs).expired.length)
  refine ⟨hst.trans hrest, fun hwoken hgood => ?_⟩
  simp only [woken, Bool.and_eq_true, Bool.not_eq_true', List.all_eq_true] at hwoken
  have htold := hgood.2
  rw [told, hwoken.1, Bool.false_or] at htold
  obtain ⟨fd, hfd⟩ := hlt hwoken.2 (by simpa using htold)
  exact ⟨fd, Nat.lt_of_le_of_lt (hrest.weight fd) hfd⟩

theorem cancelWait_wanes (r : Nat) : Wanes s (s.cancelWait options r).1 := by
  unfold cancelWait
  split
  · split
    · rename_i k _ _
      obtain ⟨t, ht, hwanes, -⟩ := completeWait_wanes options h k .cancelled none
      rw [ht]
      exact hwanes
    · exact .refl h
  · exact .refl h

theorem cancelFd_wanes (fd : Int) : Wanes s (s.cancelFd options fd).1 := by
  have hslot : ∀ {u} slot, Tuned u →
      ∃ t, u.cancelSlot options slot = (t, true) ∧ Wanes u t := by
    intro u slot hu
    cases slot with
    | none => exact ⟨u, rfl, .refl hu⟩
    | some k =>
      obtain ⟨t, ht, hwanes, -⟩ := completeWait_wanes options hu k .cancelled none
      exact ⟨t, ht, hwanes⟩
  unfold cancelFd
  split
  · exact .refl h
  rename_i c hc
  have hempty : Wanes s (if c.registered then s.deregister fd { c with read := none, write := none }
      else s.setFd fd (some { c with read := none, write := none })) := by
    split
    · exact h.wanes_setFd h.tail ⟨rfl, rfl⟩ (Nat.zero_le _)
    · rename_i hreg
      refine h.wanes_setFd h.ctl ?_ ?_
      · simp [FdContext.Tuned, hreg]
      · simp [weight_eq hc, FdContext.weight]
  dsimp only
  obtain ⟨t, ht, hread⟩ := hslot c.read hempty.tuned
  obtain ⟨u, hu, hwrite⟩ := hslot c.write hread.tuned
  rw [ht]
  dsimp only
  rw [hu]
  have hall := hempty.trans (hread.trans hwrite)
  exact hall.trans (hall.tuned.wanes_setFd hall.tuned.ctl trivial (Nat.zero_le _))

/-- What a call of `UpdateInterest` for the one descriptor that may be out of tune leaves. -/
theorem updateInterest_tuned (hctl : CtlSucceeds t.epollCtl)
    (hother : ∀ fd', fd' ≠ fd → t.fds fd' = s.fds fd') (hself : t.fds fd = some c) :
    (t.updateInterest fd).2 = true ∧ Tuned (t.updateInterest fd).1 ∧
      ∀ fd', fd' ≠ fd → (t.updateInterest fd).1.fds fd' = s.fds fd' := by
  rw [updateInterest_eq hctl hself]
  refine ⟨rfl, ⟨fun b hb => hctl b (mem_of_mem_tail hb), fun fd' c' hc' => ?_⟩,
    fun fd' hne => (update_of_ne hne _ _).trans (hother fd' hne)⟩
  by_cases heq : fd' = fd
  · rw [heq] at hc'
    cases (update_self ..).symm.trans hc'
    rfl
  · exact h.contexts fd' c' (((update_of_ne heq _ _).trans (hother fd' heq)).symm.trans hc')

theorem rollback_tuned (hctl : CtlSucceeds t.epollCtl)
    (hother : ∀ fd', fd' ≠ op.fd → t.fds fd' = s.fds fd') (hself : t.fds op.fd = some c) :
    Tuned (t.rollback k op) ∧ ∀ fd', fd' ≠ op.fd → (t.rollback k op).fds fd' = s.fds fd' := by
  unfold rollback
  obtain ⟨hfds, hctl'⟩ := Prod.mk.inj (contexts_untime t k op)
  rw [← hfds] at hother hself
  rw [← hctl'] at hctl
  generalize t.untime k op = u at hother hself hctl ⊢
  dsimp only
  rw [hself]
  dsimp only
  split
  · exact (updateInterest_tuned (t := u.setFd op.fd _) h hctl
      (fun fd' hne => (update_of_ne hne _ _).trans (hother fd' hne))
      (update_self ..)).2
  · exact (updateInterest_tuned h hctl hother hself).2

/-- `Register` leaves the other descriptors alone, and its own one in tune. -/
theorem register_tuned (op : IoWaitOperation) :
    Tuned (s.register op).1 ∧ ∀ fd', fd' ≠ op.fd → (s.register op).1.fds fd' = s.fds fd' := by
  unfold register
  dsimp only
  generalize hcd : (s.fds op.fd).getD {} = c
  split
  · refine ⟨h.setFd h.ctl ?_, fun fd' hne => update_of_ne hne _ _⟩
    cases hc : s.fds op.fd with
    | none =>
      rw [← hcd, hc]
      exact ⟨rfl, rfl⟩
    | some c' =>
      rw [hc] at hcd
      exact h.contexts _ _ (hc.trans (congrArg some hcd))
  generalize c.setSlot (some s.operations.length) op.direction = c₁
  split
  · exact rollback_tuned h h.ctl (fun fd' hne => update_of_ne hne _ _) (update_self ..)
  · rename_i w _
    have hupdate := updateInterest_tuned (t := (s.setFd op.fd (some c₁)).setWheel w) h h.ctl
      (fun fd' hne => update_of_ne hne _ _) (update_self ..)
    split
    · rename_i heq
      rw [heq] at hupdate
      cases hupdate.1
    · rename_i heq
      rw [heq] at hupdate
      exact ⟨⟨hupdate.2.1.ctl, hupdate.2.1.contexts⟩, hupdate.2.2⟩

theorem await_tuned {direction : WaitDirection} {timeoutMs nowMs sp : Nat}
    (hs : s.await options fd direction timeoutMs nowMs sp = some s') :
    Tuned s' ∧ ∀ fd', fd' ≠ fd → s'.fds fd' = s.fds fd' := by
  unfold await at hs
  split at hs
  · cases hs
  rename_i r _
  split at hs
  · cases hs
    exact ⟨h, fun _ _ => rfl⟩
  dsimp only at hs
  obtain ⟨htuned, hother⟩ := register_tuned h ⟨r, fd, direction, if timeoutMs = kNoTimeout then none
    else some (deadlineAfter nowMs timeoutMs), .error, []⟩
  split at hs
  · rename_i heq
    rw [heq] at htuned hother
    cases hs
    exact ⟨htuned, hother⟩
  · rename_i t heq
    rw [heq] at htuned hother
    have hio : s'.io = t.io := (io_act hs).trans rfl
    refine ⟨(htuned.same_io hio).tuned, fun fd' hne => ?_⟩
    exact (congrFun (congrArg (·.1) hio) fd').trans (hother fd' hne)

end

def isAwait : CoroutineOp → Bool
  | .await .. => true
  | _ => false

/-- **One step**: only `Await` makes the potential of a descriptor greater, and only of one. -/
theorem step_wanes {op : CoroutineOp} (h : Tuned s) (hc : Coherent options none [] s)
    (hok : s.Responsive op) (hs : s.step options op = some s') :
    Tuned s' ∧ (isAwait op = false → Wanes s s') ∧
      ∃ fd, ∀ fd', fd' ≠ fd → s'.weight fd' ≤ s.weight fd' := by
  have hwanes : Wanes s s' → Tuned s' ∧ (isAwait op = false → Wanes s s') ∧
      ∃ fd, ∀ fd', fd' ≠ fd → s'.weight fd' ≤ s.weight fd' :=
    fun hw => ⟨hw.tuned, fun _ => hw, 0, fun fd' _ => hw.weight fd'⟩
  cases hop : touchesIo op with
  | false => exact hwanes (h.same_io (io_step hs hop))
  | true =>
    unfold step at hs
    split at hs
    · cases hs
    cases op with
    | await fd direction timeoutMs nowMs sp =>
      obtain ⟨htuned, hother⟩ := await_tuned h hs
      refine ⟨htuned, (fun hno => by cases hno), fd, fun fd' hne => Nat.le_of_eq ?_⟩
      rw [weight, hother fd' hne, weight]
    | cancelWait r =>
      cases hs
      exact hwanes (cancelWait_wanes h r)
    | cancelFd fd =>
      cases hs
      exact hwanes (cancelFd_wanes h fd)
    | poll events nowMs =>
      cases hs
      exact hwanes (poll_wanes h hc events nowMs).1
    | epollCtl outcomes =>
      cases hs
      exact hwanes ⟨⟨hok.1, h.contexts⟩, fun _ => Nat.le_refl _⟩
    | _ => cases hop

/-- Where the potential of a descriptor has become smaller, a waiter has been woken or the descriptor
    is out of epoll. -/
theorem progress_of_lt (hc : Coherent options none [] s) (hc' : Coherent options none [] s')
    (hnone : s'.stranded = []) (hext : Extends s.operations s'.operations)
    (hlt : s'.weight fd < s.weight fd) : Progress s s' := by
  by_contra hno
  rw [Progress, not_or] at hno
  obtain ⟨hwaits, hreg⟩ := hno
  have hslots : ∀ d, (s.table.slotOf fd d).isSome = true → (s'.table.slotOf fd d).isSome = true := by
    intro d hsome
    obtain ⟨k, hk⟩ := isSome_iff_exists.mp hsome
    obtain ⟨op, hop, rfl, rfl, hwait⟩ := hc.waits.slot fd d k hk
    obtain ⟨op', hop', -, hfd, hdir, -⟩ := hext k op hop
    have hpending : op'.completions = [] := by
      by_contra hdone
      exact hwaits ⟨k, op, op', hop, (hc.waits.kept k op hop hwait).1, hop', hdone⟩
    have hwait' : s'.ioWait op'.routine = some k := by
      by_contra hw
      obtain ⟨x, hx, -⟩ := hc'.waits.done k op' hop' hw
      cases hpending.symm.trans hx
    obtain ⟨-, hstranded | ⟨hslot, -⟩⟩ := hc'.waits.kept k op' hop' hwait'
    · rw [show s'.table.stranded = [] from hnone] at hstranded
      cases hstranded
    · rw [← hfd, ← hdir, hslot.resolve_left (by simp)]
      rfl
  have hread := hslots .read
  have hwrite := hslots .write
  simp only [not_exists, not_and, Bool.not_eq_false] at hreg
  have hregistered := hreg fd
  unfold weight at hlt
  cases hs : s.fds fd with
  | none => simp [hs] at hlt
  | some c =>
    cases hs' : s'.fds fd with
    | none => simp_all [WaitTable.slotOf, table, FdContext.slot, FdContext.weight]
    | some c' =>
      simp only [hs, hs', WaitTable.slotOf, table, FdContext.slot, FdContext.weight, bind_some,
        elim_some, any_some] at hlt hread hwrite hregistered
      revert hlt hread hwrite hregistered
      generalize c.read.isSome = a, c.write.isSome = b, c.registered = r, c'.read.isSome = a',
        c'.write.isSome = b', c'.registered = r'
      revert a b r a' b' r'
      decide

/-- The runtime, and the number of the `Poll`s that descriptors have woken. -/
def counted (options : CoroutineOptions) (p : Coroutine × Nat) (op : CoroutineOp) :
    Option (Coroutine × Nat) :=
  (p.1.step options op).map fun s' =>
    (s', match op with
      | .poll events _ => if p.1.woken events then p.2 + 1 else p.2
      | _ => p.2)

theorem tuned_of_reaches {nowMs : Nat} {s₀ : Coroutine} (hinit : init options nowMs = .ok s₀)
    (h : Reaches (step options) Responsive s₀ s) :
    Tuned s ∧ ∃ l : List Int, ∀ fd, fd ∉ l → s.weight fd = 0 := by
  have hstart : Tuned s₀ ∧ ∀ fd, s₀.weight fd = 0 := by
    unfold init at hinit
    split at hinit
    · cases hinit
    split at hinit
    · cases hinit
    cases hinit
    exact ⟨⟨fun b hb => (not_mem_nil hb).elim, fun fd c hc => by cases hc⟩, fun _ => rfl⟩
  refine (h.invariant (p := fun s => Coherent options none [] s ∧ Tuned s ∧
    ∃ l : List Int, ∀ fd, fd ∉ l → s.weight fd = 0)
    ⟨(coherent_init hinit).1, hstart.1, [], fun fd _ => hstart.2 fd⟩ ?_).2
  rintro s op s' ⟨hc, htuned, l, hl⟩ hok hs
  obtain ⟨htuned', -, fd, hother⟩ := step_wanes htuned hc hok hs
  refine ⟨(step_spec hc hs).coherent, htuned', fd :: l, fun fd' hfd' => ?_⟩
  rw [mem_cons, not_or] at hfd'
  exact Nat.le_zero.mp (hl fd' hfd'.2 ▸ hother fd' hfd'.1)

/-- The count and the potential of the descriptors `l` together never exceed the potential with which
    the run begins. -/
theorem counted_le {l : List Int} (hc : Coherent options none [] s) (htuned : Tuned s)
    (hl : ∀ fd, fd ∉ l → s.weight fd = 0) {p : Coroutine × Nat}
    (h : Reaches (counted options) (fun p op => p.1.Responsive op ∧ isAwait op = false) (s, 0) p) :
    p.2 + (l.map p.1.weight).sum ≤ (l.map s.weight).sum := by
  refine (h.invariant (p := fun p => (Coherent options none [] p.1 ∧ Tuned p.1 ∧
    ∀ fd, fd ∉ l → p.1.weight fd = 0) ∧ p.2 + (l.map p.1.weight).sum ≤ (l.map s.weight).sum)
    ⟨⟨hc, htuned, hl⟩, by simp⟩ ?_).2
  rintro ⟨t, n⟩ op p' ⟨⟨hc, htuned, hl⟩, hle⟩ ⟨hok, hno⟩ hs
  obtain ⟨t', ht', rfl⟩ := map_eq_some_iff.mp hs
  have hwanes := (step_wanes htuned hc hok ht').2.1 hno
  have hsum : (l.map t'.weight).sum ≤ (l.map t.weight).sum :=
    sum_le_sum fun fd _ => hwanes.weight fd
  refine ⟨⟨(step_spec hc ht').coherent, hwanes.tuned, fun fd hfd =>
    Nat.le_zero.mp (hl fd hfd ▸ hwanes.weight fd)⟩, ?_⟩
  dsimp only at hle ⊢
  split
  · rename_i events nowMs
    split
    · rename_i hwoken
      have hpoll : t' = (t.poll options events nowMs).1 := by
        unfold step at ht'
        split at ht'
        · cases ht'
        · exact (some.inj ht').symm
      obtain ⟨fd, hlt⟩ := (poll_wanes htuned hc events nowMs).2 hwoken hok
      rw [← hpoll] at hlt
      have hmem : fd ∈ l := by
        by_contra hfd
        rw [hl fd hfd] at hlt
        cases hlt
      have hless : (l.map t'.weight).sum < (l.map t.weight).sum :=
        sum_lt_sum _ _ (fun fd _ => hwanes.weight fd) ⟨fd, hmem, hlt⟩
      omega
    · omega
  · omega

end Coroutine

/-- **No busy loop on a ready descriptor**, in every run in which `epoll_ctl` succeeds and no `Poll` is
    told only of peers that have closed their side while a writer waits: a `Poll` that descriptors wake
    wakes a waiter or takes a descriptor out of epoll, and from each state on there are only so many of
    them until the next `Await`. -/
theorem woken_polls_progress (options : CoroutineOptions) {nowMs : Nat} {s₀ s : Coroutine}
    (hinit : init options nowMs = .ok s₀) (h : Reaches (step options) Coroutine.Responsive s₀ s) :
    (∀ events now s', s.woken events = true → s.Responsive (.poll events now) →
      s.step options (.poll events now) = some s' → s.Progress s') ∧
    ∃ bound, ∀ s' n, Reaches (counted options)
      (fun p op => p.1.Responsive op ∧ isAwait op = false) (s, 0) (s', n) → n ≤ bound := by
  obtain ⟨htuned, l, hl⟩ := tuned_of_reaches hinit h
  obtain ⟨hc, hsmooth, hexp⟩ := smooth_of_reaches hinit (h.mono fun _ _ hok => hok.1)
  refine ⟨fun events now s' hwoken hok hs => ?_, (l.map s.weight).sum, fun s' n hrun => ?_⟩
  · rw [step, if_neg (by simp [hexp])] at hs
    cases hs
    obtain ⟨hc', -, hext, hsmooth'⟩ := poll_spec hc hexp events now
    obtain ⟨fd, hlt⟩ := (poll_wanes htuned hc events now).2 hwoken hok
    exact progress_of_lt hc hc' (hsmooth' hsmooth).1.stranded hext hlt
  · exact Nat.le_trans (Nat.le_add_right ..) (counted_le hc htuned hl hrun)

/-- Routine 0 waits until it can write to descriptor 5, and the connection breaks: the `Poll` that is
    told so makes progress. -/
theorem woken_poll_progress_hangup : ∃ s₀ s s', init oneSlotRuntime 0 = .ok s₀ ∧
      Reaches (step oneSlotRuntime) Coroutine.Responsive s₀ s ∧
      s.step oneSlotRuntime (.poll [(5, { epollhup := true })] 1) = some s' ∧ s.Progress s' := by
  obtain ⟨s₀, hinit⟩ : ∃ s₀, init oneSlotRuntime 0 = .ok s₀ := ⟨_, rfl⟩
  obtain ⟨s, hreach, hwoken, hempty, hok⟩ : ∃ s,
      Reaches (step oneSlotRuntime) Coroutine.Responsive s₀ s ∧
      s.woken [(5, { epollhup := true })] = true ∧ s.timerWheel.expired = [] ∧
      s.Responsive (.poll [(5, { epollhup := true })] 1) :=
    exists_reaches_of_exec [.createCo [], .resume 0 0, .await 5 .write kNoTimeout 0 28]
      (by cases hinit; decide +kernel) fun _ _ hs => hs
  have hpoll : s.step oneSlotRuntime (.poll [(5, { epollhup := true })] 1) = some _ :=
    if_neg (by simp [hempty])
  exact ⟨s₀, s, _, hinit, hreach, hpoll,
    (woken_polls_progress oneSlotRuntime hinit hreach).1 _ _ _ hwoken hok hpoll⟩

/-- A `Poll` that is only told that the peer of a waiting writer has closed its side does nothing. -/
theorem Coroutine.poll_halfClosed {options : CoroutineOptions} {s : Coroutine} {fd : Int}
    {nowMs : Nat} (hhalf : (s.fds fd).any (·.halfClosed { epollrdhup := true }) = true)
    (hflush : s.flushQueue = []) (hexp : (s.timerWheel.advance nowMs).expired = []) :
    (s.poll options [(fd, { epollrdhup := true })] nowMs).1 =
      s.setWheel (s.timerWheel.advance nowMs) := by
  obtain ⟨c, hc, hhalf⟩ := (any_eq_true _ _).mp hhalf
  simp only [halfClosed, Bool.and_eq_true, isNone_iff_eq_none] at hhalf
  obtain ⟨⟨-, hread⟩, hwrite⟩ := hhalf
  obtain ⟨k, hk⟩ := isSome_iff_exists.mp hwrite
  have hone : s.completeIo options fd { epollrdhup := true } = (s, true) := by
    simp [completeIo, completeSlot, hc, hread, hk]
  simp [poll, completeEvents, hone, hflush, completeExpired, setWheel, hexp]

/-- Routine 0 waits until it can write to descriptor 5, and the peer has only closed its side: the
    `Poll` that is told so wakes nobody, leaves the descriptor in epoll, and can be told so again. -/
theorem poll_spins_on_half_closed_peer : ∃ s₀ s s', init oneSlotRuntime 0 = .ok s₀ ∧
      Reachable (step oneSlotRuntime) s₀ s ∧
      s.woken [(5, { epollrdhup := true })] = true ∧
      s.step oneSlotRuntime (.poll [(5, { epollrdhup := true })] 1) = some s' ∧
      ¬ s.Progress s' ∧ s'.woken [(5, { epollrdhup := true })] = true := by
  obtain ⟨s₀, hinit⟩ : ∃ s₀, init oneSlotRuntime 0 = .ok s₀ := ⟨_, rfl⟩
  obtain ⟨s, hreach, hwoken, hempty, hhalf, hflush, hexp⟩ : ∃ s,
      Reachable (step oneSlotRuntime) s₀ s ∧ s.woken [(5, { epollrdhup := true })] = true ∧
      s.timerWheel.expired = [] ∧ (s.fds 5).any (·.halfClosed { epollrdhup := true }) = true ∧
      s.flushQueue = [] ∧ (s.timerWheel.advance 1).expired = [] :=
    exists_reaches_of_exec [.createCo [], .resume 0 0, .await 5 .write kNoTimeout 0 28]
      (by cases hinit; decide +kernel) fun _ _ hs => hs
  refine ⟨s₀, s, _, hinit, hreach, hwoken, if_neg (by simp [hempty]), ?_⟩
  rw [poll_halfClosed hhalf hflush hexp]
  refine ⟨?_, hwoken⟩
  rintro (⟨k, op, op', hop, hopen, hop', hdone⟩ | ⟨fd, hreg, hreg'⟩)
  · cases hop.symm.trans hop'
    exact hdone hopen
  · cases hreg.symm.trans hreg'

end CoroRpc.Runtime
