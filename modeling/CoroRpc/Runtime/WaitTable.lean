import CoroRpc.Runtime.Control
import CoroRpc.Runtime.Coroutine

/-!
# Who refers to a wait

An operation that waits is referred to from its slot, from the timer wheel and from its routine, and
one that has ended from nowhere. `Waits` says so for the whole table of waits at once. It has two
parameters for the moments in which it is not quite true: the loop over the expired timers has a node
in its hand that is in no list (`out`), and `CancelFd` empties the slots before it ends the waits
that were in them (`loose`).

The states of the routines are a parameter too. A routine is put to sleep or woken by the scheduler
after the table has been changed, and the two changes are one move here: there is one lemma for each
way in which a wait begins or ends.
-/

namespace CoroRpc.Runtime

open Lib List Option Function

/-- The part of the runtime that refers to waits. -/
structure WaitTable where
  wheel : TimerWheel Nat
  fds : Int → Option FdContext
  operations : List IoWaitOperation
  ioWait : Nat → Option Nat
  stranded : List Nat

def Coroutine.table (s : Coroutine) : WaitTable :=
  ⟨s.timerWheel, s.fds, s.operations, s.ioWait, s.stranded⟩

namespace WaitTable

def slotOf (t : WaitTable) (fd : Int) (d : WaitDirection) : Option Nat :=
  (t.fds fd).bind fun c => c.slot d

end WaitTable

/-- The node is in a list, or in the hand of the loop over the expired ones. -/
def Tracked (w : TimerWheel Nat) (out : Option Nat) (v : Nat) : Prop :=
  w.Linked v ∨ out = some v

/-- A completion that a wait may have: a timeout is not before the deadline. -/
structure IoWaitOperation.Ended (op : IoWaitOperation) (c : WaitResult × Option Nat) : Prop where
  result : op.result = c.1
  allowed : c.1 = .ioReady ∨ c.1 = .cancelled ∨
    c.1 = .timeout ∧ ∃ nowMs deadlineMs, c.2 = some nowMs ∧ op.deadlineMs = some deadlineMs ∧
      deadlineMs ≤ nowMs

/-- An operation waits for what it waited for, and no completion of it is taken back. -/
structure IoWaitOperation.GoesOn (op op' : IoWaitOperation) : Prop where
  routine : op'.routine = op.routine
  fd : op'.fd = op.fd
  direction : op'.direction = op.direction
  deadlineMs : op'.deadlineMs = op.deadlineMs
  completions : op.completions <+: op'.completions

namespace IoWaitOperation.GoesOn

instance : Std.Refl GoesOn := ⟨fun _ => ⟨rfl, rfl, rfl, rfl, prefix_rfl⟩⟩

instance : IsTrans IoWaitOperation GoesOn :=
  ⟨fun _ _ _ h h' => ⟨h'.routine.trans h.routine, h'.fd.trans h.fd, h'.direction.trans h.direction,
    h'.deadlineMs.trans h.deadlineMs, h.completions.trans h'.completions⟩⟩

end IoWaitOperation.GoesOn

/-- What became of the operations. -/
def Extends : List IoWaitOperation → List IoWaitOperation → Prop := Stays IoWaitOperation.GoesOn

section
variable (outcome : WaitResult × Option Nat)

def IoWaitOperation.Gained (op' op : IoWaitOperation) : Prop :=
  ∀ c ∈ op'.completions, c ∈ op.completions ∨ c = outcome

instance : Std.Refl (IoWaitOperation.Gained outcome) := ⟨fun _ _ => .inl⟩

instance : IsTrans IoWaitOperation (IoWaitOperation.Gained outcome) :=
  ⟨fun _ _ _ h' h c hc => (h' c hc).elim (h c) .inr⟩

/-- Every completion that has been added is this one. -/
def Adds (old new : List IoWaitOperation) : Prop := Stays (IoWaitOperation.Gained outcome) new old

end

structure Waits (out : Option Nat) (loose : List Nat) (state : Nat → Option CoroutineState)
    (t : WaitTable) : Prop where
  wheel : t.wheel.Inv
  typed : ∀ v, (t.wheel.node v).type = nodeType v
  off : ∀ v, out = some v → ¬ t.wheel.Linked v
  /-- The timer of a routine is there exactly while the routine waits for it. -/
  timer : ∀ r, Tracked t.wheel out (routineNode r) ↔ state r = some .waitTimer
  waiter : ∀ r k, t.ioWait r = some k →
    state r = some .waitIo ∧ ∃ op, t.operations[k]? = some op ∧ op.routine = r
  pending : ∀ r, state r = some .waitIo → ∃ k, t.ioWait r = some k
  slot : ∀ fd d k, t.slotOf fd d = some k → ∃ op, t.operations[k]? = some op ∧ op.fd = fd ∧
    op.direction = d ∧ t.ioWait op.routine = some k
  clock : ∀ k, Tracked t.wheel out (operationNode k) → ∃ op, t.operations[k]? = some op ∧
    t.ioWait op.routine = some k ∧ op.deadlineMs = some (t.wheel.node (operationNode k)).deadlineMs
  /-- What an operation that waits can rely on. -/
  kept : ∀ k op, t.operations[k]? = some op → t.ioWait op.routine = some k → op.completions = [] ∧
    (op.routine ∈ t.stranded ∨ ((k ∈ loose ∨ t.slotOf op.fd op.direction = some k) ∧
      (op.deadlineMs.isSome → Tracked t.wheel out (operationNode k))))
  done : ∀ k op, t.operations[k]? = some op → t.ioWait op.routine ≠ some k →
    ∃ c, op.completions = [c] ∧ op.Ended c

theorem routineNode_ne_operationNode (r k : Nat) : routineNode r ≠ operationNode k := by
  unfold routineNode operationNode
  omega

theorem routineNode_inj {r q : Nat} (h : routineNode r = routineNode q) : r = q := by
  unfold routineNode at h
  omega

theorem operationNode_inj {k j : Nat} (h : operationNode k = operationNode j) : k = j := by
  unfold operationNode at h
  omega

namespace Waits

variable {out out' : Option Nat} {loose : List Nat} {state state' : Nat → Option CoroutineState}
  {t : WaitTable} {w : TimerWheel Nat} {fds : Int → Option FdContext}

section
variable (h : Waits out loose state t)
include h

/-- The routines whose state changes neither wait for a descriptor nor for a time. -/
theorem restate (hio : ∀ r, state' r = some .waitIo ↔ state r = some .waitIo)
    (htimer : ∀ r, state' r = some .waitTimer ↔ state r = some .waitTimer) :
    Waits out loose state' t where
  __ := h
  timer r := by rw [htimer]; exact h.timer r
  waiter r k hk := by rw [hio]; exact h.waiter r k hk
  pending r hr := h.pending r ((hio r).mp hr)

theorem rewheel (hinv : w.Inv) (htype : ∀ v, (w.node v).type = (t.wheel.node v).type)
    (htracked : ∀ v, Tracked w out' v ↔ Tracked t.wheel out v)
    (hdeadline : ∀ v, Tracked t.wheel out v → (w.node v).deadlineMs = (t.wheel.node v).deadlineMs)
    (hoff : ∀ v, out' = some v → ¬ w.Linked v) : Waits out' loose state { t with wheel := w } where
  __ := h
  wheel := hinv
  typed v := (htype v).trans (h.typed v)
  off := hoff
  timer r := (htracked _).trans (h.timer r)
  clock k hk := by
    have hk := (htracked _).mp hk
    rw [hdeadline _ hk]
    exact h.clock k hk
  kept k op hop hwait := by
    obtain ⟨hnone, hplace⟩ := h.kept k op hop hwait
    exact ⟨hnone, hplace.imp_right fun hp => ⟨hp.1, fun hd => (htracked _).mpr (hp.2 hd)⟩⟩

theorem refds (hslots : ∀ fd d, ({ t with fds := fds } : WaitTable).slotOf fd d = t.slotOf fd d) :
    Waits out loose state { t with fds := fds } where
  __ := h
  slot fd d k hk := h.slot fd d k ((hslots fd d).symm.trans hk)
  kept k op hop hwait := by
    rw [hslots]
    exact h.kept k op hop hwait

/-- `CancelFd` takes the waits of a descriptor out of their slots. -/
theorem loosen {fd : Int} {taken : List Nat}
    (hother : ∀ fd' d, fd' ≠ fd → ({ t with fds := fds } : WaitTable).slotOf fd' d = t.slotOf fd' d)
    (hempty : ∀ d, ({ t with fds := fds } : WaitTable).slotOf fd d = none)
    (htaken : ∀ d k, t.slotOf fd d = some k → k ∈ taken) :
    Waits out (taken ++ loose) state { t with fds := fds } where
  __ := h
  slot fd' d k hk := by
    by_cases heq : fd' = fd
    · rw [heq, hempty] at hk
      cases hk
    · exact h.slot fd' d k ((hother fd' d heq).symm.trans hk)
  kept k op hop hwait := by
    obtain ⟨hnone, hplace⟩ := h.kept k op hop hwait
    refine ⟨hnone, hplace.imp_right fun hp => ⟨?_, hp.2⟩⟩
    rcases hp.1 with hloose | hslot
    · exact .inl (mem_append_right _ hloose)
    · by_cases heq : op.fd = fd
      · exact .inl (mem_append_left _ (htaken op.direction k (heq ▸ hslot)))
      · exact .inr ((hother _ _ heq).trans hslot)

theorem unloose (hended : ∀ k ∈ loose, ∀ r, t.ioWait r ≠ some k) : Waits out [] state t where
  __ := h
  kept k op hop hwait := by
    obtain ⟨hnone, hplace⟩ := h.kept k op hop hwait
    refine ⟨hnone, hplace.imp_right fun hp => ⟨.inr ?_, hp.2⟩⟩
    exact hp.1.resolve_left fun hk => hended k hk _ hwait

theorem retime {r : Nat} (hinv : w.Inv) (htype : ∀ v, (w.node v).type = (t.wheel.node v).type)
    (hother : ∀ v, v ≠ routineNode r → (Tracked w out' v ↔ Tracked t.wheel out v) ∧
      (w.node v).deadlineMs = (t.wheel.node v).deadlineMs)
    (hself : Tracked w out' (routineNode r) ↔ state' r = some .waitTimer)
    (hoff : ∀ v, out' = some v → ¬ w.Linked v) (hstate : ∀ q, q ≠ r → state' q = state q)
    (hio : state r ≠ some .waitIo) (hio' : state' r ≠ some .waitIo) :
    Waits out' loose state' { t with wheel := w } where
  wheel := hinv
  typed v := (htype v).trans (h.typed v)
  off := hoff
  timer q := by
    by_cases hq : q = r
    · rw [hq]
      exact hself
    · rw [hstate q hq]
      exact (hother _ fun heq => hq (routineNode_inj heq)).1.trans (h.timer q)
  waiter q k hk := by
    have hq : q ≠ r := fun heq => hio (heq ▸ (h.waiter q k hk).1)
    rw [hstate q hq]
    exact h.waiter q k hk
  pending q hq := by
    have hqr : q ≠ r := fun heq => hio' (heq ▸ hq)
    exact h.pending q ((hstate q hqr).symm.trans hq)
  slot := h.slot
  clock k hk := by
    obtain ⟨htracked, hdeadline⟩ := hother (operationNode k) (routineNode_ne_operationNode r k).symm
    rw [hdeadline]
    exact h.clock k (htracked.mp hk)
  kept k op hop hwait := by
    obtain ⟨hnone, hplace⟩ := h.kept k op hop hwait
    refine ⟨hnone, hplace.imp_right fun hp => ⟨hp.1, fun hd => ?_⟩⟩
    exact (hother _ (routineNode_ne_operationNode r k).symm).1.mpr (hp.2 hd)
  done := h.done

end

/-! ## A wait ends -/

section
variable {k : Nat} {op : IoWaitOperation}

/-- The operation is out of the wheel and out of its slot; the others are where they were. -/
structure Detached (t : WaitTable) (k : Nat) (w : TimerWheel Nat) (fds : Int → Option FdContext) :
    Prop where
  inv : w.Inv
  type : ∀ v, (w.node v).type = (t.wheel.node v).type
  deadline : ∀ v, (w.node v).deadlineMs = (t.wheel.node v).deadlineMs
  linked : ∀ v, w.Linked v ↔ v ≠ operationNode k ∧ t.wheel.Linked v
  slots : ∀ fd d, ({ t with fds := fds } : WaitTable).slotOf fd d =
    if t.slotOf fd d = some k then none else t.slotOf fd d

theorem Detached.tracked (h : Detached t k w fds) (hout : ∀ v, out = some v → v = operationNode k)
    {v : Nat} : Tracked w none v ↔ v ≠ operationNode k ∧ Tracked t.wheel out v := by
  unfold Tracked
  rw [h.linked]
  constructor
  · rintro (hv | hv)
    · exact ⟨hv.1, .inl hv.2⟩
    · cases hv
  · rintro ⟨hne, hv | hv⟩
    · exact .inl ⟨hne, hv⟩
    · exact absurd (hout v hv) hne

theorem getElem?_modify_operation {f : IoWaitOperation → IoWaitOperation} {j : Nat}
    {op' : IoWaitOperation} (hop : t.operations[k]? = some op)
    (h : (t.operations.modify k f)[j]? = some op') :
    (j = k ∧ op' = f op) ∨ (j ≠ k ∧ t.operations[j]? = some op') := by
  rcases getElem?_modify_cases h with ⟨x, rfl, hx, rfl⟩ | ⟨hne, hx⟩
  · cases hop.symm.trans hx
    exact .inl ⟨rfl, rfl⟩
  · exact .inr ⟨Ne.symm hne, hx⟩

section
variable (h : Waits out loose state t) (hop : t.operations[k]? = some op)
  (hwait : t.ioWait op.routine = some k) (hout : ∀ v, out = some v → v = operationNode k)
  (hd : Detached t k w fds)
include h hop hwait hout hd

/-- **A wait ends**: its waiter is woken with a result that it may have, and nothing refers to it
    any more. -/
theorem complete {result : WaitResult} {reading : Option Nat} {next : CoroutineState}
    {stranded : List Nat} (hnext : next ≠ .waitIo ∧ next ≠ .waitTimer)
    (hstate : ∀ q, state' q = if q = op.routine then some next else state q)
    (hstranded : ∀ q, q ≠ op.routine → (q ∈ stranded ↔ q ∈ t.stranded))
    (hallowed : ({ op with result := result } : IoWaitOperation).Ended (result, reading)) :
    Waits none loose state'
      { wheel := w
        fds := fds
        operations := t.operations.modify k fun op =>
          { op with result := result, completions := op.completions ++ [(result, reading)] }
        ioWait := update t.ioWait op.routine none
        stranded := stranded } where
  wheel := hd.inv
  typed v := (hd.type v).trans (h.typed v)
  off v hv := by cases hv
  timer q := by
    have htracked : Tracked w none (routineNode q) ↔ Tracked t.wheel out (routineNode q) := by
      rw [hd.tracked hout]
      simp [routineNode_ne_operationNode]
    rw [htracked, h.timer, hstate]
    split
    · rename_i heq
      rw [heq, (h.waiter _ k hwait).1]
      simp [hnext.2]
    · rfl
  waiter q j hj := by
    have hne : q ≠ op.routine := by
      rintro rfl
      simp at hj
    simp only [update_of_ne hne] at hj
    obtain ⟨hq, op', hop', hroutine⟩ := h.waiter q j hj
    refine ⟨by rw [hstate, if_neg hne]; exact hq, ?_⟩
    have hjk : k ≠ j := by
      rintro rfl
      cases hop.symm.trans hop'
      exact hne hroutine.symm
    exact ⟨op', by rw [getElem?_modify_of_ne hjk, hop'], hroutine⟩
  pending q hq := by
    rw [hstate] at hq
    split at hq
    · exact absurd (some.inj hq) hnext.1
    · rename_i hne
      obtain ⟨j, hj⟩ := h.pending q hq
      exact ⟨j, (update_of_ne hne _ _).trans hj⟩
  slot fd d j hj := by
    change ({ t with fds := fds } : WaitTable).slotOf fd d = some j at hj
    rw [hd.slots] at hj
    split at hj
    · cases hj
    · rename_i hne
      obtain ⟨op', hop', hfd, hdir, hw⟩ := h.slot fd d j hj
      have hjk : k ≠ j := fun heq => hne (heq ▸ hj)
      refine ⟨op', by rw [getElem?_modify_of_ne hjk, hop'], hfd, hdir, ?_⟩
      have hr : op'.routine ≠ op.routine := fun heq =>
        hjk (some.inj (hwait.symm.trans (heq ▸ hw)))
      exact (update_of_ne hr _ _).trans hw
  clock j hj := by
    obtain ⟨hne, hj⟩ := (hd.tracked hout).mp hj
    obtain ⟨op', hop', hw, hdeadline⟩ := h.clock j hj
    have hjk : k ≠ j := fun heq => hne (heq ▸ rfl)
    have hr : op'.routine ≠ op.routine := fun heq =>
      hjk (some.inj (hwait.symm.trans (heq ▸ hw)))
    exact ⟨op', by rw [getElem?_modify_of_ne hjk, hop'], (update_of_ne hr _ _).trans hw,
      by rw [hd.deadline]; exact hdeadline⟩
  kept j op' hop' hw := by
    rcases getElem?_modify_operation hop hop' with ⟨rfl, rfl⟩ | ⟨hjk, hop'⟩
    · simp at hw
    · have hr : op'.routine ≠ op.routine := by
        intro heq
        rw [heq] at hw
        simp at hw
      simp only [update_of_ne hr] at hw
      obtain ⟨hnone, hplace⟩ := h.kept j op' hop' hw
      refine ⟨hnone, ?_⟩
      rcases hplace with hs | ⟨hslot, hclock⟩
      · exact .inl ((hstranded _ hr).mpr hs)
      · refine .inr ⟨hslot.imp_right fun hslot => ?_, fun hsome => ?_⟩
        · refine (hd.slots _ _).trans ?_
          rw [hslot, if_neg (by simpa using hjk)]
        · exact (hd.tracked hout).mpr ⟨fun heq => hjk (operationNode_inj heq), hclock hsome⟩
  done j op' hop' hw := by
    rcases getElem?_modify_operation hop hop' with ⟨rfl, rfl⟩ | ⟨hjk, hop'⟩
    · refine ⟨(result, reading), ?_, ⟨hallowed.result, hallowed.allowed⟩⟩
      rw [(h.kept j op hop hwait).1, nil_append]
    · refine h.done j op' hop' fun hw' => hw ?_
      have hr : op'.routine ≠ op.routine := fun heq =>
        hjk (some.inj ((heq ▸ hw').symm.trans hwait))
      exact (update_of_ne hr _ _).trans hw'

/-- A completion that throws: the operation is detached, and its waiter is not woken. -/
theorem strand {result : WaitResult} :
    Waits none loose state
      { wheel := w
        fds := fds
        operations := t.operations.modify k fun op => { op with result := result }
        ioWait := t.ioWait
        stranded := op.routine :: t.stranded } where
  wheel := hd.inv
  typed v := (hd.type v).trans (h.typed v)
  off v hv := by cases hv
  timer q := by
    rw [hd.tracked hout, ← h.timer]
    simp [routineNode_ne_operationNode]
  waiter q j hj := by
    obtain ⟨hq, op', hop', hroutine⟩ := h.waiter q j hj
    refine ⟨hq, ?_⟩
    by_cases hjk : k = j
    · subst hjk
      cases hop.symm.trans hop'
      exact ⟨_, getElem?_modify_self hop, hroutine⟩
    · exact ⟨op', by rw [getElem?_modify_of_ne hjk, hop'], hroutine⟩
  pending := h.pending
  slot fd d j hj := by
    change ({ t with fds := fds } : WaitTable).slotOf fd d = some j at hj
    rw [hd.slots] at hj
    split at hj
    · cases hj
    · rename_i hne
      obtain ⟨op', hop', hrest⟩ := h.slot fd d j hj
      have hjk : k ≠ j := fun heq => hne (heq ▸ hj)
      exact ⟨op', by rw [getElem?_modify_of_ne hjk, hop'], hrest⟩
  clock j hj := by
    obtain ⟨hne, hj⟩ := (hd.tracked hout).mp hj
    obtain ⟨op', hop', hw, hdeadline⟩ := h.clock j hj
    have hjk : k ≠ j := fun heq => hne (heq ▸ rfl)
    exact ⟨op', by rw [getElem?_modify_of_ne hjk, hop'], hw, by rw [hd.deadline]; exact hdeadline⟩
  kept j op' hop' hw := by
    rcases getElem?_modify_operation hop hop' with ⟨rfl, rfl⟩ | ⟨hjk, hop'⟩
    · exact ⟨(h.kept j op hop hwait).1, .inl (mem_cons_self ..)⟩
    · obtain ⟨hnone, hplace⟩ := h.kept j op' hop' hw
      refine ⟨hnone, ?_⟩
      rcases hplace with hs | ⟨hslot, hclock⟩
      · exact .inl (mem_cons_of_mem _ hs)
      · refine .inr ⟨hslot.imp_right fun hslot => ?_, fun hsome => ?_⟩
        · refine (hd.slots _ _).trans ?_
          rw [hslot, if_neg (by simpa using hjk)]
        · exact (hd.tracked hout).mpr ⟨fun heq => hjk (operationNode_inj heq), hclock hsome⟩
  done j op' hop' hw := by
    rcases getElem?_modify_operation hop hop' with ⟨rfl, rfl⟩ | ⟨hjk, hop'⟩
    · exact absurd hwait hw
    · exact h.done j op' hop' hw

end

end

/-! ## A wait begins -/

/-- A new operation is in its slot and, if `timed`, in the wheel; the others are where they were. -/
structure Armed (t : WaitTable) (op : IoWaitOperation) (timed : Bool) (w : TimerWheel Nat)
    (fds : Int → Option FdContext) : Prop where
  inv : w.Inv
  type : ∀ v, (w.node v).type = (t.wheel.node v).type
  linked : ∀ v, w.Linked v ↔ t.wheel.Linked v ∨ v = operationNode t.operations.length ∧ timed = true
  deadline : ∀ v, v ≠ operationNode t.operations.length →
    (w.node v).deadlineMs = (t.wheel.node v).deadlineMs
  due : timed = true → op.deadlineMs = some (w.node (operationNode t.operations.length)).deadlineMs
  slots : ∀ fd d, ({ t with fds := fds } : WaitTable).slotOf fd d =
    if fd = op.fd ∧ d = op.direction then some t.operations.length else t.slotOf fd d
  free : t.slotOf op.fd op.direction = none

theorem fresh (h : Waits none loose state t) :
    ¬ t.wheel.Linked (operationNode t.operations.length) ∧
      ∀ fd d, t.slotOf fd d ≠ some t.operations.length := by
  have hfresh : t.operations[t.operations.length]? = none := getElem?_eq_none (Nat.le_refl _)
  constructor
  · intro hl
    obtain ⟨op, hop, -⟩ := h.clock _ (.inl hl)
    cases hfresh.symm.trans hop
  · intro fd d hslot
    obtain ⟨op, hop, -⟩ := h.slot fd d _ hslot
    cases hfresh.symm.trans hop

/-- Every slot and every timer is what it was. -/
structure Undone (t : WaitTable) (w : TimerWheel Nat) (fds : Int → Option FdContext) : Prop where
  inv : w.Inv
  type : ∀ v, (w.node v).type = (t.wheel.node v).type
  linked : ∀ v, w.Linked v ↔ t.wheel.Linked v
  deadline : ∀ v, t.wheel.Linked v → (w.node v).deadlineMs = (t.wheel.node v).deadlineMs
  slots : ∀ fd d, ({ t with fds := fds } : WaitTable).slotOf fd d = t.slotOf fd d

theorem undo (h : Waits none loose state t) (hu : Undone t w fds) :
    Waits none loose state { t with wheel := w, fds := fds } := by
  refine (h.rewheel hu.inv hu.type (fun v => or_congr_left (hu.linked v)) (fun v hv => ?_)
    (by simp)).refds hu.slots
  exact hu.deadline v (hv.resolve_right (by simp))

theorem disarm {op : IoWaitOperation} {timed : Bool} {w' : TimerWheel Nat}
    {fds' : Int → Option FdContext} (h : Waits none loose state t) (ha : Armed t op timed w fds)
    (hinv : w'.Inv) (hlinks : TimerWheel.Relinked w w' fun v =>
      v ≠ operationNode t.operations.length ∧ w.Linked v)
    (hslots : ∀ fd d, ({ t with fds := fds' } : WaitTable).slotOf fd d =
      if ({ t with fds := fds } : WaitTable).slotOf fd d = some t.operations.length then none
      else ({ t with fds := fds } : WaitTable).slotOf fd d) :
    Undone t w' fds' := by
  obtain ⟨hoff, hnobody⟩ := h.fresh
  have hne : ∀ v, t.wheel.Linked v → v ≠ operationNode t.operations.length := by
    rintro v hv rfl
    exact hoff hv
  refine ⟨hinv, fun v => (hlinks.type v).trans (ha.type v), fun v => ?_,
    fun v hv => (hlinks.deadlineMs v).trans (ha.deadline v (hne v hv)), fun fd d => ?_⟩
  · rw [hlinks.linked, ha.linked]
    exact ⟨fun hv => hv.2.resolve_right fun heq => hv.1 heq.1, fun hv => ⟨hne v hv, .inl hv⟩⟩
  · refine (hslots fd d).trans ?_
    rw [ha.slots]
    split
    · rename_i hself
      rw [if_pos rfl, hself.1, hself.2, ← ha.free]
    · exact if_neg (hnobody fd d)

/-- **A wait begins**: the operation is referred to from wherever it can be. -/
theorem begin {op : IoWaitOperation} (h : Waits none loose state t) (hnew : op.completions = [])
    (hrun : state op.routine = some .running) (ha : Armed t op op.deadlineMs.isSome w fds)
    (hstate : ∀ q, state' q = if q = op.routine then some .waitIo else state q) :
    Waits none loose state'
      { wheel := w
        fds := fds
        operations := t.operations ++ [op]
        ioWait := update t.ioWait op.routine (some t.operations.length)
        stranded := t.stranded } := by
  -- the routine runs, so it waits for nothing, and the operation is new, so nothing refers to it
  have hfresh : t.operations[t.operations.length]? = none := getElem?_eq_none (Nat.le_refl _)
  have hrunner : ∀ k, t.ioWait op.routine ≠ some k := fun k hk => by
    rw [(h.waiter _ k hk).1] at hrun
    cases hrun
  have hold : ∀ {k : Nat} {op' : IoWaitOperation}, t.operations[k]? = some op' →
      k ≠ t.operations.length := fun hk heq => by
    rw [heq, hfresh] at hk
    cases hk
  have hkeep : ∀ {op' : IoWaitOperation} {k : Nat}, t.ioWait op'.routine = some k →
      update t.ioWait op.routine (some t.operations.length) op'.routine = some k := by
    intro op' k hk
    have hne : op'.routine ≠ op.routine := fun heq => hrunner k (heq ▸ hk)
    rw [update_of_ne hne, hk]
  obtain ⟨hinv, htype, hlinked, hdeadline, hdue, hslots, hfree⟩ := ha
  refine ⟨hinv, fun v => (htype v).trans (h.typed v), fun v hv => absurd hv (by simp),
    fun q => ?_, fun q k hk => ?_, fun q hq => ?_, fun fd d k hk => ?_, fun k hk => ?_,
    fun k op' hop' hw => ?_, fun k op' hop' hw => ?_⟩
  · have htracked : Tracked w none (routineNode q) ↔ Tracked t.wheel none (routineNode q) := by
      unfold Tracked
      rw [hlinked]
      simp [routineNode_ne_operationNode]
    rw [htracked, h.timer, hstate]
    split
    · rename_i heq
      rw [heq, hrun]
      simp
    · rfl
  · by_cases hq : q = op.routine
    · subst hq
      simp only [update_self, some.injEq] at hk
      subst hk
      exact ⟨by rw [hstate, if_pos rfl], op, getElem?_concat_length, rfl⟩
    · simp only [update_of_ne hq] at hk
      obtain ⟨hqs, op', hop', hroutine⟩ := h.waiter q k hk
      exact ⟨by rw [hstate, if_neg hq]; exact hqs, op', getElem?_append_of_eq_some hop', hroutine⟩
  · by_cases hqr : q = op.routine
    · rw [hqr]
      exact ⟨_, update_self ..⟩
    · rw [hstate, if_neg hqr] at hq
      obtain ⟨k, hk⟩ := h.pending q hq
      exact ⟨k, (update_of_ne hqr _ _).trans hk⟩
  · change ({ t with fds := fds } : WaitTable).slotOf fd d = some k at hk
    rw [hslots] at hk
    split at hk
    · rename_i heq
      cases hk
      exact ⟨op, getElem?_concat_length, heq.1.symm, heq.2.symm, update_self ..⟩
    · obtain ⟨op', hop', hfd, hdir, hw⟩ := h.slot fd d k hk
      exact ⟨op', getElem?_append_of_eq_some hop', hfd, hdir, hkeep hw⟩
  · rcases hk with hk | hk
    · rcases (hlinked _).mp hk with hk | ⟨heq, hsome⟩
      · obtain ⟨op', hop', hw, hdl⟩ := h.clock k (.inl hk)
        refine ⟨op', getElem?_append_of_eq_some hop', hkeep hw, ?_⟩
        rw [hdeadline _ fun heq => hold hop' (operationNode_inj heq)]
        exact hdl
      · obtain rfl := operationNode_inj heq
        exact ⟨op, getElem?_concat_length, update_self .., hdue hsome⟩
    · cases hk
  · rcases getElem?_snoc hop' with hop' | ⟨rfl, rfl⟩
    · have hw' : t.ioWait op'.routine = some k := by
        by_cases heq : op'.routine = op.routine
        · rw [heq] at hw
          simp only [update_self, some.injEq] at hw
          exact absurd hw.symm (hold hop')
        · exact (update_of_ne heq _ _).symm.trans hw
      obtain ⟨hnone, hplace⟩ := h.kept k op' hop' hw'
      refine ⟨hnone, hplace.imp_right fun hp => ⟨hp.1.imp_right fun hslot => ?_, fun hsome =>
        (hp.2 hsome).imp_left fun hl => (hlinked _).mpr (.inl hl)⟩⟩
      have hne : ¬ (op'.fd = op.fd ∧ op'.direction = op.direction) := by
        rintro ⟨hfd, hdir⟩
        rw [hfd, hdir, hfree] at hslot
        cases hslot
      exact (hslots _ _).trans ((if_neg hne).trans hslot)
    · refine ⟨hnew, .inr ⟨.inr ?_, fun hsome => .inl ((hlinked _).mpr (.inr ⟨rfl, hsome⟩))⟩⟩
      exact (hslots _ _).trans (if_pos ⟨rfl, rfl⟩)
  · rcases getElem?_snoc hop' with hop' | ⟨rfl, rfl⟩
    · refine h.done k op' hop' fun hw' => hw (hkeep hw')
    · exact absurd (update_self ..) hw

end Waits

end CoroRpc.Runtime
