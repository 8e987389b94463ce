import CoroRpc.Runtime.SharedStack

/-!
# Stack integrity over whole runs

The invariant of the scheduler between its steps, and with it the result on every switch: control
that comes to a coroutine which has run before finds the stack pointer where it was and the bytes
above it as they were. Creation, reuse from the pool, resumption from
the root or from a coroutine at any depth, suspension and the end of a coroutine are the cases of
one induction.
-/

namespace CoroRpc.Runtime

open Lib List Option Stack

/-! ## What a switch keeps of a routine -/

/-- A routine before and after some other routine's business. -/
structure Flows (x y : Routine) : Prop where
  stack : y.stack = x.stack
  state : y.state = x.state
  context : x.context.isSome → y.context.isSome
  gaveUp : x.gaveUp.isSome → y.gaveUp.isSome

instance : Std.Refl Flows := ⟨fun _ => ⟨rfl, rfl, id, id⟩⟩

theorem Flows.trans {x y z : Routine} (h : Flows x y) (h' : Flows y z) : Flows x z :=
  ⟨h'.stack.trans h.stack, h'.state.trans h.state, fun hc => h'.context (h.context hc),
    fun hg => h'.gaveUp (h.gaveUp hg)⟩

instance : IsTrans Routine Flows := ⟨fun _ _ _ => .trans⟩

def Flow (l l' : List Routine) : Prop := Stays Flows l l' ∧ Stays (Function.swap Flows) l' l

theorem Flow.refl (l : List Routine) : Flow l l := ⟨.refl l, .refl l⟩

theorem Flow.trans {l l' l'' : List Routine} (h : Flow l l') (h' : Flow l' l'') : Flow l l'' :=
  ⟨h.1.trans h'.1, h'.2.trans h.2⟩

theorem Flow.modify (l : List Routine) (r : Nat) {f : Routine → Routine} (hf : ∀ x, Flows x (f x)) :
    Flow l (l.modify r f) := ⟨.modify hf, .of_modify hf⟩

theorem SnapshotOnly.flows {f : Routine → Routine} (h : SnapshotOnly f) (x : Routine) :
    Flows x (f x) :=
  ⟨h.stack x, h.state x, by rw [h.context]; exact fun hc => hc,
    by rw [h.gaveUp]; exact fun hg => hg⟩

/-! ## The invariant -/

structure Inv (options : SchedulerOptions) (s : Scheduler) : Prop where
  kept : Kept s.routines s.stackTable (fun r => s.current = some r) none 0
  current : s.current = s.callStack.head?
  nodup : s.callStack.Nodup
  running : ∀ r ∈ s.callStack, ∃ x : Routine, s.routines[r]? = some x ∧ x.state = .running ∧
    x.context.isSome
  /-- The coroutine that runs occupies its slot. -/
  resident : ∀ (r : Nat) (x : Routine) (k : Stack), s.current = some r →
    s.routines[r]? = some x → s.stackTable[x.stack]? = some k → k.isShared = true →
    k.occupant = some r
  /-- A coroutine that has run and has not finished has given up control some time. -/
  started : ∀ (r : Nat) (x : Routine), s.routines[r]? = some x → s.current ≠ some r →
    x.context.isSome → x.state ≠ .finished → x.gaveUp.isSome
  slots : ∀ j < options.sharedStackCount, (s.stackTable.map isShared)[j]? = some true

namespace Scheduler

variable {options : SchedulerOptions} {s s' : Scheduler}

variable {r : Nat}

theorem mem_callStack_of_current (h : Inv options s) (hc : s.current = some r) :
    r ∈ s.callStack := by
  rw [h.current] at hc
  exact mem_of_mem_head? hc

variable {sp : Nat}

/-- The coroutine that runs, its stack, and the bounds of its stack pointer. -/
theorem current_stack (h : Inv options s) {c : Nat} (hc : s.current = some c)
    (hsp : s.onStack sp = true) :
    ∃ x k, s.routines[c]? = some x ∧ s.stackTable[x.stack]? = some k ∧ x.state = .running ∧
      k.usableBottom ≤ sp ∧ sp ≤ k.stackTop := by
  obtain ⟨x, hx, hrun, -⟩ := h.running c (mem_callStack_of_current h hc)
  obtain ⟨k, hk⟩ := h.kept.stack hx
  simp only [onStack, hc, hx, hk, any_some, decide_eq_true_eq] at hsp
  exact ⟨x, k, hx, hk, hrun, hsp.1, hsp.2⟩

/-- After `leave` nobody runs, and every suspended coroutine is recoverable. -/
theorem leave_kept (h : Inv options s) (hsp : s.onStack sp = true) :
    Kept (s.leave sp).routines (s.leave sp).stackTable (fun _ => False) s.current sp ∧
    Flow s.routines (s.leave sp).routines ∧
    (s.leave sp = { s with routines := (s.leave sp).routines }) ∧
    (∀ q, s.current ≠ some q → (s.leave sp).routines[q]? = s.routines[q]?) ∧
    ∀ c, s.current = some c → ∃ x, (s.leave sp).routines[c]? = some x ∧ x.gaveUp.isSome := by
  unfold leave
  split
  · next c hc =>
    obtain ⟨x, k, hx, hk, hrun, hb, ht⟩ := current_stack h hc hsp
    have hkept : Kept s.routines s.stackTable (· = c) none 0 :=
      h.kept.mono fun r hr => (some.inj (hc.symm.trans hr)).symm
    simp only [noteGaveUp, hx, hk, setRoutine]
    refine ⟨?_, .modify _ _ fun y => ⟨rfl, rfl, id, fun _ => rfl⟩, trivial, ?_, ?_⟩
    · rw [hc]
      exact hkept.note hx hk hb ht (h.resident c x k hc hx hk) (by simp [hrun]) (by simp [hrun])
    · intro q hq
      exact getElem?_modify_of_ne fun heq => hq (heq ▸ hc)
    · rintro c' hc'
      cases hc.symm.trans hc'
      exact ⟨_, getElem?_modify_self hx, rfl⟩
  · next hc =>
    refine ⟨?_, .refl _, rfl, fun _ _ => rfl, fun c hc' => ?_⟩
    swap
    · rw [hc] at hc'
      cases hc'
    rw [hc]
    exact (h.kept.mono fun r hr => by rw [hc] at hr; cases hr).anyPointer

variable {left : Option Nat}

theorem initializeContext_kept {x : Routine}
    (h : Kept s.routines s.stackTable (fun _ => False) left sp) (hl : left ≠ some r)
    (hx : s.routines[r]? = some x) :
    Kept (s.initializeContext r).routines s.stackTable (fun _ => False) left sp ∧
    Flow s.routines (s.initializeContext r).routines ∧
    s.initializeContext r = { s with routines := (s.initializeContext r).routines } ∧
    (∀ q, r ≠ q → (s.initializeContext r).routines[q]? = s.routines[q]?) ∧
    ∃ y, (s.initializeContext r).routines[r]? = some y ∧ y.context.isSome ∧
      y.gaveUp = x.gaveUp ∧ y.stack = x.stack := by
  obtain ⟨k, hk⟩ := h.stack hx
  cases hc : x.context with
  | some a =>
    have heq : s.initializeContext r = s := by simp [initializeContext, hx, hc]
    rw [heq]
    exact ⟨h, .refl _, rfl, fun _ _ => rfl, x, hx, by rw [hc]; rfl, rfl, rfl⟩
  | none =>
    have heq : s.initializeContext r =
        s.setRoutine r fun x => { x with context := some (k.stackTop - 8) } := by
      simp [initializeContext, hx, hc, hk]
    rw [heq]
    refine ⟨?_, .modify _ _ fun y => ⟨rfl, rfl, fun _ => rfl, id⟩, rfl,
      fun q hq => getElem?_modify_of_ne hq, _, getElem?_modify_self hx, rfl, rfl, rfl⟩
    refine h.modify (fun _ => rfl) (fun _ _ => rfl) (fun _ _ => ⟨rfl, rfl⟩) ?_
      (fun _ _ _ hp => ⟨hp.1, hp.2, hp.3⟩)
    -- A routine that has given up control has a context.
    intro y hy _ hg
    cases hx.symm.trans hy
    obtain ⟨⟨a, bytes⟩, hga⟩ := isSome_iff_exists.mp hg
    have hptr := (h.parked r x a bytes hx id hga).1
    rw [pointerOf, if_neg hl, hc] at hptr
    cases hptr

/-- The routines once the switch has stored the stack pointer of the one that is left. -/
def storeLeft (routines : List Routine) (sp : Nat) : Option Nat → List Routine
  | some c => routines.modify c fun x => { x with context := some sp }
  | none => routines

theorem storeLeft_flow (routines : List Routine) (sp : Nat) (left : Option Nat) :
    Flow routines (storeLeft routines sp left) := by
  cases left with
  | none => exact .refl _
  | some c => exact .modify _ _ fun x => ⟨rfl, rfl, fun _ => rfl, id⟩

variable {routines : List Routine}

theorem storeLeft_kept {stackTable : List Stack} {exempt : Nat → Prop}
    (h : Kept routines stackTable exempt left sp) :
    Kept (storeLeft routines sp left) stackTable exempt none 0 := by
  cases left with
  | none => exact h.anyPointer
  | some c => exact h.storeContext

theorem storeLeft_of_ne (h : left ≠ some r) : (storeLeft routines sp left)[r]? = routines[r]? := by
  cases left with
  | none => rfl
  | some c => exact getElem?_modify_of_ne fun heq => h (heq ▸ rfl)

theorem storeLeft_same {q : Nat} {w : Routine} (h : (storeLeft routines sp left)[q]? = some w) :
    ∃ y, routines[q]? = some y ∧ w.state = y.state ∧ w.gaveUp = y.gaveUp ∧
      (left ≠ some q → w.context = y.context) := by
  cases left with
  | none => exact ⟨w, h, rfl, rfl, fun _ => rfl⟩
  | some c =>
    rcases getElem?_modify_cases h with ⟨y, rfl, hy, rfl⟩ | ⟨-, hy⟩
    · exact ⟨y, hy, rfl, rfl, fun hne => absurd rfl hne⟩
    · exact ⟨w, hy, rfl, rfl, fun _ => rfl⟩

theorem contextSwitch_eq {x : Routine} {restore : Option (Nat × Bytes)}
    (hx : s.routines[r]? = some x) :
    s.contextSwitch left sp (some r) restore = { s with
        routines := storeLeft s.routines sp left
        stackTable := restored s.stackTable x.stack restore } := by
  obtain ⟨y, hy, hxy⟩ := (storeLeft_flow s.routines sp left).1 r x hx
  cases left with
  | none =>
    cases restore with
    | none => rfl
    | some p => simp [contextSwitch, hx, storeLeft, restored, setStack]
  | some c =>
    simp only [storeLeft] at hy
    cases restore with
    | none => rfl
    | some p => simp [contextSwitch, setRoutine, hy, hxy.stack, storeLeft, restored, setStack]

end Scheduler

/-- What control finds when it comes to a routine that has run before: the stack pointer at which
    the routine gave up control, and above it the bytes that were there. -/
def Intact (s : Scheduler) (r : Nat) : Prop :=
  ∃ (x : Routine) (k : Stack) (sp : Nat) (bytes : Bytes), s.routines[r]? = some x ∧
    s.stackTable[x.stack]? = some k ∧ x.gaveUp = some (sp, bytes) ∧ x.context = some sp ∧
    k.used sp = bytes

namespace Scheduler

variable {options : SchedulerOptions} {s s' : Scheduler} {r sp : Nat} {x : Routine}

/-- The part of a switch that `Resume` and `YieldCurrent` share: from a state in which everything
    suspended is recoverable, control goes to `r`. -/
theorem switchTo {m prepared : Scheduler} {left : Option Nat} {restore : Option (Nat × Bytes)}
    {exempt : Nat → Prop} (h : Kept m.routines m.stackTable exempt left sp)
    (hx : m.routines[r]? = some x) (hr : ¬ exempt r) (hl : left ≠ some r)
    (hp : m.prepareSharedStack r left sp = .ok (prepared, restore)) :
    prepared = { m with routines := prepared.routines, stackTable := prepared.stackTable } ∧
    Kept (storeLeft prepared.routines sp left) (restored prepared.stackTable x.stack restore)
      (fun q => exempt q ∨ q = r) none 0 ∧
    (restored prepared.stackTable x.stack restore).map isShared = m.stackTable.map isShared ∧
    Flow m.routines (storeLeft prepared.routines sp left) ∧
    (∀ q w, (storeLeft prepared.routines sp left)[q]? = some w →
      ∃ y, m.routines[q]? = some y ∧ w.state = y.state ∧ w.gaveUp = y.gaveUp ∧
        (left ≠ some q → w.context = y.context)) ∧
    (∃ y, prepared.routines[r]? = some y ∧
      (storeLeft prepared.routines sp left)[r]? = some y ∧ y.stack = x.stack ∧
      y.context = x.context ∧ y.gaveUp = x.gaveUp) ∧
    (∀ k, (restored prepared.stackTable x.stack restore)[x.stack]? = some k →
      (k.isShared = true → k.occupant = some r) ∧
      ∀ a bytes, x.gaveUp = some (a, bytes) → k.used a = bytes) := by
  obtain ⟨⟨o, f, hf, hprep⟩, hshared, hkept, hmem⟩ := prepare_kept h hx hr hp
  have hroutines : prepared.routines = m.routines.modify o f := by rw [hprep]
  refine ⟨by rw [hprep], storeLeft_kept hkept, hshared, ?_, ?_, ?_, hmem⟩
  · rw [hroutines]
    exact (Flow.modify _ _ hf.flows).trans (storeLeft_flow _ _ _)
  · intro q w hw
    obtain ⟨v, hv, hstate, hgave, hctx⟩ := storeLeft_same hw
    rw [hroutines] at hv
    rcases getElem?_modify_cases hv with ⟨y, -, hy, rfl⟩ | ⟨-, hy⟩
    · exact ⟨y, hy, hstate.trans (hf.state y), hgave.trans (hf.gaveUp y),
        fun hq => (hctx hq).trans (hf.context y)⟩
    · exact ⟨v, hy, hstate, hgave, hctx⟩
  · refine ⟨if o = r then f x else x, ?_, ?_, ?_⟩
    · rw [hroutines]
      exact getElem?_modify_iff.mpr ⟨x, hx, rfl⟩
    · rw [storeLeft_of_ne hl, hroutines]
      exact getElem?_modify_iff.mpr ⟨x, hx, rfl⟩
    · split
      · exact ⟨hf.stack x, hf.context x, hf.gaveUp x⟩
      · exact ⟨rfl, rfl, rfl⟩

theorem intact_of_used {y : Routine} {k : Stack} (hy : s.routines[r]? = some y)
    (hk : s.stackTable[y.stack]? = some k) (hgy : y.gaveUp = x.gaveUp) (hgave : x.gaveUp.isSome)
    (hcontext : ∀ a bytes, x.gaveUp = some (a, bytes) → y.context = some a)
    (hused : ∀ a bytes, x.gaveUp = some (a, bytes) → k.used a = bytes) : Intact s r := by
  obtain ⟨⟨a, bytes⟩, hg⟩ := isSome_iff_exists.mp hgave
  exact ⟨y, k, a, bytes, hy, hk, hgy.trans hg, hcontext a bytes hg, hused a bytes hg⟩

theorem storeLeft_modify {routines : List Routine} {left : Option Nat} {g : Routine → Routine}
    (hl : left ≠ some r) :
    storeLeft (routines.modify r g) sp left = (storeLeft routines sp left).modify r g := by
  cases left with
  | none => rfl
  | some c => exact modify_modify_ne _ _ _ fun heq => hl (heq ▸ rfl)

theorem resume_ok (hs : s.resume r sp = .ok s') :
    ∃ x prepared restore, s.routines[r]? = some x ∧ s.current ≠ some r ∧
      (x.state = .init ∨ x.state = .ready ∨ x.state = .waitEvent) ∧
      ((s.leave sp).initializeContext r).prepareSharedStack r s.current sp =
        .ok (prepared, restore) ∧
      s' = ({ prepared.setRoutine r fun x => { x with state := .running } with
            callStack := r :: prepared.callStack
            current := some r } : Scheduler).contextSwitch s.current sp (some r) restore := by
  unfold resume at hs
  split at hs
  · cases hs
  · next x hx =>
    split at hs
    · cases hs
    · next hcur =>
      split at hs
      · cases hs
      · split at hs
        · cases hs
        · next hstate =>
          dsimp only at hs
          split at hs
          · cases hs
          · next prepared restore hp =>
            refine ⟨x, prepared, restore, hx, hcur, ?_, hp, (Except.ok.inj hs).symm⟩
            by_contra hne
            simp only [not_or] at hne
            exact hstate hne

theorem resume_spec (h : Inv options s) (hsp : s.onStack sp = true) (hs : s.resume r sp = .ok s') :
    Inv options s' ∧ s'.current = some r ∧
      ∀ x, s.routines[r]? = some x → x.context.isSome → Intact s' r := by
  obtain ⟨x, prepared, restore, hx, hcur, hstate, hp, hs'⟩ := resume_ok hs
  obtain ⟨hleave, hflow₁, heq₁, hother, hgave⟩ := leave_kept h hsp
  obtain ⟨hinit, hflow₂, heq₂, hsame₂, y, hy, hyc, hyg, hys⟩ :=
    initializeContext_kept hleave hcur ((hother r hcur).trans hx)
  generalize hm : (s.leave sp).initializeContext r = m at hp hinit hflow₂ heq₂ hsame₂ hy
  have hmstacks : m.stackTable = s.stackTable := by rw [heq₂, heq₁]
  have hmstack : m.callStack = s.callStack := by rw [heq₂, heq₁]
  rw [← (show m.stackTable = (s.leave sp).stackTable by rw [heq₂])] at hinit
  obtain ⟨hprep, hkept, hshared, hflow₃, hsame₃, ⟨z, hz, hz', hzs, hzc, hzg⟩, hmem⟩ :=
    switchTo hinit hy id hcur hp
  have hpstack : prepared.callStack = s.callStack := by rw [hprep, hmstack]
  -- The state that is entered, field by field.
  rw [contextSwitch_eq (getElem?_modify_self hz)] at hs'
  dsimp only [setRoutine] at hs'
  rw [storeLeft_modify hcur, hzs] at hs'
  have hflow := (hflow₁.trans hflow₂).trans hflow₃
  have hroutines : s'.routines = (storeLeft prepared.routines sp s.current).modify r
      fun x => { x with state := .running } := by rw [hs']
  have hstacks : s'.stackTable = restored prepared.stackTable y.stack restore := by rw [hs']
  have hcurrent : s'.current = some r := by rw [hs']
  have hcalls : s'.callStack = r :: s.callStack := by rw [hs', ← hpstack]
  have hz'' : s'.routines[r]? = some { z with state := .running } := by
    rw [hroutines]
    exact getElem?_modify_self hz'
  have hnotin : r ∉ s.callStack := by
    intro hmem
    obtain ⟨x', hx', hrun, -⟩ := h.running r hmem
    cases hx.symm.trans hx'
    rw [hrun] at hstate
    simp at hstate
  refine ⟨?_, hcurrent, ?_⟩
  · exact
      { kept := by
          rw [hroutines, hstacks]
          have hentered : Kept _ _ (fun q => s'.current = some q) none 0 := hkept.mono <| by
            rintro q (hq | rfl)
            · exact hq.elim
            · exact hcurrent
          exact hentered.modifyExempt hcurrent fun _ => rfl
        current := by rw [hcurrent, hcalls]; rfl
        nodup := by rw [hcalls]; exact nodup_cons.mpr ⟨hnotin, h.nodup⟩
        running := by
          intro q hq
          rw [hcalls] at hq
          rcases mem_cons.mp hq with rfl | hq
          · exact ⟨_, hz'', rfl, by rw [hzc]; exact hyc⟩
          · obtain ⟨x', hx', hrun, hctx⟩ := h.running q hq
            obtain ⟨w, hw, hfw⟩ := hflow.1 q x' hx'
            have hne : r ≠ q := by
              rintro rfl
              exact hnotin hq
            exact ⟨w, by rw [hroutines, getElem?_modify_of_ne hne, hw], hfw.state.trans hrun,
              hfw.context hctx⟩
        resident := by
          intro q w k hq hw hk hsh
          cases hcurrent.symm.trans hq
          cases hz''.symm.trans hw
          rw [hstacks] at hk
          exact (hmem k (hzs ▸ hk)).1 hsh
        started := by
          intro q w hw hq hctx hfin
          have hne : r ≠ q := by
            rintro rfl
            exact hq hcurrent
          rw [hroutines, getElem?_modify_of_ne hne] at hw
          -- Either `q` has just given up control, or nothing happened to it.
          by_cases hqc : s.current = some q
          · obtain ⟨u, hu, hug⟩ := hgave q hqc
            obtain ⟨v, hv, hfv⟩ := hflow₂.1 q u hu
            obtain ⟨w', hw', hfw⟩ := hflow₃.1 q v hv
            cases hw.symm.trans hw'
            exact hfw.gaveUp (hfv.gaveUp hug)
          · obtain ⟨v, hv, -, hvg, hvc⟩ := hsame₃ q w hw
            have hvc := hvc hqc
            rw [hsame₂ q hne, hother q hqc] at hv
            obtain ⟨u, hu, hfu⟩ := hflow.2 q w hw
            cases hv.symm.trans hu
            rw [hvg]
            exact h.started q v hv hqc (hvc ▸ hctx) (hfu.state ▸ hfin)
        slots := by
          rw [hstacks, hshared, hmstacks]
          exact h.slots }
  · intro x' hx' hctx
    cases hx.symm.trans hx'
    obtain ⟨k, hk⟩ := hkept.stack hz'
    rw [hzs] at hk
    have hk' : s'.stackTable[z.stack]? = some k := by rw [hstacks, hzs]; exact hk
    refine intact_of_used (x := x) hz'' hk' (hzg.trans hyg) ?_ ?_ ?_
    · refine h.started r x hx hcur hctx ?_
      rcases hstate with hst | hst | hst <;> rw [hst] <;> simp
    · intro a bytes hg
      have hptr := (hinit.parked r y a bytes hy id (hyg.trans hg)).1
      rw [pointerOf, if_neg hcur] at hptr
      exact hzc.trans hptr
    · exact fun a bytes hg => (hmem k hk).2 a bytes (hyg.trans hg)

/-- What the switch away from `r` makes of `m`, in which `r` has already been taken off the call
    stack. -/
structure YieldedTo (m t : Scheduler) (r : Nat) (exempt : Nat → Prop) : Prop where
  current : t.current = m.current
  callStack : t.callStack = m.callStack
  kept : Kept t.routines t.stackTable (fun q => exempt q ∨ m.current = some q) none 0
  shared : t.stackTable.map isShared = m.stackTable.map isShared
  flow : Flow m.routines t.routines
  same : ∀ q w, t.routines[q]? = some w → ∃ y, m.routines[q]? = some y ∧
    w.state = y.state ∧ w.gaveUp = y.gaveUp ∧ (r ≠ q → w.context = y.context)
  /-- The caller is back on its slot, with its bytes. -/
  caller : ∀ c x, m.current = some c → m.routines[c]? = some x → ∃ y k, t.routines[c]? = some y ∧
    t.stackTable[y.stack]? = some k ∧ y.gaveUp = x.gaveUp ∧ y.context = x.context ∧
    (k.isShared = true → k.occupant = some c) ∧
    ∀ a bytes, x.gaveUp = some (a, bytes) → k.used a = bytes

theorem yieldTo {m prepared : Scheduler} {restore : Option (Nat × Bytes)} {exempt : Nat → Prop}
    (h : Kept m.routines m.stackTable exempt (some r) sp)
    (hc : ∀ c, m.current = some c → ¬ exempt c ∧ r ≠ c ∧ ∃ x, m.routines[c]? = some x)
    (hp : (match m.current with
      | some c => m.prepareSharedStack c (some r) sp
      | none => .ok (m, none)) = .ok (prepared, restore)) :
    YieldedTo m (prepared.contextSwitch (some r) sp m.current restore) r exempt := by
  split at hp
  · next c hcur =>
    obtain ⟨hex, hne, x, hx⟩ := hc c hcur
    have hl : some r ≠ some c := by simpa using hne
    obtain ⟨hprep, hkept, hshared, hflow, hsame, ⟨z, hz, hz', hzs, hzc, hzg⟩, hmem⟩ :=
      switchTo h hx hex hl hp
    rw [hcur, contextSwitch_eq hz, hzs]
    refine
      { current := by rw [hprep]
        callStack := by rw [hprep]
        kept := hkept.mono fun q hq => hq.imp_right fun h => by rw [h, hcur]
        shared := hshared
        flow := hflow
        same := fun q w hw => by
          obtain ⟨y, hy, hstate, hgave, hctx⟩ := hsame q w hw
          exact ⟨y, hy, hstate, hgave, fun hq => hctx (by simpa using hq)⟩
        caller := ?_ }
    intro c' x' hc' hx'
    cases hcur.symm.trans hc'
    cases hx.symm.trans hx'
    obtain ⟨k, hk⟩ := hkept.stack hz'
    rw [hzs] at hk
    exact ⟨z, k, hz', by rw [hzs]; exact hk, hzg, hzc, (hmem k hk).1, (hmem k hk).2⟩
  · next hcur =>
    obtain ⟨rfl, rfl⟩ := Prod.mk.inj (Except.ok.inj hp)
    rw [hcur]
    exact
      { current := rfl
        callStack := rfl
        kept := (storeLeft_kept h).mono fun q hq => .inl hq
        shared := rfl
        flow := storeLeft_flow m.routines sp (some r)
        same := fun q w hw => by
          have hw' : (storeLeft m.routines sp (some r))[q]? = some w := hw
          obtain ⟨y, hy, hstate, hgave, hctx⟩ := storeLeft_same hw'
          exact ⟨y, hy, hstate, hgave, fun hq => hctx (by simpa using hq)⟩
        caller := fun c x hc => by rw [hcur] at hc; cases hc }

theorem yieldCurrent_ok {next : CoroutineState} (hs : s.yieldCurrent options next sp = .ok s') :
    ∃ r callers prepared restore, s.current = some r ∧ s.callStack = r :: callers ∧
      ∃ m, m =
        { (if next = .finished then s.setRoutine r fun x => { x with gaveUp := none }
            else s.leave sp).setRoutine r fun x => { x with state := next } with
          callStack := callers
          current := callers.head? } ∧
      (match m.current with
        | some c => m.prepareSharedStack c (some r) sp
        | none => .ok (m, none)) = .ok (prepared, restore) ∧
      s' =
        if next = .finished then
          (prepared.contextSwitch (some r) sp m.current restore).finishRoutine options r
        else if next = .ready then
          (prepared.contextSwitch (some r) sp m.current restore).enqueueReady r
        else prepared.contextSwitch (some r) sp m.current restore := by
  unfold yieldCurrent at hs
  split at hs
  · next r top callers hcur hcalls =>
    split at hs
    · cases hs
    · next htop =>
      obtain rfl : top = r := by simpa using htop
      dsimp only at hs
      split at hs
      · cases hs
      · next prepared restore hp =>
        refine ⟨top, callers, prepared, restore, hcur, hcalls, _, rfl, hp, ?_⟩
        split at hs
        · next hn => rw [if_pos hn]; exact (Except.ok.inj hs).symm
        · next hn =>
          rw [if_neg hn]
          split at hs
          · next hr => rw [if_pos hr]; exact (Except.ok.inj hs).symm
          · next hr => rw [if_neg hr]; exact (Except.ok.inj hs).symm
  · cases hs

/-- `m` is `s` with its current routine `r` taken off the call stack. -/
structure TakenOff (s m : Scheduler) (r : Nat) (callers : List Nat) : Prop where
  current : s.current = some r
  callStack : s.callStack = r :: callers
  current' : m.current = callers.head?
  callStack' : m.callStack = callers
  stackTable : m.stackTable = s.stackTable
  same : ∀ q, r ≠ q → m.routines[q]? = s.routines[q]?

section
variable {m t : Scheduler} {r : Nat} {callers : List Nat} {exempt : Nat → Prop}

variable {c : Nat}

theorem TakenOff.mem (hm : TakenOff s m r callers) (hc : m.current = some c) : c ∈ callers :=
  mem_of_mem_head? (hm.current' ▸ hc)

theorem TakenOff.ne (hm : TakenOff s m r callers) (h : Inv options s) (hc : c ∈ callers) :
    r ≠ c := by
  rintro rfl
  exact (nodup_cons.mp (hm.callStack ▸ h.nodup)).1 hc

theorem TakenOff.caller (hm : TakenOff s m r callers) (h : Inv options s) (hc : c ∈ callers) :
    ∃ x, m.routines[c]? = some x ∧ x.state = .running ∧ x.context.isSome ∧ x.gaveUp.isSome ∧
      ∀ a bytes, x.gaveUp = some (a, bytes) → x.context = some a := by
  obtain ⟨x, hx, hrun, hctx⟩ := h.running c (by rw [hm.callStack]; exact mem_cons_of_mem _ hc)
  have hnc : s.current ≠ some c := by
    rw [hm.current]
    simpa using hm.ne h hc
  refine ⟨x, (hm.same c (hm.ne h hc)).trans hx, hrun, hctx,
    h.started c x hx hnc hctx (by simp [hrun]), fun a bytes hg => ?_⟩
  simpa [pointerOf] using (h.kept.parked c x a bytes hx hnc hg).1

/-- Control is back with the caller, whose stack is intact. -/
theorem YieldedTo.intact (hy : YieldedTo m t r exempt) (hm : TakenOff s m r callers)
    (h : Inv options s) (hc : t.current = some c) : Intact t c := by
  rw [hy.current] at hc
  obtain ⟨x, hx, -, -, hgave, hctx⟩ := hm.caller h (hm.mem hc)
  obtain ⟨y, k, hyt, hk, hgy, hcontext, -, hused⟩ := hy.caller c x hc hx
  exact intact_of_used (x := x) hyt hk hgy hgave
    (fun a bytes hg => hcontext.trans (hctx a bytes hg)) hused

/-- The invariant once `r` has been left, if it holds what the invariant asks of `r` itself. -/
theorem YieldedTo.inv (hy : YieldedTo m t r exempt) (hm : TakenOff s m r callers)
    (h : Inv options s) (kept : Kept t.routines t.stackTable (fun q => t.current = some q) none 0)
    (hr : ∀ w, t.routines[r]? = some w → w.state ≠ .finished → w.gaveUp.isSome) :
    Inv options t where
  kept := kept
  current := by rw [hy.current, hy.callStack, hm.current', hm.callStack']
  nodup := by
    rw [hy.callStack, hm.callStack']
    exact (nodup_cons.mp (hm.callStack ▸ h.nodup)).2
  running := by
    intro q hq
    rw [hy.callStack, hm.callStack'] at hq
    obtain ⟨x, hx, hrun, hctx, -, -⟩ := hm.caller h hq
    obtain ⟨y, hyq, hfy⟩ := hy.flow.1 q x hx
    exact ⟨y, hyq, hfy.state.trans hrun, hfy.context hctx⟩
  resident := by
    intro q y k hq hyq hk hsh
    rw [hy.current] at hq
    obtain ⟨x, hx, -⟩ := hm.caller h (hm.mem hq)
    obtain ⟨y', k', hy', hk', -, -, hocc, -⟩ := hy.caller q x hq hx
    cases hyq.symm.trans hy'
    cases hk.symm.trans hk'
    exact hocc hsh
  started := by
    intro q w hw hq hctx hfin
    by_cases hrq : r = q
    · subst hrq
      exact hr w hw hfin
    · obtain ⟨y, hyq, hstate, hgave, hctxq⟩ := hy.same q w hw
      rw [hm.same q hrq] at hyq
      rw [hgave]
      refine h.started q y hyq ?_ (hctxq hrq ▸ hctx) (hstate ▸ hfin)
      rw [hm.current]
      simpa using hrq
  slots := by rw [hy.shared, hm.stackTable]; exact h.slots

end

theorem suspend_spec (h : Inv options s) {next : CoroutineState} (hnext : next.isWaiting = true)
    (hsp : s.onStack sp = true) (hs : s.yieldCurrent options next sp = .ok s') :
    Inv options s' ∧ ∀ c, s'.current = some c → Intact s' c := by
  obtain ⟨r, callers, prepared, restore, hcur, hcalls, m, hmeq, hp, hs'⟩ := yieldCurrent_ok hs
  have hfin : next ≠ .finished := by rintro rfl; cases hnext
  have hready : next ≠ .ready := by rintro rfl; cases hnext
  have hinit : next ≠ .init := by rintro rfl; cases hnext
  rw [if_neg hfin, if_neg hready] at hs'
  rw [if_neg hfin] at hmeq
  obtain ⟨hleave, -, heq, hother, hgave⟩ := leave_kept h hsp
  rw [hcur] at hleave
  have hmr : m.routines = (s.leave sp).routines.modify r fun x => { x with state := next } := by
    rw [hmeq]; rfl
  have hms : m.stackTable = (s.leave sp).stackTable := by rw [hmeq]; rfl
  have hm : TakenOff s m r callers :=
    { current := hcur
      callStack := hcalls
      current' := by rw [hmeq]
      callStack' := by rw [hmeq]
      stackTable := by rw [hms, heq]
      same := fun q hq => by
        rw [hmr, getElem?_modify_of_ne hq]
        exact hother q (by rw [hcur]; simpa using hq) }
  have hkept : Kept m.routines m.stackTable (fun _ => False) (some r) sp := by
    rw [hmr, hms]
    exact hleave.modify (fun _ => rfl) (fun _ _ => rfl) (fun _ _ => ⟨rfl, rfl⟩)
      (fun _ _ _ _ => rfl) fun _ _ _ hpk => ⟨hpk.gaveUp, hinit, hfin⟩
  have hy := yieldTo hkept (fun c hc => ⟨id, hm.ne h (hm.mem hc),
    (hm.caller h (hm.mem hc)).imp fun _ hx => hx.1⟩) hp
  rw [← hs'] at hy
  refine ⟨hy.inv hm h (hy.kept.mono fun q hq => ?_) ?_, fun c hc => hy.intact hm h hc⟩
  · rw [hy.current]
    exact hq.resolve_left id
  · -- `r` itself has just given up control.
    intro w hw _
    obtain ⟨y, hyq, -, hgy, -⟩ := hy.same r w hw
    obtain ⟨u, hu, hug⟩ := hgave r hcur
    rw [hmr, getElem?_modify_self hu] at hyq
    cases hyq
    rw [hgy]
    exact hug

/-! ## The end of a routine -/

theorem finishRoutine_eq (options : SchedulerOptions) (hx : s.routines[r]? = some x) :
    ∃ pool, s.finishRoutine options r = { s with
        routines := s.routines.modify r fun x =>
          { x with stackSnapshot := [], stackSnapshotBegin := 0 }
        stackTable := s.stackTable.modify x.stack fun k =>
          if k.occupant = some r then { k with occupant := none } else k
        pool := pool } := by
  simp only [finishRoutine, hx]
  split
  · exact ⟨_, rfl⟩
  · exact ⟨_, rfl⟩

/-- `FinishRoutine` for the routine that was left frees its slot and nothing else. -/
theorem YieldedTo.finishRoutine (options : SchedulerOptions) {m t : Scheduler}
    (hy : YieldedTo m t r (· = r)) (hr : m.current ≠ some r) (hx : t.routines[r]? = some x)
    (hg : x.gaveUp = none) : YieldedTo m (t.finishRoutine options r) r (fun _ => False) := by
  obtain ⟨pool, heq⟩ := finishRoutine_eq options hx
  rw [heq]
  refine
    { current := hy.current
      callStack := hy.callStack
      kept := (hy.kept.retire hx hg).mono fun q hq => .inr (hq.1.resolve_left hq.2)
      shared := ?_
      flow := hy.flow.trans (.modify _ _ fun _ => ⟨rfl, rfl, id, id⟩)
      same := fun q w hw => ?_
      caller := fun c z hc hz => ?_ }
  · refine (map_modify_eq fun k => ?_).trans hy.shared
    split <;> rfl
  · rcases getElem?_modify_cases hw with ⟨y, -, hyq, rfl⟩ | ⟨-, hyq⟩
    · exact hy.same q y hyq
    · exact hy.same q w hyq
  · obtain ⟨y, k, hyc, hk, hgy, hcy, hocc, hused⟩ := hy.caller c z hc hz
    have hne : r ≠ c := by
      rintro rfl
      exact hr hc
    refine ⟨y, _, by rw [getElem?_modify_of_ne hne, hyc], getElem?_modify_iff.mpr ⟨k, hk, rfl⟩, hgy,
      hcy, fun hsh => ?_, fun a bytes hga => ?_⟩
    · have hsh' : k.isShared = true := by
        split at hsh
        · split at hsh <;> exact hsh
        · exact hsh
      have ho := hocc hsh'
      have hno : k.occupant ≠ some r := by rw [ho]; simpa using hne.symm
      rw [if_neg hno, ite_self]
      exact ho
    · rw [← hused a bytes hga]
      split
      · split <;> rfl
      · rfl

theorem finish_spec (h : Inv options s) (hs : s.yieldCurrent options .finished sp = .ok s') :
    Inv options s' ∧ ∀ c, s'.current = some c → Intact s' c := by
  obtain ⟨r, callers, prepared, restore, hcur, hcalls, m, hmeq, hp, hs'⟩ := yieldCurrent_ok hs
  rw [if_pos rfl] at hs' hmeq
  have hmr : m.routines = (s.routines.modify r fun x => { x with gaveUp := none }).modify r
      fun x => { x with state := .finished } := by
    rw [hmeq]; rfl
  have hms : m.stackTable = s.stackTable := by rw [hmeq]; rfl
  have hm : TakenOff s m r callers :=
    { current := hcur
      callStack := hcalls
      current' := by rw [hmeq]
      callStack' := by rw [hmeq]
      stackTable := hms
      same := fun q hq => by rw [hmr, getElem?_modify_of_ne hq, getElem?_modify_of_ne hq] }
  -- `r` stays exempt: what it has on its stack is not needed any more.
  have hkept : Kept m.routines m.stackTable (· = r) (some r) sp := by
    rw [hmr, hms]
    have hexempt : Kept s.routines s.stackTable (· = r) none 0 :=
      h.kept.mono fun q hq => (some.inj (hcur.symm.trans hq)).symm
    refine Kept.modifyExempt ?_ rfl fun _ => rfl
    refine Kept.modifyExempt ?_ rfl fun _ => rfl
    exact hexempt.leaveExempt rfl
  have hy := yieldTo hkept (fun c hc => ⟨fun heq => hm.ne h (hm.mem hc) heq.symm,
    hm.ne h (hm.mem hc), (hm.caller h (hm.mem hc)).imp fun _ hx => hx.1⟩) hp
  obtain ⟨x, hx, -⟩ := h.running r (mem_callStack_of_current h hcur)
  have hxm : m.routines[r]? = some { x with gaveUp := none, state := .finished } := by
    rw [hmr, getElem?_modify_self (getElem?_modify_self hx)]
  obtain ⟨w, hw, -⟩ := hy.flow.1 r _ hxm
  obtain ⟨y, hyq, hwstate, hwg, -⟩ := hy.same r w hw
  cases hxm.symm.trans hyq
  have hr : m.current ≠ some r := fun hc => hm.ne h (hm.mem hc) rfl
  have hu := hy.finishRoutine options hr hw hwg
  rw [← hs'] at hu
  refine ⟨hu.inv hm h (hu.kept.mono fun q hq => ?_) ?_, fun c hc => hu.intact hm h hc⟩
  · rw [hu.current]
    exact hq.resolve_left id
  · intro v hv hvfin
    obtain ⟨y, hyq, hvstate, -, -⟩ := hu.same r v hv
    cases hxm.symm.trans hyq
    exact absurd hvstate hvfin

/-! ## Flags and creation -/

section
variable (h : Inv options s)
include h

/-- A change of a routine's flags. Its state may change if it does not run: a routine that was
    left stays one that can be gone back to. -/
theorem inv_setFlags {f : Routine → Routine} (hx : s.routines[r]? = some x)
    (hstack : ∀ x, (f x).stack = x.stack) (hcontext : ∀ x, (f x).context = x.context)
    (hgave : ∀ x, (f x).gaveUp = x.gaveUp)
    (hsnap : ∀ x, (f x).stackSnapshot = x.stackSnapshot ∧
      (f x).stackSnapshotBegin = x.stackSnapshotBegin)
    (hstate : (f x).state = x.state ∨
      x.state ≠ .running ∧ (x.context.isSome → x.state ≠ .finished) ∧
        (x.gaveUp.isSome → (f x).state ≠ .init ∧ (f x).state ≠ .finished)) :
    Inv options (s.setRoutine r f) where
  __ := h
  kept := by
    refine h.kept.modify hstack (fun y _ => hgave y) (fun y _ => hsnap y) (fun y _ _ _ => ?_) ?_
    · unfold pointerOf
      rw [hcontext]
    · intro y hy _ hp
      cases hx.symm.trans hy
      have hg : (f x).gaveUp.isSome := by
        rw [hgave]
        exact hp.gaveUp
      rcases hstate with heq | ⟨-, -, hpk⟩
      · exact ⟨hg, heq ▸ hp.state_ne_init, heq ▸ hp.state_ne_finished⟩
      · exact ⟨hg, (hpk hp.gaveUp).1, (hpk hp.gaveUp).2⟩
  running := by
    intro q hq
    obtain ⟨y, hy, hrun, hctx⟩ := h.running q hq
    by_cases hrq : r = q
    · subst hrq
      cases hx.symm.trans hy
      have heq := hstate.resolve_right fun hne => hne.1 hrun
      exact ⟨f x, getElem?_modify_self hx, heq.trans hrun, by rw [hcontext]; exact hctx⟩
    · exact ⟨y, by rw [setRoutine, getElem?_modify_of_ne hrq, hy], hrun, hctx⟩
  resident := by
    intro q w k hq hw hk
    rcases getElem?_modify_cases hw with ⟨y, rfl, hy, rfl⟩ | ⟨-, hw⟩
    · exact h.resident r y k hq hy (hstack y ▸ hk)
    · exact h.resident q w k hq hw hk
  started := by
    intro q w hw hq hctx hfin
    rcases getElem?_modify_cases hw with ⟨y, rfl, hy, rfl⟩ | ⟨-, hw⟩
    · cases hx.symm.trans hy
      rw [hcontext] at hctx
      rw [hgave]
      refine h.started r x hx hq hctx ?_
      rcases hstate with heq | ⟨-, hne, -⟩
      · exact heq ▸ hfin
      · exact hne hctx
    · exact h.started q w hw hq hctx hfin

theorem inv_queue (queue : List Nat) : Inv options { s with readyQueue := queue } :=
  { h with }

theorem inv_enqueueReady (r : Nat) : Inv options (s.enqueueReady r) := by
  unfold enqueueReady
  split
  · next x hx =>
    split
    · exact inv_queue (inv_setFlags (f := fun x => { x with queued := true }) h hx (fun _ => rfl)
        (fun _ => rfl) (fun _ => rfl) (fun _ => ⟨rfl, rfl⟩) (.inl rfl)) _
    · exact h
  · exact h

theorem inv_append {stackTable : List Stack} (hx : x.context = none ∧ x.gaveUp = none)
    (hkeep : ∀ (j : Nat) (k : Stack), s.stackTable[j]? = some k → stackTable[j]? = some k)
    (hold : ∀ (j o : Nat) (k : Stack), stackTable[j]? = some k → k.occupant = some o →
      s.stackTable[j]? = some k)
    (hshape : Shape ((s.routines ++ [x]).map Routine.stack) (stackTable.map isShared)) (n : Nat) :
    Inv options
      { s with stackTable := stackTable, routines := s.routines ++ [x], nextSharedStack := n } where
  kept := by
    refine ⟨hshape, ?_, ?_⟩
    · intro j o k hj ho
      obtain ⟨y, hy, hst, hp⟩ := h.kept.occupant j o k (hold j o k hj ho) ho
      exact ⟨y, getElem?_append_of_eq_some hy, hst, hp⟩
    · intro r y a bytes hy he hg
      rcases getElem?_snoc hy with hy | ⟨-, rfl⟩
      · obtain ⟨hptr, hst⟩ := h.kept.parked r y a bytes hy he hg
        refine ⟨hptr, fun k hk => ?_⟩
        obtain ⟨k', hk'⟩ := h.kept.stack hy
        cases hk.symm.trans (hkeep _ _ hk')
        exact hst k hk'
      · rw [hx.2] at hg
        cases hg
  current := h.current
  nodup := h.nodup
  running := by
    intro r hr
    obtain ⟨y, hy, hrun⟩ := h.running r hr
    exact ⟨y, getElem?_append_of_eq_some hy, hrun⟩
  resident := by
    intro r y k hr hy hk hsh
    obtain ⟨y', hy', -⟩ := h.running r (mem_callStack_of_current h hr)
    cases hy.symm.trans (getElem?_append_of_eq_some hy')
    obtain ⟨k', hk'⟩ := h.kept.stack hy'
    cases hk.symm.trans (hkeep _ _ hk')
    exact h.resident r y k hr hy' hk' hsh
  started := by
    intro r y hy hr hctx
    rcases getElem?_snoc hy with hy | ⟨-, rfl⟩
    · exact h.started r y hy hr hctx
    · rw [hx.1] at hctx
      cases hctx
  slots := by
    intro j hj
    have hsj := h.slots j hj
    rw [getElem?_map] at hsj ⊢
    obtain ⟨k, hk, hks⟩ := map_eq_some_iff.mp hsj
    rw [hkeep j k hk, map_some, hks]

theorem inv_createRaw (stackSize : Nat) (hs : 0 < stackSize) :
    Inv options (s.createRaw options stackSize hs) ∧
      ∃ x, (s.createRaw options stackSize hs).routines[s.routines.length]? = some x ∧
        x.state = .init ∧ x.context = none ∧ x.gaveUp = none := by
  unfold createRaw
  split
  · -- A stack of its own: no routine had that index.
    refine ⟨inv_append h ⟨rfl, rfl⟩ (fun j k hk => getElem?_append_of_eq_some hk) ?_ ?_ _, _,
      getElem?_concat_length, rfl, rfl, rfl⟩
    · intro j o k hj ho
      rcases getElem?_snoc hj with hj | ⟨-, rfl⟩
      · exact hj
      · exact absurd ho (by simp [mmap])
    · have hold := h.kept.shape
      rw [map_append, map_append]
      refine ⟨?_, ?_⟩
      · intro j hj
        rw [length_append, length_map]
        rcases mem_append.mp hj with hj | hj
        · have := hold.home j hj
          rw [length_map] at this
          omega
        · rw [mem_singleton.mp hj]
          simp
      · intro r r' j hr hr' hj
        have hlt : ∀ {q : Nat}, (s.routines.map Routine.stack)[q]? = some j →
            j < (s.stackTable.map isShared).length := fun hq =>
          hold.home j (mem_of_getElem? hq)
        rcases getElem?_snoc hr with hr | ⟨hrl, rfl⟩ <;> rcases getElem?_snoc hr' with hr' | ⟨hrl', hj'⟩
        · refine hold.owned r r' j hr hr' ?_
          rwa [getElem?_append_left (hlt hr)] at hj
        · have := hlt hr
          rw [hj', length_map] at this
          exact absurd this (Nat.lt_irrefl _)
        · have := hlt hr'
          rw [length_map] at this
          exact absurd this (Nat.lt_irrefl _)
        · rw [hrl, hrl']
  · next hcount =>
    have hslot : s.nextSharedStack % options.sharedStackCount < options.sharedStackCount :=
      Nat.mod_lt _ (Nat.pos_of_ne_zero hcount)
    have hshared := h.slots _ hslot
    refine ⟨inv_append h ⟨rfl, rfl⟩ (fun _ _ hk => hk) (fun _ _ _ hj _ => hj) ?_ _, _,
      getElem?_concat_length, rfl, rfl, rfl⟩
    have hold := h.kept.shape
    rw [map_append]
    refine ⟨?_, ?_⟩
    · intro j hj
      rcases mem_append.mp hj with hj | hj
      · exact hold.home j hj
      · rw [mem_singleton.mp hj]
        exact (List.getElem?_eq_some_iff.mp hshared).1
    · intro r r' j hr hr' hj
      rcases getElem?_snoc hr with hr | ⟨-, rfl⟩
      · rcases getElem?_snoc hr' with hr' | ⟨-, rfl⟩
        · exact hold.owned r r' j hr hr' hj
        · cases hshared.symm.trans hj
      · cases hshared.symm.trans hj

theorem inv_reset (hs : s.reset r = some s') :
    Inv options s' ∧ ∃ x, s'.routines[r]? = some x ∧ x.state = .init ∧ x.context = none ∧
      x.gaveUp = none := by
  unfold reset at hs
  split at hs
  case h_2 => cases hs
  case h_1 x hx =>
  split at hs
  case isFalse => cases hs
  case isTrue hfin =>
  cases hs
  have hidle : r ∉ s.callStack := by
    intro hr
    obtain ⟨y, hy, hrun, -⟩ := h.running r hr
    cases hx.symm.trans hy
    rw [hfin] at hrun
    cases hrun
  have hcur : s.current ≠ some r := fun hc => hidle (mem_callStack_of_current h hc)
  have hother : ∀ {q}, r ≠ q →
      (s.setRoutine r fun x => { stack := x.stack }).routines[q]? = s.routines[q]? :=
    getElem?_modify_of_ne
  refine ⟨⟨⟨h.kept.shape.modifyRoutine fun _ => rfl, ?_, ?_⟩, h.current, h.nodup, ?_, ?_, ?_,
    h.slots⟩, _, getElem?_modify_self hx, rfl, rfl, rfl⟩
  · intro j o k hj ho
    obtain ⟨y, hy, hst, hp⟩ := h.kept.occupant j o k hj ho
    have hro : r ≠ o := by
      rintro rfl
      cases hx.symm.trans hy
      exact (hp.resolve_left hcur).state_ne_finished hfin
    exact ⟨y, (hother hro).trans hy, hst, hp⟩
  · intro q w a bytes hw he hg
    rcases getElem?_modify_cases hw with ⟨y, rfl, hy, rfl⟩ | ⟨-, hw⟩
    · cases hg
    · exact h.kept.parked q w a bytes hw he hg
  · intro q hq
    obtain ⟨y, hy, hrun⟩ := h.running q hq
    exact ⟨y, (hother fun heq => hidle (heq ▸ hq)).trans hy, hrun⟩
  · intro q w k hq hw hk
    rcases getElem?_modify_cases hw with ⟨y, rfl, hy, rfl⟩ | ⟨-, hw⟩
    · exact absurd hq hcur
    · exact h.resident q w k hq hw hk
  · intro q w hw hq hctx
    rcases getElem?_modify_cases hw with ⟨y, rfl, hy, rfl⟩ | ⟨-, hw⟩
    · cases hctx
    · exact h.started q w hw hq hctx

theorem inv_pool (pool : List Nat) : Inv options { s with pool := pool } :=
  { h with }

theorem inv_create {stackSize : Nat} {hs : 0 < stackSize} {unreferenced : List Nat}
    (hc : s.create options stackSize hs unreferenced = some (s', r)) :
    Inv options s' ∧ ∃ x, s'.routines[r]? = some x ∧ x.state = .init ∧ x.context = none ∧
      x.gaveUp = none := by
  unfold create at hc
  split at hc
  · next r' pool _ =>
    obtain ⟨t, ht, heq⟩ := map_eq_some_iff.mp hc
    cases heq
    exact inv_reset (inv_pool h pool) ht
  · cases hc
    exact inv_createRaw h stackSize hs

theorem inv_setReady (hx : s.routines[r]? = some x) (hrun : x.state ≠ .running)
    (hfin : x.state ≠ .finished) :
    Inv options (s.setRoutine r fun x => { x with state := .ready }) :=
  inv_setFlags (f := fun x => { x with state := .ready }) h hx (fun _ => rfl) (fun _ => rfl)
    (fun _ => rfl) (fun _ => ⟨rfl, rfl⟩) (.inr ⟨hrun, fun _ => hfin, fun _ => by simp⟩)

theorem inv_prewarm : Inv options (s.prewarm options) := by
  obtain ⟨hraw, x, hx, hstate, hctx, hg⟩ :=
    inv_createRaw h options.poolStackSize options.poolStackSize_pos
  refine inv_pool (inv_setFlags (f := fun x => { x with state := .finished }) hraw hx
    (fun _ => rfl) (fun _ => rfl) (fun _ => rfl) (fun _ => ⟨rfl, rfl⟩) (.inr ⟨?_, ?_, ?_⟩)) _
  · simp [hstate]
  · simp [hctx]
  · simp [hg]

end

theorem inv_empty (options : SchedulerOptions) : Inv options
      { stackTable := (List.range options.sharedStackCount).map fun j =>
          mmap options.pageSize options.sharedStackSize (options.mapping j) true
            options.pageSize_pos options.sharedStackSize_pos
        routines := []
        readyQueue := []
        callStack := []
        nextSharedStack := 0
        current := none
        pool := [] } := by
  refine
    { kept := ⟨⟨by simp, by simp⟩, ?_, by simp⟩
      current := rfl
      nodup := nodup_nil
      running := by simp
      resident := by simp
      started := by simp
      slots := fun j hj => ?_ }
  · intro j o k hj ho
    rw [getElem?_map] at hj
    obtain ⟨i, -, rfl⟩ := map_eq_some_iff.mp hj
    exact absurd ho (by simp [mmap])
  · rw [getElem?_map, getElem?_map, getElem?_range hj]
    rfl

/-- Prewarming is a fold; the invariant holds before it and each round keeps it. -/
theorem inv_init (options : SchedulerOptions) : Inv options (.init options) :=
  List.foldlRecOn (motive := Inv options) _ _ (inv_empty options) fun _ ht _ _ => inv_prewarm ht

/-! ## Writing -/

section
variable (h : Inv options s)
include h

/-- A byte that the running coroutine writes to its stack belongs to nobody else. -/
theorem inv_poke (hcur : s.current = some r)
    (hx : s.routines[r]? = some x) (a : Nat) (byte : UInt8) :
    Inv options (s.setStack x.stack fun k => k.poke a byte) where
  __ := h
  kept := by
    refine ⟨h.kept.shape.modifyStack fun _ => rfl, ?_, ?_⟩
    · intro j o k hj ho
      rcases getElem?_modify_cases hj with ⟨k₀, rfl, hk₀, rfl⟩ | ⟨-, hk⟩
      · exact h.kept.occupant _ o k₀ hk₀ ho
      · exact h.kept.occupant j o k hk ho
    · intro q w b bytes hw he hg
      obtain ⟨hptr, hst⟩ := h.kept.parked q w b bytes hw he hg
      refine ⟨hptr, fun k hk => ?_⟩
      have hrq : r ≠ q := fun heq => he (heq ▸ hcur)
      rcases getElem?_modify_cases hk with ⟨k₀, hj, hk₀, rfl⟩ | ⟨-, hk⟩
      · have hold := hst k₀ hk₀
        rw [← hj] at hk₀
        -- Nobody but `r` has a used part in this memory.
        refine { hold with memory := fun hm => ?_ }
        rcases Bool.eq_false_or_eq_true k₀.isShared with hsh | hsh
        · have hocc := h.resident r x k₀ hcur hx hk₀ hsh
          rcases hm with hm | hm
          · cases hsh.symm.trans hm
          · exact absurd (some.inj (hocc.symm.trans hm)) hrq
        · exact absurd (h.kept.owned hx hw hj.symm hk₀ hsh).symm hrq
      · exact hst k hk
  resident := by
    intro q w k hq hw hk hsh
    rcases getElem?_modify_cases hk with ⟨k₀, -, hk₀, rfl⟩ | ⟨-, hk⟩
    · exact h.resident q w k₀ hq hw hk₀ hsh
    · exact h.resident q w k hq hw hk hsh
  slots := by
    intro j hj
    rw [← h.slots j hj]
    exact congrArg (·[j]?) (map_modify_eq fun _ => rfl)

/-! ## Steps and runs -/

theorem inv_popReady (hx : s.routines[r]? = some x) (rest : List Nat) :
    Inv options { s.setRoutine r fun x => { x with queued := false } with readyQueue := rest } :=
  inv_queue (inv_setFlags (f := fun x => { x with queued := false }) h hx (fun _ => rfl)
    (fun _ => rfl) (fun _ => rfl) (fun _ => ⟨rfl, rfl⟩) (.inl rfl)) rest

/-- The stack pointer is checked in the state before the pop; the stacks are the same. -/
theorem onStack_popReady (hsp : s.onStack sp = true) (rest : List Nat) :
    ({ s.setRoutine r fun x => { x with queued := false } with
      readyQueue := rest } : Scheduler).onStack sp = true := by
  cases hc : s.current with
  | none => simp [onStack, setRoutine, hc]
  | some c =>
    obtain ⟨z, k, hz, hk, -, hb, ht⟩ := current_stack h hc hsp
    have hz' := (getElem?_modify_iff (f := fun x => { x with queued := false })
      (i := r)).mpr ⟨z, hz, rfl⟩
    simp only [onStack, setRoutine, hc, hz', any_some]
    split <;> simp [hk, hb, ht]

theorem runReady_spec {rest : List Nat} (hsp : s.onStack sp = true)
    (hs : ({ s.setRoutine r fun x => { x with queued := false } with
      readyQueue := rest } : Scheduler).resume r sp = .ok s') :
    Inv options s' ∧ s'.current = some r ∧
      ∀ x, s.routines[r]? = some x → x.context.isSome → Intact s' r := by
  obtain ⟨x, -, -, hpopped, -⟩ := resume_ok hs
  obtain ⟨y, hy, -⟩ := getElem?_modify_iff.mp hpopped
  obtain ⟨hinv, hcur, hintact⟩ :=
    resume_spec (inv_popReady h hy rest) (onStack_popReady h hsp rest) hs
  exact ⟨hinv, hcur, fun z hz hctx => hintact _ (getElem?_modify_self hz) hctx⟩

theorem step_spec {l : Label} (hs : s.step options l = some s') :
    Inv options s' ∧ (l.switches = true → ∀ r x, s'.current = some r → s.routines[r]? = some x →
      x.context.isSome → Intact s' r) := by
  cases l with
  | create stackSize unreferenced =>
    refine ⟨?_, fun hl => absurd hl (by simp [Label.switches])⟩
    simp only [step] at hs
    split at hs
    · obtain ⟨⟨t, r⟩, hc, rfl⟩ := map_eq_some_iff.mp hs
      exact (inv_create h hc).1
    · cases hs
  | spawn stackSize unreferenced =>
    refine ⟨?_, fun hl => absurd hl (by simp [Label.switches])⟩
    simp only [step] at hs
    split at hs
    · obtain ⟨⟨t, r⟩, hc, rfl⟩ := map_eq_some_iff.mp hs
      obtain ⟨ht, x, hx, hstate, -⟩ := inv_create h hc
      exact inv_enqueueReady (inv_setReady ht hx (by simp [hstate]) (by simp [hstate])) r
    · cases hs
  | resume r sp =>
    simp only [step] at hs
    split at hs
    · next hsp =>
      obtain ⟨hinv, hcur, hintact⟩ := resume_spec h hsp (eq_ok_of_toOption hs)
      refine ⟨hinv, fun _ q x hq hx hctx => ?_⟩
      cases hcur.symm.trans hq
      exact hintact x hx hctx
    · cases hs
  | runReady sp =>
    simp only [step] at hs
    split at hs
    · cases hs
    · next r rest _ =>
      split at hs
      · next hsp =>
        obtain ⟨hinv, hcur, hintact⟩ := runReady_spec h hsp (eq_ok_of_toOption hs)
        refine ⟨hinv, fun _ q x hq hx hctx => ?_⟩
        cases hcur.symm.trans hq
        exact hintact x hx hctx
      · cases hs
  | makeReady r =>
    refine ⟨?_, fun hl => absurd hl (by simp [Label.switches])⟩
    simp only [step] at hs
    split at hs
    · next x hx =>
      split at hs
      · next hw =>
        cases hs
        refine inv_enqueueReady (inv_setReady h hx ?_ ?_) r
        · intro hrun
          simp [hrun, CoroutineState.isWaiting] at hw
        · intro hfin
          simp [hfin, CoroutineState.isWaiting] at hw
      · cases hs
    · cases hs
  | prepareTimerResume r =>
    refine ⟨?_, fun hl => absurd hl (by simp [Label.switches])⟩
    simp only [step] at hs
    split at hs
    · next x hx =>
      split at hs
      · next hw =>
        cases hs
        exact inv_setReady h hx (by simp [hw]) (by simp [hw])
      · cases hs
    · cases hs
  | suspend waiting sp =>
    simp only [step] at hs
    split at hs
    · next hw =>
      obtain ⟨hinv, hintact⟩ := suspend_spec h hw.1 hw.2 (eq_ok_of_toOption hs)
      exact ⟨hinv, fun _ r _ hr _ _ => hintact r hr⟩
    · cases hs
  | finish sp =>
    simp only [step] at hs
    split at hs
    · obtain ⟨hinv, hintact⟩ := finish_spec h (eq_ok_of_toOption hs)
      exact ⟨hinv, fun _ r _ hr _ _ => hintact r hr⟩
    · cases hs
  | poke a byte =>
    refine ⟨?_, fun hl => absurd hl (by simp [Label.switches])⟩
    simp only [step] at hs
    split at hs
    · cases hs
    · next r hcur =>
      split at hs
      · cases hs
      · next x hx =>
        cases hs
        exact inv_poke h hcur hx a byte

end

theorem inv_of_reachable (h : Reachable (step options) (.init options) s) : Inv options s :=
  h.invariant (inv_init options) fun _ _ _ hp _ hs => (step_spec hp hs).1

end Scheduler

/-- In every run of the scheduler, a switch into a coroutine that has run before finds its stack
    as the coroutine left it. -/
theorem switch_restores_stack (options : SchedulerOptions) {s s' : Scheduler} {l : Label} {r : Nat}
    {x : Routine} (h : Reachable (Scheduler.step options) (.init options) s)
    (hs : s.step options l = some s') (hl : l.switches = true) (hr : s'.current = some r)
    (hx : s.routines[r]? = some x) (hstarted : x.context.isSome) : Intact s' r :=
  (Scheduler.step_spec (Scheduler.inv_of_reachable h) hs).2 hl r x hr hx hstarted

/-- One shared stack of sixteen bytes. -/
def oneSlot : SchedulerOptions where
  sharedStackCount := 1
  sharedStackSize := 16
  poolPrewarmCount := 1
  poolMaxSize := 4
  poolStackSize := 16
  pageSize := 16
  mapping j := 64 * j
  pageSize_pos := by decide
  sharedStackSize_pos := by decide
  poolStackSize_pos := by decide

/-- Routines 0, from the pool, and 1 share the slot. Routine 0 writes, resumes routine 1, which
    overwrites the slot and suspends: routine 0 has its byte again. -/
theorem switch_restores_stack_nested :
    ∃ s s', Reachable (Scheduler.step oneSlot) (.init oneSlot) s ∧
      s.step oneSlot (.suspend .waitEvent 24) = some s' ∧ s'.current = some 0 ∧ Intact s' 0 ∧
      (s'.stackTable.map fun k => k.used 28) = [[7, 0, 0, 0]] := by
  obtain ⟨s, hreach, ⟨x, hx, hctx⟩, s', hs, hcur, hused⟩ : ∃ s,
      Reachable (Scheduler.step oneSlot) (.init oneSlot) s ∧
      (∃ x ∈ s.routines[0]?, x.context.isSome = true) ∧
      ∃ s' ∈ s.step oneSlot (.suspend .waitEvent 24), s'.current = some 0 ∧
      (s'.stackTable.map fun k => k.used 28) = [[7, 0, 0, 0]] :=
    exists_reaches_of_exec [.create 8 [0], .create 8 [], .resume 0 0, .poke 28 7, .resume 1 28,
      .poke 28 9, .poke 30 9] (by decide +kernel) fun _ _ hs => hs
  exact ⟨s, s', hreach, hs, hcur, switch_restores_stack oneSlot hreach hs rfl hcur hx hctx, hused⟩

end CoroRpc.Runtime
