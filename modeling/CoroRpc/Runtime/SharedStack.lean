import CoroRpc.Lib.Table
import CoroRpc.Runtime.Scheduler

/-!
# Shared-stack integrity

Whenever control comes back to a coroutine, its stack holds what it held when the coroutine last
gave up control, byte for byte from the stack pointer to the top.

The invariant behind it, `Kept`, says where the used part of a suspended coroutine is: in the
memory of its stack if it owns the stack or occupies the slot, in its snapshot otherwise. It is
stated with two parameters because a switch passes through two kinds of states. Between steps the
coroutine that runs is `exempt`: nothing is known of its stack. In the middle of a switch nobody
runs, and the coroutine that is `left` has given up control at a stack pointer that its context
does not hold yet. `prepare_kept` is the one place where a slot changes hands.
-/

namespace CoroRpc.Runtime

open Lib List Option Stack

/-! ## Reading and writing stacks -/

namespace Stack

theorem length_used (k : Stack) (sp : Nat) : (k.used sp).length = k.stackTop - sp := by
  simp [used]

theorem used_copyIn {k : Stack} {start : Nat} {data : Bytes}
    (h : data.length = k.stackTop - start) : (k.copyIn start data).used start = data := by
  apply ext_getElem
  · rw [length_used, h]
    rfl
  · intro i _ hi
    simp only [used, copyIn, getElem_map, getElem_range]
    rw [if_pos ⟨by omega, by omega⟩, Nat.add_sub_cancel_left, getD_eq_getElem?_getD,
      getElem?_eq_getElem hi]
    rfl

end Stack

/-- The used part of the stack of routine `r`, which gave up control at `sp` with `bytes` on it,
    can be got back: it is in memory, or in the snapshot. -/
structure Stored (k : Stack) (r : Nat) (x : Routine) (sp : Nat) (bytes : Bytes) : Prop where
  bottom : k.usableBottom ≤ sp
  top : sp ≤ k.stackTop
  length : bytes.length = k.stackTop - sp
  memory : k.isShared = false ∨ k.occupant = some r → k.used sp = bytes
  snapshot : k.isShared = true → k.occupant ≠ some r →
    x.stackSnapshot = bytes ∧ x.stackSnapshotBegin = sp

/-- The stack pointer of a routine that does not run: `sp` for the one that is just `left`, the
    stored one for the others. -/
def pointerOf (left : Option Nat) (sp : Nat) (r : Nat) (x : Routine) : Option Nat :=
  if left = some r then some sp else x.context

/-- A routine that has run, does not run and has not finished. -/
structure Routine.Parked (x : Routine) : Prop where
  gaveUp : x.gaveUp.isSome
  state_ne_init : x.state ≠ .init
  state_ne_finished : x.state ≠ .finished

/-- Every routine has a stack, and a stack that is not shared has one routine. -/
structure Shape (homes : List Nat) (shared : List Bool) : Prop where
  home : ∀ j ∈ homes, j < shared.length
  owned : ∀ (r r' j : Nat), homes[r]? = some j → homes[r']? = some j → shared[j]? = some false →
    r = r'

theorem Shape.modifyRoutine {routines : List Routine} {shared : List Bool} {r : Nat}
    {f : Routine → Routine} (h : Shape (routines.map Routine.stack) shared)
    (hf : ∀ x, (f x).stack = x.stack) : Shape ((routines.modify r f).map Routine.stack) shared := by
  rw [map_modify_eq hf]
  exact h

theorem Shape.modifyStack {homes : List Nat} {stackTable : List Stack} {j : Nat} {f : Stack → Stack}
    (h : Shape homes (stackTable.map isShared)) (hf : ∀ k, (f k).isShared = k.isShared) :
    Shape homes ((stackTable.modify j f).map isShared) := by
  rw [map_modify_eq hf]
  exact h

structure Kept (routines : List Routine) (stackTable : List Stack) (exempt : Nat → Prop)
    (left : Option Nat) (sp : Nat) : Prop where
  shape : Shape (routines.map Routine.stack) (stackTable.map isShared)
  occupant : ∀ (j o : Nat) (k : Stack), stackTable[j]? = some k → k.occupant = some o →
    ∃ x, routines[o]? = some x ∧ x.stack = j ∧ (exempt o ∨ x.Parked)
  parked : ∀ (r : Nat) (x : Routine) (a : Nat) (bytes : Bytes), routines[r]? = some x →
    ¬ exempt r → x.gaveUp = some (a, bytes) →
    pointerOf left sp r x = some a ∧ ∀ k, stackTable[x.stack]? = some k → Stored k r x a bytes

namespace Kept

variable {routines : List Routine} {stackTable : List Stack} {exempt exempt' : Nat → Prop}
  {left : Option Nat} {sp : Nat} {r : Nat} {x : Routine}

section
variable (h : Kept routines stackTable exempt left sp)
include h

theorem stack (hx : routines[r]? = some x) : ∃ k, stackTable[x.stack]? = some k := by
  have hj := h.shape.home x.stack (mem_map_of_mem (mem_of_getElem? hx))
  rw [length_map] at hj
  exact ⟨stackTable[x.stack], getElem?_eq_getElem hj⟩

theorem owned {r' : Nat} {x' : Routine} {k : Stack} (hx : routines[r]? = some x)
    (hx' : routines[r']? = some x') (heq : x'.stack = x.stack) (hk : stackTable[x.stack]? = some k)
    (hs : k.isShared = false) : r' = r := by
  refine h.shape.owned r' r x.stack ?_ ?_ ?_
  · rw [getElem?_map, hx', map_some, heq]
  · rw [getElem?_map, hx, map_some]
  · rw [getElem?_map, hk, map_some, hs]

theorem mono (he : ∀ r, exempt r → exempt' r) :
    Kept routines stackTable exempt' left sp where
  shape := h.shape
  occupant j o k hj ho := by
    obtain ⟨x, hx, hst, hp⟩ := h.occupant j o k hj ho
    exact ⟨x, hx, hst, hp.imp_left (he o)⟩
  parked r x a bytes hx hr hg := h.parked r x a bytes hx (fun h => hr (he r h)) hg

end

theorem anyPointer {sp' : Nat} (h : Kept routines stackTable exempt none sp) :
    Kept routines stackTable exempt none sp' :=
  ⟨h.shape, h.occupant, fun r x a bytes hx he hg => by
    simpa [pointerOf] using h.parked r x a bytes hx he hg⟩

/-- Where the routine that is left is exempt, its stack pointer does not matter. -/
theorem leaveExempt {c : Nat} (h : Kept routines stackTable exempt none 0) (hc : exempt c) :
    Kept routines stackTable exempt (some c) sp where
  shape := h.shape
  occupant := h.occupant
  parked r x a bytes hx he hg := by
    obtain ⟨hptr, hst⟩ := h.parked r x a bytes hx he hg
    have hne : c ≠ r := by
      rintro rfl
      exact he hc
    refine ⟨?_, hst⟩
    rw [pointerOf, if_neg (by simpa using hne)]
    simpa [pointerOf] using hptr

variable {f : Routine → Routine}

/-- An update of one routine that leaves its stack alone and, unless it is exempt, what is stored
    of it. -/
theorem modify (h : Kept routines stackTable exempt left sp) (hstack : ∀ x, (f x).stack = x.stack)
    (hgave : ∀ x, ¬ exempt r → (f x).gaveUp = x.gaveUp)
    (hsnap : ∀ x, ¬ exempt r → (f x).stackSnapshot = x.stackSnapshot ∧
      (f x).stackSnapshotBegin = x.stackSnapshotBegin)
    (hpointer : ∀ x, routines[r]? = some x → ¬ exempt r → x.gaveUp.isSome →
      pointerOf left sp r (f x) = pointerOf left sp r x)
    (hparked : ∀ x, routines[r]? = some x → ¬ exempt r → x.Parked → (f x).Parked) :
    Kept (routines.modify r f) stackTable exempt left sp where
  shape := h.shape.modifyRoutine hstack
  occupant j o k hj ho := by
    obtain ⟨x, hx, hst, hp⟩ := h.occupant j o k hj ho
    by_cases hr : r = o
    · subst hr
      refine ⟨f x, getElem?_modify_self hx, by rw [hstack, hst], ?_⟩
      by_cases he : exempt r
      · exact .inl he
      · exact .inr (hparked x hx he (hp.resolve_left he))
    · exact ⟨x, by rw [getElem?_modify_of_ne hr, hx], hst, hp⟩
  parked q y a bytes hy he hg := by
    rcases getElem?_modify_cases hy with ⟨x, rfl, hx, rfl⟩ | ⟨-, hx⟩
    · rw [hgave x he] at hg
      obtain ⟨hptr, hst⟩ := h.parked r x a bytes hx he hg
      refine ⟨by rw [hpointer x hx he (by simp [hg]), hptr], fun k hk => ?_⟩
      rw [hstack] at hk
      have hold := hst k hk
      exact { hold with
        snapshot := fun hs ho => by
          rw [(hsnap x he).1, (hsnap x he).2]
          exact hold.snapshot hs ho }
    · exact h.parked q y a bytes hx he hg

theorem modifyExempt (h : Kept routines stackTable exempt left sp) (hr : exempt r)
    (hstack : ∀ x, (f x).stack = x.stack) : Kept (routines.modify r f) stackTable exempt left sp :=
  h.modify hstack (fun _ he => absurd hr he) (fun _ he => absurd hr he)
    (fun _ _ he => absurd hr he) (fun _ _ he => absurd hr he)

theorem note {c : Nat} {k : Stack} (h : Kept routines stackTable (· = c) none 0)
    (hx : routines[c]? = some x) (hk : stackTable[x.stack]? = some k) (hb : k.usableBottom ≤ sp)
    (ht : sp ≤ k.stackTop) (hres : k.isShared = true → k.occupant = some c)
    (hinit : x.state ≠ .init) (hfin : x.state ≠ .finished) :
    Kept (routines.modify c fun x => { x with gaveUp := some (sp, k.used sp) }) stackTable
      (fun _ => False) (some c) sp where
  shape := h.shape.modifyRoutine fun _ => rfl
  occupant j o k' hj ho := by
    obtain ⟨y, hy, hst, hp⟩ := h.occupant j o k' hj ho
    by_cases hc : c = o
    · subst hc
      cases hx.symm.trans hy
      exact ⟨_, getElem?_modify_self hx, hst, .inr ⟨rfl, hinit, hfin⟩⟩
    · exact ⟨y, by rw [getElem?_modify_of_ne hc, hy], hst, .inr (hp.resolve_left fun h => hc h.symm)⟩
  parked q y a bytes hy _ hg := by
    rcases getElem?_modify_cases hy with ⟨x', rfl, hx', rfl⟩ | ⟨hne, hy⟩
    · cases hx.symm.trans hx'
      obtain ⟨rfl, rfl⟩ : sp = a ∧ k.used sp = bytes := by simpa using hg
      refine ⟨by simp [pointerOf], fun k' hk' => ?_⟩
      cases hk.symm.trans hk'
      exact
        { bottom := hb
          top := ht
          length := k.length_used sp
          memory := fun _ => rfl
          snapshot := fun hs ho => absurd (hres hs) ho }
    · have hold := h.parked q y a bytes hy (fun h => hne h.symm) hg
      refine ⟨?_, hold.2⟩
      have hptr := hold.1
      simp only [pointerOf, reduceCtorEq, if_false] at hptr
      rw [pointerOf, if_neg (by simpa using hne), hptr]

theorem storeContext {c : Nat} (h : Kept routines stackTable exempt (some c) sp) :
    Kept (routines.modify c fun x => { x with context := some sp }) stackTable exempt none 0 where
  shape := h.shape.modifyRoutine fun _ => rfl
  occupant j o k hj ho := by
    obtain ⟨x, hx, hst, hp⟩ := h.occupant j o k hj ho
    by_cases hc : c = o
    · subst hc
      exact ⟨_, getElem?_modify_self hx, hst, hp.imp_right fun hp => ⟨hp.1, hp.2, hp.3⟩⟩
    · exact ⟨x, by rw [getElem?_modify_of_ne hc, hx], hst, hp⟩
  parked q y a bytes hy he hg := by
    rcases getElem?_modify_cases hy with ⟨x, rfl, hx, rfl⟩ | ⟨hne, hx⟩
    · obtain ⟨hptr, hst⟩ := h.parked c x a bytes hx he hg
      refine ⟨by simpa [pointerOf] using hptr, fun k hk => ?_⟩
      have hold := hst k hk
      exact { hold with }
    · obtain ⟨hptr, hst⟩ := h.parked q y a bytes hx he hg
      rw [pointerOf, if_neg (by simpa using hne)] at hptr
      exact ⟨by simpa [pointerOf] using hptr, hst⟩

/-! ### A slot changes hands -/

/-- The occupant `o` of a slot goes: what it has on the slot is in its snapshot now, unless it is
    exempt. -/
theorem evict {j o : Nat} {k : Stack} (h : Kept routines stackTable exempt left sp)
    (hk : stackTable[j]? = some k) (hs : k.isShared = true) (ho : k.occupant = some o)
    (hstack : ∀ x, (f x).stack = x.stack ∧ (f x).gaveUp = x.gaveUp ∧ (f x).context = x.context)
    (hsaved : ∀ x a bytes, routines[o]? = some x → ¬ exempt o → x.gaveUp = some (a, bytes) →
      (f x).stackSnapshot = bytes ∧ (f x).stackSnapshotBegin = a) :
    Kept (routines.modify o f) (stackTable.modify j fun k => { k with occupant := none }) exempt
      left
      sp where
  shape := (h.shape.modifyRoutine fun x => (hstack x).1).modifyStack fun _ => rfl
  occupant j' o' k' hj' ho' := by
    rcases getElem?_modify_cases hj' with ⟨k₀, -, -, rfl⟩ | ⟨hne, hk'⟩
    · cases ho'
    · -- `o` occupies the slot `j` and no other.
      obtain ⟨x, hx, hst, hp⟩ := h.occupant j' o' k' hk' ho'
      obtain ⟨y, hy, hsty, -⟩ := h.occupant j o k hk ho
      have hoo : o ≠ o' := by
        rintro rfl
        cases hx.symm.trans hy
        exact hne (hsty.symm.trans hst)
      exact ⟨x, by rw [getElem?_modify_of_ne hoo, hx], hst, hp⟩
  parked q y a bytes hy he hg := by
    -- In every case the stored pair is the old one; only the place may be another.
    rcases getElem?_modify_cases hy with ⟨x, rfl, hx, rfl⟩ | ⟨hne, hx⟩
    · rw [(hstack x).2.1] at hg
      obtain ⟨hptr, hst⟩ := h.parked o x a bytes hx he hg
      refine ⟨by unfold pointerOf at hptr ⊢; rw [(hstack x).2.2]; exact hptr, fun k' hk' => ?_⟩
      obtain ⟨y, hy, hsty, -⟩ := h.occupant j o k hk ho
      cases hx.symm.trans hy
      rw [(hstack x).1, hsty] at hk'
      obtain ⟨k₀, hk₀, rfl⟩ := getElem?_modify_iff.mp hk'
      cases hk.symm.trans hk₀
      rw [if_pos rfl]
      have hold := hst k (by rw [hsty]; exact hk)
      exact
        { bottom := hold.bottom
          top := hold.top
          length := hold.length
          memory := fun hm => by simp [hs] at hm
          snapshot := fun _ _ => hsaved x a bytes hx he hg }
    · obtain ⟨hptr, hst⟩ := h.parked q y a bytes hx he hg
      refine ⟨hptr, fun k' hk' => ?_⟩
      rcases getElem?_modify_cases hk' with ⟨k₀, hj, hk₀, rfl⟩ | ⟨-, hk'⟩
      · have hold := hst k₀ hk₀
        rw [← hj] at hk₀
        cases hk.symm.trans hk₀
        exact
          { bottom := hold.bottom
            top := hold.top
            length := hold.length
            memory := fun hm => by simp [hs] at hm
            snapshot := fun hs _ => hold.snapshot hs (by rw [ho]; simpa using hne) }
      · exact hst k' hk'

/-- Routine `r` comes onto its free slot, and its snapshot is copied back. -/
theorem install {k : Stack} {g : Stack → Stack} (h : Kept routines stackTable exempt left sp)
    (hx : routines[r]? = some x) (hr : ¬ exempt r) (hk : stackTable[x.stack]? = some k)
    (hs : k.isShared = true) (hfree : k.occupant = none)
    (hshape : ∀ k, (g k).usableBottom = k.usableBottom ∧ (g k).stackTop = k.stackTop ∧
      (g k).isShared = k.isShared ∧ (g k).occupant = some r)
    (hg : x.stackSnapshot = [] ∨
      (g k).used x.stackSnapshotBegin =
        (k.copyIn x.stackSnapshotBegin x.stackSnapshot).used x.stackSnapshotBegin) :
    Kept routines (stackTable.modify x.stack g) (fun q => exempt q ∨ q = r) left sp ∧
      ∀ a bytes, x.gaveUp = some (a, bytes) → (g k).used a = bytes := by
  obtain ⟨hbottom, htop, hshared, hocc⟩ := hshape k
  refine ⟨{ shape := ?_, occupant := ?_, parked := ?_ }, ?_⟩
  · exact h.shape.modifyStack fun k => (hshape k).2.2.1
  · intro j o k' hj ho
    rcases getElem?_modify_cases hj with ⟨k₀, rfl, hk₀, rfl⟩ | ⟨-, hk'⟩
    · cases hk.symm.trans hk₀
      cases hocc.symm.trans ho
      exact ⟨x, hx, rfl, .inl (.inr rfl)⟩
    · obtain ⟨y, hy, hst, hp⟩ := h.occupant j o k' hk' ho
      exact ⟨y, hy, hst, hp.imp_left .inl⟩
  · intro q y a bytes hy he hga
    obtain ⟨hptr, hst⟩ := h.parked q y a bytes hy (fun h => he (.inl h)) hga
    refine ⟨hptr, fun k' hk' => ?_⟩
    rcases getElem?_modify_cases hk' with ⟨k₀, hj, hk₀, rfl⟩ | ⟨-, hk'⟩
    · have hold := hst k₀ hk₀
      rw [← hj] at hk₀
      cases hk.symm.trans hk₀
      exact
        { bottom := by rw [hbottom]; exact hold.bottom
          top := by rw [htop]; exact hold.top
          length := by rw [htop]; exact hold.length
          memory := fun hm => by
            rw [hshared, hocc, hs] at hm
            simp only [Bool.true_eq_false, some.injEq, false_or] at hm
            exact absurd (.inr hm.symm) he
          snapshot := fun _ _ => hold.snapshot hs (by simp [hfree]) }
    · exact hst k' hk'
  · -- `r` itself: its snapshot is what it had, and that is now in memory.
    intro a bytes hga
    have hold := (h.parked r x a bytes hx hr hga).2 k hk
    obtain ⟨hsnap, hbegin⟩ := hold.snapshot hs (by simp [hfree])
    rcases hg with hempty | hg
    · have hlen : k.stackTop - a = 0 := by
        rw [← hold.length, ← hsnap, hempty]
        rfl
      rw [← hsnap, hempty]
      refine eq_nil_of_length_eq_zero ?_
      rw [length_used, htop, hlen]
    · rw [hbegin, hsnap, used_copyIn hold.length] at hg
      exact hg

theorem retire (h : Kept routines stackTable exempt none 0) (hx : routines[r]? = some x)
    (hg : x.gaveUp = none) :
    Kept (routines.modify r fun x => { x with stackSnapshot := [], stackSnapshotBegin := 0 })
      (stackTable.modify x.stack fun k => if k.occupant = some r then { k with occupant := none }
        else k)
      (fun q => exempt q ∧ q ≠ r) none 0 where
  shape := by
    apply Shape.modifyStack
    · exact h.shape.modifyRoutine fun _ => rfl
    · intro k
      split <;> rfl
  occupant j o k hj ho := by
    -- Whoever still occupies a slot did so before, and it is not `r`.
    obtain ⟨k₀, hk₀, ho₀, hor⟩ : ∃ k₀, stackTable[j]? = some k₀ ∧ k₀.occupant = some o ∧ o ≠ r := by
      rcases getElem?_modify_cases hj with ⟨k₀, rfl, hk₀, rfl⟩ | ⟨hne, hk₀⟩
      · split at ho
        · cases ho
        · next hno =>
          refine ⟨k₀, hk₀, ho, ?_⟩
          rintro rfl
          exact hno ho
      · refine ⟨k, hk₀, ho, ?_⟩
        rintro rfl
        obtain ⟨y, hy, hst, -⟩ := h.occupant j o k hk₀ ho
        cases hx.symm.trans hy
        exact hne hst
    obtain ⟨y, hy, hst, hp⟩ := h.occupant j o k₀ hk₀ ho₀
    exact ⟨y, by rw [getElem?_modify_of_ne hor.symm, hy], hst, hp.imp_left fun he => ⟨he, hor⟩⟩
  parked q y a bytes hy he hga := by
    rcases getElem?_modify_cases hy with ⟨x', rfl, hx', rfl⟩ | ⟨hne, hy⟩
    · cases hx.symm.trans hx'
      cases hg.symm.trans hga
    · obtain ⟨hptr, hst⟩ := h.parked q y a bytes hy (fun hq => he ⟨hq, fun h => hne h.symm⟩) hga
      refine ⟨hptr, fun k hk => ?_⟩
      rcases getElem?_modify_cases hk with ⟨k₀, -, hk₀, rfl⟩ | ⟨-, hk⟩
      · have hold := hst k₀ hk₀
        split
        · next ho =>
          exact
            { bottom := hold.bottom
              top := hold.top
              length := hold.length
              memory := fun hm => hold.memory (.inl (by simpa using hm))
              snapshot := fun hs _ => hold.snapshot hs (by rw [ho]; simpa using hne) }
        · exact hold
      · exact hst k hk

end Kept

/-! ## The scheduler's own functions -/

def restored (stackTable : List Stack) (j : Nat) : Option (Nat × Bytes) → List Stack
  | none => stackTable
  | some (start, data) => stackTable.modify j fun k => k.copyIn start data

/-- An update of a routine's snapshot and of nothing else. -/
structure SnapshotOnly (f : Routine → Routine) : Prop where
  stack : ∀ x, (f x).stack = x.stack
  state : ∀ x, (f x).state = x.state
  queued : ∀ x, (f x).queued = x.queued
  context : ∀ x, (f x).context = x.context
  gaveUp : ∀ x, (f x).gaveUp = x.gaveUp

theorem SnapshotOnly.id : SnapshotOnly id :=
  ⟨fun _ => rfl, fun _ => rfl, fun _ => rfl, fun _ => rfl, fun _ => rfl⟩

namespace Scheduler

variable {s s' : Scheduler}

theorem saveSharedStack_ok {o : Nat} {pointer : Option Nat} {x : Routine} {k : Stack}
    (hx : s.routines[o]? = some x) (hk : s.stackTable[x.stack]? = some k)
    (h : s.saveSharedStack o pointer = .ok s') :
    (s' = s ∧ (k.isShared = false ∨ x.state = .init ∨ x.state = .finished)) ∨
    s' = s.setRoutine o fun y =>
      { y with
        stackSnapshotBegin := pointer.getD (x.context.getD 0)
        stackSnapshot := k.used (pointer.getD (x.context.getD 0)) } := by
  simp only [saveSharedStack, hx, hk] at h
  split at h
  · next hskip => exact .inl ⟨(Except.ok.inj h).symm, hskip⟩
  · split at h
    · cases h
    · exact .inr (Except.ok.inj h).symm

theorem save_evict {o j : Nat} {left : Option Nat} {sp : Nat} {k : Stack} {exempt : Nat → Prop}
    (h : Kept s.routines s.stackTable exempt left sp) (hk : s.stackTable[j]? = some k)
    (hs : k.isShared = true) (ho : k.occupant = some o)
    (hsave : s.saveSharedStack o (if left = some o then some sp else none) = .ok s') :
    ∃ f, SnapshotOnly f ∧ s' = s.setRoutine o f ∧
      Kept (s.routines.modify o f) (s.stackTable.modify j fun k => { k with occupant := none })
        exempt
        left sp := by
  obtain ⟨x, hx, hst, hp⟩ := h.occupant j o k hk ho
  rcases saveSharedStack_ok hx (hst ▸ hk) hsave with ⟨hs', hskip⟩ | hs'
  · -- Nothing was saved: then `o` is exempt, it has finished.
    refine ⟨id, .id, by rw [hs', setRoutine, modify_id], ?_⟩
    refine h.evict hk hs ho (fun _ => ⟨rfl, rfl, rfl⟩) fun y a bytes hy he _ => ?_
    have hpk := hp.resolve_left he
    rcases hskip with hns | hi | hf
    · rw [hs] at hns
      cases hns
    · exact absurd hi hpk.state_ne_init
    · exact absurd hf hpk.state_ne_finished
  · refine ⟨_, ?_, hs', ?_⟩
    · exact ⟨fun _ => rfl, fun _ => rfl, fun _ => rfl, fun _ => rfl, fun _ => rfl⟩
    refine h.evict hk hs ho (fun _ => ⟨rfl, rfl, rfl⟩) fun y a bytes hy he hg => ?_
    cases hx.symm.trans hy
    obtain ⟨hptr, hstored⟩ := h.parked o x a bytes hx he hg
    -- Both sources of the stack pointer give the one at which `o` gave up control.
    have hrsp : (if left = some o then some sp else none).getD (x.context.getD 0) = a := by
      unfold pointerOf at hptr
      split at hptr
      · next hl => rw [if_pos hl]; exact some.inj hptr
      · next hl => rw [if_neg hl, hptr]; rfl
    rw [hrsp]
    exact ⟨(hstored k (hst ▸ hk)).memory (.inr ho), rfl⟩

/-- `PrepareSharedStack` and the copy of the switch: the slot of `r` changes hands, and whatever
    was suspended stays recoverable. -/
theorem prepare_kept {r : Nat} {left : Option Nat} {sp : Nat} {restore : Option (Nat × Bytes)}
    {exempt : Nat → Prop} {x : Routine} (h : Kept s.routines s.stackTable exempt left sp)
    (hx : s.routines[r]? = some x) (hr : ¬ exempt r)
    (hp : s.prepareSharedStack r left sp = .ok (s', restore)) :
    (∃ o f, SnapshotOnly f ∧
      s' = { s with routines := s.routines.modify o f, stackTable := s'.stackTable }) ∧
    (restored s'.stackTable x.stack restore).map isShared = s.stackTable.map isShared ∧
    Kept s'.routines (restored s'.stackTable x.stack restore) (fun q => exempt q ∨ q = r) left sp ∧
    ∀ k, (restored s'.stackTable x.stack restore)[x.stack]? = some k →
      (k.isShared = true → k.occupant = some r) ∧
      ∀ a bytes, x.gaveUp = some (a, bytes) → k.used a = bytes := by
  obtain ⟨k, hk⟩ := h.stack hx
  simp only [prepareSharedStack, hx, hk] at hp
  split at hp
  · next hstay =>
    cases hp
    refine ⟨⟨r, id, .id, by rw [modify_id]⟩, rfl, h.mono fun _ => .inl, ?_⟩
    intro k' hk'
    cases hk.symm.trans hk'
    refine ⟨fun hs => hstay.resolve_left (by simp [hs]), fun a bytes hg => ?_⟩
    exact ((h.parked r x a bytes hx hr hg).2 k hk).memory hstay
  · next hmove =>
    obtain ⟨hs, hocc⟩ : k.isShared = true ∧ k.occupant ≠ some r := by
      constructor
      · by_contra hns; exact hmove (.inl (by simpa using hns))
      · exact fun ho => hmove (.inr ho)
    split at hp
    · cases hp
    · next s₁ hs₁ =>
      -- First the slot is emptied.
      obtain ⟨o, f, hf, hs₁eq, hevicted, hxr⟩ : ∃ o f, SnapshotOnly f ∧ s₁ = s.setRoutine o f ∧
          Kept (s.routines.modify o f)
            (s.stackTable.modify x.stack fun k => { k with occupant := none }) exempt left sp ∧
          (s.routines.modify o f)[r]? = some x := by
        split at hs₁
        · next o ho =>
          obtain ⟨f, hf, heq, hkept⟩ := save_evict h hk hs ho hs₁
          have hor : o ≠ r := by
            rintro rfl
            exact hocc ho
          exact ⟨o, f, hf, heq, hkept, by rw [getElem?_modify_of_ne hor, hx]⟩
        · next hn =>
          refine ⟨r, id, .id, by rw [setRoutine, modify_id]; exact (Except.ok.inj hs₁).symm, ?_,
            by rw [modify_id, hx]⟩
          rw [modify_id, modify_eq_self hk]
          · exact h
          · cases k; cases hn; rfl
      -- Then `r` comes onto it.
      have hfree := getElem?_modify_self (f := fun k => { k with occupant := none }) hk
      subst hs₁eq
      split at hp
      · next hempty =>
        cases hp
        obtain ⟨hkept, hmem⟩ := hevicted.install
          (g := fun k => { k with occupant := some r }) hxr hr hfree hs rfl
          (fun _ => ⟨rfl, rfl, rfl, rfl⟩) (.inl hempty)
        rw [modify_modify_eq] at hkept
        refine ⟨⟨o, f, hf, rfl⟩, map_modify_eq fun _ => rfl, hkept, fun k' hk' => ?_⟩
        have hk'' : (s.stackTable.modify x.stack fun k => { k with occupant := some r })[x.stack]? =
            some k' := hk'
        rw [getElem?_modify_self hk] at hk''
        cases hk''
        exact ⟨fun _ => rfl, hmem⟩
      · split at hp
        · cases hp
        · cases hp
          obtain ⟨hkept, hmem⟩ := hevicted.install
            (g := fun k => copyIn { k with occupant := some r } x.stackSnapshotBegin
              x.stackSnapshot) hxr hr hfree hs rfl (fun _ => ⟨rfl, rfl, rfl, rfl⟩) (.inr rfl)
          rw [modify_modify_eq] at hkept
          have hstacks : restored (s.stackTable.modify x.stack fun k => { k with occupant := some r })
              x.stack (some (x.stackSnapshotBegin, x.stackSnapshot)) =
              s.stackTable.modify x.stack (fun k => copyIn { k with occupant := some r }
                x.stackSnapshotBegin x.stackSnapshot) := by
            rw [restored, modify_modify_eq]
            rfl
          refine ⟨⟨o, f, hf, rfl⟩, ?_, ?_, fun k' hk' => ?_⟩
          · show (restored (s.stackTable.modify _ _) _ _).map _ = _
            rw [hstacks]
            exact map_modify_eq fun _ => rfl
          · show Kept _ (restored (s.stackTable.modify _ _) _ _) _ _ _
            rw [hstacks]
            exact hkept
          · have hk'' : (restored (s.stackTable.modify x.stack fun k => { k with occupant := some r })
                x.stack (some (x.stackSnapshotBegin, x.stackSnapshot)))[x.stack]? = some k' := hk'
            rw [hstacks, getElem?_modify_self hk] at hk''
            cases hk''
            exact ⟨fun _ => rfl, hmem⟩

end Scheduler

end CoroRpc.Runtime
