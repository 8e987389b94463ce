import CoroRpc.Lib.Run
import Mathlib.Data.Finset.Card

/-!
# The fan-in of `CoroResult<T>`

`coro_result.h`: a parent coroutine creates a result with `count` slots, children complete them,
and `Wait` suspends the parent until the counter `remaining_` is zero. The counter knows nothing
of indices: every completion takes one off it. A slot that is completed a second time is noticed
only where a value is still stored in it, so `SetException` (which stores none) and `Take`
(which removes it) both make room for a second completion, and `GoInto` turns the failing second
`Set` into a `SetException` of the same slot. The counter is right of the runs in which no
index is completed twice.
-/

namespace CoroRpc.Runtime

open Lib List Option

/-- What a slot or the parent is given: an exception of the closure, or one of this class. -/
inductive Thrown (ε : Type) where
  | error (e : ε)
  | logicError (what : String)
  deriving DecidableEq

/-- Where the parent is: outside `Wait`, yielded in its loop, or back from it, with what it
rethrew. -/
inductive Parent (ε : Type) where
  | running
  | yielded
  | returned (rethrown : Option (Thrown ε))
  deriving DecidableEq

def Parent.isYielded {ε : Type} : Parent ε → Bool
  | .yielded => true
  | _ => false

/-- The object. `completed` and `filled` are history: the indices of the completions, and of
those with a value. -/
structure CoroResult (α ε : Type) where
  remaining : Nat
  waiting : Bool := false
  results : List (Option α)
  firstError : Option (Thrown ε) := none
  parent : Parent ε := .running
  completed : List Nat := []
  filled : List Nat := []
  deriving DecidableEq

namespace CoroResult

variable {α ε : Type}

def create (count : Nat) : CoroResult α ε :=
  { remaining := count, results := List.replicate count none }

/-- The caller runs on the creating runtime. -/
def checkSetPrecondition (c : CoroResult α ε) (index : Nat) : Except String Unit :=
  if c.results.length ≤ index then .error "CoroResult::Set index out of range"
  else if c.remaining = 0 then .error "CoroResult::Set called after all slots were filled"
  else .ok ()

/-- The resumption of the parent is a step of its own (`Op.resume`). -/
def finishSlot (c : CoroResult α ε) (index : Nat) : CoroResult α ε :=
  { c with remaining := c.remaining - 1, completed := index :: c.completed }

def set (c : CoroResult α ε) (index : Nat) (value : α) : Except String (CoroResult α ε) := do
  c.checkSetPrecondition index
  if (c.results[index]?.join).isSome then .error "CoroResult::Set called twice for one slot"
  else .ok ({ c with results := c.results.set index (some value),
                     filled := index :: c.filled }.finishSlot index)

/-- An `exception_ptr` may be null. -/
def setException (c : CoroResult α ε) (index : Nat) (error : Option (Thrown ε)) :
    Except String (CoroResult α ε) := do
  c.checkSetPrecondition index
  .ok ({ c with firstError := c.firstError.or error }.finishSlot index)

/-- The body of the coroutine that `GoInto` starts, once `fn` is back. -/
def goInto (c : CoroResult α ε) (index : Nat) (fn : Except ε α) : CoroResult α ε :=
  let caught (e : Thrown ε) := ((c.setException index (some e)).toOption).getD c
  match fn with
  | .error e => caught (.error e)
  | .ok value =>
    match c.set index value with
    | .ok c' => c'
    | .error what => caught (.logicError what)

/-- One turn of the loop of `Wait`, up to its `Yield` or its end. -/
def wait (c : CoroResult α ε) : CoroResult α ε :=
  if c.remaining ≠ 0 then { c with waiting := true, parent := .yielded }
  else { c with waiting := false, parent := .returned c.firstError }

def take (c : CoroResult α ε) (index : Nat) : Except String (α × CoroResult α ε) :=
  match c.results[index]?.join with
  | some value => .ok (value, { c with results := c.results.set index none })
  | none => .error "CoroResult::Take on an unfilled slot"

inductive Op (α ε : Type) where
  | set (index : Nat) (value : α)
  | setException (index : Nat) (error : Option (Thrown ε))
  | goInto (index : Nat) (fn : Except ε α)
  | take (index : Nat)
  | wait
  /-- Anybody resumes the parent, `FinishSlot` among them. -/
  | resume

/-- A call that throws changes nothing and is no step. -/
def step (c : CoroResult α ε) : Op α ε → Option (CoroResult α ε)
  | .set index value => (c.set index value).toOption
  | .setException index error => (c.setException index error).toOption
  | .goInto index fn => some (c.goInto index fn)
  | .take index => (c.take index).toOption.map (·.2)
  | .wait => if c.parent.isYielded then none else some c.wait
  | .resume => if c.parent.isYielded then some c.wait else none

/-- No completion is of an index that is completed, and no exception is null. -/
def CompletesOnce (c : CoroResult α ε) : Op α ε → Prop
  | .set index _ | .goInto index _ => index ∉ c.completed
  | .setException index error => index ∉ c.completed ∧ error ≠ none
  | _ => True

structure Inv (n : Nat) (c : CoroResult α ε) : Prop where
  length : c.results.length = n
  count : c.remaining + c.completed.length = n
  nodup : c.completed.Nodup
  bound : ∀ i ∈ c.completed, i < n
  filled : c.firstError = none → ∀ i ∈ c.completed, i ∈ c.filled
  parent : ∀ t, c.parent = .returned t → c.remaining = 0 ∧ t = c.firstError

variable {n index : Nat} {c c' : CoroResult α ε}

theorem inv_create (n : Nat) : Inv n (create n : CoroResult α ε) where
  length := length_replicate
  count := rfl
  nodup := .nil
  bound := nofun
  filled := nofun
  parent := nofun

theorem checkSetPrecondition_ok (h : c.checkSetPrecondition index = .ok ()) :
    index < c.results.length ∧ c.remaining ≠ 0 := by
  unfold checkSetPrecondition at h
  split at h <;> [cases h; skip]
  split at h
  · cases h
  · exact ⟨Nat.lt_of_not_le ‹_›, ‹_›⟩

theorem set_ok {value : α} (h : c.set index value = .ok c') :
    (index < c.results.length ∧ c.remaining ≠ 0) ∧
      c' = { c with results := c.results.set index (some value),
                    filled := index :: c.filled }.finishSlot index := by
  unfold set at h
  cases hc : c.checkSetPrecondition index with
  | error what => rw [hc] at h; cases h
  | ok u =>
    rw [hc] at h
    refine ⟨checkSetPrecondition_ok hc, ?_⟩
    split at h
    · cases h
    · cases h; rfl

theorem setException_ok {error : Option (Thrown ε)} (h : c.setException index error = .ok c') :
    (index < c.results.length ∧ c.remaining ≠ 0) ∧
      c' = { c with firstError := c.firstError.or error }.finishSlot index := by
  unfold setException at h
  cases hc : c.checkSetPrecondition index with
  | error what => rw [hc] at h; cases h
  | ok u =>
    rw [hc] at h
    cases h
    exact ⟨checkSetPrecondition_ok hc, rfl⟩

section
variable (h : Inv n c)
include h

theorem Inv.finishSlot {results : List (Option α)} {error : Option (Thrown ε)} {filled : List Nat}
    (hs : index < c.results.length ∧ c.remaining ≠ 0) (hf : index ∉ c.completed)
    (hl : results.length = c.results.length)
    (he : error = none → c.firstError = none ∧ filled = index :: c.filled) :
    Inv n ({ c with results, firstError := error, filled }.finishSlot index) where
  length := hl.trans h.length
  count := by
    have := h.count
    simp only [CoroResult.finishSlot, length_cons]
    omega
  nodup := nodup_cons.mpr ⟨hf, h.nodup⟩
  bound := forall_mem_cons.mpr ⟨h.length ▸ hs.1, h.bound⟩
  filled herr := by
    obtain ⟨hn, rfl⟩ := he herr
    exact forall_mem_cons.mpr ⟨mem_cons_self, fun i hi => mem_cons_of_mem _ (h.filled hn i hi)⟩
  -- the parent is not back: a slot was open
  parent t ht := absurd (h.parent t ht).1 hs.2

section
variable (hf : index ∉ c.completed)
include hf

theorem Inv.set {value : α} (hs : c.set index value = .ok c') :
    Inv n c' := by
  obtain ⟨hopen, rfl⟩ := set_ok hs
  exact h.finishSlot hopen hf (length_set ..) fun he => ⟨he, rfl⟩

theorem Inv.setException {error : Option (Thrown ε)} (he : error ≠ none)
    (hs : c.setException index error = .ok c') : Inv n c' := by
  obtain ⟨hopen, rfl⟩ := setException_ok hs
  exact h.finishSlot hopen hf rfl fun hor => absurd (or_eq_none_iff.mp hor).2 he

theorem Inv.caught {e : Thrown ε} :
    Inv n (((c.setException index (some e)).toOption).getD c) := by
  cases hs : c.setException index (some e) with
  | error what => exact h
  | ok c₁ => exact h.setException hf (some_ne_none e) hs

theorem Inv.goInto {fn : Except ε α} : Inv n (c.goInto index fn) := by
  unfold CoroResult.goInto
  cases fn with
  | error e => exact h.caught hf
  | ok value =>
    dsimp only
    split
    · exact h.set hf ‹_›
    · exact h.caught hf

end

theorem Inv.take {value : α} (hs : c.take index = .ok (value, c')) : Inv n c' := by
  unfold CoroResult.take at hs
  split at hs
  · cases hs
    exact { h with length := (length_set ..).trans h.length }
  · cases hs

theorem Inv.wait : Inv n c.wait := by
  unfold CoroResult.wait
  split
  · exact { h with parent := nofun }
  · next hr =>
    refine { h with parent := fun t ht => ?_ }
    cases ht
    exact ⟨Decidable.not_not.mp hr, rfl⟩

theorem Inv.step {op : Op α ε} (hok : c.CompletesOnce op) (hs : c.step op = some c') :
    Inv n c' := by
  cases op with
  | set index value => exact h.set hok (eq_ok_of_toOption hs)
  | setException index error => exact h.setException hok.1 hok.2 (eq_ok_of_toOption hs)
  | goInto index fn => cases hs; exact h.goInto hok
  | take index =>
    obtain ⟨p, hp, rfl⟩ := map_eq_some_iff.mp hs
    exact h.take (eq_ok_of_toOption hp)
  | wait | resume =>
    simp only [CoroResult.step] at hs
    split at hs <;> cases hs
    exact h.wait

theorem Inv.mem_completed (hr : c.remaining = 0) {i : Nat} (hi : i < n) : i ∈ c.completed := by
  have hsub : c.completed.toFinset ⊆ Finset.range n := fun j hj =>
    Finset.mem_range.mpr (h.bound j (mem_toFinset.mp hj))
  have hcard : c.completed.toFinset.card = c.completed.length := toFinset_card_of_nodup h.nodup
  have heq := Finset.eq_of_subset_of_card_le hsub
    (by have := h.count; rw [Finset.card_range, hcard]; omega)
  exact mem_toFinset.mp (heq ▸ Finset.mem_range.mpr hi)

end

/-- While no index is completed twice, the counter is the number of slots that are not
completed; `Wait` is back only when every slot is, and without an exception only when every
slot was given a value. -/
theorem fan_in_counts_slots (n : Nat) {c : CoroResult α ε}
    (h : Reaches step CompletesOnce (create n) c) :
    c.remaining = n - c.completed.toFinset.card ∧
      (∀ t, c.parent = .returned t → ∀ i < n, i ∈ c.completed) ∧
      (c.parent = .returned none → ∀ i < n, i ∈ c.filled) := by
  have hc : Inv n c :=
    h.invariant (p := Inv n) (inv_create n) fun _ _ _ hi hok hs => hi.step hok hs
  refine ⟨?_, fun t ht i hi => hc.mem_completed (hc.parent t ht).1 hi, fun ht i hi => ?_⟩
  · rw [toFinset_card_of_nodup hc.nodup]
    exact Nat.eq_sub_of_add_eq hc.count
  · obtain ⟨hr, he⟩ := hc.parent none ht
    exact hc.filled he.symm i (hc.mem_completed hr hi)

/-- Two slots: the parent waits, one child fails and the other answers. -/
theorem fan_in_of_two_children :
    ∃ c : CoroResult Nat Unit, Reaches step CompletesOnce (create 2) c ∧
      c.parent = .returned (some (.error ())) ∧ c.remaining = 2 - c.completed.toFinset.card := by
  have hrun : Reaches step CompletesOnce (create 2 : CoroResult Nat Unit) _ :=
    .tail (a := .resume) (.tail (a := .goInto 1 (.ok 7)) (.tail (a := .goInto 0 (.error ()))
      (.tail (a := .wait) .refl trivial rfl) nofun rfl) (show 1 ∉ [0] by decide) rfl) trivial rfl
  exact ⟨_, hrun, rfl, (fan_in_counts_slots 2 hrun).1⟩

/-- Slot 0 is set, taken and set again: `Wait` returns normally and nobody ever completed
slot 1. -/
theorem wait_returns_with_open_slot :
    ∃ c : CoroResult Nat Unit, Reachable step (create 2) c ∧ c.parent = .returned none ∧
      c.remaining = 0 ∧ c.completed = [0, 0] := by
  refine ⟨_, .tail (a := .wait) (.tail (a := .set 0 2) (.tail (a := .take 0)
    (.tail (a := .set 0 1) .refl trivial rfl) trivial rfl) trivial rfl) trivial rfl, ?_⟩
  decide

end CoroResult
end CoroRpc.Runtime
