import Mathlib.Logic.Function.Basic
import Mathlib.Data.List.Nodup

/-!
# Linked lists in memory

A memory of nodes is a function `next` that gives each node the pointer stored in it, and a list
is a pointer to its first node. `Chain next p l` says that following the pointers from `p` runs
through the nodes `l` and ends. The one fact that proofs about shared lists rest on is that a
store to a node changes only the chains the node lies on (`Chain.store`).
-/

namespace CoroRpc.Lib

open List Function

universe u

variable {α : Type u}

/-- From `p` the pointers lead through `l`, in order, to null. -/
def Chain (next : α → Option α) : Option α → List α → Prop
  | p, [] => p = none
  | p, a :: l => p = some a ∧ Chain next (next a) l

section
variable {next : α → Option α} {p : Option α} {a : α} {l : List α}

theorem Chain.nil : Chain next none [] := rfl

theorem Chain.cons (h : Chain next (next a) l) : Chain next (some a) (a :: l) := ⟨rfl, h⟩

theorem Chain.eq_nil (h : Chain next none l) : l = [] := by
  cases l with
  | nil => rfl
  | cons a l => cases h.1

theorem Chain.eq_cons (h : Chain next (some a) l) :
    ∃ rest, l = a :: rest ∧ Chain next (next a) rest := by
  cases l with
  | nil => cases show some a = none from h
  | cons b rest =>
    obtain ⟨hb, hrest⟩ := h
    cases hb
    exact ⟨rest, rfl, hrest⟩

variable [DecidableEq α]

theorem Chain.store (h : Chain next p l) (ha : a ∉ l) (v : Option α) :
    Chain (update next a v) p l := by
  induction l generalizing p with
  | nil => exact h
  | cons b l ih =>
    obtain ⟨rfl, hl⟩ := h
    have hab : b ≠ a := fun hab => ha (hab ▸ mem_cons_self)
    refine ⟨rfl, ?_⟩
    rw [update_of_ne hab]
    exact ih hl fun hmem => ha (mem_cons_of_mem _ hmem)

end

end CoroRpc.Lib
