import Mathlib.Logic.Function.Basic
import Mathlib.Data.List.Nodup

/-!
# One place for each thing

To say that every thing is in exactly one of several containers, give each thing its place: a
function `place`. `Fills live place p l` then says that the container at `p` has the contents `l`,
namely the live things whose place is `p`, each of them once. A move of one thing is an update of
`place`, and the lemmas say what it does to the containers it leaves, enters, or passes by.
-/

namespace CoroRpc.Lib

open List Function

universe u v

variable {α : Type u} {π : Type v}

/-- The container at `p` holds `l`. -/
def Fills (live : α → Prop) (place : α → π) (p : π) (l : List α) : Prop :=
  l.Nodup ∧ ∀ a, a ∈ l ↔ live a ∧ place a = p

/-- All that is at `p` goes to `q`. -/
def relocate [DecidableEq π] (place : α → π) (p q : π) (a : α) : π :=
  if place a = p then q else place a

theorem relocate_of_eq [DecidableEq π] {place : α → π} {p : π} {a : α} (h : place a = p) (q : π) :
    relocate place p q a = q := if_pos h

theorem relocate_of_ne [DecidableEq π] {place : α → π} {p : π} {a : α} (h : place a ≠ p) (q : π) :
    relocate place p q a = place a := if_neg h

namespace Fills

variable {live : α → Prop} {place : α → π} {p q : π} {l : List α} {a : α}

section
variable (h : Fills live place p l)
include h

theorem nodup : l.Nodup := h.1

theorem mem_iff : a ∈ l ↔ live a ∧ place a = p := h.2 a

theorem place_eq (ha : a ∈ l) : place a = p := (h.mem_iff.mp ha).2

theorem live_of_mem (ha : a ∈ l) : live a := (h.mem_iff.mp ha).1

theorem not_mem (hne : place a ≠ p) : a ∉ l :=
  fun ha => hne (h.place_eq ha)

theorem perm {l' : List α} (hl : l.Perm l') : Fills live place p l' :=
  ⟨hl.nodup_iff.mp h.nodup, fun _ => hl.mem_iff.symm.trans h.mem_iff⟩

end

variable [DecidableEq α]

/-- `a` moves past the container. -/
theorem pass (h : Fills live place p l) (ha : place a ≠ p) (hq : q ≠ p) :
    Fills live (update place a q) p l := by
  refine ⟨h.nodup, fun b => ?_⟩
  by_cases hb : b = a
  · subst hb
    rw [update_self]
    exact ⟨fun hmem => absurd hmem (h.not_mem ha), fun hmem => absurd hmem.2 hq⟩
  · rw [update_of_ne hb]
    exact h.mem_iff

/-- `a` moves into the container. -/
theorem enter (h : Fills live place p l) (hlive : live a) (ha : place a ≠ p) :
    Fills live (update place a p) p (a :: l) := by
  refine ⟨nodup_cons.mpr ⟨h.not_mem ha, h.nodup⟩, fun b => ?_⟩
  by_cases hb : b = a
  · subst hb
    rw [update_self]
    exact ⟨fun _ => ⟨hlive, rfl⟩, fun _ => mem_cons_self⟩
  · rw [update_of_ne hb, mem_cons]
    exact ⟨fun hmem => h.mem_iff.mp (hmem.resolve_left hb), fun hmem => .inr (h.mem_iff.mpr hmem)⟩

theorem remove (h : Fills live place p l) (hq : q ≠ p) :
    Fills live (update place a q) p (l.erase a) := by
  refine ⟨h.nodup.erase a, fun b => ?_⟩
  rw [h.nodup.mem_erase_iff, h.mem_iff]
  by_cases hb : b = a
  · subst hb
    rw [update_self]
    exact ⟨fun hmem => absurd rfl hmem.1, fun hmem => absurd hmem.2 hq⟩
  · rw [update_of_ne hb]
    exact ⟨fun hmem => hmem.2, fun hmem => ⟨hb, hmem⟩⟩

/-- The first thing moves out of the container. -/
theorem leave (h : Fills live place p (a :: l)) (hq : q ≠ p) :
    Fills live (update place a q) p l := by
  have hremove := h.remove (a := a) hq
  rwa [erase_cons_head] at hremove

theorem born_elsewhere (h : Fills live place p l) (hnew : ¬ live a) (hq : q ≠ p) :
    Fills (fun b => live b ∨ b = a) (update place a q) p l := by
  refine ⟨h.nodup, fun b => ?_⟩
  by_cases hb : b = a
  · subst hb
    rw [update_self]
    exact ⟨fun hmem => absurd (h.live_of_mem hmem) hnew, fun hmem => absurd hmem.2 hq⟩
  · rw [update_of_ne hb]
    simp only [hb, or_false]
    exact h.mem_iff

/-- `a` becomes live, in the container. -/
theorem born (h : Fills live place p l) (hnew : ¬ live a) :
    Fills (fun b => live b ∨ b = a) (update place a p) p (a :: l) := by
  refine ⟨nodup_cons.mpr ⟨fun hmem => hnew (h.live_of_mem hmem), h.nodup⟩, fun b => ?_⟩
  by_cases hb : b = a
  · subst hb
    simp
  · rw [update_of_ne hb, mem_cons]
    simp only [hb, or_false, false_or]
    exact h.mem_iff

variable [DecidableEq π]

omit [DecidableEq α] in
/-- All contents of a container move into an empty one. -/
theorem move (h : Fills live place p l) (hq : Fills live place q []) :
    Fills live (relocate place p q) q l := by
  refine ⟨h.nodup, fun b => ?_⟩
  rw [h.mem_iff]
  by_cases hb : place b = p
  · rw [relocate_of_eq hb]
    simp [hb]
  · rw [relocate_of_ne hb]
    refine ⟨fun hmem => absurd hmem.2 hb, fun hmem => ?_⟩
    exact absurd (hq.mem_iff.mpr hmem) not_mem_nil

omit [DecidableEq α] in
theorem moved (hpq : q ≠ p) : Fills live (relocate place p q) p [] := by
  refine ⟨nodup_nil, fun b => ?_⟩
  by_cases hb : place b = p
  · rw [relocate_of_eq hb]
    simp [hpq]
  · rw [relocate_of_ne hb]
    simp [hb]

omit [DecidableEq α] in
theorem move_pass {r : π} (h : Fills live place r l) (hp : r ≠ p) (hq : r ≠ q) :
    Fills live (relocate place p q) r l := by
  refine ⟨h.nodup, fun b => ?_⟩
  rw [h.mem_iff]
  by_cases hb : place b = p
  · rw [relocate_of_eq hb, hb]
    simp [Ne.symm hp, Ne.symm hq]
  · rw [relocate_of_ne hb]

end Fills

end CoroRpc.Lib
