import Mathlib.Data.List.Basic
import Mathlib.Logic.Function.Basic

/-!
# Binary heaps whose items know their place

A binary heap in a vector, where every item also stores its position, so that an item can be taken
out from the middle. The two must agree: `Indexed` says that the positions are the inverse of the
vector. What the operations do to the *set* of items follows from it, whatever order the heap is
kept in; the order is a parameter of the operations here, and nothing in this file depends on it.

The sifts of a heap are loops whose length is bounded by the position they start from or by the
size of the heap, and that bound is the fuel they are given.
-/

namespace CoroRpc.Lib

open List Function Option

universe u

structure IndexedHeap (ν : Type u) where
  items : List ν
  /-- Where an item is, if it is in the heap. -/
  index : ν → Option Nat

namespace IndexedHeap

variable {ν : Type u}

def empty : IndexedHeap ν := ⟨[], fun _ => none⟩

/-- The stored positions are the inverse of the vector. -/
def Indexed (h : IndexedHeap ν) : Prop := ∀ v i, h.items[i]? = some v ↔ h.index v = some i

/-- The heap has been rearranged: its positions are still right, and the same items are in it. -/
structure Rearranged (h h' : IndexedHeap ν) : Prop where
  indexed : h'.Indexed
  same : ∀ v, (h'.index v).isSome = (h.index v).isSome

section
variable {h h' h'' : IndexedHeap ν} {v last : ν} {i j : Nat}

theorem indexed_empty : (empty : IndexedHeap ν).Indexed := by
  intro v i
  simp [empty]

theorem Rearranged.refl (hi : h.Indexed) : Rearranged h h := ⟨hi, fun _ => rfl⟩

theorem Rearranged.trans (h₁ : Rearranged h h') (h₂ : Rearranged h' h'') : Rearranged h h'' :=
  ⟨h₂.indexed, fun v => (h₂.same v).trans (h₁.same v)⟩

theorem Indexed.injective (hi : h.Indexed) (hv : h.items[i]? = some v)
    (hv' : h.items[j]? = some v) : i = j := by
  have hij := ((hi v i).mp hv).symm.trans ((hi v j).mp hv')
  exact some.inj hij

theorem Indexed.getElem?_dropLast (hi : h.Indexed) (hlast : h.items.getLast? = some last) :
    h.items.dropLast[i]? = some v ↔ v ≠ last ∧ h.index v = some i := by
  have hat : h.items[h.items.length - 1]? = some last := by
    rw [← List.getLast?_eq_getElem?]
    exact hlast
  rw [List.getElem?_dropLast, ← hi v i]
  constructor
  · intro hget
    split at hget
    · rename_i hlt
      refine ⟨?_, hget⟩
      rintro rfl
      have := hi.injective hget hat
      omega
    · cases hget
  · rintro ⟨hne, hget⟩
    have hlt := (List.getElem?_eq_some_iff.mp hget).1
    rw [if_pos, hget]
    by_contra hge
    obtain rfl : i = h.items.length - 1 := by omega
    exact hne (Option.some.inj (hget.symm.trans hat))

end

variable [DecidableEq ν]

def swap (h : IndexedHeap ν) (left right : Nat) : IndexedHeap ν :=
  match h.items[left]?, h.items[right]? with
  | some x, some y =>
    { items := (h.items.set left y).set right x
      index := update (update h.index y (some left)) x (some right) }
  | _, _ => h

def siftUp (before : ν → ν → Bool) : Nat → IndexedHeap ν → Nat → IndexedHeap ν
  | 0, h, _ => h
  | fuel + 1, h, index =>
    if index = 0 then h
    else
      match h.items[index]?, h.items[(index - 1) / 2]? with
      | some x, some parent =>
        if before x parent then siftUp before fuel (h.swap index ((index - 1) / 2)) ((index - 1) / 2)
        else h
      | _, _ => h

/-- The child of `index` that a sift down compares with: the right one if it is there and before
    the left one. -/
def childOf (before : ν → ν → Bool) (h : IndexedHeap ν) (index : Nat) : Nat :=
  match h.items[index * 2 + 2]?, h.items[index * 2 + 1]? with
  | some right, some left => if before right left then index * 2 + 2 else index * 2 + 1
  | _, _ => index * 2 + 1

def siftDown (before : ν → ν → Bool) : Nat → IndexedHeap ν → Nat → IndexedHeap ν
  | 0, h, _ => h
  | fuel + 1, h, index =>
    match h.items[h.childOf before index]?, h.items[index]? with
    | some child, some x =>
      if before child x then
        siftDown before fuel (h.swap index (h.childOf before index)) (h.childOf before index)
      else h
    | _, _ => h

/-- Put an item that is not in the heap into it. -/
def insert (before : ν → ν → Bool) (h : IndexedHeap ν) (v : ν) : IndexedHeap ν :=
  siftUp before h.items.length
    { items := h.items ++ [v], index := update h.index v (some h.items.length) }
    h.items.length

/-- Take an item out, if it is in: the last item takes its place and is sifted up or down. -/
def remove (before : ν → ν → Bool) (h : IndexedHeap ν) (v : ν) : IndexedHeap ν :=
  match h.index v, h.items.getLast? with
  | some index, some last =>
    let rest := h.items.dropLast
    if index = rest.length then { items := rest, index := update h.index v none }
    else
      let moved : IndexedHeap ν :=
        { items := rest.set index last
          index := update (update h.index v none) last (some index) }
      if 0 < index ∧ ((rest[(index - 1) / 2]?).any (before last ·)) = true then
        siftUp before index moved index
      else siftDown before rest.length moved index
  | _, _ => h

variable {h : IndexedHeap ν} {v : ν}

theorem rearranged_swap (hi : h.Indexed) (left right : Nat) : Rearranged h (h.swap left right) := by
  unfold swap
  split
  case h_2 => exact .refl hi
  rename_i x y hx hy
  have hl : left < h.items.length := (List.getElem?_eq_some_iff.mp hx).1
  have hr : right < h.items.length := (List.getElem?_eq_some_iff.mp hy).1
  have hxi := (hi x left).mp hx
  have hyi := (hi y right).mp hy
  refine ⟨fun v k => ?_, fun v => ?_⟩
  · -- by the position asked for, then by the item: only the two that were exchanged matter
    by_cases hvx : v = x
    · subst hvx
      by_cases hk : right = k
      · subst hk
        simp [hr]
      by_cases hlk : left = k
      · subst hlk
        have hne : y ≠ v := fun heq => hk (hi.injective hy (heq ▸ hx))
        simp [hk, hl, hne]
      have := hi v k
      simp only [hxi, some.injEq] at this
      simp [hk, hlk, this]
    by_cases hvy : v = y
    · subst hvy
      by_cases hk : right = k
      · subst hk
        have hne : left ≠ right := fun heq => hvx (some.inj (hy.symm.trans (heq ▸ hx)))
        simp [hr, hne, hvx, Ne.symm hvx]
      by_cases hlk : left = k
      · subst hlk
        simp [hk, hl, hvx]
      have := hi v k
      simp only [hyi, some.injEq] at this
      simp [hk, hlk, hvx, this]
    · have hother : ∀ {j} {z}, h.items[j]? = some z → v ≠ z → h.index v ≠ some j :=
        fun hz hne hj => hne (some.inj (((hi v _).mpr hj).symm.trans hz))
      by_cases hk : right = k
      · subst hk
        simp [hr, hvx, hvy, Ne.symm hvx, hother hy hvy]
      by_cases hlk : left = k
      · subst hlk
        simp [hk, hl, hvx, hvy, Ne.symm hvy, hother hx hvx]
      simp [hk, hlk, hvx, hvy, hi v k]
  · simp only [update_apply]
    split
    · rename_i heq
      simp [heq, hxi]
    · split
      · rename_i heq
        simp [heq, hyi]
      · rfl

theorem rearranged_siftUp (before : ν → ν → Bool) (fuel : Nat) (hi : h.Indexed) (index : Nat) :
    Rearranged h (siftUp before fuel h index) := by
  induction fuel generalizing h index with
  | zero => exact .refl hi
  | succ fuel ih =>
    unfold siftUp
    split
    · exact .refl hi
    split
    · split
      · have hswap := rearranged_swap hi index ((index - 1) / 2)
        exact hswap.trans (ih hswap.indexed _)
      · exact .refl hi
    · exact .refl hi

theorem rearranged_siftDown (before : ν → ν → Bool) (fuel : Nat) (hi : h.Indexed) (index : Nat) :
    Rearranged h (siftDown before fuel h index) := by
  induction fuel generalizing h index with
  | zero => exact .refl hi
  | succ fuel ih =>
    unfold siftDown
    split
    · split
      · have hswap := rearranged_swap hi index (h.childOf before index)
        exact hswap.trans (ih hswap.indexed _)
      · exact .refl hi
    · exact .refl hi

theorem insert_spec (before : ν → ν → Bool) (hi : h.Indexed) (hv : h.index v = none) :
    (h.insert before v).Indexed ∧
      ∀ u, ((h.insert before v).index u).isSome = (decide (u = v) || (h.index u).isSome) := by
  have hplaced : Indexed { items := h.items ++ [v],
                           index := update h.index v (some h.items.length) } := by
    intro u i
    simp only [update_apply]
    by_cases huv : u = v
    · subst huv
      rw [if_pos rfl, getElem?_append]
      split
      · rename_i hlt
        have := hi u i
        simp only [hv, reduceCtorEq, iff_false] at this
        simp [this]
        omega
      · rename_i hge
        rw [some.injEq]
        constructor
        · intro hget
          have := (List.getElem?_eq_some_iff.mp hget).1
          simp only [length_singleton] at this
          omega
        · rintro rfl
          simp
    · rw [if_neg huv, ← hi u i, getElem?_append]
      split
      · rfl
      · rename_i hge
        have hnone : h.items[i]? = none := getElem?_eq_none (Nat.le_of_not_lt hge)
        rw [hnone]
        simp only [reduceCtorEq, iff_false]
        intro hget
        exact huv (mem_singleton.mp (mem_of_getElem? hget))
  have hsift := rearranged_siftUp before h.items.length hplaced h.items.length
  refine ⟨hsift.indexed, fun u => (hsift.same u).trans ?_⟩
  simp only [update_apply]
  split
  · rename_i huv
    simp [huv]
  · rename_i huv
    simp [huv]

theorem Indexed.pop (hi : h.Indexed) (hlast : h.items.getLast? = some v) :
    Indexed { items := h.items.dropLast, index := update h.index v none } := by
  intro u i
  rw [hi.getElem?_dropLast hlast]
  simp only [update_apply]
  split
  · rename_i huv
    simp [huv]
  · rename_i huv
    simp [huv]

theorem Indexed.move {last : ν} {index : Nat} (hi : h.Indexed)
    (hlast : h.items.getLast? = some last) (hv : h.index v = some index) (hne : last ≠ v) :
    Indexed { items := h.items.dropLast.set index last,
              index := update (update h.index v none) last (some index) } := by
  have hlt : index < h.items.dropLast.length :=
    (List.getElem?_eq_some_iff.mp ((hi.getElem?_dropLast hlast).mpr ⟨hne.symm, hv⟩)).1
  have hplace : ∀ {u}, h.index u = some index → u = v := fun hu =>
    some.inj (((hi _ index).mpr hu).symm.trans ((hi v index).mpr hv))
  intro u i
  rw [getElem?_set]
  simp only [update_apply]
  by_cases hii : index = i
  · -- the place that was given up
    subst hii
    rw [if_pos rfl, if_pos hlt, some.injEq]
    by_cases hul : u = last
    · simp [hul]
    · rw [if_neg hul]
      split
      · simp [Ne.symm hul]
      · rename_i huv
        simp only [Ne.symm hul, false_iff]
        exact fun hu => huv (hplace hu)
  · rw [if_neg hii, hi.getElem?_dropLast hlast]
    split
    · rename_i hul
      simp [hul, hii]
    · rename_i hul
      split
      · rename_i huv
        simp [huv, hv, hii]
      · simp [hul]

theorem remove_spec (before : ν → ν → Bool) (hi : h.Indexed) : (h.remove before v).Indexed ∧
      ∀ u, ((h.remove before v).index u).isSome = (!decide (u = v) && (h.index u).isSome) := by
  unfold remove
  split
  case h_2 =>
    rename_i hno
    -- an item with a position is in the vector, so the vector has a last item
    have hnone : h.index v = none := by
      cases hv : h.index v with
      | none => rfl
      | some index =>
        cases hlast : h.items.getLast? with
        | none =>
          have hget := (hi v index).mpr hv
          rw [getLast?_eq_none_iff.mp hlast] at hget
          cases hget
        | some last => exact absurd hlast (hno index last hv)
    refine ⟨hi, fun u => ?_⟩
    by_cases huv : u = v
    · simp [huv, hnone]
    · simp [huv]
  rename_i index last hv hlast
  have hat : h.items[h.items.length - 1]? = some last := by
    rw [← getLast?_eq_getElem?]
    exact hlast
  have hend : index = h.items.dropLast.length ↔ last = v := by
    rw [length_dropLast]
    constructor
    · rintro rfl
      exact some.inj (hat.symm.trans ((hi v _).mpr hv))
    · rintro rfl
      exact hi.injective ((hi last index).mpr hv) hat
  dsimp only
  split
  · rename_i hix
    obtain rfl := hend.mp hix
    refine ⟨hi.pop hlast, fun u => ?_⟩
    by_cases huv : u = last
    · simp [huv]
    · simp [huv]
  · rename_i hix
    have hlv : last ≠ v := fun heq => hix (hend.mpr heq)
    have hmoved := hi.move hlast hv hlv
    have hsame : ∀ u, (update (update h.index v none) last (some index) u).isSome =
        (!decide (u = v) && (h.index u).isSome) := by
      intro u
      by_cases hul : u = last
      · simp [hul, hlv, (hi last _).mp hat]
      · by_cases huv : u = v
        · simp [huv, Ne.symm hlv]
        · simp [hul, huv]
    split
    · have hsift := rearranged_siftUp before index hmoved index
      exact ⟨hsift.indexed, fun u => (hsift.same u).trans (hsame u)⟩
    · have hsift := rearranged_siftDown before h.items.dropLast.length hmoved index
      exact ⟨hsift.indexed, fun u => (hsift.same u).trans (hsame u)⟩

end IndexedHeap

end CoroRpc.Lib
