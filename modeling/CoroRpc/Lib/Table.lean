import Mathlib.Algebra.GroupWithZero.Nat
import Mathlib.Data.List.AList
import Mathlib.Logic.Relation

/-!
# Tables indexed by position

Parties of which there may be any number (tasks, calls, executions) live in a list and are named
by their position, so that a party's step is a `List.set` or a `List.modify`. This file says what
such a step does to a count over the table, to a property of all its rows and to a lookup, and what
a table is that only ever changes by steps of its rows. At its end are tables with keys: what an
update does to the number of entries of an `AList`.
-/

namespace CoroRpc.Lib

open List Option

universe u v

variable {α : Type u} {l : List α} {i : Nat} {x : α}

/-- The table with the row that is replaced in the middle. -/
theorem set_split (h : l[i]? = some x) :
    ∃ front back, l = front ++ x :: back ∧ ∀ y, l.set i y = front ++ y :: back := by
  obtain ⟨hlt, rfl⟩ := List.getElem?_eq_some_iff.mp h
  have hset : ∀ y, l.set i y = l.take i ++ y :: l.drop (i + 1) := by
    intro y
    rw [List.set_eq_take_append_cons_drop, if_pos hlt]
  refine ⟨l.take i, l.drop (i + 1), ?_, hset⟩
  rw [← hset, set_getElem_self]

/-- Replacing one row moves a count by that row alone. Stated additively, so that `omega` can
    use it without case splits on truncated subtraction. -/
theorem countP_set_add (p : α → Bool) (y : α) (h : l[i]? = some x) :
    (l.set i y).countP p + (p x).toNat = l.countP p + (p y).toNat := by
  obtain ⟨front, back, hl, hset⟩ := set_split h
  rw [hset, hl]
  simp only [countP_append, countP_cons]
  cases p x <;> cases p y <;> simp <;> omega

variable {f : α → α}

theorem countP_modify_add (p : α → Bool) (h : l[i]? = some x) :
    (l.modify i f).countP p + (p x).toNat = l.countP p + (p (f x)).toNat := by
  have hset : l.modify i f = l.set i (f x) := by
    rw [modify_eq_set_getElem?, h]
    rfl
  rw [hset]
  exact countP_set_add p (f x) h

theorem sum_map_set_add (f : α → Nat) (y : α) (h : l[i]? = some x) :
    ((l.set i y).map f).sum + f x = (l.map f).sum + f y := by
  obtain ⟨front, back, hl, hset⟩ := set_split h
  rw [hset, hl]
  simp only [map_append, map_cons, sum_append, sum_cons]
  omega

/-- The same split for a table of lists, seen as one list. -/
theorem flatten_set_split {l : List (List α)} {x : List α} (h : l[i]? = some x) :
    ∃ front back, l.flatten = front ++ (x ++ back) ∧
      ∀ y, (l.set i y).flatten = front ++ (y ++ back) := by
  obtain ⟨front, back, hl, hset⟩ := set_split h
  refine ⟨front.flatten, back.flatten, ?_, fun y => ?_⟩
  · rw [hl, flatten_append, flatten_cons]
  · rw [hset, flatten_append, flatten_cons]

theorem countP_flatten_set {l : List (List α)} {x : List α} (p : α → Bool) (y : List α)
    (h : l[i]? = some x) :
    (l.set i y).flatten.countP p + x.countP p = l.flatten.countP p + y.countP p := by
  obtain ⟨front, back, hl, hset⟩ := flatten_set_split h
  rw [hset, hl]
  simp only [countP_append]
  omega

theorem mem_flatten_set {l : List (List α)} {y : List α} {a : α} (h : a ∈ (l.set i y).flatten) :
    a ∈ y ∨ a ∈ l.flatten := by
  obtain ⟨x, hx, ha⟩ := List.mem_flatten.mp h
  rcases mem_or_eq_of_mem_set hx with hx | rfl
  · exact .inr (List.mem_flatten.mpr ⟨x, hx, ha⟩)
  · exact .inl ha

theorem mem_flatten_of_set {l : List (List α)} {x y : List α} {a : α} (hi : l[i]? = some x)
    (h : a ∈ l.flatten) : a ∈ x ∨ a ∈ (l.set i y).flatten := by
  obtain ⟨z, hz, ha⟩ := List.mem_flatten.mp h
  obtain ⟨j, hj⟩ := getElem?_of_mem hz
  by_cases hij : i = j
  · subst hij
    cases hi.symm.trans hj
    exact .inl ha
  · have hj' : (l.set i y)[j]? = some z := by rw [getElem?_set_ne hij, hj]
    exact .inr (List.mem_flatten.mpr ⟨z, mem_of_getElem? hj', ha⟩)

theorem mem_flatten_set_self {l : List (List α)} {x y : List α} {a : α} (hi : l[i]? = some x)
    (h : a ∈ y) : a ∈ (l.set i y).flatten := by
  obtain ⟨hlt, -⟩ := List.getElem?_eq_some_iff.mp hi
  exact List.mem_flatten.mpr ⟨y, List.mem_set hlt y, h⟩

theorem countP_pos_of_getElem? {p : α → Bool} (h : l[i]? = some x) (hp : p x = true) :
    0 < l.countP p :=
  countP_pos_iff.mpr ⟨x, mem_of_getElem? h, hp⟩

theorem forall_mem_set {y : α} {P : α → Prop} (h : ∀ x ∈ l, P x) (hy : P y) :
    ∀ x ∈ l.set i y, P x := by
  intro x hx
  rcases mem_or_eq_of_mem_set hx with hx | rfl
  · exact h x hx
  · exact hy

/-! ## Lookups -/

theorem getElem?_modify_iff {j : Nat} {y : α} :
    (l.modify i f)[j]? = some y ↔ ∃ x, l[j]? = some x ∧ y = if i = j then f x else x := by
  rw [getElem?_modify]
  constructor
  · intro h
    obtain ⟨x, hx, hy⟩ := Option.map_eq_some_iff.mp h
    exact ⟨x, hx, hy.symm⟩
  · rintro ⟨x, hx, rfl⟩
    rw [hx]
    rfl

theorem getElem?_modify_cases {j : Nat} {y : α} (h : (l.modify i f)[j]? = some y) :
    (∃ x, i = j ∧ l[j]? = some x ∧ y = f x) ∨ (i ≠ j ∧ l[j]? = some y) := by
  obtain ⟨x, hx, rfl⟩ := getElem?_modify_iff.mp h
  split
  · next hij => exact .inl ⟨x, hij, hx, rfl⟩
  · next hij => exact .inr ⟨hij, hx⟩

theorem getElem?_modify_self (h : l[i]? = some x) : (l.modify i f)[i]? = some (f x) :=
  getElem?_modify_iff.mpr ⟨x, h, (if_pos rfl).symm⟩

theorem getElem?_modify_of_ne {j : Nat} (h : i ≠ j) : (l.modify i f)[j]? = l[j]? := by
  rw [getElem?_modify]
  cases l[j]? with
  | none => rfl
  | some x => exact congrArg some (if_neg h)

theorem modify_eq_self (h : l[i]? = some x) (hf : f x = x) : l.modify i f = l := by
  apply ext_getElem?
  intro j
  by_cases hij : i = j
  · subst hij
    rw [getElem?_modify_self h, hf, h]
  · rw [getElem?_modify_of_ne hij]

theorem map_modify_eq {β : Type v} {g : α → β} (h : ∀ x, g (f x) = g x) :
    (l.modify i f).map g = l.map g := by
  apply ext_getElem?
  intro j
  rw [getElem?_map, getElem?_map, getElem?_modify]
  cases l[j]? with
  | none => rfl
  | some x =>
    simp only [Option.map_eq_map, Option.map_some, some.injEq]
    split
    · exact h x
    · rfl

theorem countP_modify_eq {p : α → Bool} (h : ∀ x, p (f x) = p x) :
    (l.modify i f).countP p = l.countP p := by
  have hmap := congrArg (List.countP id) (map_modify_eq (l := l) (i := i) h)
  simpa only [countP_map, Function.id_comp] using hmap

theorem map_modify_comm {g : α → α} (h : ∀ x, g (f x) = f (g x)) :
    (l.modify i f).map g = (l.map g).modify i f := by
  apply ext_getElem?
  intro j
  rw [getElem?_map, getElem?_modify, getElem?_modify, getElem?_map]
  cases l[j]? with
  | none => rfl
  | some x =>
    simp only [Option.map_eq_map, Option.map_some, some.injEq]
    split
    · exact h x
    · rfl

theorem getElem?_append_of_eq_some {l' : List α} (h : l[i]? = some x) : (l ++ l')[i]? = some x := by
  obtain ⟨hi, -⟩ := List.getElem?_eq_some_iff.mp h
  rw [List.getElem?_append_left hi, h]

theorem getElem?_snoc {y : α} (h : (l ++ [x])[i]? = some y) :
    l[i]? = some y ∨ (i = l.length ∧ y = x) := by
  rcases Nat.lt_trichotomy i l.length with hi | hi | hi
  · rw [List.getElem?_append_left hi] at h
    exact .inl h
  · subst hi
    rw [getElem?_append_right (Nat.le_refl _)] at h
    simp only [Nat.sub_self, getElem?_cons_zero, some.injEq] at h
    exact .inr ⟨rfl, h.symm⟩
  · rw [getElem?_eq_none (by rw [length_append, length_singleton]; omega)] at h
    cases h

/-! ## Rows that stay -/

section
variable {R : α → α → Prop} {f : α → α}

/-- Every row is still there, changed as `R` allows. -/
def Stays (R : α → α → Prop) (l l' : List α) : Prop :=
  ∀ (i : Nat) (x : α), l[i]? = some x → ∃ x', l'[i]? = some x' ∧ R x x'

namespace Stays

theorem trans [IsTrans α R] {l' l'' : List α} (h : Stays R l l') (h' : Stays R l' l'') :
    Stays R l l'' := by
  intro i x hx
  obtain ⟨y, hy, hxy⟩ := h i x hx
  obtain ⟨z, hz, hyz⟩ := h' i y hy
  exact ⟨z, hz, IsTrans.trans x y z hxy hyz⟩

variable [Std.Refl R]

theorem refl (l : List α) : Stays R l l := fun _ x hx => ⟨x, hx, Std.Refl.refl x⟩

theorem append (l l' : List α) : Stays R l (l ++ l') :=
  fun _ x hx => ⟨x, getElem?_append_of_eq_some hx, Std.Refl.refl x⟩

theorem modify (hf : ∀ x, R x (f x)) : Stays R l (l.modify i f) := by
  intro j x hx
  refine ⟨_, getElem?_modify_iff.mpr ⟨x, hx, rfl⟩, ?_⟩
  split
  · exact hf x
  · exact Std.Refl.refl x

theorem of_modify (hf : ∀ x, R (f x) x) : Stays R (l.modify i f) l := by
  intro j y hy
  rcases getElem?_modify_cases hy with ⟨x, -, hx, rfl⟩ | ⟨-, hx⟩
  · exact ⟨x, hx, hf x⟩
  · exact ⟨y, hx, Std.Refl.refl y⟩

end Stays
end

/-! ## Rows that take steps -/

section
variable {β : Type v} {R : β → β → Prop} {new : β → Prop} {g : α → β} {l' : List α}

/-- One row of a table takes a step, or a row is added. -/
inductive RowStep (R : β → β → Prop) (new : β → Prop) (l : List β) : List β → Prop
  | add {y : β} (h : new y) : RowStep R new l (l ++ [y])
  | row {i : Nat} {x y : β} (found : l[i]? = some x) (step : R x y) : RowStep R new l (l.set i y)

/-- Seen through `g`, the table changes by such steps only. -/
def Rows (R : β → β → Prop) (new : β → Prop) (g : α → β) (l l' : List α) : Prop :=
  Relation.ReflTransGen (RowStep R new) (l.map g) (l'.map g)

namespace Rows

theorem of_map_eq (h : l'.map g = l.map g) : Rows R new g l l' := by
  unfold Rows
  rw [h]

theorem append (h : new (g x)) : Rows R new g l (l ++ [x]) := by
  unfold Rows
  rw [map_append]
  exact .single (.add h)

theorem modify (h : ∀ x, l[i]? = some x → R (g x) (g (f x))) : Rows R new g l (l.modify i f) := by
  rw [modify_eq_set_getElem?]
  cases hi : l[i]? with
  | none => exact of_map_eq rfl
  | some x =>
    have hstep : RowStep R new (l.map g) ((l.map g).set i (g (f x))) :=
      .row (by rw [getElem?_map, hi]; rfl) (h x hi)
    rw [← map_set] at hstep
    exact .single hstep

/-- What new rows have and steps keep, all rows have. -/
theorem forall_mem {P : β → Prop} (h : Rows R new g l l') (hnew : ∀ y, new y → P y)
    (hR : ∀ x y, R x y → P x → P y) (hl : ∀ x ∈ l, P (g x)) : ∀ x ∈ l', P (g x) := by
  rw [← List.forall_mem_map] at hl ⊢
  unfold Rows at h
  generalize l'.map g = m at h ⊢
  induction h with
  | refl => exact hl
  | tail _ hstep ih =>
    cases hstep with
    | add hy => exact forall_mem_append.mpr ⟨ih, forall_mem_singleton.mpr (hnew _ hy)⟩
    | row hx hstep => exact forall_mem_set ih (hR _ _ hstep (ih _ (mem_of_getElem? hx)))

end Rows
end

/-! ## Removal by the last row -/

/-- A row that is overwritten by the last one, which goes: the table without the row. -/
theorem perm_set_dropLast {last : α} (hx : l[i]? = some x) (hlast : l.getLast? = some last) :
    ((l.set i last).dropLast ++ [x]).Perm l := by
  obtain ⟨front, rfl⟩ := getLast?_eq_some_iff.mp hlast
  rcases getElem?_snoc hx with hx | ⟨rfl, rfl⟩
  · obtain ⟨hi, rfl⟩ := List.getElem?_eq_some_iff.mp hx
    rw [List.set_append_left _ _ hi, List.dropLast_concat]
    -- the two rows have changed places
    have hsplit : front = front.take i ++ front[i] :: front.drop (i + 1) := by simp
    have hset : front.set i last = front.take i ++ last :: front.drop (i + 1) :=
      List.set_eq_take_append_cons_drop.trans (if_pos hi)
    rw [hset]
    nth_rewrite 4 [hsplit]
    rw [append_assoc, append_assoc]
    refine List.Perm.append_left _ ?_
    refine (perm_append_singleton _ _).cons _ |>.trans ?_
    exact (List.Perm.swap _ _ _).trans ((perm_append_singleton _ _).symm.cons _)
  · rw [set_append_right _ _ (Nat.le_refl _), Nat.sub_self, set_cons_zero, List.dropLast_concat]

/-! ## Keys -/

/-- In a table without two rows of one key, the rows with another key than `a`'s are all but `a`. -/
theorem perm_cons_filter_ne {β : Type v} [BEq β] [LawfulBEq β] {f : α → β} {a : α}
    (h : (l.map f).Nodup) (ha : a ∈ l) : l.Perm (a :: l.filter fun x => f x != f a) := by
  induction l with
  | nil => exact absurd ha not_mem_nil
  | cons b l ih =>
    rw [map_cons, nodup_cons] at h
    rcases mem_cons.mp ha with rfl | hmem
    · have hself : l.filter (fun x => f x != f a) = l := by
        refine filter_eq_self.mpr fun x hx => ?_
        rw [bne_iff_ne]
        exact fun heq => h.1 (heq ▸ mem_map_of_mem hx)
      rw [filter_cons_of_neg (by simp), hself]
    · have hne : f b ≠ f a := fun heq => h.1 (heq ▸ mem_map_of_mem hmem)
      rw [filter_cons_of_pos (by simpa using hne)]
      exact ((ih h.2 hmem).cons b).trans (.swap a b _)

section
variable {β : α → Type v} [DecidableEq α] {s : AList β} {a : α}

theorem length_entries_erase (h : a ∈ s) : (s.erase a).entries.length + 1 = s.entries.length := by
  have hkeys : (s.erase a).keys.length + 1 = s.keys.length := by
    rw [AList.keys_erase, length_erase_of_mem h]
    exact Nat.sub_add_cancel (length_pos_of_mem h)
  simpa only [AList.keys, List.keys, length_map] using hkeys

/-- An entry that is replaced takes no more room. -/
theorem length_entries_insert_of_mem (h : a ∈ s) (b : β a) :
    (s.insert a b).entries.length = s.entries.length :=
  length_entries_erase h

end

end CoroRpc.Lib
