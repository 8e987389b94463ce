import Mathlib.Algebra.GroupWithZero.Nat
import Mathlib.Logic.Basic

/-!
# Runs of a step function

Every component of the repository that is shared between threads or between coroutines is
modelled the same way: a state type `σ`, a type `α` of labels (which party moves, and what the
environment answers it), and a step function `σ → α → Option σ` that answers `none` where the
label is not enabled. A run is any sequence of enabled labels, so quantifying over runs is
quantifying over interleavings.

Most of the safety results hold of *restricted* runs: every step has to meet a condition on the
state it is taken from. `Reaches step ok s₀` is therefore indexed by that condition, and
`Reachable` is the instance whose condition is vacuous. `Reaches.invariant` is the one induction
over runs; the components only ever supply the two goals it leaves.
-/

namespace CoroRpc.Lib

open Option

universe u v

variable {σ : Type u} {α : Type v}

/-- The states that a run from `s₀` reaches when each of its steps is allowed by `ok`. -/
inductive Reaches (step : σ → α → Option σ) (ok : σ → α → Prop) (s₀ : σ) : σ → Prop
  | refl : Reaches step ok s₀ s₀
  | tail {s s' : σ} {a : α} :
      Reaches step ok s₀ s → ok s a → step s a = some s' → Reaches step ok s₀ s'

/-- The states of the unrestricted runs. -/
abbrev Reachable (step : σ → α → Option σ) (s₀ : σ) : σ → Prop :=
  Reaches step (fun _ _ => True) s₀

section
variable {step : σ → α → Option σ} {ok ok' : σ → α → Prop} {s₀ s s' : σ}

/-- **The run rule**: what holds initially and is kept by every allowed step holds in every
state of an allowed run. -/
theorem Reaches.invariant {p : σ → Prop} (h : Reaches step ok s₀ s) (init : p s₀)
    (keep : ∀ s a s', p s → ok s a → step s a = some s' → p s') : p s := by
  induction h with
  | refl => exact init
  | tail _ hok hs ih => exact keep _ _ _ ih hok hs

theorem Reaches.mono (h : Reaches step ok s₀ s) (hw : ∀ s a, ok s a → ok' s a) :
    Reaches step ok' s₀ s := by
  induction h with
  | refl => exact .refl
  | tail _ hok hs ih => exact .tail ih (hw _ _ hok) hs

theorem Reaches.trans (h : Reaches step ok s₀ s) (h' : Reaches step ok s s') :
    Reaches step ok s₀ s' := by
  induction h' with
  | refl => exact h
  | tail _ hok hs ih => exact .tail ih hok hs

end

theorem eq_ok_of_toOption {ε : Type*} {s : σ} {e : Except ε σ} (h : e.toOption = some s) :
    e = .ok s := by
  cases e with
  | error _ => exact absurd h (by simp [Except.toOption])
  | ok t => exact congrArg Except.ok (some.inj h)

/-! ## Executing a run

Witnesses and counterexamples are runs on fixed labels, replayed by evaluation. -/

section
variable (step : σ → α → Option σ) (ok : σ → α → Prop) [∀ s a, Decidable (ok s a)]

/-- Take the labels in order; `none` as soon as one is not enabled or not allowed. -/
def exec : σ → List α → Option σ
  | s, [] => some s
  | s, a :: as => if ok s a then (step s a).bind fun s' => exec s' as else none

variable {step ok}

theorem reaches_of_exec : ∀ {as} {s s'}, exec step ok s as = some s' →
    Reaches step ok s s'
  | [], s, s', h => by
    simp only [exec, some.injEq] at h
    exact h ▸ .refl
  | a :: as, s, s', h => by
    simp only [exec] at h
    split at h
    · rename_i hok
      obtain ⟨s₁, hs, hr⟩ := bind_eq_some_iff.mp h
      exact Reaches.trans (.tail .refl hok hs) (reaches_of_exec hr)
    · cases h

theorem exists_reaches_of_exec {s₀ : σ} {p q : σ → Prop} [DecidablePred p] (as : List α)
    (h : (exec step ok s₀ as).any (fun s => decide (p s)) = true)
    (hq : ∀ s, Reaches step ok s₀ s → p s → q s) : ∃ s, Reaches step ok s₀ s ∧ q s := by
  obtain ⟨s, hs, hp⟩ := (any_eq_true _ _).mp h
  exact ⟨s, reaches_of_exec hs, hq s (reaches_of_exec hs) (of_decide_eq_true hp)⟩

end

end CoroRpc.Lib
