import Mathlib.Logic.Basic

/-!
# Objects and what they answer

An object that is used through calls is a state type `σ` and a function `σ → α → σ × β`: a call
changes the state and gives an answer. Two objects with the same calls are compared by what they
answer to whole sequences of calls, and one refines the other when no sequence tells them apart.

As with runs, the sequence may be restricted: `Allowed` asks of each call a condition on the
state it is made in.
-/

namespace CoroRpc.Lib

universe u v w x

variable {σ : Type u} {τ : Type v} {α : Type w} {β : Type x}

/-- What the object answers to the calls, in order. -/
def answers (call : σ → α → σ × β) : σ → List α → List β
  | _, [] => []
  | s, a :: as => (call s a).2 :: answers call (call s a).1 as

/-- Each of the calls is allowed by `ok` in the state it is made in. -/
def Allowed (call : σ → α → σ × β) (ok : σ → α → Prop) : σ → List α → Prop
  | _, [] => True
  | s, a :: as => ok s a ∧ Allowed call ok (call s a).1 as

instance (call : σ → α → σ × β) (ok : σ → α → Prop) [∀ s a, Decidable (ok s a)] :
    ∀ s as, Decidable (Allowed call ok s as)
  | _, [] => .isTrue trivial
  | s, a :: as =>
    have := instDecidableAllowed call ok (call s a).1 as
    inferInstanceAs (Decidable (_ ∧ _))

/-- **The refinement rule**: a relation that every allowed call keeps, with the same answer on
both sides, makes the answers to every allowed sequence the same. -/
theorem answers_eq_of_simulation {call : σ → α → σ × β} {call' : τ → α → τ × β} {ok : σ → α → Prop}
    {R : σ → τ → Prop}
    (simulates : ∀ s t a, R s t → ok s a →
      R (call s a).1 (call' t a).1 ∧ (call s a).2 = (call' t a).2) :
    ∀ as {s} {t}, R s t → Allowed call ok s as →
      answers call s as = answers call' t as := by
  intro as
  induction as with
  | nil => intro _ _ _ _; rfl
  | cons a as ih =>
    intro s t hR hok
    obtain ⟨hR', hanswer⟩ := simulates s t a hR hok.1
    simp only [answers]
    rw [hanswer, ih hR' hok.2]

end CoroRpc.Lib
