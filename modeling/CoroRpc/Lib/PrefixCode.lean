import Mathlib.Data.List.Basic

/-!
# Prefix-free codes

A code assigns each message of a class (`ok`) a word; it is prefix-free when no word of the class
continues as another. A stream is then a list of messages followed by a rest on which no word
starts complete, and there is only one way to read it so. That uniqueness is what turns "the
decoder's output re-encodes to its input" into "the decoder's output is *the* list of messages".
-/

namespace CoroRpc.Lib

open List

universe u v

variable {φ : Type u} {α : Type v}

/-- No word of the class is a proper prefix of, or equal to, the word of another message. -/
def PrefixFree (ok : φ → Prop) (enc : φ → List α) : Prop :=
  ∀ f g r r', ok f → ok g → enc f ++ r = enc g ++ r' → f = g

/-- No word of the class stands complete at the start of `rest`. -/
def Incomplete (ok : φ → Prop) (enc : φ → List α) (rest : List α) : Prop :=
  ∀ f r, ok f → rest ≠ enc f ++ r

variable {ok : φ → Prop} {enc : φ → List α}

/-- What stands in front of the first separator, and what stands behind it. -/
theorem append_sep_inj {l l' r r' : List α} {sep : α} (hl : sep ∉ l) (hl' : sep ∉ l')
    (h : l ++ sep :: r = l' ++ sep :: r') : l = l' ∧ r = r' := by
  induction l generalizing l' with
  | nil =>
    cases l' with
    | nil => exact ⟨rfl, (cons.inj h).2⟩
    | cons b l' => exact absurd ((cons.inj h).1 ▸ mem_cons_self) hl'
  | cons a l ih =>
    cases l' with
    | nil => exact absurd ((cons.inj h).1 ▸ mem_cons_self) hl
    | cons b l' =>
      obtain ⟨rfl, hrest⟩ := cons.inj h
      obtain ⟨rfl, rfl⟩ := ih (fun hm => hl (mem_cons_of_mem _ hm))
        (fun hm => hl' (mem_cons_of_mem _ hm)) hrest
      exact ⟨rfl, rfl⟩

/-- A number that ends at a separator, and then as many letters as it says. -/
theorem prefixFree_of_length {digits : Nat → List α} {sep : α} (hinj : Function.Injective digits)
    (hsep : ∀ n, sep ∉ digits n) :
    PrefixFree (fun _ => True) fun value => digits value.length ++ sep :: value := by
  intro v w r r' _ _ h
  simp only [append_assoc, cons_append] at h
  obtain ⟨hlength, hvalue⟩ := append_sep_inj (hsep _) (hsep _) h
  exact (append_inj hvalue (hinj hlength)).1

/-- **A stream of a prefix-free code is read in one way.** -/
theorem PrefixFree.read_unique (h : PrefixFree ok enc) :
    ∀ {fs gs : List φ} {rest rest' : List α}, (∀ f ∈ fs, ok f) → (∀ g ∈ gs, ok g) →
      Incomplete ok enc rest → Incomplete ok enc rest' →
      fs.flatMap enc ++ rest = gs.flatMap enc ++ rest' → fs = gs ∧ rest = rest'
  | [], [], _, _, _, _, _, _, he => ⟨rfl, by simpa using he⟩
  | [], g :: gs, rest, rest', _, hg, hr, _, he => by
    refine absurd ?_ (hr g (gs.flatMap enc ++ rest') (hg g (by simp)))
    simpa using he
  | f :: fs, [], rest, rest', hf, _, _, hr', he => by
    refine absurd ?_ (hr' f (fs.flatMap enc ++ rest) (hf f (by simp)))
    simpa using he.symm
  | f :: fs, g :: gs, rest, rest', hf, hg, hr, hr', he => by
    simp only [flatMap_cons, append_assoc] at he
    -- the heads agree because the code is prefix-free, and then the tails are shorter streams
    obtain rfl : f = g := h f g _ _ (hf f (by simp)) (hg g (by simp)) he
    obtain ⟨rfl, rfl⟩ := h.read_unique (fun x hx => hf x (by simp [hx]))
      (fun x hx => hg x (by simp [hx])) hr hr' (append_cancel_left he)
    exact ⟨rfl, rfl⟩

end CoroRpc.Lib
