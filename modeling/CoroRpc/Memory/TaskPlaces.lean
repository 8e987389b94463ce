import CoroRpc.Lib.Chain
import CoroRpc.Lib.Placement
import CoroRpc.Lib.Table
import CoroRpc.Memory.TaskPool

/-!
# Where the tasks are

Every task is on a stack of a bucket, in the hands of a thread, or owned by a caller. `Placed`
says so of a state, with a function that gives each task its place, and this file has one lemma for
each way in which a task changes its place, or its `next` pointer is written.

Each of them asks only for what the thread that moves knows: that the task it pushes or links is in
its own hands. The one exception is the compare-exchange of `Allocate` (`Placed.pop`), which asks
that the task's successor is still the one that was read. That is what the hazard pointers are for,
and is proved with them.
-/

namespace CoroRpc.Memory

open Lib List Function

inductive Place where
  | stack (bucket : Nat) (stack : Stack)
  /-- In the private batch of a `ReclaimRetired`, between the steps of a push, or popped by an
      `Allocate` that has not returned it yet. -/
  | held (t : Nat)
  | owned (t : Nat)
  deriving DecidableEq

def Pc.inHand : Pc → List Nat
  | .allocate _ _ (.unprotect task) | .allocate _ _ (.unlink task) | .reset task
  | .retire _ task _ => [task]
  | .reclaim _ _ (.scan batch _) | .reclaim _ _ (.scanBucket batch _ _)
  | .reclaim _ _ (.scanNode batch _ _) | .reclaim _ _ (.push batch _ _ _) => [batch]
  | _ => []

def Pc.batch : Pc → Option Nat
  | .reclaim _ _ (.loadNext batch) => some batch
  | .reclaim _ _ (.scan _ next) | .reclaim _ _ (.scanBucket _ next _)
  | .reclaim _ _ (.scanNode _ next _) | .reclaim _ _ (.push _ next _ _) => next
  | _ => none

def Hand (next : Nat → Option Nat) (pc : Pc) (l : List Nat) : Prop :=
  ∃ rest, l = pc.inHand ++ rest ∧ Chain next pc.batch rest

/-- Every task has one place, and is there. -/
structure Placed (s : TaskPool) (place : Nat → Place) : Prop where
  stackLists : ∀ bucket stack, ∃ l, Chain s.next ((s.buckets bucket).top stack) l ∧
    Fills (· < s.created) place (.stack bucket stack) l
  hands : ∀ (t : Nat) thread, s.threads[t]? = some thread → ∃ l, Hand s.next thread.pc l ∧
    Fills (· < s.created) place (.held t) l
  owners : ∀ (t : Nat) thread, s.threads[t]? = some thread →
    Fills (· < s.created) place (.owned t) thread.owned
  threads : ∀ n t, n < s.created → place n = .held t ∨ place n = .owned t → t < s.threads.length

/-- A place that is no other thread's than `t`'s. -/
def Place.Near (t : Nat) (p : Place) : Prop := ∀ u, u ≠ t → p ≠ .held u ∧ p ≠ .owned u

theorem Place.near_stack {t bucket : Nat} {stack : Stack} : Place.Near t (.stack bucket stack) :=
  fun _ _ => ⟨by simp, by simp⟩

theorem Place.near_held {t : Nat} : Place.Near t (.held t) :=
  fun _ hu => ⟨fun h => hu (Place.held.inj h).symm, by simp⟩

theorem Place.near_owned {t : Nat} : Place.Near t (.owned t) :=
  fun _ hu => ⟨by simp, fun h => hu (Place.owned.inj h).symm⟩

theorem TaskPool.top_setTop_self (s : TaskPool) (bucket : Nat) (stack : Stack) (top : Option Nat) :
    ((s.setTop bucket stack top).buckets bucket).top stack = top := by
  change (update s.buckets bucket _ bucket).top stack = top
  rw [update_self]
  cases stack <;> rfl

theorem TaskPool.top_setTop_of_ne (s : TaskPool) {bucket bucket' : Nat} {stack stack' : Stack}
    (h : (bucket', stack') ≠ (bucket, stack)) (top : Option Nat) :
    ((s.setTop bucket stack top).buckets bucket').top stack' = (s.buckets bucket').top stack' := by
  change (update s.buckets bucket _ bucket').top stack' = _
  by_cases hb : bucket' = bucket
  · subst hb
    rw [update_self]
    cases stack <;> cases stack' <;> first | rfl | exact absurd rfl h
  · rw [Function.update_of_ne hb]

/-! ## Hands -/

section
variable {next : Nat → Option Nat} {pc pc' : Pc} {l : List Nat} {n : Nat}

theorem Hand.of_eq (h : Hand next pc l) (hin : pc'.inHand = pc.inHand)
    (hbatch : pc'.batch = pc.batch) : Hand next pc' l := by
  obtain ⟨rest, hl, hchain⟩ := h
  exact ⟨rest, by rw [hin]; exact hl, by rw [hbatch]; exact hchain⟩

theorem Hand.eq_of_batch_none (h : Hand next pc l) (hbatch : pc.batch = none) : l = pc.inHand := by
  obtain ⟨rest, hl, hchain⟩ := h
  rw [hbatch] at hchain
  rw [hl, hchain.eq_nil, append_nil]

theorem Hand.of_batch_none (hl : l = pc.inHand) (hbatch : pc.batch = none) : Hand next pc l :=
  ⟨[], by rw [hl, append_nil], by rw [hbatch]; exact .nil⟩

theorem Hand.store (h : Hand next pc l) (hn : n ∉ l ∨ (l.Nodup ∧ n ∈ pc.inHand)) (v : Option Nat) :
    Hand (update next n v) pc l := by
  obtain ⟨rest, rfl, hchain⟩ := h
  refine ⟨rest, rfl, hchain.store (fun hmem => ?_) v⟩
  rcases hn with hn | ⟨hnodup, hin⟩
  · exact hn (mem_append_right _ hmem)
  · exact (nodup_append.mp hnodup).2.2 n hin n hmem rfl

end

/-! ## The moves -/

namespace Placed

variable {s : TaskPool} {place : Nat → Place} {t n : Nat} {thread : Thread} {f : Thread → Thread}

theorem init : Placed {} fun _ => .owned 0 where
  stackLists := fun _ stack => ⟨[], by cases stack <;> exact .nil, nodup_nil, by simp⟩
  hands := fun _ _ h => by cases h
  owners := fun _ _ h => by cases h
  threads := fun _ _ h => by cases h

section
variable (h : Placed s place)
include h

theorem congr {s' : TaskPool} (hcreated : s'.created = s.created) (hnext : s'.next = s.next)
    (htop : ∀ bucket stack, (s'.buckets bucket).top stack = (s.buckets bucket).top stack)
    (hthreads : s'.threads = s.threads) : Placed s' place where
  stackLists := by
    intro bucket stack
    rw [hcreated, hnext, htop]
    exact h.stackLists bucket stack
  hands := by
    rw [hcreated, hnext, hthreads]
    exact h.hands
  owners := by
    rw [hcreated, hthreads]
    exact h.owners
  threads := by
    rw [hcreated, hthreads]
    exact h.threads

section
variable (ht : s.threads[t]? = some thread)
include ht

theorem hand_of (hbatch : thread.pc.batch = none) :
    Fills (· < s.created) place (.held t) thread.pc.inHand := by
  obtain ⟨l, hand, hfills⟩ := h.hands t thread ht
  rw [hand.eq_of_batch_none hbatch] at hfills
  exact hfills

theorem place_inHand (hn : n ∈ thread.pc.inHand) : n < s.created ∧ place n = .held t := by
  obtain ⟨l, ⟨rest, rfl, -⟩, hfills⟩ := h.hands t thread ht
  exact hfills.mem_iff.mp (mem_append_left _ hn)

/-- Thread `t` changes, and with it perhaps the memory and the place of some tasks that are not
    another thread's. -/
theorem change {next : Nat → Option Nat} {buckets : Nat → Bucket} {place' : Nat → Place}
    (hstacks : ∀ bucket stack, ∃ l, Chain next ((buckets bucket).top stack) l ∧
      Fills (· < s.created) place' (.stack bucket stack) l)
    (hhand : ∃ l, Hand next (f thread).pc l ∧ Fills (· < s.created) place' (.held t) l)
    (howned : Fills (· < s.created) place' (.owned t) (f thread).owned)
    (hothers : ∀ u, u ≠ t → ∀ l pc, Hand s.next pc l → Fills (· < s.created) place (.held u) l →
      Hand next pc l ∧ Fills (· < s.created) place' (.held u) l)
    (howners : ∀ u, u ≠ t → ∀ l, Fills (· < s.created) place (.owned u) l →
      Fills (· < s.created) place' (.owned u) l)
    (hplaces : ∀ n u, n < s.created → u ≠ t → place' n = .held u ∨ place' n = .owned u →
      place n = .held u ∨ place n = .owned u) :
    Placed { s with next := next, buckets := buckets, threads := s.threads.modify t f } place' where
  stackLists := hstacks
  hands := by
    intro u thread' hu
    rcases getElem?_modify_cases hu with ⟨x, rfl, hx, rfl⟩ | ⟨hne, hu⟩
    · cases ht.symm.trans hx
      exact hhand
    · obtain ⟨l, hand, hfills⟩ := h.hands u thread' hu
      obtain ⟨hand', hfills'⟩ := hothers u (Ne.symm hne) l thread'.pc hand hfills
      exact ⟨l, hand', hfills'⟩
  owners := by
    intro u thread' hu
    rcases getElem?_modify_cases hu with ⟨x, rfl, hx, rfl⟩ | ⟨hne, hu⟩
    · cases ht.symm.trans hx
      exact howned
    · exact howners u (Ne.symm hne) _ (h.owners u thread' hu)
  threads := by
    intro m u hm hu
    rw [length_modify]
    by_cases hut : u = t
    · exact hut ▸ (List.getElem?_eq_some_iff.mp ht).1
    · exact h.threads m u hm (hplaces m u hm hut hu)

theorem setThread (hhand : ∀ l, Hand s.next thread.pc l → Hand s.next (f thread).pc l)
    (howned : (f thread).owned = thread.owned) : Placed (s.setThread t f) place := by
  refine h.change ht h.stackLists ?_ ?_ (fun _ _ _ _ hand hfills => ⟨hand, hfills⟩)
    (fun _ _ _ hfills => hfills) fun _ _ _ _ hu => hu
  · obtain ⟨l, hand, hfills⟩ := h.hands t thread ht
    exact ⟨l, hhand l hand, hfills⟩
  · rw [howned]
    exact h.owners t thread ht

theorem goTo {pc : Pc} (hin : pc.inHand = thread.pc.inHand) (hbatch : pc.batch = thread.pc.batch) :
    Placed (s.goTo t pc) place :=
  h.setThread ht (fun _ hand => hand.of_eq hin hbatch) rfl

end

/-- A store to a task that is on no stack, and in nobody's batch. -/
theorem storeNext (hstack : ∀ bucket stack, place n ≠ .stack bucket stack)
    (hhand : ∀ t thread, s.threads[t]? = some thread → place n = .held t →
      n ∈ thread.pc.inHand) (v : Option Nat) : Placed (s.storeNext n v) place where
  stackLists := by
    intro bucket stack
    obtain ⟨l, hchain, hfills⟩ := h.stackLists bucket stack
    exact ⟨l, hchain.store (hfills.not_mem (hstack bucket stack)) v, hfills⟩
  hands := by
    intro u thread' hu
    obtain ⟨l, hand, hfills⟩ := h.hands u thread' hu
    refine ⟨l, hand.store ?_ v, hfills⟩
    by_cases hplace : place n = .held u
    · exact .inr ⟨hfills.nodup, hhand u thread' hu hplace⟩
    · exact .inl (hfills.not_mem hplace)
  owners := h.owners
  threads := h.threads

theorem storeHeld (ht : s.threads[t]? = some thread) (hn : n ∈ thread.pc.inHand) (v : Option Nat) :
    Placed (s.storeNext n v) place := by
  obtain ⟨-, hplace⟩ := h.place_inHand ht hn
  refine h.storeNext (fun _ _ heq => ?_) (fun u thread' hu heq => ?_) v
  · cases hplace.symm.trans heq
  · obtain rfl := Place.held.inj (hplace.symm.trans heq)
    exact Option.some.inj (ht.symm.trans hu) ▸ hn

theorem storeOwned (ht : s.threads[t]? = some thread) (hn : n ∈ thread.owned) (v : Option Nat) :
    Placed (s.storeNext n v) place := by
  have hplace := (h.owners t thread ht).place_eq hn
  refine h.storeNext (fun _ _ heq => ?_) (fun _ _ _ heq => ?_) v
  · cases hplace.symm.trans heq
  · cases hplace.symm.trans heq

variable {q : Place}

/-- One task goes from a place near thread `t` to another such place. -/
theorem changeOne (ht : s.threads[t]? = some thread) (hp : Place.Near t (place n))
    (hq : Place.Near t q) {buckets : Nat → Bucket}
    (hstacks : ∀ bucket stack, ∃ l, Chain s.next ((buckets bucket).top stack) l ∧
      Fills (· < s.created) (update place n q) (.stack bucket stack) l)
    (hhand : ∃ l, Hand s.next (f thread).pc l ∧
      Fills (· < s.created) (update place n q) (.held t) l)
    (howned : Fills (· < s.created) (update place n q) (.owned t) (f thread).owned) :
    Placed { s with buckets := buckets, threads := s.threads.modify t f } (update place n q) := by
  refine h.change ht hstacks hhand howned ?_ ?_ ?_
  · intro u hu l pc hand hfills
    exact ⟨hand, hfills.pass (hp u hu).1 (hq u hu).1⟩
  · intro u hu l hfills
    exact hfills.pass (hp u hu).2 (hq u hu).2
  · intro m u hm hu hplace
    by_cases hmn : m = n
    · subst hmn
      rw [update_self] at hplace
      exact absurd hplace (not_or.mpr (hq u hu))
    · rwa [Function.update_of_ne hmn] at hplace

theorem stacks_pass (hp : ∀ bucket stack, place n ≠ .stack bucket stack)
    (hq : ∀ bucket stack, q ≠ .stack bucket stack) (bucket : Nat) (stack : Stack) :
    ∃ l, Chain s.next ((s.buckets bucket).top stack) l ∧
      Fills (· < s.created) (update place n q) (.stack bucket stack) l := by
  obtain ⟨l, hchain, hfills⟩ := h.stackLists bucket stack
  exact ⟨l, hchain, hfills.pass (hp bucket stack) (hq bucket stack)⟩

/-- The stacks, where the top of one is changed together with the place of a task. -/
theorem stacks_setTop {bucket : Nat} {stack : Stack} {top : Option Nat} {l : List Nat}
    (hchain : Chain s.next top l) (hfills : Fills (· < s.created) (update place n q) (.stack bucket stack) l)
    (hp : ∀ bucket' stack', (bucket', stack') ≠ (bucket, stack) →
      place n ≠ .stack bucket' stack' ∧ q ≠ .stack bucket' stack')
    (bucket' : Nat) (stack' : Stack) :
    ∃ l, Chain s.next (((s.setTop bucket stack top).buckets bucket').top stack') l ∧
      Fills (· < s.created) (update place n q) (.stack bucket' stack') l := by
  by_cases hsame : (bucket', stack') = (bucket, stack)
  · cases hsame
    rw [s.top_setTop_self]
    exact ⟨l, hchain, hfills⟩
  · obtain ⟨l', hchain', hfills'⟩ := h.stackLists bucket' stack'
    rw [s.top_setTop_of_ne hsame]
    exact ⟨l', hchain', hfills'.pass (hp bucket' stack' hsame).1 (hp bucket' stack' hsame).2⟩

section
variable (ht : s.threads[t]? = some thread)
include ht

variable {bucket : Nat} {pc : Pc}

theorem push {stack : Stack} (hin : thread.pc.inHand = [n])
    (hnext : s.next n = (s.buckets bucket).top stack) (hin' : pc.inHand = [])
    (hbatch : pc.batch = thread.pc.batch) :
    Placed ((s.setTop bucket stack (some n)).goTo t pc) (update place n (.stack bucket stack)) := by
  obtain ⟨hlive, hplace⟩ := h.place_inHand ht (hin ▸ mem_cons_self)
  refine h.changeOne ht (hplace ▸ Place.near_held) Place.near_stack ?_ ?_ ?_
  · obtain ⟨l, hchain, hfills⟩ := h.stackLists bucket stack
    refine h.stacks_setTop (.cons (hnext ▸ hchain)) (hfills.enter hlive ?_) fun bucket' stack' hne => ?_
    · rw [hplace]
      simp
    · refine ⟨by rw [hplace]; simp, fun heq => hne ?_⟩
      obtain ⟨rfl, rfl⟩ := Place.stack.inj heq
      rfl
  · obtain ⟨l, ⟨rest, rfl, hchain⟩, hfills⟩ := h.hands t thread ht
    rw [hin, singleton_append] at hfills
    refine ⟨rest, ⟨rest, by rw [hin']; rfl, ?_⟩, hfills.leave (by simp)⟩
    rw [hbatch]
    exact hchain
  · exact (h.owners t thread ht).pass (by rw [hplace]; simp) (by simp)

/-- A pop, by a thread with empty hands: the top of the stack comes into its hands. -/
theorem pop (htop : (s.buckets bucket).head = some n) (hin : thread.pc.inHand = [])
    (hbatch : thread.pc.batch = none) (hin' : pc.inHand = [n]) (hbatch' : pc.batch = none) :
    Placed ((s.setTop bucket .reusable (s.next n)).goTo t pc) (update place n (.held t)) := by
  obtain ⟨l, hchain, hfills⟩ := h.stackLists bucket .reusable
  rw [Bucket.top, htop] at hchain
  obtain ⟨rest, rfl, hrest⟩ := hchain.eq_cons
  obtain ⟨hlive, hplace⟩ := hfills.mem_iff.mp mem_cons_self
  refine h.changeOne ht (hplace ▸ Place.near_stack) Place.near_held ?_ ?_ ?_
  · refine h.stacks_setTop hrest (hfills.leave (by simp)) fun bucket' stack' hne => ?_
    refine ⟨fun heq => hne ?_, by simp⟩
    obtain ⟨rfl, rfl⟩ := Place.stack.inj (hplace.symm.trans heq)
    rfl
  · have hhand := h.hand_of ht hbatch
    rw [hin] at hhand
    refine ⟨[n], .of_batch_none hin'.symm hbatch', hhand.enter hlive ?_⟩
    rw [hplace]
    simp
  · exact (h.owners t thread ht).pass (by rw [hplace]; simp) (by simp)

/-- The exchange of `ReclaimRetired`: the whole retired stack comes into the thread's hands. -/
theorem steal (hin : thread.pc.inHand = []) (hbatch : thread.pc.batch = none)
    (hin' : pc.inHand = []) (hbatch' : pc.batch = (s.buckets bucket).retired) :
    Placed ((s.setTop bucket .retired none).goTo t pc)
      (relocate place (.stack bucket .retired) (.held t)) := by
  have hhand := h.hand_of ht hbatch
  rw [hin] at hhand
  obtain ⟨l, hchain, hfills⟩ := h.stackLists bucket .retired
  refine h.change ht ?_ ?_ ?_ ?_ ?_ ?_
  · intro bucket' stack'
    by_cases hsame : (bucket', stack') = (bucket, Stack.retired)
    · cases hsame
      refine ⟨[], ?_, Fills.moved (by simp)⟩
      rw [s.top_setTop_self]
      exact .nil
    · obtain ⟨l', hchain', hfills'⟩ := h.stackLists bucket' stack'
      rw [s.top_setTop_of_ne hsame]
      refine ⟨l', hchain', hfills'.move_pass (fun heq => hsame ?_) (by simp)⟩
      obtain ⟨rfl, rfl⟩ := Place.stack.inj heq
      rfl
  · refine ⟨l, ⟨l, by change l = pc.inHand ++ l; rw [hin']; rfl, ?_⟩, hfills.move hhand⟩
    rw [hbatch']
    exact hchain
  · exact (h.owners t thread ht).move_pass (by simp) (by simp)
  · intro u hu l' pc' hand hfills'
    exact ⟨hand, hfills'.move_pass (by simp) fun heq => hu (Place.held.inj heq)⟩
  · intro u hu l' hfills'
    exact hfills'.move_pass (by simp) (by simp)
  · intro m u hm hu hplace
    by_cases hm' : place m = .stack bucket .retired
    · rw [relocate_of_eq hm'] at hplace
      exact absurd hplace (not_or.mpr (Place.near_held u hu))
    · rwa [relocate_of_ne hm'] at hplace

theorem returnTask (hin : thread.pc.inHand = [n]) (hbatch : thread.pc.batch = none) :
    Placed (s.returnTask t n) (update place n (.owned t)) := by
  obtain ⟨hlive, hplace⟩ := h.place_inHand ht (hin ▸ mem_cons_self)
  refine h.changeOne ht (hplace ▸ Place.near_held) Place.near_owned ?_ ?_ ?_
  · exact h.stacks_pass (by rw [hplace]; simp) (by simp)
  · have hhand := h.hand_of ht hbatch
    rw [hin] at hhand
    exact ⟨[], .of_batch_none rfl rfl, hhand.leave (by simp)⟩
  · exact (h.owners t thread ht).enter hlive (by rw [hplace]; simp)

theorem free (hn : n ∈ thread.owned)
    (hin : thread.pc.inHand = []) (hbatch : thread.pc.batch = none) :
    Placed (s.setThread t fun thread =>
        { thread with pc := .reset n, owned := thread.owned.erase n })
      (update place n (.held t)) := by
  have howned := h.owners t thread ht
  have hplace := howned.place_eq hn
  refine h.changeOne ht (hplace ▸ Place.near_owned) Place.near_held ?_ ?_ ?_
  · exact h.stacks_pass (by rw [hplace]; simp) (by simp)
  · have hhand := h.hand_of ht hbatch
    rw [hin] at hhand
    refine ⟨[n], .of_batch_none rfl rfl, hhand.enter (howned.live_of_mem hn) ?_⟩
    rw [hplace]
    simp
  · exact howned.remove (by simp)

end

end

theorem lt_succ_created : (fun n => n < s.created + 1) = fun n => n < s.created ∨ n = s.created :=
  funext fun _ => propext Nat.lt_succ_iff_lt_or_eq

/-- A new task, which goes to the caller of `Allocate` at once. -/
theorem create (h : Placed s place) (ht : s.threads[t]? = some thread) (hin : thread.pc.inHand = [])
    (hbatch : thread.pc.batch = none) (bucket : Nat) :
    Placed ({ s with
        created := s.created + 1
        next := update s.next s.created none
        poolBucket := update s.poolBucket s.created bucket }.returnTask t s.created)
      (update place s.created (.owned t)) where
  stackLists := by
    intro bucket' stack
    obtain ⟨l, hchain, hfills⟩ := h.stackLists bucket' stack
    refine ⟨l, hchain.store (fun hmem => Nat.lt_irrefl _ (hfills.live_of_mem hmem)) none, ?_⟩
    change Fills (fun n => n < s.created + 1) _ _ _
    rw [lt_succ_created]
    exact hfills.born_elsewhere (Nat.lt_irrefl _) (by simp)
  hands := by
    intro u thread' hu
    change ∃ l, Hand (update s.next s.created none) thread'.pc l ∧
      Fills (fun n => n < s.created + 1) _ _ l
    rw [lt_succ_created]
    rcases getElem?_modify_cases hu with ⟨x, rfl, hx, rfl⟩ | ⟨-, hu⟩
    · have hhand := h.hand_of ht hbatch
      rw [hin] at hhand
      exact ⟨[], .of_batch_none rfl rfl, hhand.born_elsewhere (Nat.lt_irrefl _) (by simp)⟩
    · obtain ⟨l, hand, hfills⟩ := h.hands u thread' hu
      refine ⟨l, hand.store (.inl fun hmem => Nat.lt_irrefl _ (hfills.live_of_mem hmem)) none, ?_⟩
      exact hfills.born_elsewhere (Nat.lt_irrefl _) (by simp)
  owners := by
    intro u thread' hu
    change Fills (fun n => n < s.created + 1) _ _ thread'.owned
    rw [lt_succ_created]
    rcases getElem?_modify_cases hu with ⟨x, rfl, hx, rfl⟩ | ⟨hne, hu⟩
    · exact (h.owners t x hx).born (Nat.lt_irrefl _)
    · exact (h.owners u thread' hu).born_elsewhere (Nat.lt_irrefl _)
        fun heq => hne (Place.owned.inj heq)
  threads := by
    intro m u hm hplace
    rw [TaskPool.returnTask, TaskPool.setThread, length_modify]
    by_cases hmn : m = s.created
    · subst hmn
      rw [update_self] at hplace
      rcases hplace with hplace | hplace
      · cases hplace
      · exact Place.owned.inj hplace ▸ (List.getElem?_eq_some_iff.mp ht).1
    · rw [Function.update_of_ne hmn] at hplace
      exact h.threads m u (Nat.lt_of_le_of_ne (Nat.le_of_lt_succ hm) hmn) hplace

theorem give (h : Placed s place) (ht : s.threads[t]? = some thread) {u : Nat} {other : Thread}
    (hu : s.threads[u]? = some other) (hn : n ∈ thread.owned) :
    Placed ((s.setThread t fun thread =>
        { thread with owned := thread.owned.erase n }).setThread u fun other =>
        { other with owned := n :: other.owned })
      (update place n (.owned u)) := by
  have howned := h.owners t thread ht
  have hplace := howned.place_eq hn
  have hlive := howned.live_of_mem hn
  -- What a thread holds is the same before and after.
  have hpcs : ∀ v thread',
      (((s.setThread t fun thread => { thread with owned := thread.owned.erase n }).setThread u
        fun other => { other with owned := n :: other.owned }).threads)[v]? = some thread' →
      ∃ before, s.threads[v]? = some before ∧ thread'.pc = before.pc ∧
        Fills (· < s.created) (update place n (.owned u)) (.owned v) thread'.owned := by
    intro v thread' hv
    rcases getElem?_modify_cases hv with ⟨x, rfl, hx, rfl⟩ | ⟨huv, hv⟩
    · rcases getElem?_modify_cases hx with ⟨y, rfl, hy, rfl⟩ | ⟨htu, hx⟩
      · cases ht.symm.trans hy
        refine ⟨thread, ht, rfl, ?_⟩
        rw [← hplace, update_eq_self]
        exact hplace ▸ howned.perm (perm_cons_erase hn)
      · refine ⟨x, hx, rfl, (h.owners u x hx).enter hlive ?_⟩
        rw [hplace]
        exact fun heq => htu (Place.owned.inj heq)
    · rcases getElem?_modify_cases hv with ⟨y, rfl, hy, rfl⟩ | ⟨htv, hv⟩
      · refine ⟨y, hy, rfl, (h.owners t y hy).remove ?_⟩
        exact fun heq => huv (Place.owned.inj heq)
      · refine ⟨thread', hv, rfl, (h.owners v thread' hv).pass ?_ ?_⟩
        · rw [hplace]
          exact fun heq => htv (Place.owned.inj heq)
        · exact fun heq => huv (Place.owned.inj heq)
  refine ⟨?_, ?_, ?_, ?_⟩
  · exact h.stacks_pass (by rw [hplace]; simp) (by simp)
  · intro v thread' hv
    obtain ⟨before, hbefore, hpc, -⟩ := hpcs v thread' hv
    obtain ⟨l, hand, hfills⟩ := h.hands v before hbefore
    refine ⟨l, hpc ▸ hand, hfills.pass ?_ (by simp)⟩
    rw [hplace]
    simp
  · intro v thread' hv
    obtain ⟨-, -, -, hfills⟩ := hpcs v thread' hv
    exact hfills
  · intro m v hm hv
    rw [TaskPool.setThread, TaskPool.setThread, length_modify, length_modify]
    by_cases hmn : m = n
    · subst hmn
      rw [update_self] at hv
      rcases hv with hv | hv
      · cases hv
      · exact Place.owned.inj hv ▸ (List.getElem?_eq_some_iff.mp hu).1
    · rw [Function.update_of_ne hmn] at hv
      exact h.threads m v hm hv

theorem spawn (h : Placed s place) : Placed { s with threads := s.threads ++ [{}] } place := by
  have hnone : ∀ n, n < s.created → place n ≠ .held s.threads.length ∧
      place n ≠ .owned s.threads.length := by
    intro n hn
    refine ⟨fun heq => ?_, fun heq => ?_⟩
    · exact Nat.lt_irrefl _ (h.threads n _ hn (.inl heq))
    · exact Nat.lt_irrefl _ (h.threads n _ hn (.inr heq))
  refine ⟨h.stackLists, ?_, ?_, ?_⟩
  · intro t thread ht
    rcases getElem?_snoc ht with ht | ⟨rfl, rfl⟩
    · exact h.hands t thread ht
    · refine ⟨[], .of_batch_none rfl rfl, nodup_nil, fun n => ?_⟩
      exact ⟨fun hmem => absurd hmem not_mem_nil, fun hmem => absurd hmem.2 (hnone n hmem.1).1⟩
  · intro t thread ht
    rcases getElem?_snoc ht with ht | ⟨rfl, rfl⟩
    · exact h.owners t thread ht
    · refine ⟨nodup_nil, fun n => ?_⟩
      exact ⟨fun hmem => absurd hmem not_mem_nil, fun hmem => absurd hmem.2 (hnone n hmem.1).2⟩
  · intro n t hn hplace
    rw [length_append]
    exact Nat.lt_add_right _ (h.threads n t hn hplace)

end Placed

end CoroRpc.Memory
