import CoroRpc.Lib.Chain
import CoroRpc.Lib.Run
import CoroRpc.Lib.Table

/-!
# The multi-producer queue

`MpscQueue` (`rpc_src/runtime/mpsc_queue.h`), through which other threads submit work to a runtime
(`Submit`, `DrainInbox`). It is a stack that producers push to and that the one consumer steals as
a whole, reverses in place, and then takes node by node.

Every atomic operation is a step. The nodes belong to their callers: `owned` says which nodes are
with a caller, who may write into them (the pool of inbox nodes links its free nodes through the
same `next` field) and push them, again and again. `Push` takes a node from its caller, and the
return of `TryPop` gives it to one.

What is proved is that the nodes come out in the order in which their compare-exchanges succeeded.
At any moment the queue is cut in three: the node that `TryPop` has in hand, the consumer's list,
possibly half reversed, and the producers' stack.
-/

namespace CoroRpc.Runtime

open Lib List Function

universe u

variable {α : Type u} [DecidableEq α]

inductive Pushing (α : Type u) where
  | idle
  | load (node : α)
  /-- About to store `old` in the node. -/
  | store (node : α) (old : Option α)
  /-- About to exchange the head, if it is still `old`. -/
  | exchange (node : α) (old : Option α)
  deriving DecidableEq

inductive Popping (α : Type u) where
  | idle
  | start
  /-- `TakeAllReversed`: the exchange. -/
  | exchange
  /-- Its loop, at the load from `cur`. -/
  | reverse (cur prev : Option α)
  /-- Its loop, at the store to `cur`. -/
  | relink (cur : α) (next prev : Option α)
  /-- `drained_` is not empty, and its first node is taken. -/
  | take
  | clear (out : α)
  /-- About to return `true`. -/
  | returns (out : α)
  /-- About to return `false`. -/
  | fails
  deriving DecidableEq

structure MpscQueue (α : Type u) where
  next : α → Option α
  head : Option α
  drained : Option α
  producers : List (Pushing α)
  consumer : Popping α
  /-- The nodes that are with a caller. -/
  owned : α → Bool
  /-- The nodes of the compare-exchanges that succeeded, and the nodes that `TryPop` returned:
      kept for the statements, as is the first list at the last exchange of `TakeAllReversed`. -/
  pushed : List α
  popped : List α
  exchanged : List α

inductive QueueLabel (α : Type u) where
  /-- Producer `i` calls `Push(node)`. -/
  | push (i : Nat) (node : α)
  /-- Producer `i` goes on; `compare_exchange_weak` may fail for no reason. -/
  | producer (i : Nat) (fails : Bool)
  | tryPop
  | consumer
  /-- The caller that has a node writes its `next`. -/
  | write (node : α) (value : Option α)
  deriving DecidableEq

namespace MpscQueue

/-- An empty queue, `n` producers, and every node with some caller. -/
def init (n : Nat) (next : α → Option α) : MpscQueue α where
  next := next
  head := none
  drained := none
  producers := replicate n .idle
  consumer := .idle
  owned := fun _ => true
  pushed := []
  popped := []
  exchanged := []

variable (q : MpscQueue α)

def setProducer (i : Nat) (p : Pushing α) : MpscQueue α :=
  { q with producers := q.producers.set i p }

def storeNext (node : α) (value : Option α) : MpscQueue α :=
  { q with next := update q.next node value }

def pushStep (i : Nat) (fails : Bool) : Pushing α → Option (MpscQueue α)
  | .idle => none
  | .load node => some (q.setProducer i (.store node q.head))
  | .store node old => some ((q.storeNext node old).setProducer i (.exchange node old))
  | .exchange node old =>
    if q.head = old ∧ fails = false then
      some ({ q with head := some node, pushed := q.pushed ++ [node] }.setProducer i .idle)
    else some (q.setProducer i (.store node q.head))

/-- The end of `TakeAllReversed`, and the test that follows it. -/
def takeAll (list : Option α) : MpscQueue α :=
  { q with drained := list, consumer := if list = none then .fails else .take }

def popStep : Option (MpscQueue α) :=
  match q.consumer with
  | .idle => none
  | .start => some { q with consumer := if q.drained = none then .exchange else .take }
  | .exchange => some { q with head := none, exchanged := q.pushed, consumer := .reverse q.head none }
  | .reverse (some cur) prev => some { q with consumer := .relink cur (q.next cur) prev }
  | .reverse none prev => some (q.takeAll prev)
  | .relink cur next prev => some { q.storeNext cur prev with consumer := .reverse next (some cur) }
  | .take =>
    match q.drained with
    | none => none
    | some out => some { q with drained := q.next out, consumer := .clear out }
  | .clear out => some { q.storeNext out none with consumer := .returns out }
  | .returns out =>
    some { q with
      consumer := .idle
      owned := update q.owned out true
      popped := q.popped ++ [out] }
  | .fails => some { q with consumer := .idle }

def step : QueueLabel α → Option (MpscQueue α)
  | .push i node =>
    if q.producers[i]? = some .idle ∧ q.owned node = true then
      some ({ q with owned := update q.owned node false }.setProducer i (.load node))
    else none
  | .producer i fails => q.producers[i]?.bind (q.pushStep i fails)
  | .tryPop => if q.consumer = .idle then some { q with consumer := .start } else none
  | .consumer => q.popStep
  | .write node value => if q.owned node = true then some (q.storeNext node value) else none

end MpscQueue

/-! ## The order of the nodes -/

def Pushing.node? : Pushing α → List α
  | .idle => []
  | .load node | .store node _ | .exchange node _ => [node]

def MpscQueue.inPush (q : MpscQueue α) : List α := (q.producers.map Pushing.node?).flatten

/-- The part of the queue that the consumer has, in the order in which it comes out. -/
inductive Consuming (q : MpscQueue α) : Popping α → List α → Prop
  | idle {l : List α} (h : Chain q.next q.drained l) : Consuming q .idle l
  | start {l : List α} (h : Chain q.next q.drained l) : Consuming q .start l
  | exchange (h : q.drained = none) : Consuming q .exchange []
  /-- What is still to be reversed comes out after what has been, and what comes out is all that
      had been pushed at the exchange. -/
  | reverse {cur prev : Option α} {todo done : List α} (hcur : Chain q.next cur todo)
      (hprev : Chain q.next prev done) (hall : q.exchanged = q.popped ++ (todo.reverse ++ done)) :
      Consuming q (.reverse cur prev) (todo.reverse ++ done)
  | relink {cur : α} {next prev : Option α} {todo done : List α}
      (hnext : Chain q.next next todo) (hprev : Chain q.next prev done)
      (hall : q.exchanged = q.popped ++ ((cur :: todo).reverse ++ done)) :
      Consuming q (.relink cur next prev) ((cur :: todo).reverse ++ done)
  | take {l : List α} (h : Chain q.next q.drained l) (hne : q.drained ≠ none) : Consuming q .take l
  | clear {out : α} {l : List α} (h : Chain q.next q.drained l) : Consuming q (.clear out) (out :: l)
  | returns {out : α} {l : List α} (h : Chain q.next q.drained l) (hnull : q.next out = none) :
      Consuming q (.returns out) (out :: l)
  | fails (h : q.drained = none) (hall : q.exchanged = q.popped) : Consuming q .fails []

/-- The queue holds the nodes `taken ++ stack.reverse`, the consumer the first of these and the
    producers' stack the rest. -/
structure Holding (q : MpscQueue α) (taken stack : List α) : Prop where
  consuming : Consuming q q.consumer taken
  head : Chain q.next q.head stack
  order : q.pushed = q.popped ++ (taken ++ stack.reverse)
  /-- A node is with a caller, in a push or in the queue: in one of them, and there once. -/
  place : ∀ node, (q.inPush ++ (taken ++ stack)).count node + (q.owned node).toNat = 1
  /-- A producer that is about to exchange has stored its `old`. -/
  linked : ∀ (i : Nat) node old, q.producers[i]? = some (.exchange node old) → q.next node = old

namespace Consuming

variable {q q' : MpscQueue α} {pc : Popping α} {l : List α}

omit [DecidableEq α] in
theorem congr (h : Consuming q pc l) (hnext : q'.next = q.next) (hdrained : q'.drained = q.drained)
    (hexchanged : q'.exchanged = q.exchanged) (hpopped : q'.popped = q.popped) :
    Consuming q' pc l := by
  cases h with
  | idle h => exact .idle (hnext ▸ hdrained ▸ h)
  | start h => exact .start (hnext ▸ hdrained ▸ h)
  | exchange h => exact .exchange (hdrained.trans h)
  | reverse hcur hprev hall =>
    exact .reverse (hnext ▸ hcur) (hnext ▸ hprev) (by rw [hexchanged, hpopped, hall])
  | relink hn hprev hall =>
    exact .relink (hnext ▸ hn) (hnext ▸ hprev) (by rw [hexchanged, hpopped, hall])
  | take h hne => exact .take (hnext ▸ hdrained ▸ h) (hdrained ▸ hne)
  | clear h => exact .clear (hnext ▸ hdrained ▸ h)
  | returns h hnull => exact .returns (hnext ▸ hdrained ▸ h) (hnext ▸ hnull)
  | fails h hall => exact .fails (hdrained.trans h) (by rw [hexchanged, hpopped, hall])

theorem store (h : Consuming q pc l) {a : α} (ha : a ∉ l) (v : Option α) :
    Consuming (q.storeNext a v) pc l := by
  cases h with
  | idle h => exact .idle (h.store ha v)
  | start h => exact .start (h.store ha v)
  | exchange h => exact .exchange h
  | reverse hcur hprev hall =>
    simp only [mem_append, mem_reverse, not_or] at ha
    exact .reverse (hcur.store ha.1 v) (hprev.store ha.2 v) hall
  | relink hn hprev hall =>
    simp only [mem_append, mem_reverse, mem_cons, not_or] at ha
    exact .relink (hn.store ha.1.2 v) (hprev.store ha.2 v) hall
  | take h hne => exact .take (h.store ha v) hne
  | clear h => exact .clear (h.store (not_mem_of_not_mem_cons ha) v)
  | returns h hnull =>
    obtain ⟨hout, hl⟩ := ne_and_not_mem_of_not_mem_cons ha
    refine .returns (h.store hl v) ?_
    change update q.next a v _ = none
    rw [update_of_ne (Ne.symm hout)]
    exact hnull
  | fails h hall => exact .fails h hall

end Consuming

theorem MpscQueue.count_inPush_set {q : MpscQueue α} {i : Nat} {p : Pushing α}
    (h : q.producers[i]? = some p) (p' : Pushing α) (node : α) :
    (q.setProducer i p').inPush.count node + p.node?.count node =
      q.inPush.count node + p'.node?.count node := by
  have hi : (q.producers.map Pushing.node?)[i]? = some p.node? := by
    rw [getElem?_map, h]
    rfl
  have hcount := countP_flatten_set (· == node) p'.node? hi
  rw [← map_set] at hcount
  exact hcount

namespace Holding

variable {q q' : MpscQueue α} {taken stack : List α} {i : Nat}

theorem init (n : Nat) (next : α → Option α) : Holding (MpscQueue.init n next) [] [] where
  consuming := .idle .nil
  head := .nil
  order := rfl
  place := by
    intro node
    have hpush : (MpscQueue.init n next).inPush = [] := by
      simp [MpscQueue.inPush, MpscQueue.init, Pushing.node?]
    rw [hpush]
    rfl
  linked := by
    intro i node old h
    rw [MpscQueue.init, getElem?_replicate] at h
    split at h <;> cases h

variable {p : Pushing α} {node : α}

theorem not_mem_of_pushing (h : Holding q taken stack) (hp : q.producers[i]? = some p)
    (hnode : node ∈ p.node?) : node ∉ taken ∧ node ∉ stack := by
  have hpush : node ∈ q.inPush := by
    refine mem_flatten.mpr ⟨p.node?, ?_, hnode⟩
    exact mem_map_of_mem (mem_of_getElem? hp)
  have hplace := h.place node
  rw [count_append, count_append] at hplace
  have hpos := count_pos_iff.mpr hpush
  exact ⟨count_eq_zero.mp (by omega), count_eq_zero.mp (by omega)⟩

theorem not_mem_of_owned (h : Holding q taken stack) (ho : q.owned node = true) :
    node ∉ q.inPush ∧ node ∉ taken ∧ node ∉ stack := by
  have hplace := h.place node
  rw [count_append, count_append, ho, Bool.toNat_true] at hplace
  exact ⟨count_eq_zero.mp (by omega), count_eq_zero.mp (by omega),
    count_eq_zero.mp (by omega)⟩

theorem ne_of_pushing (h : Holding q taken stack) {j : Nat} {p' : Pushing α} {node' : α}
    (hp : q.producers[i]? = some p) (hp' : q.producers[j]? = some p') (hij : i ≠ j)
    (hnode : node ∈ p.node?) (hnode' : node' ∈ p'.node?) : node ≠ node' := by
  rintro rfl
  -- With producer `i` back at the start, producer `j` still has the node.
  have hj : (q.setProducer i .idle).producers[j]? = some p' :=
    (getElem?_set_ne hij).trans hp'
  have hpush : node ∈ (q.setProducer i .idle).inPush :=
    mem_flatten.mpr ⟨p'.node?, mem_map_of_mem (mem_of_getElem? hj), hnode'⟩
  have hcount := MpscQueue.count_inPush_set hp .idle node
  have hpos := count_pos_iff.mpr hpush
  have hpos' := count_pos_iff.mpr hnode
  have hplace := h.place node
  rw [count_append] at hplace
  have hidle : (Pushing.node? (.idle : Pushing α)).count node = 0 := rfl
  omega

/-! ### Producers and callers -/

section
variable (h : Holding q taken stack)
include h

/-- A store to a node that is not in the queue, and that no producer has linked. -/
theorem store (htaken : node ∉ taken) (hstack : node ∉ stack) (v : Option α)
    (hother : ∀ (j : Nat) node' old, q.producers[j]? = some (.exchange node' old) →
      node' ≠ node) : Holding (q.storeNext node v) taken stack where
  consuming := h.consuming.store htaken v
  head := h.head.store hstack v
  order := h.order
  place := h.place
  linked := by
    intro j node' old hj
    refine (update_of_ne (hother j node' old hj) v q.next).trans ?_
    exact h.linked j node' old hj

theorem setProducer (hp : q.producers[i]? = some p) (p' : Pushing α) (hnode : p'.node? = p.node?)
    (hlinked : ∀ node old, p' = .exchange node old → q.next node = old) :
    Holding (q.setProducer i p') taken stack where
  consuming := h.consuming.congr rfl rfl rfl rfl
  head := h.head
  order := h.order
  place := by
    intro node
    have hcount := MpscQueue.count_inPush_set hp p' node
    have hplace := h.place node
    rw [count_append] at hplace ⊢
    rw [hnode] at hcount
    change (q.setProducer i p').inPush.count node + _ + (q.owned node).toNat = 1
    omega
  linked := by
    intro j node old hj
    by_cases hij : i = j
    · subst hij
      have hself : (q.producers.set i p')[i]? = some p' := by
        rw [getElem?_set_self']
        simp [hp]
      exact hlinked node old (Option.some.inj (hself.symm.trans hj))
    · exact h.linked j node old ((getElem?_set_ne hij).symm.trans hj)

theorem push (hp : q.producers[i]? = some .idle) (ho : q.owned node = true) :
    Holding ({ q with owned := update q.owned node false }.setProducer i (.load node))
      taken stack where
  consuming := h.consuming.congr rfl rfl rfl rfl
  head := h.head
  order := h.order
  place := by
    intro a
    have hcount := MpscQueue.count_inPush_set hp (.load node) a
    have hplace := h.place a
    change (((q.setProducer i (.load node)).inPush ++ (taken ++ stack)).count a +
      (update q.owned node false a).toNat = 1)
    rw [count_append] at hplace ⊢
    simp only [Pushing.node?, count_nil, count_singleton] at hcount
    by_cases ha : a = node
    · subst ha
      rw [ho, Bool.toNat_true] at hplace
      rw [update_self, Bool.toNat_false]
      simp only [BEq.rfl, if_true] at hcount
      omega
    · rw [update_of_ne ha]
      have hne : (node == a) = false := beq_false_of_ne (Ne.symm ha)
      simp only [hne, Bool.false_eq_true, if_false] at hcount
      omega
  linked := by
    intro j node' old hj
    by_cases hij : i = j
    · subst hij
      have hself : (q.producers.set i (.load node))[i]? = some (.load node) := by
        rw [getElem?_set_self']
        simp [hp]
      cases Option.some.inj (hself.symm.trans hj)
    · exact h.linked j node' old ((getElem?_set_ne hij).symm.trans hj)

/-- The compare-exchange succeeds: the node goes from its producer to the top of the stack. -/
theorem exchange (hp : q.producers[i]? = some (.exchange node q.head)) :
    Holding ({ q with head := some node, pushed := q.pushed ++ [node] }.setProducer i .idle)
      taken (node :: stack) where
  consuming := h.consuming.congr rfl rfl rfl rfl
  head := .cons (h.linked i node _ hp ▸ h.head)
  order := by
    rw [h.order]
    simp [MpscQueue.setProducer]
  place := by
    intro a
    have hcount := MpscQueue.count_inPush_set hp .idle a
    have hplace := h.place a
    change (((q.setProducer i .idle).inPush ++ (taken ++ node :: stack)).count a +
      (q.owned a).toNat = 1)
    rw [count_append, count_append] at hplace ⊢
    simp only [Pushing.node?, count_nil, count_singleton] at hcount
    rw [count_cons]
    omega
  linked := by
    intro j node' old hj
    by_cases hij : i = j
    · subst hij
      have hself : (q.producers.set i .idle)[i]? = some .idle := by
        rw [getElem?_set_self']
        simp [hp]
      cases Option.some.inj (hself.symm.trans hj)
    · exact h.linked j node' old ((getElem?_set_ne hij).symm.trans hj)

theorem pushStep (hp : q.producers[i]? = some p) {fails : Bool}
    (hs : q.pushStep i fails p = some q') : ∃ stack', Holding q' taken stack' := by
  cases p with
  | idle => exact absurd hs (by simp [MpscQueue.pushStep])
  | load node =>
    cases hs
    exact ⟨stack, h.setProducer hp _ rfl (by simp)⟩
  | store node old =>
    cases hs
    obtain ⟨htaken, hstack⟩ := h.not_mem_of_pushing hp mem_cons_self
    have hstore : Holding (q.storeNext node old) taken stack := by
      refine h.store htaken hstack old fun j node' old' hj => ?_
      have hij : j ≠ i := by
        rintro rfl
        cases hj.symm.trans hp
      exact h.ne_of_pushing hj hp hij mem_cons_self mem_cons_self
    refine ⟨stack, hstore.setProducer hp _ rfl fun node' old' heq => ?_⟩
    obtain ⟨rfl, rfl⟩ := Pushing.exchange.inj heq
    exact update_self ..
  | exchange node old =>
    simp only [MpscQueue.pushStep] at hs
    split at hs
    · next hhead =>
      cases hs
      rw [← hhead.1] at hp
      exact ⟨node :: stack, h.exchange hp⟩
    · cases hs
      exact ⟨stack, h.setProducer hp _ rfl (by simp)⟩

end

/-! ### The consumer -/

section
variable (h : Holding q taken stack)
include h

theorem consume {pc : Popping α} (drained : Option α)
    (hconsuming : Consuming { q with drained := drained, consumer := pc } pc taken) :
    Holding { q with drained := drained, consumer := pc } taken stack where
  __ := h
  consuming := hconsuming

/-- What the consumer has is not being pushed, so its stores leave the producers alone. -/
theorem linked_of_taken (hnode : node ∈ taken) (v : Option α) (j : Nat) (node' : α) (old : Option α)
    (hj : q.producers[j]? = some (.exchange node' old)) :
    update q.next node v node' = old := by
  have hne : node' ≠ node := by
    rintro rfl
    exact (h.not_mem_of_pushing hj mem_cons_self).1 hnode
  rw [update_of_ne hne]
  exact h.linked j node' old hj

theorem not_mem_stack (hnode : node ∈ taken) : node ∉ stack := by
  have hplace := h.place node
  rw [count_append, count_append] at hplace
  have hpos := count_pos_iff.mpr hnode
  exact count_eq_zero.mp (by omega)

theorem nodup_taken : taken.Nodup := by
  rw [nodup_iff_count_le_one]
  intro node
  have hplace := h.place node
  rw [count_append, count_append] at hplace
  omega

end

theorem steal (h : Holding q [] stack) :
    Holding { q with head := none, exchanged := q.pushed, consumer := .reverse q.head none }
      (stack.reverse ++ []) [] where
  consuming := by
    refine .reverse h.head .nil ?_
    rw [h.order]
    simp
  head := .nil
  order := by
    rw [h.order]
    simp
  place := by
    intro node
    have hplace := h.place node
    change (q.inPush ++ (stack.reverse ++ [] ++ [])).count node + (q.owned node).toNat = 1
    simpa using hplace
  linked := h.linked

section
variable (h : Holding q taken stack)
include h

/-- A node is turned round: it points to the one that came before it on the stack. -/
theorem relink {cur : α} {next prev : Option α} (hpc : q.consumer = .relink cur next prev) :
    Holding { q.storeNext cur prev with consumer := .reverse next (some cur) } taken stack := by
  have hconsuming := h.consuming
  rw [hpc] at hconsuming
  cases hconsuming with
  | @relink _ _ _ todo done hnext hprev hall =>
    have hnodup := h.nodup_taken
    have hcur : cur ∈ (cur :: todo).reverse ++ done := by simp
    have hparts : cur ∉ todo ∧ cur ∉ done := by
      rw [nodup_append, nodup_reverse, nodup_cons] at hnodup
      exact ⟨hnodup.1.1, fun hd => hnodup.2.2 cur (by simp) cur hd rfl⟩
    have hsplit : (cur :: todo).reverse ++ done = todo.reverse ++ (cur :: done) := by simp
    refine ⟨?_, h.head.store (h.not_mem_stack hcur) prev, h.order, h.place,
      h.linked_of_taken hcur prev⟩
    rw [hsplit] at hall ⊢
    refine .reverse (hnext.store hparts.1 prev) (.cons ?_) hall
    change Lib.Chain _ (update q.next cur prev cur) done
    rw [update_self]
    exact hprev.store hparts.2 prev

theorem clear {out : α} (hpc : q.consumer = .clear out) :
    Holding { q.storeNext out none with consumer := .returns out } taken stack := by
  have hconsuming := h.consuming
  rw [hpc] at hconsuming
  cases hconsuming with
  | @clear _ l hdrained =>
    have hout : out ∈ out :: l := mem_cons_self
    have hl : out ∉ l := (nodup_cons.mp h.nodup_taken).1
    refine ⟨?_, h.head.store (h.not_mem_stack hout) none, h.order, h.place,
      h.linked_of_taken hout none⟩
    exact .returns (hdrained.store hl none) (update_self ..)

theorem returns {out : α} (hpc : q.consumer = .returns out) : ∃ rest, Holding { q with
      consumer := .idle
      owned := update q.owned out true
      popped := q.popped ++ [out] } rest stack := by
  have hconsuming := h.consuming
  rw [hpc] at hconsuming
  cases hconsuming with
  | @returns _ l hdrained =>
    refine ⟨l, .idle hdrained, h.head, ?_, fun node => ?_, h.linked⟩
    · change q.pushed = q.popped ++ [out] ++ (l ++ stack.reverse)
      rw [h.order]
      simp
    · have hplace := h.place node
      change (q.inPush ++ (l ++ stack)).count node +
        (update q.owned out true node).toNat = 1
      rw [count_append, count_append, count_cons] at hplace
      rw [count_append, count_append]
      by_cases hnode : node = out
      · subst hnode
        rw [update_self, Bool.toNat_true]
        simp only [BEq.rfl, if_true] at hplace
        omega
      · rw [update_of_ne hnode]
        have hne : (out == node) = false := beq_false_of_ne (Ne.symm hnode)
        simp only [hne, Bool.false_eq_true, if_false] at hplace
        omega

theorem popStep (hs : q.popStep = some q') : ∃ taken' stack', Holding q' taken' stack' := by
  have hconsuming := h.consuming
  unfold MpscQueue.popStep at hs
  split at hs
  case h_1 => cases hs
  case h_2 hpc =>
    cases hs
    rw [hpc] at hconsuming
    cases hconsuming with
    | start hdrained =>
      refine ⟨taken, stack, h.consume q.drained ?_⟩
      split
      · next hnone =>
        rw [hnone] at hdrained
        rw [hdrained.eq_nil]
        exact .exchange hnone
      · next hne => exact .take hdrained hne
  case h_3 hpc =>
    cases hs
    rw [hpc] at hconsuming
    cases hconsuming with
    | exchange hnone => exact ⟨_, _, h.steal⟩
  case h_4 cur prev hpc =>
    cases hs
    rw [hpc] at hconsuming
    cases hconsuming with
    | reverse hcur hprev hall =>
      obtain ⟨todo, rfl, htodo⟩ := hcur.eq_cons
      exact ⟨_, stack, h.consume q.drained (.relink htodo hprev hall)⟩
  case h_5 prev hpc =>
    cases hs
    rw [hpc] at hconsuming
    cases hconsuming with
    | @reverse _ _ todo done hcur hprev hall =>
      obtain rfl := hcur.eq_nil
      refine ⟨_, stack, h.consume prev ?_⟩
      split
      · next hnone =>
        subst hnone
        obtain rfl := hprev.eq_nil
        exact .fails rfl (by simpa using hall)
      · next hne => exact .take hprev hne
  case h_6 cur next prev hpc =>
    cases hs
    exact ⟨_, stack, h.relink hpc⟩
  case h_7 hpc =>
    rw [hpc] at hconsuming
    cases hconsuming with
    | take hdrained hne =>
      split at hs
      · next hnone => exact absurd hnone hne
      · next out hout =>
        cases hs
        rw [hout] at hdrained
        obtain ⟨rest, rfl, hrest⟩ := hdrained.eq_cons
        exact ⟨_, stack, h.consume (q.next out) (.clear hrest)⟩
  case h_8 out hpc =>
    cases hs
    exact ⟨_, stack, h.clear hpc⟩
  case h_9 out hpc =>
    cases hs
    obtain ⟨rest, hrest⟩ := h.returns hpc
    exact ⟨rest, stack, hrest⟩
  case h_10 hpc =>
    cases hs
    rw [hpc] at hconsuming
    cases hconsuming with
    | fails hnone =>
      refine ⟨[], stack, h.consume q.drained (.idle ?_)⟩
      rw [hnone]
      exact .nil

theorem step {l : QueueLabel α} (hs : q.step l = some q') :
    ∃ taken' stack', Holding q' taken' stack' := by
  cases l with
  | push i node =>
    simp only [MpscQueue.step] at hs
    split at hs
    · next hok =>
      cases hs
      exact ⟨taken, stack, h.push hok.1 hok.2⟩
    · cases hs
  | producer i fails =>
    obtain ⟨p, hp, hs⟩ := Option.bind_eq_some_iff.mp hs
    exact ⟨taken, h.pushStep hp hs⟩
  | tryPop =>
    simp only [MpscQueue.step] at hs
    split at hs
    · next hidle =>
      cases hs
      have hconsuming := h.consuming
      rw [hidle] at hconsuming
      cases hconsuming with
      | idle hdrained => exact ⟨taken, stack, h.consume q.drained (.start hdrained)⟩
    · cases hs
  | consumer => exact h.popStep hs
  | write node value =>
    simp only [MpscQueue.step] at hs
    split at hs
    · next ho =>
      cases hs
      obtain ⟨hpush, htaken, hstack⟩ := h.not_mem_of_owned ho
      refine ⟨taken, stack, h.store htaken hstack value fun j node' old hj => ?_⟩
      rintro rfl
      refine hpush (mem_flatten.mpr ⟨[node'], ?_, mem_cons_self⟩)
      exact mem_map.mpr ⟨_, mem_of_getElem? hj, rfl⟩
    · cases hs

end

end Holding

theorem MpscQueue.holding {n : Nat} {next : α → Option α} {q : MpscQueue α}
    (hr : Reachable MpscQueue.step (MpscQueue.init n next) q) :
    ∃ taken stack, Holding q taken stack :=
  hr.invariant (p := fun q => ∃ taken stack, Holding q taken stack) ⟨[], [], .init n next⟩
    fun _ _ _ ⟨_, _, h⟩ _ hs => h.step hs

/-- Two producers race, one of them has to retry; the consumer takes the first node, which is
    pushed again while the second one is still in `drained_`, and takes the second. -/
def racingPushes : List (QueueLabel Nat) :=
  [.push 0 5, .push 1 6, .producer 0 false, .producer 1 false, .producer 0 false,
    .producer 1 false, .producer 0 false, .producer 1 false, .producer 1 false,
    .producer 1 false, .tryPop] ++ replicate 10 .consumer ++
  [.push 0 5, .producer 0 false, .producer 0 false, .producer 0 false, .tryPop] ++
  replicate 3 .consumer

end CoroRpc.Runtime
