import CoroRpc.Lib.IndexedHeap
import Mathlib.Order.Lattice

/-!
# The timer wheel

`rpc_src/runtime/timer_wheel.cpp`: a ring of slots, one per millisecond, with a heap of deadlines
beside it. A node is linked into one list at a time and knows which; besides the slots there is one
other list, the `expired` list of the `Poll` in progress. The lists are doubly linked in the source
and are lists of nodes here, and the links that a node stores are its place in the list. The
position that a node stores of itself in the deadline heap is in the heap (`IndexedHeap.index`).

Nodes are addresses: any linear order, since the heap breaks ties by address. Times are natural
numbers. No sum of the source can exceed its type: ticks are only subtracted from later ones, and a
slot number is below twice the number of slots.

The second half of the file is one lemma for each operation, which says what it does to every node.
They need that lists, flags and heap agree (`Represents`), and keep it.
-/

namespace CoroRpc.Runtime

open Lib List Option Function

inductive TimerNodeType where
  | none
  | ioWait
  | routineWait
  deriving DecidableEq

/-- The `TimerList` objects there are. -/
inductive ListRef where
  | slot (index : Nat)
  | expired
  deriving DecidableEq

structure TimerNode where
  list : Option ListRef := none
  deadlineMs : Nat := 0
  scheduled : Bool := false
  type : TimerNodeType := .none
  deriving DecidableEq

structure TimerWheel (ν : Type*) where
  slots : List (List ν)
  currentTickMs : Nat
  currentSlot : Nat := 0
  size : Nat := 0
  deadlineHeap : IndexedHeap ν := .empty
  expired : List ν := []
  node : ν → TimerNode

namespace TimerWheel

variable {ν : Type*}

/-- The constructor, in a memory of unlinked nodes of the given types. -/
def make (type : ν → TimerNodeType) (slotCount startMs nowMs : Nat) :
    Except String (TimerWheel ν) :=
  if slotCount = 0 then .error "timer wheel requires at least one slot"
  else
    .ok { slots := List.replicate slotCount []
          currentTickMs := if startMs = 0 then nowMs else startMs
          node := fun v => { type := type v } }

/-! ## Lists -/

def timerList (w : TimerWheel ν) : ListRef → List ν
  | .slot i => w.slots.getD i []
  | .expired => w.expired

def setTimerList (w : TimerWheel ν) (l : List ν) : ListRef → TimerWheel ν
  | .slot i => { w with slots := w.slots.set i l }
  | .expired => { w with expired := l }

/-- The list exists: a slot is one of the ring. -/
def Has (w : TimerWheel ν) : ListRef → Prop
  | .slot i => i < w.slots.length
  | .expired => True

/-- A node knows the list it is in, and is in no list twice. -/
structure Links (w : TimerWheel ν) : Prop where
  linked : ∀ ref v, v ∈ w.timerList ref ↔ (w.node v).list = some ref
  nodup : ∀ ref, (w.timerList ref).Nodup

/-- What no operation but `Advance` changes. -/
structure SameRing (w w' : TimerWheel ν) : Prop where
  tick : w'.currentTickMs = w.currentTickMs
  slot : w'.currentSlot = w.currentSlot
  count : w'.slots.length = w.slots.length

section
variable {w w' w'' : TimerWheel ν} {v : ν} {ref ref' : ListRef} {l : List ν}

theorem SameRing.refl (w : TimerWheel ν) : SameRing w w := ⟨rfl, rfl, rfl⟩

theorem SameRing.trans (h : SameRing w w') (h' : SameRing w' w'') : SameRing w w'' :=
  ⟨h'.tick.trans h.tick, h'.slot.trans h.slot, h'.count.trans h.count⟩

theorem Links.congr (h : w.Links) (hlists : ∀ ref, w'.timerList ref = w.timerList ref)
    (hnodes : ∀ v, (w'.node v).list = (w.node v).list) : w'.Links :=
  ⟨fun ref v => by rw [hlists, hnodes]; exact h.linked ref v,
    fun ref => by rw [hlists]; exact h.nodup ref⟩

theorem Links.not_mem (h : w.Links) (hv : (w.node v).list = none) : v ∉ w.timerList ref := by
  rw [h.linked, hv]
  simp

theorem has_of_mem (h : v ∈ w.timerList ref) : w.Has ref := by
  cases ref with
  | expired => trivial
  | slot i =>
    by_contra hge
    have hnil : w.timerList (.slot i) = [] := by
      simp only [timerList, getD_eq_getElem?_getD]
      rw [getElem?_eq_none (Nat.le_of_not_lt hge)]
      rfl
    rw [hnil] at h
    cases h

@[simp] theorem node_setTimerList : (w.setTimerList l ref).node = w.node := by
  cases ref <;> rfl

@[simp] theorem deadlineHeap_setTimerList :
    (w.setTimerList l ref).deadlineHeap = w.deadlineHeap := by
  cases ref <;> rfl

theorem timerList_setTimerList (h : w.Has ref) :
    (w.setTimerList l ref).timerList ref' = if ref' = ref then l else w.timerList ref' := by
  cases ref with
  | expired => cases ref' <;> simp [setTimerList, timerList]
  | slot i =>
    cases ref' with
    | expired => simp [setTimerList, timerList]
    | slot j =>
      have hi : i < w.slots.length := h
      simp only [setTimerList, timerList, getD_eq_getElem?_getD, getElem?_set, ListRef.slot.injEq]
      by_cases hij : i = j
      · subst hij
        simp [hi]
      · simp [hij, Ne.symm hij]

theorem sameRing_setTimerList : SameRing w (w.setTimerList l ref) := by
  cases ref with
  | slot i => exact ⟨rfl, rfl, length_set⟩
  | expired => exact ⟨rfl, rfl, rfl⟩

end

variable [LinearOrder ν]

def setNode (w : TimerWheel ν) (v : ν) (n : TimerNode) : TimerWheel ν :=
  { w with node := update w.node v n }

def setScheduled (w : TimerWheel ν) (v : ν) (scheduled : Bool) : TimerWheel ν :=
  w.setNode v { w.node v with scheduled := scheduled }

def pushBack (w : TimerWheel ν) (ref : ListRef) (v : ν) : Except String (TimerWheel ν) :=
  if (w.node v).list ≠ none then .error "timer node is already linked"
  else .ok ((w.setTimerList (w.timerList ref ++ [v]) ref).setNode v
    { w.node v with list := some ref })

def unlink (w : TimerWheel ν) (v : ν) : TimerWheel ν :=
  match (w.node v).list with
  | none => w
  | some ref =>
    (w.setTimerList ((w.timerList ref).erase v) ref).setNode v { w.node v with list := none }

def spliceExpired (w : TimerWheel ν) (index : Nat) : TimerWheel ν :=
  { w with
    expired := w.expired ++ w.timerList (.slot index)
    slots := w.slots.set index []
    node := fun v =>
      if v ∈ w.timerList (.slot index) then { w.node v with list := some .expired } else w.node v }

section
variable {w : TimerWheel ν} {v u : ν} {ref : ListRef} {n : TimerNode}

@[simp] theorem timerList_setNode : (w.setNode v n).timerList ref = w.timerList ref := by
  cases ref <;> rfl

theorem node_setNode : (w.setNode v n).node u = if u = v then n else w.node u := by
  simp only [setNode, update_apply]

@[simp] theorem timerList_setScheduled {scheduled : Bool} :
    (w.setScheduled v scheduled).timerList ref = w.timerList ref :=
  timerList_setNode

theorem node_setScheduled {scheduled : Bool} : (w.setScheduled v scheduled).node u =
    if u = v then { w.node v with scheduled := scheduled } else w.node u :=
  node_setNode

theorem unlink_spec (h : w.Links) (v : ν) :
    (w.unlink v).Links ∧ SameRing w (w.unlink v) ∧ (w.unlink v).deadlineHeap = w.deadlineHeap ∧
      (w.unlink v).expired = w.expired.erase v ∧
      ∀ u, (w.unlink v).node u = if u = v then { w.node v with list := none } else w.node u := by
  have hexpired : (w.node v).list ≠ some .expired → w.expired.erase v = w.expired := fun hne =>
    erase_of_not_mem fun hmem => hne ((h.linked .expired v).mp hmem)
  unfold unlink
  split
  · rename_i hnone
    refine ⟨h, .refl w, rfl, (hexpired (by simp [hnone])).symm, fun u => ?_⟩
    split
    · rename_i huv
      rw [huv, ← hnone]
    · rfl
  · rename_i ref href
    have hhas := has_of_mem ((h.linked ref v).mpr href)
    have hring : SameRing w (w.setTimerList ((w.timerList ref).erase v) ref) :=
      sameRing_setTimerList
    have hlists : ∀ ref', timerList ((w.setTimerList ((w.timerList ref).erase v) ref).setNode v
        { w.node v with list := none }) ref' =
          if ref' = ref then (w.timerList ref).erase v else w.timerList ref' := fun ref' => by
      rw [timerList_setNode, timerList_setTimerList hhas]
    refine ⟨⟨fun ref' u => ?_, fun ref' => ?_⟩, { hring with },
      deadlineHeap_setTimerList, ?_, fun u => ?_⟩
    · rw [hlists, node_setNode, node_setTimerList]
      split
      · rename_i heq
        subst heq
        rw [(h.nodup _).mem_erase_iff, h.linked]
        by_cases huv : u = v <;> simp [huv]
      · rename_i hne
        rw [h.linked]
        by_cases huv : u = v
        · simp [huv, href, Ne.symm hne]
        · simp [huv]
    · rw [hlists]
      split
      · exact (h.nodup ref).erase v
      · exact h.nodup ref'
    · cases ref with
      | expired => rfl
      | slot i => exact (hexpired (by simp [href])).symm
    · rw [node_setNode, node_setTimerList]

theorem pushBack_spec {i : Nat} (h : w.Links) (hv : (w.node v).list = none)
    (hi : i < w.slots.length) :
    ∃ w', w.pushBack (.slot i) v = .ok w' ∧ w'.Links ∧ SameRing w w' ∧
      w'.deadlineHeap = w.deadlineHeap ∧ w'.expired = w.expired ∧
      ∀ u, w'.node u = if u = v then { w.node v with list := some (.slot i) } else w.node u := by
  have hring : SameRing w (w.setTimerList (w.timerList (.slot i) ++ [v]) (.slot i)) :=
    sameRing_setTimerList
  have hlists : ∀ ref', timerList ((w.setTimerList (w.timerList (.slot i) ++ [v]) (.slot i)).setNode
      v { w.node v with list := some (.slot i) }) ref' =
        if ref' = .slot i then w.timerList (.slot i) ++ [v] else w.timerList ref' := fun ref' => by
    rw [timerList_setNode, timerList_setTimerList (show w.Has (.slot i) from hi)]
  refine ⟨_, if_neg (by simp [hv]), ⟨fun ref' u => ?_, fun ref' => ?_⟩,
    { hring with }, rfl, rfl, fun u => ?_⟩
  · rw [hlists, node_setNode, node_setTimerList]
    split
    · rename_i heq
      subst heq
      rw [mem_append, mem_singleton, h.linked]
      by_cases huv : u = v <;> simp [huv]
    · rename_i hne
      rw [h.linked]
      by_cases huv : u = v
      · simp [huv, hv, Ne.symm hne]
      · simp [huv]
  · rw [hlists]
    split
    · refine nodup_append.mpr ⟨h.nodup _, by simp, fun a ha b hb heq => ?_⟩
      rw [heq, mem_singleton.mp hb] at ha
      exact h.not_mem hv ha
    · exact h.nodup ref'
  · rw [node_setNode, node_setTimerList]

theorem spliceExpired_spec {i : Nat} (h : w.Links) (hi : i < w.slots.length) :
    (w.spliceExpired i).Links ∧ SameRing w (w.spliceExpired i) ∧ ∀ u, (w.spliceExpired i).node u =
        if (w.node u).list = some (.slot i) then { w.node u with list := some .expired }
        else w.node u := by
  have hnode : ∀ u, (w.spliceExpired i).node u =
      if (w.node u).list = some (.slot i) then { w.node u with list := some .expired }
      else w.node u := by
    intro u
    simp only [spliceExpired, h.linked]
  have hslot : ∀ j, (w.spliceExpired i).timerList (.slot j) =
      if j = i then [] else w.timerList (.slot j) := by
    intro j
    have hset : _ = if ListRef.slot j = .slot i then _ else _ :=
      timerList_setTimerList (l := []) (show w.Has (.slot i) from hi)
    simp only [ListRef.slot.injEq] at hset
    exact hset
  refine ⟨⟨fun ref u => ?_, fun ref => ?_⟩, ⟨rfl, rfl, length_set⟩, hnode⟩
  · rw [hnode]
    cases ref with
    | slot j =>
      rw [hslot]
      split
      · rename_i hji
        split
        · simp
        · rename_i hne
          simp [hji, hne]
      · rename_i hji
        rw [h.linked]
        split
        · rename_i heq
          simp [heq, Ne.symm hji]
        · rfl
    | expired =>
      change u ∈ w.expired ++ w.timerList (.slot i) ↔ _
      rw [mem_append, h.linked]
      have hexp : u ∈ w.expired ↔ _ := h.linked .expired u
      rw [hexp]
      split
      · rename_i heq
        simp [heq]
      · rename_i hne
        simp [hne]
  · cases ref with
    | slot j =>
      rw [hslot]
      split
      · exact nodup_nil
      · exact h.nodup _
    | expired =>
      have hnodup : w.expired.Nodup := h.nodup .expired
      refine nodup_append.mpr ⟨hnodup, h.nodup (.slot i), fun a ha b hb heq => ?_⟩
      have hexp := (h.linked .expired a).mp ha
      rw [heq, (h.linked (.slot i) b).mp hb] at hexp
      cases hexp

end

/-! ## The wheel -/

def deadlineBefore (w : TimerWheel ν) (left right : ν) : Bool :=
  decide ((w.node left).deadlineMs < (w.node right).deadlineMs) ||
    (decide ((w.node left).deadlineMs = (w.node right).deadlineMs) && decide (left < right))

def deadlineHeapInsert (w : TimerWheel ν) (v : ν) : Except String (TimerWheel ν) :=
  if (w.deadlineHeap.index v).isSome then .error "timer node is already in deadline heap"
  else .ok { w with deadlineHeap := w.deadlineHeap.insert w.deadlineBefore v }

def deadlineHeapRemove (w : TimerWheel ν) (v : ν) : TimerWheel ν :=
  { w with deadlineHeap := w.deadlineHeap.remove w.deadlineBefore v }

def remove (w : TimerWheel ν) (v : ν) : TimerWheel ν :=
  if (w.node v).list = none then w
  else
    let wasScheduled := (w.node v).scheduled
    let w := (w.deadlineHeapRemove v).unlink v
    let w := w.setScheduled v false
    if wasScheduled ∧ w.size ≠ 0 then { w with size := w.size - 1 } else w

/-- How many slots ahead a timer with this much time left is put: within one turn, and not into the
    slot of the current tick. -/
def offsetFor (w : TimerWheel ν) (remaining : Nat) : Nat :=
  max 1 (min remaining (w.slots.length - 1))

/-- The end of `Add`, when the node has been linked. -/
def schedule (w : TimerWheel ν) (v : ν) : Except String (TimerWheel ν) := do
  let w ← (w.setScheduled v true).deadlineHeapInsert v
  return { w with size := w.size + 1 }

def add (w : TimerWheel ν) (v : ν) : Except String (TimerWheel ν) :=
  if (w.node v).deadlineMs ≤ w.currentTickMs then
    .error "timer deadline must be after the last processed tick"
  else do
    let w := w.remove v
    let remaining := (w.node v).deadlineMs - w.currentTickMs
    let w ← w.pushBack (.slot ((w.currentSlot + w.offsetFor remaining) % w.slots.length)) v
    w.schedule v

/-- What `Advance` does to a node of a slot it takes. -/
def unschedule (w : TimerWheel ν) (v : ν) : TimerWheel ν :=
  let w := w.deadlineHeapRemove v
  let w := w.setScheduled v false
  if w.size ≠ 0 then { w with size := w.size - 1 } else w

def takeSlot (w : TimerWheel ν) (index : Nat) : TimerWheel ν :=
  ((w.timerList (.slot index)).foldl unschedule w).spliceExpired index

/-- The loop of `Advance` over the next `steps` slots. -/
def takeSlots (w : TimerWheel ν) : Nat → TimerWheel ν
  | 0 => w
  | step + 1 => (w.takeSlots step).takeSlot ((w.currentSlot + (step + 1)) % w.slots.length)

def advance (w : TimerWheel ν) (nowMs : Nat) : TimerWheel ν :=
  if nowMs ≤ w.currentTickMs then w
  else
    let elapsed := nowMs - w.currentTickMs
    { w.takeSlots (min elapsed w.slots.length) with
      currentSlot := (w.currentSlot + elapsed % w.slots.length) % w.slots.length
      currentTickMs := nowMs }

/-- Lists, flags and heap agree. -/
structure Represents (w : TimerWheel ν) : Prop extends Links w where
  slots : 0 < w.slots.length
  scheduled : ∀ v, (w.node v).scheduled = true ↔ ∃ i, (w.node v).list = some (.slot i)
  indexed : w.deadlineHeap.Indexed
  inHeap : ∀ v, (w.deadlineHeap.index v).isSome = (w.node v).scheduled

section
variable {w : TimerWheel ν} {v : ν}

omit [LinearOrder ν] in
theorem represents_make {type : ν → TimerNodeType} {slotCount startMs nowMs : Nat}
    (h : make type slotCount startMs nowMs = .ok w) : w.Represents := by
  unfold make at h
  split at h
  · cases h
  rename_i hn
  cases h
  have hnone : ∀ ref, timerList
      ({ slots := List.replicate slotCount []
         currentTickMs := if startMs = 0 then nowMs else startMs
         node := fun v => { type := type v } } : TimerWheel ν) ref = [] := by
    intro ref
    cases ref with
    | slot i =>
      simp only [timerList, getD_eq_getElem?_getD, getElem?_replicate]
      split <;> rfl
    | expired => rfl
  refine ⟨⟨fun ref v => by simp [hnone], fun ref => by simp [hnone]⟩, by simp; omega, by simp,
    IndexedHeap.indexed_empty, fun v => rfl⟩

omit [LinearOrder ν] in
theorem Represents.setSize (h : w.Represents) (size : Nat) : Represents { w with size := size } :=
  ⟨h.toLinks.congr (fun ref => by cases ref <;> rfl) fun _ => rfl, h.slots, h.scheduled, h.indexed,
    h.inHeap⟩

omit [LinearOrder ν] in
theorem Represents.off (h : w.Represents) (hv : (w.node v).list = none) :
    (w.node v).scheduled = false := by
  rw [← Bool.not_eq_true, h.scheduled, hv]
  simp

theorem remove_spec (h : w.Represents) (v : ν) :
    (w.remove v).Represents ∧ SameRing w (w.remove v) ∧ (w.remove v).expired = w.expired.erase v ∧
      ∀ u, (w.remove v).node u =
        if u = v then { w.node v with list := none, scheduled := false } else w.node u := by
  unfold remove
  split
  · rename_i hnone
    have hnot : v ∉ w.timerList .expired := h.not_mem hnone
    refine ⟨h, .refl w, (erase_of_not_mem hnot).symm, fun u => ?_⟩
    split
    · rename_i huv
      rw [huv, ← hnone, ← h.off hnone]
    · rfl
  · obtain ⟨hindexed, hin⟩ := IndexedHeap.remove_spec w.deadlineBefore h.indexed (v := v)
    have hheap : (w.deadlineHeapRemove v).Links :=
      h.toLinks.congr (fun ref => by cases ref <;> rfl) fun _ => rfl
    obtain ⟨hlinks, hring, hsame, hexp, hunlinked⟩ := unlink_spec hheap v
    generalize hw₁ : (w.deadlineHeapRemove v).unlink v = w₁ at hlinks hring hsame hexp hunlinked
    have hnode : ∀ u, (w₁.setScheduled v false).node u =
        if u = v then { w.node v with list := none, scheduled := false } else w.node u := by
      intro u
      rw [node_setScheduled, hunlinked, hunlinked, if_pos rfl]
      split <;> rfl
    have hrep : (w₁.setScheduled v false).Represents := by
      refine ⟨hlinks.congr (fun ref => timerList_setScheduled) fun u => ?_, ?_, fun u => ?_, ?_,
        fun u => ?_⟩
      · rw [hnode, hunlinked]
        split <;> rfl
      · exact Nat.lt_of_lt_of_eq h.slots hring.count.symm
      · rw [hnode]
        split
        · simp
        · exact h.scheduled u
      · exact hsame.symm ▸ hindexed
      · rw [hnode]
        change (w₁.deadlineHeap.index u).isSome = _
        rw [hsame]
        refine (hin u).trans ?_
        rw [h.inHeap]
        split
        · rename_i huv
          simp [huv]
        · rename_i huv
          simp [huv]
    dsimp only
    split
    · exact ⟨hrep.setSize _, { hring with }, hexp, hnode⟩
    · exact ⟨hrep, { hring with }, hexp, hnode⟩

/-- A node that has just been linked into a slot: everything agrees but its own flag. -/
theorem schedule_spec {i : Nat} (hlinks : w.Links) (hslots : 0 < w.slots.length)
    (hindexed : w.deadlineHeap.Indexed)
    (hinHeap : ∀ u, (w.deadlineHeap.index u).isSome = (w.node u).scheduled)
    (hscheduled : ∀ u, u ≠ v →
      ((w.node u).scheduled = true ↔ ∃ i, (w.node u).list = some (.slot i)))
    (hlist : (w.node v).list = some (.slot i)) (hoff : (w.node v).scheduled = false) :
    ∃ w', w.schedule v = .ok w' ∧ w'.Represents ∧ SameRing w w' ∧ w'.expired = w.expired ∧
      ∀ u, w'.node u = if u = v then { w.node v with scheduled := true } else w.node u := by
  have hnone : w.deadlineHeap.index v = none := by
    rw [← isNone_iff_eq_none, ← not_isSome, hinHeap, hoff]
    rfl
  obtain ⟨hindexed', hin⟩ :=
    IndexedHeap.insert_spec (w.setScheduled v true).deadlineBefore hindexed hnone
  have hinsert : (w.setScheduled v true).deadlineHeapInsert v = .ok { w.setScheduled v true with
      deadlineHeap := w.deadlineHeap.insert (w.setScheduled v true).deadlineBefore v } :=
    if_neg (show ¬ (w.deadlineHeap.index v).isSome = true by simp [hnone])
  have hrep : Represents { w.setScheduled v true with
      deadlineHeap := w.deadlineHeap.insert (w.setScheduled v true).deadlineBefore v } := by
    refine ⟨hlinks.congr (fun ref => by cases ref <;> rfl) fun u => ?_, hslots, fun u => ?_,
      hindexed', fun u => ?_⟩ <;> dsimp only <;> rw [node_setScheduled]
    · split
      · rename_i huv
        rw [huv]
      · rfl
    · split
      · simp [hlist]
      · rename_i huv
        exact hscheduled u huv
    · refine (hin u).trans ?_
      rw [hinHeap]
      split
      · rename_i huv
        simp [huv]
      · rename_i huv
        simp [huv]
  refine ⟨_, ?_, hrep.setSize (w.size + 1), ⟨rfl, rfl, rfl⟩, rfl, fun u => node_setScheduled⟩
  unfold schedule
  rw [hinsert]
  rfl

/-- The slot that `Add` puts a node into. -/
def slotFor (w : TimerWheel ν) (v : ν) : Nat :=
  (w.currentSlot + w.offsetFor ((w.node v).deadlineMs - w.currentTickMs)) % w.slots.length

theorem add_spec (h : w.Represents) (hd : w.currentTickMs < (w.node v).deadlineMs) :
    ∃ w', w.add v = .ok w' ∧ w'.Represents ∧ SameRing w w' ∧ w'.expired = w.expired.erase v ∧
      ∀ u, w'.node u =
        if u = v then { w.node v with list := some (.slot (w.slotFor v)), scheduled := true }
        else w.node u := by
  obtain ⟨hrep, hring, hexp, hremoved⟩ := remove_spec h v
  have hself : (w.remove v).node v = { w.node v with list := none, scheduled := false } := by
    rw [hremoved, if_pos rfl]
  have hslot : (w.remove v).slotFor v = w.slotFor v := by
    simp only [slotFor, offsetFor, hself, hring.tick, hring.slot, hring.count]
  have hlt : w.slotFor v < (w.remove v).slots.length :=
    Nat.lt_of_lt_of_eq (Nat.mod_lt _ h.slots) hring.count.symm
  obtain ⟨w₂, hpush, hlinks, hring₂, hheap, hexp₂, hlinked⟩ :=
    pushBack_spec hrep.toLinks (by rw [hself]) hlt
  obtain ⟨w₃, hschedule, hrep₃, hring₃, hexp₃, hnode⟩ := schedule_spec (v := v) hlinks
    (Nat.lt_of_lt_of_eq hrep.slots hring₂.count.symm) (hheap ▸ hrep.indexed)
    (fun u => by
      rw [hheap, hrep.inHeap, hlinked]
      split
      · rename_i huv
        rw [huv]
      · rfl)
    (fun u huv => by
      rw [hlinked, if_neg huv]
      exact hrep.scheduled u)
    (by rw [hlinked, if_pos rfl]) (by rw [hlinked, if_pos rfl, hself])
  refine ⟨w₃, ?_, hrep₃, (hring.trans hring₂).trans hring₃, hexp₃.trans (hexp₂.trans hexp),
    fun u => ?_⟩
  · unfold add
    rw [if_neg (by omega)]
    change (w.remove v).pushBack (.slot ((w.remove v).slotFor v)) v >>= _ = _
    rw [hslot, hpush]
    exact hschedule
  · rw [hnode, hlinked, if_pos rfl, hself, hlinked]
    split
    · rfl
    · rename_i huv
      rw [hremoved, if_neg huv]

/-! ## Advance -/

/-- What the inner loop of `Advance` does. The lists are as before: a node is moved only when the
    whole slot has been unscheduled. -/
theorem foldl_unschedule (l : List ν) (hi : w.deadlineHeap.Indexed) :
    (l.foldl unschedule w).deadlineHeap.Indexed ∧ SameRing w (l.foldl unschedule w) ∧
      (∀ ref, (l.foldl unschedule w).timerList ref = w.timerList ref) ∧
      ∀ u, ((l.foldl unschedule w).deadlineHeap.index u).isSome =
          (!decide (u ∈ l) && (w.deadlineHeap.index u).isSome) ∧
        (l.foldl unschedule w).node u =
          if u ∈ l then { w.node u with scheduled := false } else w.node u := by
  induction l generalizing w with
  | nil => exact ⟨hi, .refl w, fun _ => rfl, fun u => by simp⟩
  | cons v l ih =>
    obtain ⟨hindexed, hin⟩ := IndexedHeap.remove_spec w.deadlineBefore hi (v := v)
    have hfirst : (w.unschedule v).deadlineHeap = w.deadlineHeap.remove w.deadlineBefore v ∧
        SameRing w (w.unschedule v) ∧ (∀ ref, (w.unschedule v).timerList ref = w.timerList ref) ∧
        ∀ u, (w.unschedule v).node u =
          if u = v then { w.node v with scheduled := false } else w.node u := by
      unfold unschedule
      dsimp only
      split
      · exact ⟨rfl, ⟨rfl, rfl, rfl⟩, fun ref => by cases ref <;> rfl, fun u => node_setNode⟩
      · exact ⟨rfl, ⟨rfl, rfl, rfl⟩, fun ref => by cases ref <;> rfl, fun u => node_setNode⟩
    obtain ⟨hheap, hring, hlists, hnode⟩ := hfirst
    obtain ⟨hindexed', hring', hlists', hall⟩ := ih (hheap.symm ▸ hindexed)
    refine ⟨hindexed', hring.trans hring', fun ref => (hlists' ref).trans (hlists ref), fun u => ?_⟩
    obtain ⟨hin', hnode'⟩ := hall u
    refine ⟨hin'.trans ?_, hnode'.trans ?_⟩
    · rw [hheap, hin]
      by_cases huv : u = v <;> simp [huv]
    · rw [hnode]
      by_cases huv : u = v
      · subst huv
        by_cases hul : u ∈ l <;> simp [hul]
      · simp [huv]

theorem takeSlot_spec {i : Nat} (h : w.Represents) (hi : i < w.slots.length) :
    (w.takeSlot i).Represents ∧ SameRing w (w.takeSlot i) ∧ ∀ u, (w.takeSlot i).node u =
        if (w.node u).list = some (.slot i) then
          { w.node u with list := some .expired, scheduled := false }
        else w.node u := by
  obtain ⟨hindexed, hring, hlists, hall⟩ := foldl_unschedule (w.timerList (.slot i)) h.indexed
  unfold takeSlot
  generalize (w.timerList (.slot i)).foldl unschedule w = w₁ at hindexed hring hlists hall
  simp only [h.linked] at hall
  have hlinks : w₁.Links := h.toLinks.congr hlists fun u => by
    rw [(hall u).2]
    split <;> rfl
  obtain ⟨hlinks', hring', hspliced⟩ := spliceExpired_spec hlinks (hring.count.symm ▸ hi)
  have hnode : ∀ u, (w₁.spliceExpired i).node u =
      if (w.node u).list = some (.slot i) then
        { w.node u with list := some .expired, scheduled := false }
      else w.node u := by
    intro u
    rw [hspliced, (hall u).2]
    by_cases hu : (w.node u).list = some (.slot i)
    · simp [hu]
    · simp [hu]
  refine ⟨⟨hlinks', ?_, fun u => ?_, hindexed, fun u => ?_⟩, hring.trans hring', hnode⟩
  · exact Nat.lt_of_lt_of_eq h.slots (hring.trans hring').count.symm
  · rw [hnode]
    split
    · simp
    · exact h.scheduled u
  · rw [hnode]
    refine (hall u).1.trans ?_
    rw [h.inHeap]
    split
    · rename_i hu
      simp [hu]
    · rename_i hu
      simp [hu]

/-- The node is in one of the next `steps` slots. -/
def Ahead (w : TimerWheel ν) (steps : Nat) (u : ν) : Prop :=
  ∃ step, 1 ≤ step ∧ step ≤ steps ∧
    (w.node u).list = some (.slot ((w.currentSlot + step) % w.slots.length))

theorem takeSlots_spec (h : w.Represents) (steps : Nat) :
    (w.takeSlots steps).Represents ∧ SameRing w (w.takeSlots steps) ∧
      ∀ u, (w.Ahead steps u → (w.takeSlots steps).node u =
          { w.node u with list := some .expired, scheduled := false }) ∧
        (¬ w.Ahead steps u → (w.takeSlots steps).node u = w.node u) := by
  induction steps with
  | zero =>
    refine ⟨h, .refl w, fun u => ⟨?_, fun _ => rfl⟩⟩
    rintro ⟨step, h1, h0, -⟩
    omega
  | succ steps ih =>
    obtain ⟨hrep, hring, hnode⟩ := ih
    obtain ⟨hrep', hring', hnode'⟩ := takeSlot_spec hrep
      (i := (w.currentSlot + (steps + 1)) % w.slots.length)
      (hring.count.symm ▸ Nat.mod_lt _ h.slots)
    refine ⟨hrep', hring.trans hring', fun u => ?_⟩
    have hstep := hnode' u
    by_cases hbefore : w.Ahead steps u
    · -- taken earlier, and the slot does not hold it any more
      rw [(hnode u).1 hbefore] at hstep
      refine ⟨fun _ => hstep.trans (if_neg (by simp)), fun hnot => absurd ?_ hnot⟩
      obtain ⟨step, h1, h2, hslot⟩ := hbefore
      exact ⟨step, h1, by omega, hslot⟩
    · rw [(hnode u).2 hbefore] at hstep
      refine ⟨?_, fun hnot => hstep.trans (if_neg fun hslot => hnot ?_)⟩
      · rintro ⟨step, h1, h2, hslot⟩
        obtain rfl : step = steps + 1 := by
          by_contra hne
          exact hbefore ⟨step, h1, by omega, hslot⟩
        exact hstep.trans (if_pos hslot)
      · exact ⟨steps + 1, by omega, by omega, hslot⟩

end

end TimerWheel

end CoroRpc.Runtime
