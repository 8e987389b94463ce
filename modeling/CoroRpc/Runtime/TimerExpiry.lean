import CoroRpc.Lib.Run
import CoroRpc.Runtime.TimerWheel
import Mathlib.Data.Nat.Basic

/-!
# Timers fire on time

An expiry round of `IoManager::Poll` (`io_manager.cpp`): `Advance` takes the slots of the elapsed
ticks, and every node in them is fired or, if its deadline is still to come, added again. A wheel
has finitely many slots and a deadline may be far beyond its span, so what is in a slot is not what
is due at its tick. What does hold (`Timely`) is that the wheel reaches the slot of a node no later
than its deadline: then no node is late, because a node that is due lies in the slots taken, and
none is early, because a node that is not due is put back.

The abstract component is a partial function from nodes to deadlines (`timers`); the result says
what each operation does to it, in every state that a sequence of operations reaches.
-/

namespace CoroRpc.Runtime

open Lib List

namespace TimerWheel

variable {ν : Type*} [LinearOrder ν]

/-! ## A round -/

/-- The loop of `Poll` over the expired list, which ends with the list, and the nodes it fires.
    `CompleteTimeout` and `CompleteTimer` treat the wheel alike, except that completing an I/O wait
    takes its timer out of the wheel once more. -/
def completeExpired (nowMs : Nat) : Nat → TimerWheel ν → Except String (TimerWheel ν × List ν)
  | 0, w => .ok (w, [])
  | fuel + 1, w =>
    match w.expired with
    | [] => .ok (w, [])
    | v :: _ =>
      let w := w.unlink v
      match (w.node v).type with
      | .none => .error "untyped timer node reached IoManager"
      | .ioWait =>
        if nowMs < (w.node v).deadlineMs then do
          let w ← w.add v
          completeExpired nowMs fuel w
        else do
          let (w, fired) ← completeExpired nowMs fuel (w.remove v)
          return (w, v :: fired)
      | .routineWait =>
        if nowMs < (w.node v).deadlineMs then do
          let w ← w.add v
          completeExpired nowMs fuel w
        else do
          let (w, fired) ← completeExpired nowMs fuel w
          return (w, v :: fired)

def poll (w : TimerWheel ν) (nowMs : Nat) : Except String (TimerWheel ν × List ν) :=
  completeExpired nowMs (w.advance nowMs).expired.length (w.advance nowMs)

def setDeadline (w : TimerWheel ν) (v : ν) (deadlineMs : Nat) : TimerWheel ν :=
  w.setNode v { w.node v with deadlineMs := deadlineMs }

end TimerWheel

inductive TimerOp (ν : Type*) where
  /-- The deadline is written into the node, and then `Add(node)`. -/
  | add (v : ν) (deadlineMs : Nat)
  | remove (v : ν)
  | poll (nowMs : Nat)
  deriving DecidableEq

namespace TimerWheel

variable {ν : Type*} [LinearOrder ν]

def step (w : TimerWheel ν) : TimerOp ν → Except String (TimerWheel ν × List ν)
  | .add v deadlineMs => do
    let w ← (w.setDeadline v deadlineMs).add v
    return (w, [])
  | .remove v => .ok (w.remove v, [])
  | .poll nowMs => w.poll nowMs

/-- A timer is added for a time after the last tick that was processed. -/
def Allowed (w : TimerWheel ν) : TimerOp ν → Prop
  | .add _ deadlineMs => w.currentTickMs < deadlineMs
  | .remove _ | .poll _ => True

instance (w : TimerWheel ν) (op : TimerOp ν) : Decidable (w.Allowed op) := by
  cases op <;> unfold Allowed <;> infer_instance

/-- The timers that are scheduled, with their deadlines. -/
def timers (w : TimerWheel ν) (v : ν) : Option Nat :=
  if (w.node v).scheduled then some (w.node v).deadlineMs else none

/-! ## The slot of a node is reached by its deadline -/

/-- Within a turn from now, and not after its deadline, the wheel takes the slot the node is in. -/
def Timely (w : TimerWheel ν) : Prop :=
  ∀ v i, (w.node v).list = some (.slot i) → ∃ offset, 1 ≤ offset ∧ offset ≤ w.slots.length ∧
    i = (w.currentSlot + offset) % w.slots.length ∧
    w.currentTickMs + offset ≤ (w.node v).deadlineMs

structure Inv (w : TimerWheel ν) : Prop extends Represents w where
  timely : w.Timely
  typed : ∀ v, (w.node v).type ≠ .none

variable {w w' : TimerWheel ν} {u v : ν} {nowMs d : Nat}

omit [LinearOrder ν] in
theorem inv_make {type : ν → TimerNodeType} {slotCount startMs : Nat} (htype : ∀ v, type v ≠ .none)
    (h : make type slotCount startMs nowMs = .ok w) : w.Inv := by
  have hrep := represents_make h
  unfold make at h
  split at h
  · cases h
  cases h
  exact ⟨hrep, fun v i hv => absurd hv (by simp), htype⟩

omit [LinearOrder ν] in
theorem timers_eq_some :
    w.timers v = some d ↔ (w.node v).scheduled = true ∧ (w.node v).deadlineMs = d := by
  unfold timers
  split <;> simp_all

/-! ## Which nodes are linked -/

/-- The node is in some list, of the wheel or of the round in progress. -/
def Linked (w : TimerWheel ν) (v : ν) : Prop := (w.node v).list ≠ none

/-- What an operation does to the links: the nodes `p` are linked after it, and the nodes are
    otherwise the same. -/
structure Relinked (w w' : TimerWheel ν) (p : ν → Prop) : Prop where
  linked : ∀ u, w'.Linked u ↔ p u
  deadlineMs : ∀ u, (w'.node u).deadlineMs = (w.node u).deadlineMs
  type : ∀ u, (w'.node u).type = (w.node u).type

omit [LinearOrder ν] in
theorem Relinked.of_node {p : ν → Prop}
    (h : ∀ u, ((w'.node u).list ≠ none ↔ p u) ∧ (w'.node u).deadlineMs = (w.node u).deadlineMs ∧
      (w'.node u).type = (w.node u).type) : Relinked w w' p :=
  ⟨fun u => (h u).1, fun u => (h u).2.1, fun u => (h u).2.2⟩

omit [LinearOrder ν] in
theorem Inv.linked_iff (h : w.Inv) : w.Linked v ↔ (w.node v).scheduled = true ∨ v ∈ w.expired := by
  have hexp : v ∈ w.expired ↔ (w.node v).list = some .expired := h.linked .expired v
  rw [hexp, h.scheduled, Linked]
  cases (w.node v).list with
  | none => simp
  | some ref => cases ref <;> simp

theorem relinked_remove (h : w.Represents) (v : ν) :
    Relinked w (w.remove v) fun u => u ≠ v ∧ w.Linked u := by
  obtain ⟨-, -, -, hnode⟩ := remove_spec h v
  refine .of_node fun u => ?_
  rw [hnode]
  split
  · rename_i huv
    simp [huv]
  · rename_i huv
    simp [huv, Linked]

theorem relinked_unlink (h : w.Links) (v : ν) :
    Relinked w (w.unlink v) fun u => u ≠ v ∧ w.Linked u := by
  obtain ⟨-, -, -, -, hnode⟩ := unlink_spec h v
  refine .of_node fun u => ?_
  rw [hnode]
  split
  · rename_i huv
    simp [huv]
  · rename_i huv
    simp [huv, Linked]

theorem relinked_advance (h : w.Represents) (nowMs : Nat) :
    Relinked w (w.advance nowMs) w.Linked := by
  refine .of_node fun u => ?_
  unfold advance
  split
  · exact ⟨Iff.rfl, rfl, rfl⟩
  · obtain ⟨-, -, hnode⟩ :=
      takeSlots_spec h (min (nowMs - w.currentTickMs) w.slots.length)
    by_cases hahead : w.Ahead (min (nowMs - w.currentTickMs) w.slots.length) u
    · rw [(hnode u).1 hahead]
      obtain ⟨_, _, _, hslot⟩ := hahead
      simp [Linked, hslot]
    · rw [(hnode u).2 hahead]
      exact ⟨Iff.rfl, rfl, rfl⟩

omit [LinearOrder ν] in
theorem Timely.of_offset (hslots : 0 < w.slots.length)
    (hd : w.currentTickMs < (w.node v).deadlineMs) :
    ∃ offset, 1 ≤ offset ∧ offset ≤ w.slots.length ∧
      w.slotFor v = (w.currentSlot + offset) % w.slots.length ∧
      w.currentTickMs + offset ≤ (w.node v).deadlineMs := by
  refine ⟨w.offsetFor ((w.node v).deadlineMs - w.currentTickMs), ?_, ?_, rfl, ?_⟩ <;>
    unfold offsetFor <;> omega

/-- A node that is added is put into a slot that is reached in time; the other nodes are where they
    were. -/
theorem Inv.add (h : w.Represents) (htyped : ∀ u, (w.node u).type ≠ .none)
    (htimely : ∀ u i, u ≠ v → (w.node u).list = some (.slot i) →
      ∃ offset, 1 ≤ offset ∧ offset ≤ w.slots.length ∧
        i = (w.currentSlot + offset) % w.slots.length ∧
        w.currentTickMs + offset ≤ (w.node u).deadlineMs)
    (hd : w.currentTickMs < (w.node v).deadlineMs) :
    ∃ w', w.add v = .ok w' ∧ w'.Inv ∧ SameRing w w' ∧ w'.expired = w.expired.erase v ∧
      (∀ u, (w'.node u).deadlineMs = (w.node u).deadlineMs ∧
        (w'.node u).scheduled = (decide (u = v) || (w.node u).scheduled)) ∧
      Relinked w w' fun u => u = v ∨ w.Linked u := by
  obtain ⟨w', hadd, hrep, hring, hexp, hnode⟩ := add_spec h hd
  refine ⟨w', hadd, ⟨hrep, fun u i hu => ?_, fun u => ?_⟩, hring, hexp, fun u => ?_,
    .of_node fun u => ?_⟩
  · rw [hring.tick, hring.slot, hring.count]
    rw [hnode] at hu ⊢
    split at hu
    · rename_i huv
      rw [if_pos huv]
      obtain ⟨offset, h1, h2, h3, h4⟩ := Timely.of_offset h.slots hd
      simp only [Option.some.injEq, ListRef.slot.injEq] at hu
      exact ⟨offset, h1, h2, hu ▸ h3, h4⟩
    · rename_i huv
      rw [if_neg huv]
      exact htimely u i huv hu
  · rw [hnode]
    split
    · exact htyped v
    · exact htyped u
  · rw [hnode]
    split
    · rename_i huv
      simp [huv]
    · rename_i huv
      simp [huv]
  · rw [hnode]
    split
    · rename_i huv
      simp [huv, Linked]
    · rename_i huv
      simp [huv, Linked]

theorem Inv.remove (h : w.Inv) (v : ν) : (w.remove v).Inv := by
  obtain ⟨hrep, hring, -, hnode⟩ := remove_spec h.toRepresents v
  refine ⟨hrep, fun u i hu => ?_, fun u => ?_⟩
  · rw [hring.tick, hring.slot, hring.count]
    rw [hnode] at hu ⊢
    split at hu
    · cases hu
    · rename_i huv
      rw [if_neg huv]
      exact h.timely u i hu
  · rw [hnode]
    split
    · exact h.typed v
    · exact h.typed u

theorem timers_remove (h : w.Represents) :
    (w.remove v).timers u = if u = v then none else w.timers u := by
  obtain ⟨-, -, -, hnode⟩ := remove_spec h v
  unfold timers
  rw [hnode]
  split <;> simp

/-! ## Advance -/

/-- The slots that are taken are exactly those that the elapsed ticks reach: a node beyond them is
    as far ahead of the new tick as its slot is. -/
theorem offset_after {current elapsed offset count : Nat} (ho : offset ≤ count)
    (hnot : ¬ offset ≤ min elapsed count) :
    (current + offset) % count =
      ((current + elapsed % count) % count + (offset - elapsed)) % count := by
  have hmod : elapsed % count = elapsed := Nat.mod_eq_of_lt (by omega)
  rw [hmod, Nat.mod_add_mod]
  congr 1
  omega

theorem advance_spec (h : w.Inv) (hexp : w.expired = []) (nowMs : Nat) : (w.advance nowMs).Inv ∧
      ((w.advance nowMs).expired ≠ [] → (w.advance nowMs).currentTickMs = nowMs) ∧
      (∀ u, ((w.advance nowMs).node u).deadlineMs = (w.node u).deadlineMs ∧
        ((w.advance nowMs).node u).scheduled =
          ((w.node u).scheduled && !decide (u ∈ (w.advance nowMs).expired))) ∧
      (∀ u ∈ (w.advance nowMs).expired, (w.node u).scheduled = true) ∧
      ∀ u, (w.node u).scheduled = true → (w.node u).deadlineMs ≤ nowMs →
        u ∈ (w.advance nowMs).expired := by
  by_cases hnow : nowMs ≤ w.currentTickMs
  · have hsame : w.advance nowMs = w := if_pos hnow
    rw [hsame, hexp]
    refine ⟨h, fun hne => absurd rfl hne, fun u => by simp, by simp, fun u hu hd => ?_⟩
    obtain ⟨i, hi⟩ := (h.scheduled u).mp hu
    obtain ⟨offset, h1, -, -, h4⟩ := h.timely u i hi
    omega
  · have hadvance : w.advance nowMs =
        { w.takeSlots (min (nowMs - w.currentTickMs) w.slots.length) with
          currentSlot :=
            (w.currentSlot + (nowMs - w.currentTickMs) % w.slots.length) % w.slots.length
          currentTickMs := nowMs } := if_neg hnow
    generalize hsteps : min (nowMs - w.currentTickMs) w.slots.length = steps at hadvance
    obtain ⟨hrep, hring, hnode⟩ := takeSlots_spec h.toRepresents steps
    rw [hadvance]
    generalize w.takeSlots steps = w₁ at hrep hring hnode
    have hlinks : Links { w₁ with
        currentSlot := (w.currentSlot + (nowMs - w.currentTickMs) % w.slots.length) % w.slots.length
        currentTickMs := nowMs } :=
      hrep.toLinks.congr (fun ref => by cases ref <;> rfl) fun _ => rfl
    have hmem : ∀ u, u ∈ w₁.expired ↔ (w₁.node u).list = some .expired :=
      hrep.linked .expired
    have hnone : ∀ u, (w.node u).list ≠ some .expired := fun u hu => by
      have := (h.linked .expired u).mpr hu
      simp [timerList, hexp] at this
    -- a node is taken exactly if it is in one of the slots ahead
    have htaken : ∀ u, u ∈ w₁.expired ↔ w.Ahead steps u := by
      intro u
      rw [hmem]
      by_cases hahead : w.Ahead steps u
      · simp [(hnode u).1 hahead, hahead]
      · simp [(hnode u).2 hahead, hahead, hnone u]
    have hon : ∀ u, w.Ahead steps u → (w.node u).scheduled = true := by
      rintro u ⟨_, -, -, hslot⟩
      exact (h.scheduled u).mpr ⟨_, hslot⟩
    refine ⟨⟨⟨hlinks, hrep.slots, hrep.scheduled, hrep.indexed, hrep.inHeap⟩, ?_, fun u => ?_⟩,
      fun _ => rfl, fun u => ?_, fun u hu => hon u ((htaken u).mp hu), fun u hu hd => ?_⟩
    · intro u i hu
      dsimp only at hu ⊢
      rw [hring.count]
      by_cases hahead : w.Ahead steps u
      · rw [(hnode u).1 hahead] at hu
        cases hu
      · rw [(hnode u).2 hahead] at hu ⊢
        obtain ⟨offset, h1, h2, h3, h4⟩ := h.timely u i hu
        have hbeyond : ¬ offset ≤ min (nowMs - w.currentTickMs) w.slots.length := fun hle =>
          hahead ⟨offset, h1, hsteps ▸ hle, h3 ▸ hu⟩
        exact ⟨offset - (nowMs - w.currentTickMs), by omega, by omega,
          h3.trans (offset_after h2 hbeyond), by omega⟩
    · dsimp only
      by_cases hahead : w.Ahead steps u
      · rw [(hnode u).1 hahead]
        exact h.typed u
      · rw [(hnode u).2 hahead]
        exact h.typed u
    · dsimp only
      by_cases hahead : w.Ahead steps u
      · simp [(hnode u).1 hahead, (htaken u).mpr hahead]
      · have hout : u ∉ w₁.expired := fun hu => hahead ((htaken u).mp hu)
        simp [(hnode u).2 hahead, hout]
    · obtain ⟨i, hi⟩ := (h.scheduled u).mp hu
      obtain ⟨offset, h1, h2, h3, h4⟩ := h.timely u i hi
      exact (htaken u).mpr ⟨offset, h1, by omega, h3 ▸ hi⟩

/-! ## The loop over the expired list -/

theorem Inv.unlink_expired (h : w.Inv) {rest : List ν} (hexp : w.expired = v :: rest) :
    (w.unlink v).Inv ∧ SameRing w (w.unlink v) ∧ (w.unlink v).expired = rest ∧
      ((w.unlink v).node v).list = none ∧ (w.node v).scheduled = false ∧
      ∀ u, ((w.unlink v).node u).deadlineMs = (w.node u).deadlineMs ∧
        ((w.unlink v).node u).scheduled = (w.node u).scheduled := by
  obtain ⟨hlinks, hring, hheap, hexp', hnode⟩ := unlink_spec h.toLinks v
  have hlist : (w.node v).list = some .expired :=
    (h.linked .expired v).mp (by simp [timerList, hexp])
  have hoff : (w.node v).scheduled = false := by
    rw [← Bool.not_eq_true, h.scheduled, hlist]
    simp
  have hkeep : ∀ u, ((w.unlink v).node u).deadlineMs = (w.node u).deadlineMs ∧
      ((w.unlink v).node u).scheduled = (w.node u).scheduled := by
    intro u
    rw [hnode]
    split
    · rename_i huv
      rw [huv]
      exact ⟨rfl, rfl⟩
    · exact ⟨rfl, rfl⟩
  refine ⟨⟨⟨hlinks, ?_, fun u => ?_, ?_, fun u => ?_⟩, fun u i hu => ?_, fun u => ?_⟩, hring, ?_, ?_,
    hoff, hkeep⟩
  · exact Nat.lt_of_lt_of_eq h.slots hring.count.symm
  · rw [(hkeep u).2, h.scheduled, hnode]
    split
    · rename_i huv
      simp [huv, hlist]
    · rfl
  · exact hheap.symm ▸ h.indexed
  · rw [hheap, (hkeep u).2]
    exact h.inHeap u
  · rw [(hkeep u).1, hring.tick, hring.slot, hring.count]
    rw [hnode] at hu
    split at hu
    · cases hu
    · exact h.timely u i hu
  · rw [hnode]
    split
    · exact h.typed v
    · exact h.typed u
  · rw [hexp', hexp, erase_cons_head]
  · rw [hnode, if_pos rfl]

/-- One round of the loop, for a node that is in no list once it has been taken out of this one. -/
theorem completeExpired_cons {rest : List ν} (nowMs fuel : Nat) (hexp : w.expired = v :: rest)
    (htyped : ((w.unlink v).node v).type ≠ .none) (hlist : ((w.unlink v).node v).list = none) :
    completeExpired nowMs (fuel + 1) w =
      if nowMs < ((w.unlink v).node v).deadlineMs then
        ((w.unlink v).add v).bind (completeExpired nowMs fuel)
      else (completeExpired nowMs fuel (w.unlink v)).map fun p => (p.1, v :: p.2) := by
  have hremove : (w.unlink v).remove v = w.unlink v := if_pos hlist
  rw [completeExpired, hexp]
  dsimp only
  split
  · contradiction
  · rw [hremove]
    cases completeExpired nowMs fuel (w.unlink v) <;> rfl
  · cases completeExpired nowMs fuel (w.unlink v) <;> rfl

/-- **What the loop does**: the expired nodes whose deadline has come are fired, each once, and the
    others are in the wheel again; adding them does not throw. -/
theorem completeExpired_spec (nowMs fuel : Nat) (h : w.Inv) (hfuel : w.expired.length ≤ fuel)
    (htick : w.expired ≠ [] → w.currentTickMs = nowMs) :
    ∃ w' fired, completeExpired nowMs fuel w = .ok (w', fired) ∧ w'.Inv ∧ w'.expired = [] ∧
      fired.Nodup ∧ (∀ u, u ∈ fired ↔ u ∈ w.expired ∧ (w.node u).deadlineMs ≤ nowMs) ∧
      ∀ u, (w'.node u).deadlineMs = (w.node u).deadlineMs ∧
        (w'.node u).scheduled = ((w.node u).scheduled ||
          (decide (u ∈ w.expired) && decide (nowMs < (w.node u).deadlineMs))) := by
  induction fuel generalizing w with
  | zero =>
    have hnil : w.expired = [] := length_eq_zero_iff.mp (Nat.le_zero.mp hfuel)
    exact ⟨w, [], rfl, h, hnil, nodup_nil, by simp [hnil], by simp [hnil]⟩
  | succ fuel ih =>
    cases hexp : w.expired with
    | nil =>
      refine ⟨w, [], ?_, h, hexp, nodup_nil, by simp, by simp⟩
      unfold completeExpired
      rw [hexp]
    | cons v rest =>
      obtain ⟨hinv, hring, hrest, hlist, hoff, hkeep⟩ := h.unlink_expired hexp
      have hnow := htick (by simp [hexp])
      have hnot : v ∉ rest := by
        have hnodup : w.expired.Nodup := h.nodup .expired
        rw [hexp] at hnodup
        exact (nodup_cons.mp hnodup).1
      have hlen : rest.length ≤ fuel := by
        rw [hexp, length_cons] at hfuel
        omega
      by_cases hd : nowMs < (w.node v).deadlineMs
      · -- not due: added again
        obtain ⟨w₂, hadd, hinv₂, hring₂, hexp₂, hnode₂, -⟩ := Inv.add hinv.toRepresents hinv.typed
          (fun u i _ => hinv.timely u i) (v := v) (by rw [hring.tick, hnow, (hkeep v).1]; exact hd)
        have hrest₂ : w₂.expired = rest := by
          rw [hexp₂, hrest]
          exact erase_of_not_mem hnot
        obtain ⟨w', fired, hloop, hinv', hempty, hnodup, hfired, hnode'⟩ := ih hinv₂
          (by rw [hrest₂]; exact hlen) (fun _ => by rw [hring₂.tick, hring.tick, hnow])
        refine ⟨w', fired, ?_, hinv', hempty, hnodup, fun u => ?_, fun u => ?_⟩
        · rw [completeExpired_cons nowMs fuel hexp (hinv.typed v) hlist,
            if_pos (by rw [(hkeep v).1]; exact hd), hadd]
          exact hloop
        · rw [hfired, hrest₂, (hnode₂ u).1, (hkeep u).1, mem_cons]
          constructor
          · exact fun hu => ⟨.inr hu.1, hu.2⟩
          · rintro ⟨hu | hu, hle⟩
            · rw [hu] at hle
              omega
            · exact ⟨hu, hle⟩
        · rw [(hnode' u).1, (hnode' u).2, hrest₂, (hnode₂ u).1, (hnode₂ u).2, (hkeep u).1,
            (hkeep u).2]
          by_cases huv : u = v
          · simp [huv, hd]
          · simp [huv]
      · -- due: fired, and the wheel has nothing more to do with it
        obtain ⟨w', fired, hloop, hinv', hempty, hnodup, hfired, hnode'⟩ := ih hinv
          (by rw [hrest]; exact hlen) (fun _ => by rw [hring.tick, hnow])
        refine ⟨w', v :: fired, ?_, hinv', hempty, nodup_cons.mpr ⟨?_, hnodup⟩, fun u => ?_,
          fun u => ?_⟩
        · rw [completeExpired_cons nowMs fuel hexp (hinv.typed v) hlist,
            if_neg (by rw [(hkeep v).1]; exact hd), hloop]
          rfl
        · rw [hfired, hrest]
          exact fun hv => hnot hv.1
        · rw [mem_cons, hfired, hrest, (hkeep u).1, mem_cons]
          constructor
          · rintro (hu | hu)
            · rw [hu]
              exact ⟨.inl rfl, by omega⟩
            · exact ⟨.inr hu.1, hu.2⟩
          · rintro ⟨hu | hu, hle⟩
            · exact .inl hu
            · exact .inr ⟨hu, hle⟩
        · rw [(hnode' u).1, (hnode' u).2, hrest, (hkeep u).1, (hkeep u).2]
          by_cases huv : u = v
          · simp [huv, hd, hnot]
          · simp [huv]

/-! ## Operations on the abstract component -/

theorem node_setDeadline : (w.setDeadline v d).node u =
    if u = v then { w.node v with deadlineMs := d } else w.node u :=
  node_setNode

theorem Represents.setDeadline (h : w.Represents) (v : ν) (d : Nat) :
    (w.setDeadline v d).Represents ∧ ∀ u, ((w.setDeadline v d).node u).list = (w.node u).list ∧
        ((w.setDeadline v d).node u).scheduled = (w.node u).scheduled ∧
        ((w.setDeadline v d).node u).type = (w.node u).type := by
  have hkeep : ∀ u, ((w.setDeadline v d).node u).list = (w.node u).list ∧
      ((w.setDeadline v d).node u).scheduled = (w.node u).scheduled ∧
      ((w.setDeadline v d).node u).type = (w.node u).type := by
    intro u
    rw [node_setDeadline]
    split
    · rename_i huv
      rw [huv]
      exact ⟨rfl, rfl, rfl⟩
    · exact ⟨rfl, rfl, rfl⟩
  refine ⟨⟨h.toLinks.congr (fun ref => timerList_setNode) fun u => (hkeep u).1, h.slots,
    fun u => ?_, h.indexed, fun u => ?_⟩, hkeep⟩
  · rw [(hkeep u).1, (hkeep u).2.1]
    exact h.scheduled u
  · rw [(hkeep u).2.1]
    exact h.inHeap u

theorem Inv.setDeadline (h : w.Inv) (hv : ¬ w.Linked v) (d : Nat) : (w.setDeadline v d).Inv := by
  obtain ⟨hrep, hkeep⟩ := h.toRepresents.setDeadline v d
  refine ⟨hrep, fun u i hu => ?_, fun u => by rw [(hkeep u).2.2]; exact h.typed u⟩
  rw [(hkeep u).1] at hu
  have huv : u ≠ v := by
    rintro rfl
    exact hv (by simp [Linked, hu])
  rw [node_setDeadline, if_neg huv]
  exact h.timely u i hu

theorem lt_of_addAt (hadd : (w.setDeadline v d).add v = .ok w') : w.currentTickMs < d := by
  by_contra hearly
  have hpast : ((w.setDeadline v d).node v).deadlineMs ≤ (w.setDeadline v d).currentTickMs := by
    rw [node_setDeadline, if_pos rfl]
    exact Nat.le_of_not_lt hearly
  rw [add, if_pos hpast] at hadd
  cases hadd

/-- A new deadline is written into the node and the node is added, whether it is in the wheel
    already or not. -/
theorem Inv.addAt (h : w.Inv) (hd : w.currentTickMs < d) :
    ∃ w', (w.setDeadline v d).add v = .ok w' ∧ w'.Inv ∧ w'.expired = w.expired.erase v ∧
      (∀ u, (w'.node u).deadlineMs = (if u = v then d else (w.node u).deadlineMs) ∧
        (w'.node u).scheduled = (decide (u = v) || (w.node u).scheduled)) ∧
      Relinked (w.setDeadline v d) w' fun u => u = v ∨ w.Linked u := by
  obtain ⟨hrep, hkeep⟩ := h.toRepresents.setDeadline v d
  -- the old slot of the node may be too late for the new deadline, but the node leaves it
  obtain ⟨w', hadd, hinv, -, hexp', hafter, hlinks⟩ := Inv.add (v := v) hrep
    (fun u => by rw [(hkeep u).2.2]; exact h.typed u)
    (fun u i huv hu => by
      rw [node_setDeadline, if_neg huv] at hu ⊢
      exact h.timely u i hu)
    (by rw [node_setDeadline, if_pos rfl]; exact hd)
  refine ⟨w', hadd, hinv, hexp', fun u => ?_, ?_⟩
  · rw [(hafter u).1, (hafter u).2, (hkeep u).2.1, node_setDeadline]
    refine ⟨?_, rfl⟩
    split <;> rfl
  · refine ⟨fun u => (hlinks.linked u).trans ?_, hlinks.deadlineMs, hlinks.type⟩
    rw [Linked, (hkeep u).1]
    rfl

theorem step_add (h : w.Inv) (hexp : w.expired = []) (hd : w.currentTickMs < d) :
    ∃ w', w.step (.add v d) = .ok (w', []) ∧ w'.Inv ∧ w'.expired = [] ∧
      ∀ u, w'.timers u = if u = v then some d else w.timers u := by
  obtain ⟨w', hadd, hinv, hexp', hafter, -⟩ := h.addAt (v := v) hd
  refine ⟨w', ?_, hinv, by rw [hexp', hexp, erase_nil], fun u => ?_⟩
  · change ((w.setDeadline v d).add v >>= fun w => pure (w, [])) = _
    rw [hadd]
    rfl
  · unfold timers
    rw [(hafter u).1, (hafter u).2]
    by_cases huv : u = v
    · simp [huv]
    · simp [huv]

theorem step_poll (h : w.Inv) (hexp : w.expired = []) (nowMs : Nat) :
    ∃ w' fired, w.step (.poll nowMs) = .ok (w', fired) ∧ w'.Inv ∧ w'.expired = [] ∧ fired.Nodup ∧
      (∀ u, u ∈ fired ↔ ∃ d, w.timers u = some d ∧ d ≤ nowMs) ∧
      ∀ u, w'.timers u = if u ∈ fired then none else w.timers u := by
  obtain ⟨hinv, htick, hkeep, hon, hdue⟩ := advance_spec h hexp nowMs
  obtain ⟨w', fired, hloop, hinv', hempty, hnodup, hfired, hnode⟩ :=
    completeExpired_spec nowMs _ hinv (Nat.le_refl _) htick
  have hmem : ∀ u, u ∈ fired ↔ (w.node u).scheduled = true ∧ (w.node u).deadlineMs ≤ nowMs := by
    intro u
    rw [hfired, (hkeep u).1]
    exact ⟨fun hu => ⟨hon u hu.1, hu.2⟩, fun hu => ⟨hdue u hu.1 hu.2, hu.2⟩⟩
  refine ⟨w', fired, hloop, hinv', hempty, hnodup, fun u => ?_, fun u => ?_⟩
  · rw [hmem]
    constructor
    · exact fun hu => ⟨_, timers_eq_some.mpr ⟨hu.1, rfl⟩, hu.2⟩
    · rintro ⟨d, hu, hle⟩
      obtain ⟨hs, rfl⟩ := timers_eq_some.mp hu
      exact ⟨hs, hle⟩
  · unfold timers
    rw [(hnode u).1, (hnode u).2, (hkeep u).1, (hkeep u).2]
    by_cases hexpired : u ∈ (w.advance nowMs).expired
    · -- it was scheduled, and is again exactly if it is not due
      by_cases hd : (w.node u).deadlineMs ≤ nowMs
      · have hu := (hmem u).mpr ⟨hon u hexpired, hd⟩
        simp [hexpired, hu, Nat.not_lt.mpr hd]
      · have hu : u ∉ fired := fun hu => hd ((hmem u).mp hu).2
        simp [hexpired, hu, hon u hexpired, Nat.lt_of_not_le hd]
    · have hu : u ∉ fired := fun hu => hexpired ((hfired u).mp hu).1
      simp [hexpired, hu]

/-- Every operation is defined between operations, and leaves such a state. -/
theorem inv_step {op : TimerOp ν} (h : w.Inv ∧ w.expired = []) (hok : w.Allowed op)
    (hs : ((w.step op).toOption.map Prod.fst) = some w') : w'.Inv ∧ w'.expired = [] := by
  cases op with
  | add v d =>
    obtain ⟨w₁, hstep, hinv, hexp, -⟩ := step_add (v := v) h.1 h.2 hok
    rw [hstep] at hs
    cases hs
    exact ⟨hinv, hexp⟩
  | remove v =>
    cases hs
    obtain ⟨-, -, hexp, -⟩ := remove_spec h.1.toRepresents v
    exact ⟨h.1.remove v, by rw [hexp, h.2, erase_nil]⟩
  | poll nowMs =>
    obtain ⟨w₁, fired, hstep, hinv, hexp, -⟩ := step_poll h.1 h.2 nowMs
    rw [hstep] at hs
    cases hs
    exact ⟨hinv, hexp⟩

/-- **Timers fire on time.** From a wheel of any number of slots and any start tick, after any
    sequence of operations: adding a timer for a later time schedules it and removing it
    unschedules it; a round at any time fires exactly the scheduled timers whose deadline has come,
    each once, and leaves the others scheduled with the deadlines they had. None of them throws. -/
theorem timers_fire_on_time {type : ν → TimerNodeType} (htype : ∀ v, type v ≠ .none)
    {slotCount startMs startNowMs : Nat} {w₀ w : TimerWheel ν}
    (hmake : make type slotCount startMs startNowMs = .ok w₀)
    (hrun : Reaches (fun w op => ((w.step op).toOption.map Prod.fst)) Allowed w₀ w) :
    (∀ v, w₀.timers v = none) ∧
    (∀ v d, w.currentTickMs < d → ∃ w', w.step (.add v d) = .ok (w', []) ∧
      ∀ u, w'.timers u = if u = v then some d else w.timers u) ∧
    (∀ v, ∃ w', w.step (.remove v) = .ok (w', []) ∧
      ∀ u, w'.timers u = if u = v then none else w.timers u) ∧
    ∀ nowMs, ∃ w' fired, w.step (.poll nowMs) = .ok (w', fired) ∧ fired.Nodup ∧
      (∀ u, u ∈ fired ↔ ∃ d, w.timers u = some d ∧ d ≤ nowMs) ∧
      ∀ u, w'.timers u = if u ∈ fired then none else w.timers u := by
  have hinit : w₀.Inv ∧ w₀.expired = [] ∧ ∀ v, w₀.timers v = none := by
    refine ⟨inv_make htype hmake, ?_⟩
    unfold make at hmake
    split at hmake
    · cases hmake
    cases hmake
    exact ⟨rfl, fun v => rfl⟩
  obtain ⟨hinv, hexp⟩ := hrun.invariant (p := fun w => w.Inv ∧ w.expired = [])
    ⟨hinit.1, hinit.2.1⟩ fun _ _ _ h hok hs => inv_step h hok hs
  refine ⟨hinit.2.2, fun v d hd => ?_, fun v => ⟨_, rfl, fun u => timers_remove hinv.toRepresents⟩,
    fun nowMs => ?_⟩
  · obtain ⟨w', hstep, -, -, htimers⟩ := step_add (v := v) hinv hexp hd
    exact ⟨w', hstep, htimers⟩
  · obtain ⟨w', fired, hstep, -, -, hnodup, hfired, htimers⟩ := step_poll hinv hexp nowMs
    exact ⟨w', fired, hstep, hnodup, hfired, htimers⟩

/-- A wheel of three slots from tick 10: a timer for tick 25, far beyond a turn, is put back by the
    rounds at 12 and at 24. A round at 100 fires it and one for 26; a third has been removed. -/
theorem timers_fire_on_time_three_slots :
    ∃ (w w' : TimerWheel Nat) (fired : List Nat), w.timers 0 = some 25 ∧ w.timers 1 = some 26 ∧
      w.timers 2 = none ∧ w.step (.poll 100) = .ok (w', fired) ∧
      0 ∈ fired ∧ 1 ∈ fired ∧ 2 ∉ fired := by
  obtain ⟨w₀, hmake⟩ : ∃ w₀, make (fun _ => .routineWait) 3 10 0 = .ok w₀ :=
    ⟨_, rfl⟩
  obtain ⟨w, hreach, h0, h1, h2⟩ : ∃ w,
      Reaches (fun w op => ((w.step op).toOption.map Prod.fst)) Allowed w₀ w ∧
      w.timers 0 = some 25 ∧ w.timers 1 = some 26 ∧ w.timers 2 = none :=
    exists_reaches_of_exec [.add 0 25, .poll 12, .poll 24, .add 1 26, .add 2 27, .remove 2]
      (by cases hmake; decide +kernel) fun _ _ hs => hs
  obtain ⟨-, -, -, hpoll⟩ := timers_fire_on_time (by simp) hmake hreach
  obtain ⟨w', fired, hstep, -, hfired, -⟩ := hpoll 100
  refine ⟨w, w', fired, h0, h1, h2, hstep, (hfired 0).mpr ⟨25, h0, by decide⟩,
    (hfired 1).mpr ⟨26, h1, by decide⟩, fun hmem => ?_⟩
  obtain ⟨d, hd, -⟩ := (hfired 2).mp hmem
  rw [h2] at hd
  cases hd

end TimerWheel

end CoroRpc.Runtime
