import CoroRpc.Lib.Table
import CoroRpc.Client.Submit

/-!
# No submitted task is lost, unless the shard's thread leaves it in the inbox

`SubmitTask` promises that every task is passed to `CompleteTask` once and that its reservation
comes back. A task is at any time in one of four hands (`Role`): its own `SubmitTask` call with a
reservation, the same call past the check of `Post`, the inbox, or a routine. The invariant
counts reservations, routines and inbox entries by role, so that "nothing is in any hand" at the
end gives "everything was completed".

One hand-over can fail. `RunUntil` and `Join` both test their stop condition before they look
at the inbox, and `Join` counts live routines only; and `ClientShard::Stop` clears `accepting`
without the mutex that `Post` holds between its check and its push. So the thread can end with a
task in its inbox, or with one about to be pushed. The theorem is about the runs in which it
does not (`LeavesNothing`), and is followed by a run in which it does.
-/

namespace CoroRpc.Submit

open Lib List Option RpcClient Submission

/-- The thread of the shard is about to end: `Join` sees its condition. -/
def Shard.exits (sh : Shard) : Bool :=
  sh.joining && sh.stops && (sh.pc == .test || sh.pc == .retest)

/-- A shard's thread ends only while its inbox holds no task and no `Post` stands between its
    check of `accepting` and its push. -/
def LeavesNothing (s : RpcClient) : Label → Prop
  | .shard k =>
    ∀ sh ∈ s.shards[k]?, sh.exits = true →
      (∀ x ∈ sh.inbox, x = .other) ∧ ∀ t ∈ s.submissions, t.pc ≠ .postPush k
  | _ => True

instance (s : RpcClient) (a : Label) : Decidable (LeavesNothing s a) := by
  cases a <;> unfold LeavesNothing <;> infer_instance

/-! ## Roles -/

/-- In whose hand a task with a reservation is. -/
inductive Role where
  | reserving
  | pushing
  | queued
  | live
  deriving DecidableEq

/-- The shard on which a submission holds a reservation, and its role there. -/
def Submission.role (t : Submission) : Option (Nat × Role) :=
  match t.place with
  | .queued k => some (k, .queued)
  | .ready k | .suspended k | .completed k => some (k, .live)
  | .finished => none
  | .held =>
    match t.pc with
    | .reserveRecheck k | .reserveUndo k | .postLock k | .postCheck k | .postUnlock k false
    | .release k => some (k, .reserving)
    | .postPush k => some (k, .pushing)
    | _ => none

def Submission.reserves (k : Nat) (t : Submission) : Bool := t.role.any (·.1 == k)

def Submission.has (r : Role) (k : Nat) (t : Submission) : Bool := decide (t.role = some (k, r))

/-- `Post` has returned true, or is about to. -/
def CallPc.posted : CallPc → Bool
  | .postUnlock _ true | .returned => true
  | _ => false

/-- How often the task has been completed, by where it is. -/
def Submission.Counted (t : Submission) : Prop :=
  match t.place with
  | .held => t.completions = (if t.pc = .returned then 1 else 0) ∧
      ∀ k, t.pc ≠ .postUnlock k true
  | .queued _ | .ready _ | .suspended _ => t.completions = 0 ∧ t.pc.posted = true
  | .completed _ | .finished => t.completions = 1 ∧ t.pc.posted = true

/-! ## The invariant -/

/-- What holds of shard `k`. `strict` is whether the run is one of those that leave nothing. -/
structure ShardInv (strict : Prop) (capacity : Nat) (subs : List Submission) (k : Nat)
    (sh : Shard) : Prop where
  reserved : sh.reservedCalls = subs.countP (·.reserves k)
  capacity : sh.reservedCalls ≤ capacity
  live : sh.liveRoutineCount = sh.others + subs.countP (·.has .live k)
  inbox : ∀ i, sh.inbox.count (.task i) = (subs[i]?.any (·.has .queued k)).toNat
  accepting : sh.stopping = true → sh.accepting = false
  stopping : sh.joining = true ∨ sh.pc = .closing ∨ sh.pc = .exited → sh.stopping = true
  exited : strict → sh.pc = .exited →
    sh.liveRoutineCount = 0 ∧ (∀ i, sh.inbox.count (.task i) = 0) ∧
      subs.countP (·.has .pushing k) = 0

def ExitedBelow (shards : List Shard) (n : Nat) : Prop :=
  ∀ (k : Nat) (sh : Shard), k < n → shards[k]? = some sh → sh.pc = .exited

/-- How far `Stop` has come. -/
def RpcClient.StopInv (s : RpcClient) : Prop :=
  match s.stopper with
  | .idle => True
  | .closeAccepting k | .lock k | .unlock k | .joinThread k => ExitedBelow s.shards k
  | .setStopping k =>
    ExitedBelow s.shards k ∧ ∀ sh, s.shards[k]? = some sh → sh.accepting = false
  | .returned => ExitedBelow s.shards s.shards.length

structure Inv (strict : Prop) (s : RpcClient) : Prop where
  shards : ∀ k sh, s.shards[k]? = some sh → ShardInv strict s.hardCapacity s.submissions k sh
  counted : ∀ t ∈ s.submissions, t.Counted
  exchange : ∀ t ∈ s.submissions, ∀ k c, t.pc = .reserveExchange k c → c < s.hardCapacity
  onShard : ∀ t ∈ s.submissions, ∀ k r, t.role = some (k, r) → k < s.shards.length
  stop : s.StopInv

theorem inv_init (strict : Prop) (n capacity : Nat) : Inv strict (init n capacity) := by
  refine ⟨?_, ?_, ?_, ?_, ?_⟩
  · intro k sh hk
    simp only [init, getElem?_replicate, ite_none_right_eq_some, some.injEq] at hk
    obtain ⟨-, rfl⟩ := hk
    constructor <;> simp [init]
  all_goals simp [init, RpcClient.StopInv]

variable {strict : Prop} {s s' : RpcClient} {i k capacity : Nat} {t t' : Submission}
  {sh sh' : Shard} {subs : List Submission}

/-- A submission that changes its role on shard `k` alone, together with the shard. The counts
    move by that submission, the rest is asked for. -/
theorem ShardInv.set (h : ShardInv strict capacity subs k sh) (ht : subs[i]? = some t)
    (hres : sh'.reservedCalls + (t.reserves k).toNat = sh.reservedCalls + (t'.reserves k).toNat)
    (hcap : sh'.reservedCalls ≤ capacity)
    (hlive : sh'.liveRoutineCount + sh.others + (t.has .live k).toNat =
      sh.liveRoutineCount + sh'.others + (t'.has .live k).toNat)
    (hinbox : sh'.inbox.count (.task i) = (t'.has .queued k).toNat)
    (hinbox' : ∀ j, j ≠ i → sh'.inbox.count (.task j) = sh.inbox.count (.task j))
    (hacc : sh'.accepting = sh.accepting) (hstop : sh'.stopping = sh.stopping)
    (hjoin : sh'.joining = sh.joining) (hpc : sh'.pc = sh.pc)
    (hexit : strict → sh.pc = .exited → sh'.liveRoutineCount = 0 ∧
      sh'.inbox.count (.task i) = 0 ∧ t'.has .pushing k = false) :
    ShardInv strict capacity (subs.set i t') k sh' := by
  have hcount := countP_set_add (fun t => t.reserves k) t' ht
  have hcountLive := countP_set_add (fun t => t.has .live k) t' ht
  have hcountPush := countP_set_add (fun t => t.has .pushing k) t' ht
  have hi : i < subs.length := (List.getElem?_eq_some_iff.mp ht).1
  refine ⟨?_, hcap, ?_, fun j => ?_, ?_, ?_, fun hs he => ?_⟩
  · have := h.reserved
    omega
  · have := h.live
    omega
  · by_cases hj : j = i
    · subst hj
      rw [hinbox, getElem?_set_self hi]
      rfl
    · rw [hinbox' j hj, h.inbox j, getElem?_set_ne (Ne.symm hj)]
  · rw [hacc, hstop]
    exact h.accepting
  · rw [hjoin, hpc, hstop]
    exact h.stopping
  · rw [hpc] at he
    obtain ⟨-, hbox, hpush⟩ := h.exited hs he
    obtain ⟨hlive0, hbox0, hpush0⟩ := hexit hs he
    refine ⟨hlive0, fun j => ?_, ?_⟩
    · by_cases hj : j = i
      · exact hj ▸ hbox0
      · rw [hinbox' j hj, hbox j]
    · rw [hpush0] at hcountPush
      simp only [Bool.toNat_false, Nat.add_zero] at hcountPush
      omega

theorem ShardInv.silent (h : ShardInv strict capacity subs k sh) (ht : subs[i]? = some t)
    (hrole : t'.role = t.role) : ShardInv strict capacity (subs.set i t') k sh := by
  have hhas : ∀ r, t'.has r k = t.has r k := fun r => by simp only [has, hrole]
  have hbox : sh.inbox.count (.task i) = (t'.has .queued k).toNat := by
    rw [h.inbox i, ht, hhas]
    rfl
  refine h.set ht ?_ h.capacity ?_ hbox (fun _ _ => rfl) rfl rfl rfl rfl fun hs he => ?_
  · simp only [reserves, hrole]
  · simp only [hhas]
  · obtain ⟨hlive0, hbox0, hpush⟩ := h.exited hs he
    refine ⟨hlive0, hbox0 i, ?_⟩
    rw [hhas]
    simpa using countP_eq_zero.mp hpush t (mem_of_getElem? ht)

theorem ShardInv.elsewhere {k' : Nat} (h : ShardInv strict capacity subs k' sh)
    (ht : subs[i]? = some t) (hne : k' ≠ k) (hat : ∀ k' r, t.role = some (k', r) → k' = k)
    (hat' : ∀ k' r, t'.role = some (k', r) → k' = k) :
    ShardInv strict capacity (subs.set i t') k' sh := by
  have hnone : ∀ {x : Submission}, (∀ k' r, x.role = some (k', r) → k' = k) →
      x.reserves k' = false ∧ ∀ r, x.has r k' = false := by
    intro x hx
    cases hr : x.role with
    | none => simp [reserves, has, hr]
    | some p =>
      obtain ⟨k₀, r₀⟩ := p
      obtain rfl := hx k₀ r₀ hr
      simp [reserves, has, hr, Ne.symm hne]
  obtain ⟨hres, hhas⟩ := hnone hat
  obtain ⟨hres', hhas'⟩ := hnone hat'
  have hbox : sh.inbox.count (.task i) = 0 := by
    rw [h.inbox i, ht]
    simp [hhas]
  refine h.set ht ?_ h.capacity ?_ ?_ (fun _ _ => rfl) rfl rfl rfl rfl fun hs he => ?_
  · rw [hres, hres']
  · rw [hhas, hhas']
  · rw [hbox, hhas']
    rfl
  · exact ⟨(h.exited hs he).1, hbox, hhas' _⟩

/-! ## Transport -/

theorem StopInv.set (h : s.StopInv) (hk : s.shards[k]? = some sh)
    (hpc : sh.pc = .exited → sh'.pc = .exited)
    (hacc : sh.accepting = false → sh'.accepting = false) :
    RpcClient.StopInv { s with shards := s.shards.set k sh' } := by
  have hlt : k < s.shards.length := (List.getElem?_eq_some_iff.mp hk).1
  have hexited : ∀ n, ExitedBelow s.shards n → ExitedBelow (s.shards.set k sh') n := by
    intro n hn j x hj hx
    by_cases hjk : j = k
    · subst hjk
      rw [getElem?_set_self hlt, some.injEq] at hx
      exact hx ▸ hpc (hn j sh hj hk)
    · rw [getElem?_set_ne (Ne.symm hjk)] at hx
      exact hn j x hj hx
  unfold RpcClient.StopInv at h ⊢
  cases hs : s.stopper with
  | idle => trivial
  | closeAccepting n | lock n | unlock n | joinThread n =>
    rw [hs] at h
    exact hexited n h
  | setStopping n =>
    rw [hs] at h
    refine ⟨hexited n h.1, fun x hx => ?_⟩
    by_cases hnk : n = k
    · subst hnk
      rw [getElem?_set_self hlt, some.injEq] at hx
      exact hx ▸ hacc (h.2 sh hk)
    · rw [getElem?_set_ne (Ne.symm hnk)] at hx
      exact h.2 x hx
  | returned =>
    rw [hs] at h
    simp only [length_set]
    exact hexited _ h

theorem Inv.moveCall (hi : Inv strict s) (ht : s.submissions[i]? = some t)
    (hrole : t'.role = t.role) (hc : t'.Counted)
    (hx : ∀ k c, t'.pc = .reserveExchange k c → c < s.hardCapacity) :
    Inv strict (s.goto i t') where
  shards := fun k sh hk => (hi.shards k sh hk).silent ht hrole
  counted := forall_mem_set hi.counted hc
  exchange := forall_mem_set hi.exchange hx
  onShard := forall_mem_set hi.onShard (by rw [hrole]; exact hi.onShard t (mem_of_getElem? ht))
  stop := hi.stop

theorem Inv.moveShard (hi : Inv strict s) (hk : s.shards[k]? = some sh)
    (hsh : ShardInv strict s.hardCapacity s.submissions k sh')
    (hpc : sh.pc = .exited → sh'.pc = .exited)
    (hacc : sh.accepting = false → sh'.accepting = false) :
    Inv strict { s with shards := s.shards.set k sh' } where
  shards := by
    intro j x hx
    by_cases hjk : j = k
    · subst hjk
      rw [List.getElem?_set_self (List.getElem?_eq_some_iff.mp hk).1, Option.some.injEq] at hx
      exact hx ▸ hsh
    · rw [getElem?_set_ne (Ne.symm hjk)] at hx
      exact hi.shards j x hx
  counted := hi.counted
  exchange := hi.exchange
  onShard := by simpa only [length_set] using hi.onShard
  stop := StopInv.set hi.stop hk hpc hacc

section
variable (hi : Inv strict s) (ht : s.submissions[i]? = some t) (hk : s.shards[k]? = some sh)
  (hat : ∀ k' r, t.role = some (k', r) → k' = k) (hat' : ∀ k' r, t'.role = some (k', r) → k' = k)
  (hc : t'.Counted) (hx : ∀ k c, t'.pc = .reserveExchange k c → c < s.hardCapacity)
include hi ht hk hat hat' hc hx

theorem Inv.handOver (hsh : ShardInv strict s.hardCapacity (s.submissions.set i t') k sh')
    (hpc : sh.pc = .exited → sh'.pc = .exited)
    (hacc : sh.accepting = false → sh'.accepting = false) :
    Inv strict (goto { s with shards := s.shards.set k sh' } i t') where
  shards := by
    intro j x hxj
    simp only [goto] at hxj
    by_cases hjk : j = k
    · subst hjk
      rw [List.getElem?_set_self (List.getElem?_eq_some_iff.mp hk).1, Option.some.injEq] at hxj
      exact hxj ▸ hsh
    · rw [getElem?_set_ne (Ne.symm hjk)] at hxj
      exact (hi.shards j x hxj).elsewhere ht hjk hat hat'
  counted := forall_mem_set hi.counted hc
  exchange := forall_mem_set hi.exchange hx
  onShard := by
    have hlt : k < s.shards.length := (List.getElem?_eq_some_iff.mp hk).1
    simp only [goto, length_set]
    exact forall_mem_set hi.onShard (fun k' r h => hat' k' r h ▸ hlt)
  stop := StopInv.set hi.stop hk hpc hacc

theorem Inv.changeRole (hsh : ShardInv strict s.hardCapacity (s.submissions.set i t') k sh) :
    Inv strict (s.goto i t') := by
  have hself : s.shards.set k sh = s.shards := by
    obtain ⟨hlt, rfl⟩ := List.getElem?_eq_some_iff.mp hk
    exact set_getElem_self hlt
  have hover := hi.handOver ht hk hat hat' hc hx hsh id id
  rwa [hself] at hover

end

theorem Inv.mutex (hi : Inv strict s) (hk : s.shards[k]? = some sh) (m : Option Owner) :
    Inv strict { s with shards := s.shards.set k { sh with mutex := m } } := by
  have h := hi.shards k sh hk
  exact hi.moveShard hk { h with } id id

theorem RpcClient.onShard_eq_some {f : Shard → Option Shard} (h : s.onShard k f = some s') :
    ∃ sh sh', s.shards[k]? = some sh ∧ f sh = some sh' ∧
      s' = { s with shards := s.shards.set k sh' } := by
  unfold onShard at h
  split at h
  · cases h
  rename_i sh hk
  obtain ⟨sh', hf, rfl⟩ := map_eq_some_iff.mp h
  exact ⟨sh, sh', hk, hf, rfl⟩

theorem RpcClient.onShard_map {f : Shard → Option Shard} {g : RpcClient → RpcClient}
    (h : (s.onShard k f).map g = some s') :
    ∃ sh sh', s.shards[k]? = some sh ∧ f sh = some sh' ∧
      s' = g { s with shards := s.shards.set k sh' } := by
  obtain ⟨s₁, hs₁, rfl⟩ := map_eq_some_iff.mp h
  obtain ⟨sh, sh', hk, hf, rfl⟩ := onShard_eq_some hs₁
  exact ⟨sh, sh', hk, hf, rfl⟩

/-! ## Steps of a `SubmitTask` call -/

theorem Submission.Counted.held (hc : t.Counted) (hp : t.pc.posted = false) :
    t.place = .held ∧ t.completions = 0 := by
  unfold Submission.Counted at hc
  split at hc
  · rename_i hplace
    refine ⟨hplace, ?_⟩
    have hne : t.pc ≠ .returned := fun h => by simp [h, CallPc.posted] at hp
    simpa [hne] using hc.1
  all_goals simp [hp] at hc

theorem Submission.counted_moved {pc : CallPc} (hplace : t.place = .held) (h0 : t.completions = 0)
    (hp : pc.posted = false) : Submission.Counted { t with pc := pc } := by
  have hret : pc ≠ .returned := fun h => by simp [h, CallPc.posted] at hp
  have hunlock : ∀ k, pc ≠ .postUnlock k true := fun k h => by simp [h, CallPc.posted] at hp
  simp only [Submission.Counted, hplace, h0, hret, if_false, true_and]
  exact hunlock

section
variable (hi : Inv strict s) (ht : s.submissions[i]? = some t)
include hi ht

theorem Inv.moveHeld {pc : CallPc} (hplace : t.place = .held) (h0 : t.completions = 0)
    (hp : pc.posted = false) (hrole : role { t with pc := pc } = t.role)
    (hx : ∀ k c, pc = .reserveExchange k c → c < s.hardCapacity) :
    Inv strict (s.goto i { t with pc := pc }) :=
  hi.moveCall ht hrole (counted_moved hplace h0 hp) hx

section
variable (hk : s.shards[k]? = some sh) (hplace : t.place = .held) (h0 : t.completions = 0)
include hk hplace h0

theorem Inv.giveBack (hrole : t.role = some (k, .reserving)) : Inv strict (goto { s with
      shards := s.shards.set k { sh with reservedCalls := sh.reservedCalls - 1 } } i
      { t with pc := .complete }) := by
  have h := hi.shards k sh hk
  have hrole' : role { t with pc := .complete } = none := by
    simp [role, hplace]
  have hpos : 0 < s.submissions.countP (·.reserves k) :=
    countP_pos_of_getElem? ht (by simp [reserves, hrole])
  have hres := h.reserved
  have hcap := h.capacity
  have hbox := h.inbox i
  rw [ht] at hbox
  refine hi.handOver ht hk (by simp [hrole]) (by simp [hrole'])
    (counted_moved hplace h0 rfl) (by simp) ?_ id id
  refine h.set ht ?_ ?_ ?_ ?_ (fun _ _ => rfl) rfl rfl rfl rfl fun hs he => ?_
  · simp [reserves, hrole, hrole']; omega
  · simp only; omega
  · simp [has, hrole, hrole']
  · simpa [has, hrole, hrole'] using hbox
  · exact ⟨(h.exited hs he).1, (h.exited hs he).2.1 i, by simp [has, hrole']⟩

theorem Inv.reserve (hrole : t.role = none) (hlt : sh.reservedCalls < s.hardCapacity) :
    Inv strict (goto { s with
      shards := s.shards.set k { sh with reservedCalls := sh.reservedCalls + 1 } } i
      { t with pc := .reserveRecheck k }) := by
  have h := hi.shards k sh hk
  have hrole' : role { t with pc := .reserveRecheck k } = some (k, .reserving) := by
    simp [role, hplace]
  have hbox := h.inbox i
  rw [ht] at hbox
  refine hi.handOver ht hk (by simp [hrole]) (by simp [hrole', eq_comm])
    (counted_moved hplace h0 rfl) (by simp) ?_ id id
  refine h.set ht ?_ ?_ ?_ ?_ (fun _ _ => rfl) rfl rfl rfl rfl fun hs he => ?_
  · simp [reserves, hrole, hrole']
  · exact hlt
  · simp [has, hrole, hrole']
  · simpa [has, hrole, hrole'] using hbox
  · exact ⟨(h.exited hs he).1, (h.exited hs he).2.1 i, by simp [has, hrole']⟩

/-- `Post` past its check: an accepting shard has not been told to stop, so its thread is still
    in `RunUntil`. -/
theorem Inv.check (hrole : t.role = some (k, .reserving)) (hacc : sh.accepting = true) :
    Inv strict (s.goto i { t with pc := .postPush k }) := by
  have h := hi.shards k sh hk
  have hrole' : role { t with pc := .postPush k } = some (k, .pushing) := by
    simp [role, hplace]
  have hrun : sh.pc ≠ .exited := by
    intro he
    simp [h.accepting (h.stopping (.inr (.inr he)))] at hacc
  have hbox := h.inbox i
  rw [ht] at hbox
  refine hi.changeRole ht hk (by simp [hrole, eq_comm]) (by simp [hrole', eq_comm])
    (counted_moved hplace h0 rfl) (by simp) ?_
  refine h.set ht ?_ h.capacity ?_ ?_ (fun _ _ => rfl) rfl rfl rfl rfl fun _ he => absurd he hrun
  · simp [reserves, hrole, hrole']
  · simp [has, hrole, hrole']
  · simpa [has, hrole, hrole'] using hbox

end

/-- `Submit`: the task goes from the call to the inbox. A strict run has no such call left once
    the thread has ended. -/
theorem Inv.push (hk : s.shards[k]? = some sh) (h0 : t.completions = 0)
    (hrole : t.role = some (k, .pushing)) :
    Inv strict (goto { s with
      shards := s.shards.set k { sh with inbox := sh.inbox ++ [.task i] } } i
      { t with pc := .postUnlock k true, place := .queued k }) := by
  have h := hi.shards k sh hk
  have hrole' : role { t with pc := .postUnlock k true, place := .queued k } =
      some (k, .queued) := rfl
  have hbox := h.inbox i
  rw [ht] at hbox
  refine hi.handOver ht hk (by simp [hrole, eq_comm]) (by simp [hrole', eq_comm])
    ⟨h0, rfl⟩ (by simp) ?_ id id
  refine h.set ht ?_ h.capacity ?_ ?_ ?_ rfl rfl rfl rfl fun hs he => ?_
  · simp [reserves, hrole, hrole']
  · simp [has, hrole, hrole']
  · simpa [has, hrole, hrole', count_append] using hbox
  · intro j hj
    have hne : Posted.task j ∉ [Posted.task i] := by simp [hj]
    rw [count_append, count_eq_zero_of_not_mem hne, Nat.add_zero]
  · have hpush := countP_eq_zero.mp (h.exited hs he).2.2 t (mem_of_getElem? ht)
    simp [has, hrole] at hpush

theorem Inv.pushFails (hk : s.shards[k]? = some sh) (hplace : t.place = .held)
    (h0 : t.completions = 0) (hrole : t.role = some (k, .pushing)) :
    Inv strict (s.goto i { t with pc := .postUnlock k false }) := by
  have h := hi.shards k sh hk
  have hrole' : role { t with pc := .postUnlock k false } = some (k, .reserving) := by
    simp [role, hplace]
  have hbox := h.inbox i
  rw [ht] at hbox
  refine hi.changeRole ht hk (by simp [hrole, eq_comm]) (by simp [hrole', eq_comm])
    (counted_moved hplace h0 rfl) (by simp) ?_
  refine h.set ht ?_ h.capacity ?_ ?_ (fun _ _ => rfl) rfl rfl rfl rfl fun hs he => ?_
  · simp [reserves, hrole, hrole']
  · simp [has, hrole, hrole']
  · simpa [has, hrole, hrole'] using hbox
  · exact ⟨(h.exited hs he).1, (h.exited hs he).2.1 i, by simp [has, hrole']⟩

theorem inv_stepHeld {random : Nat} {fails : Bool} (hposted : t.pc.posted = false)
    (hs : s.stepCall i t random fails = some s') : Inv strict s' := by
  obtain ⟨hplace, h0⟩ := (hi.counted t (mem_of_getElem? ht)).held hposted
  have hexc := hi.exchange t (mem_of_getElem? ht)
  have hshard := hi.onShard t (mem_of_getElem? ht)
  unfold stepCall at hs
  cases hpc : t.pc with
  | pickStopping =>
    simp only [hpc, some.injEq] at hs
    subst hs
    split <;>
      exact hi.moveHeld ht hplace h0 rfl (by simp [role, hplace, hpc]) (by simp)
  | pickNext =>
    simp only [hpc, some.injEq] at hs
    subst hs
    have hn : Inv strict { s with nextShard := (s.nextShard + 1) % 2 ^ 64 } :=
      { hi with }
    split <;>
      exact hn.moveHeld ht hplace h0 rfl (by simp [role, hplace, hpc]) (by simp)
  | pickFirst first second | pickSecond first second reserved =>
    simp only [hpc] at hs
    obtain ⟨sh, -, rfl⟩ := map_eq_some_iff.mp hs
    exact hi.moveHeld ht hplace h0 rfl (by simp [role, hplace, hpc]) (by simp)
  | reserveAccepting k | reserveRecheck k =>
    simp only [hpc] at hs
    obtain ⟨sh, -, rfl⟩ := map_eq_some_iff.mp hs
    split <;>
      exact hi.moveHeld ht hplace h0 rfl (by simp [role, hplace, hpc]) (by simp)
  | reserveLoad k =>
    simp only [hpc] at hs
    obtain ⟨sh, -, rfl⟩ := map_eq_some_iff.mp hs
    split
    · rename_i hlt
      exact hi.moveHeld ht hplace h0 rfl (by simp [role, hplace, hpc]) (by rintro _ _ ⟨⟩; exact hlt)
    · exact hi.moveHeld ht hplace h0 rfl (by simp [role, hplace, hpc]) (by simp)
  | reserveExchange k current =>
    have hrole : t.role = none := by simp [role, hplace, hpc]
    simp only [hpc] at hs
    split at hs
    · cases hs
    rename_i sh hk
    split at hs <;> simp only [some.injEq] at hs <;> subst hs
    · rename_i hcur
      have hlt := hexc k current hpc
      rw [← hcur.1] at hlt ⊢
      exact hi.reserve ht hk hplace h0 hrole hlt
    · split
      · rename_i hlt
        exact hi.moveHeld ht hplace h0 rfl (by simp [role, hplace, hpc])
          (by rintro _ _ ⟨⟩; exact hlt)
      · exact hi.moveHeld ht hplace h0 rfl (by simp [role, hplace, hpc]) (by simp)
  | reserveUndo k =>
    simp only [hpc] at hs
    obtain ⟨sh, sh', hk, hf, rfl⟩ := onShard_map hs
    cases hf
    exact hi.giveBack ht hk hplace h0 (by simp [role, hplace, hpc])
  | postLock k =>
    simp only [hpc] at hs
    obtain ⟨sh, sh', hk, hf, rfl⟩ := onShard_map hs
    simp only [ite_none_right_eq_some, some.injEq] at hf
    obtain ⟨-, rfl⟩ := hf
    exact (hi.mutex hk _).moveHeld ht hplace h0 rfl (by simp [role, hplace, hpc]) (by simp)
  | postCheck k =>
    simp only [hpc] at hs
    obtain ⟨sh, hk, rfl⟩ := map_eq_some_iff.mp hs
    split
    · rename_i hacc
      exact hi.check ht hk hplace h0 (by simp [role, hplace, hpc]) hacc
    · exact hi.moveHeld ht hplace h0 rfl (by simp [role, hplace, hpc]) (by simp)
  | postPush k =>
    have hrole : t.role = some (k, .pushing) := by simp [role, hplace, hpc]
    simp only [hpc] at hs
    split at hs
    · simp only [some.injEq] at hs
      subst hs
      obtain ⟨sh, hk⟩ : ∃ sh, s.shards[k]? = some sh :=
        ⟨_, getElem?_eq_getElem (hshard k _ hrole)⟩
      exact hi.pushFails ht hk hplace h0 hrole
    · obtain ⟨sh, sh', hk, hf, rfl⟩ := onShard_map hs
      cases hf
      exact hi.push ht hk h0 hrole
  | postUnlock k posted =>
    simp only [hpc] at hs
    obtain ⟨sh, sh', hk, hf, rfl⟩ := onShard_map hs
    cases hf
    cases posted with
    | false =>
      exact (hi.mutex hk _).moveHeld ht hplace h0 rfl (by simp [role, hplace, hpc]) (by simp)
    | true =>
      rw [hpc] at hposted
      cases hposted
  | release k =>
    simp only [hpc] at hs
    obtain ⟨sh, sh', hk, hf, rfl⟩ := onShard_map hs
    simp only [ite_none_left_eq_some, some.injEq] at hf
    obtain ⟨-, rfl⟩ := hf
    exact hi.giveBack ht hk hplace h0 (by simp [role, hplace, hpc])
  | complete =>
    simp only [hpc, some.injEq] at hs
    subst hs
    exact hi.moveCall ht (by simp [role, hplace, hpc])
      (by simp [Submission.Counted, hplace, h0]) (by simp)
  | returned => simp [hpc] at hs

theorem inv_stepCall {random : Nat} {fails : Bool} (hs : s.stepCall i t random fails = some s') :
    Inv strict s' := by
  cases hposted : t.pc.posted with
  | false => exact inv_stepHeld hi ht hposted hs
  | true =>
    have hc := hi.counted t (mem_of_getElem? ht)
    unfold stepCall at hs
    cases hpc : t.pc with
    | postUnlock k posted =>
      rw [hpc] at hposted
      cases posted with
      | false => cases hposted
      | true =>
        simp only [hpc] at hs
        obtain ⟨sh, sh', hk, hf, rfl⟩ := onShard_map hs
        cases hf
        -- the task has left the call, so its role and its count are those of its place
        refine (hi.mutex hk _).moveCall ht ?_ ?_ (by simp)
        · cases hp : t.place with
          | held => simp [Submission.Counted, hp, hpc] at hc
          | _ => simp [role, hp]
        · cases hp : t.place with
          | held => simp [Submission.Counted, hp, hpc] at hc
          | _ => simp_all [Submission.Counted, CallPc.posted]
    | returned => simp [hpc] at hs
    | _ =>
      rw [hpc] at hposted
      cases hposted

end

/-! ## Steps of a shard's thread -/

theorem Submission.place_of_queued (h : t.role = some (k, .queued)) : t.place = .queued k := by
  unfold role at h
  split at h
  · simp only [some.injEq, Prod.mk.injEq, and_true] at h
    exact h ▸ ‹_›
  all_goals first | (split at h <;> simp at h) | simp at h

theorem Submission.pc_of_pushing (h : t.role = some (k, .pushing)) : t.pc = .postPush k := by
  unfold role at h
  split at h
  case h_6 =>
    split at h
    all_goals simp at h
    exact h ▸ ‹_›
  all_goals simp at h

theorem Inv.spawn {rest : List Posted} (hi : Inv strict s) (ht : s.submissions[i]? = some t)
    (hk : s.shards[k]? = some sh) (hpc : sh.pc = .drainInbox) (hbox : sh.inbox = .task i :: rest) :
    Inv strict (goto { s with
      shards := s.shards.set k { sh with
        inbox := rest, liveRoutineCount := sh.liveRoutineCount + 1 } } i
      { t with place := .ready k }) := by
  have h := hi.shards k sh hk
  have hcount := h.inbox i
  rw [ht, hbox, count_cons_self] at hcount
  -- an entry of the inbox is a queued task, and the only entry of that task
  have hrole : t.role = some (k, .queued) := by
    by_contra hne
    simp [has, hne] at hcount
  have hrest : rest.count (.task i) = 0 := by
    simpa [has, hrole] using hcount
  have hc := hi.counted t (mem_of_getElem? ht)
  simp only [Submission.Counted, place_of_queued hrole] at hc
  have hrole' : role { t with place := .ready k } = some (k, .live) := rfl
  refine hi.handOver ht hk (by simp [hrole, eq_comm]) (by simp [hrole', eq_comm]) hc
    (fun j c he => hi.exchange t (mem_of_getElem? ht) j c he) ?_ id id
  refine h.set ht ?_ h.capacity ?_ ?_ ?_ rfl rfl rfl rfl fun _ he => ?_
  · simp [reserves, hrole, hrole']
  · simp [has, hrole, hrole']
    omega
  · simpa [has, hrole'] using hrest
  · intro j hj
    rw [hbox, count_cons_of_ne (by simpa using Ne.symm hj)]
  · simp [hpc] at he

section
variable (h : ShardInv strict capacity subs k sh)
include h

/-- Leaving a loop: `RunUntil` on `stopping`, `Join` on the count of live routines, and a strict
    run has then nothing on its way to the inbox. -/
theorem ShardInv.leave (hstops : sh.stops = true)
    (hpc : sh.pc = .test ∨ sh.pc = .retest)
    (hok : strict → sh.exits = true →
      (∀ x ∈ sh.inbox, x = .other) ∧ ∀ t ∈ subs, t.pc ≠ .postPush k) :
    ShardInv strict capacity subs k sh.leave := by
  refine { h with stopping := fun _ => ?_, exited := fun hs he => ?_ }
  · show sh.stopping = true
    cases hj : sh.joining with
    | true => exact h.stopping (.inl hj)
    | false => simpa [Shard.stops, hj] using hstops
  · have hj : sh.joining = true := by
      by_contra hne
      simp [Shard.leave, hne] at he
    have hlive : sh.liveRoutineCount = 0 := by simpa [Shard.stops, hj] using hstops
    obtain ⟨hbox, hpush⟩ := hok hs (by rcases hpc with h | h <;> simp [Shard.exits, hj, hstops, h])
    refine ⟨hlive, fun i => count_eq_zero_of_not_mem fun hmem => ?_,
      countP_eq_zero.mpr fun t ht hrole => ?_⟩
    · cases hbox _ hmem
    · exact hpush t ht (pc_of_pushing (of_decide_eq_true hrole))

theorem ShardInv.stay {pc : ShardPc} (hclosing : pc ≠ .closing) (hexited : pc ≠ .exited) :
    ShardInv strict capacity subs k { sh with pc := pc } :=
  { h with
    stopping := fun hj => h.stopping (.inl (by simpa [hclosing, hexited] using hj))
    exited := fun _ he => absurd he hexited }

theorem ShardInv.advance
    (hok : strict → sh.exits = true → (∀ x ∈ sh.inbox, x = .other) ∧ ∀ t ∈ subs, t.pc ≠ .postPush k)
    (hs : sh.advance = some sh') :
    ShardInv strict capacity subs k sh' ∧ sh.pc ≠ .exited ∧ sh'.accepting = sh.accepting := by
  unfold Shard.advance at hs
  cases hpc : sh.pc with
  | test =>
    simp only [hpc, some.injEq] at hs
    subst hs
    split
    · exact ⟨h.leave ‹_› (.inl hpc) hok, by simp, rfl⟩
    · exact ⟨h.stay (by simp) (by simp), by simp, rfl⟩
  | retest =>
    simp only [hpc, some.injEq] at hs
    subst hs
    split
    · exact ⟨h.leave ‹_› (.inr hpc) hok, by simp, rfl⟩
    · exact ⟨h.stay (by simp) (by simp), by simp, rfl⟩
  | closing =>
    simp only [hpc, some.injEq] at hs
    subst hs
    have hstop : sh.stopping = true := h.stopping (.inr (.inl hpc))
    exact ⟨{ h with stopping := fun _ => hstop, exited := fun _ he => by simp at he }, by simp, rfl⟩
  | drainInbox | runReady | poll =>
    simp only [hpc, some.injEq] at hs
    subst hs
    exact ⟨h.stay (by simp) (by simp), by simp, rfl⟩
  | exited => simp [hpc] at hs

end

theorem inv_stepShard (hi : Inv strict s) (hok : strict → LeavesNothing s (.shard k))
    (hk : s.shards[k]? = some sh) (hs : s.stepShard k sh = some s') : Inv strict s' := by
  have h := hi.shards k sh hk
  unfold stepShard at hs
  split at hs
  case h_1 i rest hpc hbox =>
    obtain ⟨t, ht, rfl⟩ := map_eq_some_iff.mp hs
    exact hi.spawn ht hk hpc hbox
  case h_2 rest hpc hbox =>
    cases hs
    refine hi.moveShard hk { h with live := ?_, inbox := fun i => ?_, exited := fun _ he => ?_ } id id
    · have := h.live
      simp only
      omega
    · rw [← h.inbox i, hbox, count_cons_of_ne (by simp)]
    · simp [hpc] at he
  case h_3 =>
    obtain ⟨sh', hadv, rfl⟩ := map_eq_some_iff.mp hs
    obtain ⟨h', hne, hacc⟩ := h.advance (fun hst => hok hst sh hk) hadv
    exact hi.moveShard hk h' (fun he => absurd he hne) (fun ha => hacc.trans ha)

/-! ## Steps of a task's routine -/

theorem inv_stepTask {move : TaskMove} (hi : Inv strict s) (ht : s.submissions[i]? = some t)
    (hs : s.stepTask i t move = some s') : Inv strict s' := by
  have hc := hi.counted t (mem_of_getElem? ht)
  have hx := hi.exchange t (mem_of_getElem? ht)
  -- the three moves inside `task->Run()` keep the routine live on its shard
  have hsilent : ∀ {k} {place} {n} {s₁},
      (s.onShard k fun sh => if sh.runs then some sh else none) = some s₁ →
      role ⟨t.pc, place, n⟩ = t.role → Submission.Counted ⟨t.pc, place, n⟩ →
      Inv strict (s₁.goto i ⟨t.pc, place, n⟩) := by
    intro k place n s₁ hs₁ hrole hcount
    obtain ⟨sh, sh', hk, hf, rfl⟩ := onShard_eq_some hs₁
    simp only [ite_none_right_eq_some, some.injEq] at hf
    obtain ⟨-, rfl⟩ := hf
    exact (hi.moveShard hk (hi.shards k sh hk) id id).moveCall ht hrole hcount hx
  unfold stepTask at hs
  split at hs
  case h_1 k hplace =>
    obtain ⟨s₁, hs₁, rfl⟩ := map_eq_some_iff.mp hs
    exact hsilent hs₁ (by simp [role, hplace]) (by simpa [Submission.Counted, hplace] using hc)
  case h_2 k hplace =>
    obtain ⟨s₁, hs₁, rfl⟩ := map_eq_some_iff.mp hs
    exact hsilent hs₁ (by simp [role, hplace]) (by simpa [Submission.Counted, hplace] using hc)
  case h_3 k hplace =>
    obtain ⟨s₁, hs₁, rfl⟩ := map_eq_some_iff.mp hs
    simp only [Submission.Counted, hplace] at hc
    exact hsilent hs₁ (by simp [role, hplace]) ⟨by simp [hc.1], hc.2⟩
  case h_4 k hplace =>
    obtain ⟨sh, sh', hk, hf, rfl⟩ := onShard_map hs
    simp only [ite_none_right_eq_some, some.injEq] at hf
    obtain ⟨⟨hruns, hpos⟩, rfl⟩ := hf
    simp only [Submission.Counted, hplace] at hc
    have h := hi.shards k sh hk
    have hrole : t.role = some (k, .live) := by simp [role, hplace]
    have hrole' : role { t with place := .finished } = none := rfl
    have hlive : 0 < s.submissions.countP (·.has .live k) :=
      countP_pos_of_getElem? ht (by simp [has, hrole])
    have hcount := h.live
    have hcap := h.capacity
    have hbox := h.inbox i
    rw [ht] at hbox
    refine hi.handOver ht hk (by simp [hrole, eq_comm]) (by simp [hrole']) hc hx ?_ id id
    refine h.set ht ?_ ?_ ?_ ?_ (fun _ _ => rfl) rfl rfl rfl rfl fun _ he => ?_
    · simp [reserves, hrole, hrole']
      omega
    · simp only
      omega
    · simp [has, hrole, hrole']
      omega
    · simpa [has, hrole, hrole'] using hbox
    · simp [Shard.runs, he] at hruns
  case h_5 => cases hs

/-! ## Steps of `Stop`, and the rest -/

theorem StopInv.next {n : Nat} (h : ExitedBelow s.shards n) (hn : n ≤ s.shards.length) :
    RpcClient.StopInv { s with
      stopper := if n < s.shards.length then .closeAccepting n else .returned } := by
  by_cases hlt : n < s.shards.length
  · simp only [RpcClient.StopInv, if_pos hlt]
    exact h
  · simp only [RpcClient.StopInv, if_neg hlt]
    exact (Nat.le_antisymm hn (Nat.le_of_not_lt hlt)) ▸ h

section
variable (hi : Inv strict s)
include hi

theorem inv_stepStop (hs : s.stepStop = some s') : Inv strict s' := by
  -- only the position of `Stop` moves once the shard is updated
  have hmove : ∀ {s} {pc} {b}, Inv strict s →
      RpcClient.StopInv { s with stopper := pc } →
      Inv strict { s with stopping := b, stopper := pc } :=
    fun hi hstop => { hi with stop := hstop }
  have hstop := hi.stop
  unfold stepStop at hs
  cases hst : s.stopper with
  | idle =>
    simp only [hst, some.injEq] at hs
    subst hs
    exact hmove hi (StopInv.next (fun k sh hk => absurd hk (Nat.not_lt_zero k)) (Nat.zero_le _))
  | closeAccepting k =>
    simp only [hst] at hs
    obtain ⟨sh, sh', hk, hf, rfl⟩ := onShard_map hs
    cases hf
    have h := hi.shards k sh hk
    have hlt : k < s.shards.length := (List.getElem?_eq_some_iff.mp hk).1
    have hi' : Inv strict { s with shards := s.shards.set k { sh with accepting := false } } :=
      hi.moveShard hk { h with accepting := fun _ => rfl } id (fun _ => rfl)
    refine hmove hi' ⟨?_, ?_⟩
    · have := hi'.stop
      simpa [RpcClient.StopInv, hst] using this
    · intro x hx
      rw [getElem?_set_self hlt, some.injEq] at hx
      exact hx ▸ rfl
  | setStopping k =>
    simp only [hst] at hs
    simp only [RpcClient.StopInv, hst] at hstop
    obtain ⟨sh, sh', hk, hf, rfl⟩ := onShard_map hs
    cases hf
    have h := hi.shards k sh hk
    have hi' : Inv strict { s with shards := s.shards.set k { sh with stopping := true } } :=
      hi.moveShard hk { h with accepting := fun _ => hstop.2 sh hk, stopping := fun _ => rfl } id id
    refine hmove hi' ?_
    have := hi'.stop
    simp only [RpcClient.StopInv, hst] at this
    exact this.1
  | lock k =>
    simp only [hst] at hs
    obtain ⟨sh, sh', hk, hf, rfl⟩ := onShard_map hs
    simp only [ite_none_right_eq_some, some.injEq] at hf
    obtain ⟨-, rfl⟩ := hf
    have hi' := hi.mutex hk (some .stopper)
    have := hi'.stop
    exact hmove hi' (by simpa [RpcClient.StopInv, hst] using this)
  | unlock k =>
    simp only [hst] at hs
    obtain ⟨sh, sh', hk, hf, rfl⟩ := onShard_map hs
    cases hf
    have hi' := hi.mutex hk none
    have := hi'.stop
    exact hmove hi' (by simpa [RpcClient.StopInv, hst] using this)
  | joinThread k =>
    simp only [hst] at hs
    simp only [RpcClient.StopInv, hst] at hstop
    split at hs
    · rename_i sh hk
      simp only [ite_none_right_eq_some, some.injEq] at hs
      obtain ⟨hexited, rfl⟩ := hs
      have hlt : k < s.shards.length := (List.getElem?_eq_some_iff.mp hk).1
      refine hmove hi (StopInv.next (fun j x hj hx => ?_) hlt)
      rcases Nat.lt_succ_iff_lt_or_eq.mp hj with hj | rfl
      · exact hstop j x hj hx
      · rw [hk, some.injEq] at hx
        exact hx ▸ hexited
    · cases hs
  | returned => simp [hst] at hs

theorem inv_submit :
    Inv strict { s with submissions := s.submissions ++ [⟨.pickStopping, .held, 0⟩] } := by
  have hnew : ∀ {P : Submission → Prop}, (∀ t ∈ s.submissions, P t) →
      P ⟨.pickStopping, .held, 0⟩ → ∀ t ∈ s.submissions ++ [⟨.pickStopping, .held, 0⟩], P t := by
    intro P h hP t ht
    rcases mem_append.mp ht with ht | ht
    · exact h t ht
    · exact (mem_singleton.mp ht) ▸ hP
  refine ⟨fun k sh hk => ?_, hnew hi.counted (by simp [Submission.Counted]),
    hnew hi.exchange (by simp), hnew hi.onShard (by simp [role]), hi.stop⟩
  have h := hi.shards k sh hk
  refine ⟨?_, h.capacity, ?_, fun i => ?_, h.accepting, h.stopping, fun hs he => ?_⟩
  · rw [h.reserved]
    simp [countP_append, reserves, role]
  · rw [h.live]
    simp [countP_append, has, role]
  · rw [h.inbox i]
    rcases Nat.lt_trichotomy i s.submissions.length with hi' | rfl | hi'
    · rw [getElem?_append_left hi']
    · simp [has, role]
    · rw [getElem?_eq_none (by omega), getElem?_eq_none (by simp; omega)]
  · obtain ⟨hlive, hbox, hpush⟩ := h.exited hs he
    refine ⟨hlive, hbox, ?_⟩
    simpa [countP_append, has, role] using hpush

theorem inv_post
    (hs : (s.onShard k fun sh => some { sh with inbox := sh.inbox ++ [.other] }) = some s') :
    Inv strict s' := by
  obtain ⟨sh, sh', hk, hf, rfl⟩ := onShard_eq_some hs
  cases hf
  have h := hi.shards k sh hk
  have hbox : ∀ i, (sh.inbox ++ [Posted.other]).count (Posted.task i) =
      sh.inbox.count (.task i) := by
    intro i
    have hne : Posted.task i ∉ [Posted.other] := by simp
    rw [count_append, count_eq_zero_of_not_mem hne, Nat.add_zero]
  refine hi.moveShard hk { h with inbox := fun i => ?_, exited := fun hs he => ?_ } id id
  · rw [hbox, h.inbox i]
  · obtain ⟨hlive, hinbox, hpush⟩ := h.exited hs he
    exact ⟨hlive, fun i => by rw [hbox, hinbox i], hpush⟩

theorem inv_other {spawn : Bool} (hs : s.step (.other k spawn) = some s') : Inv strict s' := by
  obtain ⟨sh, sh', hk, hf, rfl⟩ := onShard_eq_some hs
  have h := hi.shards k sh hk
  have hlive := h.live
  split at hf
  · cases hf
  rename_i hruns
  have hpc : sh.pc ≠ .exited := fun he => hruns (by simp [Shard.runs, he])
  split at hf
  · simp only [some.injEq] at hf
    subst hf
    exact hi.moveShard hk { h with live := by simp only; omega, exited := fun _ he => absurd he hpc } id id
  · split at hf
    · cases hf
    · simp only [some.injEq] at hf
      subst hf
      exact hi.moveShard hk { h with live := by simp only; omega, exited := fun _ he => absurd he hpc } id id

theorem inv_step {a : Label} (hok : strict → LeavesNothing s a) (hs : s.step a = some s') :
    Inv strict s' := by
  cases a with
  | submit =>
    simp only [step, some.injEq] at hs
    exact hs ▸ inv_submit hi
  | call i random fails =>
    simp only [step] at hs
    split at hs
    · cases hs
    · exact inv_stepCall hi ‹_› hs
  | shard k =>
    simp only [step] at hs
    split at hs
    · cases hs
    · exact inv_stepShard hi hok ‹_› hs
  | task i move =>
    simp only [step] at hs
    split at hs
    · cases hs
    · exact inv_stepTask hi ‹_› hs
  | post k => exact inv_post hi hs
  | other k spawn => exact inv_other hi hs
  | stop => exact inv_stepStop hi hs

end

/-! ## Runs -/

/-- In every run, whatever the threads do, a shard never has more reservations than its
    capacity. -/
theorem reserved_le_capacity {n capacity : Nat} (hsh : sh ∈ s.shards)
    (h : Reachable step (init n capacity) s) :
    sh.reservedCalls ≤ s.hardCapacity := by
  have hi : Inv False s := h.invariant (inv_init False n capacity)
    fun _ _ _ hi _ hs => inv_step hi False.elim hs
  obtain ⟨k, hk⟩ := getElem?_of_mem hsh
  exact (hi.shards k sh hk).capacity

/-- Two threads find the last place free. The exchange of the first one takes it, that of the second
    one fails, and its task is completed without having run. -/
theorem reserved_le_capacity_contended : ∃ s, Reachable step (init 1 1) s ∧
      s.submissions = [⟨.reserveRecheck 0, .held, 0⟩, ⟨.returned, .held, 1⟩] ∧
      ∃ sh ∈ s.shards, sh.reservedCalls = 1 ∧ sh.reservedCalls ≤ s.hardCapacity := by
  refine exists_reaches_of_exec
      (p := fun s => s.submissions = [⟨.reserveRecheck 0, .held, 0⟩, ⟨.returned, .held, 1⟩] ∧
      s.shards = [{ reservedCalls := 1 }])
    ([.submit, .submit] ++ replicate 4 (.call 0 0 false) ++
      replicate 4 (.call 1 0 false) ++ [.call 0 0 false, .call 1 0 false, .call 1 0 false])
    (by decide +kernel) fun s hreach hs => ?_
  obtain ⟨hcalls, hshards⟩ := hs
  have hmem : ({ reservedCalls := 1 } : Shard) ∈ s.shards := by
    rw [hshards]
    exact mem_singleton.mpr rfl
  exact ⟨hcalls, _, hmem, rfl, reserved_le_capacity hmem hreach⟩

/-- Once every thread is where it stops, no role is left, so nothing is held and everything has
    been completed. -/
theorem Inv.settled (hi : Inv True s) (hstop : s.stopper = .returned)
    (hret : ∀ t ∈ s.submissions, t.pc = .returned) :
    (∀ t ∈ s.submissions, t.completions = 1) ∧ ∀ sh ∈ s.shards, sh.reservedCalls = 0 := by
  have hexited := hi.stop
  simp only [RpcClient.StopInv, hstop] at hexited
  have hnone : ∀ t ∈ s.submissions, t.role = none := by
    intro t ht
    cases hr : t.role with
    | none => rfl
    | some p =>
      obtain ⟨k, r⟩ := p
      have hlt := hi.onShard t ht k r hr
      have hk := getElem?_eq_getElem hlt
      have h := hi.shards k _ hk
      obtain ⟨hlive, hbox, -⟩ := h.exited trivial (hexited k _ hlt hk)
      obtain ⟨i, hi'⟩ := getElem?_of_mem ht
      cases r with
      | queued =>
        have hcount := h.inbox i
        rw [hbox i, hi'] at hcount
        simp [has, hr] at hcount
      | live =>
        have hpos := countP_pos_of_getElem? (p := (·.has .live k)) hi' (by simp [has, hr])
        have := h.live
        omega
      | reserving | pushing =>
        unfold role at hr
        rw [hret t ht] at hr
        split at hr <;> simp at hr
  refine ⟨fun t ht => ?_, fun sh hsh => ?_⟩
  · have hc := hi.counted t ht
    have hr := hnone t ht
    unfold Submission.Counted at hc
    split at hc
    · simpa [hret t ht] using hc.1
    · rename_i hp; simp [role, hp] at hr
    · rename_i hp; simp [role, hp] at hr
    · rename_i hp; simp [role, hp] at hr
    · exact hc.1
    · exact hc.1
  · obtain ⟨k, hk⟩ := getElem?_of_mem hsh
    rw [(hi.shards k sh hk).reserved]
    exact countP_eq_zero.mpr fun t ht => by simp [reserves, hnone t ht]

/-- **No submitted task is lost** in a run whose shard threads leave nothing behind: once `Stop`
    and every `SubmitTask` call have returned, every task has been passed to `CompleteTask`
    exactly once and every reservation is back; and a shard never has more reservations than
    its capacity. -/
theorem submitted_tasks_complete {n capacity : Nat}
    (h : Reaches step LeavesNothing (init n capacity) s) :
    (s.stopper = .returned → (∀ t ∈ s.submissions, t.pc = .returned) →
      (∀ t ∈ s.submissions, t.completions = 1) ∧ ∀ sh ∈ s.shards, sh.reservedCalls = 0) ∧
    ∀ sh ∈ s.shards, sh.reservedCalls ≤ s.hardCapacity := by
  have hi : Inv True s := h.invariant (inv_init True n capacity)
    fun _ _ _ hi hok hs => inv_step hi (fun _ => hok) hs
  refine ⟨hi.settled, fun sh hsh => ?_⟩
  obtain ⟨k, hk⟩ := getElem?_of_mem hsh
  exact (hi.shards k sh hk).capacity

/-- Two tasks on one shard with room for one: the first runs and suspends, the second is
    rejected, and `Stop` waits for the first. -/
theorem submitted_tasks_complete_one_shard : ∃ s, Reaches step LeavesNothing (init 1 1) s ∧
      s.stopper = .returned ∧ s.submissions.length = 2 ∧
      (∀ t ∈ s.submissions, t.completions = 1) ∧ ∀ sh ∈ s.shards, sh.reservedCalls = 0 := by
  refine exists_reaches_of_exec (p := fun s => s.stopper = .returned ∧ s.submissions.length = 2 ∧
      ∀ t ∈ s.submissions, t.pc = .returned)
    ([.submit, .submit] ++ replicate 10 (.call 0 0 false) ++ [.shard 0, .shard 0, .shard 0] ++
      replicate 5 (.call 1 0 false) ++ [.task 0 .suspend, .stop, .stop, .stop, .stop, .stop,
      .shard 0, .shard 0, .task 0 .makeReady, .shard 0, .shard 0, .shard 0, .task 0 .complete,
      .task 0 .release, .shard 0, .shard 0, .stop]) (by decide +kernel) fun s hreach hs => ?_
  obtain ⟨hstop, hlen, hret⟩ := hs
  exact ⟨hstop, hlen, (submitted_tasks_complete hreach).1 hstop hret⟩

/-- The thread looks at its inbox, then the task is pushed, then the thread sees `stopping` and
    `Join` finds no live routine: `Stop` and `SubmitTask` have both returned, the task lies in
    the inbox, uncompleted, and its reservation is never given back. -/
theorem submit_task_lost : ∃ s, Reachable step (init 1 1) s ∧ s.stopper = .returned ∧
      (∀ t ∈ s.submissions, t.pc = .returned) ∧ (∃ t ∈ s.submissions, t.completions = 0) ∧
      ∃ sh ∈ s.shards, sh.reservedCalls = 1 := by
  exact exists_reaches_of_exec ([.submit] ++ replicate 8 (.call 0 0 false) ++ [.shard 0,
    .shard 0] ++ replicate 2 (.call 0 0 false) ++ [.stop, .stop, .stop, .stop, .stop, .shard 0,
    .shard 0, .shard 0, .shard 0, .stop]) (by decide +kernel) fun _ _ hs => hs

end CoroRpc.Submit
