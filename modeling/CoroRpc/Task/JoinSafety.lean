import CoroRpc.Task.SemaphoreTokens

/-!
# `Join` and the counter

`CoScope::Join` promises to block until every submitted task has completed. In the baseline mode
it does, because the predicate of `cv.wait` is the counter itself. In the semaphore mode it waits
**once** and does not look at the counter again, so what it relies on is that a token can only
come from a completion that left the counter at zero *and found it still there*. The two halves
of that completion, the `fetch_sub` and the `compare_exchange`, are separate operations, and a
`Dispatch` between them breaks the connection: the counter is up again, and the exchange of the
older completion releases the newer `Join`.

So the invariant is proved of the runs in which no `Dispatch` falls into that window
(`NoStaleCompleter`), and a run through the window shows that it is real. The
baseline mode has no such window, and the condition is vacuous there.
-/

namespace CoroRpc.Task

open Lib List Option CompletePc UserPc

variable {E : Type}

/-- In semaphore mode, a `Dispatch` is taken only while no `CompleteTask` call stands between
    the `fetch_sub` that took the counter to zero and its `compare_exchange`. -/
def NoStaleCompleter (s : Scope E) (a : Label E) : Prop :=
  match s.mode, a with
  | .spinSemaphore, .dispatch => ∀ t ∈ s.tasks, t.pc ≠ .reachedZero
  | _, _ => True

instance (s : Scope E) (a : Label E) : Decidable (NoStaleCompleter s a) := by
  unfold NoStaleCompleter
  split <;> infer_instance

/-! ## The invariant -/

def undecremented (t : TaskState E) : Bool := !t.pc.decremented

/-- The one position at which a task is counted and not yet in the table. -/
def UserPc.submits : UserPc E → Nat
  | .submitting => 1
  | _ => 0

/-- The positions of `Join` that are behind a successful look at the counter. -/
def UserPc.settled : UserPc E → Bool
  | .joinIdle | .joinExchange | .joinConsume | .joinRelock | .joinRethrow | .returned _ => true
  | _ => false

structure Inv (s : Scope E) : Prop where
  /-- The counter is the number of tasks that have not executed their decrement. -/
  count : s.remaining = s.tasks.countP undecremented + s.user.submits
  settled : s.user.settled = true → s.remaining = 0
  tokens : s.tasks.countP signalling + s.tokens = owedTokens s.waitState s.user
  idle : s.user.arms = false → s.waitState = .idle
  waited : s.user = .joinIdle → s.waitState = .signaled
  signaled : s.waitState = .signaled → s.remaining = 0
  /-- What `NoStaleCompleter` pays for: a completion in the window still has the counter at 0. -/
  zero : ∀ t ∈ s.tasks, t.pc = .reachedZero → s.remaining = 0
  baseline : s.mode = .conditionVariable → ∀ t ∈ s.tasks, t.pc ≠ .reachedZero
  /-- `Join` on a joined scope returns at once, and is right to. -/
  joined : s.user = .idle → s.joined = true → s.remaining = 0
  opened : s.user = .submitting → s.joined = false

theorem inv_init (mode : NotifyMode) : Inv (Scope.init E mode) := by
  constructor <;> simp [Scope.init, submits, settled, arms, owedTokens]

/-! ## Steps of the user thread -/

theorem inv_dispatch {s s' : Scope E} (hi : Inv s) (ht : Tokens s.mode s')
    (hok : NoStaleCompleter s .dispatch) (hs : dispatch s = some s') : Inv s' := by
  unfold dispatch at hs
  split at hs
  case h_2 => cases hs
  rename_i hu
  cases hs
  have hidle : s.waitState = .idle := hi.idle (by simp [hu, arms])
  have hcount := hi.count
  simp only [hu, submits] at hcount
  have hzero : ∀ t ∈ s.tasks, t.pc ≠ .reachedZero := by
    cases hm : s.mode with
    | conditionVariable => exact hi.baseline hm
    | spinSemaphore => simpa [NoStaleCompleter, hm] using hok
  exact {
    count := by simp only [submits]; omega
    settled := by simp [settled]
    tokens := ht.owed
    idle := ht.idle.mpr
    waited := ht.waited
    signaled := by simp [hidle]
    zero := fun t ht hpc => absurd hpc (hzero t ht)
    baseline := fun _ => hzero
    joined := by simp
    opened := by simp }

/-- Inside `Join` the user thread touches neither the counter nor the table, so the facts about
    those carry over and each line of `Join` only answers for the rest. -/
theorem Inv.move {s : Scope E} (hi : Inv s) {u : UserPc E} {w : BatchWaitState} {k : Nat}
    {m : Option Holder} {e : Option E} {j : Bool}
    (ht : Tokens s.mode { s with mutex := m, tokens := k, waitState := w, firstException := e,
                                 joined := j, user := u }) (h₀ : s.user.submits = 0)
    (h₁ : u.submits = 0) (hset : u.settled = true → s.remaining = 0)
    (hsig : u.arms = true → w = .signaled → s.remaining = 0)
    (hjoin : u = .idle → j = true → s.remaining = 0) :
    Inv { s with mutex := m, tokens := k, waitState := w, firstException := e, joined := j,
                 user := u } where
  count := by rw [h₁, ← h₀]; exact hi.count
  settled := hset
  tokens := ht.owed
  idle := ht.idle.mpr
  waited := ht.waited
  signaled hw := by
    refine hsig ?_ hw
    rw [← Bool.not_eq_false]
    exact fun harms => by cases hw.symm.trans (ht.idle.mpr harms)
  zero := hi.zero
  baseline := hi.baseline
  joined := hjoin
  opened := by rintro rfl; simp [submits] at h₁

theorem Inv.move_quiet {s : Scope E} (hi : Inv s) {u : UserPc E} {m : Option Holder} {e : Option E}
    {j : Bool}
    (ht : Tokens s.mode { s with mutex := m, firstException := e, joined := j, user := u })
    (hq : s.user.quiet = true) (hu : u.quiet = true) (hset : u.settled = true → s.remaining = 0)
    (hjoin : u = .idle → j = true → s.remaining = 0) :
    Inv { s with mutex := m, firstException := e, joined := j, user := u } := by
  have hsub : ∀ {u : UserPc E}, u.quiet = true → u.submits = 0 ∧ u.arms = false := by
    intro u hu
    cases u <;> simp_all [quiet, submits, arms]
  exact hi.move ht (hsub hq).1 (hsub hu).1 hset
    (fun harms => by cases (hsub hu).2.symm.trans harms) hjoin

theorem inv_join {s s' : Scope E} (hi : Inv s) (ht : Tokens s.mode s') (hs : join s = some s') :
    Inv s' := by
  unfold join at hs
  split at hs
  case h_2 => cases hs
  rename_i hu
  split at hs <;> simp only [some.injEq] at hs <;> subst hs
  case isTrue hj =>
    exact hi.move_quiet ht (by rw [hu]; rfl) (by rfl) (fun _ => hi.joined hu hj) (by simp)
  case isFalse =>
    exact hi.move_quiet ht (by rw [hu]; rfl) (by rfl) (by simp [settled]) (by simp)

theorem inv_submitted {s : Scope E} (hi : Inv s)
    (ht : Tokens s.mode { s with tasks := s.tasks ++ [⟨.run, none⟩], user := .idle })
    (hu : s.user = .submitting) :
    Inv { s with tasks := s.tasks ++ [⟨.run, none⟩], user := .idle } := by
  have hidle : s.waitState = .idle := hi.idle (by simp [hu, arms])
  have hcount := hi.count
  simp only [hu, submits] at hcount
  have hnew : ∀ {P : TaskState E → Prop}, (∀ t ∈ s.tasks, P t) → P ⟨.run, none⟩ →
      ∀ t ∈ s.tasks ++ [⟨.run, none⟩], P t := by
    intro P h hP t ht
    rcases mem_append.mp ht with ht | ht
    · exact h t ht
    · exact (mem_singleton.mp ht) ▸ hP
  exact {
    count := by
      simp [submits, countP_append, undecremented, decremented, hcount]
    settled := by simp [settled]
    tokens := ht.owed
    idle := ht.idle.mpr
    waited := ht.waited
    signaled := by simp [hidle]
    zero := hnew hi.zero (by simp)
    baseline := fun hm => hnew (hi.baseline hm) (by simp)
    joined := by simp [hi.opened hu]
    opened := by simp }

theorem inv_stepUser {s s' : Scope E} (hi : Inv s) (ht : Tokens s.mode s')
    (hs : stepUser s = some s') : Inv s' := by
  have hquiet : ∀ {u}, s.user = u → u.quiet = true → s.user.quiet = true :=
    fun h hq => h ▸ hq
  unfold stepUser at hs
  cases hu : s.user with
  | idle => simp [hu] at hs
  | submitting =>
    simp only [hu, some.injEq] at hs
    subst hs
    exact inv_submitted hi ht hu
  | joinLock =>
    simp only [hu, ite_none_right_eq_some, some.injEq] at hs
    obtain ⟨-, rfl⟩ := hs
    refine hi.move_quiet ht (hquiet hu rfl) ?_ ?_ ?_ <;>
      cases s.mode <;> simp [quiet, settled]
  | joinUnlock =>
    simp only [hu, some.injEq] at hs
    subst hs
    exact hi.move_quiet ht (hquiet hu rfl) (by rfl) (by simp [settled]) (by simp)
  | joinArm =>
    simp only [hu, some.injEq] at hs
    subst hs
    exact hi.move ht (by simp [hu, submits]) (by rfl) (by simp [settled]) (by simp) (by simp)
  | joinLoad =>
    simp only [hu, some.injEq] at hs
    subst hs
    refine hi.move ht (by simp [hu, submits]) ?_ ?_ (fun _ => hi.signaled) ?_ <;>
      by_cases h0 : s.remaining = 0 <;> simp [h0, submits, settled]
  | joinWait =>
    -- a token means a completion exchanged `Armed` for `Signaled`, and did so at zero
    simp only [hu, ite_none_left_eq_some, some.injEq] at hs
    obtain ⟨-, rfl⟩ := hs
    exact hi.move ht (by simp [hu, submits]) (by rfl)
      (fun _ => hi.signaled (ht.waited rfl)) (fun _ => hi.signaled) (by simp)
  | joinIdle =>
    simp only [hu, some.injEq] at hs
    subst hs
    exact hi.move ht (by simp [hu, submits]) (by rfl)
      (fun _ => hi.settled (by simp [hu, settled])) (by simp) (by simp)
  | joinExchange =>
    simp only [hu, some.injEq] at hs
    subst hs
    have h0 : s.remaining = 0 := hi.settled (by simp [hu, settled])
    refine hi.move ht (by simp [hu, submits]) ?_ (fun _ => h0) (by simp) (fun _ _ => h0)
    split <;> rfl
  | joinConsume =>
    simp only [hu, ite_none_left_eq_some, some.injEq] at hs
    obtain ⟨-, rfl⟩ := hs
    exact hi.move ht (by simp [hu, submits]) (by rfl)
      (fun _ => hi.settled (by simp [hu, settled])) (by simp [arms]) (by simp)
  | joinCheck =>
    simp only [hu] at hs
    split at hs <;> simp only [some.injEq] at hs <;> subst hs
    case isTrue h0 => exact hi.move_quiet ht (hquiet hu rfl) (by rfl) (fun _ => h0) (by simp)
    case isFalse => exact hi.move_quiet ht (hquiet hu rfl) (by rfl) (by simp [settled]) (by simp)
  | joinBlocked =>
    simp only [hu, ite_none_right_eq_some, some.injEq] at hs
    obtain ⟨-, rfl⟩ := hs
    exact hi.move_quiet ht (hquiet hu rfl) (by rfl) (by simp [settled]) (by simp)
  | joinRelock =>
    simp only [hu, ite_none_right_eq_some, some.injEq] at hs
    obtain ⟨-, rfl⟩ := hs
    exact hi.move_quiet ht (hquiet hu rfl) (by rfl)
      (fun _ => hi.settled (by simp [hu, settled])) (by simp)
  | joinRethrow =>
    simp only [hu, some.injEq] at hs
    subst hs
    exact hi.move_quiet ht (hquiet hu rfl) (by rfl)
      (fun _ => hi.settled (by simp [hu, settled])) (by simp)
  | returned e =>
    simp only [hu, some.injEq] at hs
    have h0 : s.remaining = 0 := hi.settled (by simp [hu, settled])
    subst hs
    exact hi.move_quiet ht (hquiet hu rfl) (by rfl) (fun _ => h0) (fun _ _ => h0)

/-! ## Steps of a `CompleteTask` call -/

section
variable {s s' : Scope E} {i : Nat} {t t' : TaskState E}

theorem Inv.moveTask (hi : Inv s) {m : Option Holder} {e : Option E} {k : Nat}
    (htok : Tokens s.mode { s with mutex := m, firstException := e, tokens := k,
                                   tasks := s.tasks.set i t' }) (ht : s.tasks[i]? = some t)
    (hu : undecremented t' = undecremented t) (hz : t'.pc ≠ .reachedZero) :
    Inv { s with mutex := m, firstException := e, tokens := k, tasks := s.tasks.set i t' } where
  count := by
    have h := countP_set_add undecremented t' ht
    rw [hu] at h
    rw [Nat.add_right_cancel h]
    exact hi.count
  settled := hi.settled
  tokens := htok.owed
  idle := hi.idle
  waited := hi.waited
  signaled := hi.signaled
  zero := forall_mem_set hi.zero (fun h => absurd h hz)
  baseline := fun hm => forall_mem_set (hi.baseline hm) hz
  joined := hi.joined
  opened := hi.opened

/-- The `fetch_sub`. Before it the counter is positive, so no settled position, no signal and no
    other completion in the window is around to be invalidated. -/
theorem Inv.decrement (hi : Inv s)
    (htok : Tokens s.mode { s with remaining := s.remaining - 1, tasks := s.tasks.set i t' })
    (ht : s.tasks[i]? = some t) (hu : undecremented t = true) (hu' : undecremented t' = false)
    (hz : t'.pc = .reachedZero → s.remaining = 1 ∧ s.mode = .spinSemaphore) :
    Inv { s with remaining := s.remaining - 1, tasks := s.tasks.set i t' } := by
  have hcount := hi.count
  have hpos := countP_pos_of_getElem? ht hu
  have hne : s.remaining ≠ 0 := by omega
  have hset := countP_set_add undecremented t' ht
  simp only [hu, hu', Bool.toNat_true, Bool.toNat_false, Nat.add_zero] at hset
  exact {
    count := by simp only; omega
    settled := fun h => absurd (hi.settled h) hne
    tokens := htok.owed
    idle := hi.idle
    waited := hi.waited
    signaled := fun h => absurd (hi.signaled h) hne
    zero := forall_mem_set (fun x hx h => absurd (hi.zero x hx h) hne)
      (fun h => by simp only [(hz h).1])
    baseline := fun hm => forall_mem_set (hi.baseline hm) (fun h => by cases (hz h).2.symm.trans hm)
    joined := fun h hj => absurd (hi.joined h hj) hne
    opened := hi.opened }

/-- The successful `compare_exchange`: from here on a token is owed. -/
theorem Inv.exchange (hi : Inv s)
    (htok : Tokens s.mode { s with waitState := .signaled,
                                   tasks := s.tasks.set i { t with pc := .signal } })
    (ht : s.tasks[i]? = some t) (hpc : t.pc = .reachedZero) :
    Inv { s with waitState := .signaled, tasks := s.tasks.set i { t with pc := .signal } } := by
  have h0 : s.remaining = 0 := hi.zero t (mem_of_getElem? ht) hpc
  have hset := countP_set_add undecremented { t with pc := .signal } ht
  simp only [undecremented, hpc, decremented] at hset
  exact {
    count := by rw [Nat.add_right_cancel hset]; exact hi.count
    settled := hi.settled
    tokens := htok.owed
    idle := htok.idle.mpr
    waited := htok.waited
    signaled := fun _ => h0
    zero := forall_mem_set hi.zero (by simp)
    baseline := fun hm => forall_mem_set (hi.baseline hm) (by simp)
    joined := hi.joined
    opened := hi.opened }

theorem inv_completeTask {outcome : Option E} (hi : Inv s) (htok : Tokens s.mode s')
    (ht : s.tasks[i]? = some t) (hs : completeTask s i t outcome = some s') : Inv s' := by
  unfold completeTask at hs
  cases hpc : t.pc with
  | run =>
    simp only [hpc, some.injEq] at hs
    subst hs
    refine hi.moveTask htok ht ?_ ?_ <;>
      cases outcome <;> simp [undecremented, hpc, decremented]
  | recordException =>
    simp only [hpc, ite_none_right_eq_some, some.injEq] at hs
    obtain ⟨-, rfl⟩ := hs
    refine hi.moveTask htok ht ?_ ?_ <;> simp [undecremented, hpc, decremented]
  | complete =>
    simp only [hpc] at hs
    split at hs
    case h_1 hm =>
      cases hs
      refine hi.decrement htok ht ?_ ?_ ?_ <;> by_cases h1 : s.remaining = 1 <;>
        simp_all [undecremented, decremented]
    case h_2 =>
      simp only [ite_none_right_eq_some, some.injEq] at hs
      obtain ⟨-, rfl⟩ := hs
      refine hi.moveTask htok ht ?_ ?_ <;> simp [undecremented, hpc, decremented]
  | reachedZero =>
    simp only [hpc] at hs
    split at hs <;> simp only [some.injEq] at hs <;> subst hs
    case isTrue => exact hi.exchange htok ht hpc
    case isFalse =>
      refine hi.moveTask htok ht ?_ ?_ <;> simp [undecremented, hpc, decremented]
  | locked =>
    simp only [hpc, some.injEq] at hs
    subst hs
    refine hi.decrement htok ht ?_ ?_ ?_ <;> by_cases h1 : s.remaining = 1 <;>
      simp_all [undecremented, decremented]
  | signal | notify | unlock =>
    simp only [hpc, some.injEq] at hs
    subst hs
    refine hi.moveTask htok ht ?_ ?_ <;> simp [undecremented, hpc, decremented]
  | done => simp [hpc] at hs

end

/-! ## Runs -/

theorem inv_step {s s' : Scope E} {a : Label E} (hi : Inv s) (ht : Tokens s.mode s')
    (hok : NoStaleCompleter s a) (hs : step s a = some s') : Inv s' := by
  cases a with
  | dispatch => exact inv_dispatch hi ht hok hs
  | join => exact inv_join hi ht hs
  | user => exact inv_stepUser hi ht hs
  | task i outcome =>
    simp only [step] at hs
    split at hs
    · cases hs
    · exact inv_completeTask hi ht ‹_› hs

/-- **`Join` does not return early**: where it returns, the counter is 0 and every task
    dispatched so far has executed its decrement. For any number of batches, in both modes, and
    for every interleaving in which no `Dispatch` overtakes the exchange of an older
    completion. -/
theorem join_returns_after_decrements {mode : NotifyMode} {s : Scope E} {thrown : Option E}
    (h : Reaches step NoStaleCompleter (Scope.init E mode) s) (hr : s.user = .returned thrown) :
    s.remaining = 0 ∧ ∀ t ∈ s.tasks, t.pc.decremented = true := by
  obtain ⟨hi, -⟩ := h.invariant (p := fun s => Inv s ∧ Tokens mode s)
    ⟨inv_init mode, tokens_init mode⟩ fun s _ s' hp hok hs => by
      have ht := tokens_step hp.2 hs
      exact ⟨inv_step hp.1 (hp.2.same ▸ ht) hok hs, ht⟩
  have h0 : s.remaining = 0 := hi.settled (by simp [hr, settled])
  refine ⟨h0, fun t ht => ?_⟩
  have hnone : s.tasks.countP undecremented = 0 := by have := hi.count; omega
  simpa [undecremented] using countP_eq_zero.mp hnone t ht

/-- Two batches, of one task and of two, the second released through the semaphore. -/
theorem join_returns_after_decrements_two_batches :
    ∃ s : Scope Unit, Reaches step NoStaleCompleter (Scope.init Unit .spinSemaphore) s ∧
      s.user = .returned (some ()) ∧ s.remaining = 0 ∧
      ∀ t ∈ s.tasks, t.pc.decremented = true := by
  refine exists_reaches_of_exec (p := fun s => s.user = .returned (some ()))
    [.dispatch, .user, .task 0 none, .task 0 none, .task 0 none, .dispatch, .user, .dispatch, .user,
      .join, .user, .user, .user, .user, .task 1 (some ()), .task 1 none, .task 1 none,
      .task 2 none, .task 2 none, .task 2 none, .task 2 none, .user, .user, .user, .user]
    (by decide +kernel) fun s hreach hr => ?_
  exact ⟨hr, join_returns_after_decrements hreach hr⟩

/-- The window: the first task takes the counter to zero, the second is dispatched and `Join`
    arms its wait, and only then does the first completion exchange `Armed` for `Signaled`. Its
    token releases a `Join` whose own task has not run. -/
theorem join_returns_early : ∃ s : Scope Unit, Reachable step (Scope.init Unit .spinSemaphore) s ∧
      s.user = .returned none ∧ s.remaining = 1 ∧
      ∃ t ∈ s.tasks, t.pc.decremented = false := by
  exact exists_reaches_of_exec [.dispatch, .user, .task 0 none, .task 0 none, .dispatch, .user,
    .join, .user, .user, .user, .user, .task 0 none, .task 0 none, .user, .user, .user, .user]
    (by decide +kernel) fun _ _ hs => hs

end CoroRpc.Task
