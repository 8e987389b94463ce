import CoroRpc.Lib.Table
import CoroRpc.Task.CoScope

/-!
# The tokens of the semaphore

In the semaphore mode `Join` arms its wait and then looks at the counter, and the completion that
takes the counter to zero exchanges `Armed` for `Signaled` and posts a token. Whoever makes the
exchange, an old completion or a new one, owes one token to the `Join` that has armed its wait, and
nobody can exchange again before that `Join` has reset the state. So tokens are neither lost nor left
over, in any interleaving: also in those in which `Join` is released too early (`JoinSafety`).
-/

namespace CoroRpc.Task

open Lib List Option UserPc

variable {E : Type}

def signalling (t : TaskState E) : Bool := t.pc == .signal

/-- The positions between the store of `Armed` and the next store of `Idle`. -/
def UserPc.arms : UserPc E → Bool
  | .joinLoad | .joinWait | .joinExchange | .joinIdle => true
  | _ => false

/-- How many tokens are posted or about to be posted: one from the moment the exchange to
    `Signaled` succeeds until `Join` takes the token. -/
def owedTokens : BatchWaitState → UserPc E → Nat
  | .signaled, .joinIdle => 0
  | .signaled, _ => 1
  | _, .joinConsume => 1
  | _, _ => 0

/-- The positions at which no wait is armed, no token owed and no task counted in advance. -/
def UserPc.quiet : UserPc E → Bool
  | .idle | .joinLock | .joinUnlock | .joinArm | .joinCheck | .joinBlocked | .joinRelock
  | .joinRethrow | .returned _ => true
  | _ => false

theorem owedTokens_of_quiet {u : UserPc E} (h : u.quiet = true) :
    owedTokens .idle u = 0 ∧ u.arms = false ∧ u ≠ .joinIdle := by
  cases u <;> simp_all [quiet, owedTokens, arms]

structure Tokens (mode : NotifyMode) (s : Scope E) : Prop where
  same : s.mode = mode
  owed : s.tasks.countP signalling + s.tokens = owedTokens s.waitState s.user
  idle : s.waitState = .idle ↔ s.user.arms = false
  waited : s.user = .joinIdle → s.waitState = .signaled
  /-- A `Join` that has found the counter up is released by whoever takes it to zero. -/
  woken : mode = .spinSemaphore → s.user = .joinWait → s.waitState = .armed → s.remaining = 0 →
    ∃ t ∈ s.tasks, t.pc = .reachedZero
  unlocked : mode = .spinSemaphore → ∀ t ∈ s.tasks, t.pc ≠ .locked

theorem tokens_init (mode : NotifyMode) : Tokens mode (Scope.init E mode) := by
  constructor <;> simp [Scope.init, arms, owedTokens]

/-! ## The user thread -/

section
variable {mode : NotifyMode} {s s' : Scope E} (h : Tokens mode s)
include h

theorem Tokens.move {u : UserPc E} {w : BatchWaitState} {k : Nat} {m : Option Holder} {e : Option E}
    {j : Bool} (howed : s.tasks.countP signalling + k = owedTokens w u)
    (hidle : w = .idle ↔ u.arms = false) (hwaited : u = .joinIdle → w = .signaled)
    (hwoken : u = .joinWait → w = .armed → s.remaining ≠ 0) :
    Tokens mode { s with mutex := m, tokens := k, waitState := w, firstException := e, joined := j,
                         user := u } where
  same := h.same
  owed := howed
  idle := hidle
  waited := hwaited
  woken _ hu hw h0 := absurd h0 (hwoken hu hw)
  unlocked := h.unlocked

/-- Between two positions at which no wait is armed and no token owed. -/
theorem Tokens.moveQuiet {u : UserPc E} {m : Option Holder} {e : Option E} {j : Bool}
    (hq : s.user.quiet = true) (hu : u.quiet = true) :
    Tokens mode { s with mutex := m, firstException := e, joined := j, user := u } := by
  obtain ⟨howed, harms, -⟩ := owedTokens_of_quiet hq
  obtain ⟨howed', harms', hne⟩ := owedTokens_of_quiet hu
  have hw : s.waitState = .idle := h.idle.mpr harms
  have htok := h.owed
  rw [hw, howed] at htok
  refine h.move ?_ ?_ (fun hu => absurd hu hne) (fun _ harmed => ?_)
  · rw [hw, howed']
    exact htok
  · exact iff_of_true hw harms'
  · rw [hw] at harmed
    cases harmed

theorem tokens_dispatch (hs : dispatch s = some s') : Tokens mode s' := by
  unfold dispatch at hs
  split at hs
  · next hu =>
    have hw : s.waitState = .idle := h.idle.mpr (by rw [hu]; rfl)
    have htok := h.owed
    rw [hu, hw] at htok
    cases hs
    exact ⟨h.same, by rw [hw]; exact htok, iff_of_true hw rfl, by simp, by simp, h.unlocked⟩
  · cases hs

theorem tokens_join (hs : join s = some s') : Tokens mode s' := by
  unfold join at hs
  split at hs
  · next hu =>
    split at hs <;> cases hs
    · exact h.moveQuiet (by rw [hu]; rfl) rfl
    · exact h.moveQuiet (by rw [hu]; rfl) rfl
  · cases hs

theorem tokens_stepUser (hs : stepUser s = some s') : Tokens mode s' := by
  have htok := h.owed
  have hidle := h.idle
  have hquiet : ∀ {u}, s.user = u → u.quiet = true → s.user.quiet = true :=
    fun h hq => h ▸ hq
  unfold stepUser at hs
  cases hu : s.user with
  | idle => simp [hu] at hs
  | submitting =>
    simp only [hu, some.injEq] at hs
    have hw : s.waitState = .idle := hidle.mpr (by rw [hu]; rfl)
    rw [hu, hw] at htok
    subst hs
    refine ⟨h.same, ?_, iff_of_true hw rfl, by simp, by simp, fun hm => ?_⟩
    · rw [hw, countP_append]
      exact htok
    · simpa [or_imp, forall_and] using h.unlocked hm
  | joinLock =>
    simp only [hu, ite_none_right_eq_some, some.injEq] at hs
    obtain ⟨-, rfl⟩ := hs
    refine h.moveQuiet (hquiet hu rfl) ?_
    split <;> rfl
  | joinUnlock | joinRethrow | returned _ =>
    simp only [hu, some.injEq] at hs
    subst hs
    exact h.moveQuiet (hquiet hu rfl) rfl
  | joinArm =>
    simp only [hu, some.injEq] at hs
    rw [hu, hidle.mpr (by rw [hu]; rfl)] at htok
    subst hs
    exact h.move htok (by simp [arms]) (by simp) (by simp)
  | joinLoad =>
    simp only [hu, some.injEq] at hs
    rw [hu] at htok hidle
    subst hs
    split
    · refine h.move ?_ hidle (by simp) (by simp)
      cases hw : s.waitState <;> simpa [hw, owedTokens] using htok
    · next hne =>
      refine h.move ?_ hidle (by simp) (fun _ _ => hne)
      cases hw : s.waitState <;> simpa [hw, owedTokens] using htok
  | joinWait =>
    simp only [hu, ite_none_left_eq_some, some.injEq] at hs
    obtain ⟨hpos, rfl⟩ := hs
    have hw : s.waitState = .signaled := by
      cases hw : s.waitState with
      | signaled => rfl
      | _ => simp only [hu, hw, owedTokens] at htok; omega
    simp only [hu, hw, owedTokens] at htok
    refine h.move ?_ (by simp [hw, arms]) (fun _ => hw) (by simp)
    simp only [hw, owedTokens]
    omega
  | joinIdle =>
    simp only [hu, some.injEq] at hs
    rw [hu, h.waited hu] at htok
    subst hs
    exact h.move htok (by simp [arms]) (by simp) (by simp)
  | joinExchange =>
    simp only [hu, some.injEq] at hs
    rw [hu] at htok hidle
    subst hs
    split
    · next hw =>
      rw [hw] at htok
      exact h.move htok (by simp [arms]) (by simp) (by simp)
    · refine h.move ?_ (by simp [arms]) (by simp) (by simp)
      cases hw : s.waitState <;> simp_all [owedTokens]
  | joinConsume =>
    simp only [hu, ite_none_left_eq_some, some.injEq] at hs
    obtain ⟨hpos, rfl⟩ := hs
    have hw : s.waitState = .idle := hidle.mpr (by rw [hu]; rfl)
    simp only [hu, hw, owedTokens] at htok
    refine h.move ?_ (iff_of_true hw rfl) (by simp) (by simp)
    simp only [hw, owedTokens]
    omega
  | joinCheck =>
    simp only [hu] at hs
    split at hs <;> cases hs
    · exact h.moveQuiet (hquiet hu rfl) rfl
    · exact h.moveQuiet (hquiet hu rfl) rfl
  | joinBlocked | joinRelock =>
    simp only [hu, ite_none_right_eq_some, some.injEq] at hs
    obtain ⟨-, rfl⟩ := hs
    exact h.moveQuiet (hquiet hu rfl) rfl

end

/-! ## A `CompleteTask` call -/

section
variable {mode : NotifyMode} {s s' : Scope E} {i : Nat} {t t' : TaskState E} (h : Tokens mode s)
  (ht : s.tasks[i]? = some t)
include h ht

/-- A step that neither exchanges nor posts. The last clause is for the one that takes the counter
    to zero. -/
theorem Tokens.moveTask {m : Option Holder} {e : Option E} {n : Nat} (hold : signalling t = false)
    (hnew : signalling t' = false) (hl : mode = .spinSemaphore → t'.pc ≠ .locked)
    (hn : mode = .spinSemaphore → s.waitState = .armed → n = 0 → t'.pc = .reachedZero ∨
      s.remaining = 0 ∧ t.pc ≠ .reachedZero) :
    Tokens mode { s with remaining := n, mutex := m, firstException := e,
                         tasks := s.tasks.set i t' } where
  __ := h
  owed := by
    have hset := countP_set_add signalling t' ht
    rw [hold, hnew] at hset
    rw [Nat.add_right_cancel hset]
    exact h.owed
  woken hm hu hw h0 := by
    have hi : i < s.tasks.length := (List.getElem?_eq_some_iff.mp ht).1
    rcases hn hm hw h0 with hz | ⟨hr, hne⟩
    · exact ⟨t', List.mem_set hi t', hz⟩
    · obtain ⟨y, hy, hz⟩ := h.woken hm hu hw hr
      obtain ⟨j, hj⟩ := mem_iff_getElem?.mp hy
      have hij : i ≠ j := by
        rintro rfl
        rw [some.inj (ht.symm.trans hj)] at hne
        exact hne hz
      exact ⟨y, mem_of_getElem? ((getElem?_set_ne hij).trans hj), hz⟩
  unlocked hm := forall_mem_set (h.unlocked hm) (hl hm)

theorem Tokens.exchange (hpc : t.pc = .reachedZero) (hw : s.waitState = .armed) :
    Tokens mode { s with waitState := .signaled, tasks := s.tasks.set i { t with pc := .signal } }
      where
  same := h.same
  owed := by
    have hset := countP_set_add signalling { t with pc := .signal } ht
    have htok := h.owed
    have harms : s.user.arms = true := by
      rw [← Bool.not_eq_false, ← h.idle, hw]
      simp
    -- the token of a `Join` at `joinIdle` has been posted and taken before
    have hwait : s.user ≠ .joinIdle := fun hu => by simp [h.waited hu] at hw
    have hone : owedTokens .signaled s.user = owedTokens .armed s.user + 1 := by
      cases hu : s.user <;> simp_all [owedTokens, arms]
    rw [hw] at htok
    simp only [signalling, hpc, beq_self_eq_true, Bool.toNat_true] at hset
    simp only [hone]
    have hold : (CompletePc.reachedZero == CompletePc.signal).toNat = 0 := rfl
    omega
  idle := by
    refine iff_of_false (by simp) fun harms => ?_
    rw [h.idle.mpr harms] at hw
    cases hw
  waited _ := rfl
  woken _ _ harmed := by cases harmed
  unlocked hm := forall_mem_set (h.unlocked hm) (by simp)

theorem Tokens.post (hpc : t.pc = .signal) :
    Tokens mode { s with tokens := s.tokens + 1, tasks := s.tasks.set i { t with pc := .done } }
      where
  __ := h
  owed := by
    have hset := countP_set_add signalling { t with pc := .done } ht
    have htok := h.owed
    have hold : signalling t = true := by rw [signalling, hpc]; rfl
    have hnew : signalling { t with pc := .done } = false := rfl
    rw [hold, hnew, Bool.toNat_true, Bool.toNat_false] at hset
    dsimp only
    omega
  woken _ hu hw _ := by
    -- the token is on its way, so the wait is not armed any more
    have hpos := countP_pos_of_getElem? ht (show signalling t = true by rw [signalling, hpc]; rfl)
    have htok := h.owed
    have hnone : owedTokens s.waitState s.user = 0 := by
      rw [show s.user = .joinWait from hu, show s.waitState = .armed from hw]
      rfl
    omega
  unlocked hm := forall_mem_set (h.unlocked hm) (by simp)

theorem tokens_completeTask {outcome : Option E} (hs : completeTask s i t outcome = some s') :
    Tokens mode s' := by
  have hsame : t.pc ≠ .reachedZero → ∀ {t' : TaskState E}, mode = .spinSemaphore →
      s.waitState = .armed → s.remaining = 0 → t'.pc = .reachedZero ∨
        s.remaining = 0 ∧ t.pc ≠ .reachedZero := fun hpc _ _ _ h0 => .inr ⟨h0, hpc⟩
  unfold completeTask at hs
  cases hpc : t.pc with
  | run =>
    simp only [hpc, some.injEq] at hs
    subst hs
    refine h.moveTask ht ?_ ?_ ?_ (hsame (by simp [hpc])) <;>
      cases outcome <;> simp [signalling, hpc]
  | recordException =>
    simp only [hpc, ite_none_right_eq_some, some.injEq] at hs
    obtain ⟨-, rfl⟩ := hs
    refine h.moveTask ht ?_ ?_ ?_ (hsame (by simp [hpc])) <;> simp [signalling, hpc]
  | complete =>
    simp only [hpc] at hs
    split at hs
    · cases hs
      refine h.moveTask ht ?_ ?_ ?_ fun _ _ h0 => ?_
      · simp [signalling, hpc]
      · split <;> rfl
      · split <;> simp
      · by_cases h1 : s.remaining = 1
        · exact .inl (if_pos h1)
        · exact .inr ⟨by omega, by simp [hpc]⟩
    · next hm =>
      simp only [ite_none_right_eq_some, some.injEq] at hs
      obtain ⟨-, rfl⟩ := hs
      refine h.moveTask ht ?_ ?_ (fun hm' => ?_) (hsame (by simp [hpc]))
      · simp [signalling, hpc]
      · rfl
      · cases hm'.symm.trans (h.same.symm.trans hm)
  | reachedZero =>
    simp only [hpc] at hs
    split at hs <;> simp only [some.injEq] at hs <;> subst hs
    case isTrue hw => exact h.exchange ht hpc hw
    case isFalse hw =>
      refine h.moveTask ht ?_ ?_ ?_ (fun _ harmed => absurd harmed hw) <;> simp [signalling, hpc]
  | signal =>
    simp only [hpc, some.injEq] at hs
    subst hs
    exact h.post ht hpc
  | locked =>
    simp only [hpc, some.injEq] at hs
    subst hs
    refine h.moveTask ht ?_ ?_ ?_ fun hm => ?_
    · simp [signalling, hpc]
    · split <;> rfl
    · split <;> simp
    · exact absurd hpc (h.unlocked hm t (mem_of_getElem? ht))
  | notify | unlock =>
    simp only [hpc, some.injEq] at hs
    subst hs
    refine h.moveTask ht ?_ ?_ ?_ (hsame (by simp [hpc])) <;> simp [signalling, hpc]
  | done => simp [hpc] at hs

end

/-! ## Runs -/

theorem tokens_step {mode : NotifyMode} {s s' : Scope E} {a : Label E} (h : Tokens mode s)
    (hs : step s a = some s') :
    Tokens mode s' := by
  cases a with
  | dispatch => exact tokens_dispatch h hs
  | join => exact tokens_join h hs
  | user => exact tokens_stepUser h hs
  | task i outcome =>
    simp only [step] at hs
    split at hs
    · cases hs
    · next t ht => exact tokens_completeTask h ht hs

/-- **Tokens neither leak nor get lost**, in every interleaving and over any number of batches. At
    most one is posted or about to be, and only while `wait_state` is `Signaled` or its `Signaled` has
    just been reset by a `Join` that is about to take the token; when `Join` returns there is none and
    the state is `Idle`; and no `Join` waits for a token that nobody is going to post, once the
    counter is zero. -/
theorem semaphore_tokens_balanced {s : Scope E}
    (h : Reachable step (Scope.init E .spinSemaphore) s) :
    s.tasks.countP signalling + s.tokens ≤ 1 ∧
    (0 < s.tasks.countP signalling + s.tokens → s.waitState = .signaled ∨ s.user = .joinConsume) ∧
    (∀ thrown, s.user = .returned thrown →
      s.tokens = 0 ∧ s.tasks.countP signalling = 0 ∧ s.waitState = .idle) ∧
    ¬ ((s.user = .joinWait ∨ s.user = .joinConsume) ∧ s.remaining = 0 ∧
      (∀ t ∈ s.tasks, t.pc ≠ .reachedZero ∧ t.pc ≠ .signal) ∧ s.tokens = 0) := by
  have hi : Tokens .spinSemaphore s :=
    h.invariant (tokens_init _) fun _ _ _ hi _ hs => tokens_step hi hs
  have hidle := hi.idle
  rw [hi.owed]
  refine ⟨?_, fun hpos => ?_, fun thrown hr => ?_, ?_⟩
  · unfold owedTokens
    split <;> omega
  · unfold owedTokens at hpos
    split at hpos
    · exact .inl ‹_›
    · exact .inl ‹_›
    · exact .inr ‹_›
    · omega
  · have hw : s.waitState = .idle := hidle.mpr (by rw [hr]; rfl)
    have htok : s.tasks.countP signalling + s.tokens = 0 := by
      rw [hi.owed, hw, hr]
      rfl
    exact ⟨by omega, by omega, hw⟩
  · rintro ⟨hu, h0, hnone, hzero⟩
    have hsignalling : s.tasks.countP signalling = 0 := by
      refine countP_eq_zero.mpr fun t ht hsig => (hnone t ht).2 ?_
      simpa [signalling] using hsig
    have htok := hi.owed
    rw [hsignalling, hzero] at htok
    rcases hu with hu | hu
    · cases hw : s.waitState with
      | idle =>
        rw [hu] at hidle
        exact absurd (hidle.mp hw) (by simp [arms])
      | armed =>
        obtain ⟨t, ht, hpc⟩ := hi.woken rfl hu hw h0
        exact (hnone t ht).1 hpc
      | signaled => simp [hu, hw, owedTokens] at htok
    · have hw : s.waitState = .idle := hidle.mpr (by rw [hu]; rfl)
      simp [hu, hw, owedTokens] at htok

/-- A batch of one task whose completion comes after the counter check: the `Join` that waited for it
    has returned. -/
theorem tokens_balanced_after_batch :
    ∃ s : Scope Unit, Reachable step (Scope.init Unit .spinSemaphore) s ∧ s.user = .returned none ∧
      s.tokens = 0 ∧ s.tasks.countP signalling = 0 ∧ s.waitState = .idle := by
  refine exists_reaches_of_exec (p := fun s => s.user = .returned none)
    [.dispatch, .user, .join, .user, .user, .user, .user, .task 0 none, .task 0 none, .task 0 none,
      .task 0 none, .user, .user, .user, .user] (by decide +kernel) fun s hreach hreturned => ?_
  exact ⟨hreturned, (semaphore_tokens_balanced hreach).2.2.1 none hreturned⟩

/-- A completion that comes between the `remaining.load()` of `Join` and its exchange: the token is
    still there when `wait_state` is `Idle` again. -/
theorem token_after_reset :
    ∃ s : Scope Unit, Reachable step (Scope.init Unit .spinSemaphore) s ∧ s.tokens = 1 ∧
      s.waitState = .idle ∧ s.user = .joinConsume := by
  exact exists_reaches_of_exec [.dispatch, .user, .join, .user, .user, .user, .task 0 none,
    .task 0 none, .user, .task 0 none, .task 0 none, .user] (by decide +kernel) fun _ _ hs => hs

end CoroRpc.Task
