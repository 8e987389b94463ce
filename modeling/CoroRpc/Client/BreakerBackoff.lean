import CoroRpc.Client.BreakerProbes

/-!
# How long an open breaker denies

`Open` doubles the interval with every opening since the last close, sixteen times at most, and cuts
it at `max_open_interval_ms`. The doubling is a left shift of a 64-bit number before the cut, and
the sum with the clock is not saturated, so both can lose their upper bits: an interval whose
shift is zero denies nothing. `ValidateOptions` bounds neither.

A run is any sequence of `Allow` and `Record` calls, with any permits and times; the openings since
the last close are kept beside the breaker. One inversion (`Move`) describes what an operation does
to the state, to `reopen_at_ms` and to `consecutive_opens`.
-/

namespace CoroRpc.Client

open Lib List Breaker Control

inductive BreakerOp where
  | allow (nowMs : Nat)
  | record (permit : Nat) (result : CallOutcome) (nowMs : Nat)

/-- When the breaker opened, and until when it denies. -/
structure Opening where
  nowMs : Nat
  reopenAtMs : Nat
  deriving DecidableEq

structure Backoff where
  breaker : Breaker := {}
  /-- The openings since the breaker was last closed, in order. -/
  openings : List Opening := []
  /-- The permits that `Allow` has returned, other than `kDeniedPermit`. -/
  granted : List Nat := []
  deriving DecidableEq

/-- The interval of the `k`-th consecutive opening. -/
def openInterval (options : CircuitBreakerOptions) (k : Nat) : Nat :=
  min (options.openIntervalMs * 2 ^ min k 16) options.maxOpenIntervalMs

namespace Backoff

def moveTo (s : Backoff) (breaker : Breaker) (nowMs : Nat) : Backoff :=
  let was := state s.breaker.control
  let state := state breaker.control
  { s with
    breaker := breaker
    openings :=
      if state = kOpen ∧ was ≠ kOpen then s.openings ++ [⟨nowMs, breaker.reopenAtMs⟩]
      else if state = kClosed ∧ was ≠ kClosed then []
      else s.openings }

def step (options : RpcClientOptions) (s : Backoff) : BreakerOp → Option Backoff
  | .allow nowMs =>
    match s.breaker.allow options nowMs with
    | none => none
    | some (breaker, permit) =>
      if permit = kDeniedPermit then some (s.moveTo breaker nowMs)
      else some { s.moveTo breaker nowMs with granted := s.granted ++ [permit] }
  | .record permit result nowMs =>
    some (s.moveTo (s.breaker.record options permit result nowMs) nowMs)

/-- `Record` may come at this clock: were it to open the breaker once more, the shift, the sum with
    the clock and the count of openings would lose no bits. `Allow` may always come. -/
def Fits (options : RpcClientOptions) (s : Backoff) : BreakerOp → Prop
  | .allow _ => True
  | .record _ _ nowMs =>
    options.circuitBreaker.openIntervalMs * 2 ^ min s.openings.length 16 < 2 ^ 64 ∧
      nowMs + options.circuitBreaker.maxOpenIntervalMs < 2 ^ 64 ∧ s.openings.length + 1 < 2 ^ 64

instance (options : RpcClientOptions) (s : Backoff) : ∀ op, Decidable (s.Fits options op)
  | .allow _ => .isTrue trivial
  | .record .. => inferInstanceAs (Decidable (_ ∧ _))

def Granted (s : Backoff) : BreakerOp → Prop
  | .allow _ => True
  | .record permit _ _ => permit ∈ s.granted

instance (s : Backoff) : ∀ op, Decidable (s.Granted op)
  | .allow _ => .isTrue trivial
  | .record .. => inferInstanceAs (Decidable (_ ∈ _))

end Backoff

/-! ## What an operation does -/

/-- What an operation at time `nowMs` can make of a breaker, as far as its openings go. -/
inductive Move (options : RpcClientOptions) (nowMs : Nat) (breaker breaker' : Breaker) : Prop
  /-- The breaker does not open and does not close. -/
  | stays (state : state breaker'.control = state breaker.control ∨
        state breaker'.control = kHalfOpen)
      (reopen : breaker'.reopenAtMs = breaker.reopenAtMs)
      (count : breaker'.consecutiveOpens = breaker.consecutiveOpens)
  | opens (was : state breaker.control ≠ kOpen)
      (state : state breaker'.control = kOpen)
      (reopen : breaker'.reopenAtMs = (nowMs + min ((options.circuitBreaker.openIntervalMs <<<
        min breaker.consecutiveOpens 16) % 2 ^ 64) options.circuitBreaker.maxOpenIntervalMs) %
          2 ^ 64)
      (count : breaker'.consecutiveOpens = (breaker.consecutiveOpens + 1) % 2 ^ 64)
  | closes (was : state breaker.control = kHalfOpen)
      (state : state breaker'.control = kClosed) (count : breaker'.consecutiveOpens = 0)

namespace Breaker

variable {options : RpcClientOptions} {breaker breaker' : Breaker} {permit nowMs : Nat}
  {result : CallOutcome}

theorem state_of_allow (h : breaker.allow options nowMs = some (breaker', permit)) :
    state breaker'.control = state breaker.control ∨ state breaker'.control = kHalfOpen := by
  rcases allow_cases h with ⟨-, rfl⟩ | ⟨-, -, rfl⟩ | ⟨-, rfl, hpermit⟩ | ⟨-, -, -, -, rfl, hpermit⟩
  · exact .inl rfl
  · exact .inl rfl
  · rw [hpermit]
    exact .inr (state_make (by decide))
  · rw [hpermit]
    exact .inr (state_make (by decide))

theorem allow_move (h : breaker.allow options nowMs = some (breaker', permit)) :
    Move options nowMs breaker breaker' := by
  have hstate := state_of_allow h
  rcases allow_cases h with ⟨-, rfl⟩ | ⟨-, -, rfl⟩ | ⟨-, rfl, -⟩ | ⟨-, -, -, -, rfl, -⟩ <;>
    exact .stays hstate rfl rfl

@[simp] theorem reopenAtMs_noteOverload :
    (breaker.noteOverload options result nowMs).reopenAtMs = breaker.reopenAtMs := by
  unfold noteOverload
  split <;> rfl

@[simp] theorem consecutiveOpens_noteOverload :
    (breaker.noteOverload options result nowMs).consecutiveOpens = breaker.consecutiveOpens := by
  unfold noteOverload
  split <;> rfl

/-- `Open`, called with a word whose state is not `kOpen`. -/
theorem open_move {expected : Nat} (hexpected : state expected ≠ kOpen) :
    Move options nowMs breaker (breaker.open options expected nowMs) := by
  by_cases hsame : state breaker.control = state expected ∧
      generation breaker.control = generation expected
  · refine .opens (hsame.1 ▸ hexpected) ?_ ?_ ?_
    · rw [control_open hsame.1 hsame.2]
      exact state_make (by decide)
    · unfold «open»
      rw [if_pos hsame]
    · unfold «open»
      rw [if_pos hsame]
  · rw [open_other hsame]
    exact .stays (.inl rfl) rfl rfl

theorem recordProbe_move :
    Move options nowMs breaker (breaker.recordProbe options permit result) := by
  unfold recordProbe
  split
  · rename_i hhalf
    dsimp only
    split
    · exact .closes hhalf.1 (state_make (by decide)) rfl
    · exact .stays (.inr (state_make (by decide))) rfl rfl
  · exact .stays (.inl rfl) rfl rfl

theorem recordWindow_move (hclosed : state breaker.control = kClosed) :
    Move options nowMs breaker (breaker.recordWindow options result nowMs) := by
  have hexpected : state breaker.control ≠ kOpen := by
    rw [hclosed]
    decide
  unfold recordWindow
  dsimp only
  split
  · -- the window has been counted before `Open` is called; a move does not look at it
    rcases open_move hexpected with ⟨state, reopen, count⟩ | ⟨was, state, reopen, count⟩ |
      ⟨was, state, count⟩
    · exact .stays state reopen count
    · exact .opens was state reopen count
    · exact .closes was state count
  · exact .stays (.inl rfl) rfl rfl

end Breaker

/-- A move does not look at the overload that `Record` notes first. -/
theorem Move.of_noteOverload {options : RpcClientOptions} {nowMs : Nat} {breaker breaker' : Breaker}
    {result : CallOutcome}
    (h : Move options nowMs (breaker.noteOverload options result nowMs) breaker') :
    Move options nowMs breaker breaker' := by
  cases h with
  | stays state reopen count =>
    rw [control_noteOverload] at state
    rw [reopenAtMs_noteOverload] at reopen
    rw [consecutiveOpens_noteOverload] at count
    exact .stays state reopen count
  | opens was state reopen count =>
    rw [control_noteOverload] at was
    rw [consecutiveOpens_noteOverload] at reopen count
    exact .opens was state reopen count
  | closes was state count =>
    rw [control_noteOverload] at was
    exact .closes was state count

namespace Breaker

variable {options : RpcClientOptions} {breaker : Breaker} {permit nowMs : Nat}
  {result : CallOutcome}

theorem record_move : Move options nowMs breaker (breaker.record options permit result nowMs) := by
  have hmove : Move options nowMs (breaker.noteOverload options result nowMs)
      (breaker.record options permit result nowMs) := by
    unfold record
    dsimp only
    split
    · rename_i hhalf
      split
      · exact open_move (by rw [hhalf]; decide)
      · exact recordProbe_move
    split
    · exact .stays (.inl rfl) rfl rfl
    split
    · exact .stays (.inl rfl) rfl rfl
    · rename_i hclosed
      rw [not_or, not_not] at hclosed
      exact recordWindow_move hclosed.1
  exact hmove.of_noteOverload

end Breaker

namespace Backoff

/-! ## The openings of a run -/

variable {options : RpcClientOptions} {s s' : Backoff} {op : BreakerOp}

/-- The breaker and the openings beside it agree, and every opening has its exact interval. -/
structure Exact (options : RpcClientOptions) (s : Backoff) : Prop where
  count : s.breaker.consecutiveOpens = s.openings.length
  reopens : ∀ k opening, s.openings[k]? = some opening →
    opening.reopenAtMs = opening.nowMs + openInterval options.circuitBreaker k
  current : state s.breaker.control = kOpen →
    s.openings.getLast?.map Opening.reopenAtMs = some s.breaker.reopenAtMs

/-- Under the condition, the shifted and wrapped sum is the exact one. -/
theorem reopenAt_eq {k nowMs : Nat}
    (hshift : options.circuitBreaker.openIntervalMs * 2 ^ min k 16 < 2 ^ 64)
    (hsum : nowMs + options.circuitBreaker.maxOpenIntervalMs < 2 ^ 64) :
    (nowMs + min ((options.circuitBreaker.openIntervalMs <<< min k 16) % 2 ^ 64)
        options.circuitBreaker.maxOpenIntervalMs) % 2 ^ 64 =
      nowMs + openInterval options.circuitBreaker k := by
  rw [Nat.shiftLeft_eq, Nat.mod_eq_of_lt hshift]
  refine Nat.mod_eq_of_lt (Nat.lt_of_le_of_lt ?_ hsum)
  exact Nat.add_le_add_left (Nat.min_le_right _ _) _

theorem Exact.moveTo (h : s.Exact options) {breaker : Breaker} {nowMs : Nat}
    (hmove : Move options nowMs s.breaker breaker)
    (hfits : state breaker.control = kOpen → state s.breaker.control ≠ kOpen →
      options.circuitBreaker.openIntervalMs * 2 ^ min s.openings.length 16 < 2 ^ 64 ∧
        nowMs + options.circuitBreaker.maxOpenIntervalMs < 2 ^ 64 ∧
        s.openings.length + 1 < 2 ^ 64) :
    (s.moveTo breaker nowMs).Exact options := by
  cases hmove with
  | stays state reopen count =>
    have hsame : (s.moveTo breaker nowMs).openings = s.openings := by
      unfold Backoff.moveTo
      dsimp only
      rcases state with state | state <;> rw [state]
      · rw [if_neg fun hopen => hopen.2 hopen.1, if_neg fun hclosed => hclosed.2 hclosed.1]
      · rw [if_neg fun hopen => absurd hopen.1 (by decide),
          if_neg fun hclosed => by cases hclosed.1]
    refine ⟨?_, ?_, ?_⟩
    · rw [hsame]
      exact count.trans h.count
    · rw [hsame]
      exact h.reopens
    · intro hopen
      rw [hsame]
      rcases state with state | state
      · exact (h.current (state.symm.trans hopen)).trans (congrArg some reopen.symm)
      · cases state.symm.trans hopen
  | opens was state reopen count =>
    obtain ⟨hshift, hsum, hlength⟩ := hfits state was
    have hopenings : (s.moveTo breaker nowMs).openings =
        s.openings ++ [⟨nowMs, breaker.reopenAtMs⟩] := if_pos ⟨state, was⟩
    rw [h.count] at reopen count
    rw [reopenAt_eq hshift hsum] at reopen
    refine ⟨?_, ?_, ?_⟩
    · rw [hopenings, length_append]
      exact count.trans (Nat.mod_eq_of_lt hlength)
    · intro k opening hk
      rw [hopenings] at hk
      rcases Nat.lt_or_ge k s.openings.length with hlt | hge
      · rw [getElem?_append_left hlt] at hk
        exact h.reopens k opening hk
      · rw [getElem?_append_right hge, getElem?_singleton] at hk
        split at hk
        · cases hk
          obtain rfl : k = s.openings.length := by omega
          exact reopen
        · cases hk
    · intro _
      rw [hopenings, getLast?_append]
      rfl
  | closes was state count =>
    have hnone : (s.moveTo breaker nowMs).openings = [] := by
      unfold Backoff.moveTo
      dsimp only
      rw [if_neg fun hopen => absurd (state.symm.trans hopen.1) (by decide),
        if_pos ⟨state, fun hclosed => by cases was.symm.trans hclosed⟩]
    refine ⟨?_, ?_, fun hopen => by cases state.symm.trans hopen⟩
    · rw [hnone]
      exact count
    · intro k opening hk
      rw [hnone] at hk
      cases hk

theorem Exact.step (h : s.Exact options) (hfits : s.Fits options op)
    (hstep : s.step options op = some s') : s'.Exact options := by
  cases op with
  | allow nowMs =>
    unfold Backoff.step at hstep
    dsimp only at hstep
    split at hstep
    · cases hstep
    rename_i breaker permit hallow
    -- `Allow` never opens the breaker
    have hmoved : (s.moveTo breaker nowMs).Exact options := by
      refine h.moveTo (allow_move hallow) fun hopen was => ?_
      rcases state_of_allow hallow with hsame | hhalf
      · exact absurd (hsame.symm.trans hopen) was
      · cases hhalf.symm.trans hopen
    split at hstep
    · cases hstep
      exact hmoved
    · cases hstep
      exact { hmoved with }
  | record permit result nowMs =>
    cases hstep
    exact h.moveTo record_move fun _ _ => hfits

theorem exact_of_reaches (h : Reaches (step options) (Fits options) {} s) : s.Exact options := by
  refine h.invariant (p := Exact options) ⟨rfl, ?_, ?_⟩
    fun _ _ _ h hfits hstep => h.step hfits hstep
  · intro k opening hk
    cases hk
  · intro hopen
    cases hopen

end Backoff

theorem openIntervalMs_le_openInterval {options : RpcClientOptions}
    (hvalid : options.validateOptions = true) (k : Nat) :
    options.circuitBreaker.openIntervalMs ≤ openInterval options.circuitBreaker k := by
  refine Nat.le_min.mpr ⟨Nat.le_mul_of_pos_right _ (Nat.two_pow_pos _), ?_⟩
  simp only [RpcClientOptions.validateOptions, Bool.and_eq_true, decide_eq_true_eq] at hvalid
  exact hvalid.1.2

theorem openInterval_mono (options : CircuitBreakerOptions) {j k : Nat} (h : j ≤ k) :
    openInterval options j ≤ openInterval options k := by
  have hpow : 2 ^ min j 16 ≤ 2 ^ min k 16 := Nat.pow_le_pow_right (by decide) (by omega)
  have hmul := Nat.mul_le_mul_left options.openIntervalMs hpow
  unfold openInterval
  omega

namespace Backoff

variable {options : RpcClientOptions} {s : Backoff}

/-- Every opening since the last close denies for the doubled interval, cut at the largest; so no
    interval is shorter than the first or longer than the largest, and none shrinks. While the
    breaker is open, `reopen_at_ms` is that of the last opening. -/
theorem openings_back_off (hvalid : options.validateOptions = true)
    (h : Reaches (step options) (Fits options) {} s) :
    (∀ (k : Nat) (opening : Opening), s.openings[k]? = some opening →
      opening.reopenAtMs = opening.nowMs + min (options.circuitBreaker.openIntervalMs *
        2 ^ min k 16) options.circuitBreaker.maxOpenIntervalMs ∧
      opening.nowMs + options.circuitBreaker.openIntervalMs ≤ opening.reopenAtMs ∧
      opening.reopenAtMs ≤ opening.nowMs + options.circuitBreaker.maxOpenIntervalMs) ∧
    (∀ (j k : Nat) (earlier later : Opening), j ≤ k → s.openings[j]? = some earlier →
      s.openings[k]? = some later →
      earlier.reopenAtMs - earlier.nowMs ≤ later.reopenAtMs - later.nowMs) ∧
    (state s.breaker.control = kOpen →
      s.openings.getLast?.map Opening.reopenAtMs = some s.breaker.reopenAtMs) := by
  have hexact := exact_of_reaches h
  refine ⟨?_, ?_, hexact.current⟩
  · intro k opening hk
    have hreopen := hexact.reopens k opening hk
    refine ⟨hreopen, ?_, ?_⟩
    · rw [hreopen]
      exact Nat.add_le_add_left (openIntervalMs_le_openInterval hvalid k) _
    · rw [hreopen]
      exact Nat.add_le_add_left (Nat.min_le_right _ _) _
  · intro j k earlier later hjk hj hk
    rw [hexact.reopens j earlier hj, hexact.reopens k later hk, Nat.add_sub_cancel_left,
      Nat.add_sub_cancel_left]
    exact openInterval_mono _ hjk

/-- A probe that fails opens the breaker for twice as long. -/
theorem openings_back_off_twice :
    ∃ s, Reaches (step { circuitBreaker := ⟨1, 1, 50, 1000, 30000, 1⟩ })
        (Fits { circuitBreaker := ⟨1, 1, 50, 1000, 30000, 1⟩ }) {} s ∧
      s.openings[1]? = some ⟨1010, 3010⟩ ∧ 3010 = 1010 + min (1000 * 2 ^ min 1 16) 30000 := by
  refine exists_reaches_of_exec (p := fun s => s.openings[1]? = some ⟨1010, 3010⟩)
    [.allow 10, .record (make kClosed 0) { status := .timeout } 10, .allow 1010,
      .record (make kHalfOpen 2 1 0) { status := .timeout } 1010]
    (by decide +kernel) fun s hreach hopening => ?_
  exact ⟨hopening, ((openings_back_off (by decide) hreach).1 1 ⟨1010, 3010⟩ hopening).1⟩

/-- The third opening shifts `2^62` by two, which leaves nothing: the breaker denies for no time
    at all, although the clock is far from its end. Every recorded permit is one of `Allow`. -/
theorem third_opening_denies_nothing : RpcClientOptions.validateOptions
        { circuitBreaker := ⟨1, 1, 50, 2 ^ 62, 2 ^ 62, 1⟩ } = true ∧
    ∃ s, Reaches (step { circuitBreaker := ⟨1, 1, 50, 2 ^ 62, 2 ^ 62, 1⟩ }) Granted {} s ∧
      s.openings = [⟨0, 2 ^ 62⟩, ⟨2 ^ 62, 2 ^ 63⟩, ⟨2 ^ 63, 2 ^ 63⟩] ∧
      state s.breaker.control = kOpen ∧ s.breaker.reopenAtMs = 2 ^ 63 ∧
      2 ^ 63 + min (2 ^ 62 * 2 ^ min 2 16) (2 ^ 62) < 2 ^ 64 ∧
      2 ^ 63 ≠ 2 ^ 63 + min (2 ^ 62 * 2 ^ min 2 16) (2 ^ 62) := by
  obtain ⟨s, hreach, hopenings, hopen, hreopen⟩ : ∃ s,
      Reaches (step { circuitBreaker := ⟨1, 1, 50, 2 ^ 62, 2 ^ 62, 1⟩ }) Granted {} s ∧
      s.openings = [⟨0, 2 ^ 62⟩, ⟨2 ^ 62, 2 ^ 63⟩, ⟨2 ^ 63, 2 ^ 63⟩] ∧
      state s.breaker.control = kOpen ∧ s.breaker.reopenAtMs = 2 ^ 63 :=
    exists_reaches_of_exec [.allow 0, .record (make kClosed 0) { status := .timeout } 0,
      .allow (2 ^ 62), .record (make kHalfOpen 2 1 0) { status := .timeout } (2 ^ 62),
      .allow (2 ^ 63), .record (make kHalfOpen 4 1 0) { status := .timeout } (2 ^ 63)]
      (by decide +kernel) fun _ _ hs => hs
  exact ⟨by decide, s, hreach, hopenings, hopen, hreopen, by decide, by decide⟩

end Backoff

end CoroRpc.Client
