import CoroRpc.Client.BreakerProbes
import CoroRpc.Lib.Window

/-!
# When a closed breaker opens

A closed breaker counts the outcomes of calls in windows of `window_size`, and is meant to open at an
outcome that leaves the current window with `minimum_requests` outcomes at least and with
`failure_threshold_percent` of them failed. The two counts share a 64-bit word, and the comparison is

    failures * 100 >= count * failure_threshold_percent

with a 32-bit product on the left, for `failures` is a `std::uint32_t` and `100` an `int`. On the
right the product is one of 64 bits. `ValidateOptions` puts no upper bound on `window_size`, so
the left side wraps from 42 949 673 failures on, and the breaker stays closed.

`Trial` is a breaker in one closed period with the outcomes recorded in it. `recordWindow_spec` says
what one more of them does as long as neither count leaves its 32 bits and the product does not
(`Trial.Fits`).
-/

namespace CoroRpc.Client

open Lib List Breaker Control

structure Trial where
  breaker : Breaker
  history : List CallOutcome := []
  deriving DecidableEq

structure Recorded where
  permit : Nat
  result : CallOutcome
  nowMs : Nat
  deriving DecidableEq

def failures (outcomes : List CallOutcome) : Nat := outcomes.countP CallOutcome.transportFailure

/-- The share of failures at which the breaker is meant to open. -/
def Tripped (options : RpcClientOptions) (window : List CallOutcome) : Prop :=
  options.circuitBreaker.minimumRequests ≤ window.length ∧
    window.length * options.circuitBreaker.failureThresholdPercent ≤ failures window * 100

instance (options : RpcClientOptions) (window : List CallOutcome) :
    Decidable (Tripped options window) := inferInstanceAs (Decidable (_ ∧ _))

namespace Trial

variable (options : RpcClientOptions)

/-- An outcome that is neither local nor an overload, with a closed permit of the current
    generation. -/
def step (s : Trial) (r : Recorded) : Option Trial :=
  if r.result.localFailure = false ∧ r.result.overload = false ∧
      state r.permit = kClosed ∧ state s.breaker.control = kClosed ∧
      generation s.breaker.control = generation r.permit then
    some ⟨s.breaker.record options r.permit r.result r.nowMs, s.history ++ [r.result]⟩
  else none

/-- The outcomes of the current window. -/
def window (s : Trial) : List CallOutcome :=
  currentWindow options.circuitBreaker.windowSize s.history

/-- With this outcome the current window has fewer than `2 ^ 32` outcomes, and a hundred times its
    failures is less than that, too. -/
def Fits (s : Trial) (r : Recorded) : Prop :=
  (currentWindow options.circuitBreaker.windowSize (s.history ++ [r.result])).length < 2 ^ 32 ∧
    failures (currentWindow options.circuitBreaker.windowSize (s.history ++ [r.result])) * 100 <
      2 ^ 32

instance (options : RpcClientOptions) (s : Trial) (r : Recorded) : Decidable (s.Fits options r) :=
  inferInstanceAs (Decidable (_ ∧ _))

/-- While the breaker is closed, its window word is the two counts of the current window. -/
structure Counts (options : RpcClientOptions) (s : Trial) : Prop where
  word : state s.breaker.control = kClosed →
    s.breaker.window = failures (s.window options) * 2 ^ 32 + (s.window options).length
  count : (s.window options).length < 2 ^ 32

end Trial

/-! ## One outcome -/

theorem failures_le (window : List CallOutcome) : failures window ≤ window.length :=
  countP_le_length

theorem failures_snoc (window : List CallOutcome) (result : CallOutcome) :
    failures (window ++ [result]) = failures window + result.transportFailure.toNat := by
  rw [failures, countP_append, countP_singleton]
  cases result.transportFailure <;> rfl

section
variable {options : RpcClientOptions} {breaker : Breaker} {history : List CallOutcome}
  {result : CallOutcome} {nowMs : Nat}

theorem countOutcome_eq (hsize : 0 < options.circuitBreaker.windowSize)
    (hcount : (currentWindow options.circuitBreaker.windowSize history).length < 2 ^ 32)
    (hfits : (currentWindow options.circuitBreaker.windowSize (history ++ [result])).length <
      2 ^ 32) :
    countOutcome options
        (failures (currentWindow options.circuitBreaker.windowSize history) * 2 ^ 32 +
          (currentWindow options.circuitBreaker.windowSize history).length) result =
      ((currentWindow options.circuitBreaker.windowSize (history ++ [result])).length,
        failures (currentWindow options.circuitBreaker.windowSize (history ++ [result]))) := by
  have hfailures := failures_le (currentWindow options.circuitBreaker.windowSize
    (history ++ [result]))
  generalize hold : currentWindow options.circuitBreaker.windowSize history = old at hcount ⊢
  have hlow : (failures old * 2 ^ 32 + old.length) % 2 ^ 32 = old.length := by omega
  have hhigh : (failures old * 2 ^ 32 + old.length) / 2 ^ 32 = failures old := by omega
  rw [currentWindow_snoc hsize, hold] at hfits hfailures ⊢
  unfold countOutcome
  simp only [hlow, hhigh, ge_iff_le]
  by_cases hfull : options.circuitBreaker.windowSize ≤ old.length
  · simp only [if_pos hfull, decide_eq_true hfull, if_true] at hfits hfailures ⊢
    have hone : failures [result] = 0 + result.transportFailure.toNat := failures_snoc [] result
    rw [← hone, length_singleton, Nat.mod_eq_of_lt (by decide),
      Nat.mod_eq_of_lt (Nat.lt_of_le_of_lt hfailures hfits)]
  · simp only [if_neg hfull, decide_eq_false hfull, Bool.false_eq_true, if_false] at hfits hfailures ⊢
    rw [← failures_snoc, Nat.mod_eq_of_lt (Nat.lt_of_le_of_lt hfailures hfits),
      length_append, length_singleton, Nat.mod_eq_of_lt]
    simpa using hfits

/-- **One outcome of a closed breaker**: it opens at a window that is tripped, and otherwise its word
    has the counts of the window. -/
theorem recordWindow_spec (hsize : 0 < options.circuitBreaker.windowSize)
    (hpercent : options.circuitBreaker.failureThresholdPercent ≤ 100)
    (hcount : (currentWindow options.circuitBreaker.windowSize history).length < 2 ^ 32)
    (hword : breaker.window = failures (currentWindow options.circuitBreaker.windowSize history) *
      2 ^ 32 + (currentWindow options.circuitBreaker.windowSize history).length)
    (hfits : Trial.Fits options ⟨breaker, history⟩ ⟨breaker.control, result, nowMs⟩) :
    (Tripped options (currentWindow options.circuitBreaker.windowSize (history ++ [result])) ∧
      state (breaker.recordWindow options result nowMs).control = kOpen) ∨
    (¬ Tripped options (currentWindow options.circuitBreaker.windowSize (history ++ [result])) ∧
      (breaker.recordWindow options result nowMs).control = breaker.control ∧
      (breaker.recordWindow options result nowMs).window =
        failures (currentWindow options.circuitBreaker.windowSize (history ++ [result])) * 2 ^ 32 +
          (currentWindow options.circuitBreaker.windowSize (history ++ [result])).length) := by
  obtain ⟨hlength, hproduct⟩ := hfits
  unfold recordWindow
  rw [hword, countOutcome_eq hsize hcount hlength]
  generalize currentWindow options.circuitBreaker.windowSize (history ++ [result]) = new
    at hlength hproduct ⊢
  have hright : new.length * options.circuitBreaker.failureThresholdPercent < 2 ^ 64 := by
    have hle := Nat.mul_le_mul (Nat.le_of_lt hlength) hpercent
    omega
  dsimp only
  rw [Nat.mod_eq_of_lt hproduct, Nat.mod_eq_of_lt hright]
  split
  · rename_i htripped
    refine .inl ⟨htripped, ?_⟩
    rw [control_open rfl rfl, state_make (by decide)]
  · rename_i htripped
    exact .inr ⟨htripped, rfl, rfl⟩

theorem record_closed {permit : Nat} (hlocal : result.localFailure = false)
    (hoverload : result.overload = false) (hpermit : state permit = kClosed)
    (hclosed : state breaker.control = kClosed)
    (hgen : generation breaker.control = generation permit) :
    breaker.record options permit result nowMs = breaker.recordWindow options result nowMs := by
  have hnote : breaker.noteOverload options result nowMs = breaker := by
    unfold noteOverload
    rw [hoverload]
    rfl
  unfold record
  rw [hnote, if_neg (by rw [hpermit]; decide), if_neg (by simp [hlocal, hoverload, hpermit]),
    if_neg (by simp [hclosed, hgen])]

end

/-! ## A closed period -/

namespace Trial

variable {options : RpcClientOptions} {s s' : Trial} {r : Recorded}

theorem step_spec (hvalid : options.validateOptions = true) (hs : s.Counts options)
    (hfits : s.Fits options r) (hstep : s.step options r = some s') :
    s'.Counts options ∧ (state s'.breaker.control = kOpen ↔ Tripped options (s'.window options)) ∧
      (¬ Tripped options (s'.window options) → s'.breaker.control = s.breaker.control) := by
  have hoptions : 0 < options.circuitBreaker.windowSize ∧
      options.circuitBreaker.failureThresholdPercent ≤ 100 := by
    simp only [RpcClientOptions.validateOptions, Bool.and_eq_true, decide_eq_true_eq] at hvalid
    omega
  unfold step at hstep
  split at hstep
  · rename_i hguard
    obtain ⟨hlocal, hoverload, hpermit, hclosed, hgen⟩ := hguard
    cases hstep
    rw [record_closed hlocal hoverload hpermit hclosed hgen]
    -- the condition looks neither at the permit nor at the time
    have hrecorded : Fits options ⟨s.breaker, s.history⟩ ⟨s.breaker.control, r.result, r.nowMs⟩ :=
      hfits
    rcases recordWindow_spec hoptions.1 hoptions.2 hs.count (hs.word hclosed) hrecorded with
      ⟨htripped, hopen⟩ | ⟨htripped, hcontrol, hword⟩
    · refine ⟨⟨fun hstill => ?_, hfits.1⟩, ⟨fun _ => htripped, fun _ => hopen⟩,
        fun h => absurd htripped h⟩
      rw [hopen] at hstill
      cases hstill
    · refine ⟨⟨fun _ => hword, hfits.1⟩, ⟨fun hopen => ?_, fun h => absurd h htripped⟩,
        fun _ => hcontrol⟩
      rw [hcontrol, hclosed] at hopen
      cases hopen
  · cases hstep

variable {breaker : Breaker}

theorem counts_start (hwindow : breaker.window = 0) : Counts options ⟨breaker, []⟩ :=
  ⟨fun _ => by simp [window, failures, hwindow], by simp [window]⟩

theorem counts_of_reaches (hvalid : options.validateOptions = true) (hwindow : breaker.window = 0)
    (h : Reaches (step options) (Fits options) ⟨breaker, []⟩ s) : s.Counts options :=
  h.invariant (p := Counts options) (counts_start hwindow)
    fun _ _ _ hs hfits hstep => (step_spec hvalid hs hfits hstep).1

/-- **The breaker trips exactly where it should.** In every closed period, with options that
    `ValidateOptions` accepts, in which the counts and the product of the failures fit into 32 bits:
    the breaker opens at an outcome iff the current window then has the minimum of outcomes and
    the share of failures, in exact arithmetic. -/
theorem trips_exactly (hvalid : options.validateOptions = true) {breaker : Breaker}
    (hwindow : breaker.window = 0) (h : Reaches (step options) (Fits options) ⟨breaker, []⟩ s)
    (hfits : s.Fits options r) (hstep : s.step options r = some s') :
    Control.state s'.breaker.control = kOpen ↔
      options.circuitBreaker.minimumRequests ≤
          (currentWindow options.circuitBreaker.windowSize s'.history).length ∧
        (currentWindow options.circuitBreaker.windowSize s'.history).length *
            options.circuitBreaker.failureThresholdPercent ≤
          failures (currentWindow options.circuitBreaker.windowSize s'.history) * 100 :=
  (step_spec hvalid (counts_of_reaches hvalid hwindow h) hfits hstep).2.1

/-- Half of two outcomes have failed. -/
theorem trips_exactly_half : ∃ s s', Reaches (step { circuitBreaker := ⟨4, 2, 50, 1000, 30000, 1⟩ })
        (Fits { circuitBreaker := ⟨4, 2, 50, 1000, 30000, 1⟩ }) ⟨{}, []⟩ s ∧
      s.step { circuitBreaker := ⟨4, 2, 50, 1000, 30000, 1⟩ } ⟨0, { status := .timeout }, 20⟩ =
        some s' ∧
      state s'.breaker.control = kOpen := by
  obtain ⟨s, hreach, hhistory, hclosed, hgen⟩ : ∃ s,
      Reaches (step { circuitBreaker := ⟨4, 2, 50, 1000, 30000, 1⟩ })
        (Fits { circuitBreaker := ⟨4, 2, 50, 1000, 30000, 1⟩ }) ⟨{}, []⟩ s ∧
      s.history = [{ status := .ok }] ∧ state s.breaker.control = kClosed ∧
      generation s.breaker.control = 0 :=
    exists_reaches_of_exec [⟨0, { status := .ok }, 10⟩] (by decide +kernel) fun _ _ hs => hs
  have hstep : s.step { circuitBreaker := ⟨4, 2, 50, 1000, 30000, 1⟩ }
      ⟨0, { status := .timeout }, 20⟩ = some ⟨_, s.history ++ [{ status := .timeout }]⟩ :=
    if_pos ⟨rfl, rfl, rfl, hclosed, hgen⟩
  have hfits : s.Fits { circuitBreaker := ⟨4, 2, 50, 1000, 30000, 1⟩ }
      ⟨0, { status := .timeout }, 20⟩ := by
    unfold Fits
    rw [hhistory]
    decide
  refine ⟨s, _, hreach, hstep, (trips_exactly (by decide) rfl hreach hfits hstep).mpr ?_⟩
  dsimp only
  rw [hhistory]
  decide

/-! ## A window too large for the product -/

/-- Every outcome counts, and all of them have to fail. -/
def wideOptions : RpcClientOptions :=
  { circuitBreaker := ⟨42949673, 42949673, 100, 1000, 30000, 1⟩ }

def timedOut : CallOutcome := { status := .timeout }

theorem failures_replicate (n : Nat) : failures (List.replicate n timedOut) = n := by
  rw [failures, countP_replicate, if_pos (by decide)]

theorem exists_reaches_wide (n : Nat) (hn : n ≤ 42949672) :
    ∃ s, Reaches (step wideOptions) (Fits wideOptions) ⟨{}, []⟩ s ∧
      s.history = List.replicate n timedOut ∧ s.breaker.control = make kClosed 0 := by
  induction n with
  | zero => exact ⟨_, .refl, rfl, rfl⟩
  | succ n ih =>
    obtain ⟨s, hreach, hhistory, hcontrol⟩ := ih (by omega)
    have hnext : s.history ++ [timedOut] = List.replicate (n + 1) timedOut := by
      rw [hhistory, replicate_succ']
    have hwindow : currentWindow 42949673 (List.replicate (n + 1) timedOut) =
        List.replicate (n + 1) timedOut :=
      currentWindow_of_le (by rw [length_replicate]; omega)
    have hstep : s.step wideOptions ⟨make kClosed 0, timedOut, 0⟩ =
        some ⟨_, s.history ++ [timedOut]⟩ :=
      if_pos ⟨rfl, rfl, by decide, by rw [hcontrol]; decide, by rw [hcontrol]⟩
    have hfits : s.Fits wideOptions ⟨make kClosed 0, timedOut, 0⟩ := by
      unfold Fits
      dsimp only [wideOptions]
      rw [hnext, hwindow, length_replicate, failures_replicate]
      omega
    have hspec := step_spec (by decide) (counts_of_reaches (by decide) rfl hreach) hfits hstep
    refine ⟨_, .tail hreach hfits hstep, hnext, (hspec.2.2 fun htripped => ?_).trans hcontrol⟩
    have hmin := htripped.1
    dsimp only [window, wideOptions] at hmin
    rw [hnext, hwindow, length_replicate] at hmin
    omega

/-- All of 42949673 outcomes fail, which is the share asked for, and the breaker stays closed: a
    hundred times the failures is 4 in 32 bits. -/
theorem wide_window_never_trips : wideOptions.validateOptions = true ∧
    ∃ s s' r, Reachable (step wideOptions) ⟨{}, []⟩ s ∧ s.step wideOptions r = some s' ∧
      Tripped wideOptions (currentWindow wideOptions.circuitBreaker.windowSize s'.history) ∧
      state s'.breaker.control = kClosed := by
  obtain ⟨n, hn⟩ : ∃ n, n = 42949672 := ⟨_, rfl⟩
  obtain ⟨s, hreach, hhistory, hcontrol⟩ := exists_reaches_wide n (Nat.le_of_eq hn)
  have hcounts := counts_of_reaches (by decide) rfl hreach
  have hclosed : state s.breaker.control = kClosed := by
    rw [hcontrol]
    decide
  have hwindow : currentWindow 42949673 (s.history ++ [timedOut]) =
      List.replicate (n + 1) timedOut := by
    rw [hhistory, ← replicate_succ', currentWindow_of_le]
    rw [length_replicate]
    omega
  have hstep : s.step wideOptions ⟨make kClosed 0, timedOut, 0⟩ =
      some ⟨_, s.history ++ [timedOut]⟩ :=
    if_pos ⟨rfl, rfl, by decide, hclosed, by rw [hcontrol]⟩
  refine ⟨by decide, s, _, _, hreach.mono fun _ _ _ => trivial, hstep, ?_, ?_⟩
  · dsimp only [wideOptions, Tripped]
    rw [hwindow, length_replicate, failures_replicate]
    omega
  · have hcount : countOutcome wideOptions s.breaker.window timedOut = (n + 1, n + 1) := by
      rw [hcounts.word hclosed]
      refine (countOutcome_eq (by decide) hcounts.count ?_).trans ?_
      · dsimp only [wideOptions]
        rw [hwindow, length_replicate]
        omega
      · dsimp only [wideOptions]
        rw [hwindow, length_replicate, failures_replicate]
    rw [record_closed rfl rfl (by decide) hclosed (by rw [hcontrol]), recordWindow, hcount]
    dsimp only
    rw [if_neg]
    · exact hclosed
    · dsimp only [wideOptions]
      omega

end Trial

end CoroRpc.Client
