import CoroRpc.Client.Connection
import CoroRpc.Server.Idempotency

/-!
# The circuit breaker of an endpoint

`RpcClient::Allow`, `Record` and `Open` (`rpc_src/transport/rpc_client.cpp`). The state of a
breaker, its generation, the probes in flight and their successes share one 64-bit word; a permit
is the word at the time it was granted. The three functions are loops around a compare-exchange,
and are modelled as one atomic operation each: the exchange succeeds on the value that was read.
Then the state `kOpening` is never seen, for `Open` leaves it in the same operation; `Allow`, which
would spin on it, has no successor there.

Counters and times are natural numbers, reduced where the source's types can overflow: the packed
fields, the 32-bit halves of the window, the 64-bit sums of times and the shifted interval.
-/

namespace CoroRpc.Client

open Server

structure CircuitBreakerOptions where
  windowSize : Nat := 20
  minimumRequests : Nat := 10
  failureThresholdPercent : Nat := 50
  openIntervalMs : Nat := 1000
  maxOpenIntervalMs : Nat := 30000
  halfOpenMaxProbes : Nat := 1
  deriving DecidableEq

structure RetryOptions where
  maxAttempts : Nat := 3
  retryBudgetCapacity : Nat := 100
  baseBackoffMs : Nat := 5
  maxBackoffMs : Nat := 250
  deriving DecidableEq

/-- The options that `ValidateOptions` looks at. -/
structure RpcClientOptions where
  connectTimeoutMs : Nat := 1000
  circuitBreaker : CircuitBreakerOptions := {}
  retry : RetryOptions := {}
  ioThreads : Nat := 1
  maxCallsPerShard : Nat := 4096
  softCapacityPercent : Nat := 80
  deriving DecidableEq

def RpcClientOptions.validateOptions (options : RpcClientOptions) : Bool :=
  decide (options.ioThreads > 0) && decide (options.maxCallsPerShard > 0) &&
    decide (options.softCapacityPercent ≤ 100) && decide (options.connectTimeoutMs > 0) &&
    decide (options.retry.maxAttempts ≠ 0) && decide (options.retry.retryBudgetCapacity ≠ 0) &&
    decide (options.retry.baseBackoffMs ≠ 0) &&
    decide (options.retry.maxBackoffMs ≥ options.retry.baseBackoffMs) &&
    decide (options.circuitBreaker.windowSize > 0) &&
    decide (options.circuitBreaker.minimumRequests ≤ options.circuitBreaker.windowSize) &&
    decide (options.circuitBreaker.failureThresholdPercent ≤ 100) &&
    decide (options.circuitBreaker.openIntervalMs > 0) &&
    decide (options.circuitBreaker.maxOpenIntervalMs ≥ options.circuitBreaker.openIntervalMs) &&
    decide (options.circuitBreaker.halfOpenMaxProbes > 0)

/-- What `Record` reads of a `CallResult`. The status of the response is the flag word of a frame, so
    it may be none of the enumerators. -/
structure CallOutcome where
  status : CallStatus := .notConnected
  rpcStatus : UInt32 := RpcStatus.ok.code
  deriving DecidableEq

/-! ## The control word -/

def kDeniedPermit : Nat := 2 ^ 64 - 1

def kClosed : Nat := 0
def kOpen : Nat := 1
def kHalfOpen : Nat := 2
def kOpening : Nat := 3

def kStateMask : Nat := 0x3
def kInflightShift : Nat := 2
def kSuccessShift : Nat := 18
def kGenerationShift : Nat := 34
def kCounterMask : Nat := 0xffff
def kGenerationMask : Nat := (1 <<< 30) - 1

namespace Control

variable (control : Nat)

def state : Nat := control &&& kStateMask

def generation : Nat := (control >>> kGenerationShift) &&& kGenerationMask

def inflight : Nat := (control >>> kInflightShift) &&& kCounterMask

def successes : Nat := (control >>> kSuccessShift) &&& kCounterMask

/-- `Control(state, generation, inflight, successes)`. -/
def make (state generation : Nat) (inflight successes : Nat := 0) : Nat :=
  state ||| ((inflight &&& kCounterMask) <<< kInflightShift) |||
    ((successes &&& kCounterMask) <<< kSuccessShift) |||
    ((generation &&& kGenerationMask) <<< kGenerationShift)

/-- The generation starts again after `2 ^ 30` steps. -/
def nextGeneration : Nat := (generation control + 1) &&& kGenerationMask

theorem and_counterMask (x : Nat) : x &&& kCounterMask = x % 65536 :=
  Nat.and_two_pow_sub_one_eq_mod x 16

theorem and_generationMask (x : Nat) : x &&& kGenerationMask = x % 1073741824 :=
  Nat.and_two_pow_sub_one_eq_mod x 30

/-- The fields lie beside each other, so the word is their weighted sum. -/
theorem make_eq {s g i c : Nat} (hs : s < 4) : make s g i c =
      s + 4 * (i % 65536) + 262144 * (c % 65536) + 17179869184 * (g % 1073741824) := by
  have hi : s ||| (i % 65536) <<< 2 = 4 * (i % 65536) + s := by
    rw [Nat.or_comm, ← Nat.shiftLeft_add_eq_or_of_lt (by omega), Nat.shiftLeft_eq]
    omega
  have hc : (4 * (i % 65536) + s) ||| (c % 65536) <<< 18 =
      262144 * (c % 65536) + (4 * (i % 65536) + s) := by
    rw [Nat.or_comm, ← Nat.shiftLeft_add_eq_or_of_lt (by omega), Nat.shiftLeft_eq]
    omega
  have hg : (262144 * (c % 65536) + (4 * (i % 65536) + s)) ||| (g % 1073741824) <<< 34 =
      17179869184 * (g % 1073741824) + (262144 * (c % 65536) + (4 * (i % 65536) + s)) := by
    rw [Nat.or_comm, ← Nat.shiftLeft_add_eq_or_of_lt (by omega), Nat.shiftLeft_eq]
    omega
  simp only [make, and_counterMask, and_generationMask, kInflightShift, kSuccessShift,
    kGenerationShift]
  rw [hi, hc, hg]
  omega

theorem state_eq : state control = control % 4 :=
  Nat.and_two_pow_sub_one_eq_mod control 2

theorem state_make {s g i c : Nat} (hs : s < 4) : state (make s g i c) = s := by
  rw [state_eq, make_eq hs]
  omega

/-- A field reads back as what was put there, cut to its width. -/
theorem generation_make {s g i c : Nat} (hs : s < 4) :
    generation (make s g i c) = g % 1073741824 := by
  rw [generation, and_generationMask, Nat.shiftRight_eq_div_pow, make_eq hs, kGenerationShift]
  omega

theorem inflight_make {s g i c : Nat} (hs : s < 4) : inflight (make s g i c) = i % 65536 := by
  rw [inflight, and_counterMask, Nat.shiftRight_eq_div_pow, make_eq hs, kInflightShift]
  omega

theorem successes_make {s g i c : Nat} (hs : s < 4) : successes (make s g i c) = c % 65536 := by
  rw [successes, and_counterMask, Nat.shiftRight_eq_div_pow, make_eq hs, kSuccessShift]
  omega

theorem generation_lt : generation control < 1073741824 := by
  rw [generation, and_generationMask]
  exact Nat.mod_lt _ (by decide)

theorem nextGeneration_eq : nextGeneration control = (generation control + 1) % 1073741824 :=
  and_generationMask _

end Control

/-! ## The breaker -/

structure Breaker where
  control : Nat := Control.make kClosed 0
  window : Nat := 0
  reopenAtMs : Nat := 0
  overloadUntilMs : Nat := 0
  consecutiveOpens : Nat := 0
  deriving DecidableEq

namespace CallOutcome

variable (result : CallOutcome)

/-- An error that says nothing about the endpoint. -/
def localFailure : Bool :=
  decide (result.status = .encodeError) || decide (result.status = .protocolError)

/-- Either end has refused the call for want of room. -/
def overload : Bool :=
  decide (result.status = .localOverloaded) ||
    decide (result.rpcStatus = RpcStatus.resourceExhausted.code)

/-- The endpoint was not reached, or did not answer in time. -/
def transportFailure : Bool :=
  decide (result.status = .notConnected) || decide (result.status = .connectionClosed) ||
    decide (result.status = .timeout) || decide (result.rpcStatus = RpcStatus.unavailable.code) ||
    decide (result.rpcStatus = RpcStatus.deadlineExceeded.code)

def succeeded : Bool :=
  decide (result.status = .ok) && decide (result.rpcStatus = RpcStatus.ok.code)

end CallOutcome

namespace Breaker

variable (options : RpcClientOptions)

/-- `Allow`: the word that is granted as a permit, or `kDeniedPermit`. -/
def allow (breaker : Breaker) (nowMs : Nat) : Option (Breaker × Nat) :=
  if nowMs < breaker.overloadUntilMs then some (breaker, kDeniedPermit)
  else if Control.state breaker.control = kClosed then some (breaker, breaker.control)
  else if Control.state breaker.control = kOpen then
    if nowMs < breaker.reopenAtMs then some (breaker, kDeniedPermit)
    else
      let half := Control.make kHalfOpen (Control.nextGeneration breaker.control) 1 0
      some ({ breaker with control := half }, half)
  else if Control.state breaker.control = kOpening then none
  else if Control.inflight breaker.control ≥ options.circuitBreaker.halfOpenMaxProbes then
    some (breaker, kDeniedPermit)
  else
    let next := Control.make kHalfOpen (Control.generation breaker.control)
      (Control.inflight breaker.control + 1) (Control.successes breaker.control)
    some ({ breaker with control := next }, next)

/-- `Open`. The first exchange is tried with the expected word itself and, if that is not the
    current word, a second one with the current word, provided its state and generation are those
    expected; equal words have equal ones. -/
def «open» (breaker : Breaker) (expectedControl nowMs : Nat) :
    Breaker :=
  if Control.state breaker.control = Control.state expectedControl ∧
      Control.generation breaker.control = Control.generation expectedControl then
    let generation := Control.nextGeneration breaker.control
    let shift := min breaker.consecutiveOpens 16
    let interval := min ((options.circuitBreaker.openIntervalMs <<< shift) % 2 ^ 64)
      options.circuitBreaker.maxOpenIntervalMs
    { breaker with
      consecutiveOpens := (breaker.consecutiveOpens + 1) % 2 ^ 64
      reopenAtMs := (nowMs + interval) % 2 ^ 64
      window := 0
      control := Control.make kOpen generation }
  else breaker

/-- The half-open branch of `Record`, for an outcome that is no transport failure. -/
def recordProbe (breaker : Breaker) (permit : Nat)
    (result : CallOutcome) : Breaker :=
  if Control.state breaker.control = kHalfOpen ∧
      Control.generation breaker.control = Control.generation permit then
    let inflight := Control.inflight breaker.control
    let successes := Control.successes breaker.control + result.succeeded.toNat
    if inflight = 1 ∧ successes ≥ options.circuitBreaker.halfOpenMaxProbes then
      { breaker with
        control := Control.make kClosed (Control.nextGeneration breaker.control)
        window := 0
        consecutiveOpens := 0 }
    else
      { breaker with
        control := Control.make kHalfOpen (Control.generation breaker.control)
          (if inflight = 0 then 0 else inflight - 1) successes }
  else breaker

/-- The count and the failures of the window after one more outcome; a full window starts again. -/
def countOutcome (window : Nat) (result : CallOutcome) : Nat × Nat :=
  let full := decide (window % 2 ^ 32 ≥ options.circuitBreaker.windowSize)
  (((if full then 0 else window % 2 ^ 32) + 1) % 2 ^ 32,
    ((if full then 0 else window / 2 ^ 32) + result.transportFailure.toNat) % 2 ^ 32)

/-- The closed branch of `Record`: count the outcome in the window and open the breaker if the
    share of failures is reached. The product of the failures is one of 32 bits. -/
def recordWindow (breaker : Breaker) (result : CallOutcome)
    (nowMs : Nat) : Breaker :=
  let (count, failures) := countOutcome options breaker.window result
  let counted := { breaker with window := failures * 2 ^ 32 + count }
  if count ≥ options.circuitBreaker.minimumRequests ∧ (failures * 100) % 2 ^ 32 ≥
        (count * options.circuitBreaker.failureThresholdPercent) % 2 ^ 64 then
    counted.open options breaker.control nowMs
  else counted

/-- An overloaded endpoint is left alone for a while. -/
def noteOverload (breaker : Breaker) (result : CallOutcome)
    (nowMs : Nat) : Breaker :=
  if result.overload then
    { breaker with overloadUntilMs := (nowMs + options.retry.baseBackoffMs) % 2 ^ 64 }
  else breaker

/-- `Record`: the permit says in which state of the breaker the call was made. -/
def record (breaker : Breaker) (permit : Nat) (result : CallOutcome)
    (nowMs : Nat) : Breaker :=
  let breaker := breaker.noteOverload options result nowMs
  if Control.state permit = kHalfOpen then
    if result.transportFailure then breaker.open options permit nowMs
    else breaker.recordProbe options permit result
  else if result.localFailure = true ∨ result.overload = true ∨ Control.state permit ≠ kClosed then
    breaker
  else if Control.state breaker.control ≠ kClosed ∨
      Control.generation breaker.control ≠ Control.generation permit then
    breaker
  else breaker.recordWindow options result nowMs

end Breaker

end CoroRpc.Client
