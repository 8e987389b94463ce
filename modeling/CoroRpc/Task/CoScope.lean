import CoroRpc.Lib.Run

/-!
# `CoScope`: dispatch, completion and `Join` as atomic steps

`rpc_src/task/co_scope.h`, `co_scope.cpp`, `task.h` and `task_complete.h`. One user thread owns a
`CoScope`; it calls `Dispatch` any number of times and then `Join`, and may start over with the
next batch. Every dispatched task is finished by a `CompleteTask` call on some other thread. All
of them meet in one `Gather`: the counter `remaining`, the mutex and condition variable of the
baseline mode, and the `wait_state` / semaphore pair of the semaphore mode.

The state below is the `Gather`, the user thread's position, and the position of each
`CompleteTask` call. A label moves one party by one atomic operation of the source, so a run is
an interleaving at the granularity of `fetch_add`, `fetch_sub`, `compare_exchange`, `store`,
`load`, `sem_post`, `sem_wait`, and of acquiring and releasing the mutex.

Two things are wider than the source, never narrower. A rejected task is completed by the user
thread itself inside `SubmitTask`; here the completion is a party of its own, which includes the
order in which the user thread waits for it. And a wait on the condition variable may end at any
time the mutex is free, which is what the standard allows (spurious wake-ups), so `notify_one`
needs no state.
-/

namespace CoroRpc.Task

inductive NotifyMode where
  | conditionVariable
  | spinSemaphore
  deriving DecidableEq

inductive BatchWaitState where
  | idle
  | armed
  | signaled
  deriving DecidableEq

/-- Where a `CompleteTask` call is; each constructor names the operation it is about to do. -/
inductive CompletePc where
  /-- The closure is queued or running; `CompleteTask` has not been entered. -/
  | run
  /-- Lock the mutex and keep the first exception. -/
  | recordException
  /-- `remaining.fetch_sub` (semaphore mode), or lock the mutex first (baseline mode). -/
  | complete
  /-- Semaphore mode: this call took `remaining` to 0; `compare_exchange` on `wait_state`. -/
  | reachedZero
  /-- Semaphore mode: the exchange succeeded; `waiter->Signal()`. -/
  | signal
  /-- Baseline mode, mutex held: `remaining.fetch_sub`. -/
  | locked
  /-- Baseline mode, mutex held, this call took `remaining` to 0: `cv.notify_one()`. -/
  | notify
  /-- Baseline mode, mutex held: leave the `lock_guard` scope. -/
  | unlock
  | done
  deriving DecidableEq

/-- Where the user thread is. `idle` is outside the scope's functions; `submitting` is inside
    `Dispatch`, after the increment; the `join*` positions are inside `Join`. -/
inductive UserPc (E : Type) where
  | idle
  | submitting
  /-- `std::unique_lock lock(gather_.mutex)`. -/
  | joinLock
  /-- Semaphore mode: `lock.unlock()`. -/
  | joinUnlock
  /-- `wait_state.store(Armed)`. -/
  | joinArm
  /-- `remaining.load()`. -/
  | joinLoad
  /-- `waiter->Wait()` after the counter was found non-zero. -/
  | joinWait
  /-- `wait_state.store(Idle)` after that wait. -/
  | joinIdle
  /-- `wait_state.exchange(Idle)` after the counter was found zero. -/
  | joinExchange
  /-- `waiter->Wait()` for the token of a completion that raced with the check. -/
  | joinConsume
  /-- Baseline mode, mutex held: evaluate the predicate of `cv.wait`. -/
  | joinCheck
  /-- Baseline mode, mutex released: blocked in `cv.wait`. -/
  | joinBlocked
  /-- Semaphore mode: `lock.lock()` before the exception check. -/
  | joinRelock
  /-- Mutex held: look at `first_exception`, then leave `Join`. -/
  | joinRethrow
  /-- `Join` has returned, or thrown the exception. -/
  | returned (thrown : Option E)
  deriving DecidableEq

/-- Who holds `Gather::mutex`. -/
inductive Holder where
  | user
  | completer (i : Nat)
  deriving DecidableEq

/-- A dispatched task: its `CompleteTask` call and the exception its closure ended with. -/
structure TaskState (E : Type) where
  pc : CompletePc
  exception : Option E
  deriving DecidableEq

/-- A `CoScope` with its `Gather`, the semaphore of its `BatchWaiter`, and the parties. -/
structure Scope (E : Type) where
  mode : NotifyMode
  remaining : Nat
  mutex : Option Holder
  tokens : Nat
  waitState : BatchWaitState
  firstException : Option E
  joined : Bool
  user : UserPc E
  tasks : List (TaskState E)
  deriving DecidableEq

def Scope.init (E : Type) (mode : NotifyMode) : Scope E where
  mode := mode
  remaining := 0
  mutex := none
  tokens := 0
  waitState := .idle
  firstException := none
  joined := false
  user := .idle
  tasks := []

inductive Label (E : Type) where
  /-- The user thread enters `Dispatch` and increments the counter. -/
  | dispatch
  | join
  /-- The user thread does the next operation of the function it is in. -/
  | user
  /-- `CompleteTask` call `i` does its next operation; `outcome` is read when the closure ends. -/
  | task (i : Nat) (outcome : Option E)
  deriving DecidableEq

variable {E : Type}

variable (s : Scope E)

/-- `CoScope::Dispatch` up to `remaining.fetch_add`: a joined scope is opened for the next
    batch first. -/
def dispatch : Option (Scope E) :=
  match s.user with
  | .idle => some { s with
      joined := false
      firstException := if s.joined then none else s.firstException
      remaining := s.remaining + 1
      user := .submitting }
  | _ => none

/-- Entering `CoScope::Join`: an already joined scope returns at once. -/
def join : Option (Scope E) :=
  match s.user with
  | .idle =>
    if s.joined then some { s with user := .returned none }
    else some { s with joined := true, user := .joinLock }
  | _ => none

/-- The next operation of the user thread inside `Dispatch` or `Join`. -/
def stepUser : Option (Scope E) :=
  match s.user with
  | .idle => none
  | .submitting => some { s with tasks := s.tasks ++ [⟨.run, none⟩], user := .idle }
  | .joinLock =>
    if s.mutex = none then
      some { s with
        mutex := some .user
        user := match s.mode with
          | .spinSemaphore => .joinUnlock
          | .conditionVariable => .joinCheck }
    else none
  | .joinUnlock => some { s with mutex := none, user := .joinArm }
  | .joinArm => some { s with waitState := .armed, user := .joinLoad }
  | .joinLoad => some { s with user := if s.remaining = 0 then .joinExchange else .joinWait }
  | .joinWait =>
    if s.tokens = 0 then none else some { s with tokens := s.tokens - 1, user := .joinIdle }
  | .joinIdle => some { s with waitState := .idle, user := .joinRelock }
  | .joinExchange =>
    some { s with
      waitState := .idle
      user := if s.waitState = .signaled then .joinConsume else .joinRelock }
  | .joinConsume =>
    if s.tokens = 0 then none else some { s with tokens := s.tokens - 1, user := .joinRelock }
  | .joinCheck =>
    if s.remaining = 0 then some { s with user := .joinRethrow }
    else some { s with mutex := none, user := .joinBlocked }
  | .joinBlocked =>
    if s.mutex = none then some { s with mutex := some .user, user := .joinCheck } else none
  | .joinRelock =>
    if s.mutex = none then some { s with mutex := some .user, user := .joinRethrow } else none
  | .joinRethrow =>
    some { s with mutex := none, firstException := none, user := .returned s.firstException }
  | .returned _ => some { s with user := .idle }

/-- The next operation of `CompleteTask` call `i`, which is at `t`. -/
def completeTask (i : Nat) (t : TaskState E) (outcome : Option E) :
    Option (Scope E) :=
  let goto (s : Scope E) (pc : CompletePc) : Scope E :=
    { s with tasks := s.tasks.set i { t with pc := pc } }
  match t.pc with
  | .run =>
    some { s with
      tasks := s.tasks.set i ⟨if outcome.isSome then .recordException else .complete, outcome⟩ }
  | .recordException =>
    if s.mutex = none then
      some (goto { s with firstException := s.firstException.or t.exception } .complete)
    else none
  | .complete =>
    match s.mode with
    | .spinSemaphore =>
      some (goto { s with remaining := s.remaining - 1 }
        (if s.remaining = 1 then .reachedZero else .done))
    | .conditionVariable =>
      if s.mutex = none then some (goto { s with mutex := some (.completer i) } .locked) else none
  | .reachedZero =>
    if s.waitState = .armed then some (goto { s with waitState := .signaled } .signal)
    else some (goto s .done)
  | .signal => some (goto { s with tokens := s.tokens + 1 } .done)
  | .locked =>
    some (goto { s with remaining := s.remaining - 1 }
      (if s.remaining = 1 then .notify else .unlock))
  | .notify => some (goto s .unlock)
  | .unlock => some (goto { s with mutex := none } .done)
  | .done => none

def step : Label E → Option (Scope E)
  | .dispatch => dispatch s
  | .join => join s
  | .user => stepUser s
  | .task i outcome =>
    match s.tasks[i]? with
    | none => none
    | some t => completeTask s i t outcome

/-- The `CompleteTask` call has executed its `fetch_sub`. -/
def CompletePc.decremented : CompletePc → Bool
  | .run | .recordException | .complete | .locked => false
  | .reachedZero | .signal | .notify | .unlock | .done => true

end CoroRpc.Task
