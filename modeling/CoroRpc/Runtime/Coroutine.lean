import CoroRpc.Runtime.AsyncSocket
import CoroRpc.Runtime.Scheduler
import CoroRpc.Runtime.TimerExpiry

/-!
# The coroutine runtime

`rpc_src/runtime/coroutine_runtime.cpp` and `io_manager.cpp` over the scheduler and the timer wheel.
A coroutine waits for a descriptor (`Await`), for a time (`YieldFor`), for the next flush or for
somebody to resume it. The wait for a descriptor is an `IoWaitOperation`, which four places may refer
to: the slot of its descriptor and direction, the timer wheel, the `io_wait_` of its coroutine, and
the list of expired timers of a `Poll` in progress.

An operation is named by its place in the table `operations` and is never taken out of it, so that
its history can be spoken of; the object of the source dies when `Await` returns. The nodes of the
timer wheel are the routines and the operations. An operation that calls `epoll_ctl` may find that it
fails, and then throws halfway: such a function answers with the state that it leaves and with
whether it returned. What the calls answer is in the state (`epollCtl`).

Besides `operations`, three things are not in the source: the `completions` of an operation, the
routines `started` through `Coroutine` that have not finished, and those `stranded` by a completion
that threw.
-/

namespace CoroRpc.Runtime

open Lib Function

inductive WaitDirection where
  | read
  | write
  deriving DecidableEq

structure EpollEvents where
  epollin : Bool := false
  epollout : Bool := false
  epollerr : Bool := false
  epollhup : Bool := false
  epollrdhup : Bool := false
  deriving DecidableEq

structure IoWaitOperation where
  routine : Nat
  fd : Int
  direction : WaitDirection
  /-- `deadline_ms` where `has_deadline`. -/
  deadlineMs : Option Nat
  result : WaitResult := .error
  /-- The results with which the waiter has been woken, and the clock reading behind each. -/
  completions : List (WaitResult × Option Nat) := []
  deriving DecidableEq

structure FdContext where
  read : Option Nat := none
  write : Option Nat := none
  registered : Bool := false
  /-- The mask that epoll has. -/
  interest : EpollEvents := {}
  deriving DecidableEq

namespace FdContext

variable (c : FdContext)

def slot : WaitDirection → Option Nat
  | .read => c.read
  | .write => c.write

def setSlot (k : Option Nat) : WaitDirection → FdContext
  | .read => { c with read := k }
  | .write => { c with write := k }

/-- The mask that `UpdateInterest` asks for. -/
def wanted : EpollEvents :=
  if c.read ≠ none ∨ c.write ≠ none then
    { epollin := c.read.isSome
      epollout := c.write.isSome
      epollerr := true
      epollhup := true
      epollrdhup := true }
  else {}

end FdContext

structure CoroutineOptions where
  /-- `pool_stack_size` is the `stack_size` of the runtime. -/
  scheduler : SchedulerOptions
  timerSlots : Nat
  flushIntervalMs : Nat

structure Coroutine where
  scheduler : Scheduler
  timerWheel : TimerWheel Nat
  fds : Int → Option FdContext := fun _ => none
  operations : List IoWaitOperation := []
  ioWait : Nat → Option Nat := fun _ => none
  flushQueue : List Nat := []
  flushQueued : Nat → Bool := fun _ => false
  nextFlushDeadlineMs : Nat
  /-- Whether a routine has an `on_finish_`. -/
  onFinish : Nat → Bool := fun _ => false
  liveRoutineCount : Nat := 0
  started : List Nat := []
  stranded : List Nat := []
  /-- Whether the next calls of `epoll_ctl` succeed; those beyond the list do. -/
  epollCtl : List Bool := []

/-! ## Timer nodes -/

def routineNode (r : Nat) : Nat := 2 * r

def operationNode (k : Nat) : Nat := 2 * k + 1

def nodeType (v : Nat) : TimerNodeType :=
  if v % 2 = 0 then .routineWait else .ioWait

def deadlineAfter (nowMs timeoutMs : Nat) : Nat :=
  if timeoutMs > kNoTimeout - nowMs then kNoTimeout else nowMs + timeoutMs

namespace Coroutine

variable (options : CoroutineOptions)

def init (nowMs : Nat) : Except String Coroutine :=
  match TimerWheel.make nodeType options.timerSlots 0 nowMs with
  | .error e => .error e
  | .ok wheel =>
    if options.flushIntervalMs = 0 then .error "flush interval must be non-zero"
    else
      .ok { scheduler := .init options.scheduler
            timerWheel := wheel
            nextFlushDeadlineMs := deadlineAfter nowMs options.flushIntervalMs }

variable (s : Coroutine)

def act (l : Label) : Option Coroutine :=
  (s.scheduler.step options.scheduler l).map fun t => { s with scheduler := t }

/-- `MakeReady`, which does nothing to a routine that does not wait. -/
def makeReady (s : Coroutine) (r : Nat) : Coroutine :=
  (s.act options (.makeReady r)).getD s

def setFd (fd : Int) (c : Option FdContext) : Coroutine :=
  { s with fds := update s.fds fd c }

def setWheel (wheel : TimerWheel Nat) : Coroutine :=
  { s with timerWheel := wheel }

def setIoWait (r : Nat) (k : Option Nat) : Coroutine :=
  { s with ioWait := update s.ioWait r k }

def setOperation (k : Nat) (f : IoWaitOperation → IoWaitOperation) : Coroutine :=
  { s with operations := s.operations.modify k f }

/-! ## Waiting for descriptors -/

/-- `UpdateInterest`, by `EPOLL_CTL_ADD` or `EPOLL_CTL_MOD`. -/
def updateInterest (fd : Int) : Coroutine × Bool :=
  match s.fds fd with
  | none => (s, true)
  | some c =>
    let answered := { s with epollCtl := s.epollCtl.tail }
    if s.epollCtl.headD true then
      (answered.setFd fd (some { c with registered := true, interest := c.wanted }), true)
    else (answered, false)

/-- `EPOLL_CTL_DEL`, whose answer nobody reads. -/
def deregister (fd : Int) (c : FdContext) : Coroutine :=
  { s with epollCtl := s.epollCtl.tail }.setFd fd
    (some { c with registered := false, interest := {} })

def untime (k : Nat) (op : IoWaitOperation) : Coroutine :=
  if op.deadlineMs.isSome then s.setWheel (s.timerWheel.remove (operationNode k)) else s

/-- The operation leaves its slot, if it is there, and epoll is told. -/
def detach (k : Nat) (op : IoWaitOperation) : Coroutine × Bool :=
  match s.fds op.fd with
  | some c =>
    if c.slot op.direction = some k then
      (s.setFd op.fd (some (c.setSlot none op.direction))).updateInterest op.fd
    else (s, true)
  | none => (s, true)

def completeWait (k : Nat) (result : WaitResult) (reading : Option Nat) :
    Coroutine × Bool :=
  match s.operations[k]? with
  | none => (s, true)
  | some op =>
    let noted := s.setOperation k fun op => { op with result := result }
    match (noted.untime k op).detach k op with
    | (t, false) => ({ t with stranded := op.routine :: t.stranded }, false)
    | (t, true) =>
      let cleared := if t.ioWait op.routine = some k then t.setIoWait op.routine none else t
      let woken := cleared.setOperation k fun op =>
        { op with completions := op.completions ++ [(result, reading)] }
      ({ woken with stranded := woken.stranded.filter (· ≠ op.routine) }.makeReady options
        op.routine, true)

/-- The waiter `slot` of a context is completed if `ends` says that the events end its wait. -/
def completeSlot (slot : Option Nat) (ends : Bool) : Coroutine × Bool :=
  match slot with
  | some k => if ends then s.completeWait options k .ioReady none else (s, true)
  | none => (s, true)

def completeIo (fd : Int) (events : EpollEvents) : Coroutine × Bool :=
  match s.completeSlot options ((s.fds fd).bind FdContext.read)
    (events.epollin || events.epollerr || events.epollhup || events.epollrdhup) with
  | (s, false) => (s, false)
  | (s, true) =>
    match s.completeSlot options ((s.fds fd).bind FdContext.write)
      (events.epollout || events.epollerr || events.epollhup) with
    | (s, false) => (s, false)
    | (s, true) =>
      match s.fds fd with
      | some c =>
        if (events.epollerr || events.epollhup || events.epollrdhup) = true ∧ c.read = none ∧
            c.write = none ∧ c.registered then
          (s.deregister fd c, true)
        else (s, true)
      | none => (s, true)

/-- The handler of `Register`: what was done for the operation `k` is undone. -/
def rollback (k : Nat) (op : IoWaitOperation) : Coroutine :=
  let untimed := s.untime k op
  let freed :=
    match untimed.fds op.fd with
    | some c =>
      if c.slot op.direction = some k then
        untimed.setFd op.fd (some (c.setSlot none op.direction))
      else untimed
    | none => untimed
  (freed.updateInterest op.fd).1

/-- The operation enters the timer wheel, if it has a deadline. -/
def addTimer (k : Nat) (op : IoWaitOperation) : Except String (TimerWheel Nat) :=
  match op.deadlineMs with
  | some deadlineMs => (s.timerWheel.setDeadline (operationNode k) deadlineMs).add (operationNode k)
  | none => .ok s.timerWheel

/-- `Register` for the operation `op`, which gets the number `operations.length`. -/
def register (op : IoWaitOperation) : Coroutine × Bool :=
  let k := s.operations.length
  let c := (s.fds op.fd).getD {}
  if (c.slot op.direction).isSome then (s.setFd op.fd (some c), false)
  else
    let taken := s.setFd op.fd (some (c.setSlot (some k) op.direction))
    match taken.addTimer k op with
    | .error _ => (taken.rollback k op, false)
    | .ok wheel =>
      match (taken.setWheel wheel).updateInterest op.fd with
      | (t, false) => (t.rollback k op, false)
      | (t, true) => ({ t with operations := t.operations ++ [op] }, true)

/-- `Await`, up to the point where the coroutine has control again. -/
def await (fd : Int) (direction : WaitDirection) (timeoutMs nowMs sp : Nat) :
    Option Coroutine :=
  match s.scheduler.current with
  | none => none
  | some r =>
    if timeoutMs = 0 then some s
    else
      let op : IoWaitOperation :=
        { routine := r
          fd := fd
          direction := direction
          deadlineMs :=
            if timeoutMs = kNoTimeout then none else some (deadlineAfter nowMs timeoutMs) }
      match s.register op with
      | (t, false) => some t
      | (t, true) => (t.setIoWait r (some s.operations.length)).act options (.suspend .waitIo sp)

def cancelWait (r : Nat) : Coroutine × Bool :=
  match s.ioWait r with
  | some k =>
    if s.scheduler.routines[r]?.any fun x => x.state = .waitIo then
      s.completeWait options k .cancelled none
    else (s, true)
  | none => (s, true)

def cancelSlot : Option Nat → Coroutine × Bool
  | some k => s.completeWait options k .cancelled none
  | none => (s, true)

def cancelFd (fd : Int) : Coroutine × Bool :=
  match s.fds fd with
  | none => (s, true)
  | some c =>
    let deregistered :=
      if c.registered then s.deregister fd { c with read := none, write := none }
      else s.setFd fd (some { c with read := none, write := none })
    match deregistered.cancelSlot options c.read with
    | (s, false) => (s, false)
    | (s, true) =>
      match s.cancelSlot options c.write with
      | (s, false) => (s, false)
      | (s, true) => (s.setFd fd none, true)

/-! ## Timers and flushes -/

def yieldFor (milliseconds nowMs sp : Nat) : Option Coroutine :=
  match s.scheduler.current with
  | none => none
  | some r =>
    let node := s.timerWheel.node (routineNode r)
    if milliseconds = 0 then some s
    else if node.scheduled = true ∨ node.list ≠ none then none
    else
      let timed := s.timerWheel.setDeadline (routineNode r) (deadlineAfter nowMs milliseconds)
      match timed.add (routineNode r) with
      | .error _ => some (s.setWheel timed)
      | .ok wheel => (s.setWheel wheel).act options (.suspend .waitTimer sp)

def prepareTimerResume (s : Coroutine) (r : Nat) : Option Coroutine :=
  (s.setWheel (s.timerWheel.remove (routineNode r))).act options (.prepareTimerResume r)

def scheduleAtFlush (r : Nat) : Coroutine :=
  if (s.scheduler.routines[r]?.any fun x => x.state = .waitEvent) = true ∧
      s.flushQueued r = false then
    { s with
      flushQueued := update s.flushQueued r true
      flushQueue := s.flushQueue ++ [r] }
  else s

def yieldUntilFlush (sp : Nat) : Option Coroutine :=
  match s.scheduler.current with
  | none => none
  | some r =>
    if s.flushQueued r then none
    else
      { s with
        flushQueued := update s.flushQueued r true
        flushQueue := s.flushQueue ++ [r] }.act options (.suspend .waitEvent sp)

def flushRoutine (r : Nat) : Coroutine :=
  let taken := { s with flushQueued := update s.flushQueued r false }
  if taken.scheduler.routines[r]?.any fun x => x.state = .waitEvent then
    taken.makeReady options r
  else taken

/-- `FlushScheduledEvents`; its first loop moves the deadline by whole intervals beyond `nowMs`. -/
def flushScheduledEvents (nowMs : Nat) : Coroutine :=
  if nowMs < s.nextFlushDeadlineMs then s
  else
    let intervals := (nowMs - s.nextFlushDeadlineMs) / options.flushIntervalMs + 1
    let moved :=
      { s with
        nextFlushDeadlineMs := s.nextFlushDeadlineMs + intervals * options.flushIntervalMs }
    { moved.flushQueue.foldl (flushRoutine options) moved with flushQueue := [] }

/-- The loop of `Poll` over the expired list, which ends with the list: `CompleteTimeout` for the
    operations and `CompleteTimer` for the routines. -/
def completeExpired (nowMs : Nat) : Nat → Coroutine → Coroutine × Bool
  | 0, s => (s, true)
  | fuel + 1, s =>
    match s.timerWheel.expired with
    | [] => (s, true)
    | v :: _ =>
      let popped := s.setWheel (s.timerWheel.unlink v)
      let node := popped.timerWheel.node v
      if node.type = .none then (popped, false)
      else if nowMs < node.deadlineMs then
        match popped.timerWheel.add v with
        | .error _ => (popped, false)
        | .ok wheel => completeExpired nowMs fuel (popped.setWheel wheel)
      else if node.type = .ioWait then
        match popped.completeWait options (v / 2) .timeout (some nowMs) with
        | (t, false) => (t, false)
        | (t, true) => completeExpired nowMs fuel t
      else completeExpired nowMs fuel (popped.makeReady options (v / 2))

def completeEvents : List (Int × EpollEvents) → Coroutine → Coroutine × Bool
  | [], s => (s, true)
  | (fd, events) :: rest, s =>
    match s.completeIo options fd events with
    | (t, false) => (t, false)
    | (t, true) => completeEvents rest t

/-- `Poll`, for the events that `epoll_wait` reports and the clock after it. -/
def poll (events : List (Int × EpollEvents)) (nowMs : Nat) : Coroutine × Bool :=
  match completeEvents options events s with
  | (t, false) => (t, false)
  | (t, true) =>
    let flushed := if t.flushQueue ≠ [] then t.flushScheduledEvents options nowMs else t
    let advanced := flushed.setWheel (flushed.timerWheel.advance nowMs)
    completeExpired options nowMs advanced.timerWheel.expired.length advanced

/-! ## Routines -/

/-- The pooled routines that have no owner but `routines_` and the pool, if the user holds handles
    to `held`. -/
def unreferenced (held : List Nat) : List Nat :=
  s.scheduler.pool.filter fun r =>
    decide (r ∉ held) && decide (r ∉ s.flushQueue) && decide (r ∉ s.scheduler.readyQueue)

/-- The part of a new routine that the scheduler does not look at. `Reset` terminates the program
    if the routine is in the timer wheel. -/
def reset (r : Nat) : Option Coroutine :=
  let node := s.timerWheel.node (routineNode r)
  if node.scheduled = true ∨ node.list ≠ none then none
  else
    some { s with
      timerWheel := s.timerWheel.setDeadline (routineNode r) 0
      flushQueued := update s.flushQueued r false
      ioWait := update s.ioWait r none
      onFinish := update s.onFinish r false }

def schedulerCreate (stackSize : Nat) (hs : 0 < stackSize) (held : List Nat) :
    Option (Coroutine × Nat) :=
  match s.scheduler.create options.scheduler stackSize hs (s.unreferenced held) with
  | none => none
  | some (t, r) => ({ s with scheduler := t }.reset r).map fun s => (s, r)

/-- The new routine is made ready and queued, as both `Spawn`s do. -/
def publish (r : Nat) : Coroutine :=
  { s with
    scheduler := (s.scheduler.setRoutine r fun x => { x with state := .ready }).enqueueReady r }

def createCo (held : List Nat) : Option (Coroutine × Nat) :=
  (s.schedulerCreate options options.scheduler.poolStackSize options.scheduler.poolStackSize_pos
    held).map fun (s, r) => ({ s with onFinish := update s.onFinish r true }, r)

/-- The routine counts as live from here on. -/
def account (r : Nat) : Coroutine :=
  { s with liveRoutineCount := s.liveRoutineCount + 1, started := r :: s.started }

def spawn (held : List Nat) : Option Coroutine :=
  (s.createCo options held).map fun (s, r) => (s.account r).publish r

def resume (s : Coroutine) (r sp : Nat) : Option Coroutine :=
  match s.scheduler.routines[r]? with
  | none => none
  | some x =>
    if x.state = .ready ∧ x.queued = true then some s
    else
      let prepared := if x.state = .waitTimer then s.prepareTimerResume options r else some s
      prepared.bind fun t =>
        (t.act options (.resume r sp)).map fun t => if x.state = .init then t.account r else t

/-- The entry function of the current coroutine has returned: `YieldCurrent`, and `FinishRoutine`
    with its callback `OnRoutineFinished`. Both of the tests terminate the program. -/
def finish (s : Coroutine) (sp : Nat) : Option Coroutine :=
  match s.scheduler.current with
  | none => none
  | some r =>
    if (s.onFinish r = true ∧ s.liveRoutineCount = 0) ∨
        (0 < Scheduler.poolLimit options.scheduler ∧ s.ioWait r ≠ none) then none
    else
      (s.act options (.finish sp)).map fun t =>
        { t with
          liveRoutineCount :=
            if s.onFinish r then s.liveRoutineCount - 1 else s.liveRoutineCount
          started := s.started.erase r }

end Coroutine

/-! ## Steps -/

inductive CoroutineOp where
  | createCo (held : List Nat)
  | spawn (held : List Nat)
  | resume (r sp : Nat)
  /-- `CoroutineScheduler::Create`, `Spawn` and `Resume`, which `CoroutineScheduler::Current()`
      gives to any code on the thread. -/
  | schedulerCreate (stackSize : Nat) (held : List Nat)
  | schedulerSpawn (stackSize : Nat) (held : List Nat)
  | schedulerResume (r sp : Nat)
  /-- One round of `RunReady`, from the root. -/
  | runReady
  | yield (sp : Nat)
  | yieldFor (milliseconds nowMs sp : Nat)
  | yieldUntilFlush (sp : Nat)
  | await (fd : Int) (direction : WaitDirection) (timeoutMs nowMs sp : Nat)
  | scheduleAtFlush (r : Nat)
  | cancelWait (r : Nat)
  | cancelFd (fd : Int)
  | poll (events : List (Int × EpollEvents)) (nowMs : Nat)
  | finish (sp : Nat)
  | poke (address : Nat) (byte : UInt8)
  /-- The answers of the next calls of `epoll_ctl`. -/
  | epollCtl (outcomes : List Bool)
  deriving DecidableEq

namespace Coroutine

/-- One step; `none` where the call throws without an effect or terminates the program. A `Poll`
    that throws inside its expired list leaves nodes in a list that is gone: nothing is said of what
    follows. -/
def step (options : CoroutineOptions) (s : Coroutine) (op : CoroutineOp) : Option Coroutine :=
  if s.timerWheel.expired ≠ [] then none
  else
    match op with
    | .createCo held => (s.createCo options held).map Prod.fst
    | .spawn held => s.spawn options held
    | .resume r sp => s.resume options r sp
    | .schedulerCreate stackSize held =>
      if hs : 0 < stackSize then (s.schedulerCreate options stackSize hs held).map Prod.fst
      else none
    | .schedulerSpawn stackSize held =>
      if hs : 0 < stackSize then
        (s.schedulerCreate options stackSize hs held).map fun (s, r) => s.publish r
      else none
    | .schedulerResume r sp => s.act options (.resume r sp)
    | .runReady => if s.scheduler.current = none then s.act options (.runReady 0) else none
    | .yield sp => s.act options (.suspend .waitEvent sp)
    | .yieldFor milliseconds nowMs sp => s.yieldFor options milliseconds nowMs sp
    | .yieldUntilFlush sp => s.yieldUntilFlush options sp
    | .await fd direction timeoutMs nowMs sp => s.await options fd direction timeoutMs nowMs sp
    | .scheduleAtFlush r => some (s.scheduleAtFlush r)
    | .cancelWait r => some (s.cancelWait options r).1
    | .cancelFd fd => some (s.cancelFd options fd).1
    | .poll events nowMs => some (s.poll options events nowMs).1
    | .finish sp => s.finish options sp
    | .poke address byte => s.act options (.poke address byte)
    | .epollCtl outcomes => some { s with epollCtl := outcomes }

end Coroutine

end CoroRpc.Runtime
