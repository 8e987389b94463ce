import CoroRpc.Lib.BigEndian
import CoroRpc.Lib.Run

/-!
# The coroutine scheduler and its shared stacks

`rpc_src/runtime/coroutine_scheduler.cpp` with `coroutine_pool.cpp`, `coroutine_routine.h` and the
context switch of `coroutine_context_x86_64.S`. Many coroutines live on a few shared stack slots.
A slot's memory belongs to its `occupant`; everybody else who lives on the slot has the used part
of the stack, from the stack pointer up to the top, in a heap snapshot.

The model keeps memory byte by byte. A stack is a pair of addresses and the bytes between them, a
coroutine that runs may write any byte of its own stack, and it gives up control at any stack
pointer inside it. Code that runs between the capture of the stack pointer and the switch itself
is not modelled: `coroutine_stack_pointer()` and the `rsp` that the switch stores are one value.

`gaveUp` is not in the source. It is what a coroutine's stack held when the coroutine last gave
up control, which is what has to be there again when control comes back.
-/

namespace CoroRpc.Runtime

open Lib

inductive CoroutineState where
  | init
  | ready
  | running
  | waitIo
  | waitTimer
  | waitEvent
  | finished
  deriving DecidableEq

/-- The states that `SuspendCurrent` accepts. -/
def CoroutineState.isWaiting : CoroutineState → Bool
  | .waitIo | .waitTimer | .waitEvent => true
  | _ => false

/-! ## Stacks -/

/-- A mapped stack with its contents. `SharedStackSlot` adds an occupant to a `CoroutineStack`;
    an owned stack has none. -/
structure Stack where
  usableBottom : Nat
  stackTop : Nat
  isShared : Bool
  occupant : Option Nat
  bytes : Nat → UInt8
  bottom_pos : 0 < usableBottom
  bottom_lt : usableBottom < stackTop

namespace Stack

/-- `CoroutineStack(usable_size)` mapped at `mapping`: a guard page, then whole pages. -/
def mmap (pageSize usableSize mapping : Nat) (isShared : Bool) (hp : 0 < pageSize)
    (hs : 0 < usableSize) : Stack where
  usableBottom := mapping + pageSize
  stackTop := mapping + pageSize + (usableSize + pageSize - 1) / pageSize * pageSize
  isShared := isShared
  occupant := none
  bytes _ := 0
  bottom_pos := by omega
  bottom_lt := by
    have h : 0 < (usableSize + pageSize - 1) / pageSize := Nat.div_pos (by omega) hp
    have h' := Nat.mul_pos h hp
    omega

variable (k : Stack)

def used (sp : Nat) : Bytes :=
  (List.range (k.stackTop - sp)).map fun i => k.bytes (sp + i)

/-- `rep movsb` to `start`. -/
def copyIn (start : Nat) (data : Bytes) : Stack :=
  { k with
    bytes := fun a =>
      if start ≤ a ∧ a < start + data.length then data.getD (a - start) 0 else k.bytes a }

def poke (a : Nat) (byte : UInt8) : Stack :=
  { k with bytes := fun b => if b = a then byte else k.bytes b }

end Stack

/-! ## State -/

/-- `Coroutine_Routine`, as far as the scheduler looks at it. -/
structure Routine where
  /-- The stack it runs on: the slot `shared_stack_`, or its own. -/
  stack : Nat
  state : CoroutineState := .init
  queued : Bool := false
  /-- `context_.rsp`, or `none` while `context_.rip` is 0. -/
  context : Option Nat := none
  stackSnapshot : Bytes := []
  stackSnapshotBegin : Nat := 0
  /-- The stack pointer and the used part of the stack at the last switch away. -/
  gaveUp : Option (Nat × Bytes) := none
  deriving DecidableEq

/-- The constructor's options, and where `mmap` puts each stack. -/
structure SchedulerOptions where
  sharedStackCount : Nat
  sharedStackSize : Nat
  poolPrewarmCount : Nat
  poolMaxSize : Nat
  poolStackSize : Nat
  pageSize : Nat
  mapping : Nat → Nat
  pageSize_pos : 0 < pageSize
  sharedStackSize_pos : 0 < sharedStackSize
  poolStackSize_pos : 0 < poolStackSize

structure Scheduler where
  stackTable : List Stack
  routines : List Routine
  readyQueue : List Nat
  /-- Innermost first, without the root. -/
  callStack : List Nat
  nextSharedStack : Nat
  current : Option Nat
  pool : List Nat

namespace Scheduler

variable (s : Scheduler)

def setRoutine (r : Nat) (f : Routine → Routine) : Scheduler :=
  { s with routines := s.routines.modify r f }

def setStack (j : Nat) (f : Stack → Stack) : Scheduler :=
  { s with stackTable := s.stackTable.modify j f }

/-! ## Creation -/

variable (options : SchedulerOptions)

/-- `CreateRaw`: on the next shared stack in turn, or on a stack of its own where there are no
    shared ones. -/
def createRaw (s : Scheduler) (stackSize : Nat)
    (hs : 0 < stackSize) : Scheduler :=
  if options.sharedStackCount = 0 then
    { s with
      stackTable := s.stackTable ++ [Stack.mmap options.pageSize stackSize
        (options.mapping s.stackTable.length) false options.pageSize_pos hs]
      routines := s.routines ++ [{ stack := s.stackTable.length }] }
  else
    { s with
      routines := s.routines ++ [{ stack := s.nextSharedStack % options.sharedStackCount }]
      nextSharedStack := s.nextSharedStack + 1 }

/-- `CoroutinePool::Acquire`: the last pooled routine that only the scheduler refers to (those in
    `unreferenced`) and whose own stack, if it has one, is large enough. -/
def acquire (stackSize : Nat) (unreferenced : List Nat) : Option (Nat × List Nat) :=
  let suits (r : Nat) : Bool :=
    decide (r ∈ unreferenced) && (s.routines[r]?.any fun x => s.stackTable[x.stack]?.any fun k =>
        k.isShared || decide (stackSize ≤ k.stackTop - k.usableBottom))
  match s.pool.reverse.findIdx? suits with
  | none => none
  | some n =>
    let candidate := s.pool.length - 1 - n
    -- The source moves the back of the vector into the gap.
    match s.pool[candidate]?, s.pool.getLast? with
    | some r, some last => some (r, (s.pool.set candidate last).dropLast)
    | _, _ => none

/-- `Reset`; it terminates the program unless the routine has finished. -/
def reset (r : Nat) : Option Scheduler :=
  match s.routines[r]? with
  | some x =>
    if x.state = .finished then some (s.setRoutine r fun x => { stack := x.stack }) else none
  | none => none

def create (s : Scheduler) (stackSize : Nat) (hs : 0 < stackSize)
    (unreferenced : List Nat) : Option (Scheduler × Nat) :=
  match s.acquire stackSize unreferenced with
  | some (r, pool) => ({ s with pool := pool }.reset r).map fun s' => (s', r)
  | none => some (s.createRaw options stackSize hs, s.routines.length)

def enqueueReady (r : Nat) : Scheduler :=
  match s.routines[r]? with
  | some x =>
    if x.state = .ready ∧ x.queued = false then
      { s.setRoutine r fun x => { x with queued := true } with readyQueue := s.readyQueue ++ [r] }
    else s
  | none => s

/-- One round of the constructor's prewarming loop. -/
def prewarm (s : Scheduler) : Scheduler :=
  let created := s.createRaw options options.poolStackSize options.poolStackSize_pos
  { created.setRoutine s.routines.length fun x => { x with state := .finished } with
    pool := s.pool ++ [s.routines.length] }

/-- `pool_->max_pool_size_`. -/
def poolLimit : Nat :=
  if options.poolMaxSize > 0 then options.poolMaxSize else options.poolPrewarmCount * 2

def init : Scheduler :=
  let slots := (List.range options.sharedStackCount).map fun j =>
    Stack.mmap options.pageSize options.sharedStackSize (options.mapping j) true
      options.pageSize_pos options.sharedStackSize_pos
  let empty : Scheduler :=
    { stackTable := slots
      routines := []
      readyQueue := []
      callStack := []
      nextSharedStack := 0
      current := none
      pool := [] }
  (List.range (min options.poolPrewarmCount (poolLimit options))).foldl
    (fun s _ => s.prewarm options) empty

/-! ## Switching -/

/-- `SaveSharedStack`, with the stack pointer to use where the source passes one. -/
def saveSharedStack (r : Nat) (stackPointer : Option Nat) :
    Except String Scheduler :=
  match s.routines[r]? with
  | none => .ok s
  | some x =>
    match s.stackTable[x.stack]? with
    | none => .ok s
    | some k =>
      if k.isShared = false ∨ x.state = .init ∨ x.state = .finished then .ok s
      else
        let savedRsp := stackPointer.getD (x.context.getD 0)
        if savedRsp < k.usableBottom ∨ savedRsp > k.stackTop then
          .error "saved coroutine stack pointer is outside its stack"
        else
          .ok (s.setRoutine r fun x =>
            { x with stackSnapshotBegin := savedRsp, stackSnapshot := k.used savedRsp })

/-- `PrepareSharedStack` for the routine `r` that control goes to, while `current` gives it up at
    `stackPointer`: the new state, and what the switch has to copy back and where to. -/
def prepareSharedStack (r : Nat) (current : Option Nat) (stackPointer : Nat) :
    Except String (Scheduler × Option (Nat × Bytes)) :=
  match s.routines[r]? with
  | none => .ok (s, none)
  | some x =>
    match s.stackTable[x.stack]? with
    | none => .ok (s, none)
    | some k =>
      if k.isShared = false ∨ k.occupant = some r then .ok (s, none)
      else
        let saved :=
          match k.occupant with
          | some o => s.saveSharedStack o (if current = some o then some stackPointer else none)
          | none => .ok s
        match saved with
        | .error e => .error e
        | .ok s =>
          let s := s.setStack x.stack fun k => { k with occupant := some r }
          if x.stackSnapshot = [] then .ok (s, none)
          else if x.stackSnapshotBegin = 0 then
            .error "shared stack snapshot has no restore address"
          else .ok (s, some (x.stackSnapshotBegin, x.stackSnapshot))

/-- `coroutine_context_switch`: store the stack pointer of the coroutine that is left (the root
    has a context of its own), copy the snapshot of the one that is entered. -/
def contextSwitch (left : Option Nat) (stackPointer : Nat) (entered : Option Nat)
    (restore : Option (Nat × Bytes)) : Scheduler :=
  let s :=
    match left with
    | some r => s.setRoutine r fun x => { x with context := some stackPointer }
    | none => s
  match entered, restore with
  | some r, some (start, data) =>
    match s.routines[r]? with
    | some x => s.setStack x.stack fun k => k.copyIn start data
    | none => s
  | _, _ => s

/-- Note what the coroutine that gives up control at `stackPointer` has on its stack. -/
def noteGaveUp (r : Nat) (stackPointer : Nat) : Scheduler :=
  match s.routines[r]? with
  | some x =>
    match s.stackTable[x.stack]? with
    | some k => s.setRoutine r fun x => { x with gaveUp := some (stackPointer, k.used stackPointer) }
    | none => s
  | none => s

/-- The current coroutine, if there is one, gives up control. -/
def leave (stackPointer : Nat) : Scheduler :=
  match s.current with
  | some r => s.noteGaveUp r stackPointer
  | none => s

/-- `InitializeContext`: the stack pointer starts one word below the top. -/
def initializeContext (r : Nat) : Scheduler :=
  match s.routines[r]? with
  | some x =>
    match x.context, s.stackTable[x.stack]? with
    | none, some k => s.setRoutine r fun x => { x with context := some (k.stackTop - 8) }
    | _, _ => s
  | none => s

/-- `Resume`, called at `stackPointer` by the current coroutine or by the root. -/
def resume (r stackPointer : Nat) : Except String Scheduler :=
  match s.routines[r]? with
  | none => .error "coroutine belongs to a different scheduler"
  | some x =>
    if s.current = some r then .error "a coroutine cannot resume itself"
    else if x.queued then .error "a queued coroutine must be resumed by RunReady"
    else if x.state ≠ .init ∧ x.state ≠ .ready ∧ x.state ≠ .waitEvent then
      .error "coroutine is not resumable"
    else
      let caller := s.current
      match ((s.leave stackPointer).initializeContext r).prepareSharedStack r caller
        stackPointer with
      | .error e => .error e
      | .ok (prepared, restore) =>
        let entering :=
          { prepared.setRoutine r fun x => { x with state := .running } with
            callStack := r :: prepared.callStack
            current := some r }
        .ok (entering.contextSwitch caller stackPointer (some r) restore)

def finishRoutine (s : Scheduler) (r : Nat) : Scheduler :=
  match s.routines[r]? with
  | none => s
  | some x =>
    let s := s.setStack x.stack fun k =>
      if k.occupant = some r then { k with occupant := none } else k
    let s := s.setRoutine r fun x => { x with stackSnapshot := [], stackSnapshotBegin := 0 }
    if s.pool.length < poolLimit options then { s with pool := s.pool ++ [r] } else s

/-- `YieldCurrent` with `next` at `stackPointer`, and what the caller's `Resume` does when it has
    control again. -/
def yieldCurrent (s : Scheduler) (next : CoroutineState)
    (stackPointer : Nat) : Except String Scheduler :=
  match s.current, s.callStack with
  | some r, top :: callers =>
    if top ≠ r then .error "terminate"
    else
      let caller := callers.head?
      let noted :=
        if next = .finished then s.setRoutine r fun x => { x with gaveUp := none }
        else s.leave stackPointer
      let left :=
        { noted.setRoutine r fun x => { x with state := next } with
          callStack := callers
          current := caller }
      let prepared :=
        match caller with
        | some c => left.prepareSharedStack c (some r) stackPointer
        | none => .ok (left, none)
      match prepared with
      | .error e => .error e
      | .ok (prepared, restore) =>
        let switched := prepared.contextSwitch (some r) stackPointer caller restore
        if next = .finished then .ok (switched.finishRoutine options r)
        else if next = .ready then .ok (switched.enqueueReady r)
        else .ok switched
  | _, _ => .error "terminate"

end Scheduler

/-! ## Steps -/

inductive Label where
  /-- `Create`, from the root or from a coroutine. -/
  | create (stackSize : Nat) (unreferenced : List Nat)
  | spawn (stackSize : Nat) (unreferenced : List Nat)
  /-- `Resume(r)`, at this stack pointer where a coroutine calls it. -/
  | resume (r stackPointer : Nat)
  /-- `RunReady` takes the front of the ready queue. -/
  | runReady (stackPointer : Nat)
  | makeReady (r : Nat)
  /-- `IoManager::PrepareTimerResume`. -/
  | prepareTimerResume (r : Nat)
  /-- The current coroutine suspends. -/
  | suspend (waiting : CoroutineState) (stackPointer : Nat)
  /-- The entry function of the current coroutine has returned. -/
  | finish (stackPointer : Nat)
  /-- The current coroutine writes one byte of its stack. -/
  | poke (address : Nat) (byte : UInt8)
  deriving DecidableEq

/-- Whether the label is one that moves control. -/
def Label.switches : Label → Bool
  | .resume .. | .runReady .. | .suspend .. | .finish .. => true
  | _ => false

namespace Scheduler

def onStack (s : Scheduler) (stackPointer : Nat) : Bool :=
  match s.current with
  | none => true
  | some r =>
    s.routines[r]?.any fun x => s.stackTable[x.stack]?.any fun k =>
      decide (k.usableBottom ≤ stackPointer ∧ stackPointer ≤ k.stackTop)

def step (options : SchedulerOptions) (s : Scheduler) : Label → Option Scheduler
  | .create stackSize unreferenced =>
    if hs : 0 < stackSize then (s.create options stackSize hs unreferenced).map Prod.fst else none
  | .spawn stackSize unreferenced =>
    if hs : 0 < stackSize then
      (s.create options stackSize hs unreferenced).map fun (s', r) =>
        (s'.setRoutine r fun x => { x with state := .ready }).enqueueReady r
    else none
  | .resume r stackPointer =>
    if s.onStack stackPointer then (s.resume r stackPointer).toOption else none
  | .runReady stackPointer =>
    match s.readyQueue with
    | [] => none
    | r :: rest =>
      if s.onStack stackPointer then
        ({ s.setRoutine r fun x => { x with queued := false } with readyQueue := rest }.resume r
          stackPointer).toOption
      else none
  | .makeReady r =>
    match s.routines[r]? with
    | some x =>
      if x.state.isWaiting then
        some ((s.setRoutine r fun x => { x with state := .ready }).enqueueReady r)
      else none
    | none => none
  | .prepareTimerResume r =>
    match s.routines[r]? with
    | some x =>
      if x.state = .waitTimer then some (s.setRoutine r fun x => { x with state := .ready })
      else none
    | none => none
  | .suspend waiting stackPointer =>
    if waiting.isWaiting ∧ s.onStack stackPointer then
      (s.yieldCurrent options waiting stackPointer).toOption
    else none
  | .finish stackPointer =>
    if s.onStack stackPointer then (s.yieldCurrent options .finished stackPointer).toOption
    else none
  | .poke address byte =>
    match s.current with
    | none => none
    | some r =>
      match s.routines[r]? with
      | none => none
      | some x => some (s.setStack x.stack fun k => k.poke address byte)

end Scheduler

end CoroRpc.Runtime
