import CoroRpc.Lib.Run

/-!
# Submitting tasks to the client and stopping it

`RpcClient::SubmitTask`, `PickShard` and `Stop`, `ClientShard::Post`, `TryReserve`, `Release`,
`Run` and `Stop` (`rpc_src/transport/rpc_client.cpp`), and the drive loop of the shard's runtime:
`Coroutine::Submit`, `DrainInbox`, `DriveUntil`, `Join` (`rpc_src/runtime/coroutine_runtime.cpp`).

The parties are the `SubmitTask` calls (any number, each on a thread of its own), the thread of
each shard, the task routines that run on it, and the one effective `Stop` call. They meet in the
flags `stopping_`, `accepting`, `stopping`, the shard's mutex, its `reserved_calls` and its
inbox; a label is one atomic operation on one of these.

Where the model is wider than the source: `Poll` may return at any time (so `Wake` needs no
state), `RunReady` may leave any routine for the next round, and routines other than tasks
(readers, writers, retirements) come and go as they like. Left out are the runtime's start-up,
which is over before a shard is visible to `PickShard`, and `std::terminate`, after which there
is no next state: a `Release` at zero has no successor here.
-/

namespace CoroRpc.Submit

/-- Where a `SubmitTask` call is; each constructor names the operation it is about to do, on
    shard `k`. -/
inductive CallPc where
  /-- `PickShard`: `stopping_.load()`. -/
  | pickStopping
  /-- `PickShard`: `next_shard_.fetch_add(1)`. -/
  | pickNext
  /-- `PickShard`: load `reserved_calls` of the first candidate. -/
  | pickFirst (i j : Nat)
  /-- `PickShard`: load `reserved_calls` of the second candidate. -/
  | pickSecond (i j first : Nat)
  /-- `TryReserve`: `accepting.load()`. -/
  | reserveAccepting (k : Nat)
  /-- `TryReserve`: `reserved_calls.load()`. -/
  | reserveLoad (k : Nat)
  /-- `TryReserve`: `compare_exchange_weak(current, current + 1)`. -/
  | reserveExchange (k current : Nat)
  /-- `TryReserve`: the second `accepting.load()`. -/
  | reserveRecheck (k : Nat)
  /-- `TryReserve`: `fetch_sub` after the second load said no. -/
  | reserveUndo (k : Nat)
  /-- `Post`: lock the mutex. -/
  | postLock (k : Nat)
  /-- `Post`, mutex held: `accepting.load()`. -/
  | postCheck (k : Nat)
  /-- `Post`, mutex held: `runtime->Submit`. -/
  | postPush (k : Nat)
  /-- `Post`, mutex held: leave the `lock_guard` scope. -/
  | postUnlock (k : Nat) (posted : Bool)
  /-- `Release` after `Post` returned false. -/
  | release (k : Nat)
  /-- `CompleteTask` of a rejected task. -/
  | complete
  | returned
  deriving DecidableEq

inductive Place where
  /-- In the hands of its `SubmitTask` call. -/
  | held
  /-- In the inbox of shard `k`. -/
  | queued (k : Nat)
  /-- A routine of shard `k` in the ready queue. -/
  | ready (k : Nat)
  /-- A routine of shard `k`, suspended inside `task->Run()`. -/
  | suspended (k : Nat)
  /-- `CompleteTask` has returned in the routine, `shard->Release()` is next. -/
  | completed (k : Nat)
  | finished
  deriving DecidableEq

structure Submission where
  pc : CallPc
  place : Place
  /-- How often the task has been passed to `CompleteTask`. -/
  completions : Nat
  deriving DecidableEq

/-- What lies in a shard's inbox: a task, or a closure of another origin (a retirement). -/
inductive Posted where
  | task (i : Nat)
  | other
  deriving DecidableEq

inductive Owner where
  | call (i : Nat)
  | stopper
  deriving DecidableEq

/-- Where a shard's thread is in `DriveUntil`, or after it. -/
inductive ShardPc where
  /-- `while (!stop())`. -/
  | test
  | drainInbox
  | runReady
  /-- `if (stop()) break`. -/
  | retest
  | poll
  /-- Between `RunUntil` and `Join`: close the connections. -/
  | closing
  | exited
  deriving DecidableEq

structure Shard where
  accepting : Bool := true
  stopping : Bool := false
  mutex : Option Owner := none
  inbox : List Posted := []
  reservedCalls : Nat := 0
  liveRoutineCount : Nat := 0
  /-- How many of the live routines are not tasks. -/
  others : Nat := 0
  pc : ShardPc := .test
  /-- The loop is that of `Join`, and not that of `RunUntil`. -/
  joining : Bool := false
  deriving DecidableEq

/-- Where the `Stop` call is: `RpcClient::Stop`, then `ClientShard::Stop` of each shard. -/
inductive StopPc where
  | idle
  | closeAccepting (k : Nat)
  | setStopping (k : Nat)
  | lock (k : Nat)
  | unlock (k : Nat)
  | joinThread (k : Nat)
  | returned
  deriving DecidableEq

structure RpcClient where
  hardCapacity : Nat
  stopping : Bool
  nextShard : Nat
  shards : List Shard
  submissions : List Submission
  stopper : StopPc
  deriving DecidableEq

/-- A client with `n` started shards. -/
def RpcClient.init (n hardCapacity : Nat) : RpcClient where
  hardCapacity := hardCapacity
  stopping := false
  nextShard := 0
  shards := List.replicate n {}
  submissions := []
  stopper := .idle

/-- What a task routine does when it moves. -/
inductive TaskMove where
  | suspend
  | makeReady
  | complete
  | release
  deriving DecidableEq

inductive Label where
  /-- A thread enters `SubmitTask`. -/
  | submit
  /-- `SubmitTask` call `i` does its next operation. `random` is what `NextRandom` returns,
      `fails` makes the exchange fail spuriously and `Submit` throw. -/
  | call (i random : Nat) (fails : Bool)
  /-- The thread of shard `k` does its next operation. -/
  | shard (k : Nat)
  /-- The routine of task `i` moves. -/
  | task (i : Nat) (move : TaskMove)
  /-- A closure that is not a task is pushed to the inbox of shard `k`. -/
  | post (k : Nat)
  /-- A routine of shard `k` that is not a task is spawned, or finishes. -/
  | other (k : Nat) (spawn : Bool)
  /-- The stopping thread does its next operation. -/
  | stop
  deriving DecidableEq

namespace RpcClient

variable (s : RpcClient)

def onShard (k : Nat) (f : Shard → Option Shard) : Option RpcClient :=
  match s.shards[k]? with
  | none => none
  | some sh => (f sh).map fun sh' => { s with shards := s.shards.set k sh' }

def goto (i : Nat) (t : Submission) : RpcClient :=
  { s with submissions := s.submissions.set i t }

/-- The next operation of `SubmitTask` call `i`, which is at `t`. -/
def stepCall (i : Nat) (t : Submission) (random : Nat) (fails : Bool) :
    Option RpcClient :=
  match t.pc with
  | .pickStopping =>
    some (s.goto i { t with
      pc := if s.stopping ∨ s.shards.length = 0 then .complete else .pickNext })
  | .pickNext =>
    let count := s.shards.length
    let first := s.nextShard % count
    let second := (first + 1 + random % (count - 1)) % count
    some ({ s with nextShard := (s.nextShard + 1) % 2 ^ 64 }.goto i { t with
      pc := if count = 1 then .reserveAccepting first else .pickFirst first second })
  | .pickFirst first second =>
    s.shards[first]?.map fun sh =>
      s.goto i { t with pc := .pickSecond first second sh.reservedCalls }
  | .pickSecond first second reserved =>
    s.shards[second]?.map fun sh =>
      s.goto i { t with
        pc := .reserveAccepting (if reserved ≤ sh.reservedCalls then first else second) }
  | .reserveAccepting k =>
    s.shards[k]?.map fun sh =>
      s.goto i { t with pc := if sh.accepting then .reserveLoad k else .complete }
  | .reserveLoad k =>
    s.shards[k]?.map fun sh =>
      s.goto i { t with
        pc := if sh.reservedCalls < s.hardCapacity then .reserveExchange k sh.reservedCalls
              else .complete }
  | .reserveExchange k current =>
    match s.shards[k]? with
    | none => none
    | some sh =>
      if sh.reservedCalls = current ∧ fails = false then
        some ({ s with
          shards := s.shards.set k { sh with reservedCalls := current + 1 } }.goto i
          { t with pc := .reserveRecheck k })
      else
        some (s.goto i { t with
          pc := if sh.reservedCalls < s.hardCapacity then .reserveExchange k sh.reservedCalls
                else .complete })
  | .reserveRecheck k =>
    s.shards[k]?.map fun sh =>
      s.goto i { t with pc := if sh.accepting then .postLock k else .reserveUndo k }
  | .reserveUndo k =>
    (s.onShard k fun sh => some { sh with reservedCalls := sh.reservedCalls - 1 }).map
      (·.goto i { t with pc := .complete })
  | .postLock k =>
    (s.onShard k fun sh =>
      if sh.mutex = none then some { sh with mutex := some (.call i) } else none).map
      (·.goto i { t with pc := .postCheck k })
  | .postCheck k =>
    s.shards[k]?.map fun sh =>
      s.goto i { t with pc := if sh.accepting then .postPush k else .postUnlock k false }
  | .postPush k =>
    if fails then some (s.goto i { t with pc := .postUnlock k false })
    else
      (s.onShard k fun sh => some { sh with inbox := sh.inbox ++ [.task i] }).map
        (·.goto i { t with pc := .postUnlock k true, place := .queued k })
  | .postUnlock k posted =>
    (s.onShard k fun sh => some { sh with mutex := none }).map
      (·.goto i { t with pc := if posted then .returned else .release k })
  | .release k =>
    (s.onShard k fun sh =>
      if sh.reservedCalls = 0 then none
      else some { sh with reservedCalls := sh.reservedCalls - 1 }).map
      (·.goto i { t with pc := .complete })
  | .complete =>
    some (s.goto i { t with pc := .returned, completions := t.completions + 1 })
  | .returned => none

end RpcClient

variable (sh : Shard)

/-- The stop condition of the loop the thread is in. -/
def Shard.stops : Bool :=
  if sh.joining then sh.liveRoutineCount == 0 else sh.stopping

/-- Leave the loop: `RunUntil` goes on to the connections, `Join` ends the thread. -/
def Shard.leave : Shard :=
  { sh with pc := if sh.joining then .exited else .closing }

/-- The next operation of the thread of shard `k`, other than taking from the inbox. -/
def Shard.advance : Option Shard :=
  match sh.pc with
  | .test => some (if sh.stops then sh.leave else { sh with pc := .drainInbox })
  | .drainInbox => some { sh with pc := .runReady }
  | .runReady => some { sh with pc := .retest }
  | .retest => some (if sh.stops then sh.leave else { sh with pc := .poll })
  | .poll => some { sh with pc := .test }
  | .closing => some { sh with pc := .test, joining := true }
  | .exited => none

/-- Routines run while the thread is inside `RunReady`, `Poll` or `Close`. -/
def Shard.runs : Bool :=
  match sh.pc with
  | .runReady | .poll | .closing => true
  | _ => false

namespace RpcClient

variable (s : RpcClient)

/-- The next operation of the thread of shard `k`. `DrainInbox` spawns one routine for each
    entry it pops. -/
def stepShard (k : Nat) (sh : Shard) : Option RpcClient :=
  match sh.pc, sh.inbox with
  | .drainInbox, .task i :: rest =>
    s.submissions[i]?.map fun t =>
      { s with
        shards := s.shards.set k { sh with
          inbox := rest, liveRoutineCount := sh.liveRoutineCount + 1 } }.goto i
        { t with place := .ready k }
  | .drainInbox, .other :: rest =>
    some { s with shards := s.shards.set k { sh with
      inbox := rest, liveRoutineCount := sh.liveRoutineCount + 1, others := sh.others + 1 } }
  | _, _ => sh.advance.map fun sh' => { s with shards := s.shards.set k sh' }

def stepTask (i : Nat) (t : Submission) (move : TaskMove) : Option RpcClient :=
  match t.place, move with
  | .ready k, .suspend =>
    (s.onShard k fun sh => if sh.runs then some sh else none).map
      (·.goto i { t with place := .suspended k })
  | .suspended k, .makeReady =>
    (s.onShard k fun sh => if sh.runs then some sh else none).map
      (·.goto i { t with place := .ready k })
  | .ready k, .complete =>
    (s.onShard k fun sh => if sh.runs then some sh else none).map
      (·.goto i { t with place := .completed k, completions := t.completions + 1 })
  | .completed k, .release =>
    (s.onShard k fun sh =>
      if sh.runs ∧ sh.reservedCalls ≠ 0 then
        some { sh with
          reservedCalls := sh.reservedCalls - 1
          liveRoutineCount := sh.liveRoutineCount - 1 }
      else none).map
      (·.goto i { t with place := .finished })
  | _, _ => none

def stepStop : Option RpcClient :=
  let next (k : Nat) : StopPc := if k < s.shards.length then .closeAccepting k else .returned
  match s.stopper with
  | .idle => some { s with stopping := true, stopper := next 0 }
  | .closeAccepting k =>
    (s.onShard k fun sh => some { sh with accepting := false }).map
      fun s => { s with stopper := .setStopping k }
  | .setStopping k =>
    (s.onShard k fun sh => some { sh with stopping := true }).map
      fun s => { s with stopper := .lock k }
  | .lock k =>
    (s.onShard k fun sh =>
      if sh.mutex = none then some { sh with mutex := some .stopper } else none).map
      fun s => { s with stopper := .unlock k }
  | .unlock k =>
    (s.onShard k fun sh => some { sh with mutex := none }).map
      fun s => { s with stopper := .joinThread k }
  | .joinThread k =>
    match s.shards[k]? with
    | some sh => if sh.pc = .exited then some { s with stopper := next (k + 1) } else none
    | none => none
  | .returned => none

def step : Label → Option RpcClient
  | .submit =>
    some { s with submissions := s.submissions ++ [⟨.pickStopping, .held, 0⟩] }
  | .call i random fails =>
    match s.submissions[i]? with
    | none => none
    | some t => s.stepCall i t random fails
  | .shard k =>
    match s.shards[k]? with
    | none => none
    | some sh => s.stepShard k sh
  | .task i move =>
    match s.submissions[i]? with
    | none => none
    | some t => s.stepTask i t move
  | .post k => s.onShard k fun sh => some { sh with inbox := sh.inbox ++ [.other] }
  | .other k spawn =>
    s.onShard k fun sh =>
      if sh.runs = false then none
      else if spawn then
        some { sh with others := sh.others + 1, liveRoutineCount := sh.liveRoutineCount + 1 }
      else if sh.others = 0 then none
      else some { sh with others := sh.others - 1, liveRoutineCount := sh.liveRoutineCount - 1 }
  | .stop => s.stepStop

end RpcClient

end CoroRpc.Submit
