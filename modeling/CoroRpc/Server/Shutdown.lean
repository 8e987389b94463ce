import CoroRpc.Lib.Run
import CoroRpc.Protocol.Decoder
import Mathlib.Data.List.AList

/-!
# Attaching, draining and stopping

How connections come and go on the network shards, and how the server drains and stops:
`AttachConnection`, `OnConnectionClosed`, `BeginDrain`, `MaybeFinishDrain`, `StopNow` and what they
call, with the places where a request takes and returns its share of `inflight_count_`
(`rpc_src/transport/rpc_server.cpp`).

`Requests` follows a request through the idempotency table and the executors, and takes the
counters at the grain of its own steps. Here the grain is one access to a variable that threads
share: each of the four loads of `MaybeFinishDrain` is a step, and so is each update of a counter.
What lies between two such accesses concerns the thread's own shard only. Which handlers come back
when, and which requests they complete, is left to the environment: a response goes to whichever
requests the label says.

A thread is a stack of `Work`, as in `Requests`; thread 0 is the owner of `runtime_`. A posted
closure is delivered, in any order, when the thread it is for has nothing left to do.
-/

namespace CoroRpc.Server
namespace Shutdown

open Lib Protocol

/-- The options that bound the counters. -/
structure ServerLimits where
  maxConnections : Nat
  maxInflightPerConnection : Nat
  maxInflightRequests : Nat

/-! ## State -/

structure RequestState where
  connection : Nat
  owner : Nat
  requestId : UInt64
  completed : Bool := false
  deriving DecidableEq

/-- What the reader of a connection goes on with when the handler it is suspended in comes back. -/
inductive Resumption where
  /-- `options_.inline_view_handler`. -/
  | view
  /-- `handler_`, called inline. -/
  | handler
  deriving DecidableEq

structure ServerConnection where
  shard : Nat
  fd : Nat
  requests : AList (fun _ : UInt64 => Nat) := ∅
  draining : Bool := false
  closed : Bool := false
  reader : Option Resumption := none

/-- The next load of `MaybeFinishDrain`. -/
inductive Load where
  | accepting
  | stopped
  | inflightCount
  | activeConnections
  deriving DecidableEq

inductive Work where
  /-- `AttachConnection`: the load of `stopped_`, and the preparation of the socket. -/
  | attachConnection (fd : Nat)
  /-- `AttachConnection`: the loop around `compare_exchange_weak`. -/
  | reserve (fd : Nat)
  /-- `AttachConnection`, once the connection is counted. -/
  | emplace (fd : Nat)
  | onFrame (c : Nat) (requestId : UInt64)
  | acquireInflight (c : Nat) (requestId : UInt64) (viewHandler : Bool)
  /-- `OnFrame`: the inline view handler. -/
  | view (c : Nat)
  | addRequest (c : Nat) (requestId : UInt64)
  /-- `OnFrame`, once the request is in its connection's map. -/
  | serve (i : Nat)
  /-- The loop of `FinishIdempotent`, or a single `Finish`. -/
  | finishWaiters (waiters : List Nat)
  | finish (i : Nat)
  | completeRequest (i : Nat)
  | queueFrame (c : Nat)
  | maybeCloseAfterDrain (c : Nat)
  | close (c : Nat)
  /-- `OnConnectionClosed`, from its loop over the detached requests on. -/
  | abandonAll (requests : List Nat)
  | maybeFinishDrain (next : Load)
  /-- `BeginDrain`: `RequestBeginDrain` for the shards that are left. -/
  | requestBeginDrain (shards : List Nat)
  /-- The loop of `BeginDrainConnections`. -/
  | beginDrainAll (connections : List Nat)
  /-- The last lines of `BeginDrain`. -/
  | endBeginDrain
  | stopNow
  /-- `StopNow`, once `stopped_` is set. -/
  | stopAccepting
  /-- `StopNow`: `CloseAllConnections` for the shards that are left. -/
  | closeShards (shards : List Nat)
  /-- The loop of `CloseAllConnections`. -/
  | closeAll (connections : List Nat)
  deriving DecidableEq

inductive Message where
  | attachAccepted (fd : Nat)
  /-- `OnWorkerCompletion`: the requests that get the response. -/
  | completion (waiters : List Nat)
  /-- The `Finish` of `FinishOnOwner`. -/
  | finish (i : Nat)
  | beginDrainConnections
  | closeAllConnections
  | maybeFinishDrain
  | stopNow
  deriving DecidableEq

structure ShardedServer where
  accepting : Bool
  stopped : Bool
  /-- `drain_waiter_` is in its timed wait. -/
  drainWaiter : Bool
  inflightCount : Nat
  activeConnections : Nat
  /-- Every connection that was ever held; the tables refer to it by position. -/
  connections : List ServerConnection
  states : List RequestState
  /-- `connections_` of each shard. -/
  tables : List (AList (fun _ : Nat => Nat))
  /-- The stack of each shard's thread. -/
  threads : List (List Work)
  /-- Posted closures, each with the thread it is for. -/
  mailbox : List (Nat × Message)

/-- A server with `n` network shards. -/
def ShardedServer.init (n : Nat) : ShardedServer where
  accepting := true
  stopped := false
  drainWaiter := false
  inflightCount := 0
  activeConnections := 0
  connections := []
  states := []
  tables := List.replicate n ∅
  threads := List.replicate n []
  mailbox := []

/-- What the environment answers one step of a thread. -/
inductive Choice where
  | none
  /-- The socket cannot be prepared; the metadata cannot be decoded or its deadline is over. -/
  | refuse
  /-- The socket is prepared. -/
  | prepared
  /-- The metadata is fine; whether the request goes to the inline view handler. -/
  | admitRequest (viewHandler : Bool)
  /-- Whether `Start` of the new connection throws. -/
  | start (throws : Bool)
  | handlerReturns
  | handlerSuspends
  /-- The requests that get a response at once: none of a request that was merged or submitted,
      its own, or with an inline handler those of the waiters. -/
  | respond (waiters : List Nat)
  /-- `QueueFrame`: whether it, or the writer it resumes, comes to close the connection. -/
  | queue (closes : Bool)
  /-- Whether `outbound_` is empty. -/
  | outboundEmpty (empty : Bool)
  /-- Which request `OnConnectionClosed` comes to next. -/
  | pick (n : Nat)
  deriving DecidableEq

namespace ShardedServer

variable (s : ShardedServer)

def setConnection (c : Nat) (f : ServerConnection → ServerConnection) :
    ShardedServer :=
  { s with connections := s.connections.modify c f }

def post (k : Nat) (m : Message) : ShardedServer :=
  { s with mailbox := s.mailbox ++ [(k, m)] }

/-- `inflight_count_.fetch_sub(1)`. -/
def releaseInflight : ShardedServer :=
  { s with inflightCount := subSize s.inflightCount 1 }

/-- `active_connections_.fetch_sub(1)`. -/
def releaseConnection : ShardedServer :=
  { s with activeConnections := subSize s.activeConnections 1 }

def heldBy (k : Nat) : List Nat :=
  match s.tables[k]? with
  | none => []
  | some table => table.entries.map fun entry => entry.2

/-! ## Attaching and closing

As in `Requests`, each function gives the next state and the calls it makes, which run before
whatever the thread was in the middle of. -/

def attachConnection (fd : Nat) : Choice → Option (ShardedServer × List Work)
  | .refuse => some (s, [])
  | .prepared => some (s, if s.stopped then [] else [.reserve fd])
  | _ => none

variable (limits : ServerLimits)

def reserve (s : ShardedServer) (fd : Nat) : ShardedServer × List Work :=
  if s.activeConnections ≥ limits.maxConnections then (s, [])
  else ({ s with activeConnections := s.activeConnections + 1 }, [.emplace fd])

def emplace (k fd : Nat) (table : AList (fun _ : Nat => Nat)) :
    Choice → Option (ShardedServer × List Work)
  | .start throws =>
    if (table.lookup fd).isSome then some (s.releaseConnection, [])
    else
      some ({ s with
          connections := s.connections ++ [{ shard := k, fd := fd }]
          tables := s.tables.set k (table.insert fd s.connections.length) },
        if throws then [.close s.connections.length] else [])
  | _ => none

/-- `OnConnectionClosed`, up to the loop that abandons the detached requests. -/
def onConnectionClosed (k fd : Nat) : ShardedServer × List Work :=
  match s.tables[k]? with
  | none => (s, [])
  | some table =>
    match table.lookup fd with
    | none => (s, [])
    | some c =>
      let detached := match s.connections[c]? with
        | none => []
        | some found => found.requests.entries.map fun entry => entry.2
      ({ s.releaseConnection with tables := s.tables.set k (table.erase fd) }.setConnection c
          fun found => { found with requests := ∅ },
        [.abandonAll detached])

def close (c : Nat) (connection : ServerConnection) :
    ShardedServer × List Work :=
  if connection.closed then (s, [])
  else
    (s.setConnection c fun connection => { connection with closed := true }).onConnectionClosed
      connection.shard connection.fd

/-- `Abandon`, without its part in the idempotency table. -/
def abandon (i : Nat) (state : RequestState) : ShardedServer :=
  if state.completed then s
  else
    { s.releaseInflight with
      states := s.states.modify i fun state => { state with completed := true } }

def abandonAll (s : ShardedServer) (requests : List Nat) :
    Choice → Option (ShardedServer × List Work)
  | .pick n =>
    match requests[n]? with
    | none => if requests = [] then some (s, [.maybeFinishDrain .accepting]) else none
    | some i => s.states[i]?.map fun state =>
      (s.abandon i state, [.abandonAll (requests.eraseIdx n)])
  | _ => none

def maybeCloseAfterDrain (c : Nat) (connection : ServerConnection) :
    Choice → Option (ShardedServer × List Work)
  | .outboundEmpty empty =>
    some (s,
      if connection.draining ∧ connection.requests.entries = [] ∧ empty ∧ !connection.closed then
        [.close c]
      else [])
  | _ => none

/-! ## The counters on the request path -/

def onFrame (c : Nat) (requestId : UInt64) :
    Choice → Option (ShardedServer × List Work)
  | .refuse => some (s, [.queueFrame c])
  | .admitRequest viewHandler =>
    some (s,
      if s.accepting then [.acquireInflight c requestId viewHandler] else [.queueFrame c])
  | _ => none

def acquireInflight (s : ShardedServer) (c : Nat) (requestId : UInt64)
    (viewHandler : Bool) : ShardedServer × List Work :=
  if s.inflightCount ≥ limits.maxInflightRequests then (s, [.queueFrame c])
  else
    ({ s with inflightCount := s.inflightCount + 1 },
      if viewHandler then [.view c] else [.addRequest c requestId])

/-- The inline view handler has come back. -/
def viewReturned (c : Nat) : ShardedServer × List Work :=
  (s.releaseInflight, [.queueFrame c, .maybeFinishDrain .accepting])

def view (s : ShardedServer) (c : Nat) : Choice → Option (ShardedServer × List Work)
  | .handlerReturns => some (s.viewReturned c)
  | .handlerSuspends =>
    some (s.setConnection c fun connection => { connection with reader := some .view }, [])
  | _ => none

/-- The refusals of `AddRequest`. -/
def refusesRequest (connection : ServerConnection) (requestId : UInt64) :
    Bool :=
  connection.closed ||
    decide (connection.requests.entries.length ≥ limits.maxInflightPerConnection) ||
    (connection.requests.lookup requestId).isSome

/-- `OnFrame` around `AddRequest`. The reply to a refused request is not followed by
    `MaybeFinishDrain`. -/
def addRequest (s : ShardedServer) (c : Nat)
    (connection : ServerConnection) (requestId : UInt64) : ShardedServer × List Work :=
  if refusesRequest limits connection requestId then (s.releaseInflight, [.queueFrame c])
  else
    let state : RequestState :=
      { connection := c, owner := connection.shard, requestId := requestId }
    ({ s with states := s.states ++ [state] }.setConnection c fun connection =>
        { connection with requests := connection.requests.insert requestId s.states.length },
      [.serve s.states.length])

def serve (state : RequestState) :
    Choice → Option (ShardedServer × List Work)
  | .respond waiters => some (s, [.finishWaiters waiters])
  | .handlerSuspends =>
    some (s.setConnection state.connection fun connection =>
      { connection with reader := some .handler }, [])
  | _ => none

/-- One round of the loop of `FinishIdempotent` on thread `k`, with `FinishOnOwner`. -/
def finishWaiters (s : ShardedServer) (k : Nat) : List Nat → Option (ShardedServer × List Work)
  | [] => some (s, [])
  | i :: waiters =>
    match s.states[i]? with
    | none => none
    | some state =>
      if state.owner = k then some (s, [.finish i, .finishWaiters waiters])
      else some (s.post state.owner (.finish i), [.finishWaiters waiters])

def finish (i : Nat) (state : RequestState) : ShardedServer × List Work :=
  if state.completed then (s, [])
  else
    ({ s.releaseInflight with
        states := s.states.modify i fun state => { state with completed := true } },
      [.completeRequest i, .maybeFinishDrain .accepting])

def completeRequest (state : RequestState) : ShardedServer × List Work :=
  (s.setConnection state.connection fun connection =>
      { connection with requests := connection.requests.erase state.requestId },
    [.queueFrame state.connection, .maybeCloseAfterDrain state.connection])

def queueFrame (c : Nat) (connection : ServerConnection) :
    Choice → Option (ShardedServer × List Work)
  | .queue closes => some (s, if closes ∧ !connection.closed then [.close c] else [])
  | _ => none

/-! ## Draining and stopping -/

/-- One load of `MaybeFinishDrain` on thread `k`, and what it does after the last of them. -/
def maybeFinishDrain (s : ShardedServer) (k : Nat) : Load → ShardedServer × List Work
  | .accepting => (s, if s.accepting then [] else [.maybeFinishDrain .stopped])
  | .stopped => (s, if s.stopped then [] else [.maybeFinishDrain .inflightCount])
  | .inflightCount =>
    (s, if s.inflightCount ≠ 0 then [] else [.maybeFinishDrain .activeConnections])
  | .activeConnections =>
    if s.activeConnections ≠ 0 then (s, [])
    else if k = 0 then (s, [.stopNow])
    else (s.post 0 .maybeFinishDrain, [])

/-- `BeginDrain`. `accepting_` and `stopped_` are only ever written by this thread. -/
def beginDrain (timeoutMs : Nat) : ShardedServer × List Work :=
  if s.stopped ∨ !s.accepting then (s, [])
  else if timeoutMs = 0 then ({ s with accepting := false }, [.stopNow])
  else
    ({ s with accepting := false, drainWaiter := true },
      [.requestBeginDrain (List.range s.tables.length), .endBeginDrain])

/-- One round of the loop of `BeginDrain` over the shards. -/
def requestBeginDrain (s : ShardedServer) : List Nat → ShardedServer × List Work
  | [] => (s, [])
  | j :: shards =>
    if j = 0 then (s, [.beginDrainAll (s.heldBy 0), .requestBeginDrain shards])
    else (s.post j .beginDrainConnections, [.requestBeginDrain shards])

def beginDrainAll (s : ShardedServer) : List Nat → ShardedServer × List Work
  | [] => (s, [])
  | c :: connections =>
    (s.setConnection c fun connection => { connection with draining := true },
      [.maybeCloseAfterDrain c, .beginDrainAll connections])

def stopNow (s : ShardedServer) (k : Nat) : ShardedServer × List Work :=
  if k ≠ 0 then (s.post 0 .stopNow, [])
  else if s.stopped then (s, [])
  else ({ s with stopped := true }, [.stopAccepting])

/-- `drain_waiter_`, where it waits, is resumed and finds the server stopped. -/
def stopAccepting : ShardedServer × List Work :=
  ({ s with accepting := false, drainWaiter := false }, [.closeShards (List.range s.tables.length)])

/-- One round of the loop of `StopNow` over the shards. -/
def closeShards (s : ShardedServer) : List Nat → ShardedServer × List Work
  | [] => (s, [])
  | j :: shards =>
    if j = 0 then (s, [.closeAll (s.heldBy 0), .closeShards shards])
    else (s.post j .closeAllConnections, [.closeShards shards])

def closeAll (s : ShardedServer) : List Nat → ShardedServer × List Work
  | [] => (s, [])
  | c :: connections => (s, [.close c, .closeAll connections])

/-! ## Threads -/

def doWork (s : ShardedServer) (k : Nat) (w : Work) (choice : Choice) :
    Option (ShardedServer × List Work) :=
  match w with
  | .attachConnection fd => s.attachConnection fd choice
  | .reserve fd => some (s.reserve limits fd)
  | .emplace fd => s.tables[k]?.bind fun table => s.emplace k fd table choice
  | .onFrame c requestId => s.onFrame c requestId choice
  | .acquireInflight c requestId viewHandler =>
    some (s.acquireInflight limits c requestId viewHandler)
  | .view c => s.view c choice
  | .addRequest c requestId =>
    s.connections[c]?.map fun connection => s.addRequest limits c connection requestId
  | .serve i => s.states[i]?.bind fun state => s.serve state choice
  | .finishWaiters waiters => s.finishWaiters k waiters
  | .finish i => s.states[i]?.map fun state => s.finish i state
  | .completeRequest i => s.states[i]?.map fun state => s.completeRequest state
  | .queueFrame c => s.connections[c]?.bind fun connection => s.queueFrame c connection choice
  | .maybeCloseAfterDrain c =>
    s.connections[c]?.bind fun connection => s.maybeCloseAfterDrain c connection choice
  | .close c => s.connections[c]?.map fun connection => s.close c connection
  | .abandonAll requests => s.abandonAll requests choice
  | .maybeFinishDrain next => some (s.maybeFinishDrain k next)
  | .requestBeginDrain shards => some (s.requestBeginDrain shards)
  | .beginDrainAll connections => some (s.beginDrainAll connections)
  | .endBeginDrain => some (s, if s.stopped then [] else [.maybeFinishDrain .accepting])
  | .stopNow => some (s.stopNow k)
  | .stopAccepting => some s.stopAccepting
  | .closeShards shards => some (s.closeShards shards)
  | .closeAll connections => some (s.closeAll connections)

/-- Thread `k`, which has nothing to do, begins with `calls`. -/
def run (k : Nat) (calls : List Work) : Option ShardedServer :=
  if s.threads[k]? = some [] then some { s with threads := s.threads.set k calls } else none

def messageWork (k : Nat) : Message → List Work
  | .attachAccepted fd => [.attachConnection fd]
  | .completion waiters => [.finishWaiters waiters]
  | .finish i => [.finish i]
  | .beginDrainConnections => [.beginDrainAll (s.heldBy k)]
  | .closeAllConnections => [.closeAll (s.heldBy k)]
  | .maybeFinishDrain => [.maybeFinishDrain .accepting]
  | .stopNow => [.stopNow]

end ShardedServer

/-! ## Steps -/

inductive Label where
  /-- A connection was accepted and shard `k` selected for it, or with `k = 0` the application
      attaches one. -/
  | accepted (k fd : Nat)
  /-- The reader of connection `c` has decoded a REQUEST. -/
  | request (c : Nat) (requestId : UInt64)
  /-- The reader of connection `c` has decoded a CANCEL. -/
  | cancel (c : Nat) (requestId : UInt64)
  /-- The reader or the writer of `c` closes it. -/
  | closeConnection (c : Nat)
  /-- The writer of `c` has written its batch. -/
  | written (c : Nat)
  /-- Thread `k` goes on with its work. -/
  | work (k : Nat) (choice : Choice)
  /-- The handler that the reader of `c` is suspended in comes back, with a response for
      `waiters`. -/
  | resumeReader (c : Nat) (waiters : List Nat)
  /-- A worker posts the completion of a request that shard `k` owns. -/
  | workerEnds (k : Nat) (waiters : List Nat)
  | beginDrain (timeoutMs : Nat)
  /-- The timer of `drain_waiter_`. -/
  | drainTimeout
  /-- `StopNow` from `Start`. -/
  | stopNow
  | deliver (n : Nat)
  deriving DecidableEq

open ShardedServer in
def ShardedServer.step (limits : ServerLimits) (s : ShardedServer) : Label → Option ShardedServer
  | .accepted k fd =>
    if k = 0 then s.run 0 [.attachConnection fd]
    else if k < s.threads.length then some (s.post k (.attachAccepted fd))
    else none
  | .request c requestId =>
    match s.connections[c]? with
    | none => none
    | some connection =>
      if connection.closed = false ∧ connection.reader = none then
        s.run connection.shard [.onFrame c requestId]
      else none
  | .cancel c requestId =>
    match s.connections[c]? with
    | none => none
    | some connection =>
      if connection.closed = false ∧ connection.reader = none then
        match connection.requests.lookup requestId with
        | none => some s
        | some i => s.run connection.shard [.finish i]
      else none
  | .closeConnection c =>
    match s.connections[c]? with
    | none => none
    | some connection => s.run connection.shard [.close c]
  | .written c =>
    match s.connections[c]? with
    | none => none
    | some connection => s.run connection.shard [.maybeCloseAfterDrain c]
  | .work k choice =>
    match s.threads[k]? with
    | some (w :: rest) =>
      (s.doWork limits k w choice).map fun (s', calls) =>
        { s' with threads := s'.threads.set k (calls ++ rest) }
    | _ => none
  | .resumeReader c waiters =>
    match s.connections[c]? with
    | none => none
    | some connection =>
      let awake := s.setConnection c fun connection => { connection with reader := none }
      match connection.reader with
      | none => none
      | some .handler => awake.run connection.shard [.finishWaiters waiters]
      | some .view =>
        let (s', calls) := awake.viewReturned c
        s'.run connection.shard calls
  | .workerEnds k waiters =>
    if k < s.threads.length then some (s.post k (.completion waiters)) else none
  | .beginDrain timeoutMs =>
    let (s', calls) := s.beginDrain timeoutMs
    s'.run 0 calls
  | .drainTimeout =>
    if s.drainWaiter then
      { s with drainWaiter := false }.run 0 (if s.stopped then [] else [.stopNow])
    else none
  | .stopNow => s.run 0 [.stopNow]
  | .deliver n =>
    match s.mailbox[n]? with
    | none => none
    | some (k, m) => { s with mailbox := s.mailbox.eraseIdx n }.run k (s.messageWork k m)

end Shutdown
end CoroRpc.Server
