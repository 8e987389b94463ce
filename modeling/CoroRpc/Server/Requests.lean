import CoroRpc.Lib.Run
import CoroRpc.Protocol.Decoder
import CoroRpc.Runtime.AsyncSocket
import CoroRpc.Server.Idempotency

/-!
# The request path of the server

`OnFrame`, `OnWorkerCompletion`, `Finish`, `FinishIdempotent`, `FinishOnOwner`, `Cancel` and
`Abandon` of `RpcServer`, with the parts of `ServerConnection` they call, over all network shards,
workers and connections (`rpc_src/transport/rpc_server.cpp`).

A shard's thread runs these functions nested in each other, and another thread may take
`idempotency_mutex_` between any two of their locked sections. So a thread is a stack of `Work`:
the top entry is what it does next, up to the next point where another thread or the environment
can intervene, and doing it pushes the calls it makes on top of the rest. A closure posted to a
shard waits in `mailbox` until that shard's thread has nothing left to do, and is taken from there
in any order. A handler that suspends its reader's coroutine leaves the stack, and so lets the
shard serve other connections, until it is resumed.

What the model leaves to the environment is a label's argument: what a handler returns, whether
an executor's queue has room, whether an outgoing frame fits and its write succeeds, in which
order a closed connection's requests are abandoned, when the clock moves.
-/

namespace CoroRpc.Server

open Lib Protocol
open CoroRpc.Runtime (kNoTimeout)

inductive RpcExecutionMode where
  | cpuPool
  | ioCoroutine
  | networkInline
  deriving DecidableEq

/-- The options the request path reads. The execution mode is what the configured selector says
    of a request's metadata, or a constant where there is none. -/
structure RpcServerOptions where
  maxInflightPerConnection : Nat
  maxInflightRequests : Nat
  maxIdempotencyEntries : Nat
  executionMode : RequestMetadata → RpcExecutionMode
  inlineViewHandler : Bool

def addDeadline (nowMs timeoutMs : Nat) : Nat :=
  if timeoutMs = 0 then kNoTimeout
  else if timeoutMs > 2 ^ 64 - 1 - nowMs then 2 ^ 64 - 1
  else nowMs + timeoutMs

/-! ## State -/

structure RequestState where
  connection : Nat
  /-- The network shard that owns the connection. -/
  owner : Nat
  requestId : UInt64
  deadlineMs : Nat
  /-- The full key; empty where the request carries none. -/
  idempotencyKey : Bytes
  idempotencyFingerprint : UInt64
  body : Bytes
  cancelled : Bool := false
  completed : Bool := false
  deriving DecidableEq

/-- How far a handler execution is. -/
inductive Phase where
  /-- Past the idempotency table; its `OnFrame` is about to run or to submit it. -/
  | admitted (mode : RpcExecutionMode)
  /-- Accepted by an executor, not started. -/
  | queued
  /-- The handler runs on a worker. -/
  | running
  /-- The handler has suspended inside the reader's coroutine. -/
  | suspended
  /-- There is a response, and `OnWorkerCompletion` or the end of `OnFrame` has not taken it. -/
  | finishing (response : Response) (cacheResponse : Bool)
  | done
  deriving DecidableEq

/-- A handler execution, with the key and the body of the request it was started for. -/
structure Execution where
  request : Nat
  idempotencyKey : Bytes
  body : Bytes
  phase : Phase
  deriving DecidableEq

/-- The handler call that the reader of a connection is suspended in. -/
inductive Suspended where
  | handler (e : Nat)
  | view (requestId : UInt64) (deadlineMs : Nat)
  deriving DecidableEq

structure ServerConnection where
  owner : Nat
  callerScope : Bytes
  requests : AList (fun _ : UInt64 => Nat) := ∅
  draining : Bool := false
  closed : Bool := false
  reader : Option Suspended := none
  /-- Every frame that `QueueFrame` has accepted. -/
  queued : List Frame := []

/-- What a shard's thread does next. -/
inductive Work where
  /-- `OnFrame`, from the idempotency table on. -/
  | lookUp (i : Nat) (mode : RpcExecutionMode)
  /-- `OnFrame`: run the handler, or submit it to an executor. -/
  | execute (e : Nat)
  /-- `OnWorkerCompletion`, or the end of an `OnFrame` that has the response itself. -/
  | complete (e : Nat)
  /-- `OnFrame`: `options_.inline_view_handler(request)` and what follows. -/
  | view (c : Nat) (requestId : UInt64) (deadlineMs : Nat)
  | finish (i : Nat) (response : Response)
  /-- The loop of `FinishIdempotent` over the waiters it took. -/
  | finishWaiters (waiters : List Nat) (response : Response)
  | completeRequest (c : Nat) (requestId : UInt64) (frame : Frame)
  | queueFrame (c : Nat) (frame : Frame)
  | maybeCloseAfterDrain (c : Nat)
  | close (c : Nat)
  /-- The loop of `OnConnectionClosed` over the requests it detached. -/
  | abandonAll (requests : List Nat)
  | abandon (i : Nat)
  /-- The locked section of `Cancel` and of `Abandon`. -/
  | dropWaiter (i : Nat)
  deriving DecidableEq

inductive Message where
  | completion (e : Nat)
  /-- The `Finish` of `FinishOnOwner`. -/
  | finish (i : Nat) (response : Response)
  deriving DecidableEq

structure RpcServer where
  accepting : Bool
  nowMs : Nat
  inflightCount : Nat
  connections : List ServerConnection
  states : List RequestState
  table : IdempotencyTable
  executions : List Execution
  /-- The stack of each network shard's thread. -/
  threads : List (List Work)
  /-- Posted closures, each with the shard it is for. -/
  mailbox : List (Nat × Message)
  /-- What `Finish` has delivered, to which request: kept for the statements only. -/
  delivered : List (Nat × Response)

/-- A started server with `n` network shards and no connections. -/
def RpcServer.init (n : Nat) : RpcServer where
  accepting := true
  nowMs := 0
  inflightCount := 0
  connections := []
  states := []
  table := { idempotency := ∅, completedIdempotencyKeys := [] }
  executions := []
  threads := List.replicate n []
  mailbox := []
  delivered := []

/-- What a handler does when it is called, or resumed. -/
inductive Outcome where
  | returns (frame : Frame)
  | throws
  | suspends
  deriving DecidableEq

/-- What the environment answers one step of a shard's thread. -/
inductive Choice where
  | none
  | handler (outcome : Outcome)
  /-- `TrySubmit`. -/
  | submit (accepted : Bool)
  /-- `QueueEncoded`: the frame goes over `max_outbound_bytes_per_connection`, or it is queued
      and the writer, resumed at once, does or does not come to close the connection. -/
  | overLimit
  | queue (writerCloses : Bool)
  /-- Whether `outbound_` is empty. -/
  | outboundEmpty (empty : Bool)
  /-- Which request `OnConnectionClosed` comes to next. -/
  | pick (n : Nat)
  deriving DecidableEq

namespace RpcServer

/-! ## The pieces of `ServerConnection` and of the counters -/

variable (s : RpcServer)

def setState (i : Nat) (f : RequestState → RequestState) : RpcServer :=
  { s with states := s.states.modify i f }

def setConnection (c : Nat) (f : ServerConnection → ServerConnection) :
    RpcServer :=
  { s with connections := s.connections.modify c f }

def setPhase (e : Nat) (phase : Phase) : RpcServer :=
  { s with executions := s.executions.modify e fun x => { x with phase := phase } }

def post (k : Nat) (m : Message) : RpcServer :=
  { s with mailbox := s.mailbox ++ [(k, m)] }

variable (options : RpcServerOptions)

def acquireInflight (s : RpcServer) : Option RpcServer :=
  if s.inflightCount ≥ options.maxInflightRequests then none
  else some { s with inflightCount := s.inflightCount + 1 }

/-- `inflight_count_.fetch_sub(1)`. -/
def releaseInflight : RpcServer :=
  { s with inflightCount := subSize s.inflightCount 1 }

/-- The refusals of `ServerConnection::AddRequest`. -/
def refusesRequest (connection : ServerConnection)
    (requestId : UInt64) : Bool :=
  connection.closed ||
    decide (connection.requests.entries.length ≥ options.maxInflightPerConnection) ||
    (connection.requests.lookup requestId).isSome

def addRequest (state : RequestState) : RpcServer :=
  { s with states := s.states ++ [state] }.setConnection state.connection fun connection =>
    { connection with requests := connection.requests.insert state.requestId s.states.length }

/-! ## What a shard's thread does

Each function gives the next state and the calls it makes, which run before whatever the thread
was in the middle of. -/

/-- `connection->QueueFrame(MakeStatusResponse(request_id, status))`. -/
def reply (c : Nat) (requestId : UInt64) (status : RpcStatus) : List Work :=
  [.queueFrame c (makeStatusResponse requestId status).frame]

/-- `Cancel`. Its locked section and its `Finish` follow as calls. -/
def cancel (connection : ServerConnection) (requestId : UInt64) :
    RpcServer × List Work :=
  match connection.requests.lookup requestId with
  | none => (s, [])
  | some i =>
    match s.states[i]? with
    | none => (s, [])
    | some state =>
      let finish := Work.finish i (makeStatusResponse requestId .cancelled)
      (s.setState i fun state => { state with cancelled := true },
        if state.idempotencyKey = [] then [finish] else [.dropWaiter i, finish])

/-- `OnFrame` on connection `c` for a REQUEST frame whose metadata has been decoded. -/
def onRequest (s : RpcServer) (c : Nat)
    (connection : ServerConnection) (frame : Frame) (metadata : RequestMetadata) :
    RpcServer × List Work :=
  let requestId := frame.header.requestId
  let deadline := addDeadline s.nowMs metadata.timeoutMs.toNat
  let mode := options.executionMode metadata
  if deadline ≠ kNoTimeout ∧ deadline ≤ s.nowMs then (s, reply c requestId .deadlineExceeded)
  else
    match s.acquireInflight options with
    | none => (s, reply c requestId .resourceExhausted)
    | some acquired =>
      if mode = .networkInline ∧ metadata.idempotencyKey = [] ∧ options.inlineViewHandler then
        (acquired, [.view c requestId deadline])
      else if refusesRequest options connection requestId then
        (acquired.releaseInflight, reply c requestId .resourceExhausted)
      else
        let key :=
          if metadata.idempotencyKey = [] then []
          else buildIdempotencyKey connection.callerScope metadata.service metadata.method
            metadata.idempotencyKey
        let state : RequestState :=
          { connection := c
            owner := connection.owner
            requestId := requestId
            deadlineMs := deadline
            idempotencyKey := key
            idempotencyFingerprint := bodyFingerprint frame.body
            body := frame.body }
        (acquired.addRequest state, [.lookUp s.states.length mode])

/-- `OnFrame` on connection `c`. -/
def onFrame (s : RpcServer) (c : Nat)
    (connection : ServerConnection) (frame : Frame) : RpcServer × List Work :=
  if frame.header.messageType = .cancel then s.cancel connection frame.header.requestId
  else if frame.header.messageType ≠ .request then (s, [.close c])
  else if !s.accepting then (s, reply c frame.header.requestId .resourceExhausted)
  else
    match decodeRequestMetadata frame.metadata with
    | .error _ => (s, reply c frame.header.requestId .invalidArgument)
    | .ok metadata => s.onRequest options c connection frame metadata

/-- The execution that `OnFrame` goes on to for request `i`. -/
def startExecution (i : Nat) (state : RequestState) (mode : RpcExecutionMode) :
    RpcServer × List Work :=
  let execution : Execution :=
    { request := i
      idempotencyKey := state.idempotencyKey
      body := state.body
      phase := .admitted mode }
  ({ s with executions := s.executions ++ [execution] }, [.execute s.executions.length])

/-- `OnFrame`: a request without a key goes straight to its execution, one with a key through the
    table. -/
def lookUp (s : RpcServer) (i : Nat) (state : RequestState)
    (mode : RpcExecutionMode) : RpcServer × List Work :=
  if state.idempotencyKey = [] then s.startExecution i state mode
  else
    match s.table.resolve options.maxIdempotencyEntries state.idempotencyKey
        state.idempotencyFingerprint state.body i with
    | (table, .execute) => { s with table := table }.startExecution i state mode
    | (table, .merged) => ({ s with table := table }, [])
    | (table, .useCachedResponse response) => ({ s with table := table }, [.finish i response])
    | (table, .conflictingRequest) =>
      ({ s with table := table }, [.finish i (makeStatusResponse state.requestId .alreadyExists)])
    | (table, .rejectCacheCapacity) =>
      ({ s with table := table },
        [.finish i (makeStatusResponse state.requestId .resourceExhausted)])

/-- The response and the `cache_response` flag of a handler call that came back. -/
def handlerResult (e : Nat) (requestId : UInt64) : Outcome → Option (Response × Bool)
  | .returns frame => some (Response.addressedTo ⟨frame, some e⟩ requestId, true)
  | .throws => some (makeStatusResponse requestId .internal, false)
  | .suspends => none

/-- The end of `OnFrame` for execution `e` of the request `state`. -/
def execute (e : Nat) (state : RequestState) (mode : RpcExecutionMode) :
    Choice → Option (RpcServer × List Work)
  | .handler outcome =>
    if mode = .networkInline then
      if state.cancelled then
        some (s.setPhase e (.finishing (makeStatusResponse state.requestId .cancelled) false),
          [.complete e])
      else
        match handlerResult e state.requestId outcome with
        | some (response, cacheResponse) =>
          some (s.setPhase e (.finishing response cacheResponse), [.complete e])
        | none =>
          some ((s.setPhase e .suspended).setConnection state.connection fun connection =>
            { connection with reader := some (.handler e) }, [])
    else none
  | .submit accepted =>
    if mode = .networkInline then none
    else if accepted then some (s.setPhase e .queued, [])
    else
      some (s.setPhase e (.finishing (makeStatusResponse state.requestId .resourceExhausted) false),
        [.complete e])
  | _ => none

/-- What becomes of the response of execution `e`: `Finish`, or `FinishIdempotent` with its locked
    section taken here and its loop left as a call. -/
def complete (s : RpcServer) (e : Nat) (execution : Execution)
    (response : Response) (cacheResponse : Bool) : RpcServer × List Work :=
  if execution.idempotencyKey = [] then
    (s.setPhase e .done, [.finish execution.request response])
  else
    match s.table.finish options.maxIdempotencyEntries execution.idempotencyKey response
        cacheResponse with
    | (table, waiters) =>
      ({ s.setPhase e .done with table := table }, [.finishWaiters waiters response])

/-- After the inline view handler came back: the deadline, the counter, the reply. -/
def viewReturned (c : Nat) (requestId : UInt64) (deadlineMs : Nat)
    (frame : Frame) : RpcServer × List Work :=
  let response : Response := Response.addressedTo ⟨frame, none⟩ requestId
  let response :=
    if deadlineMs ≠ kNoTimeout ∧ s.nowMs ≥ deadlineMs then
      makeStatusResponse requestId .deadlineExceeded
    else response
  (s.releaseInflight, [.queueFrame c response.frame])

def view (s : RpcServer) (c : Nat) (requestId : UInt64) (deadlineMs : Nat) :
    Outcome → RpcServer × List Work
  | .returns frame => s.viewReturned c requestId deadlineMs frame
  | .throws => s.viewReturned c requestId deadlineMs (makeStatusResponse requestId .internal).frame
  | .suspends =>
    (s.setConnection c fun connection =>
      { connection with reader := some (.view requestId deadlineMs) }, [])

def finish (i : Nat) (state : RequestState) (response : Response) :
    RpcServer × List Work :=
  if state.completed then (s, [])
  else
    let expired := decide (state.deadlineMs ≠ kNoTimeout ∧ s.nowMs ≥ state.deadlineMs)
    let response :=
      if expired then makeStatusResponse state.requestId .deadlineExceeded
      else response.addressedTo state.requestId
    let finished := s.releaseInflight.setState i fun state =>
      { state with completed := true, cancelled := state.cancelled || expired }
    ({ finished with delivered := finished.delivered ++ [(i, response)] },
      [.completeRequest state.connection state.requestId response.frame])

/-- One round of the loop of `FinishIdempotent` on shard `k`, with `FinishOnOwner`. -/
def finishWaiters (s : RpcServer) (k : Nat) (response : Response) :
    List Nat → Option (RpcServer × List Work)
  | [] => some (s, [])
  | i :: waiters =>
    match s.states[i]? with
    | none => none
    | some state =>
      if state.owner = k then some (s, [.finish i response, .finishWaiters waiters response])
      else some (s.post state.owner (.finish i response), [.finishWaiters waiters response])

def completeRequest (c : Nat) (requestId : UInt64) (frame : Frame) :
    RpcServer × List Work :=
  (s.setConnection c fun connection =>
      { connection with requests := connection.requests.erase requestId },
    [.queueFrame c frame, .maybeCloseAfterDrain c])

def queueFrame (c : Nat) (connection : ServerConnection) (frame : Frame) :
    Choice → Option (RpcServer × List Work)
  | .overLimit => some (s, if connection.closed then [] else [.close c])
  | .queue writerCloses =>
    if connection.closed then some (s, [])
    else
      match FrameEncoder.encode frame with
      | .error _ => some (s, [.close c])
      | .ok _ =>
        some (s.setConnection c fun connection =>
            { connection with queued := connection.queued ++ [frame] },
          if writerCloses then [.close c] else [])
  | _ => none

def maybeCloseAfterDrain (c : Nat) (connection : ServerConnection) :
    Choice → Option (RpcServer × List Work)
  | .outboundEmpty empty =>
    some (s,
      if connection.draining ∧ connection.requests.entries = [] ∧ empty ∧ !connection.closed then
        [.close c]
      else [])
  | _ => none

/-- `Close` and `OnConnectionClosed`, up to the loop that abandons the detached requests. -/
def close (c : Nat) (connection : ServerConnection) : RpcServer × List Work :=
  if connection.closed then (s, [])
  else
    (s.setConnection c fun connection => { connection with closed := true, requests := ∅ },
      [.abandonAll (connection.requests.entries.map fun entry => entry.2)])

def abandonAll (s : RpcServer) (requests : List Nat) : Choice → Option (RpcServer × List Work)
  | .pick n =>
    match requests[n]? with
    | none => if requests = [] then some (s, []) else none
    | some i => some (s, [.abandon i, .abandonAll (requests.eraseIdx n)])
  | _ => none

def abandon (i : Nat) (state : RequestState) : RpcServer × List Work :=
  if state.completed then (s, [])
  else
    (s.releaseInflight.setState i fun state => { state with completed := true, cancelled := true },
      if state.idempotencyKey = [] then [] else [.dropWaiter i])

def dropWaiter (s : RpcServer) (i : Nat) (state : RequestState) : RpcServer × List Work :=
  ({ s with table := s.table.dropWaiter state.idempotencyKey i }, [])

def doWork (s : RpcServer) (k : Nat) (w : Work) (choice : Choice) :
    Option (RpcServer × List Work) :=
  match w with
  | .lookUp i mode => s.states[i]?.map fun state => s.lookUp options i state mode
  | .execute e =>
    match s.executions[e]? with
    | some { request := i, phase := .admitted mode, .. } =>
      s.states[i]?.bind fun state => s.execute e state mode choice
    | _ => none
  | .complete e =>
    match s.executions[e]? with
    | some { request := i, idempotencyKey := key, body := body,
             phase := .finishing response cacheResponse } =>
      some (s.complete options e ⟨i, key, body, .finishing response cacheResponse⟩ response
        cacheResponse)
    | _ => none
  | .view c requestId deadlineMs =>
    match choice with
    | .handler outcome => some (s.view c requestId deadlineMs outcome)
    | _ => none
  | .finish i response => s.states[i]?.map fun state => s.finish i state response
  | .finishWaiters waiters response => s.finishWaiters k response waiters
  | .completeRequest c requestId frame => some (s.completeRequest c requestId frame)
  | .queueFrame c frame =>
    s.connections[c]?.bind fun connection => s.queueFrame c connection frame choice
  | .maybeCloseAfterDrain c =>
    s.connections[c]?.bind fun connection => s.maybeCloseAfterDrain c connection choice
  | .close c => s.connections[c]?.map fun connection => s.close c connection
  | .abandonAll requests => s.abandonAll requests choice
  | .abandon i => s.states[i]?.map fun state => s.abandon i state
  | .dropWaiter i => s.states[i]?.map fun state => s.dropWaiter i state

def run (k : Nat) (calls : List Work) : Option RpcServer :=
  if s.threads[k]? = some [] then some { s with threads := s.threads.set k calls } else none

/-! ## Workers -/

/-- The closure given to the executor, up to the handler call. -/
def startWorker (e : Nat) (state : RequestState) : RpcServer :=
  if state.cancelled then
    (s.setPhase e (.finishing (makeStatusResponse state.requestId .cancelled) false)).post
      state.owner (.completion e)
  else s.setPhase e .running

/-- The rest of the closure, once the handler came back. -/
def endWorker (e : Nat) (state : RequestState) (result : Response × Bool) :
    RpcServer :=
  (s.setPhase e (.finishing result.1 result.2)).post state.owner (.completion e)

def messageWork : Message → List Work
  | .completion e => [.complete e]
  | .finish i response => [.finish i response]

end RpcServer

/-! ## Steps -/

inductive Label where
  /-- `AttachConnection` on shard `owner`. -/
  | attachConnection (owner : Nat) (callerScope : Bytes)
  /-- The reader of connection `c` has decoded a frame. -/
  | frame (c : Nat) (frame : Frame)
  /-- The thread of shard `k` goes on with its work. -/
  | work (k : Nat) (choice : Choice)
  /-- A worker takes execution `e` from its executor's queue. -/
  | workerStarts (e : Nat)
  /-- The handler of execution `e` comes back on its worker. -/
  | workerEnds (e : Nat) (outcome : Outcome)
  /-- A shard takes a posted closure. -/
  | deliver (n : Nat)
  /-- The handler that the reader of `c` is suspended in goes on. -/
  | resumeReader (c : Nat) (outcome : Outcome)
  /-- The reader or the writer of `c` closes it (end of input, a protocol error, a failed write),
      or `StopNow` does. -/
  | closeConnection (c : Nat)
  | beginDrain
  /-- `ServerConnection::BeginDrain`. -/
  | drainConnection (c : Nat)
  | tick (nowMs : Nat)
  deriving DecidableEq

open RpcServer in
def RpcServer.step (options : RpcServerOptions) (s : RpcServer) : Label → Option RpcServer
  | .attachConnection owner callerScope =>
    if owner < s.threads.length then
      some { s with connections := s.connections ++ [{ owner := owner, callerScope := callerScope }] }
    else none
  | .frame c frame =>
    match s.connections[c]? with
    | none => none
    | some connection =>
      if connection.closed = false ∧ connection.reader = none then
        let (s', calls) := s.onFrame options c connection frame
        s'.run connection.owner calls
      else none
  | .work k choice =>
    match s.threads[k]? with
    | some (w :: rest) =>
      (s.doWork options k w choice).map fun (s', calls) =>
        { s' with threads := s'.threads.set k (calls ++ rest) }
    | _ => none
  | .workerStarts e =>
    match s.executions[e]? with
    | some { request := i, phase := .queued, .. } =>
      s.states[i]?.map fun state => s.startWorker e state
    | _ => none
  | .workerEnds e outcome =>
    match s.executions[e]? with
    | some { request := i, phase := .running, .. } =>
      s.states[i]?.bind fun state =>
        (handlerResult e state.requestId outcome).map fun result => s.endWorker e state result
    | _ => none
  | .deliver n =>
    match s.mailbox[n]? with
    | none => none
    | some (k, m) => { s with mailbox := s.mailbox.eraseIdx n }.run k (messageWork m)
  | .resumeReader c outcome =>
    match s.connections[c]? with
    | none => none
    | some connection =>
      let awake := s.setConnection c fun connection => { connection with reader := none }
      match connection.reader with
      | none => none
      | some (.handler e) =>
        match s.executions[e]? with
        | some { request := i, phase := .suspended, .. } =>
          s.states[i]?.bind fun state =>
            match handlerResult e state.requestId outcome with
            | some (response, cacheResponse) =>
              (awake.setPhase e (.finishing response cacheResponse)).run connection.owner
                [.complete e]
            | none => some s
        | _ => none
      | some (.view requestId deadlineMs) =>
        let (s', calls) := awake.view c requestId deadlineMs outcome
        s'.run connection.owner calls
  | .closeConnection c =>
    match s.connections[c]? with
    | none => none
    | some connection => s.run connection.owner [.close c]
  | .beginDrain => some { s with accepting := false }
  | .drainConnection c =>
    match s.connections[c]? with
    | none => none
    | some connection =>
      if s.accepting then none
      else
        (s.setConnection c fun connection => { connection with draining := true }).run
          connection.owner [.maybeCloseAfterDrain c]
  | .tick nowMs => if s.nowMs ≤ nowMs then some { s with nowMs := nowMs } else none

end CoroRpc.Server
