import CoroRpc.Lib.Run
import CoroRpc.Protocol.Decoder
import CoroRpc.Protocol.Metadata
import CoroRpc.Runtime.AsyncSocket
import CoroRpc.Runtime.Scheduler

/-!
# `MultiplexedConnection` and the coroutines that run on it

`rpc_src/transport/multiplexed_connection.cpp`, together with what it asks of the runtime:
`Coroutine::Resume`, `Yield` and `YieldFor` (`coroutine_runtime.cpp`), the I/O waits of
`AsyncSocket::Read` and `WriteAll` and `CancelFd`.

Completion is direct: `CompletePending` resumes the caller on top of whoever completes the call,
and `WakeWriter` runs the writer on top of whoever has enqueued a frame. A resumed caller runs
user code, which may call again, close the connection or start to drain it, while the code that
resumed it is in the middle of a loop. So the state has a call stack of coroutines, and each
coroutine has its continuation: the list of what its connection code has still to do, innermost
first. A coroutine with an empty list is in user code. The root context is coroutine 0; it is at
the bottom of the call stack and never suspends.

Functions that end in user code or in another coroutine take the rest of the continuation as
their last argument.

Left to the label, and so to any environment: what the system calls return, in which order
`CompleteAllPending` finds the entries of the hash map, which ready coroutine runs next, when
timers and descriptors fire, and what user code does. A coroutine that is suspended inside
`CallEncoded` is resumed by the connection and by its timer only.

`calls`, `completions`, `results`, `wire`, the serial number of a call and the `entry` of a
`returned` marker are not in the source; they record what has happened.
-/

namespace CoroRpc.Client

open Lib Protocol CoroRpc.Runtime Option

/-! ## Types -/

inductive ConnectionState where
  | disconnected
  | connecting
  | ready
  | closing
  | closed
  deriving DecidableEq

inductive CallStatus where
  | ok
  | timeout
  | notConnected
  | invalidRequest
  | duplicateRequestId
  | encodeError
  | connectionClosed
  | protocolError
  | resourceExhausted
  | localOverloaded
  | serviceNotFound
  | draining
  deriving DecidableEq

structure ConnectionLimits where
  maxPendingCalls : Nat := 4096
  maxOutboundBytes : Nat := 16 * 1024 * 1024
  deriving DecidableEq

def kReadSize : Nat := 16 * 1024

structure PendingCall where
  coroutine : Nat
  requestId : UInt64
  status : CallStatus := .notConnected
  response : Option Frame := none
  completed : Bool := false
  sent : Bool := false
  /-- The calls of the connection are numbered in the order of their acceptance. -/
  serial : Nat
  deriving DecidableEq

structure OutboundFrame where
  requestId : UInt64
  bytes : Bytes
  control : Bool
  deriving DecidableEq

/-- What `Call` has returned, for the call with this number if it was accepted. -/
structure CallResult where
  serial : Option Nat := none
  requestId : UInt64
  status : CallStatus
  response : Option Frame := none
  deriving DecidableEq

/-- One piece of connection code that a coroutine has still to run. -/
inductive Op where
  /-- The head of the loop in `ReaderLoop`. -/
  | readerLoop
  | read (offset : Nat)
  | readAwaited (offset : Nat)
  /-- The inner loop: the next frame out of the decoder. -/
  | decodeNext
  /-- The test of the state at the end of the body. -/
  | readerCheck
  | readerEnd
  /-- The head of the loop in `WriterLoop`. -/
  | writerLoop
  /-- `::write` of the batch from this offset. -/
  | write (offset : Nat)
  | writeAwaited (offset : Nat)
  | writerEnd
  | failConnection (status : CallStatus)
  /-- The loop of `CompleteAllPending` over the rest of its ids, and behind it the end of `Close`
      or of `FailConnection`. -/
  | completeAll (requestIds : List UInt64) (status : CallStatus) (inClose : Bool)
      (entry : List Nat)
  /-- The last statement of `CompletePending`. -/
  | resume (c : Nat)
  /-- `Close` or `FailConnection` has returned; `entry` are the calls that were in
      `pending_calls_` when it was called. -/
  | returned (entry : List Nat)
  | maybeFinishDrain
  /-- `CallEncoded` after its `WakeWriter`: `Yield` or `YieldFor`. -/
  | yieldCall (timed : Bool) (requestId : UInt64)
  | callResumed (requestId : UInt64)
  /-- `CallEncoded`: take the result out of `pending_calls_` and return it. -/
  | callEnd (requestId : UInt64)
  /-- `StartFibers`: `Resume(reader_)`. -/
  | startReader
  /-- `StartFibers`: `Resume(writer_)`. -/
  | startWriter
  deriving DecidableEq

structure Coroutine where
  state : CoroutineState
  /-- The entry function is `ReaderLoop` or `WriterLoop`. -/
  fiber : Bool
  /-- The result of the last I/O wait. -/
  waitResult : WaitResult := .error
  code : List Op
  deriving DecidableEq

structure MultiplexedConnection where
  limits : ConnectionLimits
  state : ConnectionState := .disconnected
  /-- `fd_ >= 0`. -/
  fdOpen : Bool := false
  nextRequestId : UInt64 := 1
  decoder : FrameDecoder := .make {}
  reader : Option Nat := none
  writer : Option Nat := none
  pendingCalls : List PendingCall := []
  outbound : List OutboundFrame := []
  outboundBytes : Nat := 0
  writeBatch : Bytes := []
  lateResponses : Nat := 0
  coroutines : List Coroutine := [{ state := .running, fiber := false, code := [] }]
  /-- Innermost first. -/
  callStack : List Nat := [0]
  calls : Nat := 0
  completions : List Nat := []
  results : List CallResult := []
  /-- The bytes that `::write` has accepted. -/
  wire : Bytes := []

inductive Label where
  /-- `CreateCo`: a coroutine of user code that has not run. -/
  | create
  | spawn
  /-- `Attach`, or `Connect` once the socket is connected. -/
  | attach
  | call (request : Frame) (timeoutMs : Nat)
  /-- `Call(metadata, body, timeout)`. -/
  | callMetadata (metadata : RequestMetadata) (body : Bytes) (timeoutMs : Nat)
  | beginDrain
  /-- `Close`, and the order in which it finds the unfinished calls. -/
  | close (order : List UInt64)
  /-- User code suspends for reasons of its own. -/
  | suspend (waiting : CoroutineState)
  /-- The entry function of a coroutine of user code returns. -/
  | finish
  | resumeUser (c : Nat)
  /-- A coroutine that user code has suspended becomes ready. -/
  | wake (c : Nat)
  /-- `RunReady` in the root. -/
  | run (c : Nat)
  /-- The timer of a call expires: `CompleteTimer`. -/
  | timer (c : Nat)
  /-- The descriptor of a waiting reader or writer becomes ready: `CompleteIo`. -/
  | ioReady (c : Nat)
  /-- The running coroutine goes on by one piece of code. -/
  | tick
  /-- The same for `FailConnection`, with the order in which it finds the unfinished calls. -/
  | failOrder (order : List UInt64)
  | readReturns (result : ReadResult)
  | writeReturns (result : WriteResult)
  deriving DecidableEq

namespace MultiplexedConnection

/-! ## Coroutines -/

variable (s : MultiplexedConnection)

def setCoroutine (c : Nat) (f : Coroutine → Coroutine) :
    MultiplexedConnection :=
  { s with coroutines := s.coroutines.modify c f }

def goOn (code : List Op) : MultiplexedConnection :=
  match s.callStack with
  | c :: _ => s.setCoroutine c fun x => { x with code := code }
  | [] => s

/-- The running coroutine gives up control in this state, to go on with `code` later. -/
def leave (state : CoroutineState) (code : List Op) :
    MultiplexedConnection :=
  match s.callStack with
  | c :: below =>
    { s.setCoroutine c fun x => { x with state := state, code := code } with callStack := below }
  | [] => s

def enter (c : Nat) : MultiplexedConnection :=
  { s.setCoroutine c fun x => { x with state := .running } with callStack := c :: s.callStack }

/-- An exception leaves the connection code of the running coroutine: it ends the reader or the
    writer, and goes to user code in the others. -/
def throw : MultiplexedConnection :=
  match s.callStack with
  | c :: _ =>
    match s.coroutines[c]? with
    | some x => if x.fiber then s.leave .finished [] else s.goOn []
    | none => s
  | [] => s

/-- `Coroutine::Resume`. A coroutine in `READY` is in the queue and left there; the one in
    `WAIT_TIMER` is detached from its timer first. -/
def resume (c : Nat) : MultiplexedConnection :=
  match s.coroutines[c]? with
  | none => s.throw
  | some x =>
    match x.state with
    | .ready => s
    | .waitTimer | .init | .waitEvent => s.enter c
    | .running | .waitIo | .finished => s.throw

def wakeWriter : MultiplexedConnection :=
  match s.writer with
  | some w =>
    match s.coroutines[w]? with
    | some x => if x.state = .waitEvent then s.resume w else s
    | none => s
  | none => s

/-- `socket_.Close(fd_); fd_ = -1`: `CancelFd` makes the waiting reader and writer ready. -/
def closeSocket : MultiplexedConnection :=
  if s.fdOpen then
    { s with
      fdOpen := false
      coroutines := s.coroutines.map fun x =>
        if x.fiber = true ∧ x.state = .waitIo then
          { x with state := .ready, waitResult := .cancelled }
        else x }
  else s

/-! ## Pending calls -/

def find (requestId : UInt64) : Option PendingCall :=
  s.pendingCalls.find? (·.requestId == requestId)

def setPending (requestId : UInt64) (f : PendingCall → PendingCall) :
    MultiplexedConnection :=
  { s with pendingCalls := s.pendingCalls.map fun p => if p.requestId = requestId then f p else p }

def hasUnfinishedPending : Bool :=
  s.pendingCalls.any fun p => !p.completed

/-- The ids that `CompleteAllPending` collects, in some order. -/
def unfinished : List UInt64 :=
  (s.pendingCalls.filter fun p => !p.completed).map (·.requestId)

/-- The calls in `pending_calls_`. -/
def serials : List Nat := s.pendingCalls.map (·.serial)

def complete (p : PendingCall) (status : CallStatus)
    (response : Option Frame) : MultiplexedConnection :=
  { s.setPending p.requestId fun q =>
      { q with completed := true, status := status, response := response } with
    completions := s.completions ++ [p.serial] }

/-! ## Closing and failing -/

/-- What is behind the loop of `CompleteAllPending`: in `Close`, `state_ = CLOSED; WakeWriter()`,
    in `FailConnection` the `WakeWriter()` alone. -/
def endCompleteAll (inClose : Bool) (entry : List Nat)
    (rest : List Op) : MultiplexedConnection :=
  ((if inClose then { s with state := .closed } else s).goOn (.returned entry :: rest)).wakeWriter

/-- `CompleteAllPending`, which has found the unfinished calls in this order. -/
def completeAllPending (order : List UInt64) (status : CallStatus)
    (inClose : Bool) (entry : List Nat) (rest : List Op) : MultiplexedConnection :=
  match order with
  | [] => s.endCompleteAll inClose entry rest
  | _ :: _ => s.goOn (.completeAll order status inClose entry :: rest)

/-- Close the descriptor and drop what is queued. -/
def disconnect : MultiplexedConnection :=
  { s.closeSocket with outbound := [], outboundBytes := 0 }

def close (order : List UInt64) (rest : List Op) :
    MultiplexedConnection :=
  if s.state = .closed ∨ s.state = .disconnected then s.goOn (.returned s.serials :: rest)
  else
    { s with state := .closing }.disconnect.completeAllPending order .connectionClosed true
      s.serials rest

/-- `FailConnection`: the state is `CLOSED` before any caller is woken. -/
def failConnection (status : CallStatus) (order : List UInt64)
    (rest : List Op) : MultiplexedConnection :=
  if s.state = .closed ∨ s.state = .disconnected then s.goOn (.returned s.serials :: rest)
  else
    { s.disconnect with state := .closed }.completeAllPending order status false s.serials rest

/-- `MaybeFinishDrain`. Its `Close` finds no unfinished call. -/
def maybeFinishDrain (rest : List Op) : MultiplexedConnection :=
  if s.state = .closing ∧ s.outbound = [] ∧ s.hasUnfinishedPending = false then s.close [] rest
  else s.goOn rest

def completePending (p : PendingCall) (status : CallStatus)
    (response : Option Frame) (rest : List Op) : MultiplexedConnection :=
  if p.completed then s.goOn rest
  else (s.complete p status response).maybeFinishDrain (.resume p.coroutine :: rest)

/-! ## Calls -/

def takeRequestId : MultiplexedConnection × UInt64 :=
  ({ s with nextRequestId := if s.nextRequestId + 1 = 0 then 1 else s.nextRequestId + 1 },
    s.nextRequestId)

/-- Whether `outbound_` has no room for so many bytes. -/
def overloaded (size : Nat) : Bool :=
  decide (size > s.limits.maxOutboundBytes) ||
    decide (s.outboundBytes > subSize s.limits.maxOutboundBytes size)

def enqueue (frame : OutboundFrame) : MultiplexedConnection :=
  { s with
    outbound := s.outbound ++ [frame]
    outboundBytes := addSize s.outboundBytes frame.bytes.length }

def queueCancel (requestId : UInt64) (rest : List Op) :
    MultiplexedConnection :=
  if s.state ≠ .ready ∨ requestId = 0 then s.goOn rest
  else
    match FrameEncoder.encode ⟨{ messageType := .cancel, requestId := requestId }, [], []⟩ with
    | .error _ => s.goOn rest
    | .ok encoded =>
      if s.overloaded encoded.length then s.goOn rest
      else ((s.enqueue ⟨requestId, encoded, true⟩).goOn rest).wakeWriter

/-- A call that is refused returns at once. -/
def refuse (requestId : UInt64) (status : CallStatus) :
    MultiplexedConnection :=
  { s with results := s.results ++ [{ requestId := requestId, status := status }] }

/-- `CallEncoded` of coroutine `c`, up to its `Yield`. -/
def callEncoded (c : Nat) (requestId : UInt64) (encoded : Bytes)
    (timeoutMs : Nat) : MultiplexedConnection :=
  if (s.find requestId).isSome then s.refuse requestId .duplicateRequestId
  else if s.overloaded encoded.length then s.refuse requestId .localOverloaded
  else
    let pending : PendingCall := { coroutine := c, requestId := requestId, serial := s.calls }
    let accepted :=
      { s.enqueue ⟨requestId, encoded, false⟩ with
        pendingCalls := s.pendingCalls ++ [pending]
        calls := s.calls + 1 }
    (accepted.goOn [.yieldCall (timeoutMs != kNoTimeout) requestId]).wakeWriter

/-- `Call(protocol::Frame, timeout)`. The root context, coroutine 0, has no `Current()`. -/
def call (c : Nat) (request : Frame) (timeoutMs : Nat) :
    MultiplexedConnection :=
  if c = 0 ∨ s.state ≠ .ready then s.refuse 0 .notConnected
  else if request.header.messageType ≠ .request then s.refuse 0 .invalidRequest
  else if timeoutMs = 0 then s.refuse 0 .timeout
  else if s.pendingCalls.length ≥ s.limits.maxPendingCalls then s.refuse 0 .localOverloaded
  else
    let (s, requestId) :=
      if request.header.requestId = 0 then s.takeRequestId else (s, request.header.requestId)
    match FrameEncoder.encode
      { request with header := { request.header with requestId := requestId } } with
    | .error _ => s.refuse requestId .encodeError
    | .ok encoded => s.callEncoded c requestId encoded timeoutMs

def callMetadata (c : Nat) (metadata : RequestMetadata) (body : Bytes)
    (timeoutMs : Nat) : MultiplexedConnection :=
  if c = 0 ∨ s.state ≠ .ready then s.refuse 0 .notConnected
  else if timeoutMs = 0 then s.refuse 0 .timeout
  else if s.pendingCalls.length ≥ s.limits.maxPendingCalls then s.refuse 0 .localOverloaded
  else
    let (s, requestId) := s.takeRequestId
    match FrameEncoder.encodeRequest metadata body requestId with
    | .error _ => s.refuse requestId .encodeError
    | .ok encoded => s.callEncoded c requestId encoded timeoutMs

/-- `CallEncoded` after its `Yield`: a call that is not completed has timed out. -/
def callResumed (requestId : UInt64) (rest : List Op) :
    MultiplexedConnection :=
  match s.find requestId with
  | none => s.goOn rest
  | some p =>
    if p.completed then s.goOn (.callEnd requestId :: rest)
    else
      let timedOut := s.complete p .timeout p.response
      if p.sent then timedOut.queueCancel requestId (.maybeFinishDrain :: .callEnd requestId :: rest)
      else timedOut.maybeFinishDrain (.callEnd requestId :: rest)

def callEnd (requestId : UInt64) (rest : List Op) :
    MultiplexedConnection :=
  match s.find requestId with
  | none => s.goOn rest
  | some p =>
    let result : CallResult := ⟨some p.serial, requestId, p.status, p.response⟩
    { s with
      pendingCalls := s.pendingCalls.filter (·.requestId != requestId)
      results := s.results ++ [result] }.goOn rest

def beginDrain : MultiplexedConnection :=
  if s.state ≠ .ready then s
  else ({ s with state := .closing }.goOn [.maybeFinishDrain]).wakeWriter

/-- `Attach`: the descriptor is there, `StartFibers` creates the two coroutines. -/
def attach : MultiplexedConnection :=
  if s.state ≠ .disconnected then s
  else
    let reader : Coroutine := { state := .init, fiber := true, code := [.readerLoop] }
    let writer : Coroutine := { state := .init, fiber := true, code := [.writerLoop] }
    { s with
      state := .ready
      fdOpen := true
      reader := some s.coroutines.length
      writer := some (s.coroutines.length + 1)
      coroutines := s.coroutines ++ [reader, writer] }.goOn [.startReader, .startWriter]

/-! ## The reader -/

def endReader : MultiplexedConnection :=
  { s with reader := none }.leave .finished []

def isOpen : Bool :=
  decide (s.state = .ready ∨ s.state = .closing)

def readerLoop (rest : List Op) : MultiplexedConnection :=
  if s.isOpen then
    match s.decoder.prepareWritable kReadSize with
    | (d, none) =>
      { s with decoder := d }.goOn (.failConnection .protocolError :: .readerEnd :: rest)
    | (d, some offset) => { s with decoder := d }.goOn (.read offset :: rest)
  else s.endReader

/-- `Read` has failed. -/
def readFailed (rest : List Op) : MultiplexedConnection :=
  { s with decoder := (s.decoder.commitWritable 0).1 }.goOn
    (.failConnection .connectionClosed :: .readerEnd :: rest)

def readReturns (offset : Nat) (rest : List Op) :
    ReadResult → Option MultiplexedConnection
  | .data bytes =>
    if bytes = [] ∨ bytes.length > kReadSize then none
    else
      let filled := { s.decoder with buffer := writeAt s.decoder.buffer offset bytes }
      match filled.commitWritable bytes.length with
      | (d, .protocolError) =>
        some ({ s with decoder := d }.goOn (.failConnection .protocolError :: .readerEnd :: rest))
      | (d, _) => some ({ s with decoder := d }.goOn (.decodeNext :: rest))
  | .eof | .error => some (s.readFailed rest)
  | .wouldBlock => some (s.leave .waitIo (.readAwaited offset :: rest))
  | .interrupted => some s

/-- The body of the inner loop of `ReaderLoop`. -/
def decodeNext (s : MultiplexedConnection) (rest : List Op) : MultiplexedConnection :=
  match s.decoder.next with
  | (d, .needMore, _) => { s with decoder := d }.goOn (.readerCheck :: rest)
  | (d, .frameReady, some frame) =>
    let s := { s with decoder := d }
    if frame.header.messageType ≠ .response then
      s.goOn (.failConnection .protocolError :: .readerCheck :: rest)
    else
      match s.find frame.header.requestId with
      | some p => s.completePending p .ok (some frame) (.decodeNext :: rest)
      | none => { s with lateResponses := s.lateResponses + 1 }.goOn (.decodeNext :: rest)
  | (d, _, _) =>
    { s with decoder := d }.goOn (.failConnection .protocolError :: .readerCheck :: rest)

/-! ## The writer -/

def endWriter : MultiplexedConnection :=
  { s with writer := none }.leave .finished []

/-- The inner loop of `WriterLoop` over the queue: fill `write_batch_`, and leave out the requests
    whose call is gone or completed. -/
def fillBatch : List OutboundFrame → MultiplexedConnection → MultiplexedConnection
  | [], s => { s with outbound := [] }
  | frame :: queue, s =>
    if s.writeBatch = [] ∨ s.writeBatch.length + frame.bytes.length ≤ kWriteBatchBytes then
      let s := { s with outboundBytes := subSize s.outboundBytes frame.bytes.length }
      let taken := { s with writeBatch := s.writeBatch ++ frame.bytes }
      if frame.control then fillBatch queue taken
      else
        match s.find frame.requestId with
        | none => fillBatch queue s
        | some p =>
          if p.completed then fillBatch queue s
          else fillBatch queue (taken.setPending frame.requestId fun p => { p with sent := true })
    else { s with outbound := frame :: queue }

def writerLoop (s : MultiplexedConnection) (rest : List Op) : MultiplexedConnection :=
  if s.isOpen then
    if s.outbound = [] then s.leave .waitEvent (.writerLoop :: rest)
    else
      let filled := fillBatch s.outbound { s with writeBatch := [] }
      if filled.writeBatch = [] then filled.goOn (.writerLoop :: rest)
      else filled.goOn (.write 0 :: rest)
  else s.endWriter

/-- `WriteAll` has returned less than the batch. -/
def writeFailed (rest : List Op) : MultiplexedConnection :=
  s.goOn (.failConnection .connectionClosed :: .writerEnd :: rest)

def writeReturns (offset : Nat) (rest : List Op) :
    WriteResult → Option MultiplexedConnection
  | .accepted n =>
    if n = 0 ∨ offset + n > s.writeBatch.length then none
    else
      let s := { s with wire := s.wire ++ (s.writeBatch.drop offset).take n }
      if offset + n < s.writeBatch.length then some (s.goOn (.write (offset + n) :: rest))
      else some (s.maybeFinishDrain (.writerLoop :: rest))
  | .zero | .error => some (s.writeFailed rest)
  | .wouldBlock => some (s.leave .waitIo (.writeAwaited offset :: rest))
  | .interrupted => some s

/-! ## Steps -/

/-- The steps of user code; coroutine `c` runs. -/
def userStep (c : Nat) : Label → Option MultiplexedConnection
  | .create =>
    some { s with coroutines := s.coroutines ++ [{ state := .init, fiber := false, code := [] }] }
  | .spawn =>
    some { s with coroutines := s.coroutines ++ [{ state := .ready, fiber := false, code := [] }] }
  | .attach => some s.attach
  | .call request timeoutMs => some (s.call c request timeoutMs)
  | .callMetadata metadata body timeoutMs => some (s.callMetadata c metadata body timeoutMs)
  | .beginDrain => some s.beginDrain
  | .close order => if order.isPerm s.unfinished then some (s.close order []) else none
  | .suspend waiting =>
    if c ≠ 0 ∧ waiting.isWaiting then some (s.leave waiting []) else none
  | .finish => if c ≠ 0 then some (s.leave .finished []) else none
  | .resumeUser d =>
    match s.coroutines[d]? with
    | some y => if y.fiber = false ∧ y.code = [] then some (s.resume d) else none
    | none => none
  | .wake d =>
    match s.coroutines[d]? with
    | some y =>
      if y.fiber = false ∧ y.code = [] ∧ y.state.isWaiting then
        some (s.setCoroutine d fun y => { y with state := .ready })
      else none
    | none => none
  | _ => none

/-- The steps of the root's drive loop: `RunReady` and `Poll`. -/
def rootStep : Label → Option MultiplexedConnection
  | .run c =>
    match s.coroutines[c]? with
    | some x => if x.state = .ready then some (s.enter c) else none
    | none => none
  | .timer c =>
    match s.coroutines[c]? with
    | some x =>
      if x.state = .waitTimer ∧ x.fiber = false ∧ x.code ≠ [] then
        some (s.setCoroutine c fun x => { x with state := .ready })
      else none
    | none => none
  | .ioReady c =>
    match s.coroutines[c]? with
    | some x =>
      if x.state = .waitIo ∧ x.fiber = true then
        some (s.setCoroutine c fun x => { x with state := .ready, waitResult := .ioReady })
      else none
    | none => none
  | _ => none

/-- The steps of connection code: coroutine `x` runs `op` and then has `rest` to do. -/
def opStep (x : Coroutine) (rest : List Op) :
    Op → Label → Option MultiplexedConnection
  | .readerLoop, .tick => some (s.readerLoop rest)
  | .read offset, .readReturns result => s.readReturns offset rest result
  | .readAwaited offset, .tick =>
    some (if x.waitResult = .ioReady then s.goOn (.read offset :: rest) else s.readFailed rest)
  | .decodeNext, .tick => some (s.decodeNext rest)
  | .readerCheck, .tick =>
    some (if s.state = .closed ∨ s.state = .disconnected then s.goOn (.readerEnd :: rest)
      else s.goOn (.readerLoop :: rest))
  | .readerEnd, .tick => some s.endReader
  | .writerLoop, .tick => some (s.writerLoop rest)
  | .write offset, .writeReturns result => s.writeReturns offset rest result
  | .writeAwaited offset, .tick =>
    some (if x.waitResult = .ioReady then s.goOn (.write offset :: rest) else s.writeFailed rest)
  | .writerEnd, .tick => some s.endWriter
  | .failConnection status, .failOrder order =>
    if order.isPerm s.unfinished then some (s.failConnection status order rest) else none
  | .completeAll [] _ inClose entry, .tick => some (s.endCompleteAll inClose entry rest)
  | .completeAll (id :: ids) status inClose entry, .tick =>
    let rest := .completeAll ids status inClose entry :: rest
    match s.find id with
    | some p => some (s.completePending p status none rest)
    | none => some (s.goOn rest)
  | .resume c, .tick => some ((s.goOn rest).resume c)
  | .returned _, .tick => some (s.goOn rest)
  | .maybeFinishDrain, .tick => some (s.maybeFinishDrain rest)
  | .yieldCall timed requestId, .tick =>
    some (s.leave (if timed then .waitTimer else .waitEvent) (.callResumed requestId :: rest))
  | .callResumed requestId, .tick => some (s.callResumed requestId rest)
  | .callEnd requestId, .tick => some (s.callEnd requestId rest)
  | .startReader, .tick =>
    some (match s.reader with
      | some r => (s.goOn rest).resume r
      | none => s.throw)
  | .startWriter, .tick =>
    some (match s.writer with
      | some w => (s.goOn rest).resume w
      | none => s.throw)
  | _, _ => none

def step (l : Label) : Option MultiplexedConnection :=
  match s.callStack with
  | [] => none
  | c :: below =>
    match s.coroutines[c]? with
    | none => none
    | some x =>
      match x.code with
      | op :: rest => s.opStep x rest op l
      | [] =>
        -- `RunReady` and `Poll` are the root's, between two coroutines.
        if below = [] then (s.userStep c l).or (s.rootStep l) else s.userStep c l

def init (limits : ConnectionLimits) : MultiplexedConnection := { limits := limits }

end MultiplexedConnection

/-! ## What connection code can do

`opStep` is one match on operation and label, of which nearly all pairs are not enabled. Proofs
about it go through this inversion. -/

/-- The enabled steps of connection code: coroutine `x` runs the operation, and then has `rest` to
    do. -/
inductive OpStep (s : MultiplexedConnection) (x : Coroutine) (rest : List Op) :
    Op → Label → MultiplexedConnection → Prop
  | readerLoop : OpStep s x rest .readerLoop .tick (s.readerLoop rest)
  | read (offset : Nat) (result : ReadResult) {t : MultiplexedConnection}
      (h : s.readReturns offset rest result = some t) :
      OpStep s x rest (.read offset) (.readReturns result) t
  | readAwaited (offset : Nat) : OpStep s x rest (.readAwaited offset) .tick
      (if x.waitResult = .ioReady then s.goOn (.read offset :: rest) else s.readFailed rest)
  | decodeNext : OpStep s x rest .decodeNext .tick (s.decodeNext rest)
  | readerCheck : OpStep s x rest .readerCheck .tick
      (if s.state = .closed ∨ s.state = .disconnected then s.goOn (.readerEnd :: rest)
        else s.goOn (.readerLoop :: rest))
  | readerEnd : OpStep s x rest .readerEnd .tick s.endReader
  | writerLoop : OpStep s x rest .writerLoop .tick (s.writerLoop rest)
  | write (offset : Nat) (result : WriteResult) {t : MultiplexedConnection}
      (h : s.writeReturns offset rest result = some t) :
      OpStep s x rest (.write offset) (.writeReturns result) t
  | writeAwaited (offset : Nat) : OpStep s x rest (.writeAwaited offset) .tick
      (if x.waitResult = .ioReady then s.goOn (.write offset :: rest) else s.writeFailed rest)
  | writerEnd : OpStep s x rest .writerEnd .tick s.endWriter
  | failConnection (status : CallStatus) (order : List UInt64)
      (perm : order.isPerm s.unfinished = true) :
      OpStep s x rest (.failConnection status) (.failOrder order)
        (s.failConnection status order rest)
  | completedAll (status : CallStatus) (inClose : Bool) (entry : List Nat) :
      OpStep s x rest (.completeAll [] status inClose entry) .tick
        (s.endCompleteAll inClose entry rest)
  | completeAll (id : UInt64) (ids : List UInt64) (status : CallStatus) (inClose : Bool)
      (entry : List Nat) : OpStep s x rest (.completeAll (id :: ids) status inClose entry) .tick
        (match s.find id with
        | some p => s.completePending p status none (.completeAll ids status inClose entry :: rest)
        | none => s.goOn (.completeAll ids status inClose entry :: rest))
  | resume (c : Nat) : OpStep s x rest (.resume c) .tick ((s.goOn rest).resume c)
  | returned (entry : List Nat) : OpStep s x rest (.returned entry) .tick (s.goOn rest)
  | maybeFinishDrain : OpStep s x rest .maybeFinishDrain .tick (s.maybeFinishDrain rest)
  | yieldCall (timed : Bool) (requestId : UInt64) :
      OpStep s x rest (.yieldCall timed requestId) .tick
        (s.leave (if timed then .waitTimer else .waitEvent) (.callResumed requestId :: rest))
  | callResumed (requestId : UInt64) :
      OpStep s x rest (.callResumed requestId) .tick (s.callResumed requestId rest)
  | callEnd (requestId : UInt64) :
      OpStep s x rest (.callEnd requestId) .tick (s.callEnd requestId rest)
  | startReader : OpStep s x rest .startReader .tick
      (match s.reader with
      | some r => (s.goOn rest).resume r
      | none => s.throw)
  | startWriter : OpStep s x rest .startWriter .tick
      (match s.writer with
      | some w => (s.goOn rest).resume w
      | none => s.throw)

variable {l : Label} {s t : MultiplexedConnection}

theorem opStep_cases {x : Coroutine} {rest : List Op} {op : Op} (h : s.opStep x rest op l = some t) :
    OpStep s x rest op l t := by
  cases op with
  | read offset =>
    cases l <;> try cases h
    exact .read offset _ h
  | write offset =>
    cases l <;> try cases h
    exact .write offset _ h
  | failConnection status =>
    cases l <;> try cases h
    next order =>
    unfold MultiplexedConnection.opStep at h
    dsimp only at h
    split at h <;> cases h
    exact .failConnection status order ‹_›
  | completeAll ids status inClose entry =>
    cases ids with
    | nil =>
      cases l <;> cases h
      constructor
    | cons id ids =>
      cases l <;> try cases h
      have hstep : OpStep s x rest (.completeAll (id :: ids) status inClose entry) .tick _ :=
        .completeAll id ids status inClose entry
      unfold MultiplexedConnection.opStep at h
      dsimp only at h
      split at h <;> cases h <;> simpa only [‹s.find id = _›] using hstep
  | _ =>
    cases l <;> cases h
    constructor

/-- The drive loop enters a ready coroutine, or one that waits becomes ready. -/
theorem rootStep_cases (h : s.rootStep l = some t) :
    ∃ d y, s.coroutines[d]? = some y ∧ ((y.state = .ready ∧ t = s.enter d) ∨
      ∃ f : Coroutine → Coroutine, (y.state = .waitTimer ∨ y.state = .waitIo) ∧
        t = s.setCoroutine d f ∧
        ∀ z, (f z).code = z.code ∧ (f z).fiber = z.fiber ∧ (f z).state = .ready) := by
  cases l with
  | run d =>
    simp only [MultiplexedConnection.rootStep] at h
    split at h
    · next y hy =>
      split at h
      · next hst => exact ⟨d, y, hy, .inl ⟨hst, (some.inj h).symm⟩⟩
      · cases h
    · cases h
  | timer d | ioReady d =>
    simp only [MultiplexedConnection.rootStep] at h
    split at h
    · next y hy =>
      split at h
      · next hst =>
        obtain rfl := some.inj h
        exact ⟨d, y, hy, .inr ⟨_, by simp [hst.1], rfl, fun _ => ⟨rfl, rfl, rfl⟩⟩⟩
      · cases h
    · cases h
  | _ => cases h

/-- Connection code runs, or the user's code, or the drive loop while the root has no code. -/
theorem step_cases (h : s.step l = some t) :
    ∃ c below x, s.callStack = c :: below ∧ s.coroutines[c]? = some x ∧
      ((∃ op rest, x.code = op :: rest ∧ s.opStep x rest op l = some t) ∨
        (x.code = [] ∧ (s.userStep c l = some t ∨ (below = [] ∧ s.rootStep l = some t)))) := by
  unfold MultiplexedConnection.step at h
  split at h
  · cases h
  next c below hs =>
  split at h
  · cases h
  next x hx =>
  refine ⟨c, below, x, hs, hx, ?_⟩
  split at h
  · next op rest hcode => exact .inl ⟨op, rest, hcode, h⟩
  next hcode =>
  refine .inr ⟨hcode, ?_⟩
  split at h
  · next hbelow => exact (or_eq_some_iff.mp h).imp_right fun hr => ⟨hbelow, hr.2⟩
  · exact .inl h

end CoroRpc.Client
