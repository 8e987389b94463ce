import CoroRpc.Lib.PartialWrite
import CoroRpc.Lib.Run
import CoroRpc.Protocol.Decoder
import CoroRpc.Runtime.AsyncSocket

/-!
# The outbound side of a server connection

`AddRequest`, `QueueFrame`, `CompleteRequest`, `BeginDrain`, `Close`, `WriterLoop` and
`MaybeCloseAfterDrain` of `ServerConnection` (`rpc_src/transport/rpc_server.cpp`), with
`AsyncSocket::WriteAll` (`rpc_src/runtime/async_socket.cpp`).

`Requests` leaves the queue and the socket of a connection to the environment; here they are the
model, for one connection, and what the rest of the server does to it is a label. All of it runs
on the thread of the connection's shard. `QueueFrame` and `Close` resume a sleeping writer, which
then runs on top of them until it suspends; so there are two continuations, the writer's
(`writer`) and, below it, that of the function which has resumed it: at most the
`MaybeCloseAfterDrain` at the end of `CompleteRequest` (`finishing`).

`accepted`, `wire`, `writeFailed` and `drained` are not in the source. They record the frames that
`QueueEncoded` has taken, the bytes that `write` has accepted, whether a write has failed and
whether it was `MaybeCloseAfterDrain` that has closed the connection.
-/

namespace CoroRpc.Server

open Lib Protocol CoroRpc.Runtime List Option

inductive WriterState where
  /-- `Start` has not resumed it. -/
  | created
  | loop
  /-- Running, before `::write` of the batch from this offset. -/
  | write (offset : Nat)
  /-- Running, before the `MaybeCloseAfterDrain` of the loop. -/
  | written
  /-- Suspended in `Yield`. -/
  | asleep
  /-- Suspended in the `AwaitWritable` of `WriteAll`. -/
  | awaiting (offset : Nat)
  /-- The wait is over and the coroutine is in the ready queue. -/
  | ready (offset : Nat) (ioReady : Bool)
  | ended
  deriving DecidableEq

namespace WriterState

def isRunning : WriterState → Bool
  | .loop | .write _ | .written => true
  | _ => false

/-- Suspended inside `WriteAll`. -/
def isWriting : WriterState → Bool
  | .awaiting _ | .ready _ _ => true
  | _ => false

end WriterState

structure ConnectionWriter where
  maxInflightPerConnection : Nat
  maxOutboundBytes : Nat
  /-- The keys of `requests_`. -/
  requests : List UInt64 := []
  outbound : List Bytes := []
  outboundBytes : Nat := 0
  writeBatch : Bytes := []
  draining : Bool := false
  closed : Bool := false
  writer : WriterState := .created
  finishing : Bool := false
  accepted : List Bytes := []
  wire : Bytes := []
  writeFailed : Bool := false
  drained : Bool := false

inductive WriterLabel where
  /-- `Start`: `Resume(writer_)`. -/
  | start
  | addRequest (requestId : UInt64)
  | queueFrame (frame : Frame)
  | completeRequest (requestId : UInt64) (response : Frame)
  | beginDrain
  | close
  /-- The code that runs goes on. -/
  | tick
  | writeReturns (result : WriteResult)
  /-- The descriptor becomes writable. -/
  | ioReady
  /-- The shard takes the writer from its ready queue. -/
  | run
  deriving DecidableEq

namespace ConnectionWriter

/-! ## Functions -/

/-- `Close`. `CancelFd` ends the wait of the writer, a sleeping writer is resumed, and
    `OnConnectionClosed` detaches the requests. -/
def close (s : ConnectionWriter) : ConnectionWriter :=
  if s.closed then s
  else
    { s with
      closed := true
      outbound := []
      outboundBytes := 0
      requests := []
      writer := match s.writer with
        | .awaiting offset => .ready offset false
        | .asleep => .loop
        | writer => writer }

/-- The condition of `MaybeCloseAfterDrain`. -/
def drains (s : ConnectionWriter) : Bool :=
  s.draining && s.requests.isEmpty && s.outbound.isEmpty && !s.closed

def maybeCloseAfterDrain (s : ConnectionWriter) : ConnectionWriter :=
  if s.drains then { s.close with drained := true } else s

def queueEncoded (s : ConnectionWriter) (bytes : Bytes) : ConnectionWriter :=
  if bytes.length > s.maxOutboundBytes ∨
      s.outboundBytes > subSize s.maxOutboundBytes bytes.length then s.close
  else
    { s with
      outboundBytes := addSize s.outboundBytes bytes.length
      outbound := s.outbound ++ [bytes]
      accepted := s.accepted ++ [bytes]
      writer := if s.writer = .asleep then .loop else s.writer }

def queueFrame (s : ConnectionWriter) (frame : Frame) : ConnectionWriter :=
  if s.closed then s
  else
    match FrameEncoder.encode frame with
    | .error _ => s.close
    | .ok bytes => s.queueEncoded bytes

def addRequest (s : ConnectionWriter) (requestId : UInt64) : ConnectionWriter :=
  if s.closed ∨ s.requests.length ≥ s.maxInflightPerConnection ∨ requestId ∈ s.requests then s
  else { s with requests := s.requests ++ [requestId] }

/-- `CompleteRequest`, up to its `MaybeCloseAfterDrain`. -/
def completeRequest (s : ConnectionWriter) (requestId : UInt64) (response : Frame) :
    ConnectionWriter :=
  { { s with requests := s.requests.filter (· != requestId) }.queueFrame response with
    finishing := true }

def beginDrain (s : ConnectionWriter) : ConnectionWriter :=
  { s with draining := true }.maybeCloseAfterDrain

/-! ## The writer -/

/-- The inner loop of `WriterLoop` over the queue: fill `write_batch_`. -/
def fillBatch : List Bytes → ConnectionWriter → ConnectionWriter
  | [], s => { s with outbound := [] }
  | bytes :: queue, s =>
    if s.writeBatch = [] ∨ s.writeBatch.length + bytes.length ≤ kWriteBatchBytes then
      fillBatch queue { s with
          outboundBytes := subSize s.outboundBytes bytes.length
          writeBatch := s.writeBatch ++ bytes }
    else { s with outbound := bytes :: queue }

/-- The head of the loop. `WriteAll` of an empty batch returns at once. -/
def writerLoop (s : ConnectionWriter) : ConnectionWriter :=
  if s.closed then { s with writer := .ended }
  else if s.outbound = [] then { s with writer := .asleep }
  else
    let filled := fillBatch s.outbound { s with writeBatch := [] }
    if filled.writeBatch = [] then { filled with writer := .written }
    else { filled with writer := .write 0 }

/-- `WriteAll` has returned less than the batch. -/
def writeShort (s : ConnectionWriter) : ConnectionWriter :=
  { { s with writeFailed := true }.close with writer := .ended }

def writeReturns (s : ConnectionWriter) (offset : Nat) : WriteResult → Option ConnectionWriter
  | .accepted n =>
    if n = 0 ∨ offset + n > s.writeBatch.length then none
    else
      let s := { s with wire := s.wire ++ (s.writeBatch.drop offset).take n }
      if offset + n < s.writeBatch.length then some { s with writer := .write (offset + n) }
      else some { s with writer := .written }
  | .zero | .error => some s.writeShort
  | .wouldBlock => some { s with writer := .awaiting offset }
  | .interrupted => some s

/-! ## Steps -/

/-- No code of the connection is in the middle of something. -/
def isIdle (s : ConnectionWriter) : Bool := !s.writer.isRunning && !s.finishing

/-- The code that runs: the writer, or what is left of `CompleteRequest`. -/
def tick (s : ConnectionWriter) : Option ConnectionWriter :=
  match s.writer with
  | .loop => some s.writerLoop
  | .written => some { s.maybeCloseAfterDrain with writer := .loop }
  | .write _ => none
  | _ => if s.finishing then some { s with finishing := false }.maybeCloseAfterDrain else none

def step (s : ConnectionWriter) (l : WriterLabel) : Option ConnectionWriter :=
  match l with
  | .start => if s.isIdle ∧ s.writer = .created then some { s with writer := .loop } else none
  | .addRequest requestId => if s.isIdle then some (s.addRequest requestId) else none
  | .queueFrame frame => if s.isIdle then some (s.queueFrame frame) else none
  | .completeRequest requestId response =>
    if s.isIdle then some (s.completeRequest requestId response) else none
  | .beginDrain => if s.isIdle then some s.beginDrain else none
  | .close => if s.isIdle then some s.close else none
  | .tick => s.tick
  | .writeReturns result =>
    match s.writer with
    | .write offset => s.writeReturns offset result
    | _ => none
  | .ioReady =>
    match s.writer with
    | .awaiting offset => some { s with writer := .ready offset true }
    | _ => none
  | .run =>
    match s.writer with
    | .ready offset ioReady =>
      if s.finishing then none
      else if ioReady then some { s with writer := .write offset } else some s.writeShort
    | _ => none

def init (maxInflightPerConnection maxOutboundBytes : Nat) : ConnectionWriter :=
  { maxInflightPerConnection, maxOutboundBytes }

end ConnectionWriter

/-! ## The stream -/

/-- Where the writer is in the stream. -/
def WriterState.progress : WriterState → Option Progress
  | .created | .loop | .written | .asleep => some .idle
  | .write offset | .awaiting offset | .ready offset _ => some (.writing offset)
  | .ended => none

/-- The writer has taken the frames `taken` out of the queue. -/
structure Streams (s : ConnectionWriter) (taken : List Bytes) : Prop where
  queue : s.closed = false → s.accepted = taken ++ s.outbound
  dropped : s.closed = true → s.outbound = []
  ahead : taken <+: s.accepted
  sent : ∀ progress, s.writer.progress = some progress →
    Sent taken.flatten s.wire s.writeBatch progress
  wire : s.wire <+: taken.flatten
  ended : s.writer = .ended → s.closed = true
  encoded : ∀ bytes ∈ s.accepted, ∃ frame, FrameEncoder.encode frame = .ok bytes

namespace Streams

open ConnectionWriter

variable {s t : ConnectionWriter} {taken : List Bytes}

section
variable (h : Streams s taken)
include h

theorem restate (hc : t.closed = s.closed) (ho : t.outbound = s.outbound)
    (ha : t.accepted = s.accepted) (hw : t.wire = s.wire) (hb : t.writeBatch = s.writeBatch)
    (hp : t.writer.progress = s.writer.progress) (he : t.writer = .ended → t.closed = true) :
    Streams t taken where
  queue hopen := by
    rw [ha, ho]
    exact h.queue (hc ▸ hopen)
  dropped hclosed := by
    rw [ho]
    exact h.dropped (hc ▸ hclosed)
  ahead := ha ▸ h.ahead
  sent progress hprogress := by
    rw [hw, hb]
    exact h.sent progress (hp ▸ hprogress)
  wire := hw ▸ h.wire
  ended := he
  encoded := ha ▸ h.encoded

theorem close : Streams s.close taken := by
  unfold ConnectionWriter.close
  split
  · exact h
  · refine ⟨nofun, fun _ => rfl, h.ahead, fun progress hp => ?_, h.wire, fun _ => rfl, h.encoded⟩
    refine h.sent progress ?_
    rw [← hp]
    split <;> simp [*, WriterState.progress]

theorem maybeCloseAfterDrain : Streams s.maybeCloseAfterDrain taken := by
  unfold ConnectionWriter.maybeCloseAfterDrain
  split
  · exact h.close.restate rfl rfl rfl rfl rfl rfl h.close.ended
  · exact h

theorem queueEncoded (hopen : s.closed = false) {bytes : Bytes}
    (hbytes : ∃ frame, FrameEncoder.encode frame = .ok bytes) :
    Streams (s.queueEncoded bytes) taken := by
  unfold ConnectionWriter.queueEncoded
  split
  · exact h.close
  · refine ⟨fun _ => ?_, fun hclosed => absurd (hopen.symm.trans hclosed) (by simp),
      h.ahead.trans (prefix_append _ _), fun progress hp => h.sent progress ?_, h.wire,
      fun he => ?_, fun b hb => ?_⟩
    · rw [h.queue hopen, append_assoc]
    · rw [← hp]
      split
      · next hasleep => rw [hasleep]; rfl
      · rfl
    · dsimp only at he
      split at he
      · cases he
      · exact h.ended he
    · rcases mem_append.mp hb with hb | hb
      · exact h.encoded b hb
      · rw [mem_singleton.mp hb]
        exact hbytes

theorem queueFrame (frame : Frame) : Streams (s.queueFrame frame) taken := by
  unfold ConnectionWriter.queueFrame
  split
  · exact h
  · next hopen =>
    split
    · exact h.close
    · next bytes hbytes => exact h.queueEncoded (by simpa using hopen) ⟨frame, hbytes⟩

end

theorem fillBatch_spec : ∀ queue s,
    ∃ out rest bytes, queue = out ++ rest ∧ fillBatch queue s = { s with
        outbound := rest, outboundBytes := bytes, writeBatch := s.writeBatch ++ out.flatten }
  | [], s => ⟨[], [], s.outboundBytes, rfl, by simp [fillBatch]⟩
  | frame :: queue, s => by
    unfold fillBatch
    split
    · obtain ⟨out, rest, bytes, rfl, hfill⟩ := fillBatch_spec queue { s with
          outboundBytes := subSize s.outboundBytes frame.length
          writeBatch := s.writeBatch ++ frame }
      refine ⟨frame :: out, rest, bytes, rfl, ?_⟩
      rw [hfill, flatten_cons, append_assoc]
    · exact ⟨[], frame :: queue, s.outboundBytes, rfl, by simp⟩

theorem writerLoop (h : Streams s taken) (hloop : s.writer = .loop) :
    ∃ taken', Streams s.writerLoop taken' := by
  have hidle := h.sent .idle (by rw [hloop]; rfl)
  unfold ConnectionWriter.writerLoop
  split
  · next hclosed =>
    exact ⟨taken, h.queue, h.dropped, h.ahead, fun _ hp => absurd hp (by simp [WriterState.progress]),
      h.wire, fun _ => hclosed, h.encoded⟩
  · next hopen =>
    replace hopen : s.closed = false := by simpa using hopen
    split
    · exact ⟨taken, h.restate rfl rfl rfl rfl rfl (by rw [hloop]; rfl) (by simp)⟩
    · obtain ⟨out, rest, bytes, hqueue, hfill⟩ :=
        fillBatch_spec s.outbound { s with writeBatch := [] }
      have haccepted : s.accepted = (taken ++ out) ++ rest := by
        rw [h.queue hopen, hqueue, append_assoc]
      rw [hfill]
      dsimp only
      rw [nil_append]
      have hwrite := hidle.fill out.flatten
      rw [← flatten_append] at hwrite
      -- The batch of the frames `out`, and the writer before or behind its `WriteAll`.
      have hstream : ∀ {writer} {progress},
          writer.progress = some progress → Sent (taken ++ out).flatten s.wire out.flatten progress →
          Streams { s with
            outbound := rest, outboundBytes := bytes, writeBatch := out.flatten, writer := writer }
            (taken ++ out) := by
        intro writer progress hp hsent
        refine ⟨fun _ => haccepted, fun hclosed => absurd (hopen.symm.trans hclosed) (by simp),
          ⟨rest, haccepted.symm⟩, fun progress' hp' => ?_, hsent.isPrefix, fun he => ?_, h.encoded⟩
        · cases hp.symm.trans hp'
          exact hsent
        · rw [show writer = .ended from he] at hp
          exact absurd hp (by simp [WriterState.progress])
      split
      · next hempty => exact ⟨taken ++ out, hstream rfl (hwrite.finish (by simp [hempty]))⟩
      · exact ⟨taken ++ out, hstream rfl hwrite⟩

theorem writeShort (h : Streams s taken) : Streams s.writeShort taken := by
  have hfailed : Streams { s with writeFailed := true } taken :=
    h.restate rfl rfl rfl rfl rfl rfl h.ended
  have hclose := hfailed.close
  have hclosed : ({ s with writeFailed := true } : ConnectionWriter).close.closed = true := by
    unfold ConnectionWriter.close
    split
    · next hc => exact hc
    · rfl
  exact { hclose with
    queue := fun hopen => absurd (hclosed.symm.trans hopen) (by simp)
    sent := fun _ hp => absurd hp (by simp [WriterState.progress, ConnectionWriter.writeShort])
    ended := fun _ => hclosed }

theorem writeReturns (h : Streams s taken) {offset : Nat} (hwriter : s.writer = .write offset)
    {result : WriteResult} (ht : s.writeReturns offset result = some t) : Streams t taken := by
  have hsent := h.sent (.writing offset) (by rw [hwriter]; rfl)
  unfold ConnectionWriter.writeReturns at ht
  split at ht
  · next n =>
    split at ht
    · cases ht
    · have hmore := hsent.advance n
      have hstream : ∀ {writer} {progress},
          writer.progress = some progress →
          Sent taken.flatten (s.wire ++ (s.writeBatch.drop offset).take n) s.writeBatch progress →
          Streams { s with
            wire := s.wire ++ (s.writeBatch.drop offset).take n, writer := writer } taken := by
        intro writer progress hp hsent'
        refine { h with sent := fun progress' hp' => ?_, wire := hsent'.isPrefix, ended := fun he => ?_ }
        · cases hp.symm.trans hp'
          exact hsent'
        · rw [show writer = .ended from he] at hp
          exact absurd hp (by simp [WriterState.progress])
      dsimp only at ht
      split at ht <;> cases ht
      · exact hstream rfl hmore
      · next hge => exact hstream rfl (hmore.finish (Nat.not_lt.mp hge))
  · cases ht
    exact h.writeShort
  · cases ht
    exact h.writeShort
  · cases ht
    exact h.restate rfl rfl rfl rfl rfl (by rw [hwriter]; rfl) (by simp)
  · cases ht
    exact h

theorem step {l : WriterLabel} (h : Streams s taken) (ht : s.step l = some t) :
    ∃ taken', Streams t taken' := by
  unfold ConnectionWriter.step at ht
  cases l with
  | start =>
    dsimp only at ht
    split at ht
    · next hw =>
      cases ht
      exact ⟨taken, h.restate rfl rfl rfl rfl rfl (by rw [hw.2]; rfl) (by simp)⟩
    · cases ht
  | addRequest requestId =>
    dsimp only at ht
    split at ht
    · cases ht
      unfold ConnectionWriter.addRequest
      split
      · exact ⟨taken, h⟩
      · exact ⟨taken, h.restate rfl rfl rfl rfl rfl rfl h.ended⟩
    · cases ht
  | queueFrame frame =>
    dsimp only at ht
    split at ht
    · cases ht
      exact ⟨taken, h.queueFrame frame⟩
    · cases ht
  | completeRequest requestId response =>
    dsimp only at ht
    split at ht
    · cases ht
      have herased : Streams { s with requests := s.requests.filter (· != requestId) } taken :=
        h.restate rfl rfl rfl rfl rfl rfl h.ended
      have hqueued := herased.queueFrame response
      exact ⟨taken, hqueued.restate rfl rfl rfl rfl rfl rfl hqueued.ended⟩
    · cases ht
  | beginDrain =>
    dsimp only at ht
    split at ht
    · cases ht
      have hdraining : Streams { s with draining := true } taken :=
        h.restate rfl rfl rfl rfl rfl rfl h.ended
      exact ⟨taken, hdraining.maybeCloseAfterDrain⟩
    · cases ht
  | close =>
    dsimp only at ht
    split at ht
    · cases ht
      exact ⟨taken, h.close⟩
    · cases ht
  | tick =>
    dsimp only [ConnectionWriter.tick] at ht
    split at ht
    · next hw =>
      cases ht
      exact h.writerLoop hw
    · next hw =>
      cases ht
      have hdrained := h.maybeCloseAfterDrain
      have hwritten : s.maybeCloseAfterDrain.writer = .written := by
        unfold ConnectionWriter.maybeCloseAfterDrain ConnectionWriter.close
        split
        · split <;> simp [hw]
        · exact hw
      exact ⟨taken, hdrained.restate rfl rfl rfl rfl rfl (by rw [hwritten]; rfl) (by simp)⟩
    · cases ht
    · split at ht
      · cases ht
        have hfinished : Streams { s with finishing := false } taken :=
          h.restate rfl rfl rfl rfl rfl rfl h.ended
        exact ⟨taken, hfinished.maybeCloseAfterDrain⟩
      · cases ht
  | writeReturns result =>
    dsimp only at ht
    split at ht
    · next offset hw => exact ⟨taken, h.writeReturns hw ht⟩
    · cases ht
  | ioReady =>
    dsimp only at ht
    split at ht
    · next offset hw =>
      cases ht
      exact ⟨taken, h.restate rfl rfl rfl rfl rfl (by rw [hw]; rfl) (by simp)⟩
    · cases ht
  | run =>
    dsimp only at ht
    split at ht
    · next offset ioReady hw =>
      split at ht
      · cases ht
      · split at ht <;> cases ht
        · exact ⟨taken, h.restate rfl rfl rfl rfl rfl (by rw [hw]; rfl) (by simp)⟩
        · exact ⟨taken, h.writeShort⟩
    · cases ht

theorem of_reaches {ok : ConnectionWriter → WriterLabel → Prop} {maxInflight maxOutbound : Nat}
    (h : Reaches ConnectionWriter.step ok (init maxInflight maxOutbound) s) :
    ∃ taken, Streams s taken := by
  refine h.invariant (p := fun s => ∃ taken, Streams s taken) ⟨[], ?_⟩ fun _ _ _ hi _ ht => ?_
  · exact ⟨fun _ => rfl, fun _ => rfl, prefix_rfl, fun _ hp => some.inj hp ▸ rfl,
      prefix_rfl, fun he => absurd he (by simp [init]), by simp [init]⟩
  · obtain ⟨taken, hi⟩ := hi
    exact hi.step ht

/-- Where nothing is queued and the writer is not inside `WriteAll`, all bytes are through. -/
theorem all_sent (h : Streams s taken) (hopen : s.closed = false) (hempty : s.outbound = [])
    (hidle : s.writer.progress = some .idle) : s.wire = s.accepted.flatten := by
  have hwire : s.wire = taken.flatten := h.sent .idle hidle
  rw [hwire, h.queue hopen, hempty, append_nil]

end Streams

/-! ## Draining -/

namespace ConnectionWriter

/-- Neither `BeginDrain` nor the end of `CompleteRequest` finds the writer suspended inside
    `WriteAll`. -/
def Settled (s : ConnectionWriter) : WriterLabel → Prop
  | .beginDrain => s.writer.isWriting = false
  | .tick => s.finishing = true → s.writer.isWriting = false
  | _ => True

instance (s : ConnectionWriter) : ∀ l, Decidable (s.Settled l)
  | .beginDrain => inferInstanceAs (Decidable (_ = _))
  | .tick => inferInstanceAs (Decidable (_ → _))
  | .start | .addRequest _ | .queueFrame _ | .completeRequest .. | .close | .writeReturns _
  | .ioReady | .run => inferInstanceAs (Decidable True)

end ConnectionWriter

open ConnectionWriter

variable {s t : ConnectionWriter} {l : WriterLabel}

theorem close_drained (s : ConnectionWriter) : s.close.drained = s.drained := by
  unfold close
  split <;> rfl

theorem drains_of_drained (hbefore : s.drained = false)
    (hafter : s.maybeCloseAfterDrain.drained = true) : s.drains = true := by
  unfold maybeCloseAfterDrain at hafter
  split at hafter
  · next hd => exact hd
  · cases hbefore.symm.trans hafter

theorem queueFrame_drained (s : ConnectionWriter) (frame : Frame) :
    (s.queueFrame frame).drained = s.drained := by
  unfold queueFrame
  split
  · rfl
  · split
    · exact close_drained s
    · unfold queueEncoded
      split
      · exact close_drained s
      · rfl

/-- Who closes a connection by `MaybeCloseAfterDrain`: `BeginDrain`, the writer behind a batch, or
    the end of `CompleteRequest`. -/
theorem drained_by (ht : s.step l = some t) (hbefore : s.drained = false)
    (hafter : t.drained = true) :
    s.outbound = [] ∧ s.closed = false ∧
      ((l = .beginDrain ∧ s.writer.isRunning = false) ∨ (l = .tick ∧ s.writer = .written) ∨
        (l = .tick ∧ s.finishing = true ∧ s.writer.isRunning = false)) := by
  have hdrains : ∀ {u : ConnectionWriter}, u.outbound = s.outbound → u.closed = s.closed →
      u.drains = true → s.outbound = [] ∧ s.closed = false := by
    intro u ho hc hd
    rw [drains, ho, hc] at hd
    simpa using (by simpa [and_assoc] using hd : _ ∧ _ ∧ s.outbound = [] ∧ s.closed = false).2.2
  have hsame : t.drained = s.drained → False := fun heq => by
    rw [heq, hbefore] at hafter
    cases hafter
  unfold step at ht
  cases l with
  | start | ioReady =>
    dsimp only at ht
    split at ht
    · cases ht
      exact (hsame rfl).elim
    · cases ht
  | addRequest requestId =>
    dsimp only at ht
    split at ht
    · cases ht
      refine (hsame ?_).elim
      unfold addRequest
      split <;> rfl
    · cases ht
  | queueFrame frame =>
    dsimp only at ht
    split at ht
    · cases ht
      exact (hsame (queueFrame_drained s frame)).elim
    · cases ht
  | completeRequest requestId response =>
    dsimp only at ht
    split at ht
    · cases ht
      exact (hsame (queueFrame_drained _ response)).elim
    · cases ht
  | beginDrain =>
    dsimp only at ht
    split at ht
    · next hidle =>
      cases ht
      have hd := drains_of_drained (s := { s with draining := true }) hbefore hafter
      obtain ⟨ho, hc⟩ := hdrains (u := { s with draining := true }) rfl rfl hd
      rw [isIdle, Bool.and_eq_true, Bool.not_eq_true'] at hidle
      exact ⟨ho, hc, .inl ⟨rfl, hidle.1⟩⟩
    · cases ht
  | close =>
    dsimp only at ht
    split at ht
    · cases ht
      exact (hsame (close_drained s)).elim
    · cases ht
  | tick =>
    dsimp only [tick] at ht
    split at ht
    · cases ht
      refine (hsame ?_).elim
      unfold writerLoop
      split
      · rfl
      · split
        · rfl
        · obtain ⟨out, rest, bytes, -, hfill⟩ :=
            Streams.fillBatch_spec s.outbound { s with writeBatch := [] }
          rw [hfill]
          dsimp only
          split <;> rfl
    · next hw =>
      cases ht
      obtain ⟨ho, hc⟩ := hdrains rfl rfl (drains_of_drained hbefore hafter)
      exact ⟨ho, hc, .inr (.inl ⟨rfl, hw⟩)⟩
    · cases ht
    · split at ht
      · next hl hw hwr hf =>
        cases ht
        have hd := drains_of_drained (s := { s with finishing := false }) hbefore hafter
        obtain ⟨ho, hc⟩ := hdrains (u := { s with finishing := false }) rfl rfl hd
        unfold WriterState.isRunning
        split <;> simp_all
      · cases ht
  | writeReturns result =>
    dsimp only at ht
    split at ht
    · unfold writeReturns at ht
      split at ht
      · split at ht
        · cases ht
        · dsimp only at ht
          split at ht <;> obtain rfl := some.inj ht <;> exact (hsame rfl).elim
      · cases ht
        exact (hsame (close_drained _)).elim
      · cases ht
        exact (hsame (close_drained _)).elim
      · cases ht
        exact (hsame rfl).elim
      · cases ht
        exact (hsame rfl).elim
    · cases ht
  | run =>
    dsimp only at ht
    split at ht
    · split at ht
      · cases ht
      · split at ht <;> cases ht
        · exact (hsame rfl).elim
        · exact (hsame (close_drained _)).elim
    · cases ht

/-- **A drained connection has sent everything**, in the runs that are `Settled`: when
    `MaybeCloseAfterDrain` closes it, every byte of every frame that was accepted on it has been
    accepted by a write. -/
theorem drain_drops_nothing {maxInflight maxOutbound : Nat}
    (h : Reaches step Settled (init maxInflight maxOutbound) s) (hok : s.Settled l)
    (ht : s.step l = some t) (hbefore : s.drained = false) (hafter : t.drained = true) :
    s.wire = s.accepted.flatten := by
  obtain ⟨taken, hs⟩ := Streams.of_reaches h
  obtain ⟨hempty, hopen, hwho⟩ := drained_by ht hbefore hafter
  refine hs.all_sent hopen hempty ?_
  have hended : s.writer ≠ .ended := fun he => by cases hopen.symm.trans (hs.ended he)
  have hidle : s.writer.isRunning = false → s.writer.isWriting = false →
      s.writer.progress = some .idle := by
    intro hrun hwrite
    cases hw : s.writer with
    | created | asleep => rfl
    | loop | written | write _ => simp [hw, WriterState.isRunning] at hrun
    | awaiting _ | ready _ _ => simp [hw, WriterState.isWriting] at hwrite
    | ended => exact absurd hw hended
  rcases hwho with ⟨rfl, hrun⟩ | ⟨-, hw⟩ | ⟨rfl, hf, hrun⟩
  · exact hidle hrun hok
  · rw [hw]
    rfl
  · exact hidle hrun (hok hf)

/-- One request is answered, its response goes out in two pieces, and then the server drains. -/
theorem drain_drops_nothing_one_response :
    ∃ s t, Reaches step Settled (init 1 1000) s ∧ s.step .beginDrain = some t ∧
      s.Settled .beginDrain ∧ s.drained = false ∧ t.drained = true ∧ s.wire.length = 32 ∧
      s.wire = s.accepted.flatten := by
  obtain ⟨s, hreach, hsettled, hbefore, hlen, t, ht, hafter⟩ : ∃ s,
      Reaches step Settled (init 1 1000) s ∧ s.Settled .beginDrain ∧ s.drained = false ∧
      s.wire.length = 32 ∧ ∃ t ∈ s.step .beginDrain, t.drained = true :=
    exists_reaches_of_exec [.start, .tick, .addRequest 7,
      .completeRequest 7 ⟨{ messageType := .response, requestId := 7 }, [], []⟩, .tick,
      .writeReturns (.accepted 10), .writeReturns .interrupted, .writeReturns (.accepted 22), .tick,
      .tick, .tick] (by decide +kernel) fun _ _ hs => hs
  exact ⟨s, t, hreach, ht, hsettled, hbefore, hafter, hlen,
    drain_drops_nothing hreach hsettled ht hbefore hafter⟩

/-- The response has gone out in part and the writer waits for the socket. `BeginDrain` finds no
    request and no queued frame, and closes the connection. -/
theorem drain_drops_batch :
    ∃ s t, Reachable step (init 1 1000) s ∧ s.step .beginDrain = some t ∧ s.drained = false ∧
      t.drained = true ∧ s.writeFailed = false ∧ s.wire ≠ s.accepted.flatten := by
  obtain ⟨s, hreach, t, ht, hends⟩ : ∃ s, Reachable step (init 1 1000) s ∧ ∃ t ∈ s.step .beginDrain,
      s.drained = false ∧ t.drained = true ∧ s.writeFailed = false ∧ s.wire ≠ s.accepted.flatten :=
    exists_reaches_of_exec [.start, .tick, .addRequest 7,
      .completeRequest 7 ⟨{ messageType := .response, requestId := 7 }, [], []⟩, .tick,
      .writeReturns (.accepted 10), .writeReturns .wouldBlock, .tick] (by decide +kernel)
      fun _ _ hs => hs
  exact ⟨s, t, hreach, ht, hends⟩

end CoroRpc.Server
