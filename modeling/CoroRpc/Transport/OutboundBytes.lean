import CoroRpc.Client.Connection
import CoroRpc.Lib.ByteAccount
import CoroRpc.Lib.Run
import CoroRpc.Server.Writer

/-!
# The bytes that wait in an outbound queue

Both ends of a connection count the bytes in their outbound queue and refuse a frame that would
take the count above a limit. The count is a `std::size_t` that is added to and subtracted from
apart from the queue: where a frame is posted, where the writer takes frames for a batch, and where
the connection closes or fails. It is nevertheless the sum of the sizes at every moment, so no
subtraction wraps and the test, which subtracts from the limit, is exact.

On the client most code leaves queue and count alone or empties both (`Settles`); what is left is
`enqueue` and the loop of the writer.
-/

namespace CoroRpc.Transport

open Lib Protocol

/-- The admission test of both ends. Its subtraction does not wrap, as it is made only where `n` is
    within the limit. -/
theorem refuses_iff {limit bytes n : Nat} :
    (n > limit ∨ bytes > subSize limit n) ↔ limit < bytes + n := by
  rcases Nat.lt_or_ge limit n with hlarge | hsmall
  · exact ⟨fun _ => by omega, fun _ => .inl hlarge⟩
  · rw [subSize_eq hsmall]
    omega

end Transport

namespace Client

open Lib Protocol CoroRpc.Runtime

namespace MultiplexedConnection

variable {limits : ConnectionLimits} {s t : MultiplexedConnection}

/-! ## The client -/

/-- The limits are these, and the count is right. -/
structure Accounted (limits : ConnectionLimits) (s : MultiplexedConnection) : Prop where
  sameLimits : s.limits = limits
  bytes : ByteAccount limits.maxOutboundBytes (s.outbound.map (·.bytes.length)) s.outboundBytes

/-- What the count is about. -/
def account (s : MultiplexedConnection) : ConnectionLimits × List OutboundFrame × Nat :=
  (s.limits, s.outbound, s.outboundBytes)

/-- Queue and count are left alone, or both are emptied. -/
def Settles (s t : MultiplexedConnection) : Prop :=
  t.account = s.account ∨ t.account = (s.limits, [], 0)

theorem Accounted.of_account (h : s.Accounted limits) (ht : t.account = s.account) :
    t.Accounted limits := by
  obtain ⟨hlimits, hqueue⟩ := Prod.mk.inj ht
  obtain ⟨houtbound, hbytes⟩ := Prod.mk.inj hqueue
  refine ⟨hlimits.trans h.sameLimits, ?_⟩
  rw [houtbound, hbytes]
  exact h.bytes

/-- Code that leaves queue and count alone, or empties both, keeps the count right. -/
theorem Accounted.settles (h : s.Accounted limits) (ht : s.Settles t) : t.Accounted limits := by
  rcases ht with ht | ht
  · exact h.of_account ht
  · obtain ⟨hlimits, hqueue⟩ := Prod.mk.inj ht
    obtain ⟨houtbound, hbytes⟩ := Prod.mk.inj hqueue
    refine ⟨hlimits.trans h.sameLimits, ?_⟩
    rw [houtbound, hbytes]
    exact .empty _

theorem Settles.of_eq (h : t.account = s.account) : s.Settles t := .inl h

theorem Settles.trans {u : MultiplexedConnection} (h : s.Settles t) (h' : t.Settles u) :
    s.Settles u := by
  rcases h' with h' | h'
  · exact h.imp h'.trans h'.trans
  · have hlimits : t.limits = s.limits := by
      rcases h with h | h
      · exact (Prod.mk.inj h).1
      · exact (Prod.mk.inj h).1
    exact .inr (by rw [h', hlimits])

section
variable {code rest : List Op} {c : Nat}

@[simp] theorem account_goOn : (s.goOn code).account = s.account := by
  unfold goOn
  split <;> rfl

@[simp] theorem account_leave {state : CoroutineState} :
    (s.leave state code).account = s.account := by
  unfold leave
  split <;> rfl

@[simp] theorem account_throw : s.throw.account = s.account := by
  unfold throw
  split
  · split
    · split
      · exact account_leave
      · exact account_goOn
    · rfl
  · rfl

@[simp] theorem account_resume : (s.resume c).account = s.account := by
  unfold resume
  split
  · exact account_throw
  · split <;> first | rfl | exact account_throw

@[simp] theorem account_wakeWriter : s.wakeWriter.account = s.account := by
  unfold wakeWriter
  split
  · split
    · split
      · exact account_resume
      · rfl
    · rfl
  · rfl

variable {status : CallStatus}

@[simp] theorem account_endReader : s.endReader.account = s.account := account_leave

@[simp] theorem account_endWriter : s.endWriter.account = s.account := account_leave

/-- `Close` and `FailConnection` drop what is queued and set the count to zero. -/
theorem account_disconnect : s.disconnect.account = (s.limits, [], 0) := by
  unfold disconnect closeSocket
  split <;> rfl

theorem account_endCompleteAll {inClose : Bool} {entry : List Nat} :
    (s.endCompleteAll inClose entry rest).account = s.account := by
  unfold endCompleteAll
  rw [account_wakeWriter, account_goOn]
  split <;> rfl

variable {order : List UInt64}

theorem account_completeAllPending {inClose : Bool} {entry : List Nat} :
    (s.completeAllPending order status inClose entry rest).account = s.account := by
  unfold completeAllPending
  split
  · exact account_endCompleteAll
  · exact account_goOn

theorem settles_close : s.Settles (s.close order rest) := by
  unfold close
  split
  · exact .of_eq account_goOn
  · exact .inr (account_completeAllPending.trans account_disconnect)

theorem settles_failConnection : s.Settles (s.failConnection status order rest) := by
  unfold failConnection
  split
  · exact .of_eq account_goOn
  · refine .inr (account_completeAllPending.trans ?_)
    exact account_disconnect

theorem settles_maybeFinishDrain : s.Settles (s.maybeFinishDrain rest) := by
  unfold maybeFinishDrain
  split
  · exact settles_close
  · exact .of_eq account_goOn

/-- Completing the last call of a connection that drains closes it. -/
theorem settles_completePending {p : PendingCall} {response : Option Frame} :
    s.Settles (s.completePending p status response rest) := by
  unfold completePending
  split
  · exact .of_eq account_goOn
  · have hcomplete : s.Settles (s.complete p status response) := .of_eq rfl
    exact hcomplete.trans settles_maybeFinishDrain

/-- A frame that arrives posts nothing. -/
theorem settles_decodeNext : s.Settles (s.decodeNext rest) := by
  unfold decodeNext
  split
  · exact .of_eq account_goOn
  · dsimp only
    split
    · exact .of_eq account_goOn
    · split
      · rename_i d _ _ _ _ _ _
        have hdecoded : s.Settles { s with decoder := d } := .of_eq rfl
        exact hdecoded.trans settles_completePending
      · exact .of_eq account_goOn
  · exact .of_eq account_goOn

theorem settles_readReturns {offset : Nat} {result : ReadResult}
    (h : s.readReturns offset rest result = some t) : s.Settles t := by
  cases result with
  | data bytes =>
    simp only [readReturns] at h
    split at h
    · cases h
    · split at h <;> cases h <;> exact .of_eq account_goOn
  | eof | error => cases h; exact .of_eq account_goOn
  | wouldBlock => cases h; exact .of_eq account_leave
  | interrupted => cases h; exact .of_eq rfl

/-- `::write` works on the batch, which has left the queue before. -/
theorem settles_writeReturns {offset : Nat} {result : WriteResult}
    (h : s.writeReturns offset rest result = some t) : s.Settles t := by
  cases result with
  | accepted n =>
    simp only [writeReturns] at h
    split at h
    · cases h
    · split at h
      · cases h
        exact .of_eq account_goOn
      · cases h
        have hwritten : s.Settles { s with
            wire := s.wire ++ (s.writeBatch.drop offset).take n } := .of_eq rfl
        exact hwritten.trans settles_maybeFinishDrain
  | zero | error => cases h; exact .of_eq account_goOn
  | wouldBlock => cases h; exact .of_eq account_leave
  | interrupted => cases h; exact .of_eq rfl

end

/-! ### Posting and taking -/

/-- The test is exact: a frame is refused if and only if it would take the queue above the limit. -/
theorem Accounted.overloaded_iff (h : s.Accounted limits) (n : Nat) : s.overloaded n = true ↔
      limits.maxOutboundBytes < (s.outbound.map (·.bytes.length)).sum + n := by
  rw [← h.bytes.sum, ← Transport.refuses_iff, ← h.sameLimits]
  simp only [overloaded, Bool.or_eq_true, decide_eq_true_eq]

/-- By induction on the queue: the size of each frame that is taken is part of the count. -/
theorem accounted_fillBatch :
    ∀ queue s, s.limits = limits →
      ByteAccount limits.maxOutboundBytes (queue.map (·.bytes.length)) s.outboundBytes →
      (fillBatch queue s).Accounted limits := by
  intro queue
  induction queue with
  | nil =>
    intro s hlimits h
    exact ⟨hlimits, h⟩
  | cons frame queue ih =>
    intro s hlimits h
    -- the frame leaves the queue, whether it goes into the batch or not
    have hpop : ByteAccount limits.maxOutboundBytes (queue.map (·.bytes.length))
        (subSize s.outboundBytes frame.bytes.length) := by
      rw [subSize_eq h.le_of_front]
      exact h.pop
    unfold fillBatch
    split
    · dsimp only
      split
      · exact ih _ hlimits hpop
      · split
        · exact ih _ hlimits hpop
        · split
          · exact ih _ hlimits hpop
          · exact ih _ hlimits hpop
    · exact ⟨hlimits, h⟩

theorem Accounted.writerLoop {rest : List Op} (h : s.Accounted limits) :
    (s.writerLoop rest).Accounted limits := by
  unfold MultiplexedConnection.writerLoop
  split
  · split
    · exact h.of_account account_leave
    · have hfilled :=
        accounted_fillBatch s.outbound { s with writeBatch := [] } h.sameLimits h.bytes
      dsimp only
      split
      · exact hfilled.of_account account_goOn
      · exact hfilled.of_account account_goOn
  · exact h.of_account account_endWriter

section
variable (hlimit : limits.maxOutboundBytes < 2 ^ 64) {rest : List Op} {c : Nat}

include hlimit in
/-- The new count is within the limit, so the addition does not wrap. -/
theorem Accounted.enqueue (h : s.Accounted limits) {frame : OutboundFrame}
    (hroom : s.overloaded frame.bytes.length = false) : (s.enqueue frame).Accounted limits := by
  have hfits : s.outboundBytes + frame.bytes.length ≤ limits.maxOutboundBytes := by
    rw [h.bytes.sum, ← Nat.not_lt, ← h.overloaded_iff, hroom]
    exact Bool.false_ne_true
  have hpush := h.bytes.push hfits
  refine ⟨h.sameLimits, ?_⟩
  unfold MultiplexedConnection.enqueue
  dsimp only
  rw [List.map_append, addSize_eq (by omega)]
  exact hpush

include hlimit in
theorem Accounted.queueCancel (h : s.Accounted limits) {id : UInt64} :
    (s.queueCancel id rest).Accounted limits := by
  unfold MultiplexedConnection.queueCancel
  split
  · exact h.of_account account_goOn
  split
  · exact h.of_account account_goOn
  split
  · exact h.of_account account_goOn
  · rename_i encoded _ hroom
    have hposted : (s.enqueue ⟨id, encoded, true⟩).Accounted limits :=
      h.enqueue hlimit (Bool.eq_false_iff.mpr hroom)
    exact hposted.of_account (account_wakeWriter.trans account_goOn)

include hlimit in
theorem Accounted.callEncoded (h : s.Accounted limits) {id : UInt64} {encoded : Bytes}
    {timeoutMs : Nat} : (s.callEncoded c id encoded timeoutMs).Accounted limits := by
  unfold MultiplexedConnection.callEncoded
  split
  · exact h.of_account rfl
  split
  · exact h.of_account rfl
  · rename_i hroom
    have hposted : (s.enqueue ⟨id, encoded, false⟩).Accounted limits :=
      h.enqueue hlimit (Bool.eq_false_iff.mpr hroom)
    refine hposted.of_account ?_
    dsimp only
    rw [account_wakeWriter, account_goOn]
    rfl

include hlimit in
theorem Accounted.call (h : s.Accounted limits) {request : Frame} {timeoutMs : Nat} :
    (s.call c request timeoutMs).Accounted limits := by
  unfold MultiplexedConnection.call
  split
  · exact h.of_account rfl
  split
  · exact h.of_account rfl
  split
  · exact h.of_account rfl
  split
  · exact h.of_account rfl
  -- whether the id is taken or given, the account is the same
  split
  rename_i s₁ id hid
  have haccount : s₁.account = s.account := by
    split at hid <;> cases hid <;> rfl
  have hnumbered := h.of_account haccount
  split
  · exact hnumbered.of_account rfl
  · exact hnumbered.callEncoded hlimit

include hlimit in
theorem Accounted.callMetadata (h : s.Accounted limits) {metadata : RequestMetadata} {body : Bytes}
    {timeoutMs : Nat} : (s.callMetadata c metadata body timeoutMs).Accounted limits := by
  unfold MultiplexedConnection.callMetadata
  split
  · exact h.of_account rfl
  split
  · exact h.of_account rfl
  split
  · exact h.of_account rfl
  dsimp only
  split
  · exact h.of_account rfl
  · have htaken : s.takeRequestId.1.Accounted limits := h.of_account rfl
    exact htaken.callEncoded hlimit

include hlimit in
/-- A call whose time is over posts a CANCEL, if there is room for it. -/
theorem Accounted.callResumed (h : s.Accounted limits) {id : UInt64} :
    (s.callResumed id rest).Accounted limits := by
  unfold MultiplexedConnection.callResumed
  split
  · exact h.of_account account_goOn
  · rename_i p _
    split
    · exact h.of_account account_goOn
    · have htimedOut : (s.complete p .timeout p.response).Accounted limits := h.of_account rfl
      dsimp only
      split
      · exact htimedOut.queueCancel hlimit
      · exact htimedOut.settles settles_maybeFinishDrain

/-! ### Steps -/

include hlimit in
/-- The writer's loop and a call that resumes post or take; all other continuations settle. -/
theorem Accounted.opStep {x : Coroutine} {op : Op} {l : Label} (h : s.Accounted limits)
    (hstep : s.opStep x rest op l = some t) :
    t.Accounted limits := by
  cases opStep_cases hstep with
  | readerLoop =>
    refine h.of_account ?_
    unfold MultiplexedConnection.readerLoop
    split
    · split <;> exact account_goOn
    · exact account_endReader
  | read offset result hs => exact h.settles (settles_readReturns hs)
  | readAwaited offset | readerCheck | writeAwaited offset =>
    split <;> exact h.of_account account_goOn
  | decodeNext =>
    exact h.settles settles_decodeNext
  | readerEnd =>
    exact h.of_account account_endReader
  | writerLoop =>
    exact h.writerLoop
  | write offset result hs => exact h.settles (settles_writeReturns hs)
  | writerEnd =>
    exact h.of_account account_endWriter
  | failConnection => exact h.settles settles_failConnection
  | completedAll status inClose entry =>
    exact h.of_account account_endCompleteAll
  | completeAll id ids status inClose entry =>
    split
    · exact h.settles settles_completePending
    · exact h.of_account account_goOn
  | resume c =>
    exact h.of_account (account_resume.trans account_goOn)
  | returned entry =>
    exact h.of_account account_goOn
  | maybeFinishDrain =>
    exact h.settles settles_maybeFinishDrain
  | yieldCall timed id =>
    exact h.of_account account_leave
  | callResumed id =>
    exact h.callResumed hlimit
  | callEnd id =>
    unfold MultiplexedConnection.callEnd
    split <;> exact h.of_account account_goOn
  | startReader | startWriter =>
    split
    · exact h.of_account (account_resume.trans account_goOn)
    · exact h.of_account account_throw

include hlimit in
theorem Accounted.userStep {l : Label} (h : s.Accounted limits) (hs : s.userStep c l = some t) :
    t.Accounted limits := by
  cases l with
  | create | spawn => cases hs; exact h.of_account rfl
  | attach =>
    cases hs
    unfold MultiplexedConnection.attach
    split
    · exact h
    · exact h.of_account account_goOn
  | call request timeoutMs => cases hs; exact h.call hlimit
  | callMetadata metadata body timeoutMs => cases hs; exact h.callMetadata hlimit
  | beginDrain =>
    cases hs
    unfold MultiplexedConnection.beginDrain
    split
    · exact h
    · exact h.of_account (account_wakeWriter.trans account_goOn)
  | close order =>
    simp only [MultiplexedConnection.userStep] at hs
    split at hs <;> cases hs
    exact h.settles settles_close
  | suspend waiting | finish =>
    simp only [MultiplexedConnection.userStep] at hs
    split at hs <;> cases hs
    exact h.of_account account_leave
  | resumeUser d =>
    simp only [MultiplexedConnection.userStep] at hs
    split at hs
    · split at hs <;> cases hs
      exact h.of_account account_resume
    · cases hs
  | wake d =>
    simp only [MultiplexedConnection.userStep] at hs
    split at hs
    · split at hs <;> cases hs
      exact h.of_account rfl
    · cases hs
  | run | timer | ioReady | tick | failOrder | readReturns | writeReturns => cases hs

theorem Accounted.rootStep {l : Label} (h : s.Accounted limits) (hs : s.rootStep l = some t) :
    t.Accounted limits := by
  obtain ⟨d, y, -, ⟨-, rfl⟩ | ⟨f, -, rfl, -⟩⟩ := rootStep_cases hs <;> exact h.of_account rfl

include hlimit in
theorem Accounted.step {l : Label} (h : s.Accounted limits) (hs : s.step l = some t) :
    t.Accounted limits := by
  obtain ⟨c, below, x, -, -, ⟨op, rest, -, hs⟩ | ⟨-, hs | ⟨-, hs⟩⟩⟩ := step_cases hs
  · exact h.opStep hlimit hs
  · exact h.userStep hlimit hs
  · exact h.rootStep hs

end

/-- The count of a client connection is right in every state of every run. -/
theorem accounted_of_reachable (hlimit : limits.maxOutboundBytes < 2 ^ 64)
    (h : Reachable step (init limits) s) : s.Accounted limits :=
  h.invariant (p := Accounted limits) ⟨rfl, .empty _⟩ fun _ _ _ hs _ hstep => hs.step hlimit hstep

end MultiplexedConnection

end Client

namespace Server

open Lib Protocol CoroRpc.Runtime

namespace ConnectionWriter

variable {maxOutbound : Nat} {s t : ConnectionWriter}

/-! ## The server -/

/-- The limit is this, and the count is right. -/
structure Accounted (maxOutbound : Nat) (s : ConnectionWriter) : Prop where
  sameLimit : s.maxOutboundBytes = maxOutbound
  bytes : ByteAccount maxOutbound (s.outbound.map List.length) s.outboundBytes

section
variable (h : s.Accounted maxOutbound)
include h

theorem Accounted.close : s.close.Accounted maxOutbound := by
  unfold ConnectionWriter.close
  split
  · exact h
  · exact ⟨h.sameLimit, .empty _⟩

theorem Accounted.maybeCloseAfterDrain :
    s.maybeCloseAfterDrain.Accounted maxOutbound := by
  unfold ConnectionWriter.maybeCloseAfterDrain
  split
  · exact ⟨h.close.sameLimit, h.close.bytes⟩
  · exact h

theorem Accounted.writeShort :
    s.writeShort.Accounted maxOutbound := by
  have hfailed : Accounted maxOutbound { s with writeFailed := true } := ⟨h.sameLimit, h.bytes⟩
  exact ⟨hfailed.close.sameLimit, hfailed.close.bytes⟩

theorem Accounted.refuses_iff (n : Nat) :
    (n > s.maxOutboundBytes ∨ s.outboundBytes > subSize s.maxOutboundBytes n) ↔
      maxOutbound < (s.outbound.map List.length).sum + n := by
  rw [h.sameLimit, Transport.refuses_iff, h.bytes.sum]

end

/-- As on the client, with encoded frames in the queue. -/
theorem accounted_fillBatch :
    ∀ queue s, s.maxOutboundBytes = maxOutbound →
      ByteAccount maxOutbound (queue.map List.length) s.outboundBytes →
      (fillBatch queue s).Accounted maxOutbound := by
  intro queue
  induction queue with
  | nil =>
    intro s hlimit h
    exact ⟨hlimit, h⟩
  | cons bytes queue ih =>
    intro s hlimit h
    have hpop : ByteAccount maxOutbound (queue.map List.length)
        (subSize s.outboundBytes bytes.length) := by
      rw [subSize_eq h.le_of_front]
      exact h.pop
    unfold fillBatch
    split
    · exact ih _ hlimit hpop
    · exact ⟨hlimit, h⟩

theorem Accounted.writerLoop (h : s.Accounted maxOutbound) :
    s.writerLoop.Accounted maxOutbound := by
  unfold ConnectionWriter.writerLoop
  split
  · exact ⟨h.sameLimit, h.bytes⟩
  split
  · exact ⟨h.sameLimit, h.bytes⟩
  · have hfilled := accounted_fillBatch s.outbound { s with writeBatch := [] } h.sameLimit h.bytes
    dsimp only
    split
    · exact ⟨hfilled.sameLimit, hfilled.bytes⟩
    · exact ⟨hfilled.sameLimit, hfilled.bytes⟩

theorem Accounted.writeReturns {offset : Nat} {result : WriteResult} (h : s.Accounted maxOutbound)
    (hs : s.writeReturns offset result = some t) : t.Accounted maxOutbound := by
  cases result with
  | accepted n =>
    simp only [ConnectionWriter.writeReturns] at hs
    split at hs
    · cases hs
    · split at hs <;> cases hs <;> exact ⟨h.sameLimit, h.bytes⟩
  | zero | error => cases hs; exact h.writeShort
  | wouldBlock => cases hs; exact ⟨h.sameLimit, h.bytes⟩
  | interrupted => cases hs; exact h

theorem Accounted.tick (h : s.Accounted maxOutbound) (hs : s.tick = some t) :
    t.Accounted maxOutbound := by
  unfold ConnectionWriter.tick at hs
  split at hs
  · cases hs
    exact h.writerLoop
  · cases hs
    exact ⟨h.maybeCloseAfterDrain.sameLimit, h.maybeCloseAfterDrain.bytes⟩
  · cases hs
  · split at hs
    · cases hs
      have hdone : Accounted maxOutbound { s with finishing := false } := ⟨h.sameLimit, h.bytes⟩
      exact hdone.maybeCloseAfterDrain
    · cases hs

section
variable (hlimit : maxOutbound < 2 ^ 64)

include hlimit in
/-- A frame that does not fit closes the connection, which drops the queue. -/
theorem Accounted.queueEncoded (h : s.Accounted maxOutbound) (bytes : Bytes) :
    (s.queueEncoded bytes).Accounted maxOutbound := by
  unfold ConnectionWriter.queueEncoded
  split
  · exact h.close
  · rename_i hroom
    have hfits : s.outboundBytes + bytes.length ≤ maxOutbound := by
      rw [h.refuses_iff, Nat.not_lt, ← h.bytes.sum] at hroom
      exact hroom
    have hpush := h.bytes.push hfits
    refine ⟨h.sameLimit, ?_⟩
    dsimp only
    rw [List.map_append, addSize_eq (by omega)]
    exact hpush

include hlimit in
theorem Accounted.queueFrame (h : s.Accounted maxOutbound) (frame : Frame) :
    (s.queueFrame frame).Accounted maxOutbound := by
  unfold ConnectionWriter.queueFrame
  split
  · exact h
  split
  · exact h.close
  · exact h.queueEncoded hlimit _

include hlimit in
theorem Accounted.step {l : WriterLabel} (h : s.Accounted maxOutbound) (hs : s.step l = some t) :
    t.Accounted maxOutbound := by
  cases l with
  | tick => exact h.tick hs
  | writeReturns result =>
    simp only [ConnectionWriter.step] at hs
    split at hs
    · exact h.writeReturns hs
    · cases hs
  | ioReady | start =>
    simp only [ConnectionWriter.step] at hs
    split at hs <;> cases hs
    exact ⟨h.sameLimit, h.bytes⟩
  | run =>
    simp only [ConnectionWriter.step] at hs
    split at hs
    · split at hs
      · cases hs
      · split at hs <;> cases hs
        · exact ⟨h.sameLimit, h.bytes⟩
        · exact h.writeShort
    · cases hs
  | addRequest requestId =>
    simp only [ConnectionWriter.step] at hs
    split at hs <;> cases hs
    unfold ConnectionWriter.addRequest
    split
    · exact h
    · exact ⟨h.sameLimit, h.bytes⟩
  | queueFrame frame =>
    simp only [ConnectionWriter.step] at hs
    split at hs <;> cases hs
    exact h.queueFrame hlimit frame
  | completeRequest requestId response =>
    simp only [ConnectionWriter.step] at hs
    split at hs <;> cases hs
    have herased : Accounted maxOutbound
        { s with requests := s.requests.filter (· != requestId) } := ⟨h.sameLimit, h.bytes⟩
    have hqueued := herased.queueFrame hlimit response
    exact ⟨hqueued.sameLimit, hqueued.bytes⟩
  | beginDrain =>
    simp only [ConnectionWriter.step] at hs
    split at hs <;> cases hs
    have hdraining : Accounted maxOutbound { s with draining := true } := ⟨h.sameLimit, h.bytes⟩
    exact hdraining.maybeCloseAfterDrain
  | close =>
    simp only [ConnectionWriter.step] at hs
    split at hs <;> cases hs
    exact h.close

include hlimit in
/-- The count of a server connection is right in every state of every run. -/
theorem accounted_of_reachable {maxInflight : Nat}
    (h : Reachable step (init maxInflight maxOutbound) s) : s.Accounted maxOutbound :=
  h.invariant (p := Accounted maxOutbound) ⟨rfl, .empty _⟩ fun _ _ _ hs _ hstep =>
    hs.step hlimit hstep

end

/-- `QueueEncoded` closes an open connection exactly if the frame does not fit. -/
theorem Accounted.closes_iff (h : s.Accounted maxOutbound) (hopen : s.closed = false)
    (bytes : Bytes) : (s.queueEncoded bytes).closed = true ↔
      maxOutbound < (s.outbound.map List.length).sum + bytes.length := by
  rw [← h.refuses_iff]
  unfold ConnectionWriter.queueEncoded
  split
  · rename_i hfull
    refine ⟨fun _ => hfull, fun _ => ?_⟩
    unfold ConnectionWriter.close
    rw [if_neg (by rw [hopen]; exact Bool.false_ne_true)]
  · rename_i hroom
    refine ⟨fun hclosed => ?_, fun hfull => absurd hfull hroom⟩
    exact absurd (hopen.symm.trans hclosed) Bool.false_ne_true

end ConnectionWriter

end Server

namespace Transport

open Lib Protocol
open Client (MultiplexedConnection OutboundFrame)
open Server (ConnectionWriter)

/-! ## Both ends -/

/-- **The outbound bytes are accounted for.** On a client and on a server, in every state of every
    run: the count is the sum of the sizes of the queued frames and within the limit; when the
    writer has taken any number of them, what is left of the count is at least the size of the next,
    so no subtraction wraps; and a frame is refused exactly if it would take the queue above the
    limit. -/
theorem outbound_bytes_accounted {limits : Client.ConnectionLimits} {c : MultiplexedConnection}
    {maxInflight maxOutbound : Nat} {s : ConnectionWriter}
    (hclient : limits.maxOutboundBytes < 2 ^ 64) (hserver : maxOutbound < 2 ^ 64)
    (hc : Reachable MultiplexedConnection.step (.init limits) c)
    (hs : Reachable ConnectionWriter.step (.init maxInflight maxOutbound) s) :
    (c.outboundBytes = (c.outbound.map (·.bytes.length)).sum ∧
      c.outboundBytes ≤ limits.maxOutboundBytes ∧
      (∀ taken frame rest, c.outbound = taken ++ frame :: rest →
        frame.bytes.length ≤ (taken.map (·.bytes.length)).foldl subSize c.outboundBytes) ∧
      ∀ n, c.overloaded n = true ↔
        limits.maxOutboundBytes < (c.outbound.map (·.bytes.length)).sum + n) ∧
    (s.outboundBytes = (s.outbound.map List.length).sum ∧ s.outboundBytes ≤ maxOutbound ∧
      (∀ taken frame rest, s.outbound = taken ++ frame :: rest →
        frame.length ≤ (taken.map List.length).foldl subSize s.outboundBytes) ∧
      (s.closed = false → ∀ bytes, (s.queueEncoded bytes).closed = true ↔
        maxOutbound < (s.outbound.map List.length).sum + bytes.length)) := by
  have hcount := MultiplexedConnection.accounted_of_reachable hclient hc
  have hcount' := ConnectionWriter.accounted_of_reachable hserver hs
  have hexact : ∀ a b, b ≤ a → subSize a b = a - b := fun _ _ hle => subSize_eq hle
  refine ⟨⟨hcount.bytes.sum, hcount.bytes.within, ?_, hcount.overloaded_iff⟩,
    hcount'.bytes.sum, hcount'.bytes.within, ?_, fun hopen => hcount'.closes_iff hopen⟩
  · intro taken frame rest hqueue
    have hbytes := hcount.bytes
    rw [hqueue, List.map_append, List.map_cons] at hbytes
    exact (hbytes.foldl_pop hexact).le_of_front
  · intro taken frame rest hqueue
    have hbytes := hcount'.bytes
    rw [hqueue, List.map_append, List.map_cons] at hbytes
    exact (hbytes.foldl_pop hexact).le_of_front

/-- While the writers wait for their sockets, the client has a REQUEST of 33 bytes in its queue, and
    the server a response. -/
theorem outbound_bytes_accounted_waiting :
    ∃ c s, Reachable MultiplexedConnection.step (.init {}) c ∧
      Reachable ConnectionWriter.step (.init 2 1000) s ∧
      c.outbound.length = 1 ∧ c.outboundBytes = (c.outbound.map (·.bytes.length)).sum ∧
      s.outbound.length = 1 ∧ s.outboundBytes = (s.outbound.map List.length).sum := by
  obtain ⟨c, hc, hclength⟩ : ∃ c, Reachable MultiplexedConnection.step (.init {}) c ∧
      c.outbound.length = 1 :=
    exists_reaches_of_exec [.attach, .tick, .tick, .readReturns .wouldBlock, .tick, .tick, .spawn,
      .spawn, .run 3, .call ⟨{ requestId := 8 }, [], [1]⟩ 10, .tick, .writeReturns .wouldBlock,
      .tick, .run 4, .call ⟨{ requestId := 9 }, [], [1]⟩ 10] (by decide +kernel) fun _ _ hc => hc
  obtain ⟨s, hs, hslength⟩ : ∃ s, Reachable ConnectionWriter.step (.init 2 1000) s ∧
      s.outbound.length = 1 :=
    exists_reaches_of_exec [.start, .tick, .addRequest 7, .addRequest 8,
      .completeRequest 7 ⟨{ messageType := .response, requestId := 7 }, [], []⟩, .tick,
      .writeReturns .wouldBlock, .tick,
      .completeRequest 8 ⟨{ messageType := .response, requestId := 8 }, [], []⟩] (by decide +kernel)
      fun _ _ hs => hs
  have hboth := outbound_bytes_accounted (by decide) (by decide) hc hs
  exact ⟨c, s, hc, hs, hclength, hboth.1.1, hslength, hboth.2.1⟩

end CoroRpc.Transport
