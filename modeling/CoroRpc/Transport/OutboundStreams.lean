import CoroRpc.Client.OutboundStream
import CoroRpc.Server.Writer

/-!
# Both ends of a connection write whole frames

Client and server write to their socket the same way: frames wait in a queue, the writer moves them
into a batch of about 64 KiB and hands the batch to `WriteAll`, which goes on after partial writes,
`EAGAIN` and `EINTR`. This module puts the two results together: what one end of a connection
reads is at every moment a prefix of whole frames in the order in which the other end has queued
them.
-/

namespace CoroRpc.Transport

open Lib Protocol List
open Client (Traced OutboundFrame CancelsBehind)
open Server (ConnectionWriter)

/-- **The outbound streams are intact.** On a client whose calls do not reuse the id of a REQUEST
    that is still queued, the bytes written are a prefix of the concatenation of the CANCELs and of
    the REQUESTs whose call was not completed when the writer took them, each a whole encoded frame
    and all in the order of their posting; and a CANCEL is only behind a REQUEST with its id. On a
    server they are a prefix of the concatenation of all accepted frames. -/
theorem outbound_streams_intact {limits : Client.ConnectionLimits} {c : Traced}
    {maxInflight maxOutbound : Nat} {s : ConnectionWriter}
    (hc : Reaches Traced.step Traced.FreshId (Traced.init limits) c)
    (hs : Reachable ConnectionWriter.step (.init maxInflight maxOutbound) s) :
    (c.conn.wire <+: c.stream.flatMap OutboundFrame.bytes ∧
      (c.conn.outbound = c.waiting.map Client.Posted.frame ∨ c.conn.outbound = []) ∧
      (∀ q ∈ c.posted, q.frame.Whole) ∧ CancelsBehind c.stream) ∧
    (s.wire <+: s.accepted.flatten ∧
      ∀ bytes ∈ s.accepted, ∃ frame, FrameEncoder.encode frame = .ok bytes) := by
  have hclient := Client.Streamed.of_reaches hc
  obtain ⟨taken, hserver⟩ := Server.Streams.of_reaches hs
  refine ⟨⟨hclient.written.isPrefix, hclient.queued.queue.imp_right And.right,
    hclient.queued.whole, hclient.queued.ordered⟩, ?_, hserver.encoded⟩
  obtain ⟨rest, hrest⟩ := hserver.ahead
  rw [← hrest, flatten_append]
  exact hserver.wire.trans (prefix_append _ _)

/-- The client's REQUEST goes out in two pieces, its call times out, and the CANCEL stops after ten
    bytes; the server's response stops after ten bytes too. -/
theorem outbound_streams_intact_partial_writes :
    ∃ c s, Reaches Traced.step Traced.FreshId (Traced.init {}) c ∧
      Reachable ConnectionWriter.step (.init 1 1000) s ∧
      c.conn.wire.length = 43 ∧ c.stream.length = 2 ∧
      c.conn.wire <+: c.stream.flatMap OutboundFrame.bytes ∧ CancelsBehind c.stream ∧
      s.wire.length = 10 ∧ s.wire <+: s.accepted.flatten := by
  obtain ⟨c, hc, hlen, htwo⟩ : ∃ c, Reaches Traced.step Traced.FreshId (Traced.init {}) c ∧
      c.conn.wire.length = 43 ∧ c.stream.length = 2 :=
    exists_reaches_of_exec [.attach, .tick, .tick, .readReturns .wouldBlock, .tick, .tick, .spawn,
      .run 3, .call ⟨{ requestId := 7 }, [], [1]⟩ 10, .tick, .writeReturns (.accepted 5),
      .writeReturns .interrupted, .writeReturns (.accepted 28), .tick, .tick, .timer 3, .run 3,
      .tick, .tick, .writeReturns (.accepted 10), .writeReturns .wouldBlock] (by decide +kernel)
      fun _ _ hs => hs
  obtain ⟨s, hs, hwritten⟩ : ∃ s, Reachable ConnectionWriter.step (.init 1 1000) s ∧
      s.wire.length = 10 :=
    exists_reaches_of_exec [.start, .tick, .addRequest 7,
      .completeRequest 7 ⟨{ messageType := .response, requestId := 7 }, [], []⟩, .tick,
      .writeReturns (.accepted 10), .writeReturns .wouldBlock] (by decide +kernel) fun _ _ hs => hs
  have hboth := outbound_streams_intact hc hs
  exact ⟨c, s, hc, hs, hlen, htwo, hboth.1.1, hboth.1.2.2.2, hwritten, hboth.2.1⟩

/-- While the writer waits for the socket, the call with id 7 times out and its REQUEST stays in the
    queue. Then another call is made under id 7, and the writer, which finds a pending call with
    that id, sends the first REQUEST as well. -/
theorem stale_request_sent : ∃ c, Reachable Traced.step (Traced.init {}) c ∧
      ¬ c.conn.wire <+: c.stream.flatMap OutboundFrame.bytes := by
  exact exists_reaches_of_exec [.attach, .tick, .tick, .readReturns .wouldBlock, .tick, .tick,
    .spawn, .spawn, .run 3, .call ⟨{}, [], []⟩ Runtime.kNoTimeout, .tick,
    .writeReturns (.accepted 5), .writeReturns .wouldBlock, .tick, .run 4,
    .call ⟨{ requestId := 7 }, [], [1]⟩ 10, .tick, .timer 4, .run 4, .tick, .tick,
    .call ⟨{ requestId := 7 }, [], [2]⟩ Runtime.kNoTimeout, .tick, .ioReady 2, .run 2, .tick,
    .writeReturns (.accepted 27), .tick, .writeReturns (.accepted 66)]
    (by decide +kernel) fun _ _ hs => hs

end CoroRpc.Transport
