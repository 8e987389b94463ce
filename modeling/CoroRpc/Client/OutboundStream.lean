import CoroRpc.Client.CallCompletion
import CoroRpc.Client.Traffic
import CoroRpc.Lib.PartialWrite

/-!
# The byte stream of a client connection

What the writer of a `MultiplexedConnection` has written is a prefix of the frames that were put
into its queue, one whole frame after the other, less the REQUESTs whose call was completed before
the writer came to them. And the CANCEL of a call is in the stream only behind a REQUEST with its
id, because a call that has timed out is cancelled only if it was marked as sent.

`Traced` is the connection together with a record of what has gone through its queue. The writer
looks a call up by the id in the frame. So it takes the REQUEST of a call that is long over for
that of another call which has since been made under the same id, and sends it. `FreshId` excludes
this; ids that the connection has chosen by itself come around only after 2^64 calls.
-/

namespace CoroRpc.Client

open Lib Protocol CoroRpc.Runtime List Option Function MultiplexedConnection

/-! ## The record -/

/-- A frame that was put into the queue, and the number of its call if it is a REQUEST. -/
structure Posted where
  frame : OutboundFrame
  serial : Nat
  deriving DecidableEq

/-- A connection and what has gone through its queue. -/
structure Traced where
  conn : MultiplexedConnection
  /-- The frames that the writer has taken, in the order of their posting, and whether the call of
      the frame was completed then. -/
  taken : List (Posted × Bool) := []
  /-- The frames that were posted behind them, in this order. -/
  waiting : List Posted := []

namespace Traced

def popped (s t : MultiplexedConnection) : Nat :=
  if s.code.head? = some .writerLoop then s.outbound.length - t.outbound.length else 0

/-- A step, and what is new in the queue behind what was there. -/
def step (s : Traced) (l : Label) : Option Traced :=
  (s.conn.step l).map fun t =>
    { conn := t
      taken := s.taken ++ (s.waiting.take (popped s.conn t)).map fun q =>
        (q, decide (q.serial ∈ s.conn.completions))
      waiting := s.waiting.drop (popped s.conn t) ++
        (t.outbound.drop s.conn.outbound.length).map fun frame => ⟨frame, s.conn.calls⟩ }

def init (limits : ConnectionLimits) : Traced := { conn := MultiplexedConnection.init limits }

def posted (s : Traced) : List Posted := s.taken.map Prod.fst ++ s.waiting

/-- What the writer owes to the socket: of the frames it has taken, the CANCELs and the REQUESTs
    whose call was not completed. -/
def stream (s : Traced) : List OutboundFrame :=
  (s.taken.filter fun q => q.1.frame.control || !q.2).map fun q => q.1.frame

/-- No call gets the id of a REQUEST that is still in the queue. -/
def FreshId (s : Traced) : Label → Prop
  | .call request _ => ∀ frame ∈ s.conn.outbound, frame.control = false → frame.requestId ≠
      if request.header.requestId = 0 then s.conn.nextRequestId else request.header.requestId
  | .callMetadata .. => ∀ frame ∈ s.conn.outbound, frame.control = false →
      frame.requestId ≠ s.conn.nextRequestId
  | _ => True

instance (s : Traced) : ∀ l, Decidable (s.FreshId l)
  | .call .. => inferInstanceAs (Decidable (∀ _ ∈ _, _))
  | .callMetadata .. => inferInstanceAs (Decidable (∀ _ ∈ _, _))
  | .create | .spawn | .attach | .beginDrain | .close _ | .suspend _ | .finish | .resumeUser _
  | .wake _ | .run _ | .timer _ | .ioReady _ | .tick | .failOrder _ | .readReturns _
  | .writeReturns _ => inferInstanceAs (Decidable True)

theorem FreshId.issues {s : Traced} {l : Label} {s₁ : MultiplexedConnection} {id : UInt64}
    (h : s.FreshId l) (hid : Issues s.conn l s₁ id) :
    ∀ frame ∈ s.conn.outbound, frame.control = false → frame.requestId ≠ id := by
  cases hid with
  | metadata => exact h
  | automatic request _ hzero =>
    simp only [FreshId, hzero, if_true] at h
    exact h
  | chosen request _ hid =>
    simp only [FreshId, hid, if_false] at h
    exact h

end Traced

/-- The frame is a whole encoded REQUEST, or the CANCEL with its id. -/
def OutboundFrame.Whole (frame : OutboundFrame) : Prop :=
  (frame.control = false ∧ IsRequest frame.requestId frame.bytes) ∨
    (frame.control = true ∧ FrameEncoder.encode (cancelFrame frame.requestId) = .ok frame.bytes)

/-- Every CANCEL is behind a REQUEST with its id. -/
def CancelsBehind (frames : List OutboundFrame) : Prop :=
  ∀ front frame back, frames = front ++ frame :: back → frame.control = true →
    ∃ request ∈ front, request.control = false ∧ request.requestId = frame.requestId

/-! ## Calls and the code that works for them -/

/-- The ledger of the calls, and their code: one coroutine is inside `CallEncoded` for a call, and
    the call that it is about to take out of `pending_calls_` is completed. -/
structure Calls (entries : List Entry) (calls : Nat) (completions : List Nat) (ops : List Op) :
    Prop where
  ledger : Ledger entries calls completions
  once : (ops.filterMap Op.callId).Nodup
  pending : ∀ id ∈ ops.filterMap Op.callId, id ∈ entries.map Entry.requestId
  ended : ∀ id, .callEnd id ∈ ops → ∀ e ∈ entries, e.requestId = id → e.completed = true

namespace Calls

variable {entries : List Entry} {calls : Nat} {completions : List Nat} {ops : List Op}
  {front old new back : List Op} {e : Entry}

theorem recode (h : Calls entries calls completions (front ++ (old ++ back)))
    (hcalls : (new.filterMap Op.callId).Sublist (old.filterMap Op.callId))
    (hended : ∀ id, .callEnd id ∈ new → .callEnd id ∈ old ∨
      ∀ e ∈ entries, e.requestId = id → e.completed = true) :
    Calls entries calls completions (front ++ (new ++ back)) := by
  have hsub : ((front ++ (new ++ back)).filterMap Op.callId).Sublist
      ((front ++ (old ++ back)).filterMap Op.callId) := by
    simp only [filterMap_append]
    exact (List.Sublist.refl _).append (hcalls.append (.refl _))
  refine ⟨h.ledger, h.once.sublist hsub, fun id hid => h.pending id (hsub.subset hid),
    fun id hid => ?_⟩
  rcases mem_append.mp hid with hid | hid
  · exact h.ended id (mem_append_left _ hid)
  · rcases mem_append.mp hid with hid | hid
    · rcases hended id hid with hold | hdone
      · exact h.ended id (mem_append_right _ (mem_append_left _ hold))
      · exact hdone
    · exact h.ended id (mem_append_right _ (mem_append_right _ hid))

theorem complete (h : Calls entries calls completions ops) (he : e ∈ entries)
    (hopen : e.completed = false) :
    Calls (entries.map (Entry.complete e.requestId)) calls (completions ++ [e.serial]) ops where
  ledger := h.ledger.complete he hopen
  once := h.once
  pending id hid := by
    simpa [comp_def] using h.pending id hid
  ended id hid q hq heq := by
    obtain ⟨q', hq', rfl⟩ := mem_map.mp hq
    rw [Entry.complete_requestId] at heq
    exact Entry.complete_completed.mpr (.inr (h.ended id hid q' hq' heq))

theorem add (h : Calls entries calls completions (front ++ ([] ++ back))) {timed : Bool}
    (hfree : ∀ q ∈ entries, q.requestId ≠ e.requestId) (hopen : e.completed = false)
    (hserial : e.serial = calls) :
    Calls (entries ++ [e]) (calls + 1) completions
      (front ++ ([.yieldCall timed e.requestId] ++ back)) where
  ledger := h.ledger.add hfree hopen hserial
  once := by
    have hnew : e.requestId ∉ (front ++ ([] ++ back)).filterMap Op.callId := by
      intro hmem
      obtain ⟨q, hq, hid⟩ := mem_map.mp (h.pending _ hmem)
      exact hfree q hq hid
    have hperm : ((front ++ ([Op.yieldCall timed e.requestId] ++ back)).filterMap Op.callId).Perm
        (e.requestId :: (front ++ ([] ++ back)).filterMap Op.callId) := by
      simp only [filterMap_append, filterMap_cons, Op.callId, nil_append, singleton_append]
      exact perm_middle
    exact hperm.nodup_iff.mpr (nodup_cons.mpr ⟨hnew, h.once⟩)
  pending id hid := by
    rw [map_append, mem_append]
    simp only [filterMap_append, filterMap_cons, filterMap_nil, Op.callId,
      mem_append, mem_singleton] at hid
    rcases hid with hid | rfl | hid
    · exact .inl (h.pending id (by simp [hid]))
    · exact .inr (by simp)
    · exact .inl (h.pending id (by simp [hid]))
  ended id hid q hq heq := by
    rcases mem_append.mp hq with hq | hq
    · refine h.ended id ?_ q hq heq
      simpa using hid
    · -- The new call has no code that ends it.
      rw [mem_singleton.mp hq] at heq
      subst heq
      have hmem : e.requestId ∈ (front ++ ([] ++ back)).filterMap Op.callId :=
        mem_filterMap.mpr ⟨.callEnd e.requestId, by simpa using hid, rfl⟩
      obtain ⟨q, hq, hid⟩ := mem_map.mp (h.pending _ hmem)
      exact absurd hid (hfree q hq)

theorem retire {id : UInt64} {rest : List Op}
    (h : Calls entries calls completions (front ++ (.callEnd id :: rest ++ back))) :
    Calls (entries.filter (·.requestId != id)) calls completions (front ++ (rest ++ back)) := by
  have hdone : ∀ q ∈ entries, q.requestId = id → q.completed = true :=
    h.ended id (by simp)
  have hperm : ((front ++ (Op.callEnd id :: rest ++ back)).filterMap Op.callId).Perm
      (id :: (front ++ (rest ++ back)).filterMap Op.callId) := by
    simp only [filterMap_append, filterMap_cons, Op.callId, cons_append]
    exact perm_middle
  have hnodup := nodup_cons.mp (hperm.nodup_iff.mp h.once)
  refine ⟨h.ledger.erase hdone, hnodup.2, fun id' hid' => ?_, fun id' hid' q hq => ?_⟩
  · obtain ⟨q, hq, rfl⟩ := mem_map.mp (h.pending id' (hperm.mem_iff.mpr (.tail _ hid')))
    refine mem_map_of_mem (mem_filter.mpr ⟨hq, ?_⟩)
    simp only [bne_iff_ne, ne_eq]
    rintro rfl
    exact hnodup.1 hid'
  · refine h.ended id' ?_ q (mem_of_mem_filter hq)
    rcases mem_append.mp hid' with hid' | hid'
    · exact mem_append_left _ hid'
    · exact mem_append_right _ (mem_cons_of_mem _ hid')

end Calls

/-! ## The place of the writer -/

/-- Where the code is in the stream. -/
def Op.progress : Op → Option Progress
  | .writerLoop => some .idle
  | .write offset | .writeAwaited offset => some (.writing offset)
  | _ => none

/-- At most one coroutine writes, and it has written what its place says. -/
structure Written (given wire batch : Bytes) (rank : Nat) (ops : List Op) : Prop where
  stage : (ops.filterMap Op.progress = [] ∧ wire <+: given) ∨
    ∃ progress, ops.filterMap Op.progress = [progress] ∧ Sent given wire batch progress
  fresh : rank = 0 → ops.filterMap Op.progress = [] ∧ given = []

namespace Written

variable {given given' wire wire' batch batch' : Bytes} {rank rank' : Nat}
  {front old new back rest : List Op} {op op' : Op} {progress progress' : Progress}

theorem isPrefix {ops : List Op} (h : Written given wire batch rank ops) : wire <+: given := by
  rcases h.stage with ⟨-, hp⟩ | ⟨_, -, hs⟩
  · exact hp
  · exact hs.isPrefix

theorem recode (h : Written given wire batch rank (front ++ (old ++ back)))
    (hsub : (new.filterMap Op.progress).Sublist (old.filterMap Op.progress)) (hrank : rank ≤ rank') :
    Written given wire batch rank' (front ++ (new ++ back)) := by
  have hall : ((front ++ (new ++ back)).filterMap Op.progress).Sublist
      ((front ++ (old ++ back)).filterMap Op.progress) := by
    simp only [filterMap_append]
    exact (List.Sublist.refl _).append (hsub.append (.refl _))
  refine ⟨?_, fun hzero => ?_⟩
  · rcases h.stage with ⟨hnil, hp⟩ | ⟨progress, hone, hs⟩
    · exact .inl ⟨sublist_nil.mp (hnil ▸ hall), hp⟩
    · rw [hone] at hall
      rcases sublist_singleton.mp hall with hnil | hone'
      · exact .inl ⟨hnil, hs.isPrefix⟩
      · exact .inr ⟨progress, hone', hs⟩
  · obtain ⟨hnil, hgiven⟩ := h.fresh (Nat.le_zero.mp (hzero ▸ hrank))
    exact ⟨sublist_nil.mp (hnil ▸ hall), hgiven⟩

theorem move (h : Written given wire batch rank (front ++ (op :: rest ++ back)))
    (hop : op.progress = some progress) (hop' : op'.progress = some progress')
    (hsent : Sent given wire batch progress → Sent given' wire' batch' progress') :
    Written given' wire' batch' rank (front ++ (op' :: rest ++ back)) := by
  have hplaces : ∀ {op} {progress}, op.progress = some progress →
      (front ++ (op :: rest ++ back)).filterMap Op.progress =
        front.filterMap Op.progress ++ progress :: (rest ++ back).filterMap Op.progress := by
    intro op progress hop
    rw [filterMap_append, cons_append, filterMap_cons, hop]
  refine ⟨?_, fun hzero => ?_⟩
  · rcases h.stage with ⟨hnil, -⟩ | ⟨progress₀, hone, hs⟩
    · rw [hplaces hop] at hnil
      exact absurd hnil (by simp)
    · rw [hplaces hop, append_eq_singleton_iff] at hone
      rcases hone with ⟨hfront, hrest⟩ | ⟨-, hrest⟩
      · obtain ⟨rfl, htail⟩ := cons.inj hrest
        refine .inr ⟨progress', ?_, hsent hs⟩
        rw [hplaces hop', hfront, htail, nil_append]
      · cases hrest
  · obtain ⟨hnil, -⟩ := h.fresh hzero
    rw [hplaces hop] at hnil
    exact absurd hnil (by simp)

theorem start (h : Written given wire batch 0 (front ++ (old ++ back)))
    (hnew : new.filterMap Op.progress = []) :
    Written given wire batch 1 (front ++ (new ++ back) ++ [.readerLoop, .writerLoop]) := by
  obtain ⟨hnil, rfl⟩ := h.fresh rfl
  simp only [filterMap_append, append_eq_nil_iff] at hnil
  refine ⟨.inr ⟨.idle, ?_, prefix_nil.mp h.isPrefix⟩, fun hone => by cases hone⟩
  simp [filterMap_append, hnil, hnew, filterMap_cons, Op.progress]

end Written

/-! ## The queue -/

theorem CancelsBehind.append {frames more : List OutboundFrame} (h : CancelsBehind frames)
    (hmore : ∀ frame ∈ more, frame.control = true →
      ∃ request ∈ frames, request.control = false ∧ request.requestId = frame.requestId) :
    CancelsBehind (frames ++ more) := by
  intro front frame back heq hc
  rcases append_eq_append_iff.mp heq with ⟨mid, rfl, rfl⟩ | ⟨mid, rfl, hmid⟩
  · obtain ⟨request, hr, hreq⟩ := hmore frame (by simp) hc
    exact ⟨request, mem_append_left _ hr, hreq⟩
  · cases mid with
    | nil =>
      rw [nil_append] at hmid
      obtain ⟨request, hr, hreq⟩ := hmore frame (by simp [← hmid]) hc
      exact ⟨request, by simpa using hr, hreq⟩
    | cons frame' mid =>
      obtain ⟨rfl, -⟩ := cons.inj hmid
      exact h front frame mid rfl hc

/-- The record agrees with the connection. -/
structure Queued (s : Traced) : Prop where
  queue : s.conn.outbound = s.waiting.map Posted.frame ∨
    (2 ≤ s.conn.state.rank ∧ s.conn.outbound = [])
  /-- Of the pending calls, the one with the id of a waiting REQUEST is the one with its number. -/
  requests : ∀ q ∈ s.waiting, q.frame.control = false → q.serial < s.conn.calls ∧
    ∀ p ∈ s.conn.pendingCalls, p.requestId = q.frame.requestId ↔ p.serial = q.serial
  cancels : ∀ q ∈ s.waiting, q.frame.control = true →
    ∃ request ∈ s.stream, request.control = false ∧ request.requestId = q.frame.requestId
  sent : ∀ p ∈ s.conn.pendingCalls, p.sent = true →
    ∃ request ∈ s.stream, request.control = false ∧ request.requestId = p.requestId
  ordered : CancelsBehind s.stream
  whole : ∀ q ∈ s.posted, q.frame.Whole

/-- What `Queued` asks of a frame that is put into the queue. -/
structure Postable (s : Traced) (q : Posted) : Prop where
  request : q.frame.control = false → q.serial < s.conn.calls ∧
    ∀ p ∈ s.conn.pendingCalls, p.requestId = q.frame.requestId ↔ p.serial = q.serial
  cancel : q.frame.control = true →
    ∃ request ∈ s.stream, request.control = false ∧ request.requestId = q.frame.requestId
  whole : q.frame.Whole

namespace Queued

variable {s : Traced} {t : MultiplexedConnection}

theorem keep (h : Queued s) (hrank : s.conn.state.rank ≤ t.state.rank)
    (hout : t.outbound = s.conn.outbound ∨ (2 ≤ t.state.rank ∧ t.outbound = []))
    (hcalls : t.calls = s.conn.calls)
    (hpending : ∀ p ∈ t.pendingCalls, ∃ p' ∈ s.conn.pendingCalls, p.requestId = p'.requestId ∧
      p.serial = p'.serial ∧ p.sent = p'.sent) : Queued { s with conn := t } where
  __ := h
  queue := by
    rcases hout with hout | hout
    · exact h.queue.imp (fun hq => hout.trans hq)
        fun ⟨hr, hq⟩ => ⟨Nat.le_trans hr hrank, hout.trans hq⟩
    · exact .inr hout
  requests q hq hc := by
    obtain ⟨hlt, hiff⟩ := h.requests q hq hc
    refine ⟨hcalls ▸ hlt, fun p hp => ?_⟩
    obtain ⟨p', hp', hid, hserial, -⟩ := hpending p hp
    rw [hid, hserial]
    exact hiff p' hp'
  sent p hp hsent := by
    obtain ⟨p', hp', hid, -, hs⟩ := hpending p hp
    rw [hid]
    exact h.sent p' hp' (hs ▸ hsent)

theorem keep_calls (h : Queued s) (hrank : s.conn.state.rank ≤ t.state.rank)
    (hout : t.outbound = s.conn.outbound ∨ (2 ≤ t.state.rank ∧ t.outbound = []))
    (hcalls : t.calls = s.conn.calls) (hpending : t.pendingCalls = s.conn.pendingCalls) :
    Queued { s with conn := t } :=
  h.keep hrank hout hcalls fun p hp => ⟨p, hpending ▸ hp, rfl, rfl, rfl⟩

theorem keep_traffic (h : Queued s) {n : UInt64} {batch wire : Bytes} {completions : List Nat}
    {results : List CallResult} (ht : t.traffic = { s.conn.traffic with
      nextRequestId := n, writeBatch := batch, completions, results, wire })
    (hrank : s.conn.state.rank ≤ t.state.rank) : Queued { s with conn := t } :=
  h.keep_calls hrank (.inl (congrArg Traffic.outbound ht)) (congrArg Traffic.calls ht)
    (congrArg Traffic.pendingCalls ht)

/-- In a connection that is ready, the queue is what the record says. -/
theorem queue_of_ready (h : Queued s) (hready : s.conn.state = .ready) :
    s.conn.outbound = s.waiting.map Posted.frame := by
  refine h.queue.resolve_right fun hr => ?_
  rw [hready] at hr
  exact absurd hr.1 (by decide)

theorem post (h : Queued s) {q : Posted} (hqueue : s.conn.outbound = s.waiting.map Posted.frame)
    (hpost : Postable s q) (hout : t.outbound = s.conn.outbound ++ [q.frame])
    (ht : t.calls = s.conn.calls) (hp : t.pendingCalls = s.conn.pendingCalls) :
    Queued { conn := t, taken := s.taken, waiting := s.waiting ++ [q] } where
  queue := by
    refine .inl ?_
    rw [hout, hqueue, map_append]
    rfl
  requests q' hq' hc := by
    rw [ht, hp]
    rcases mem_append.mp hq' with hq' | hq'
    · exact h.requests q' hq' hc
    · obtain rfl := mem_singleton.mp hq'
      exact hpost.request hc
  cancels q' hq' hc := by
    rcases mem_append.mp hq' with hq' | hq'
    · exact h.cancels q' hq' hc
    · obtain rfl := mem_singleton.mp hq'
      exact hpost.cancel hc
  sent p hpm := h.sent p (hp ▸ hpm)
  ordered := h.ordered
  whole q' hq' := by
    unfold Traced.posted at hq'
    rw [← append_assoc] at hq'
    rcases mem_append.mp hq' with hq' | hq'
    · exact h.whole q' hq'
    · rw [mem_singleton.mp hq']
      exact hpost.whole

theorem keeps_eq (h : Queued s) (hledger : Ledger s.conn.entries s.conn.calls s.conn.completions)
    {q : Posted} (hq : q ∈ s.waiting) :
    s.conn.keeps q.frame = (q.frame.control || !decide (q.serial ∈ s.conn.completions)) := by
  unfold keeps
  cases hc : q.frame.control with
  | true => rfl
  | false =>
    obtain ⟨hlt, hiff⟩ := h.requests q hq hc
    cases hf : s.conn.find q.frame.requestId with
    | some p =>
      obtain ⟨hp, hid⟩ := find_some hf
      have hdone := hledger.completed p.entry (mem_map_of_mem hp)
      rw [PendingCall.entry, (hiff p hp).mp hid] at hdone
      simp [← hdone]
    | none =>
      -- No pending call has the id, so none has the number, and the call is over.
      have hmem : q.serial ∈ s.conn.completions := by
        refine (hledger.logged q.serial hlt).resolve_right fun hmem => ?_
        obtain ⟨e, he, heq⟩ := mem_map.mp hmem
        obtain ⟨p, hp, rfl⟩ := mem_map.mp he
        exact find_none (by simp [hf]) _ he ((hiff p hp).mpr heq)
      simp [hmem]

theorem take (h : Queued s) (hledger : Ledger s.conn.entries s.conn.calls s.conn.completions)
    {out rest : List Posted} (hwaiting : s.waiting = out ++ rest)
    (hqueue : t.outbound = rest.map Posted.frame) (hcalls : t.calls = s.conn.calls)
    (hpending : t.pendingCalls = s.conn.pendingCalls.map
      (PendingCall.mark ((out.map Posted.frame).filter s.conn.keeps))) {s' : Traced}
    (hs' : s' = { conn := t
                  taken := s.taken ++ out.map fun q => (q, decide (q.serial ∈ s.conn.completions))
                  waiting := rest }) :
    s'.stream = s.stream ++ (out.map Posted.frame).filter s.conn.keeps ∧ Queued s' := by
  subst hs'
  have hmem : ∀ q ∈ out, q ∈ s.waiting := fun q hq => hwaiting ▸ mem_append_left _ hq
  have hkept : ((out.map fun q => (q, decide (q.serial ∈ s.conn.completions))).filter fun q =>
      q.1.frame.control || !q.2).map (fun q => q.1.frame) =
        (out.map Posted.frame).filter s.conn.keeps := by
    rw [List.filter_map, List.map_map, List.filter_map]
    refine congrArg (List.map _) (filter_congr fun q hq => ?_)
    exact (h.keeps_eq hledger (hmem q hq)).symm
  have hstream : Traced.stream
      { conn := t
        taken := s.taken ++ out.map fun q => (q, decide (q.serial ∈ s.conn.completions))
        waiting := rest } = s.stream ++ (out.map Posted.frame).filter s.conn.keeps := by
    rw [Traced.stream, filter_append, map_append, hkept]
    rfl
  refine ⟨hstream, ?_⟩
  have hrest : ∀ q ∈ rest, q ∈ s.waiting := fun q hq => hwaiting ▸ mem_append_right _ hq
  refine ⟨.inl hqueue, fun q hq hc => ?_, fun q hq hc => ?_, fun p hp hsent => ?_, ?_,
    fun q hq => h.whole q ?_⟩
  · obtain ⟨hlt, hiff⟩ := h.requests q (hrest q hq) hc
    refine ⟨hcalls ▸ hlt, fun p hp => ?_⟩
    rw [show t.pendingCalls = _ from hpending] at hp
    obtain ⟨p', hp', rfl⟩ := mem_map.mp hp
    exact hiff p' hp'
  · obtain ⟨request, hr, hreq⟩ := h.cancels q (hrest q hq) hc
    exact ⟨request, hstream ▸ mem_append_left _ hr, hreq⟩
  · rw [show t.pendingCalls = _ from hpending] at hp
    obtain ⟨p', hp', rfl⟩ := mem_map.mp hp
    rw [hstream]
    rcases Bool.or_eq_true_iff.mp hsent with hold | hnew
    · obtain ⟨request, hr, hreq⟩ := h.sent p' hp' hold
      exact ⟨request, mem_append_left _ hr, hreq⟩
    · obtain ⟨request, hr, hmark⟩ := any_eq_true.mp hnew
      rw [Bool.and_eq_true, Bool.not_eq_true', beq_iff_eq] at hmark
      exact ⟨request, mem_append_right _ hr, hmark⟩
  · rw [hstream]
    refine h.ordered.append fun frame hf hc => ?_
    obtain ⟨q, hq, rfl⟩ := mem_map.mp (mem_of_mem_filter hf)
    exact h.cancels q (hmem q hq) hc
  · -- What was posted has not changed.
    unfold Traced.posted at hq ⊢
    rw [hwaiting]
    simpa [comp_def] using hq

end Queued

/-! ## Steps -/

/-- The calls and what is written, in a connection whose coroutines have `ops` to do. -/
structure Flows (given : Bytes) (T : Traffic) (rank : Nat) (ops : List Op) : Prop where
  calls : Calls (T.pendingCalls.map PendingCall.entry) T.calls T.completions ops
  written : Written given T.wire T.writeBatch rank ops

theorem Flows.recode {given : Bytes} {T : Traffic} {rank rank' : Nat} {front old new back : List Op}
    (h : Flows given T rank (front ++ (old ++ back)))
    (hcalls : (new.filterMap Op.callId).Sublist (old.filterMap Op.callId))
    (hended : ∀ id, .callEnd id ∈ new → .callEnd id ∈ old ∨
      ∀ p ∈ T.pendingCalls, p.requestId = id → p.completed = true)
    (hplace : (new.filterMap Op.progress).Sublist (old.filterMap Op.progress))
    (hrank : rank ≤ rank') : Flows given T rank' (front ++ (new ++ back)) := by
  refine ⟨h.calls.recode hcalls fun id hid => (hended id hid).imp_right fun hdone => ?_,
    h.written.recode hplace hrank⟩
  rintro e he heid
  obtain ⟨p, hp, rfl⟩ := mem_map.mp he
  exact hdone p hp heid

structure Streamed (s : Traced) : Prop where
  calls : Calls s.conn.entries s.conn.calls s.conn.completions s.conn.codes.flatten
  written : Written (s.stream.flatMap OutboundFrame.bytes) s.conn.wire s.conn.writeBatch
    s.conn.state.rank s.conn.codes.flatten
  queued : Queued s

theorem Op.progress_of_not_isMarked {op : Op} (h : op.isMarked = false) : op.progress = none := by
  cases op <;> first | rfl | exact absurd h (by simp [isMarked, isWriting])

theorem Op.callId_of_not_isMarked {op : Op} (h : op.isMarked = false) : op.callId = none := by
  rw [isMarked, Bool.or_eq_false_iff] at h
  simpa using h.2

namespace Streamed

open MultiplexedConnection

variable {s s' : Traced} {t u : MultiplexedConnection} {c : Nat} {below : List Nat} {l : Label}
  {old rest : List Op} {p : PendingCall} {n : UInt64}

theorem complete (h : Streamed s) (hp : p ∈ s.conn.pendingCalls) (hopen : p.completed = false)
    (status : CallStatus) (response : Option Frame) :
    Streamed { s with conn := s.conn.complete p status response } := by
  refine ⟨?_, h.written, h.queued.keep (Nat.le_refl _) (.inl rfl) rfl fun q hq => ?_⟩
  · show Calls (s.conn.complete p status response).entries _ _ _
    rw [Inv.entries_complete]
    exact h.calls.complete (mem_map_of_mem hp) hopen
  · obtain ⟨q', hq', rfl⟩ := mem_map.mp hq
    refine ⟨q', hq', ?_⟩
    split <;> exact ⟨rfl, rfl, rfl⟩

theorem ended_complete {id : UInt64} {status : CallStatus} {response : Option Frame}
    (hid : p.requestId = id) :
    ∀ id', .callEnd id' ∈ Op.callEnd id :: rest → .callEnd id' ∈ Op.callResumed id :: rest ∨
      ∀ q ∈ (s.conn.complete p status response).pendingCalls, q.requestId = id' →
        q.completed = true := by
  intro id' hmem
  rcases mem_cons.mp hmem with heq | hmem
  · obtain rfl := Op.callEnd.inj heq
    refine .inr fun q hq hqid => ?_
    obtain ⟨q', -, rfl⟩ := mem_map.mp hq
    split at hqid
    · next heq => rw [if_pos heq]
    · next hne => exact absurd (by simpa using hqid.trans hid.symm) hne
  · exact .inl (mem_cons_of_mem _ hmem)

/-- Where no coroutine has other code, and the calls and the wire are as they were. -/
theorem stay (h : Streamed s) (hq : Queued s') (hstream : s'.stream = s.stream)
    (hst : s'.conn.state = s.conn.state) {queue : List OutboundFrame} {results : List CallResult}
    (ht : s'.conn.traffic =
      { s.conn.traffic with nextRequestId := n, outbound := queue, results := results })
    (hc : s'.conn.codes.flatten = s.conn.codes.flatten) : Streamed s' := by
  have hflows : Flows (s'.stream.flatMap OutboundFrame.bytes) s'.conn.traffic s'.conn.state.rank
      s'.conn.codes.flatten := by
    rw [hstream, hst, ht, hc]
    exact ⟨h.calls, h.written⟩
  exact ⟨hflows.calls, hflows.written, hq⟩

section
variable (h : Streamed s)
include h

/-- A frame is put into the queue, and the writer may be woken. -/
theorem post {q : Posted} (hready : s.conn.state = .ready) (hpost : Postable s q)
    (hst : t.state = s.conn.state)
    (ht : t.traffic = { s.conn.traffic with outbound := s.conn.outbound ++ [q.frame] })
    (hc : t.codes = s.conn.codes) :
    Streamed { conn := t, taken := s.taken, waiting := s.waiting ++ [q] } :=
  h.stay (h.queued.post (h.queued.queue_of_ready hready) hpost (congrArg Traffic.outbound ht)
    (congrArg Traffic.calls ht) (congrArg Traffic.pendingCalls ht)) rfl hst ht
    (congrArg flatten hc)

theorem refuse {results : List CallResult} (hst : t.state = s.conn.state)
    (ht : t.traffic = { s.conn.traffic with nextRequestId := n, results := results })
    (hc : t.codes.flatten = s.conn.codes.flatten) : Streamed { s with conn := t } :=
  h.stay (h.queued.keep_traffic ht (Nat.le_of_eq (by rw [hst]))) rfl hst ht hc

variable (hold : s.conn.codes[c]? = some old)
include hold

/-- Coroutine `c` goes on with `code`. -/
theorem change {code : List Op} (hc : s'.conn.codes = s.conn.codes.set c code)
    (hflows : ∀ front back, Flows (s.stream.flatMap OutboundFrame.bytes) s.conn.traffic
      s.conn.state.rank (front ++ (old ++ back)) → Flows (s'.stream.flatMap OutboundFrame.bytes)
      s'.conn.traffic s'.conn.state.rank (front ++ (code ++ back))) (hq : Queued s') :
    Streamed s' := by
  obtain ⟨front, back, hflat, hset⟩ := flatten_set_split hold
  have hf := hflows front back (hflat ▸ ⟨h.calls, h.written⟩)
  rw [← hset, ← hc] at hf
  exact ⟨hf.calls, hf.written, hq⟩

theorem shift (hshift : Shift c old s.conn t) : Streamed { s with conn := t } := by
  obtain ⟨code, hcode, hless⟩ := hshift.codes
  refine h.change hold hcode (fun front back hf => ?_) ?_
  · have hf' : Flows (s.stream.flatMap OutboundFrame.bytes) t.traffic s.conn.state.rank
        (front ++ (old ++ back)) := by
      rcases hshift.traffic with ht | ⟨ht, -⟩ <;> rw [ht]
      · exact hf
      · exact ⟨hf.calls, hf.written⟩
    exact hf'.recode (hless.filterMap fun _ => Op.callId_of_not_isMarked)
      (fun id hid => .inl (hless.mem_of_isMarked rfl hid))
      (hless.filterMap fun _ => Op.progress_of_not_isMarked) hshift.rank
  · rcases hshift.traffic with ht | ⟨ht, hrank⟩
    · exact h.queued.keep_traffic ht hshift.rank
    · exact h.queued.keep_calls hshift.rank (.inr ⟨hrank, congrArg Traffic.outbound ht⟩)
        (congrArg Traffic.calls ht) (congrArg Traffic.pendingCalls ht)

theorem recode {code : List Op} (hst : t.state = s.conn.state) (ht : t.traffic = s.conn.traffic)
    (hc : t.codes = s.conn.codes.set c code)
    (hcalls : (code.filterMap Op.callId).Sublist (old.filterMap Op.callId))
    (hended : ∀ id, .callEnd id ∈ code → .callEnd id ∈ old ∨
      ∀ q ∈ s.conn.pendingCalls, q.requestId = id → q.completed = true)
    (hplace : (code.filterMap Op.progress).Sublist (old.filterMap Op.progress)) :
    Streamed { s with conn := t } := by
  have hrank : s.conn.state.rank ≤ t.state.rank := Nat.le_of_eq (by rw [hst])
  refine h.change hold hc (fun front back hf => ?_) (h.queued.keep_traffic ht hrank)
  show Flows _ t.traffic t.state.rank _
  rw [ht]
  exact hf.recode hcalls hended hplace hrank

end

section
variable (h : Streamed s)
include h

/-- A call is put into `pending_calls_`, under an id that no waiting REQUEST has. -/
theorem addCall (hold : s.conn.codes[c]? = some []) {timed : Bool} (hready : s.conn.state = .ready)
    (hfree : ∀ q ∈ s.conn.pendingCalls, q.requestId ≠ p.requestId)
    (hfresh : ∀ frame ∈ s.conn.outbound, frame.control = false → frame.requestId ≠ p.requestId)
    (hopen : p.completed = false) (hsent : p.sent = false) (hserial : p.serial = s.conn.calls)
    (hst : t.state = s.conn.state) (ht : t.traffic = { s.conn.traffic with
      nextRequestId := n, pendingCalls := s.conn.pendingCalls ++ [p], calls := s.conn.calls + 1 })
    (hc : t.codes = s.conn.codes.set c [.yieldCall timed p.requestId]) :
    Streamed { s with conn := t } := by
  have hp : t.pendingCalls = s.conn.pendingCalls ++ [p] := congrArg Traffic.pendingCalls ht
  have hcount : t.calls = s.conn.calls + 1 := congrArg Traffic.calls ht
  have hqueue := h.queued.queue_of_ready hready
  refine h.change hold hc (fun front back hf => ?_) ⟨.inl ((congrArg Traffic.outbound ht).trans hqueue),
    fun q hq hcontrol => ?_, h.queued.cancels, fun q hq hqs => ?_, h.queued.ordered, h.queued.whole⟩
  · show Flows _ t.traffic t.state.rank _
    rw [ht, hst]
    refine ⟨?_, hf.written.recode (.refl _) (Nat.le_refl _)⟩
    show Calls (map PendingCall.entry (s.conn.pendingCalls ++ [p])) _ _ _
    rw [map_append]
    refine hf.calls.add (e := p.entry) (fun e he => ?_) hopen hserial
    obtain ⟨q, hq, rfl⟩ := mem_map.mp he
    exact hfree q hq
  · obtain ⟨hlt, hiff⟩ := h.queued.requests q hq hcontrol
    refine ⟨hcount ▸ Nat.lt_succ_of_lt hlt, fun p' hp' => ?_⟩
    rw [show t.pendingCalls = _ from hp] at hp'
    rcases mem_append.mp hp' with hp' | hp'
    · exact hiff p' hp'
    · obtain rfl := mem_singleton.mp hp'
      have hne := hfresh q.frame (hqueue ▸ mem_map_of_mem hq) hcontrol
      exact ⟨fun hid => absurd hid.symm hne, fun hser => by omega⟩
  · rw [show t.pendingCalls = _ from hp] at hq
    rcases mem_append.mp hq with hq | hq
    · exact h.queued.sent q hq hqs
    · rw [mem_singleton.mp hq, hsent] at hqs
      cases hqs

theorem retire {id : UInt64} (hold : s.conn.codes[c]? = some (.callEnd id :: rest))
    (hid : p.requestId = id) (hst : t.state = s.conn.state)
    (ht : t.traffic = (s.conn.retire p).traffic) (hc : t.codes = s.conn.codes.set c rest) :
    Streamed { s with conn := t } := by
  have hrank : s.conn.state.rank ≤ t.state.rank := Nat.le_of_eq (by rw [hst])
  refine h.change hold hc (fun front back hf => ?_) (h.queued.keep hrank
    (.inl (congrArg Traffic.outbound ht)) (congrArg Traffic.calls ht) fun q hq => ?_)
  · show Flows _ t.traffic t.state.rank _
    rw [ht]
    refine ⟨?_, hf.written.recode (sublist_cons_self _ _ |>.filterMap _) hrank⟩
    have hentries : (s.conn.retire p).entries = s.conn.entries.filter (·.requestId != id) := by
      rw [entries, entries, List.filter_map]
      subst hid
      rfl
    show Calls (s.conn.retire p).entries _ _ _
    rw [hentries]
    exact hf.calls.retire
  · rw [show t.pendingCalls = _ from congrArg Traffic.pendingCalls ht] at hq
    exact ⟨q, mem_of_mem_filter hq, rfl, rfl, rfl⟩

theorem take {frames queue : List OutboundFrame}
    (hold : s.conn.codes[c]? = some (.writerLoop :: rest)) (hne : s.conn.outbound ≠ [])
    (hqueue : s.conn.outbound = frames ++ queue) (hst : t.state = s.conn.state)
    (ht : t.traffic = { s.conn.traffic with
      outbound := queue
      writeBatch := (frames.filter s.conn.keeps).flatMap OutboundFrame.bytes
      pendingCalls := s.conn.pendingCalls.map (PendingCall.mark (frames.filter s.conn.keeps)) })
    (hc : t.codes = s.conn.codes.set c
      ((if t.writeBatch = [] then .writerLoop else .write 0) :: rest)) :
    Streamed
      { conn := t
        taken := s.taken ++ (s.waiting.take frames.length).map fun q =>
          (q, decide (q.serial ∈ s.conn.completions))
        waiting := s.waiting.drop frames.length } := by
  have hwaiting : s.conn.outbound = s.waiting.map Posted.frame :=
    h.queued.queue.resolve_right fun hdropped => hne hdropped.2
  -- The frames are those of the posts in front.
  have hframes : (s.waiting.take frames.length).map Posted.frame = frames := by
    rw [map_take, ← hwaiting, hqueue, take_left]
  have hrest : t.outbound = (s.waiting.drop frames.length).map Posted.frame := by
    rw [map_drop, ← hwaiting, hqueue, drop_left]
    exact congrArg Traffic.outbound ht
  have hpending : t.pendingCalls = s.conn.pendingCalls.map (PendingCall.mark
      (((s.waiting.take frames.length).map Posted.frame).filter s.conn.keeps)) := by
    rw [hframes]
    exact congrArg Traffic.pendingCalls ht
  obtain ⟨hstream, hqueued⟩ := h.queued.take h.calls.ledger (take_append_drop _ _).symm hrest
    (congrArg Traffic.calls ht) hpending rfl
  rw [hframes] at hstream
  refine h.change hold hc (fun front back hf => ?_) hqueued
  have hbatch : t.writeBatch = (frames.filter s.conn.keeps).flatMap OutboundFrame.bytes :=
    congrArg Traffic.writeBatch ht
  rw [hstream, flatMap_append, ← hbatch]
  show Flows _ t.traffic t.state.rank _
  rw [ht, hst]
  refine ⟨?_, ?_⟩
  · show Calls (map PendingCall.entry (map _ s.conn.pendingCalls)) _ _ _
    rw [List.map_map]
    refine hf.calls.recode ?_ fun id hid => .inl ?_
    · split <;> exact .refl _
    · split at hid <;> simpa using hid
  · split
    · next hempty =>
      refine hf.written.move rfl rfl fun hsent => ?_
      rw [hempty, append_nil]
      exact hsent
    · refine hf.written.move rfl rfl fun hsent => ?_
      rw [hbatch]
      exact Sent.fill hsent _

theorem accepted {offset n : Nat} {op : Op} (hold : s.conn.codes[c]? = some (.write offset :: rest))
    (hop : op = if offset + n < s.conn.writeBatch.length then .write (offset + n) else .writerLoop)
    (hst : t.state = s.conn.state) (ht : t.traffic = (s.conn.accepted offset n).traffic)
    (hc : t.codes = s.conn.codes.set c (op :: rest)) : Streamed { s with conn := t } := by
  refine h.change hold hc (fun front back hf => ?_)
    (h.queued.keep_traffic ht (Nat.le_of_eq (by rw [hst])))
  show Flows _ t.traffic t.state.rank _
  rw [ht, hst, hop]
  refine ⟨hf.calls.recode ?_ fun id hid => .inl ?_, ?_⟩
  · split <;> exact .refl _
  · split at hid <;> simpa using hid
  · split
    · exact hf.written.move rfl rfl fun hsent => hsent.advance n
    · next hge =>
      exact hf.written.move rfl rfl fun hsent => (hsent.advance n).finish (Nat.not_lt.mp hge)

theorem attach (hold : s.conn.codes[c]? = some []) (hfresh : s.conn.state = .disconnected)
    (hst : t.state = .ready) (ht : t.traffic = s.conn.traffic)
    (hc : t.codes = s.conn.codes.set c [.startReader, .startWriter] ++
      [[.readerLoop], [.writerLoop]]) : Streamed { s with conn := t } := by
  obtain ⟨front, back, hflat, hset⟩ := flatten_set_split hold
  have hops : t.codes.flatten = front ++ ([.startReader, .startWriter] ++ back) ++
      [.readerLoop, .writerLoop] := by
    rw [hc, flatten_append, hset]
    rfl
  have hflows : Flows (s.stream.flatMap OutboundFrame.bytes) t.traffic t.state.rank
      t.codes.flatten := by
    have hcall := h.calls
    have hwritten := h.written
    rw [hflat] at hcall
    rw [hflat, hfresh] at hwritten
    rw [ht, hst, hops]
    refine ⟨?_, hwritten.start rfl⟩
    have hstart : Calls _ _ _ (front ++ ([.startReader, .startWriter] ++ _)) :=
      hcall.recode (.refl _) fun id hid => .inl (by simp at hid)
    -- The code of the new coroutines is behind the rest.
    rw [← append_nil (front ++ _), ← nil_append []] at hstart
    have hnew : Calls _ _ _ (_ ++ ([.readerLoop, .writerLoop] ++ [])) :=
      hstart.recode (.refl _) fun id hid => by simp at hid
    rwa [append_nil] at hnew
  exact ⟨hflows.calls, hflows.written, h.queued.keep_traffic ht (by rw [hfresh, hst]; decide)⟩

end

theorem init (limits : ConnectionLimits) : Streamed (Traced.init limits) := by
  refine ⟨⟨?_, ?_, ?_, ?_⟩, ⟨.inl ⟨rfl, prefix_rfl⟩, fun _ => ⟨rfl, rfl⟩⟩, .inl rfl, ?_, ?_, ?_, ?_, ?_⟩
  · exact (Inv.init limits).ledger
  · exact nodup_nil
  · exact fun id hid => absurd hid not_mem_nil
  · exact fun id hid => absurd hid (by simp [Traced.init, MultiplexedConnection.init, codes])
  · exact fun q hq => absurd hq not_mem_nil
  · exact fun q hq => absurd hq not_mem_nil
  · exact fun p hp => absurd hp not_mem_nil
  · exact fun front frame back heq => absurd heq (by simp [Traced.init, Traced.stream])
  · exact fun q hq => absurd hq not_mem_nil

/-- A step of a coroutine that is not at the head of the loop of the writer. -/
theorem deed (h : Streamed s) (hs : s.conn.callStack = c :: below)
    (hold : s.conn.codes[c]? = some old) (hfresh : s.FreshId l) (hd : Deed s.conn t c l old)
    (hloop : ∀ rest, old ≠ .writerLoop :: rest) :
    Streamed
      { conn := t
        taken := s.taken
        waiting := s.waiting ++
          (t.outbound.drop s.conn.outbound.length).map fun frame => ⟨frame, s.conn.calls⟩ } := by
  -- Nothing new is in the queue.
  have hnone : (t.outbound = s.conn.outbound ∨ t.outbound = []) → Streamed { s with conn := t } →
      Streamed
        { conn := t
          taken := s.taken
          waiting := s.waiting ++
            (t.outbound.drop s.conn.outbound.length).map fun frame => ⟨frame, s.conn.calls⟩ } := by
    intro hout hnew
    have hdrop : t.outbound.drop s.conn.outbound.length = [] := by
      rcases hout with hout | hout <;> simp [hout]
    rw [hdrop, map_nil, append_nil]
    exact hnew
  have hquiet : t.traffic = s.conn.traffic → t.outbound = s.conn.outbound ∨ t.outbound = [] :=
    fun ht => .inl (congrArg Traffic.outbound ht)
  cases hd with
  | shift hshift => exact hnone hshift.outbound (h.shift hold hshift)
  | spawn hst ht hc => exact hnone (hquiet ht) (h.refuse hst ht (by simp [hc]))
  | attach hdis hst ht hc => exact hnone (hquiet ht) (h.attach hold hdis hst ht hc)
  | refuse status _ ht =>
    subst ht
    exact hnone (.inl rfl) (h.refuse rfl rfl rfl)
  | reject hid status _ ht =>
    subst ht
    cases hid <;> exact hnone (.inl rfl) (h.refuse rfl rfl rfl)
  | @accept s₁ id hid hready hfree encoded hencoded timed hst ht hc =>
    have hnew := hfresh.issues hid
    obtain ⟨n, rfl⟩ : ∃ n, s₁ = { s.conn with nextRequestId := n } := by
      cases hid <;> exact ⟨_, rfl⟩
    have hout : t.outbound = s.conn.outbound ++ [⟨id, encoded, false⟩] :=
      congrArg Traffic.outbound ht
    have hcount : t.calls = s.conn.calls + 1 := congrArg Traffic.calls ht
    have hpending : t.pendingCalls = s.conn.pendingCalls ++
        [{ coroutine := c, requestId := id, serial := s.conn.calls }] :=
      congrArg Traffic.pendingCalls ht
    -- First the call, then its frame.
    have hadd : Streamed { s with conn := { t with outbound := s.conn.outbound } } :=
      h.addCall (p := { coroutine := c, requestId := id, serial := s.conn.calls }) hold hready hfree
        hnew rfl rfl rfl hst (congrArg (fun T => { T with outbound := s.conn.outbound }) ht) hc
    have hdrop : t.outbound.drop s.conn.outbound.length = [⟨id, encoded, false⟩] := by
      rw [hout, drop_left]
    rw [hdrop]
    refine hadd.post (q := ⟨⟨id, encoded, false⟩, s.conn.calls⟩) (hst.trans hready)
      ⟨fun _ => ⟨?_, fun p hp => ?_⟩, (fun hc => by cases hc), .inl ⟨rfl, hencoded⟩⟩ rfl ?_ rfl
    · show s.conn.calls < t.calls
      omega
    · rcases mem_append.mp (hpending ▸ hp : p ∈ _ ++ _) with hp | hp
      · have hlt := h.calls.ledger.bound p.entry (mem_map_of_mem hp)
        exact ⟨fun hid => absurd hid (hfree p hp), fun hser => absurd hser (Nat.ne_of_lt hlt)⟩
      · rw [mem_singleton.mp hp]
        exact ⟨fun _ => rfl, fun _ => rfl⟩
    · simp [MultiplexedConnection.traffic, hout]
  | yield timed id rest hst ht hc | await offset rest hst ht hc | awaited offset rest hst ht hc =>
    refine hnone (hquiet ht) (h.recode hold hst ht hc (.refl _) (fun id' hid => .inl ?_) (.refl _))
    simpa using hid
  | wake id rest p hp hdone hst ht hc =>
    obtain ⟨hmem, hpid⟩ := find_some hp
    refine hnone (hquiet ht) (h.recode hold hst ht hc (.refl _) (fun id' hid => ?_) (.refl _))
    rcases mem_cons.mp hid with heq | hid
    · obtain rfl := Op.callEnd.inj heq
      refine .inr fun q hq hqid => ?_
      have heq := h.calls.ledger.eq_of_requestId (mem_map_of_mem hq) (mem_map_of_mem hmem)
        (hqid.trans hpid.symm)
      exact (congrArg Entry.completed heq).trans hdone
    · exact .inl (mem_cons_of_mem _ hid)
  | timeout id rest p hp hopen hshift =>
    obtain ⟨hmem, hpid⟩ := find_some hp
    have hs' : (s.conn.complete p .timeout p.response).callStack = c :: below := hs
    have hold' : (s.conn.complete p .timeout p.response).codes[c]? = _ := hold
    have hcomplete := h.complete hmem hopen .timeout p.response
    have hgo := hcomplete.recode hold' (goOn_state _ _) (traffic_goOn _ (.callEnd id :: rest))
      (codes_goOn hs' _) (.refl _) (ended_complete hpid) (.refl _)
    refine hnone ?_ (hgo.shift (codes_goOn_self hs' hold' _) hshift)
    exact hshift.outbound.imp_left fun hout => hout.trans
      (congrArg Traffic.outbound (traffic_goOn (s.conn.complete p .timeout p.response) _))
  | cancel id rest p hp hopen hsent hready encoded hencoded hst ht hc =>
    obtain ⟨hmem, hpid⟩ := find_some hp
    have hcomplete := h.complete hmem hopen .timeout p.response
    have hout : t.outbound = s.conn.outbound ++ [⟨id, encoded, true⟩] := congrArg Traffic.outbound ht
    have hgo : Streamed { s with conn := { t with outbound := s.conn.outbound } } := by
      have hview : ({ t with outbound := s.conn.outbound } : MultiplexedConnection).traffic =
          (s.conn.complete p .timeout p.response).traffic :=
        congrArg (fun T => { T with outbound := s.conn.outbound }) ht
      refine Streamed.recode (s := { s with conn := s.conn.complete p .timeout p.response })
        hcomplete hold hst hview hc (.refl _) (fun id' hid => ?_) (.refl _)
      exact ended_complete hpid id' ((mem_cons.mp hid).resolve_left (by simp))
    have hdrop : t.outbound.drop s.conn.outbound.length = [⟨id, encoded, true⟩] := by
      rw [hout, drop_left]
    rw [hdrop]
    refine hgo.post (q := ⟨⟨id, encoded, true⟩, s.conn.calls⟩) (hst.trans hready)
      ⟨fun hc => absurd hc (by simp), fun _ => ?_, .inr ⟨rfl, hencoded⟩⟩ rfl ?_ rfl
    · rw [← hpid]
      exact h.queued.sent p hmem hsent
    · simp [MultiplexedConnection.traffic, hout]
  | complete p hp hopen status response _ hshift =>
    exact hnone hshift.outbound ((h.complete hp hopen status response).shift hold hshift)
  | retire id rest p hp hst ht hc =>
    refine hnone (.inl ?_) (h.retire hold (find_some hp).2 hst ht hc)
    exact congrArg Traffic.outbound ht
  | take rest _ _ _ _ _ _ => exact absurd rfl (hloop rest)
  | write offset n rest hn op hop hshift =>
    have hs' : (s.conn.accepted offset n).callStack = c :: below := hs
    have hold' : (s.conn.accepted offset n).codes[c]? = _ := hold
    have haccepted := h.accepted hold hop (goOn_state (s.conn.accepted offset n) (op :: rest))
      (traffic_goOn _ _) (codes_goOn hs' _)
    refine hnone ?_ (haccepted.shift (codes_goOn_self hs' hold' _) hshift)
    exact hshift.outbound.imp_left fun hout => hout.trans
      (congrArg Traffic.outbound (traffic_goOn (s.conn.accepted offset n) _))

theorem step_writerLoop {conn : MultiplexedConnection} (hs : conn.callStack = c :: below)
    (hold : conn.codes[c]? = some (.writerLoop :: rest)) (ht : conn.step l = some t) :
    t = conn.writerLoop rest := by
  obtain ⟨c', below', x, hs', hx, hcases⟩ := step_cases ht
  cases hs.symm.trans hs'
  have hcode : x.code = .writerLoop :: rest := by simpa [codes, hx] using hold
  rw [hcode] at hcases
  obtain ⟨op, rest', heq, ht⟩ | ⟨hnil, -⟩ := hcases
  · cases heq
    cases opStep_cases ht with
    | writerLoop => rfl
  · cases hnil

theorem code_eq {conn : MultiplexedConnection} (hs : conn.callStack = c :: below)
    (hold : conn.codes[c]? = some old) : conn.code = old := by
  obtain ⟨x, hx, hcode⟩ : ∃ x, conn.coroutines[c]? = some x ∧ x.code = old := by
    simpa [codes] using hold
  simp [code, hs, hx, hcode]

theorem step (h : Streamed s) (hfresh : s.FreshId l) (ht : s.step l = some s') : Streamed s' := by
  obtain ⟨t, hstep, rfl⟩ := Option.map_eq_some_iff.mp ht
  obtain ⟨c, below, old, hs, hold, hdeed⟩ := Deed.of_step hstep
  have hcode := code_eq hs hold
  by_cases hloop : ∃ rest, old = .writerLoop :: rest
  · obtain ⟨rest, rfl⟩ := hloop
    obtain rfl := step_writerLoop hs hold hstep
    have hpopped : Traced.popped s.conn (s.conn.writerLoop rest) =
        s.conn.outbound.length - (s.conn.writerLoop rest).outbound.length := by
      rw [Traced.popped, hcode]
      rfl
    rw [hpopped]
    rcases Deed.writerLoop_cases hs rest with
      ⟨hshift, htr⟩ | ⟨frames, queue, hne, hqueue, hst, htr, hc⟩
    · have hout : (s.conn.writerLoop rest).outbound = s.conn.outbound :=
        congrArg Traffic.outbound htr
      simpa [hout] using h.shift hold hshift
    · have hout : (s.conn.writerLoop rest).outbound = queue := congrArg Traffic.outbound htr
      have hlen : s.conn.outbound.length - queue.length = frames.length := by
        rw [hqueue, length_append]
        omega
      have hdrop : queue.drop s.conn.outbound.length = [] := by
        rw [hqueue, length_append]
        exact drop_eq_nil_of_le (by omega)
      have htake := h.take hold hne hqueue hst htr hc
      rw [hout, hlen, hdrop]
      simpa using htake
  · have hpopped : Traced.popped s.conn t = 0 := by
      rw [Traced.popped, hcode, if_neg]
      intro hhead
      cases old with
      | nil => cases hhead
      | cons op rest => exact hloop ⟨rest, congrArg (· :: rest) (some.inj hhead)⟩
    rw [hpopped]
    simpa using h.deed hs hold hfresh hdeed fun rest heq => hloop ⟨rest, heq⟩

theorem of_reaches {limits : ConnectionLimits}
    (h : Reaches Traced.step Traced.FreshId (Traced.init limits) s) : Streamed s :=
  h.invariant (p := Streamed) (init limits) fun _ _ _ hi hfresh ht => hi.step hfresh ht

end Streamed

end CoroRpc.Client
