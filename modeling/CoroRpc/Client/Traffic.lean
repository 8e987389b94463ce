import CoroRpc.Client.ConnectionSteps

/-!
# What a step does to calls and frames

`ConnectionInvariant` is about runs in which no write fails under a call. The results on request
ids and on the byte stream hold of all runs, those included, and look at less: the calls and
frames that the connection knows (`Traffic`), the code its coroutines have still to run (`codes`)
and how far the connection is in its life (`rank`). This module says once what a step does to the
three.

Most steps do nothing to them (`Shift`): the running coroutine goes on with other code, none of
which writes or belongs to a call unless it was there before, and the connection may close, which
drops the queue. The rest is the list of `Deed`s.
-/

namespace CoroRpc.Client

open Lib Protocol CoroRpc.Runtime List Function MultiplexedConnection OutboundFrame PendingCall

/-! ## The view -/

/-- How far the connection is. -/
def ConnectionState.rank : ConnectionState → Nat
  | .disconnected | .connecting => 0
  | .ready => 1
  | .closing => 2
  | .closed => 3

theorem ConnectionState.rank_le_closed (st : ConnectionState) : st.rank ≤ closed.rank := by
  cases st <;> decide

namespace Op

/-- The writer between two `write`s. -/
def isWriting : Op → Bool
  | .writerLoop | .write _ | .writeAwaited _ => true
  | _ => false

/-- The code that carries a promise about the wire or about a call. -/
def isMarked (op : Op) : Bool := op.isWriting || op.callId.isSome

/-- Code that would report success for calls nobody has answered. -/
def completesOk : Op → Bool
  | .failConnection .ok | .completeAll _ .ok _ _ => true
  | _ => false

end Op

/-- The calls and the frames of a connection. -/
structure Traffic where
  nextRequestId : UInt64
  pendingCalls : List PendingCall
  outbound : List OutboundFrame
  writeBatch : Bytes
  calls : Nat
  completions : List Nat
  results : List CallResult
  wire : Bytes

/-- `new` keeps some of the promises of `old`, and makes none of its own. -/
structure Lesser (old new : List Op) : Prop where
  marked : (new.filter Op.isMarked).Sublist (old.filter Op.isMarked)
  faults : new.any Op.completesOk = true → old.any Op.completesOk = true

namespace MultiplexedConnection

def traffic (s : MultiplexedConnection) : Traffic where
  nextRequestId := s.nextRequestId
  pendingCalls := s.pendingCalls
  outbound := s.outbound
  writeBatch := s.writeBatch
  calls := s.calls
  completions := s.completions
  results := s.results
  wire := s.wire

/-- What the coroutines have still to run. -/
def codes (s : MultiplexedConnection) : List (List Op) := s.coroutines.map Coroutine.code

/-- Nothing happens to calls and frames, but the connection may close and drop its queue.
    Coroutine `c`, which was at `old`, goes on. -/
structure Shift (c : Nat) (old : List Op) (s t : MultiplexedConnection) : Prop where
  rank : s.state.rank ≤ t.state.rank
  traffic : t.traffic = s.traffic ∨
    (t.traffic = { s.traffic with outbound := [] } ∧ 2 ≤ t.state.rank)
  codes : ∃ code, t.codes = s.codes.set c code ∧ Lesser old code

/-- Nothing happens at all but the change of who runs. -/
structure Same (s t : MultiplexedConnection) : Prop where
  state : t.state = s.state
  traffic : t.traffic = s.traffic
  codes : t.codes = s.codes

end MultiplexedConnection

namespace Lesser

variable {old new code : List Op} {op : Op}

theorem refl (code : List Op) : Lesser code code := ⟨.refl _, fun h => h⟩

theorem trans (h : Lesser old new) (h' : Lesser new code) : Lesser old code :=
  ⟨h'.marked.trans h.marked, fun hf => h.faults (h'.faults hf)⟩

theorem nil (old : List Op) : Lesser old [] := ⟨nil_sublist _, fun h => absurd h (by simp)⟩

theorem tail (op : Op) (rest : List Op) : Lesser (op :: rest) rest := by
  refine ⟨(sublist_cons_self op rest).filter _, fun h => ?_⟩
  rw [any_cons, h, Bool.or_true]

theorem push (h : Lesser old new) (hmark : op.isMarked = false) (hok : op.completesOk = false) :
    Lesser old (op :: new) := by
  refine ⟨?_, fun hf => h.faults ?_⟩
  · rw [filter_cons_of_neg (by simp [hmark])]
    exact h.marked
  · rwa [any_cons, hok, Bool.false_or] at hf

theorem pushFault (h : Lesser old new) (hmark : op.isMarked = false)
    (hok : op.completesOk = true → old.any Op.completesOk = true) : Lesser old (op :: new) := by
  refine ⟨?_, fun hf => ?_⟩
  · rw [filter_cons_of_neg (by simp [hmark])]
    exact h.marked
  · rw [any_cons, Bool.or_eq_true] at hf
    exact hf.elim hok h.faults

theorem filterMap {β : Type} (h : Lesser old new) {f : Op → Option β}
    (hf : ∀ op, op.isMarked = false → f op = none) :
    (new.filterMap f).Sublist (old.filterMap f) := by
  have hmarked : ∀ code : List Op, code.filterMap f = (code.filter Op.isMarked).filterMap f := by
    intro code
    induction code with
    | nil => rfl
    | cons op code ih =>
      cases hop : op.isMarked with
      | true => rw [filter_cons_of_pos hop, filterMap_cons, filterMap_cons, ih]
      | false => rw [filter_cons_of_neg (by simp [hop]), filterMap_cons, hf op hop, ih]
  rw [hmarked new, hmarked old]
  exact h.marked.filterMap f

theorem mem_of_isMarked (h : Lesser old new) (hmark : op.isMarked = true) (hop : op ∈ new) :
    op ∈ old :=
  (mem_filter.mp (h.marked.subset (mem_filter.mpr ⟨hop, hmark⟩))).1

end Lesser

namespace MultiplexedConnection

section
variable {s t u : MultiplexedConnection} {c : Nat} {below : List Nat} {old code rest : List Op}

/-! ## Moves of the call stack -/

theorem traffic_goOn (s : MultiplexedConnection) (code : List Op) :
    (s.goOn code).traffic = s.traffic := by
  unfold MultiplexedConnection.goOn
  split <;> rfl

theorem map_code_modify (cos : List Coroutine) (c : Nat) {f : Coroutine → Coroutine}
    (h : ∀ x, (f x).code = code) :
    (cos.modify c f).map Coroutine.code = (cos.map Coroutine.code).set c code := by
  apply ext_getElem?
  intro d
  rw [getElem?_map, getElem?_modify, getElem?_set, getElem?_map, length_map]
  cases hd : cos[d]? with
  | none =>
    have := getElem?_eq_none_iff.mp hd
    split
    · next hcd =>
      rw [if_neg (by omega)]
      rfl
    · rfl
  | some x =>
    obtain ⟨hlt, -⟩ := List.getElem?_eq_some_iff.mp hd
    split
    · next hcd =>
      subst hcd
      rw [if_pos hlt]
      exact congrArg some (h x)
    · rfl

theorem codes_goOn (hs : s.callStack = c :: below) (code : List Op) :
    (s.goOn code).codes = s.codes.set c code := by
  rw [Inv.goOn_eq hs]
  exact map_code_modify _ _ fun _ => rfl

theorem codes_goOn_self (hs : s.callStack = c :: below) (hold : s.codes[c]? = some old)
    (code : List Op) : (s.goOn code).codes[c]? = some code := by
  obtain ⟨hlt, -⟩ := List.getElem?_eq_some_iff.mp hold
  rw [codes_goOn hs, List.getElem?_set_self hlt]

theorem codes_leave (hs : s.callStack = c :: below) (state : CoroutineState) (code : List Op) :
    (s.leave state code).codes = s.codes.set c code := by
  unfold leave
  rw [hs]
  exact map_code_modify _ _ fun _ => rfl

theorem traffic_leave (s : MultiplexedConnection) (state : CoroutineState) (code : List Op) :
    (s.leave state code).traffic = s.traffic := by
  unfold leave
  split <;> rfl

theorem state_leave (s : MultiplexedConnection) (state : CoroutineState) (code : List Op) :
    (s.leave state code).state = s.state := by
  unfold leave
  split <;> rfl

theorem codes_of_getElem? {x : Coroutine} (hx : s.coroutines[c]? = some x) :
    s.codes[c]? = some x.code := by
  rw [codes, getElem?_map, hx]
  rfl

theorem codes_closeSocket (s : MultiplexedConnection) : s.closeSocket.codes = s.codes := by
  unfold closeSocket
  split
  · unfold codes
    rw [map_map]
    refine map_congr_left fun x _ => ?_
    dsimp only [comp_apply]
    split <;> rfl
  · rfl

theorem codes_disconnect (s : MultiplexedConnection) : s.disconnect.codes = s.codes :=
  codes_closeSocket s

theorem traffic_disconnect (s : MultiplexedConnection) :
    s.disconnect.traffic = { s.traffic with outbound := [] } := by
  unfold disconnect closeSocket
  split <;> rfl

theorem traffic_complete (h : t.traffic = s.traffic) (p : PendingCall) (status : CallStatus)
    (response : Option Frame) :
    (t.complete p status response).traffic = (s.complete p status response).traffic := by
  simp only [traffic, Traffic.mk.injEq] at h ⊢
  simp only [complete, setPending, h, and_self]

namespace Same

theorem refl (s : MultiplexedConnection) : Same s s := ⟨rfl, rfl, rfl⟩

theorem setCoroutine (c : Nat) {f : Coroutine → Coroutine} (hf : ∀ x, (f x).code = x.code) :
    Same s (s.setCoroutine c f) :=
  ⟨rfl, rfl, map_modify_eq hf⟩

theorem enter (s : MultiplexedConnection) (c : Nat) : Same s (s.enter c) :=
  ⟨rfl, rfl, map_modify_eq fun _ => rfl⟩

theorem wakeWriter (s : MultiplexedConnection) : Same s s.wakeWriter := by
  unfold MultiplexedConnection.wakeWriter
  split
  · next w hw =>
    split
    · next x hx =>
      split
      · next hst =>
        rw [MultiplexedConnection.resume, hx]
        simp only [hst]
        exact .enter s w
      · exact .refl s
    · exact .refl s
  · exact .refl s

end Same

namespace Shift

theorem same (h : Shift c old s t) (h' : Same t u) : Shift c old s u where
  rank := h'.state ▸ h.rank
  traffic := by
    rw [h'.traffic, h'.state]
    exact h.traffic
  codes := by
    rw [h'.codes]
    exact h.codes

theorem rebase (h : Shift c old t u) (h' : Same s t) : Shift c old s u where
  rank := h'.state ▸ h.rank
  traffic := by
    rw [← h'.traffic]
    exact h.traffic
  codes := by
    rw [← h'.codes]
    exact h.codes

theorem refl (hold : s.codes[c]? = some old) : Shift c old s s := by
  obtain ⟨hlt, hget⟩ := List.getElem?_eq_some_iff.mp hold
  refine ⟨Nat.le_refl _, .inl rfl, old, ?_, .refl old⟩
  rw [← hget, List.set_getElem_self]

theorem trans (hold : s.codes[c]? = some old) (h : Shift c old s t)
    (h' : ∀ code, t.codes[c]? = some code → Shift c code t u) : Shift c old s u := by
  obtain ⟨code, hcode, hless⟩ := h.codes
  obtain ⟨hlt, -⟩ := List.getElem?_eq_some_iff.mp hold
  have ht := h' code (by rw [hcode, List.getElem?_set_self hlt])
  obtain ⟨code', hcode', hless'⟩ := ht.codes
  refine ⟨Nat.le_trans h.rank ht.rank, ?_, code', ?_, hless.trans hless'⟩
  · rcases ht.traffic with htr | ⟨htr, hr⟩
    · rw [htr]
      exact h.traffic.imp_right fun ⟨hc, hr⟩ => ⟨hc, Nat.le_trans hr ht.rank⟩
    · rcases h.traffic with hts | ⟨hts, -⟩ <;> rw [htr, hts] <;> exact .inr ⟨rfl, hr⟩
  · rw [hcode', hcode, set_set]

theorem outbound (h : Shift c old s t) : t.outbound = s.outbound ∨ t.outbound = [] := by
  rcases h.traffic with ht | ⟨ht, -⟩
  · exact .inl (congrArg Traffic.outbound ht)
  · exact .inr (congrArg Traffic.outbound ht)

section
variable (hs : s.callStack = c :: below)
include hs

theorem goOn (h : Lesser old code) : Shift c old s (s.goOn code) :=
  ⟨Nat.le_of_eq (by rw [goOn_state]), .inl (traffic_goOn s code), code, codes_goOn hs code, h⟩

theorem leave (state : CoroutineState) (h : Lesser old code) : Shift c old s (s.leave state code) :=
  ⟨Nat.le_of_eq (by rw [state_leave]), .inl (traffic_leave s state code), code, codes_leave hs state code, h⟩

theorem throw (hold : s.codes[c]? = some old) : Shift c old s s.throw := by
  unfold MultiplexedConnection.throw
  rw [hs]
  dsimp only
  split
  · split
    · exact leave hs _ (.nil old)
    · exact goOn hs (.nil old)
  · exact refl hold

theorem resume (hold : s.codes[c]? = some old) (d : Nat) : Shift c old s (s.resume d) := by
  unfold MultiplexedConnection.resume
  split
  · exact throw hs hold
  · split
    · exact refl hold
    · exact (refl hold).same (.enter s d)
    · exact (refl hold).same (.enter s d)
    · exact (refl hold).same (.enter s d)
    · exact throw hs hold
    · exact throw hs hold
    · exact throw hs hold

theorem ofGoOn (h : Shift c old s t) (code : List Op) : Shift c old (s.goOn code) t where
  rank := by
    rw [goOn_state]
    exact h.rank
  traffic := by
    rw [traffic_goOn]
    exact h.traffic
  codes := by
    obtain ⟨code', hcode, hless⟩ := h.codes
    refine ⟨code', ?_, hless⟩
    rw [codes_goOn hs, set_set, hcode]

theorem goOnResume (hold : s.codes[c]? = some old) (h : Lesser old rest) (d : Nat) :
    Shift c old s ((s.goOn rest).resume d) :=
  trans hold (goOn hs h) fun _ hcode => resume (by rw [goOn_callStack, hs]) hcode d

end

/-! ## Functions of the connection -/

section
variable (hs : s.callStack = c :: below) (h : Lesser old rest)
include hs h

theorem endCompleteAll (inClose : Bool) (entry : List Nat) :
    Shift c old s (s.endCompleteAll inClose entry rest) := by
  have hcode : Lesser old (.returned entry :: rest) := h.push rfl rfl
  refine same ?_ (.wakeWriter _)
  cases inClose with
  | false => exact goOn hs hcode
  | true =>
    refine ⟨?_, .inl (traffic_goOn _ _), _, codes_goOn (s := { s with state := .closed }) hs _, hcode⟩
    rw [goOn_state]
    exact s.state.rank_le_closed

/-- The descriptor is closed and the queue is dropped; then comes `CompleteAllPending`. -/
theorem completeAllPending {st : ConnectionState} (order : List UInt64) {status : CallStatus}
    (inClose : Bool) (entry : List Nat) (hok : status = .ok → old.any Op.completesOk = true)
    (hst : 2 ≤ st.rank) (hrank : s.state.rank ≤ st.rank) :
    Shift c old s ({ s.disconnect with state := st }.completeAllPending order status inClose entry
      rest) := by
  have hs' : { s.disconnect with state := st }.callStack = c :: below :=
    (disconnect_callStack s).trans hs
  have hbase : ∀ {u}, Shift c old { s.disconnect with state := st } u →
      Shift c old s u := by
    intro u hu
    obtain ⟨code, hcode, hless⟩ := hu.codes
    refine ⟨Nat.le_trans hrank hu.rank, .inr ⟨?_, Nat.le_trans hst hu.rank⟩, code, ?_, hless⟩
    · rcases hu.traffic with ht | ⟨ht, -⟩ <;> rw [ht] <;> exact traffic_disconnect s
    · rw [hcode]
      exact congrArg (List.set · c code) (codes_disconnect s)
  unfold MultiplexedConnection.completeAllPending
  split
  · exact hbase (endCompleteAll hs' h inClose entry)
  · refine hbase (goOn hs' (h.pushFault rfl fun hf => hok ?_))
    cases status <;> first | rfl | exact absurd hf (by simp [Op.completesOk])

/-- `Close` drops the queue; the calls are completed in steps of their own. -/
theorem close (order : List UInt64) : Shift c old s (s.close order rest) := by
  unfold MultiplexedConnection.close
  split
  · exact goOn hs (h.push rfl rfl)
  · next hst =>
    rw [disconnect_setState]
    refine completeAllPending hs h order true _ (fun hc => by cases hc) (by decide) ?_
    cases hs' : s.state with
    | closed => exact absurd (.inl hs') hst
    | disconnected | connecting | ready | closing => decide

theorem failConnection {status : CallStatus} (hok : status = .ok → old.any Op.completesOk = true)
    (order : List UInt64) : Shift c old s (s.failConnection status order rest) := by
  unfold MultiplexedConnection.failConnection
  split
  · exact goOn hs (h.push rfl rfl)
  · exact completeAllPending hs h order false _ hok (by decide) s.state.rank_le_closed

theorem maybeFinishDrain : Shift c old s (s.maybeFinishDrain rest) := by
  unfold MultiplexedConnection.maybeFinishDrain
  split
  · exact close hs h []
  · exact goOn hs h

end

end Shift

end

end MultiplexedConnection

/-! ## The batch -/

/-- The call is marked as sent if its REQUEST is among the frames. -/
def PendingCall.mark (frames : List OutboundFrame) (p : PendingCall) : PendingCall :=
  { p with sent := p.sent || frames.any fun f => !f.control && f.requestId == p.requestId }

theorem PendingCall.mark_nil : mark [] = id := by
  funext p
  simp [mark]

theorem PendingCall.mark_append (frames frames' : List OutboundFrame) (p : PendingCall) :
    (p.mark frames).mark frames' = p.mark (frames ++ frames') := by
  simp [mark, Bool.or_assoc]

namespace MultiplexedConnection

/-- What the writer puts into its batch: control frames, and the REQUESTs that find an unfinished
    call under their id. -/
def keeps (s : MultiplexedConnection) (frame : OutboundFrame) : Bool :=
  frame.control || (s.find frame.requestId).any fun p => !p.completed

/-- Calls are found under their ids, marked or not. -/
theorem find_map_mark {s t : MultiplexedConnection} {frames : List OutboundFrame}
    (h : t.pendingCalls = s.pendingCalls.map (mark frames)) (id : UInt64) :
    t.find id = (s.find id).map (mark frames) := by
  rw [find, h, find?_map]
  rfl

theorem keeps_map_mark {s t : MultiplexedConnection} {frames : List OutboundFrame}
    (h : t.pendingCalls = s.pendingCalls.map (mark frames)) : t.keeps = s.keeps := by
  funext frame
  rw [keeps, keeps, find_map_mark h]
  cases s.find frame.requestId <;> rfl

theorem setPending_sent (s : MultiplexedConnection) {frame : OutboundFrame}
    (h : frame.control = false) :
    (s.setPending frame.requestId fun p => { p with sent := true }).pendingCalls =
      s.pendingCalls.map (mark [frame]) := by
  refine map_congr_left fun p _ => ?_
  by_cases hid : p.requestId = frame.requestId
  · simp [mark, h, hid]
  · have hne : (frame.requestId == p.requestId) = false := by simpa using Ne.symm hid
    simp [mark, hid, hne]

/-- **The inner loop of the writer** takes frames from the front of the queue, puts those it keeps
    into the batch and marks their calls as sent. -/
theorem fillBatch_spec : ∀ (queue : List OutboundFrame) (s : MultiplexedConnection),
    ∃ taken rest, queue = taken ++ rest ∧ (fillBatch queue s).traffic = { s.traffic with
        outbound := rest
        writeBatch := s.writeBatch ++ (taken.filter s.keeps).flatMap bytes
        pendingCalls := s.pendingCalls.map (mark (taken.filter s.keeps)) }
  | [], s => ⟨[], [], rfl, by simp [fillBatch, traffic, mark_nil]⟩
  | frame :: queue, s => by
    -- The rest of the loop, from `t`: `frame` is taken and marks what `kept` says.
    have hrec : ∀ (t : MultiplexedConnection) (kept : List OutboundFrame),
        kept = [frame].filter s.keeps →
        t.traffic = { s.traffic with
          writeBatch := s.writeBatch ++ kept.flatMap bytes
          pendingCalls := s.pendingCalls.map (mark kept) } →
        ∃ taken rest, frame :: queue = taken ++ rest ∧
          (fillBatch queue t).traffic = { s.traffic with
            outbound := rest
            writeBatch := s.writeBatch ++ (taken.filter s.keeps).flatMap bytes
            pendingCalls := s.pendingCalls.map (mark (taken.filter s.keeps)) } := by
      rintro t kept hkept ht
      obtain ⟨taken, rest, rfl, hfill⟩ := fillBatch_spec queue t
      have hpending : t.pendingCalls = s.pendingCalls.map (mark kept) :=
        congrArg Traffic.pendingCalls ht
      have hbatch : t.writeBatch = s.writeBatch ++ kept.flatMap bytes :=
        congrArg Traffic.writeBatch ht
      refine ⟨frame :: taken, rest, rfl, ?_⟩
      have hfilter : (frame :: taken).filter s.keeps = kept ++ taken.filter s.keeps := by
        rw [hkept, ← filter_append, singleton_append]
      rw [hfill, ht, hpending, hbatch, keeps_map_mark hpending, hfilter, map_map,
        flatMap_append, append_assoc]
      simp only [comp_def, mark_append]
    unfold fillBatch
    dsimp only
    split
    · split
      · next hcontrol =>
        refine hrec _ [frame] (by simp [keeps, hcontrol]) ?_
        have hmark : mark [frame] = id := by
          funext p
          simp [mark, hcontrol]
        simp [traffic, hmark]
      · next hcontrol =>
        replace hcontrol : frame.control = false := by simpa using hcontrol
        have hskip : ∀ t : MultiplexedConnection, t.traffic = s.traffic →
            s.keeps frame = false → _ := fun t ht hkeep =>
          hrec t [] (by simp [hkeep]) (by simp [ht, mark_nil]; rfl)
        split
        · next hfind =>
          refine hskip { s with outboundBytes := _ } rfl ?_
          have : s.find frame.requestId = none := hfind
          simp [keeps, hcontrol, this]
        · next p hfind =>
          replace hfind : s.find frame.requestId = some p := hfind
          split
          · next hdone =>
            refine hskip { s with outboundBytes := _ } rfl ?_
            simp [keeps, hcontrol, hfind, hdone]
          · next hopen =>
            refine hrec _ [frame] (by simp [keeps, hcontrol, hfind, hopen]) ?_
            rw [flatMap_singleton]
            exact congrArg (fun calls => { s.traffic with
              writeBatch := s.writeBatch ++ frame.bytes, pendingCalls := calls })
              (setPending_sent s hcontrol)
    · exact ⟨[], frame :: queue, rfl, by simp [traffic, mark_nil]⟩

/-- Nothing else that the view shows changes in this loop. -/
theorem fillBatch_view : ∀ queue s,
    (fillBatch queue s).state = s.state ∧ (fillBatch queue s).callStack = s.callStack ∧
      (fillBatch queue s).coroutines = s.coroutines
  | [], _ => ⟨rfl, rfl, rfl⟩
  | frame :: queue, s => by
    unfold fillBatch
    dsimp only
    split
    · split
      · exact fillBatch_view queue _
      · split
        · exact fillBatch_view queue _
        · split
          · exact fillBatch_view queue _
          · exact fillBatch_view queue _
    · exact ⟨rfl, rfl, rfl⟩

end MultiplexedConnection

/-! ## Steps -/

/-- The id that a call gets, and the connection once it has it. -/
inductive Issues (s : MultiplexedConnection) : Label → MultiplexedConnection → UInt64 → Prop
  | metadata (metadata : RequestMetadata) (body : Bytes) (timeoutMs : Nat) :
    Issues s (.callMetadata metadata body timeoutMs) s.takeRequestId.1 s.nextRequestId
  | automatic (request : Frame) (timeoutMs : Nat) (hzero : request.header.requestId = 0) :
    Issues s (.call request timeoutMs) s.takeRequestId.1 s.nextRequestId
  | chosen (request : Frame) (timeoutMs : Nat) (hid : request.header.requestId ≠ 0) :
    Issues s (.call request timeoutMs) s request.header.requestId

variable (requestId : UInt64)

/-- `encoded` is a whole REQUEST frame with this id. -/
def IsRequest (encoded : Bytes) : Prop :=
  (∃ frame : Frame, frame.header.messageType = .request ∧ frame.header.requestId = requestId ∧
    FrameEncoder.encode frame = .ok encoded) ∨
  ∃ metadata body, FrameEncoder.encodeRequest metadata body requestId = .ok encoded

def cancelFrame : Frame :=
  ⟨{ messageType := .cancel, requestId := requestId }, [], []⟩

/-- The response is there, is a RESPONSE and carries this id. -/
def Answers (response : Option Frame) : Prop :=
  ∃ frame, response = some frame ∧ frame.header.messageType = .response ∧
    frame.header.requestId = requestId

namespace MultiplexedConnection

variable (s : MultiplexedConnection)

/-- `CallEncoded` has put the call into `pending_calls_` and its frame behind the queue. -/
def accept (c : Nat) (requestId : UInt64) (encoded : Bytes) :
    MultiplexedConnection :=
  { s.enqueue ⟨requestId, encoded, false⟩ with
    pendingCalls := s.pendingCalls ++
      [{ coroutine := c, requestId := requestId, serial := s.calls }]
    calls := s.calls + 1 }

/-- The call is taken out of `pending_calls_` and returns. -/
def retire (p : PendingCall) : MultiplexedConnection :=
  { s with
    pendingCalls := s.pendingCalls.filter (·.requestId != p.requestId)
    results := s.results ++ [⟨some p.serial, p.requestId, p.status, p.response⟩] }

/-- `write` has accepted `n` bytes of the batch, from this offset on. -/
def accepted (offset n : Nat) : MultiplexedConnection :=
  { s with wire := s.wire ++ (s.writeBatch.drop offset).take n }

end MultiplexedConnection

open MultiplexedConnection in
/-- What a step of coroutine `c`, which is at the given code, does to calls and frames. -/
inductive Deed (s t : MultiplexedConnection) (c : Nat) : Label → List Op → Prop
  | shift {l : Label} {old : List Op} (h : Shift c old s t) : Deed s t c l old
  | spawn {l : Label} {old : List Op} (hst : t.state = s.state) (ht : t.traffic = s.traffic)
    (hc : t.codes = s.codes ++ [[]]) : Deed s t c l old
  | attach {l : Label} (hfresh : s.state = .disconnected) (hst : t.state = .ready)
    (ht : t.traffic = s.traffic)
    (hc : t.codes = s.codes.set c [.startReader, .startWriter] ++ [[.readerLoop], [.writerLoop]]) :
    Deed s t c l []
  /-- A call that gets no id. -/
  | refuse {l : Label} (status : CallStatus) (hok : status ≠ .ok) (ht : t = s.refuse 0 status) :
    Deed s t c l []
  /-- A call that gets an id and is refused. -/
  | reject {l : Label} {s₁ : MultiplexedConnection} {id : UInt64} (hid : Issues s l s₁ id)
    (status : CallStatus) (hok : status ≠ .ok) (ht : t = s₁.refuse id status) : Deed s t c l []
  | accept {l : Label} {s₁ : MultiplexedConnection} {id : UInt64} (hid : Issues s l s₁ id)
    (hready : s.state = .ready) (hfree : ∀ p ∈ s.pendingCalls, p.requestId ≠ id) (encoded : Bytes)
    (hencoded : IsRequest id encoded) (timed : Bool) (hst : t.state = s.state)
    (ht : t.traffic = (s₁.accept c id encoded).traffic)
    (hc : t.codes = s.codes.set c [.yieldCall timed id]) : Deed s t c l []
  | yield {l : Label} (timed : Bool) (id : UInt64) (rest : List Op) (hst : t.state = s.state)
    (ht : t.traffic = s.traffic) (hc : t.codes = s.codes.set c (.callResumed id :: rest)) :
    Deed s t c l (.yieldCall timed id :: rest)
  /-- The caller finds its call completed. -/
  | wake {l : Label} (id : UInt64) (rest : List Op) (p : PendingCall) (hp : s.find id = some p)
    (hdone : p.completed = true) (hst : t.state = s.state) (ht : t.traffic = s.traffic)
    (hc : t.codes = s.codes.set c (.callEnd id :: rest)) : Deed s t c l (.callResumed id :: rest)
  | timeout {l : Label} (id : UInt64) (rest : List Op) (p : PendingCall) (hp : s.find id = some p)
    (hopen : p.completed = false)
    (h : Shift c (.callEnd id :: rest)
      ((s.complete p .timeout p.response).goOn (.callEnd id :: rest)) t) :
    Deed s t c l (.callResumed id :: rest)
  /-- The call has timed out and its REQUEST is on its way. -/
  | cancel {l : Label} (id : UInt64) (rest : List Op) (p : PendingCall) (hp : s.find id = some p)
    (hopen : p.completed = false) (hsent : p.sent = true) (hready : s.state = .ready)
    (encoded : Bytes) (hencoded : FrameEncoder.encode (cancelFrame id) = .ok encoded)
    (hst : t.state = s.state)
    (ht : t.traffic = ((s.complete p .timeout p.response).enqueue ⟨id, encoded, true⟩).traffic)
    (hc : t.codes = s.codes.set c (.maybeFinishDrain :: .callEnd id :: rest)) :
    Deed s t c l (.callResumed id :: rest)
  | complete {l : Label} {old : List Op} (p : PendingCall) (hp : p ∈ s.pendingCalls)
    (hopen : p.completed = false) (status : CallStatus) (response : Option Frame)
    (hok : status = .ok → Answers p.requestId response ∨ old.any Op.completesOk = true)
    (h : Shift c old (s.complete p status response) t) : Deed s t c l old
  | retire {l : Label} (id : UInt64) (rest : List Op) (p : PendingCall) (hp : s.find id = some p)
    (hst : t.state = s.state) (ht : t.traffic = (s.retire p).traffic)
    (hc : t.codes = s.codes.set c rest) : Deed s t c l (.callEnd id :: rest)
  /-- The writer fills its batch. -/
  | take {l : Label} (rest : List Op) (taken queue : List OutboundFrame)
    (hqueue : s.outbound = taken ++ queue) (hst : t.state = s.state)
    (ht : t.traffic = { s.traffic with
      outbound := queue
      writeBatch := (taken.filter s.keeps).flatMap bytes
      pendingCalls := s.pendingCalls.map (mark (taken.filter s.keeps)) })
    (hc : t.codes = s.codes.set c ((if t.writeBatch = [] then .writerLoop else .write 0) :: rest)) :
    Deed s t c l (.writerLoop :: rest)
  | write {l : Label} (offset n : Nat) (rest : List Op) (hn : offset + n ≤ s.writeBatch.length)
    (op : Op)
    (hop : op = if offset + n < s.writeBatch.length then .write (offset + n) else .writerLoop)
    (h : Shift c (op :: rest) ((s.accepted offset n).goOn (op :: rest)) t) :
    Deed s t c l (.write offset :: rest)
  | await {l : Label} (offset : Nat) (rest : List Op) (hst : t.state = s.state)
    (ht : t.traffic = s.traffic) (hc : t.codes = s.codes.set c (.writeAwaited offset :: rest)) :
    Deed s t c l (.write offset :: rest)
  | awaited {l : Label} (offset : Nat) (rest : List Op) (hst : t.state = s.state)
    (ht : t.traffic = s.traffic) (hc : t.codes = s.codes.set c (.write offset :: rest)) :
    Deed s t c l (.writeAwaited offset :: rest)

namespace Deed

open MultiplexedConnection

variable {s t : MultiplexedConnection} {c : Nat} {below : List Nat} {old rest : List Op} {l : Label}

/-- In a connection `s₁` that differs from `s` in what the view does not show. -/
theorem completePending {s₁ : MultiplexedConnection} (hsame : Same s s₁)
    (hs : s₁.callStack = c :: below) (hrest : Lesser old rest) {p : PendingCall}
    (hp : p ∈ s.pendingCalls) {status : CallStatus} {response : Option Frame}
    (hok : status = .ok → Answers p.requestId response ∨ old.any Op.completesOk = true) :
    Deed s (s₁.completePending p status response rest) c l old := by
  unfold MultiplexedConnection.completePending
  split
  · exact .shift ((Shift.goOn hs hrest).rebase hsame)
  · next hopen =>
    refine .complete p hp (by simpa using hopen) status response hok ?_
    refine (Shift.maybeFinishDrain (s := s₁.complete p status response) hs
      (hrest.push rfl rfl)).rebase ⟨hsame.state, ?_, hsame.codes⟩
    exact traffic_complete hsame.traffic p status response

section
variable (hs : s.callStack = c :: below) (hrest : Lesser old rest)
include hs hrest

theorem readFailed : Deed s (s.readFailed rest) c l old :=
  .shift ((Shift.goOn (s := { s with decoder := (s.decoder.commitWritable 0).1 }) hs
    ((hrest.push rfl rfl).push rfl rfl)).rebase ⟨rfl, rfl, rfl⟩)

theorem writeFailed : Deed s (s.writeFailed rest) c l old :=
  .shift (.goOn hs ((hrest.push rfl rfl).push rfl rfl))

/-- A RESPONSE completes the call with its id, if there is one. -/
theorem decodeNext : Deed s (s.decodeNext rest) c l old := by
  have hgo : ∀ d late {code}, Lesser old code →
      Deed s (({ s with decoder := d, lateResponses := late } : MultiplexedConnection).goOn code)
        c l old := by
    intro d late code hcode
    exact .shift ((Shift.goOn (s := { s with decoder := d, lateResponses := late }) hs hcode).rebase
      ⟨rfl, rfl, rfl⟩)
  unfold MultiplexedConnection.decodeNext
  split
  · exact hgo _ s.lateResponses (hrest.push rfl rfl)
  · next d frame _ =>
    dsimp only
    split
    · exact hgo d s.lateResponses ((hrest.push rfl rfl).push rfl rfl)
    · next htype =>
      split
      · next p hfind =>
        obtain ⟨hp, hid⟩ := find_some hfind
        have hcode : Lesser old (.decodeNext :: rest) := hrest.push rfl rfl
        have hsame : Same s { s with decoder := d } := ⟨rfl, rfl, rfl⟩
        refine completePending hsame hs hcode hp fun _ => .inl ?_
        exact ⟨frame, rfl, by simpa using htype, hid.symm⟩
      · exact hgo d _ (hrest.push rfl rfl)
  · exact hgo _ s.lateResponses ((hrest.push rfl rfl).push rfl rfl)

theorem readReturns {offset : Nat} {result : ReadResult} (hold : s.codes[c]? = some old)
    (ht : s.readReturns offset rest result = some t) : Deed s t c l old := by
  have hgo : ∀ d {code}, Lesser old code →
      Deed s (({ s with decoder := d } : MultiplexedConnection).goOn code) c l old := by
    intro d code hcode
    exact .shift ((Shift.goOn (s := { s with decoder := d }) hs hcode).rebase ⟨rfl, rfl, rfl⟩)
  unfold MultiplexedConnection.readReturns at ht
  split at ht
  · split at ht
    · cases ht
    · dsimp only at ht
      split at ht <;> cases ht
      · exact hgo _ ((hrest.push rfl rfl).push rfl rfl)
      · exact hgo _ (hrest.push rfl rfl)
  · cases ht
    exact readFailed hs hrest
  · cases ht
    exact readFailed hs hrest
  · cases ht
    exact .shift (.leave hs _ (hrest.push rfl rfl))
  · cases ht
    exact .shift (.refl hold)

end

section
variable (hs : s.callStack = c :: below)
include hs

/-- The writer at the head of its loop suspends or ends, or it fills its batch. -/
theorem writerLoop_cases (rest : List Op) : (Shift c (.writerLoop :: rest) s (s.writerLoop rest) ∧
      (s.writerLoop rest).traffic = s.traffic) ∨
    ∃ taken queue, s.outbound ≠ [] ∧ s.outbound = taken ++ queue ∧
      (s.writerLoop rest).state = s.state ∧
      (s.writerLoop rest).traffic = { s.traffic with
        outbound := queue
        writeBatch := (taken.filter s.keeps).flatMap bytes
        pendingCalls := s.pendingCalls.map (mark (taken.filter s.keeps)) } ∧
      (s.writerLoop rest).codes = s.codes.set c
        ((if (s.writerLoop rest).writeBatch = [] then .writerLoop else .write 0) :: rest) := by
  unfold writerLoop
  split
  · split
    · exact .inl ⟨.leave hs _ (.refl _), traffic_leave _ _ _⟩
    · next hne =>
      obtain ⟨taken, queue, hqueue, htraffic⟩ := fillBatch_spec s.outbound { s with writeBatch := [] }
      obtain ⟨hst, hfs, hco⟩ := fillBatch_view s.outbound { s with writeBatch := [] }
      dsimp only
      generalize fillBatch s.outbound { s with writeBatch := [] } = filled at htraffic hst hfs hco ⊢
      refine .inr ⟨taken, queue, hne, hqueue, ?_⟩
      have hbatch : ∀ code, (filled.goOn code).writeBatch = filled.writeBatch := fun code =>
        congrArg Traffic.writeBatch (traffic_goOn filled code)
      have hcodes : ∀ code, (filled.goOn code).codes = s.codes.set c code := by
        intro code
        rw [codes_goOn (hfs.trans hs)]
        exact congrArg (List.set · c code) (congrArg (List.map Coroutine.code) hco)
      split <;> refine ⟨(goOn_state _ _).trans hst, (traffic_goOn _ _).trans htraffic, ?_⟩ <;>
        rw [hcodes, hbatch]
      · next hempty => rw [if_pos hempty]
      · next hempty => rw [if_neg hempty]
  · exact .inl ⟨(Shift.leave (s := { s with writer := none }) hs _ (.nil _)).rebase ⟨rfl, rfl, rfl⟩,
      traffic_leave _ _ _⟩

theorem writerLoop : Deed s (s.writerLoop rest) c l (.writerLoop :: rest) := by
  rcases writerLoop_cases hs rest with ⟨hshift, -⟩ | ⟨taken, queue, -, hqueue, hst, ht, hc⟩
  · exact .shift hshift
  · exact .take rest taken queue hqueue hst ht hc

theorem writeReturns {offset : Nat} {result : WriteResult}
    (hold : s.codes[c]? = some (.write offset :: rest))
    (ht : s.writeReturns offset rest result = some t) :
    Deed s t c l (.write offset :: rest) := by
  unfold MultiplexedConnection.writeReturns at ht
  split at ht
  · next n =>
    split at ht
    · cases ht
    · next hn =>
      rw [not_or, Nat.not_lt] at hn
      change (if offset + n < s.writeBatch.length
        then some ((s.accepted offset n).goOn (.write (offset + n) :: rest))
        else some ((s.accepted offset n).maybeFinishDrain (.writerLoop :: rest))) = some t at ht
      have hs' : (s.accepted offset n).callStack = c :: below := hs
      split at ht <;> cases ht
      · next hlt =>
        exact .write offset n rest hn.2 _ (if_pos hlt).symm
          ((Shift.goOn hs' (.refl _)).ofGoOn hs' _)
      · next hge =>
        exact .write offset n rest hn.2 _ (if_neg hge).symm
          ((Shift.maybeFinishDrain hs' (.refl _)).ofGoOn hs' _)
  · cases ht
    exact writeFailed hs (.tail _ _)
  · cases ht
    exact writeFailed hs (.tail _ _)
  · cases ht
    exact .await offset rest (state_leave _ _ _) (traffic_leave _ _ _) (codes_leave hs _ _)
  · cases ht
    exact .shift (.refl hold)

/-- The call is completed, or has timed out, with a CANCEL if its REQUEST was sent. -/
theorem callResumed (id : UInt64) :
    Deed s (s.callResumed id rest) c l (.callResumed id :: rest) := by
  unfold MultiplexedConnection.callResumed
  split
  · exact .shift (.goOn hs (.tail _ _))
  · next p hp =>
    split
    · next hdone =>
      exact .wake id rest p hp hdone (goOn_state _ _) (traffic_goOn _ _) (codes_goOn hs _)
    · next hopen =>
      replace hopen : p.completed = false := by simpa using hopen
      have hs' : (s.complete p .timeout p.response).callStack = c :: below := hs
      have htimeout : ∀ {code}, Lesser (.callEnd id :: rest) code →
          Deed s ((s.complete p .timeout p.response).goOn code) c l (.callResumed id :: rest) :=
        fun hcode => .timeout id rest p hp hopen ((Shift.goOn hs' hcode).ofGoOn hs' _)
      dsimp only
      split
      · next hsent =>
        unfold queueCancel
        split
        · exact htimeout ((Lesser.refl _).push rfl rfl)
        · next hready =>
          rw [not_or, not_not] at hready
          split
          · exact htimeout ((Lesser.refl _).push rfl rfl)
          · next encoded hencoded =>
            split
            · exact htimeout ((Lesser.refl _).push rfl rfl)
            · have hwake := Same.wakeWriter
                (((s.complete p .timeout p.response).enqueue ⟨id, encoded, true⟩).goOn
                  (.maybeFinishDrain :: .callEnd id :: rest))
              refine .cancel id rest p hp hopen hsent hready.1 encoded hencoded ?_ ?_ ?_
              · rw [hwake.state, goOn_state]
                rfl
              · rw [hwake.traffic, traffic_goOn]
              · rw [hwake.codes, codes_goOn (s := (s.complete p .timeout p.response).enqueue _) hs]
                rfl
      · exact .timeout id rest p hp hopen ((Shift.maybeFinishDrain hs' (.refl _)).ofGoOn hs' _)

theorem callEnd (id : UInt64) : Deed s (s.callEnd id rest) c l (.callEnd id :: rest) := by
  unfold MultiplexedConnection.callEnd
  split
  · exact .shift (.goOn hs (.tail _ _))
  · next p hp =>
    obtain ⟨-, rfl⟩ := find_some hp
    exact .retire _ rest p hp (goOn_state _ _) (traffic_goOn _ _)
      (codes_goOn (s := s.retire p) hs _)

theorem callEncoded {s₁ : MultiplexedConnection} {id : UInt64} (hid : Issues s l s₁ id)
    (hready : s.state = .ready) {encoded : Bytes} (hencoded : IsRequest id encoded)
    (timeoutMs : Nat) : Deed s (s₁.callEncoded c id encoded timeoutMs) c l [] := by
  unfold MultiplexedConnection.callEncoded
  split
  · exact .reject hid .duplicateRequestId (by simp) rfl
  · next hfree =>
    split
    · exact .reject hid .localOverloaded (by simp) rfl
    · have hview : s₁.callStack = s.callStack ∧ s₁.codes = s.codes ∧ s₁.state = s.state ∧
          s₁.pendingCalls = s.pendingCalls := by
        cases hid <;> exact ⟨rfl, rfl, rfl, rfl⟩
      have hwake := Same.wakeWriter ((s₁.accept c id encoded).goOn
        [.yieldCall (timeoutMs != kNoTimeout) id])
      refine .accept hid hready (fun p hp hpid => hfree ?_) encoded hencoded
        (timeoutMs != kNoTimeout) ?_ ?_ ?_
      · rw [find, hview.2.2.2, find?_isSome]
        exact ⟨p, hp, by simpa using hpid⟩
      · exact hwake.state.trans ((goOn_state _ _).trans hview.2.2.1)
      · exact hwake.traffic.trans (traffic_goOn _ _)
      · refine hwake.codes.trans ?_
        rw [codes_goOn (s := s₁.accept c id encoded) (hview.1.trans hs)]
        exact congrArg (List.set · c _) hview.2.1

theorem call (request : Frame) (timeoutMs : Nat) :
    Deed s (s.call c request timeoutMs) c (.call request timeoutMs) [] := by
  unfold MultiplexedConnection.call
  split
  · exact .refuse .notConnected (by simp) rfl
  · next hready =>
    rw [not_or, not_not] at hready
    split
    · exact .refuse .invalidRequest (by simp) rfl
    · next htype =>
      rw [not_not] at htype
      split
      · exact .refuse .timeout (by simp) rfl
      · split
        · exact .refuse .localOverloaded (by simp) rfl
        · split
          next s₁ id heq =>
          have hissue : Issues s (.call request timeoutMs) s₁ id := by
            split at heq
            · next hzero =>
              cases heq
              exact .automatic request timeoutMs hzero
            · next hid =>
              cases heq
              exact .chosen request timeoutMs hid
          split
          · exact .reject hissue .encodeError (by simp) rfl
          · next encoded hencoded =>
            refine callEncoded hs hissue hready.2 (.inl ⟨_, ?_, ?_, hencoded⟩) timeoutMs
            · exact htype
            · rfl

theorem callMetadata (metadata : RequestMetadata) (body : Bytes) (timeoutMs : Nat) :
    Deed s (s.callMetadata c metadata body timeoutMs) c (.callMetadata metadata body timeoutMs)
      [] := by
  unfold MultiplexedConnection.callMetadata
  split
  · exact .refuse .notConnected (by simp) rfl
  · next hready =>
    rw [not_or, not_not] at hready
    split
    · exact .refuse .timeout (by simp) rfl
    · split
      · exact .refuse .localOverloaded (by simp) rfl
      · have hid := Issues.metadata (s := s) metadata body timeoutMs
        dsimp only [takeRequestId]
        split
        · exact .reject hid .encodeError (by simp) rfl
        · next encoded hencoded =>
          exact callEncoded hs hid hready.2 (.inr ⟨metadata, body, hencoded⟩) timeoutMs

theorem ofAttach (hold : s.codes[c]? = some []) : Deed s s.attach c l [] := by
  unfold MultiplexedConnection.attach
  split
  · exact .shift (.refl hold)
  · next hst =>
    rw [not_not] at hst
    obtain ⟨hlt, -⟩ := List.getElem?_eq_some_iff.mp hold
    refine .attach hst (goOn_state _ _) (traffic_goOn _ _) ?_
    rw [codes_goOn (s := { s with
      state := .ready
      fdOpen := true
      reader := some s.coroutines.length
      writer := some (s.coroutines.length + 1)
      coroutines := s.coroutines ++ [_, _] }) hs, ← set_append_left _ _ hlt]
    simp [codes]

theorem beginDrain (hold : s.codes[c]? = some []) : Deed s s.beginDrain c l [] := by
  unfold MultiplexedConnection.beginDrain
  split
  · exact .shift (.refl hold)
  · next hst =>
    rw [not_not] at hst
    have hwake := Same.wakeWriter ({ s with state := .closing }.goOn [.maybeFinishDrain])
    refine .shift ⟨?_, .inl (hwake.traffic.trans (traffic_goOn _ _)), [.maybeFinishDrain],
      hwake.codes.trans (codes_goOn (s := { s with state := .closing }) hs _),
      (Lesser.refl []).push rfl rfl⟩
    rw [hwake.state, goOn_state, hst]
    exact Nat.le_succ 1

end

/-! ## Whole steps -/

theorem opStep (hs : s.callStack = c :: below) {x : Coroutine} {op : Op}
    (hold : s.codes[c]? = some (op :: rest)) (ht : s.opStep x rest op l = some t) :
    Deed s t c l (op :: rest) := by
  have htail : Lesser (op :: rest) rest := .tail op rest
  have hgo : ∀ {code : List Op}, Lesser (op :: rest) code → Deed s (s.goOn code) c l (op :: rest) :=
    fun hcode => .shift (.goOn hs hcode)
  cases opStep_cases ht with
  | readerLoop =>
    have hread : ∀ (d : FrameDecoder) {code : List Op}, Lesser (.readerLoop :: rest) code →
        Deed s (({ s with decoder := d } : MultiplexedConnection).goOn code) c .tick
          (.readerLoop :: rest) := fun d _ hcode =>
      .shift ((Shift.goOn (s := { s with decoder := d }) hs hcode).rebase ⟨rfl, rfl, rfl⟩)
    unfold readerLoop
    split
    · split
      · exact hread _ ((htail.push rfl rfl).push rfl rfl)
      · exact hread _ (htail.push rfl rfl)
    · exact .shift ((Shift.leave (s := { s with reader := none }) hs _ (.nil _)).rebase
        ⟨rfl, rfl, rfl⟩)
  | read _ _ ht => exact readReturns hs htail hold ht
  | readAwaited offset =>
    split
    · exact hgo (htail.push rfl rfl)
    · exact readFailed hs htail
  | decodeNext =>
    exact decodeNext hs htail
  | readerCheck =>
    split <;> exact hgo (htail.push rfl rfl)
  | readerEnd =>
    exact .shift ((Shift.leave (s := { s with reader := none }) hs _ (.nil _)).rebase
      ⟨rfl, rfl, rfl⟩)
  | writerLoop =>
    exact writerLoop hs
  | write _ _ ht => exact writeReturns hs hold ht
  | writeAwaited offset =>
    split
    · exact .awaited offset rest (goOn_state _ _) (traffic_goOn _ _) (codes_goOn hs _)
    · exact writeFailed hs htail
  | writerEnd =>
    exact .shift ((Shift.leave (s := { s with writer := none }) hs _ (.nil _)).rebase
      ⟨rfl, rfl, rfl⟩)
  | failConnection status order _ =>
    refine .shift (.failConnection hs htail (fun hok => ?_) order)
    rw [hok]
    rfl
  | completedAll status inClose entry =>
    exact .shift (.endCompleteAll hs htail inClose entry)
  | completeAll id ids status inClose entry =>
    have hcode : Lesser (.completeAll (id :: ids) status inClose entry :: rest)
        (.completeAll ids status inClose entry :: rest) := by
      refine htail.pushFault rfl fun hok => ?_
      rw [any_cons, Bool.or_eq_true]
      exact .inl (by cases status <;> first | rfl | exact absurd hok (by simp [Op.completesOk]))
    split
    · next p hfind =>
      refine completePending (.refl s) hs hcode (find_some hfind).1 fun hok => .inr ?_
      rw [hok]
      rfl
    · exact hgo hcode
  | resume d =>
    exact .shift (.goOnResume hs hold htail d)
  | returned _ =>
    exact hgo htail
  | maybeFinishDrain =>
    exact .shift (.maybeFinishDrain hs htail)
  | yieldCall timed id =>
    exact .yield timed id rest (state_leave _ _ _) (traffic_leave _ _ _) (codes_leave hs _ _)
  | callResumed id =>
    exact callResumed hs id
  | callEnd id =>
    exact callEnd hs id
  | startReader | startWriter =>
    split
    · exact .shift (.goOnResume hs hold htail _)
    · exact .shift (.throw hs hold)

theorem userStep (hs : s.callStack = c :: below) (hold : s.codes[c]? = some [])
    (ht : s.userStep c l = some t) : Deed s t c l [] := by
  have hspawn : ∀ state, Deed s
      { s with coroutines := s.coroutines ++ [{ state := state, fiber := false, code := [] }] }
      c l [] := fun state => .spawn rfl rfl (by simp [codes])
  unfold MultiplexedConnection.userStep at ht
  split at ht
  · cases ht
    exact hspawn .init
  · cases ht
    exact hspawn .ready
  · cases ht
    exact ofAttach hs hold
  · cases ht
    exact call hs _ _
  · cases ht
    exact callMetadata hs _ _ _
  · cases ht
    exact beginDrain hs hold
  · split at ht
    · cases ht
      exact .shift (.close hs (.refl []) _)
    · cases ht
  · split at ht
    · cases ht
      exact .shift (.leave hs _ (.refl []))
    · cases ht
  · split at ht
    · cases ht
      exact .shift (.leave hs _ (.refl []))
    · cases ht
  · split at ht
    · split at ht
      · cases ht
        exact .shift (.resume hs hold _)
      · cases ht
    · cases ht
  · split at ht
    · split at ht
      · cases ht
        exact .shift ((Shift.refl hold).same (.setCoroutine _ fun _ => rfl))
      · cases ht
    · cases ht
  · cases ht

theorem rootStep (hold : s.codes[c]? = some old) (ht : s.rootStep l = some t) :
    Deed s t c l old := by
  refine .shift ((Shift.refl hold).same ?_)
  obtain ⟨d, y, -, ⟨-, rfl⟩ | ⟨f, -, rfl, hf⟩⟩ := rootStep_cases ht
  · exact .enter s _
  · exact .setCoroutine _ fun z => (hf z).1

/-- **What a step does.** -/
theorem of_step (ht : s.step l = some t) :
    ∃ c below old, s.callStack = c :: below ∧ s.codes[c]? = some old ∧ Deed s t c l old := by
  obtain ⟨c, below, x, hs, hx, hcases⟩ := step_cases ht
  have hold := codes_of_getElem? hx
  obtain ⟨op, rest, hcode, ht⟩ | ⟨hcode, ht | ⟨-, ht⟩⟩ := hcases <;> rw [hcode] at hold
  · exact ⟨c, below, _, hs, hold, opStep hs hold ht⟩
  · exact ⟨c, below, _, hs, hold, userStep hs hold ht⟩
  · exact ⟨c, below, _, hs, hold, rootStep hold ht⟩

/-- A closed connection stays closed. -/
theorem closed (h : Deed s t c l old) (hst : s.state = .closed) : t.state = .closed := by
  have hrank : s.state.rank ≤ t.state.rank := by
    cases h with
    | shift h | complete _ _ _ _ _ _ h => exact h.rank
    | timeout _ _ _ _ _ h | write _ _ _ _ _ _ h => exact (goOn_state .. ▸ h.rank :)
    | attach hfresh _ _ _ => cases hst.symm.trans hfresh
    | refuse _ _ ht => exact ht ▸ Nat.le_refl _
    | reject hid _ _ ht =>
      rw [ht]
      cases hid <;> exact Nat.le_refl _
    | spawn ht _ _ | accept _ _ _ _ _ _ ht _ _ | yield _ _ _ ht _ _ | wake _ _ _ _ _ ht _ _
    | cancel _ _ _ _ _ _ _ _ _ ht _ _ | retire _ _ _ _ ht _ _ | take _ _ _ _ ht _ _
    | await _ _ ht _ _ | awaited _ _ ht _ _ => exact ht ▸ Nat.le_refl _
  rw [hst] at hrank
  cases ht : t.state with
  | closed => rfl
  | _ => exact absurd (ht ▸ hrank) (by decide)

end Deed

end CoroRpc.Client
