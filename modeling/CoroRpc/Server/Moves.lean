import CoroRpc.Lib.Table
import CoroRpc.Server.Requests

/-!
# The moves of the server

What the thread of a shard can do, read off `doWork`, `onFrame` and `resumeReader` once: `Move` has
one constructor for each way through these functions, with what was checked on the way, and `Turn`
one for each kind of step. The request path is unfolded here and not again; what a step does to the
table, to the book or to a waiting request is a case analysis of `Move`.
-/

namespace CoroRpc.Server

open Lib Protocol List Option

/-- A RESPONSE frame for the request. -/
def Answers (requestId : UInt64) (frame : Frame) : Prop :=
  frame.header.messageType = .response ∧ frame.header.requestId = requestId

instance (requestId : UInt64) (frame : Frame) : Decidable (Answers requestId frame) :=
  inferInstanceAs (Decidable (_ ∧ _))

theorem answers_makeStatusResponse (requestId : UInt64) (status : RpcStatus) :
    Answers requestId (makeStatusResponse requestId status).frame := ⟨rfl, rfl⟩

theorem answers_addressedTo (r : Response) (requestId : UInt64) :
    Answers requestId (r.addressedTo requestId).frame := ⟨rfl, rfl⟩

/-- Shard `k` takes `w` from its stack, or begins with an empty one, and the server becomes `s'`;
    `calls` are put on the stack. `heard` are the REQUEST frames it received. -/
inductive Move (options : RpcServerOptions) (s : RpcServer) (k : Nat) :
    List (Nat × UInt64) → Option Work → RpcServer → List Work → Prop
  | start {i state mode} (found : s.states[i]? = some state) (unkeyed : state.idempotencyKey = []) :
      Move options s k [] (some (.lookUp i mode)) (s.startExecution i state mode).1
        [.execute s.executions.length]
  | acquire {i state mode table} (found : s.states[i]? = some state)
      (keyed : state.idempotencyKey ≠ [])
      (resolves : s.table.resolve options.maxIdempotencyEntries state.idempotencyKey
        state.idempotencyFingerprint state.body i = (table, .execute)) :
      Move options s k [] (some (.lookUp i mode))
        ({ s with table := table }.startExecution i state mode).1 [.execute s.executions.length]
  /-- The request waits for another one's execution, or is answered at once. -/
  | answer {i state mode table admission calls} (found : s.states[i]? = some state)
      (keyed : state.idempotencyKey ≠ [])
      (resolves : s.table.resolve options.maxIdempotencyEntries state.idempotencyKey
        state.idempotencyFingerprint state.body i = (table, admission))
      (refused : admission ≠ .execute)
      (hcalls : admission = .merged ∧ calls = [] ∨ ∃ r, calls = [.finish i r] ∧
        (admission = .useCachedResponse r ∨ r.origin = none)) :
      Move options s k [] (some (.lookUp i mode)) { s with table := table } calls
  | respond {e x r cacheResponse} (found : s.executions[e]? = some x) (was : x.phase ≠ .done)
      (origin : ∀ e', r.origin = some e' → e' = e) :
      Move options s k [] (some (.execute e)) (s.setPhase e (.finishing r cacheResponse))
        [.complete e]
  | submit {e x} (found : s.executions[e]? = some x) (was : x.phase ≠ .done) :
      Move options s k [] (some (.execute e)) (s.setPhase e .queued) []
  | suspend {e x state} (found : s.executions[e]? = some x) (was : x.phase ≠ .done)
      (request : s.states[x.request]? = some state) :
      Move options s k [] (some (.execute e))
        ((s.setPhase e .suspended).setConnection state.connection fun connection =>
          { connection with reader := some (.handler e) }) []
  | deliver {e x r cacheResponse} (found : s.executions[e]? = some x)
      (was : x.phase = .finishing r cacheResponse) (unkeyed : x.idempotencyKey = []) :
      Move options s k [] (some (.complete e)) (s.setPhase e .done) [.finish x.request r]
  | complete {e x r cacheResponse table waiters} (found : s.executions[e]? = some x)
      (was : x.phase = .finishing r cacheResponse) (keyed : x.idempotencyKey ≠ [])
      (finishes : s.table.finish options.maxIdempotencyEntries x.idempotencyKey r cacheResponse =
        (table, waiters)) :
      Move options s k [] (some (.complete e)) { s.setPhase e .done with table := table }
        [.finishWaiters waiters r]
  | endView {c requestId deadlineMs frame} (answers : Answers requestId frame) :
      Move options s k [] (some (.view c requestId deadlineMs)) s.releaseInflight
        [.queueFrame c frame]
  | suspendView {c requestId deadlineMs} :
      Move options s k [] (some (.view c requestId deadlineMs)) (s.setConnection c fun connection =>
          { connection with reader := some (.view requestId deadlineMs) }) []
  | finished {i state r} (found : s.states[i]? = some state) (was : state.completed = true) :
      Move options s k [] (some (.finish i r)) s []
  | finish {i state r r' cancels} (found : s.states[i]? = some state)
      (was : state.completed = false) (answers : Answers state.requestId r'.frame)
      (origin : r'.origin = none ∨ r'.origin = r.origin) :
      Move options s k [] (some (.finish i r)) { s.releaseInflight.setState i fun state =>
            { state with completed := true, cancelled := state.cancelled || cancels } with
          delivered := s.delivered ++ [(i, r')] }
        [.completeRequest state.connection state.requestId r'.frame]
  | finishNone {r} : Move options s k [] (some (.finishWaiters [] r)) s []
  | finishOwn {i waiters r} :
      Move options s k [] (some (.finishWaiters (i :: waiters) r)) s
        [.finish i r, .finishWaiters waiters r]
  | finishOnOwner {i owner waiters r} :
      Move options s k [] (some (.finishWaiters (i :: waiters) r)) (s.post owner (.finish i r))
        [.finishWaiters waiters r]
  | completeRequest {c requestId frame} :
      Move options s k [] (some (.completeRequest c requestId frame))
        (s.setConnection c fun connection =>
          { connection with requests := connection.requests.erase requestId })
        [.queueFrame c frame, .maybeCloseAfterDrain c]
  | queue {c connection frame calls} (found : s.connections[c]? = some connection)
      (isOpen : connection.closed = false) (hcalls : calls = [] ∨ calls = [.close c]) :
      Move options s k [] (some (.queueFrame c frame)) (s.setConnection c fun connection =>
          { connection with queued := connection.queued ++ [frame] }) calls
  /-- A frame is not queued: the connection is closed, or about to be. -/
  | refuse {c connection frame calls} (found : s.connections[c]? = some connection)
      (hcalls : calls = [.close c] ∨ calls = [] ∧ connection.closed = true) :
      Move options s k [] (some (.queueFrame c frame)) s calls
  | maybeClose {c calls} (hcalls : calls = [] ∨ calls = [.close c]) :
      Move options s k [] (some (.maybeCloseAfterDrain c)) s calls
  | closed {c connection} (found : s.connections[c]? = some connection)
      (was : connection.closed = true) : Move options s k [] (some (.close c)) s []
  | close {c connection} (found : s.connections[c]? = some connection)
      (isOpen : connection.closed = false) :
      Move options s k [] (some (.close c))
        (s.setConnection c fun connection => { connection with closed := true, requests := ∅ })
        [.abandonAll (connection.requests.entries.map fun entry => entry.2)]
  | abandonNone : Move options s k [] (some (.abandonAll [])) s []
  | abandonNext {requests i n} (next : requests[n]? = some i) :
      Move options s k [] (some (.abandonAll requests)) s
        [.abandon i, .abandonAll (requests.eraseIdx n)]
  | abandoned {i} : Move options s k [] (some (.abandon i)) s []
  | abandon {i state calls} (found : s.states[i]? = some state) (was : state.completed = false)
      (hcalls : calls = [] ∨ calls = [.dropWaiter i]) :
      Move options s k [] (some (.abandon i)) (s.releaseInflight.setState i fun state =>
          { state with completed := true, cancelled := true }) calls
  | dropWaiter {i state} (found : s.states[i]? = some state) :
      Move options s k [] (some (.dropWaiter i))
        { s with table := s.table.dropWaiter state.idempotencyKey i } []
  /-- A frame or a resumed reader that changes nothing; the connection may be about to close. -/
  | pass {calls} (hcalls : calls = [] ∨ ∃ c, calls = [.close c]) : Move options s k [] none s calls
  | cancel {i requestId calls}
      (hcalls : calls = [.finish i (makeStatusResponse requestId .cancelled)] ∨
        calls = [.dropWaiter i, .finish i (makeStatusResponse requestId .cancelled)]) :
      Move options s k [] none (s.setState i fun state => { state with cancelled := true }) calls
  | reply {c connection requestId frame} (found : s.connections[c]? = some connection)
      (answers : Answers requestId frame) :
      Move options s k [(c, requestId)] none s [.queueFrame c frame]
  | startView {c connection requestId deadlineMs} (found : s.connections[c]? = some connection)
      (owner : connection.owner = k) (idle : connection.reader = none) :
      Move options s k [(c, requestId)] none { s with inflightCount := s.inflightCount + 1 }
        [.view c requestId deadlineMs]
  | accept {c requestId connection state mode} (found : s.connections[c]? = some connection)
      (owner : connection.owner = k) (idle : connection.reader = none)
      (new : state.completed = false ∧ state.connection = c ∧ state.requestId = requestId)
      (room : RpcServer.refusesRequest options connection requestId = false) :
      Move options s k [(c, requestId)] none
        ({ s with inflightCount := s.inflightCount + 1 }.addRequest state)
        [.lookUp s.states.length mode]
  | resume {c e connection x r cacheResponse} (found : s.connections[c]? = some connection)
      (owner : connection.owner = k) (reader : connection.reader = some (.handler e))
      (execution : s.executions[e]? = some x) (was : x.phase ≠ .done)
      (origin : ∀ e', r.origin = some e' → e' = e) :
      Move options s k [] none
        ((s.setConnection c fun connection => { connection with reader := none }).setPhase e
          (.finishing r cacheResponse)) [.complete e]
  | resumeView {c connection requestId deadlineMs frame}
      (found : s.connections[c]? = some connection) (owner : connection.owner = k)
      (reader : connection.reader = some (.view requestId deadlineMs))
      (answers : Answers requestId frame) :
      Move options s k [] none
        (s.setConnection c fun connection => { connection with reader := none }).releaseInflight
        [.queueFrame c frame]
  | drain {c} :
      Move options s k [] none
        (s.setConnection c fun connection => { connection with draining := true })
        [.maybeCloseAfterDrain c]

/-- The moves leave the stacks alone. -/
theorem Move.threads {options : RpcServerOptions} {s s' : RpcServer} {k : Nat}
    {heard : List (Nat × UInt64)} {w : Option Work} {calls : List Work}
    (h : Move options s k heard w s' calls) : s'.threads = s.threads := by
  cases h <;> rfl

namespace RpcServer

variable {options : RpcServerOptions} {s s' : RpcServer} {calls : List Work} {k : Nat}

/-! ## A thread's work -/

theorem handlerResult_origin {e : Nat} {requestId : UInt64} {outcome : Outcome}
    {result : Response × Bool} (h : handlerResult e requestId outcome = some result) :
    ∀ e', result.1.origin = some e' → e' = e := by
  intro e' ho
  cases outcome with
  | returns frame => cases h; exact (some.inj ho).symm
  | throws => cases h; cases ho
  | suspends => exact absurd h (by simp [handlerResult])

theorem viewReturned_answers (s : RpcServer) (c : Nat) (requestId : UInt64) (deadlineMs : Nat)
    (frame : Frame) :
    ∃ frame', Answers requestId frame' ∧ s.viewReturned c requestId deadlineMs frame =
      (s.releaseInflight, [.queueFrame c frame']) := by
  refine ⟨_, ?_, rfl⟩
  split
  · exact answers_makeStatusResponse ..
  · exact answers_addressedTo ..

/-- The response that `finish` sends. -/
theorem finish_response (r : Response) (requestId : UInt64) (expired : Bool) {r' : Response}
    (h : r' = if expired then makeStatusResponse requestId .deadlineExceeded
      else r.addressedTo requestId) :
    Answers requestId r'.frame ∧ (r'.origin = none ∨ r'.origin = r.origin) := by
  cases expired with
  | false => exact h ▸ ⟨answers_addressedTo .., .inr rfl⟩
  | true => exact h ▸ ⟨answers_makeStatusResponse .., .inl rfl⟩

theorem lookUp_move {i : Nat} {state : RequestState} {mode : RpcExecutionMode}
    (hi : s.states[i]? = some state) (h : s.lookUp options i state mode = (s', calls)) :
    Move options s k [] (some (.lookUp i mode)) s' calls := by
  unfold lookUp at h
  split at h
  · next hk =>
    cases h
    exact .start hi hk
  · next hk =>
    split at h
    · next ht =>
      cases h
      exact .acquire hi hk ht
    · next ht =>
      cases h
      exact .answer hi hk ht (by simp) (.inl ⟨rfl, rfl⟩)
    · next ht =>
      cases h
      exact .answer hi hk ht (by simp) (.inr ⟨_, rfl, .inl rfl⟩)
    · next ht =>
      cases h
      exact .answer hi hk ht (by simp) (.inr ⟨_, rfl, .inr rfl⟩)
    · next ht =>
      cases h
      exact .answer hi hk ht (by simp) (.inr ⟨_, rfl, .inr rfl⟩)

theorem execute_move {e : Nat} {x : Execution} {state : RequestState} {mode : RpcExecutionMode}
    {choice : Choice} (hx : s.executions[e]? = some x) (hp : x.phase ≠ .done)
    (hstate : s.states[x.request]? = some state)
    (h : s.execute e state mode choice = some (s', calls)) :
    Move options s k [] (some (.execute e)) s' calls := by
  unfold execute at h
  split at h
  · split at h
    · split at h
      · cases h
        exact .respond hx hp (by simp)
      · split at h
        · next hr =>
          cases h
          exact .respond hx hp (handlerResult_origin hr)
        · cases h
          exact .suspend hx hp hstate
    · cases h
  · split at h
    · cases h
    · split at h <;> cases h
      · exact .submit hx hp
      · exact .respond hx hp (by simp)
  · cases h

theorem queueFrame_move {c : Nat} {connection : ServerConnection} {frame : Frame} {choice : Choice}
    (hc : s.connections[c]? = some connection)
    (h : s.queueFrame c connection frame choice = some (s', calls)) :
    Move options s k [] (some (.queueFrame c frame)) s' calls := by
  unfold queueFrame at h
  split at h
  · cases h
    refine .refuse hc ?_
    split
    · next hclosed => exact .inr ⟨rfl, hclosed⟩
    · exact .inl rfl
  · split at h
    · next hclosed =>
      cases h
      exact .refuse hc (.inr ⟨rfl, hclosed⟩)
    · next hopen =>
      split at h <;> cases h
      · exact .refuse hc (.inl rfl)
      · refine .queue hc (by simpa using hopen) ?_
        split
        · exact .inr rfl
        · exact .inl rfl
  · cases h

theorem doWork_move {w : Work} {choice : Choice}
    (h : s.doWork options k w choice = some (s', calls)) :
    Move options s k [] (some w) s' calls := by
  cases w <;> simp only [doWork] at h
  case lookUp i mode =>
    obtain ⟨state, hi, hs⟩ := map_eq_some_iff.mp h
    exact lookUp_move hi hs
  case execute e =>
    split at h
    · next i key body mode hx =>
      obtain ⟨state, hstate, hs⟩ := bind_eq_some_iff.mp h
      exact execute_move hx (by simp) hstate hs
    · cases h
  case complete e =>
    split at h
    · next i key body r cacheResponse hx =>
      unfold complete at h
      split at h <;> cases h
      · next hk => exact .deliver hx rfl hk
      · next hk => exact .complete hx rfl hk rfl
    · cases h
  case view c requestId deadlineMs =>
    split at h
    · next outcome =>
      cases outcome with
      | returns frame =>
        obtain ⟨frame', ha, heq⟩ := s.viewReturned_answers c requestId deadlineMs frame
        cases heq.symm.trans (some.inj h)
        exact .endView ha
      | throws =>
        obtain ⟨frame', ha, heq⟩ := s.viewReturned_answers c requestId deadlineMs
          (makeStatusResponse requestId .internal).frame
        cases heq.symm.trans (some.inj h)
        exact .endView ha
      | suspends =>
        cases h
        exact .suspendView
    · cases h
  case finish i response =>
    obtain ⟨state, hi, hs⟩ := map_eq_some_iff.mp h
    unfold finish at hs
    split at hs <;> cases hs
    · next hc => exact .finished hi hc
    · next hc =>
      obtain ⟨ha, ho⟩ := finish_response response state.requestId _ rfl
      exact .finish hi (by simpa using hc) ha ho
  case finishWaiters waiters response =>
    unfold finishWaiters at h
    split at h
    · cases h
      exact .finishNone
    · split at h
      · cases h
      · split at h <;> cases h
        · exact .finishOwn
        · exact .finishOnOwner
  case completeRequest c requestId frame =>
    cases h
    exact .completeRequest
  case queueFrame c frame =>
    obtain ⟨connection, hc, hs⟩ := bind_eq_some_iff.mp h
    exact queueFrame_move hc hs
  case maybeCloseAfterDrain c =>
    obtain ⟨connection, -, hs⟩ := bind_eq_some_iff.mp h
    unfold maybeCloseAfterDrain at hs
    split at hs <;> cases hs
    refine .maybeClose ?_
    split
    · exact .inr rfl
    · exact .inl rfl
  case close c =>
    obtain ⟨connection, hc, hs⟩ := map_eq_some_iff.mp h
    unfold close at hs
    split at hs <;> cases hs
    · next hclosed => exact .closed hc hclosed
    · next hopen => exact .close hc (by simpa using hopen)
  case abandonAll requests =>
    unfold abandonAll at h
    split at h
    · split at h
      · split at h <;> cases h
        next hr => exact hr ▸ .abandonNone
      · next hi =>
        cases h
        exact .abandonNext hi
    · cases h
  case abandon i =>
    obtain ⟨state, hi, hs⟩ := map_eq_some_iff.mp h
    unfold abandon at hs
    split at hs <;> cases hs
    · exact .abandoned
    · next hc =>
      refine .abandon hi (by simpa using hc) ?_
      split
      · exact .inl rfl
      · exact .inr rfl
  case dropWaiter i =>
    obtain ⟨state, hi, hs⟩ := map_eq_some_iff.mp h
    cases hs
    exact .dropWaiter hi

/-! ## Frames -/

/-- The REQUEST that a frame on connection `c` is. -/
def heard (c : Nat) (frame : Frame) : List (Nat × UInt64) :=
  if frame.header.messageType = .request then [(c, frame.header.requestId)] else []

theorem acquireInflight_eq_some (h : s.acquireInflight options = some s') :
    s' = { s with inflightCount := s.inflightCount + 1 } := by
  unfold acquireInflight at h
  split at h
  · cases h
  · exact (some.inj h).symm

theorem cancel_move (s : RpcServer) (connection : ServerConnection) (requestId : UInt64) :
    Move options s k [] none (s.cancel connection requestId).1
      (s.cancel connection requestId).2 := by
  unfold cancel
  split
  · exact .pass (.inl rfl)
  · split
    · exact .pass (.inl rfl)
    · dsimp only
      split
      · exact .cancel (.inl rfl)
      · exact .cancel (.inr rfl)

variable {c : Nat} {connection : ServerConnection}

theorem onRequest_move (frame : Frame) (metadata : RequestMetadata)
    (hc : s.connections[c]? = some connection) (hidle : connection.reader = none) :
    Move options s connection.owner [(c, frame.header.requestId)] none
      (s.onRequest options c connection frame metadata).1
      (s.onRequest options c connection frame metadata).2 := by
  unfold onRequest
  dsimp only
  split
  · exact .reply hc (answers_makeStatusResponse ..)
  · split
    · exact .reply hc (answers_makeStatusResponse ..)
    · next acquired ha =>
      obtain rfl := acquireInflight_eq_some ha
      split
      · exact .startView hc rfl hidle
      · split
        · -- what was acquired is given back
          exact .reply hc (answers_makeStatusResponse ..)
        · next hroom => exact .accept hc rfl hidle ⟨rfl, rfl, rfl⟩ (by simpa using hroom)

theorem onFrame_move (frame : Frame) (hc : s.connections[c]? = some connection)
    (hidle : connection.reader = none) :
    Move options s connection.owner (heard c frame) none
      (s.onFrame options c connection frame).1 (s.onFrame options c connection frame).2 := by
  unfold onFrame
  split
  · next hcancel =>
    rw [heard, if_neg (by rw [hcancel]; decide)]
    exact cancel_move ..
  · split
    · next hr =>
      rw [heard, if_neg hr]
      exact .pass (.inr ⟨c, rfl⟩)
    · next hr =>
      rw [heard, if_pos (not_not.mp hr)]
      split
      · exact .reply hc (answers_makeStatusResponse ..)
      · split
        · exact .reply hc (answers_makeStatusResponse ..)
        · exact onRequest_move frame _ hc hidle

/-! ## Whole steps -/

def workOf (s : RpcServer) : Label → Option Work
  | .work k _ => s.threads[k]?.bind List.head?
  | _ => none

/-- The REQUEST frame that the step `l` receives, if it receives one. -/
def heardBy : Label → List (Nat × UInt64)
  | .frame c frame => heard c frame
  | _ => []

end RpcServer

open RpcServer in
/-- What step `l` does. No thread has a part in the first three. -/
inductive Turn (options : RpcServerOptions) (s : RpcServer) (l : Label) : RpcServer → Prop
  | attach (aside : s.workOf l = none ∧ heardBy l = []) (owner : Nat) (callerScope : Bytes) :
      Turn options s l
        { s with connections := s.connections ++ [{ owner := owner, callerScope := callerScope }] }
  /-- The drain begins, time passes, or a resumed handler suspends again. -/
  | still (aside : s.workOf l = none ∧ heardBy l = []) (accepting : Bool) (nowMs : Nat) :
      Turn options s l { s with accepting := accepting, nowMs := nowMs }
  /-- A worker takes execution `e` on; it posts the completion when it is through. -/
  | worker (aside : s.workOf l = none ∧ heardBy l = []) {e : Nat} {x : Execution} {p : Phase}
      {posts : List (Nat × Message)} (found : s.executions[e]? = some x) (was : x.phase ≠ .done)
      (goes : p ≠ .done) (origin : ∀ r c, p = .finishing r c → ∀ e', r.origin = some e' → e' = e)
      (completions : ∀ m ∈ posts, ∃ e, m.2 = .completion e) :
      Turn options s l { s.setPhase e p with mailbox := s.mailbox ++ posts }
  | take (aside : s.workOf l = none ∧ heardBy l = []) {n k : Nat} {m : Message}
      (next : s.mailbox[n]? = some (k, m)) (idle : s.threads[k]? = some []) :
      Turn options s l
        { s with mailbox := s.mailbox.eraseIdx n, threads := s.threads.set k (messageWork m) }
  | thread {k : Nat} {w : Option Work} {rest calls : List Work} {s' : RpcServer}
      (work : s.workOf l = w) (top : s.threads[k]? = some (w.toList ++ rest))
      (begins : w = none → rest = []) (move : Move options s k (heardBy l) w s' calls) :
      Turn options s l { s' with threads := s.threads.set k (calls ++ rest) }

namespace RpcServer

variable {options : RpcServerOptions} {s s' s₁ : RpcServer} {calls : List Work} {k : Nat} {l : Label}

theorem run_eq_some (h : s.run k calls = some s') :
    s.threads[k]? = some [] ∧ s' = { s with threads := s.threads.set k calls } := by
  unfold run at h
  split at h
  · next hk => exact ⟨hk, (some.inj h).symm⟩
  · cases h

theorem turn_of_run (hl : s.workOf l = none) (hr : s₁.run k calls = some s')
    (h : Move options s k (heardBy l) none s₁ calls) : Turn options s l s' := by
  obtain ⟨hk, rfl⟩ := run_eq_some hr
  rw [h.threads] at hk
  have hturn : Turn options s l { s₁ with threads := s.threads.set k (calls ++ []) } :=
    .thread hl hk (fun _ => rfl) h
  rwa [append_nil, ← h.threads] at hturn

theorem turn_of_endWorker (hl : s.workOf l = none ∧ heardBy l = []) {e : Nat} {x : Execution}
    {r : Response} {cacheResponse : Bool} (hx : s.executions[e]? = some x) (hp : x.phase ≠ .done)
    (ho : ∀ e', r.origin = some e' → e' = e) (owner : Nat) :
    Turn options s l ((s.setPhase e (.finishing r cacheResponse)).post owner (.completion e)) :=
  .worker hl hx hp (by simp) (fun _ _ h => by cases h; exact ho) (by simp)

theorem resumeReader_turn {c : Nat} {outcome : Outcome}
    (h : s.step options (.resumeReader c outcome) = some s') :
    Turn options s (.resumeReader c outcome) s' := by
  simp only [step] at h
  split at h
  · cases h
  · next connection hc =>
    split at h
    · cases h
    · next e hr =>
      split at h
      · next i key body hx =>
        obtain ⟨state, -, h⟩ := bind_eq_some_iff.mp h
        split at h
        · next hresult =>
          exact turn_of_run rfl h (.resume hc rfl hr hx (by simp) (handlerResult_origin hresult))
        · cases h
          exact .still ⟨rfl, rfl⟩ s.accepting s.nowMs
      · cases h
    · next requestId deadlineMs hr =>
      have hreturned : ∀ frame,
          let awake := s.setConnection c fun connection => { connection with reader := none }
          Move options s connection.owner [] none
            (awake.viewReturned c requestId deadlineMs frame).1
            (awake.viewReturned c requestId deadlineMs frame).2 := by
        intro frame awake
        obtain ⟨frame', ha, heq⟩ := awake.viewReturned_answers c requestId deadlineMs frame
        rw [heq]
        exact .resumeView hc rfl hr ha
      cases outcome with
      | returns frame => exact turn_of_run rfl h (hreturned frame)
      | throws => exact turn_of_run rfl h (hreturned _)
      | suspends =>
        -- the handler suspends again, and the reader is where it was
        have hsame : (s.connections.modify c fun x => { x with reader := none }).modify c
            (fun x => { x with reader := some (.view requestId deadlineMs) }) = s.connections := by
          rw [modify_modify_eq]
          exact modify_eq_self hc (by simp [← hr])
        simp only [view, setConnection, hsame] at h
        exact turn_of_run rfl h (.pass (.inl rfl))

theorem step_turn (h : s.step options l = some s') : Turn options s l s' := by
  cases l with
  | attachConnection owner callerScope =>
    simp only [step] at h
    split at h <;> cases h
    exact .attach ⟨rfl, rfl⟩ owner callerScope
  | frame c frame =>
    simp only [step] at h
    split at h
    · cases h
    · next connection hc =>
      split at h
      · next ho => exact turn_of_run rfl h (onFrame_move frame hc ho.2)
      · cases h
  | work k choice =>
    simp only [step] at h
    split at h
    · next w rest hk =>
      obtain ⟨⟨s₁, calls⟩, hw, rfl⟩ := map_eq_some_iff.mp h
      have hmove : Move options s k [] (some w) s₁ calls := doWork_move hw
      rw [hmove.threads]
      exact .thread (w := some w) (by simp [workOf, hk]) hk (by simp) hmove
    · cases h
  | workerStarts e =>
    simp only [step] at h
    split at h
    · next i key body hx =>
      obtain ⟨state, -, rfl⟩ := map_eq_some_iff.mp h
      unfold startWorker
      split
      · exact turn_of_endWorker ⟨rfl, rfl⟩ hx (by simp) (by simp) _
      · have hturn : Turn options s (.workerStarts e)
            { s.setPhase e .running with mailbox := s.mailbox ++ [] } :=
          .worker ⟨rfl, rfl⟩ hx (by simp) (by simp) (by simp) (by simp)
        rwa [append_nil] at hturn
    · cases h
  | workerEnds e outcome =>
    simp only [step] at h
    split at h
    · next i key body hx =>
      obtain ⟨state, -, h⟩ := bind_eq_some_iff.mp h
      obtain ⟨result, hr, rfl⟩ := map_eq_some_iff.mp h
      exact turn_of_endWorker ⟨rfl, rfl⟩ hx (by simp) (handlerResult_origin hr) _
    · cases h
  | deliver n =>
    simp only [step] at h
    split at h
    · cases h
    · next k m hm =>
      obtain ⟨hk, rfl⟩ := run_eq_some h
      exact .take ⟨rfl, rfl⟩ hm hk
  | resumeReader c outcome => exact resumeReader_turn h
  | closeConnection c =>
    simp only [step] at h
    split at h
    · cases h
    · exact turn_of_run rfl h (.pass (.inr ⟨c, rfl⟩))
  | beginDrain =>
    cases h
    exact .still ⟨rfl, rfl⟩ false s.nowMs
  | drainConnection c =>
    simp only [step] at h
    split at h
    · cases h
    · split at h
      · cases h
      · exact turn_of_run rfl h .drain
  | tick nowMs =>
    simp only [step] at h
    split at h <;> cases h
    exact .still ⟨rfl, rfl⟩ s.accepting nowMs

end RpcServer

end CoroRpc.Server
