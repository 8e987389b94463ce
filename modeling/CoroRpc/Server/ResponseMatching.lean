import CoroRpc.Server.SingleExecution

/-!
# Which execution a response comes from

A worker's completion finds the record to finish by its key and not by the record's identity. So
an execution whose record was erased by a cancel finishes whatever record the key has by then,
and a request with another body that has created that record is answered with a response to the
first body. The results below say when this cannot happen: a record
is created for a key only with the body of the executions of that key still in progress.
-/

namespace CoroRpc.Server

open Lib Protocol List Option IdempotencyTable RpcServer

/-- If request `i` is about to create the record of its key, the executions of that key in
    progress have its body. -/
def NewRecordFits (s : RpcServer) (i : Nat) : Prop :=
  ∀ state ∈ s.states[i]?, state.idempotencyKey ≠ [] → s.table.find state.idempotencyKey = none →
    ∀ x ∈ s.executions, x.idempotencyKey = state.idempotencyKey → x.phase ≠ .done →
      x.body = state.body

instance (s : RpcServer) (i : Nat) : Decidable (NewRecordFits s i) :=
  inferInstanceAs (Decidable (∀ state ∈ s.states[i]?, state.idempotencyKey ≠ [] →
    s.table.find state.idempotencyKey = none →
      ∀ x ∈ s.executions, x.idempotencyKey = state.idempotencyKey → x.phase ≠ .done →
        x.body = state.body))

/-- Every record is created with the body of the executions of its key in progress. -/
def RecordsFit (s : RpcServer) (l : Label) : Prop :=
  match s.workOf l with
  | some (.lookUp i _) => NewRecordFits s i
  | _ => True

instance (s : RpcServer) (l : Label) : Decidable (RecordsFit s l) :=
  decidable_of_bool (match s.workOf l with
    | some (.lookUp i _) => decide (NewRecordFits s i)
    | _ => true) <| by
  unfold RecordsFit
  split
  · exact decide_eq_true_iff
  · exact iff_of_true rfl trivial

/-! ## Origins -/

/-- Execution `e` was started for `key` and `body`. -/
def StartedFor (executions : List Execution) (e : Nat) (key body : Bytes) : Prop :=
  ∃ x, executions[e]? = some x ∧ x.idempotencyKey = key ∧ x.body = body

/-- Request `i` carries `key` and `body`. -/
def Carries (states : List RequestState) (i : Nat) (key body : Bytes) : Prop :=
  ∃ state, states[i]? = some state ∧ state.idempotencyKey = key ∧ state.body = body

variable {l : List Execution}

theorem StartedFor.keep {l' : List Execution} {e : Nat} {key body : Bytes}
    (h : StartedFor l e key body) (hk : ExecutionsKept l l') : StartedFor l' e key body := by
  obtain ⟨x, hx, rfl, rfl⟩ := h
  obtain ⟨x', hx', -, hkey, hbody⟩ := hk e x hx
  exact ⟨x', hx', hkey, hbody⟩

variable {i : Nat}

theorem Carries.keep {l l' : List RequestState} {key body : Bytes} (h : Carries l i key body)
    (hk : StatesKept l l') : Carries l' i key body := by
  obtain ⟨state, hi, rfl, rfl⟩ := h
  obtain ⟨state', hi', hkey, hbody⟩ := hk i state hi
  exact ⟨state', hi', hkey, hbody⟩

/-- Response `r` may go to request `i`: if a handler produced it for a keyed request, it did so
    for the key and the body of `i`. -/
def Matches (states : List RequestState) (executions : List Execution) (i : Nat) (r : Response) :
    Prop :=
  ∀ e, r.origin = some e →
    ∃ key body, Carries states i key body ∧ (key ≠ [] → StartedFor executions e key body)

variable {states : List RequestState}

variable {r : Response}

theorem Matches.keep {states' : List RequestState} {l' : List Execution} (h : Matches states l i r)
    (hs : StatesKept states states') (hl : ExecutionsKept l l') : Matches states' l' i r := by
  intro e he
  obtain ⟨key, body, hc, hst⟩ := h e he
  exact ⟨key, body, hc.keep hs, fun hk => (hst hk).keep hl⟩

theorem matches_of_origin_none (h : r.origin = none) : Matches states l i r := by
  intro e he
  rw [h] at he
  cases he

theorem Matches.of_origin_eq
    {r' : Response} (h : Matches states l i r) (ho : r'.origin = r.origin) :
    Matches states l i r' :=
  fun e he => h e (ho ▸ he)

/-! ## The invariant -/

/-- What the records and the executions say of each other. -/
structure RecordsMatch (states : List RequestState) (executions : List Execution)
    (table : IdempotencyTable) : Prop where
  /-- An execution is for the request it names. -/
  request : ∀ (e : Nat) (x : Execution), executions[e]? = some x →
    Carries states x.request x.idempotencyKey x.body
  /-- The response an execution is about to give is its own. -/
  own : ∀ (e : Nat) (x : Execution) (r : Response) (c : Bool), executions[e]? = some x →
    x.phase = .finishing r c → ∀ e', r.origin = some e' → e' = e
  /-- A keyed execution in progress has the body of its key's record. -/
  body : ∀ (e : Nat) (x : Execution) (record : IdempotencyRecord), executions[e]? = some x →
    x.idempotencyKey ≠ [] → x.phase ≠ .done → table.find x.idempotencyKey = some record →
    x.body = record.body
  waiters : ∀ key record, table.find key = some record →
    ∀ i ∈ record.waiters, Carries states i key record.body
  cached : ∀ key record, table.find key = some record →
    ∀ e, record.response.origin = some e → StartedFor executions e key record.body

namespace RecordsMatch

variable {states states' : List RequestState} {executions : List Execution}
  {table table' : IdempotencyTable}

section
variable (h : RecordsMatch states executions table)
include h

theorem keepStates (hs : StatesKept states states') : RecordsMatch states' executions table where
  __ := h
  request e x hx := (h.request e x hx).keep hs
  waiters key record hr i hi := (h.waiters key record hr i hi).keep hs

/-- A table whose records are old ones, but for their waiters and their phase. -/
theorem of_table
    (old : ∀ key record', table'.find key = some record' → ∃ record, table.find key = some record ∧
      record'.body = record.body ∧ record'.response = record.response ∧
      ∀ i ∈ record'.waiters, i ∈ record.waiters ∨ Carries states i key record.body) :
    RecordsMatch states executions table' where
  request := h.request
  own := h.own
  body e x record' hx hk hp hr' := by
    obtain ⟨record, hr, hbody, -, -⟩ := old _ _ hr'
    rw [hbody]
    exact h.body e x record hx hk hp hr
  waiters key record' hr' i hi := by
    obtain ⟨record, hr, hbody, -, hw⟩ := old _ _ hr'
    rw [hbody]
    exact (hw i hi).elim (h.waiters key record hr i) id
  cached key record' hr' e he := by
    obtain ⟨record, hr, hbody, hresp, -⟩ := old _ _ hr'
    rw [hbody]
    exact h.cached key record hr e (hresp ▸ he)

variable {x : Execution}

theorem setPhase {e : Nat} {p : Phase} (hx : executions[e]? = some x) (hp : x.phase ≠ .done)
    (origin : ∀ r c, p = .finishing r c → ∀ e', r.origin = some e' → e' = e) :
    RecordsMatch states (executions.modify e fun x => { x with phase := p }) table where
  request e' y hy := by
    obtain ⟨x', hx', hkey, hbody, hreq, -⟩ := getElem?_setPhase hy
    rw [hkey, hbody, hreq]
    exact h.request e' x' hx'
  own e' y r c hy hyp e'' ho := by
    obtain ⟨x', hx', -, -, -, ⟨rfl, hpy⟩ | ⟨-, rfl⟩⟩ := getElem?_setPhase hy
    · exact origin r c (hpy.symm.trans hyp) e'' ho
    · exact h.own e' y r c hx' hyp e'' ho
  body e' y record hy hk hyp hr := by
    obtain ⟨x', hx', hkey, hbody, -, hcase⟩ := getElem?_setPhase hy
    have hx'p : x'.phase ≠ .done := by
      rcases hcase with ⟨rfl, -⟩ | ⟨-, rfl⟩
      · rw [hx] at hx'
        cases hx'
        exact hp
      · exact hyp
    rw [hkey] at hk hr
    rw [hbody]
    exact h.body e' x' record hx' hk hx'p hr
  waiters := h.waiters
  cached key record hr e' he := (h.cached key record hr e' he).keep (.modify fun _ => ⟨rfl, rfl, rfl⟩)

theorem start (hreq : Carries states x.request x.idempotencyKey x.body)
    (hphase : ∀ r c, x.phase ≠ .finishing r c)
    (hbody : ∀ record, x.idempotencyKey ≠ [] → table.find x.idempotencyKey = some record →
      x.body = record.body) :
    RecordsMatch states (executions ++ [x]) table where
  request e y hy := by
    rcases getElem?_snoc hy with hy | ⟨-, rfl⟩
    · exact h.request e y hy
    · exact hreq
  own e y r c hy hp := by
    rcases getElem?_snoc hy with hy | ⟨-, rfl⟩
    · exact h.own e y r c hy hp
    · exact absurd hp (hphase r c)
  body e y record hy hk hp hr := by
    rcases getElem?_snoc hy with hy | ⟨-, rfl⟩
    · exact h.body e y record hy hk hp hr
    · exact hbody record hk hr
  waiters := h.waiters
  cached key record hr e he := (h.cached key record hr e he).keep (.append _ _)

theorem prune (maxEntries : Nat) :
    RecordsMatch states executions (table.pruneIdempotencyCache maxEntries) :=
  h.of_table fun _ record hr =>
    ⟨record, find_of_find_prune hr, rfl, rfl, fun _ hi => .inl hi⟩

theorem putNew {key body : Bytes} {i : Nat} (fingerprint : UInt64) (hi : Carries states i key body)
    (hfit : ∀ (e : Nat) (x : Execution), executions[e]? = some x → x.idempotencyKey = key →
      x.phase ≠ .done → x.body = body) :
    RecordsMatch states executions
      (table.put key { bodyFingerprint := fingerprint, body := body, waiters := [i] }) where
  request := h.request
  own := h.own
  body e x record hx hk hp hr := by
    rw [find_put] at hr
    split at hr
    · next hkey => cases hr; exact hfit e x hx hkey hp
    · exact h.body e x record hx hk hp hr
  waiters key' record hr j hj := by
    rw [find_put] at hr
    split at hr
    · next hkey =>
      cases hr
      rw [mem_singleton.mp hj, hkey]
      exact hi
    · exact h.waiters key' record hr j hj
  cached key' record hr e he := by
    rw [find_put] at hr
    split at hr
    · cases hr; cases he
    · exact h.cached key' record hr e he

theorem resolve {maxEntries : Nat} {key body : Bytes} {fingerprint : UInt64} {i : Nat}
    {admission : IdempotencyTable.Admission} {mode : RpcExecutionMode}
    (hi : Carries states i key body)
    (hfit : table.find key = none → ∀ x ∈ executions, x.idempotencyKey = key → x.phase ≠ .done →
      x.body = body) (ht : table.resolve maxEntries key fingerprint body i = (table', admission)) :
    RecordsMatch states (if admission = .execute then executions ++ [⟨i, key, body, .admitted mode⟩]
      else executions) table' := by
  obtain ⟨record, -, rfl, rfl⟩ | ⟨record, hr, hbody, -, rfl, rfl⟩ | ⟨record, -, -, -, rfl, rfl⟩ |
    ⟨hn, rfl, rfl⟩ | ⟨hn, rfl, rfl⟩ := resolve_cases ht
  · simpa using h
  · rw [if_neg (by simp)]
    refine h.of_table fun key' record' hr' => ?_
    rw [find_put] at hr'
    split at hr'
    · next hkey =>
      subst hkey
      cases hr'
      refine ⟨record, hr, rfl, rfl, fun j hj => ?_⟩
      rcases mem_append.mp hj with hj | hj
      · exact .inl hj
      · rw [mem_singleton.mp hj, hbody]
        exact .inr hi
    · exact ⟨record', hr', rfl, rfl, fun j hj => .inl hj⟩
  · simpa using h
  · simpa using h.prune maxEntries
  · -- Both the record and the execution are new, and of one body.
    have hput := (h.prune maxEntries).putNew fingerprint hi
      fun e x hx => hfit hn x (mem_of_getElem? hx)
    refine hput.start hi (by simp) fun record hk hr => ?_
    rw [find_put, if_pos rfl] at hr
    cases hr
    rfl

theorem complete {e maxEntries : Nat} {r : Response} {c : Bool} (hx : executions[e]? = some x)
    (hp : x.phase = .finishing r c) (hk : x.idempotencyKey ≠ []) :
    RecordsMatch states (executions.modify e fun x => { x with phase := .done })
      (table.finish maxEntries x.idempotencyKey r c).1 := by
  have hlive : x.phase ≠ .done := by simp [hp]
  have hdone := h.setPhase (p := .done) hx hlive (by simp)
  refine { request := hdone.request, own := hdone.own, body := ?_, waiters := ?_, cached := ?_ }
  · intro e' y record' hy hyk hyp hr'
    rcases find_finish hr' with ⟨-, hr⟩ | ⟨hkey, record, hr, rfl⟩
    · exact hdone.body e' y record' hy hyk hyp hr
    · exact hdone.body e' y record hy hyk hyp (hkey ▸ hr)
  · intro key record' hr' i hi
    rcases find_finish hr' with ⟨-, hr⟩ | ⟨-, record, -, rfl⟩
    · exact h.waiters key record' hr i hi
    · cases hi
  · intro key record' hr' e' ho
    rcases find_finish hr' with ⟨-, hr⟩ | ⟨rfl, record, hr, rfl⟩
    · exact hdone.cached key record' hr e' ho
    · -- The response now cached is that of `e`, whose body is the record's.
      obtain rfl := h.own e x r c hx hp e' ho
      have hst : StartedFor executions e' x.idempotencyKey record.body :=
        ⟨x, hx, rfl, h.body e' x record hx hk hlive hr⟩
      exact hst.keep (.modify fun _ => ⟨rfl, rfl, rfl⟩)

theorem dropWaiter (key : Bytes) (i : Nat) :
    RecordsMatch states executions (table.dropWaiter key i) := by
  refine h.of_table fun key' record' hr' => ?_
  rcases find_dropWaiter table key i key' with hsame | ⟨rfl, record, hr, -, hn | hs⟩
  · exact ⟨record', hsame ▸ hr', rfl, rfl, fun j hj => .inl hj⟩
  · rw [hn] at hr'
    cases hr'
  · rw [hs] at hr'
    cases hr'
    exact ⟨record, hr, rfl, rfl, fun j hj => .inl (mem_of_mem_filter hj)⟩

end

end RecordsMatch

/-- The records match, and so does every response that is on its way or has been delivered. -/
structure ResponsesMatch (s : RpcServer) : Prop where
  records : RecordsMatch s.states s.executions s.table
  owed : ∀ i r, s.Owes i r → Matches s.states s.executions i r
  delivered : ∀ p ∈ s.delivered, Matches s.states s.executions p.1 p.2

variable {s : RpcServer}

theorem ResponsesMatch.step {s' : RpcServer} {new : Nat → Response → Prop} (h : ResponsesMatch s)
    (ha : Accounts new s s') (hk : ExecutionsKept s.executions s'.executions)
    (records : RecordsMatch s.states s'.executions s'.table)
    (hnew : ∀ i r, new i r → Matches s.states s.executions i r) : ResponsesMatch s' where
  records := records.keepStates ha.states
  owed i r ho := by
    rcases ha.owes i r ho with ho | ho | ho
    · exact (h.owed i r ho).keep ha.states hk
    · exact matches_of_origin_none ho
    · exact (hnew i r ho).keep ha.states hk
  delivered p hp := by
    rcases ha.delivered p hp with hp | ho | ⟨r, ho, horigin⟩
    · exact (h.delivered p hp).keep ha.states hk
    · exact matches_of_origin_none ho
    · exact ((h.owed p.1 r ho).of_origin_eq horigin).keep ha.states hk

theorem responsesMatch_step {options : RpcServerOptions} {s' : RpcServer} {l : Label}
    (h : ResponsesMatch s) (hok : RecordsFit s l) (hs : s.step options l = some s') :
    ResponsesMatch s' := by
  have hr := h.records
  obtain ⟨new, he, ha⟩ := step_effect options hs
  refine h.step ha he.executionsKept ?_ ?_
  all_goals
    clear ha
    unfold RecordsFit at hok
    generalize s.workOf l = w at he hok
    generalize s'.executions = executions, s'.table = table at he ⊢
  · cases he with
    | quiet => exact hr
    | phase hx hw _ ho => exact hr.setPhase hx hw ho
    | start hi hk => exact hr.start ⟨_, hi, rfl, rfl⟩ (by simp) fun _ hne => absurd hk hne
    | resolve _ hi hk ht => exact hr.resolve ⟨_, hi, rfl, rfl⟩ (hok _ hi hk) ht
    | deliver hx hw => exact hr.setPhase hx (by simp [hw]) (by simp)
    | complete hx hw hk => exact hr.complete hx hw hk
    | drop _ => exact hr.dropWaiter _ _
  · cases he with
    | resolve _ hi _ ht =>
      -- The cached response is that of a record with the body of this request.
      rintro j r ⟨rfl, hcached⟩ e ho
      obtain ⟨-, -, -, had⟩ | ⟨-, -, -, -, -, had⟩ | ⟨record, hrec, hbody, -, -, had⟩ | ⟨-, -, had⟩ |
        ⟨-, -, had⟩ := resolve_cases ht <;> rw [had] at hcached <;> cases hcached
      exact ⟨_, _, ⟨_, hi, rfl, rfl⟩, fun _ => hbody ▸ hr.cached _ record hrec e ho⟩
    | deliver hx hw =>
      rintro j r' ⟨rfl, hk, rfl⟩ e' ho
      exact ⟨_, _, hr.request _ _ hx, fun hne => absurd hk hne⟩
    | @complete _ e x _ c hx hw hk =>
      -- The waiters have the body of the record, and so has the execution that finishes it.
      rintro j r' ⟨hj, rfl⟩ e' ho
      obtain ⟨record, hrec, hmem⟩ := mem_finish_waiters hj
      obtain rfl := hr.own e x r' c hx hw e' ho
      have hbody := hr.body e' x record hx hk (by simp [hw]) hrec
      exact ⟨_, _, hr.waiters _ record hrec j hmem, fun _ => ⟨x, hx, rfl, hbody⟩⟩
    | _ => exact fun _ _ hf => hf.elim

theorem responsesMatch_init (n : Nat) : ResponsesMatch (.init n) where
  records :=
    { request := by simp [init]
      own := by simp [init]
      body := by simp [init]
      waiters := fun _ _ h => absurd h (by simp [init, find])
      cached := fun _ _ h => absurd h (by simp [init, find]) }
  owed := by
    rintro i r (⟨stack, hst, w, hw, -⟩ | ⟨m, hm, -⟩)
    · obtain rfl := eq_of_mem_replicate hst
      cases hw
    · exact absurd hm (by simp [init])
  delivered := by simp [init]

/-- **Matching**: where every record is created with the body of the executions of its key in
progress, a handler's response that `Finish` delivers to a keyed request comes from an execution
started for a request with that key and that body. -/
theorem delivered_response_matches (options : RpcServerOptions) (n : Nat) {s : RpcServer}
    (h : Reaches (RpcServer.step options) RecordsFit (.init n) s) {i e : Nat} {r : Response}
    {state : RequestState} (hd : (i, r) ∈ s.delivered) (hi : s.states[i]? = some state)
    (hk : state.idempotencyKey ≠ []) (ho : r.origin = some e) :
    ∃ x started, s.executions[e]? = some x ∧ s.states[x.request]? = some started ∧
      started.idempotencyKey = state.idempotencyKey ∧ started.body = state.body := by
  have hinv : ResponsesMatch s :=
    h.invariant (responsesMatch_init n) fun _ _ _ hi hok hs => responsesMatch_step hi hok hs
  obtain ⟨key, body, ⟨state', hi', rfl, rfl⟩, hst⟩ := hinv.delivered _ hd e ho
  cases hi.symm.trans hi'
  obtain ⟨x, hx, hkey, hbody⟩ := hst hk
  obtain ⟨started, hreq, hkey', hbody'⟩ := hinv.records.request e x hx
  exact ⟨x, started, hx, hreq, hkey'.trans hkey, hbody'.trans hbody⟩

/-! ## Runs -/

/-- What the handler returns in the runs below. -/
def handlerFrame : Frame where
  header := { messageType := .response }
  metadata := []
  body := [9]

/-- The worker of execution `e` ends, and its shard finishes the first waiter of the record. -/
def answered (e : Nat) : List Label :=
  [.workerEnds e (.returns handlerFrame), .deliver 0, .work 0 .none, .work 0 .none, .work 0 .none]

/-- A request is executed and gets the response of its own execution. -/
theorem delivered_response_matches_plain :
    ∃ s, Reaches (step pooledOptions) RecordsFit (.init 1) s ∧
      ∃ (r : Response) (state : RequestState), (0, r) ∈ s.delivered ∧ s.states[0]? = some state ∧
        state.idempotencyKey ≠ [] ∧ r.origin = some 0 ∧
        ∃ x started, s.executions[0]? = some x ∧ s.states[x.request]? = some started ∧
          started.idempotencyKey = state.idempotencyKey ∧ started.body = state.body := by
  refine exists_reaches_of_exec
      (p := fun s => s.delivered = [(0, Response.addressedTo ⟨handlerFrame, some 0⟩ 1)] ∧
      (s.states[0]?.any fun state => decide (state.idempotencyKey ≠ [])) = true)
    (.attachConnection 0 [] :: submitted (keyedRequest 1 [5]) ++ .workerStarts 0 :: answered 0)
    (by decide) fun s hr hs => ?_
  obtain ⟨hdelivered, hstate⟩ := hs
  obtain ⟨state, hi, hk⟩ := (any_eq_true _ _).mp hstate
  have hd : (0, Response.addressedTo ⟨handlerFrame, some 0⟩ 1) ∈ s.delivered := by
    rw [hdelivered]; exact mem_singleton_self _
  have hk := of_decide_eq_true hk
  exact ⟨_, state, hd, hi, hk, rfl,
    delivered_response_matches pooledOptions 1 hr hd hi hk rfl⟩

/-- Request 0 with body 5 is cancelled while its handler runs; request 1 comes under the same key
with body 6 and has a record of its own; then the first handler returns, and its response is
delivered to request 1. -/
theorem response_of_another_body : ∃ s, Reachable (step pooledOptions) (.init 1) s ∧
      ∃ (r : Response) (state started : RequestState) (x : Execution), (1, r) ∈ s.delivered ∧
        s.states[1]? = some state ∧ state.idempotencyKey ≠ [] ∧ r.origin = some 0 ∧
        s.executions[0]? = some x ∧ s.states[x.request]? = some started ∧
        started.body ≠ state.body := by
  refine exists_reaches_of_exec
      (p := fun s => (1, Response.addressedTo ⟨handlerFrame, some 0⟩ 2) ∈ s.delivered ∧
      (s.states[1]?.any fun state => decide (state.idempotencyKey ≠ [] ∧
        (s.executions[0]?.any fun x => s.states[x.request]?.any fun started =>
          decide (started.body ≠ state.body)) = true)) = true)
    (.attachConnection 0 [] :: submitted (keyedRequest 1 [5]) ++ .workerStarts 0 :: cancelled 1 ++
      submitted (keyedRequest 2 [6]) ++ answered 0) (by decide +kernel) fun s hr hs => ?_
  obtain ⟨hd, hstate⟩ := hs
  obtain ⟨state, hi, hstate⟩ := (any_eq_true _ _).mp hstate
  obtain ⟨hk, hexec⟩ := of_decide_eq_true hstate
  obtain ⟨x, hx, hexec⟩ := (any_eq_true _ _).mp hexec
  obtain ⟨started, hreq, hne⟩ := (any_eq_true _ _).mp hexec
  exact ⟨_, state, started, x, hd, hi, hk, rfl, hx, hreq, of_decide_eq_true hne⟩

end CoroRpc.Server
