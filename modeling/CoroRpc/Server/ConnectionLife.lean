import CoroRpc.Server.DrainCompletion
import CoroRpc.Server.Moves
import CoroRpc.Server.Writer
import Mathlib.Data.Finset.Card

/-!
# One connection in three models

`Requests`, `Shutdown` and `Writer` each follow a `ServerConnection` as far as their results need
it: with the idempotency table and the executors, with the shards and the counters, with the queue
and the socket. Here they are models of one thing. A `Life` is what all three keep of a connection,
and its steps are `AddRequest`, `CompleteRequest`, `BeginDrain` and `Close`; a `RequestLife` is what
the first two keep of a `RequestState`. Each model refines these: a step of it takes the lives of
its connections and requests along steps of theirs. So what the steps of a life keep
(`Life.Step.sound`) holds of the connections of all three.
-/

namespace CoroRpc.Server

open Lib Protocol List Option

/-! ## The common model -/

/-- What all three models keep of a connection. -/
structure Life where
  /-- The keys of `requests_`. -/
  requests : Finset UInt64 := ∅
  draining : Bool := false
  closed : Bool := false

/-- `AddRequest`, `CompleteRequest`, `BeginDrain` and `Close`. -/
inductive Life.Step (limit : Nat) : Life → Life → Prop
  | addRequest {l : Life} {requestId : UInt64} (isOpen : l.closed = false)
      (room : l.requests.card < limit) (new : requestId ∉ l.requests) :
      Step limit l { l with requests := insert requestId l.requests }
  | completeRequest {l : Life} (requestId : UInt64) :
      Step limit l { l with requests := l.requests.erase requestId }
  | beginDrain {l : Life} : Step limit l { l with draining := true }
  | close {l : Life} (isOpen : l.closed = false) :
      Step limit l { l with requests := ∅, closed := true }

/-- No more requests than `max_inflight_per_connection`, and none on a closed connection. -/
structure Life.Sound (limit : Nat) (l : Life) : Prop where
  bounded : l.requests.card ≤ limit
  detached : l.closed = true → l.requests = ∅

theorem Life.sound_new (limit : Nat) : ({} : Life).Sound limit :=
  ⟨Nat.zero_le _, fun hc => absurd hc Bool.false_ne_true⟩

theorem Life.Step.sound {limit : Nat} {l l' : Life} (h : Step limit l l') (hl : l.Sound limit) :
    l'.Sound limit := by
  cases h with
  | addRequest hopen hroom _ =>
    exact ⟨(Finset.card_insert_le _ _).trans hroom,
      fun hc => absurd (hopen.symm.trans hc) Bool.false_ne_true⟩
  | completeRequest id =>
    exact ⟨(Finset.card_le_card (Finset.erase_subset _ _)).trans hl.bounded,
      fun hc => by rw [hl.detached hc, Finset.erase_empty]⟩
  | beginDrain => exact ⟨hl.bounded, hl.detached⟩
  | close _ => exact ⟨Nat.zero_le _, fun _ => rfl⟩

theorem Life.Sound.steps {limit : Nat} {l l' : Life} (hl : l.Sound limit)
    (h : Relation.ReflTransGen (Step limit) l l') : l'.Sound limit := by
  induction h with
  | refl => exact hl
  | tail _ hstep ih => exact hstep.sound ih

/-- What two of them keep of a request. -/
structure RequestLife where
  connection : Nat
  owner : Nat
  requestId : UInt64
  completed : Bool

/-- `Finish` and `Abandon`, of which one comes first. -/
inductive RequestLife.Step : RequestLife → RequestLife → Prop
  | complete {l : RequestLife} (was : l.completed = false) : Step l { l with completed := true }

section
variable {limit : Nat} {requests : AList fun _ : UInt64 => Nat} {draining closed : Bool}

/-- `requests_` as a map, the way two of the models have it. -/
def Life.ofMap (requests : AList fun _ : UInt64 => Nat) (draining closed : Bool) : Life :=
  ⟨requests.keys.toFinset, draining, closed⟩

/-- The tests of `AddRequest` are those of the common step. -/
theorem Life.step_insert {requestId : UInt64} (i : Nat)
    (h : (closed || decide (requests.entries.length ≥ limit) ||
      (requests.lookup requestId).isSome) = false) :
    Step limit (ofMap requests draining closed)
      (ofMap (requests.insert requestId i) draining closed) := by
  simp only [Bool.or_eq_false_iff, decide_eq_false_iff_not, Nat.not_le] at h
  obtain ⟨⟨hopen, hroom⟩, hnew⟩ := h
  have hkeys : (requests.insert requestId i).keys.toFinset =
      insert requestId requests.keys.toFinset := by
    ext
    rw [Finset.mem_insert, List.mem_toFinset, List.mem_toFinset]
    exact AList.mem_insert _
  have hcard : requests.keys.toFinset.card ≤ requests.entries.length :=
    (toFinset_card_le _).trans (length_map _).le
  unfold ofMap
  rw [hkeys]
  refine .addRequest hopen (hcard.trans_lt hroom) ?_
  rw [List.mem_toFinset, ← AList.mem_keys, ← AList.lookup_isSome, hnew]
  exact Bool.false_ne_true

theorem Life.step_erase (requestId : UInt64) : Step limit (ofMap requests draining closed)
      (ofMap (requests.erase requestId) draining closed) := by
  have hkeys : (requests.erase requestId).keys.toFinset =
      requests.keys.toFinset.erase requestId := by
    ext
    rw [Finset.mem_erase, List.mem_toFinset, List.mem_toFinset]
    exact AList.mem_erase
  unfold ofMap
  rw [hkeys]
  exact .completeRequest requestId

end

/-! ## The request path -/

def ServerConnection.life (x : ServerConnection) : Life := .ofMap x.requests x.draining x.closed

def RequestState.life (x : RequestState) : RequestLife :=
  ⟨x.connection, x.owner, x.requestId, x.completed⟩

/-- The lives of the connections and of the requests take steps of the common model. -/
structure RpcServer.Lives (options : RpcServerOptions) (s s' : RpcServer) : Prop where
  connections : Rows (Life.Step options.maxInflightPerConnection) (· = {}) ServerConnection.life
    s.connections s'.connections
  requests : Rows RequestLife.Step (·.completed = false) RequestState.life s.states s'.states

variable {options : RpcServerOptions}

theorem Move.lives {s s' : RpcServer} {k : Nat} {heard : List (Nat × UInt64)} {w : Option Work}
    {calls : List Work} (h : Move options s k heard w s' calls) : s.Lives options s' := by
  cases h with
  | finish hx hc _ _ | abandon hx hc _ =>
    refine ⟨.of_map_eq rfl, .modify fun x hx' => ?_⟩
    cases hx.symm.trans hx'
    exact .complete hc
  | completeRequest => exact ⟨.modify fun x _ => Life.step_erase _, .of_map_eq rfl⟩
  | close hx hopen =>
    refine ⟨.modify fun x hx' => ?_, .of_map_eq rfl⟩
    cases hx.symm.trans hx'
    exact .close hopen
  | accept hx _ _ hnew hroom =>
    obtain ⟨hc, rfl, rfl⟩ := hnew
    refine ⟨.modify fun x hx' => ?_, .append hc⟩
    cases hx.symm.trans hx'
    exact Life.step_insert _ hroom
  | drain => exact ⟨.modify fun _ _ => .beginDrain, .of_map_eq rfl⟩
  | cancel _ => exact ⟨.of_map_eq rfl, .of_map_eq (map_modify_eq fun _ => rfl)⟩
  | suspend _ _ _ | suspendView | queue _ _ _ | resume _ _ _ _ _ _ | resumeView _ _ _ _ =>
    exact ⟨.of_map_eq (map_modify_eq fun _ => rfl), .of_map_eq rfl⟩
  | _ => exact ⟨.of_map_eq rfl, .of_map_eq rfl⟩

/-- The request path refines the common model. -/
theorem RpcServer.step_lives {s s' : RpcServer} {l : Label} (h : s.step options l = some s') :
    s.Lives options s' := by
  cases step_turn h with
  | attach _ _ _ => exact ⟨.append rfl, .of_map_eq rfl⟩
  | still _ _ _ | worker _ _ _ _ _ _ | take _ _ _ => exact ⟨.of_map_eq rfl, .of_map_eq rfl⟩
  | thread _ _ _ hmove => exact ⟨hmove.lives.connections, hmove.lives.requests⟩

theorem RpcServer.sound_of_reachable {n : Nat} {s : RpcServer}
    (h : Reachable (RpcServer.step options) (.init n) s) :
    ∀ x ∈ s.connections, x.life.Sound options.maxInflightPerConnection :=
  h.invariant (by simp [RpcServer.init]) fun _ _ _ hs _ ht =>
    (step_lives ht).connections.forall_mem (fun _ hy => hy ▸ Life.sound_new _)
      (fun _ _ hstep => hstep.sound) hs

/-! ## Draining and stopping -/

namespace Shutdown

def ServerConnection.life (x : ServerConnection) : Life := .ofMap x.requests x.draining x.closed

def RequestState.life (x : RequestState) : RequestLife :=
  ⟨x.connection, x.owner, x.requestId, x.completed⟩

structure ShardedServer.Lives (limits : ServerLimits) (s s' : ShardedServer) : Prop where
  connections : Rows (Life.Step limits.maxInflightPerConnection) (· = {}) ServerConnection.life
    s.connections s'.connections
  requests : Rows RequestLife.Step (·.completed = false) RequestState.life s.states s'.states

namespace ShardedServer

variable {limits : ServerLimits} {s s' : ShardedServer} {k : Nat} {calls : List Work}
  {choice : Choice} {w : Work}

theorem Lives.of_eq (hc : s'.connections = s.connections) (hr : s'.states = s.states) :
    s.Lives limits s' := ⟨.of_map_eq (by rw [hc]), .of_map_eq (by rw [hr])⟩

/-- `OnConnectionClosed` finds the connection that is closed, and no other. -/
theorem close_lives (hs : s.Linked) {c : Nat} {connection : ServerConnection}
    (hc : s.connections[c]? = some connection) : s.Lives limits (s.close c connection).1 := by
  unfold close
  split
  · exact .of_eq rfl rfl
  · next hopen =>
    rw [Bool.not_eq_true] at hopen
    obtain ⟨table, htable, hfd⟩ := hs.listed c connection hc hopen
    simp only [onConnectionClosed, setConnection, htable, hfd]
    refine ⟨?_, .of_map_eq rfl⟩
    show Rows _ _ _ s.connections ((s.connections.modify c _).modify c _)
    rw [modify_modify_eq]
    refine .modify fun x hx => ?_
    cases hc.symm.trans hx
    exact .close hopen

theorem complete_lives {i : Nat} {state : RequestState} (hi : s.states[i]? = some state)
    (hc : state.completed = false) (hconn : s'.connections = s.connections)
    (hst : s'.states = s.states.modify i fun state => { state with completed := true }) :
    s.Lives limits s' := by
  refine ⟨.of_map_eq (by rw [hconn]), hst ▸ .modify fun x hx => ?_⟩
  cases hi.symm.trans hx
  exact .complete hc

theorem doWork_lives (hs : s.Linked) (h : s.doWork limits k w choice = some (s', calls)) :
    s.Lives limits s' := by
  cases w <;> simp only [doWork] at h
  case emplace fd =>
    obtain ⟨table, -, h⟩ := bind_eq_some_iff.mp h
    unfold emplace at h
    split at h
    · split at h <;> cases h
      · exact .of_eq rfl rfl
      · exact ⟨.append rfl, .of_map_eq rfl⟩
    · cases h
  case addRequest c requestId =>
    obtain ⟨connection, hc, h⟩ := map_eq_some_iff.mp h
    unfold addRequest at h
    split at h <;> cases h
    · exact .of_eq rfl rfl
    · next hroom =>
      refine ⟨.modify fun x hx => ?_, .append rfl⟩
      cases hc.symm.trans hx
      exact Life.step_insert _ (by simpa [refusesRequest] using hroom)
  case completeRequest i =>
    obtain ⟨state, -, h⟩ := map_eq_some_iff.mp h
    cases h
    exact ⟨.modify fun _ _ => Life.step_erase _, .of_map_eq rfl⟩
  case close c =>
    obtain ⟨connection, hc, h⟩ := map_eq_some_iff.mp h
    have hlives : s.Lives limits (s.close c connection).1 := close_lives hs hc
    rwa [h] at hlives
  case finish i =>
    obtain ⟨state, hi, h⟩ := map_eq_some_iff.mp h
    unfold finish at h
    split at h <;> cases h
    · exact .of_eq rfl rfl
    · next hc => exact complete_lives hi (by simpa using hc) rfl rfl
  case abandonAll requests =>
    unfold abandonAll at h
    split at h
    · split at h
      · split at h <;> cases h
        exact .of_eq rfl rfl
      · obtain ⟨state, hi, h⟩ := map_eq_some_iff.mp h
        cases h
        unfold abandon
        split
        · exact .of_eq rfl rfl
        · next hc => exact complete_lives hi (by simpa using hc) rfl rfl
    · cases h
  case beginDrainAll connections =>
    cases connections with
    | nil => cases h; exact .of_eq rfl rfl
    | cons c connections =>
      cases h
      exact ⟨.modify fun _ _ => .beginDrain, .of_map_eq rfl⟩
  case view c =>
    unfold view at h
    split at h <;> cases h
    · exact .of_eq rfl rfl
    · exact ⟨.of_map_eq (map_modify_eq fun _ => rfl), .of_map_eq rfl⟩
  case serve i =>
    obtain ⟨state, -, h⟩ := bind_eq_some_iff.mp h
    unfold serve at h
    split at h <;> cases h
    · exact .of_eq rfl rfl
    · exact ⟨.of_map_eq (map_modify_eq fun _ => rfl), .of_map_eq rfl⟩
  case queueFrame c | maybeCloseAfterDrain c =>
    obtain ⟨connection, -, h⟩ := bind_eq_some_iff.mp h
    simp only [queueFrame, maybeCloseAfterDrain] at h
    split at h <;> cases h
    exact .of_eq rfl rfl
  all_goals
    -- the other functions leave both tables alone
    simp only [attachConnection, onFrame, finishWaiters, reserve, acquireInflight, maybeFinishDrain,
      requestBeginDrain, stopNow, stopAccepting, closeShards, closeAll, some.injEq] at h
    repeat' split at h
    all_goals cases h
    all_goals exact .of_eq rfl rfl

theorem beginDrain_lives (s : ShardedServer) (timeoutMs : Nat) :
    s.Lives limits (s.beginDrain timeoutMs).1 := by
  unfold beginDrain
  repeat' split
  all_goals exact .of_eq rfl rfl

/-- So does the server that drains and stops. -/
theorem step_lives (hs : s.Linked) {l : Label} (h : s.step limits l = some s') :
    s.Lives limits s' := by
  cases l <;> simp only [step, run] at h
  case work k choice =>
    split at h
    · obtain ⟨⟨s₁, calls⟩, hw, rfl⟩ := map_eq_some_iff.mp h
      have hlives := doWork_lives hs hw
      exact ⟨hlives.connections, hlives.requests⟩
    · cases h
  case beginDrain timeoutMs =>
    have hlives : s.Lives limits _ := s.beginDrain_lives timeoutMs
    split at h <;> cases h
    exact ⟨hlives.connections, hlives.requests⟩
  case resumeReader c waiters =>
    repeat' split at h
    all_goals cases h
    all_goals exact ⟨.of_map_eq (map_modify_eq fun _ => rfl), .of_map_eq rfl⟩
  all_goals
    -- a closure is posted, or a thread begins
    repeat' split at h
    all_goals cases h
    all_goals exact .of_eq rfl rfl

theorem sound_of_reachable {n : Nat} (h : Reachable (step limits) (init n) s) :
    ∀ x ∈ s.connections, x.life.Sound limits.maxInflightPerConnection :=
  (h.invariant (p := fun s => s.Sound limits ∧
      ∀ x ∈ s.connections, x.life.Sound limits.maxInflightPerConnection)
    ⟨init_sound limits n, by simp [init]⟩ fun _ _ _ hs _ ht => ⟨step_sound hs.1 ht,
      (step_lives hs.1.placed.linked ht).connections.forall_mem (fun _ hy => hy ▸ Life.sound_new _)
        (fun _ _ hstep => hstep.sound) hs.2⟩).2

end ShardedServer
end Shutdown

/-! ## The writer -/

namespace ConnectionWriter

variable {s s' : ConnectionWriter}

/-- The writer has the keys of `requests_` only. -/
def life (s : ConnectionWriter) : Life := ⟨s.requests.toFinset, s.draining, s.closed⟩

/-- The life of the connection takes steps of the common model, for the same limit. -/
def Lives (s s' : ConnectionWriter) : Prop :=
  s'.maxInflightPerConnection = s.maxInflightPerConnection ∧
    Relation.ReflTransGen (Life.Step s.maxInflightPerConnection) s.life s'.life

theorem Lives.trans {t : ConnectionWriter} (h : s.Lives t) (h' : t.Lives s') : s.Lives s' :=
  ⟨h'.1.trans h.1, h.2.trans (h.1 ▸ h'.2)⟩

theorem Lives.of_eq (hm : s'.maxInflightPerConnection = s.maxInflightPerConnection)
    (hr : s'.requests = s.requests) (hd : s'.draining = s.draining) (hc : s'.closed = s.closed) :
    s.Lives s' := by
  refine ⟨hm, ?_⟩
  unfold life
  rw [hr, hd, hc]

theorem close_lives (s : ConnectionWriter) : s.Lives s.close := by
  unfold close
  split
  · exact .of_eq rfl rfl rfl rfl
  · next hopen => exact ⟨rfl, .single (.close (Bool.eq_false_iff.mpr hopen))⟩

theorem maybeCloseAfterDrain_lives (s : ConnectionWriter) : s.Lives s.maybeCloseAfterDrain := by
  unfold maybeCloseAfterDrain
  split
  · exact s.close_lives
  · exact .of_eq rfl rfl rfl rfl

theorem queueFrame_lives (s : ConnectionWriter) (frame : Frame) : s.Lives (s.queueFrame frame) := by
  unfold queueFrame
  split
  · exact .of_eq rfl rfl rfl rfl
  · split
    · exact s.close_lives
    · unfold queueEncoded
      split
      · exact s.close_lives
      · exact .of_eq rfl rfl rfl rfl

theorem addRequest_lives (s : ConnectionWriter) (requestId : UInt64) :
    s.Lives (s.addRequest requestId) := by
  unfold addRequest
  split
  · exact .of_eq rfl rfl rfl rfl
  · next hroom =>
    simp only [not_or, Bool.not_eq_true, Nat.not_le] at hroom
    obtain ⟨hopen, hroom, hnew⟩ := hroom
    have hkeys : (s.requests ++ [requestId]).toFinset = insert requestId s.requests.toFinset := by
      ext
      simp
    refine ⟨rfl, .single ?_⟩
    unfold life
    rw [hkeys]
    exact .addRequest hopen ((toFinset_card_le _).trans_lt hroom) (by simpa using hnew)

theorem completeRequest_lives (s : ConnectionWriter) (requestId : UInt64) (response : Frame) :
    s.Lives (s.completeRequest requestId response) := by
  have hkeys : (s.requests.filter (· != requestId)).toFinset = s.requests.toFinset.erase requestId := by
    ext
    simp [and_comm]
  have herase : s.Lives { s with requests := s.requests.filter (· != requestId) } := by
    refine ⟨rfl, .single ?_⟩
    unfold life
    rw [hkeys]
    exact .completeRequest requestId
  exact herase.trans (queueFrame_lives _ response)

theorem writerLoop_lives (s : ConnectionWriter) : s.Lives s.writerLoop := by
  obtain ⟨out, rest, bytes, -, hfill⟩ := Streams.fillBatch_spec s.outbound { s with writeBatch := [] }
  unfold writerLoop
  simp only [hfill]
  repeat' split
  all_goals exact .of_eq rfl rfl rfl rfl

theorem writeShort_lives (s : ConnectionWriter) : s.Lives s.writeShort :=
  close_lives { s with writeFailed := true }

/-- The outbound side refines the common model as well. -/
theorem step_lives {l : WriterLabel} (h : s.step l = some s') : s.Lives s' := by
  cases l <;> simp only [step] at h
  case start | ioReady =>
    split at h <;> cases h
    exact .of_eq rfl rfl rfl rfl
  case addRequest requestId =>
    split at h <;> cases h
    exact s.addRequest_lives requestId
  case queueFrame frame =>
    split at h <;> cases h
    exact s.queueFrame_lives frame
  case completeRequest requestId response =>
    split at h <;> cases h
    exact s.completeRequest_lives requestId response
  case beginDrain =>
    split at h <;> cases h
    have hdraining : s.Lives { s with draining := true } := ⟨rfl, .single .beginDrain⟩
    exact hdraining.trans (maybeCloseAfterDrain_lives _)
  case close =>
    split at h <;> cases h
    exact s.close_lives
  case tick =>
    unfold tick at h
    split at h
    · cases h
      exact s.writerLoop_lives
    · cases h
      exact s.maybeCloseAfterDrain_lives
    · cases h
    · split at h <;> cases h
      exact maybeCloseAfterDrain_lives { s with finishing := false }
  case writeReturns result =>
    split at h
    · cases result with
      | accepted n =>
        simp only [writeReturns] at h
        repeat' split at h
        all_goals cases h
        all_goals exact .of_eq rfl rfl rfl rfl
      | zero | error =>
        cases h
        exact s.writeShort_lives
      | wouldBlock | interrupted =>
        cases h
        exact .of_eq rfl rfl rfl rfl
    · cases h
  case run =>
    split at h
    · split at h
      · cases h
      · split at h <;> cases h
        · exact .of_eq rfl rfl rfl rfl
        · exact s.writeShort_lives
    · cases h

theorem sound_of_reachable {maxInflight maxOutbound : Nat}
    (h : Reachable step (init maxInflight maxOutbound) s) : s.life.Sound maxInflight :=
  (h.invariant (p := fun s => s.maxInflightPerConnection = maxInflight ∧ s.life.Sound maxInflight)
    ⟨rfl, Life.sound_new _⟩ fun _ _ _ hs _ ht =>
      ⟨(step_lives ht).1.trans hs.1, hs.2.steps (hs.1 ▸ (step_lives ht).2)⟩).2

end ConnectionWriter

end CoroRpc.Server
