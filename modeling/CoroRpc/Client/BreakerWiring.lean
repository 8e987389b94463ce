import CoroRpc.Client.BreakerTrip
import CoroRpc.Client.Shard
import CoroRpc.Lib.Table

/-!
# What the breakers learn of the calls

`GetConnectionForCall` asks the breaker of an endpoint for a permit and drops the permit. `RpcStub::Call`
(`rpc_src/task/crtco.h`) returns what `MultiplexedConnection::Call` returns. Neither calls `Record`,
and nothing else does: the outcome of a call never reaches the breaker, which stays as
`PublishService` made it. `StubCalls` is a shard together with the outcomes of the calls that have
ended, so that what the breaker should have counted can be compared with what it does.

Every breaker that is asked therefore grants, and never with a half-open permit. Which endpoint a step
returns is said by `routed`, which looks at no breaker and at no outcome: an endpoint whose calls fail
is used as before, and an open interval is respected exactly where the routing happens to pick
another endpoint.
-/

namespace CoroRpc.Client

open Lib Protocol Server List Option ClientShard

/-! ## Calls that end -/

def RoutePc.isReturned : RoutePc → Bool
  | .returned _ _ => true
  | _ => false

/-- The connection that a call has got. -/
def RoutePc.connection : RoutePc → Option Nat
  | .returned c _ => c
  | _ => none

structure EndedCall where
  service : Bytes
  address : Bytes
  result : CallOutcome
  nowMs : Nat
  deriving DecidableEq

structure StubCalls where
  shard : ClientShard := {}
  ended : List Nat := []
  outcomes : List EndedCall := []

inductive StubLabel where
  | route (l : ShardLabel)
  /-- `conn->Call` returns to `RpcStub::Call`, which returns. -/
  | finish (call : Nat) (result : CallOutcome) (nowMs : Nat)
  deriving DecidableEq

/-- The outcomes that `Record` would count in the window. -/
def CallOutcome.counted (result : CallOutcome) : Bool := !result.localFailure && !result.overload

/-- Service and address of a call that has this connection. -/
def ClientShard.endpoint (s : ClientShard) (service : Bytes) (c : Nat) : Option (Bytes × Bytes) :=
  s.objects[c]?.map fun object => (service, object.address)

namespace StubCalls

/-- Service and address of the connection that call `i` has got. -/
def endpointOf (s : StubCalls) (i : Nat) : Option (Bytes × Bytes) :=
  s.shard.calls[i]?.bind fun call => call.pc.connection.bind (s.shard.endpoint call.service)

def step (options : RpcClientOptions) (resolves : Bytes → Bool) (s : StubCalls) :
    StubLabel → Option StubCalls
  | .route l => (s.shard.step options resolves l).map fun shard => { s with shard := shard }
  | .finish i result nowMs =>
    if i ∈ s.ended then none
    else
      (s.endpointOf i).map fun (service, address) =>
        -- the breaker is not told
        { s with
          ended := i :: s.ended
          outcomes := s.outcomes ++ [{ service, address, result, nowMs }] }

/-- The outcomes of the endpoint that count. -/
def history (s : StubCalls) (service address : Bytes) : List EndedCall :=
  s.outcomes.filter fun call =>
    decide (call.service = service ∧ call.address = address) && call.result.counted

/-- The window that the last of these outcomes is in has enough of them, and enough failures. -/
def TrippedBy (options : RpcClientOptions) (outcomes : List EndedCall) : Prop :=
  Tripped options (currentWindow options.circuitBreaker.windowSize (outcomes.map EndedCall.result))

instance (options : RpcClientOptions) (outcomes : List EndedCall) :
    Decidable (TrippedBy options outcomes) := inferInstanceAs (Decidable (Tripped _ _))

/-- An outcome of this endpoint has tripped the window less than `interval` ago. -/
def OpenAt (options : RpcClientOptions) (s : StubCalls) (service address : Bytes)
    (interval nowMs : Nat) : Prop :=
  ∃ past last, past ++ [last] <+: s.history service address ∧
    TrippedBy options (past ++ [last]) ∧ nowMs < last.nowMs + interval

/-- The step from `s` to `s'` returns a connection to this endpoint to a call. -/
def Returns (s s' : StubCalls) (service address : Bytes) : Prop :=
  ∃ i, s'.endpointOf i = some (service, address) ∧
    ∀ earlier, s.shard.calls[i]? = some earlier → earlier.pc.isReturned = false

end StubCalls

/-! ## Routing without breakers -/

namespace ClientShard

/-- The connection under the key, if it is ready. -/
def readyConnection (s : ClientShard) (key : Bytes) : Option Nat :=
  (s.findConnection key).filter fun c => s.isReady c

/-- What the loop over these endpoints returns at once: the connection of the first endpoint that
    serves the call and resolves, if that one is ready. -/
def listedConnection (resolves : Bytes → Bool) (call : RouteCall) (endpoints : Endpoints)
    (s : ClientShard) : Option Nat :=
  (endpoints.find? fun (_, endpoint) => serves call endpoint && resolves endpoint.host).bind
    fun (key, _) => s.readyConnection key

/-- What a call of this method returns at once: the connection of the cached route, or the one under
    its key. -/
def cachedConnection (service method requestSchema : Bytes) (s : ClientShard) : Option Nat :=
  let cached := s.cachedRoute
  if cached.generation = s.servicesGeneration ∧ cached.service = service ∧
      cached.method = method ∧ cached.requestSchema = requestSchema then
    (cached.connection.filter fun c => s.isReady c).or (s.readyConnection cached.endpointKey)
  else none

/-- What the call returns when its `Connect` does: the new connection, or what the loop finds behind
    the endpoint that has failed. -/
def connectedConnection (resolves : Bytes → Bool) (call : RouteCall) (s : ClientShard) :
    Bool → Option Nat
  | true =>
    match call.pc with
    | .connecting c _ => some c
    | _ => none
  | false =>
    match call.pc with
    | .connecting c (.listed _ _ _ rest _) =>
      (s.setState c .disconnected).listedConnection resolves call rest
    | _ => none

/-- The endpoint that the step returns to a call, without a look at the breakers. -/
def routed (resolves : Bytes → Bool) (s : ClientShard) : ShardLabel → Option (Bytes × Bytes)
  | .call service method requestSchema _ =>
    (s.cachedConnection service method requestSchema).bind (s.endpoint service)
  | .lookUp _ =>
    (s.current.bind fun i => s.calls[i]?).bind fun call =>
      (s.listedConnection resolves call ((s.services.lookup call.service).getD [])).bind
        (s.endpoint call.service)
  | .connected i _ ok =>
    s.calls[i]?.bind fun call =>
      (s.connectedConnection resolves call ok).bind (s.endpoint call.service)
  | .publish .. | .finishPublish _ | .retire _ | .close _ => none

variable {options : RpcClientOptions} {resolves : Bytes → Bool} {s s' t : ClientShard}

/-! ## The breakers of a shard -/

/-- Every breaker is as `PublishService` made it. -/
def Fresh (s : ClientShard) : Prop := ∀ breaker ∈ s.breakers, breaker = {}

theorem Fresh.congr (hs : s.Fresh) (h : s'.breakers = s.breakers) : s'.Fresh := by
  unfold Fresh
  rw [h]
  exact hs

variable {nowMs : Nat}

/-- A breaker that is asked grants, and stays as it is. -/
theorem Fresh.allowBreaker {b : Nat} {granted : Bool} (h : s.Fresh)
    (hallowed : s.allowBreaker options b nowMs = some (s', granted)) : s' = s ∧ granted = true := by
  unfold ClientShard.allowBreaker at hallowed
  split at hallowed
  · cases hallowed
  rename_i breaker hget
  obtain rfl := h breaker (mem_of_getElem? hget)
  obtain ⟨hlt, hsame⟩ := List.getElem?_eq_some_iff.mp hget
  cases hallowed
  refine ⟨?_, by decide⟩
  have hset : s.breakers.set b {} = s.breakers := hsame ▸ List.set_getElem_self hlt
  exact congrArg (fun breakers => { s with breakers := breakers }) hset

theorem Fresh.permit {breaker : Option Nat} {granted : Bool} (h : s.Fresh)
    (hallowed : (match breaker with
      | none => some (s, true)
      | some b => s.allowBreaker options b nowMs) = some (s', granted)) :
    s' = s ∧ granted = true := by
  split at hallowed
  · cases hallowed
    exact ⟨rfl, rfl⟩
  · exact h.allowBreaker hallowed

/-! ## What a step of a call does -/

/-- Call `i` is at another place, where it has this connection; breakers, other calls and the address
    of the connection are as before. -/
structure Advances (s s' : ClientShard) (i : Nat) (service : Bytes) (connection : Option Nat) :
    Prop where
  breakers : s'.breakers = s.breakers
  others : ∀ j, j ≠ i → s'.calls[j]? = s.calls[j]?
  call : ∃ call, s'.calls[i]? = some call ∧ call.service = service ∧ call.pc.connection = connection
  endpoint : ∀ c, connection = some c → s'.endpoint service c = s.endpoint service c

variable {i : Nat} {call : RouteCall}

theorem Advances.setCall {pc : RoutePc} {connection : Option Nat} (hi : s.calls[i]? = some call)
    (hbreakers : t.breakers = s.breakers) (hcalls : t.calls = s.calls)
    (hpc : pc.connection = connection)
    (hendpoint : ∀ c, connection = some c → t.endpoint call.service c = s.endpoint call.service c) :
    Advances s (t.setCall i pc) i call.service connection := by
  refine ⟨hbreakers, ?_, ⟨{ call with pc := pc }, ?_, rfl, hpc⟩, hendpoint⟩
  · intro j hj
    simp [ClientShard.setCall, hcalls, Ne.symm hj]
  · simp [ClientShard.setCall, hcalls, hi]

theorem Advances.push {service : Bytes} {connection : Option Nat}
    (hbreakers : t.breakers = s.breakers) (hcalls : t.calls = s.calls ++ [call])
    (hservice : call.service = service) (hpc : call.pc.connection = connection)
    (hendpoint : ∀ c, connection = some c → t.endpoint service c = s.endpoint service c) :
    Advances s t s.calls.length service connection := by
  refine ⟨hbreakers, ?_, ⟨call, ?_, hservice, hpc⟩, hendpoint⟩
  case refine_2 =>
    rw [hcalls]
    exact getElem?_concat_length
  intro j hj
  rw [hcalls]
  rcases Nat.lt_or_ge j s.calls.length with hlt | hge
  · exact getElem?_append_left hlt
  · rw [getElem?_eq_none hge, getElem?_eq_none]
    simp only [length_append, length_singleton]
    omega

theorem getOrCreateConnection_ready {key : Bytes} {address : Option Bytes} {c : Nat}
    (h : s.readyConnection key = some c) :
    s.getOrCreateConnection key address = (s, some c, none) := by
  obtain ⟨hfind, hready⟩ := filter_eq_some_iff.mp h
  simp only [getOrCreateConnection, hfind]
  exact if_pos hready

theorem getOrCreateConnection_new {key : Bytes} (address : Option Bytes)
    (h : s.readyConnection key = none) :
    ∃ t, s.getOrCreateConnection key address = (t, none, address.map fun _ => s.objects.length) ∧
      t.breakers = s.breakers ∧ t.calls = s.calls := by
  have hconnect : ∀ u, ∃ t, getOrCreateConnection.connect address u =
      (t, none, address.map fun _ => u.objects.length) ∧ t.breakers = u.breakers ∧
        t.calls = u.calls := by
    intro u
    cases address <;> exact ⟨_, rfl, rfl, rfl⟩
  unfold getOrCreateConnection
  split
  · rename_i c hfind
    have hready : ¬ s.isReady c = true := filter_eq_none_iff.mp h c hfind
    rw [if_neg hready]
    exact hconnect (s.eraseConnection key)
  · exact hconnect s

theorem Advances.tryEndpoints {generation : Nat} {breakers : List (Bytes × Nat)} (hs : s.Fresh)
    (hi : s.calls[i]? = some call) :
    ∀ endpoints,
      tryEndpoints options resolves i call generation nowMs breakers endpoints s = some s' →
      Advances s s' i call.service (s.listedConnection resolves call endpoints) := by
  intro endpoints
  induction endpoints with
  | nil =>
    intro h
    cases h
    exact .setCall hi rfl rfl rfl fun _ _ => rfl
  | cons first rest ih =>
    intro h
    obtain ⟨key, endpoint⟩ := first
    unfold ClientShard.tryEndpoints at h
    unfold listedConnection
    split at h
    case isFalse hserves =>
      rw [find?_cons_of_neg (by simp [hserves])]
      exact ih h
    rename_i hserves
    dsimp only at h
    split at h
    · cases h
    rename_i t granted hallowed
    obtain ⟨rfl, rfl⟩ := hs.permit hallowed
    rw [Bool.true_and] at h
    split at h
    case isFalse hresolves =>
      rw [find?_cons_of_neg (by simp [hresolves])]
      exact ih h
    rename_i hresolves
    rw [find?_cons_of_pos (by simp [hserves, hresolves]), bind_some]
    -- the first endpoint that serves and resolves is the one at which the loop stops
    show Advances t s' i call.service (t.readyConnection key)
    cases hready : t.readyConnection key with
    | some c =>
      rw [getOrCreateConnection_ready hready] at h
      cases h
      exact .setCall hi rfl rfl rfl fun _ _ => rfl
    | none =>
      obtain ⟨u, heq, hbreakers, hcalls⟩ := getOrCreateConnection_new (some key) hready
      rw [heq] at h
      cases h
      exact .setCall hi hbreakers hcalls rfl fun c hc => by cases hc

theorem Advances.beginCall {service method requestSchema : Bytes} (hs : s.Fresh)
    (h : s.beginCall options service method requestSchema nowMs = some s') :
    Advances s s' s.calls.length service (s.cachedConnection service method requestSchema) := by
  unfold ClientShard.beginCall at h
  unfold cachedConnection
  dsimp only at h ⊢
  split at h
  case isFalse hmiss =>
    rw [if_neg hmiss]
    cases h
    exact .push rfl rfl rfl rfl fun c hc => by cases hc
  rename_i hhit
  rw [if_pos hhit]
  split at h
  · cases h
  · rename_i t hallowed
    obtain ⟨rfl, -⟩ := hs.permit hallowed
    split at h
    · rename_i c hcached
      rw [hcached, some_or]
      cases h
      exact .push rfl rfl rfl rfl fun _ _ => rfl
    · rename_i hcached
      rw [hcached, none_or]
      cases hready : t.readyConnection t.cachedRoute.endpointKey with
      | some c =>
        rw [getOrCreateConnection_ready hready] at h
        cases h
        exact .push rfl rfl rfl rfl fun _ _ => rfl
      | none =>
        obtain ⟨u, heq, hbreakers, hcalls⟩ :=
          getOrCreateConnection_new t.cachedRoute.address hready
        rw [heq] at h
        split at h
        · rename_i hnew
          obtain ⟨rfl, -⟩ := Prod.mk.inj hnew
          cases h
          exact .push hbreakers (congrArg (· ++ _) hcalls) rfl rfl fun c hc => by cases hc
        · rename_i hnew
          cases hnew
          cases h
          exact .push hbreakers (congrArg (· ++ _) hcalls) rfl rfl fun c hc => by cases hc
  · rename_i t hallowed
    cases (hs.permit hallowed).2

theorem emplaceConnection_eq (s : ClientShard) (key : Bytes) (c : Nat) :
    ∃ connections, s.emplaceConnection key c = { s with connections := connections } := by
  unfold emplaceConnection
  split <;> exact ⟨_, rfl⟩

theorem endpoint_setState (service : Bytes) (c d : Nat) (state : ConnectionState) :
    (s.setState c state).endpoint service d = s.endpoint service d := by
  simp only [endpoint, setState, getElem?_modify]
  cases s.objects[d]? with
  | none => rfl
  | some object =>
    simp only [Option.map_eq_map, Option.map_some]
    split <;> rfl

theorem Advances.connected {ok : Bool} (hs : s.Fresh) (hi : s.calls[i]? = some call)
    (h : s.connected options resolves i nowMs ok = some s') :
    call.pc.isReturned = false ∧
      Advances s s' i call.service (s.connectedConnection resolves call ok) := by
  unfold ClientShard.connected at h
  simp only [hi] at h
  split at h
  case h_2 => cases h
  rename_i c route hpc
  refine ⟨by rw [hpc]; rfl, ?_⟩
  simp only [connectedConnection, hpc]
  have hready : ∀ key, ∃ connections, (s.setState c .ready).emplaceConnection key c =
      { s.setState c .ready with connections := connections } := fun key =>
    emplaceConnection_eq _ key c
  split at h
  · obtain ⟨connections, heq⟩ := hready s.cachedRoute.endpointKey
    simp only [heq] at h
    cases h
    exact .setCall hi rfl rfl rfl fun d _ => endpoint_setState call.service c d .ready
  · cases h
    exact .setCall hi rfl rfl rfl fun d hd => by cases hd
  · rename_i generation key breaker _ _
    obtain ⟨connections, heq⟩ := hready key
    simp only [heq] at h
    cases h
    exact .setCall hi rfl rfl rfl fun d _ => endpoint_setState call.service c d .ready
  · have hrest := Advances.tryEndpoints (s := s.setState c .disconnected) hs hi _ h
    exact ⟨hrest.breakers, hrest.others, hrest.call, fun d hd =>
      (hrest.endpoint d hd).trans (endpoint_setState call.service c d .disconnected)⟩

theorem Fresh.addBreakers (service : Bytes) : ∀ (endpoints : Endpoints) (s : ClientShard),
    s.Fresh → (s.addBreakers service endpoints).Fresh ∧
      (s.addBreakers service endpoints).calls = s.calls := by
  intro endpoints
  induction endpoints with
  | nil => exact fun _ hs => ⟨hs, rfl⟩
  | cons first rest ih =>
    intro s hs
    unfold ClientShard.addBreakers
    rw [foldl_cons]
    dsimp only
    split
    · exact ih s hs
    · refine ih _ ?_
      intro breaker hmem
      rcases mem_append.mp hmem with hmem | hmem
      · exact hs breaker hmem
      · exact mem_singleton.mp hmem

/-- A step is one of a call, which has then got what `routed` says, or it leaves the calls alone. -/
inductive Routes (resolves : Bytes → Bool) (s s' : ClientShard) (l : ShardLabel) : Prop
  | call {i : Nat} {service : Bytes} {connection : Option Nat}
      (advances : Advances s s' i service connection)
      (before : ∀ earlier, s.calls[i]? = some earlier → earlier.pc.isReturned = false)
      (routed : s.routed resolves l = connection.bind (s.endpoint service))
  | other (fresh : s'.Fresh) (calls : s'.calls = s.calls) (routed : s.routed resolves l = none)

theorem Routes.fresh {l : ShardLabel} (h : Routes resolves s s' l) (hs : s.Fresh) : s'.Fresh := by
  cases h with
  | call advances => exact hs.congr advances.breakers
  | other fresh => exact fresh

theorem step_routes {l : ShardLabel} (hs : s.Fresh) (h : s.step options resolves l = some s') :
    Routes resolves s s' l := by
  cases l with
  | call service method requestSchema nowMs =>
    cases step_cases h with
    | call next =>
      refine .call (.beginCall hs next) ?_ rfl
      intro earlier hget
      rw [getElem?_eq_none (Nat.le_refl _)] at hget
      cases hget
  | lookUp nowMs =>
    simp only [ClientShard.step, lookUp] at h
    split at h
    case h_2 => cases h
    rename_i i hcurrent
    split at h
    · cases h
    rename_i call hi
    split at h
    case h_2 => cases h
    rename_i generation hpc
    have hadv := Advances.tryEndpoints (s := { s with current := none }) hs hi _ h
    refine .call ⟨hadv.breakers, hadv.others, hadv.call, hadv.endpoint⟩ ?_ ?_
    · intro earlier hget
      cases hi.symm.trans hget
      rw [hpc]
      rfl
    · simp only [routed, hcurrent, bind_some, hi]
      rfl
  | connected i nowMs ok =>
    cases step_cases h with
    | connected next =>
      cases hi : s.calls[i]? with
      | none => simp [ClientShard.connected, hi] at next
      | some call =>
        obtain ⟨hbefore, hadv⟩ := Advances.connected hs hi next
        refine .call hadv ?_ (by simp only [routed, hi, bind_some])
        intro earlier hget
        cases hi.symm.trans hget
        exact hbefore
  | publish service endpoints =>
    cases step_cases h
    obtain ⟨hfresh, hcalls⟩ := hs.addBreakers service endpoints
    exact .other hfresh hcalls rfl
  | finishPublish p =>
    simp only [ClientShard.step, ClientShard.finishPublish] at h
    split at h
    · cases h
    · cases h
      exact .other hs rfl rfl
  | retire n =>
    cases step_cases h with
    | retire next =>
      obtain ⟨objects, connections, tasks, rfl⟩ := retire_eq next
      exact .other hs rfl rfl
  | close c =>
    cases step_cases h
    exact .other hs rfl rfl

end ClientShard

namespace StubCalls

variable {options : RpcClientOptions} {resolves : Bytes → Bool} {s s' : StubCalls}

theorem fresh_of_reachable (h : Reachable (step options resolves) {} s) : s.shard.Fresh := by
  refine h.invariant (p := fun s => s.shard.Fresh) (fun _ hmem => by cases hmem) ?_
  intro s l s' hs _ hstep
  cases l with
  | route l =>
    obtain ⟨shard, hshard, rfl⟩ := Option.map_eq_some_iff.mp hstep
    exact (step_routes hs hshard).fresh hs
  | finish i result nowMs =>
    simp only [step] at hstep
    split at hstep
    · cases hstep
    · obtain ⟨endpoint, -, rfl⟩ := Option.map_eq_some_iff.mp hstep
      exact hs

/-- A call that has an endpoint has returned, so a step that leaves its call alone does not return
    it. -/
theorem not_first_of_same_call {i : Nat} {endpoint : Bytes × Bytes}
    (hend : s'.endpointOf i = some endpoint) (hsame : s'.shard.calls[i]? = s.shard.calls[i]?)
    (hfirst : ∀ earlier, s.shard.calls[i]? = some earlier → earlier.pc.isReturned = false) :
    False := by
  obtain ⟨call, hcall, hconn⟩ := bind_eq_some_iff.mp hend
  obtain ⟨c, hc, -⟩ := bind_eq_some_iff.mp hconn
  have hnot := hfirst call (hsame ▸ hcall)
  cases hpc : call.pc with
  | returned c hit => rw [hpc] at hnot; cases hnot
  | lookup generation => rw [hpc] at hc; cases hc
  | connecting c route => rw [hpc] at hc; cases hc

theorem returns_iff_routed {l : ShardLabel} {service address : Bytes} (hs : s.shard.Fresh)
    (h : s.shard.step options resolves l = some s'.shard) :
    Returns s s' service address ↔ s.shard.routed resolves l = some (service, address) := by
  cases step_routes hs h with
  | call hadv hbefore hrouted =>
    rename_i i service' connection
    obtain ⟨call, hcall, rfl, rfl⟩ := hadv.call
    have hend : s'.endpointOf i = call.pc.connection.bind (s.shard.endpoint call.service) := by
      rw [endpointOf, hcall, bind_some]
      cases hc : call.pc.connection with
      | none => rfl
      | some c => exact hadv.endpoint c hc
    rw [hrouted, ← hend]
    constructor
    · rintro ⟨j, hj, hfirst⟩
      by_cases hji : j = i
      · rw [← hji]
        exact hj
      · exact (not_first_of_same_call hj (hadv.others j hji) hfirst).elim
    · exact fun hi => ⟨i, hi, hbefore⟩
  | other _ hcalls hnone =>
    rw [hnone]
    refine ⟨?_, fun hsome => by cases hsome⟩
    rintro ⟨j, hj, hfirst⟩
    exact (not_first_of_same_call hj (by rw [hcalls]) hfirst).elim

/-! ## Results -/

/-- **What a step returns is blind to the outcomes**, in every reachable state. It returns a connection
    to the endpoint that `routed` picks and to no other. So whatever the open interval is, no endpoint
    is returned within it exactly if the one that is picked is outside of it. Every breaker that is
    asked grants, with the permit of a closed one, and stays as it is. -/
theorem returned_endpoint_blind_to_outcomes (h : Reachable (step options resolves) {} s)
    {l : ShardLabel} (hstep : s.step options resolves (.route l) = some s') :
    (∀ service address, Returns s s' service address ↔
      s.shard.routed resolves l = some (service, address)) ∧
    (∀ interval nowMs, (∀ service address, Returns s s' service address →
        ¬ s.OpenAt options service address interval nowMs) ↔
      ∀ endpoint ∈ s.shard.routed resolves l,
        ¬ s.OpenAt options endpoint.1 endpoint.2 interval nowMs) ∧
    ∀ breaker ∈ s.shard.breakers, ∀ nowMs, ∃ permit,
      breaker.allow options nowMs = some (breaker, permit) ∧ permit ≠ kDeniedPermit ∧
        Control.state permit = kClosed := by
  have hfresh := fresh_of_reachable h
  obtain ⟨shard, hshard, rfl⟩ := Option.map_eq_some_iff.mp hstep
  have hreturns : ∀ service address, Returns s { s with shard := shard } service address ↔
      s.shard.routed resolves l = some (service, address) := fun service address =>
    returns_iff_routed hfresh hshard
  refine ⟨hreturns, ?_, ?_⟩
  · intro interval nowMs
    constructor
    · intro hopen endpoint hmem
      exact hopen _ _ ((hreturns _ _).mpr hmem)
    · intro hopen service address hret
      exact hopen (service, address) ((hreturns _ _).mp hret)
  · intro breaker hmem nowMs
    obtain rfl := hfresh breaker hmem
    exact ⟨_, rfl, by decide, by decide⟩

def nervous : RpcClientOptions := { circuitBreaker := { windowSize := 1, minimumRequests := 1 } }

def sampleEndpoint (host : UInt8) : Bytes × Endpoint :=
  let endpoint : Endpoint := ⟨[host], 1, [([109], ⟨[49], [49], []⟩)]⟩
  (endpoint.addressKey, endpoint)

/-- The run up to a call that has its connection to the endpoint. -/
def firstCall : List StubLabel :=
  [.route (.publish [65] [sampleEndpoint 97]), .route (.finishPublish 0),
    .route (.call [65] [109] [] 0), .route (.lookUp 0), .route (.connected 0 0 true)]

/-- With a window of one call, the call times out, and the endpoint is in its open interval. A call of
    another service, at the same time, gets the connection to its own endpoint, for which no interval
    is open. -/
theorem returned_endpoint_other_service :
    ∃ s s' : StubCalls, Reachable (step nervous fun _ => true) {} s ∧
      s.step nervous (fun _ => true) (.route (.connected 1 0 true)) = some s' ∧
      s.OpenAt nervous [65] (sampleEndpoint 97).1 1000 0 ∧ Returns s s' [66] (sampleEndpoint 98).1 ∧
      ∀ service address, Returns s s' service address → ¬ s.OpenAt nervous service address 1000
      0 := by
  obtain ⟨s, hs, hsome, hrouted, hfailed, hnone⟩ : ∃ s,
      Reachable (step nervous fun _ => true) {} s ∧
      (s.step nervous (fun _ => true) (.route (.connected 1 0 true))).isSome = true ∧
      s.shard.routed (fun _ => true) (.connected 1 0 true) =
        some ([66], (sampleEndpoint 98).1) ∧
      s.history [65] (sampleEndpoint 97).1 =
        [⟨[65], (sampleEndpoint 97).1, ⟨.timeout, RpcStatus.ok.code⟩, 0⟩] ∧
      s.history [66] (sampleEndpoint 98).1 = [] :=
    exists_reaches_of_exec (firstCall ++ [.finish 0 ⟨.timeout, RpcStatus.ok.code⟩ 0,
      .route (.publish [66] [sampleEndpoint 98]), .route (.finishPublish 0),
      .route (.call [66] [109] [] 0), .route (.lookUp 0)]) (by decide +kernel) fun _ _ hs => hs
  obtain ⟨s', hstep⟩ := isSome_iff_exists.mp hsome
  obtain ⟨hreturns, hiff, -⟩ := returned_endpoint_blind_to_outcomes hs hstep
  refine ⟨s, s', hs, hstep, ?_, (hreturns _ _).mpr hrouted, (hiff 1000 0).mpr ?_⟩
  · refine ⟨[], ⟨[65], (sampleEndpoint 97).1, ⟨.timeout, RpcStatus.ok.code⟩, 0⟩, ?_, ?_, by decide⟩
    · rw [hfailed]
      exact prefix_refl _
    · decide +kernel
  · rw [hrouted]
    rintro endpoint hmem ⟨past, last, hprefix, -⟩
    cases hmem
    rw [hnone] at hprefix
    exact absurd (prefix_nil.mp hprefix) (by simp)

/-- With a window of one call, the call times out. The next call, at the same time, gets the
    connection nevertheless. -/
theorem tripped_endpoint_returned : nervous.validateOptions = true ∧ ∃ s s' : StubCalls,
    Reachable (step nervous fun _ => true) {} s ∧
      s.step nervous (fun _ => true) (.route (.call [65] [109] [] 0)) = some s' ∧
      Returns s s' [65] (sampleEndpoint 97).1 ∧
      s.OpenAt nervous [65] (sampleEndpoint 97).1 nervous.circuitBreaker.openIntervalMs 0 := by
  refine ⟨by decide, ?_⟩
  obtain ⟨s, hs, s', hstep, hendpoint, hnone, hhistory⟩ : ∃ s,
      Reachable (step nervous fun _ => true) {} s ∧
      ∃ s' ∈ s.step nervous (fun _ => true) (.route (.call [65] [109] [] 0)),
        s'.endpointOf 1 = some ([65], (sampleEndpoint 97).1) ∧ s.shard.calls[1]? = none ∧
        s.history [65] (sampleEndpoint 97).1 =
          [⟨[65], (sampleEndpoint 97).1, ⟨.timeout, RpcStatus.ok.code⟩, 0⟩] :=
    exists_reaches_of_exec (firstCall ++ [.finish 0 ⟨.timeout, RpcStatus.ok.code⟩ 0])
      (by decide +kernel) fun _ _ hs => hs
  have hreturns : Returns s s' [65] (sampleEndpoint 97).1 := by
    refine ⟨1, hendpoint, ?_⟩
    intro earlier hget
    rw [hnone] at hget
    cases hget
  refine ⟨s, s', hs, hstep, hreturns,
    [], ⟨[65], (sampleEndpoint 97).1, ⟨.timeout, RpcStatus.ok.code⟩, 0⟩, ?_, ?_, ?_⟩
  · rw [hhistory]
    exact prefix_refl _
  · decide +kernel
  · decide

end StubCalls

end CoroRpc.Client
