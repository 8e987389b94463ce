import CoroRpc.Client.Breaker
import CoroRpc.Client.Connection
import CoroRpc.Lib.Decimal
import CoroRpc.Lib.Run

/-!
# The connections of a client shard and the route cache

`ClientShard::GetOrCreateConnection`, `GetConnectionForCall`, `PublishService` and `RetireAddresses`
(`rpc_src/transport/rpc_client.cpp`) for one shard. The shard's thread runs the call coroutines and
the retirement tasks; services are published by other threads.

A call gives up control in two places. Between its load of `services_generation_` and that of the
snapshot, other threads may publish, but nothing else runs on the shard. In `Connect` it is
suspended, and everything else may happen: other calls, retirements, failures. A `Connect` that
succeeds at once is one whose next step comes at once.

`GetOrCreateConnection` keeps the key of its address as a view. For an endpoint of the snapshot the
view stays what it is, since the call holds the snapshot. After a cache hit it is a view of
`cached_route.endpoint_key`, which other calls assign to; it is taken to show what was assigned.

A connection is as much as the shard sees of it, its state. The socket address is represented by the
key of the endpoint it was made from. Besides the source's variables there are the endpoints that
were published when each generation began (`snapshots`).
-/

namespace CoroRpc.Client

open Lib Protocol

/-! ## Services -/

structure MethodCapability where
  serviceVersion : Bytes
  codec : Bytes
  requestSchema : Bytes
  deriving DecidableEq

def MethodCapability.valid (capability : MethodCapability) : Bool :=
  !capability.serviceVersion.isEmpty && !capability.codec.isEmpty

structure Endpoint where
  host : Bytes
  port : UInt16
  methods : List (Bytes × MethodCapability)
  deriving DecidableEq

namespace Endpoint

def valid (endpoint : Endpoint) : Bool :=
  !endpoint.host.isEmpty && decide (endpoint.port ≠ 0) && !endpoint.methods.isEmpty

/-- `address_key()`: `host:port`, with brackets around a host that has colons and no bracket. -/
def addressKey (endpoint : Endpoint) : Bytes :=
  let colon : UInt8 := 58
  let port := colon :: decimal endpoint.port.toNat
  if colon ∈ endpoint.host ∧ endpoint.host.head? ≠ some 91 then
    91 :: endpoint.host ++ 93 :: port
  else endpoint.host ++ port

end Endpoint

abbrev Endpoints := List (Bytes × Endpoint)

abbrev Services := List (Bytes × Endpoints)

/-- The tests at the head of `PublishService`. -/
def publishable (service : Bytes) (endpoints : Endpoints) : Bool :=
  !service.isEmpty && !service.contains 47 && endpoints.all fun (key, endpoint) =>
      endpoint.valid && decide (key = endpoint.addressKey) &&
        endpoint.methods.all fun (method, capability) => !method.isEmpty && capability.valid

def breakerKey (service address : Bytes) : Bytes := service ++ 10 :: address

/-! ## State -/

structure ShardConnection where
  /-- The key of the address it connects to. -/
  address : Bytes
  state : ConnectionState
  deriving DecidableEq

structure CachedRoute where
  generation : Nat := 0
  service : Bytes := []
  method : Bytes := []
  requestSchema : Bytes := []
  endpointKey : Bytes := []
  /-- `none` as long as `address_length` is zero. -/
  address : Option Bytes := none
  breaker : Option Nat := none
  connection : Option Nat := none
  deriving DecidableEq

/-- What a call in `GetOrCreateConnection` does with the connection. -/
inductive Route where
  | cached
  /-- The loop over the endpoints of a snapshot, at this one. -/
  | listed (generation : Nat) (key : Bytes) (breaker : Option Nat) (rest : Endpoints)
      (breakers : List (Bytes × Nat))
  deriving DecidableEq

/-- Where a call of `GetConnectionForCall` is. -/
inductive RoutePc where
  /-- No cache hit; the snapshot has not been loaded. -/
  | lookup (generation : Nat)
  | connecting (connection : Nat) (route : Route)
  | returned (connection : Option Nat) (hit : Bool)
  deriving DecidableEq

structure RouteCall where
  service : Bytes
  method : Bytes
  requestSchema : Bytes
  pc : RoutePc
  deriving DecidableEq

/-- A `PublishService` that has stored its endpoints and not counted the generation up. -/
structure Publication where
  previous : Endpoints
  next : Endpoints
  deriving DecidableEq

structure ClientShard where
  services : Services := []
  servicesGeneration : Nat := 1
  breakerTable : List (Bytes × Nat) := []
  breakers : List Breaker := []
  publishing : List Publication := []
  retirements : List (List Bytes) := []
  objects : List ShardConnection := []
  connections : List (Bytes × Nat) := []
  cachedRoute : CachedRoute := {}
  calls : List RouteCall := []
  /-- The call between its two loads. -/
  current : Option Nat := none
  snapshots : List (Nat × Services) := [(1, [])]

namespace ClientShard

/-! ## Connections -/

variable (s : ClientShard)

def findConnection (key : Bytes) : Option Nat := s.connections.lookup key

def stateOf (c : Nat) : Option ConnectionState :=
  s.objects[c]?.map ShardConnection.state

def isReady (c : Nat) : Bool := decide (s.stateOf c = some .ready)

def eraseConnection (key : Bytes) : ClientShard :=
  { s with connections := s.connections.filter fun entry => decide (entry.1 ≠ key) }

/-- `connections.emplace`, which does nothing if the key is there. -/
def emplaceConnection (key : Bytes) (c : Nat) : ClientShard :=
  if (s.findConnection key).isSome then s
  else { s with connections := (key, c) :: s.connections }

def setCall (i : Nat) (pc : RoutePc) : ClientShard :=
  { s with calls := s.calls.modify i fun call => { call with pc := pc } }

/-- `GetOrCreateConnection`, up to its `Connect`: the connection that is there and ready, or the new
    one that is going to be connected. -/
def getOrCreateConnection (key : Bytes) (address : Option Bytes) :
    ClientShard × Option Nat × Option Nat :=
  match s.findConnection key with
  | some c =>
    if s.isReady c then (s, some c, none) else connect (s.eraseConnection key)
  | none => connect s
where
  connect (s : ClientShard) : ClientShard × Option Nat × Option Nat :=
    match address with
    | none => (s, none, none)
    | some address =>
      ({ s with objects := s.objects ++ [⟨address, .connecting⟩] }, none, some s.objects.length)

/-! ## `GetConnectionForCall` -/

/-- The loop has a connection: fill the record and return it. -/
def fillRoute (call : RouteCall) (generation : Nat) (key : Bytes)
    (breaker : Option Nat) (c : Nat) : ClientShard :=
  { s with
    cachedRoute :=
      { generation, service := call.service, method := call.method,
        requestSchema := call.requestSchema, endpointKey := key, address := some key, breaker,
        connection := some c } }

/-- `Allow` on the breaker at this place; whether it grants a permit. -/
def allowBreaker (options : RpcClientOptions) (b nowMs : Nat) :
    Option (ClientShard × Bool) :=
  match s.breakers[b]? with
  | none => none
  | some breaker =>
    match breaker.allow options nowMs with
    | none => none
    | some (breaker', permit) =>
      some ({ s with breakers := s.breakers.set b breaker' }, decide (permit ≠ kDeniedPermit))

/-- Whether the endpoint has the method, with the schema if one is asked for. -/
def serves (call : RouteCall) (endpoint : Endpoint) : Bool :=
  match endpoint.methods.lookup call.method with
  | none => false
  | some capability =>
    call.requestSchema.isEmpty || decide (capability.requestSchema = call.requestSchema)

/-- The loop over the endpoints that are left. -/
def tryEndpoints (options : RpcClientOptions) (resolves : Bytes → Bool) (i : Nat)
    (call : RouteCall) (generation nowMs : Nat) (breakers : List (Bytes × Nat)) :
    Endpoints → ClientShard → Option ClientShard
  | [], s => some (s.setCall i (.returned none false))
  | (key, endpoint) :: rest, s =>
    if serves call endpoint then
      let breaker := breakers.lookup (breakerKey call.service key)
      let allowed := match breaker with
        | none => some (s, true)
        | some b => s.allowBreaker options b nowMs
      match allowed with
      | none => none
      | some (s, granted) =>
        if granted && resolves endpoint.host then
          match s.getOrCreateConnection key (some key) with
          | (s, some c, _) =>
            some ((s.fillRoute call generation key breaker c).setCall i (.returned (some c) false))
          | (s, none, some c) =>
            some (s.setCall i (.connecting c (.listed generation key breaker rest breakers)))
          | (s, none, none) =>
            tryEndpoints options resolves i call generation nowMs breakers rest s
        else tryEndpoints options resolves i call generation nowMs breakers rest s
    else tryEndpoints options resolves i call generation nowMs breakers rest s

/-- The load of the generation and the test of the cached route. -/
def beginCall (options : RpcClientOptions)
    (service method requestSchema : Bytes) (nowMs : Nat) : Option ClientShard :=
  let generation := s.servicesGeneration
  let cached := s.cachedRoute
  let i := s.calls.length
  let started (s : ClientShard) (pc : RoutePc) : ClientShard :=
    { s with calls := s.calls ++ [{ service, method, requestSchema, pc }] }
  if cached.generation = generation ∧ cached.service = service ∧ cached.method = method ∧
      cached.requestSchema = requestSchema then
    let allowed := match cached.breaker with
      | none => some (s, true)
      | some b => s.allowBreaker options b nowMs
    match allowed with
    | none => none
    | some (s, true) =>
      match cached.connection.filter fun c => s.isReady c with
      | some c => some (started s (.returned (some c) true))
      | none =>
        match s.getOrCreateConnection cached.endpointKey cached.address with
        | (s, none, some c) => some (started s (.connecting c .cached))
        | (s, c, _) =>
          some (started { s with cachedRoute := { s.cachedRoute with connection := c } }
            (.returned c true))
    | some (s, false) =>
      some { started { s with cachedRoute := { s.cachedRoute with generation := 0 } }
        (.lookup generation) with current := some i }
  else some { started s (.lookup generation) with current := some i }

/-- The load of the snapshots, and the loop. -/
def lookUp (options : RpcClientOptions) (resolves : Bytes → Bool)
    (i nowMs : Nat) : Option ClientShard :=
  match s.calls[i]? with
  | none => none
  | some call =>
    match call.pc with
    | .lookup generation =>
      tryEndpoints options resolves i call generation nowMs s.breakerTable
        ((s.services.lookup call.service).getD []) { s with current := none }
    | _ => none

def setState (c : Nat) (state : ConnectionState) : ClientShard :=
  { s with objects := s.objects.modify c fun object => { object with state := state } }

/-- `Connect` returns to the call, which goes on. -/
def connected (options : RpcClientOptions) (resolves : Bytes → Bool)
    (i nowMs : Nat) (ok : Bool) : Option ClientShard :=
  match s.calls[i]? with
  | none => none
  | some call =>
    match call.pc with
    | .connecting c route =>
      match route, ok with
      | .cached, true =>
        let s := (s.setState c .ready).emplaceConnection s.cachedRoute.endpointKey c
        some ({ s with cachedRoute := { s.cachedRoute with connection := some c } }.setCall i
          (.returned (some c) true))
      | .cached, false =>
        let s := s.setState c .disconnected
        some ({ s with cachedRoute := { s.cachedRoute with connection := none } }.setCall i
          (.returned none true))
      | .listed generation key breaker _ _, true =>
        let s := (s.setState c .ready).emplaceConnection key c
        some ((s.fillRoute call generation key breaker c).setCall i (.returned (some c) false))
      | .listed generation _ _ rest breakers, false =>
        tryEndpoints options resolves i call generation nowMs breakers rest
          (s.setState c .disconnected)
    | _ => none

/-! ## Publishing and retiring -/

def addBreakers (service : Bytes) (endpoints : Endpoints) : ClientShard :=
  endpoints.foldl (fun s (key, _) =>
    if (s.breakerTable.lookup (breakerKey service key)).isSome then s
    else
      { s with
        breakerTable := s.breakerTable ++ [(breakerKey service key, s.breakers.length)]
        breakers := s.breakers ++ [{}] }) s

/-- `PublishService`, up to the store of the endpoints. -/
def publish (service : Bytes) (endpoints : Endpoints) : ClientShard :=
  let s := s.addBreakers service endpoints
  let previous := (s.services.lookup service).getD []
  { s with
    services := (service, endpoints) :: s.services.filter fun entry => decide (entry.1 ≠ service)
    publishing := s.publishing ++ [⟨previous, endpoints⟩] }

/-- The rest: count the generation up and post the retirement of the addresses that no service lists
    any more. -/
def finishPublish (p : Nat) : Option ClientShard :=
  match s.publishing[p]? with
  | none => none
  | some publication =>
    let retired := (publication.previous.map Prod.fst).filter fun key =>
      (publication.next.lookup key).isNone &&
        s.services.all fun (_, endpoints) => (endpoints.lookup key).isNone
    some { s with
        servicesGeneration := (s.servicesGeneration + 1) % 2 ^ 64
        publishing := s.publishing.eraseIdx p
        retirements := if retired = [] then s.retirements else s.retirements ++ [retired]
        snapshots := ((s.servicesGeneration + 1) % 2 ^ 64, s.services) :: s.snapshots }

def beginDrain (c : Nat) : ClientShard :=
  if s.isReady c then s.setState c .closing else s

def retireAddress (key : Bytes) : ClientShard :=
  match s.findConnection key with
  | some c => (s.beginDrain c).eraseConnection key
  | none => s

/-- A posted retirement task runs. -/
def retire (n : Nat) : Option ClientShard :=
  match s.retirements[n]? with
  | none => none
  | some keys =>
    some (keys.foldl retireAddress { s with retirements := s.retirements.eraseIdx n })

/-! ## Steps -/

end ClientShard

inductive ShardLabel where
  | call (service method requestSchema : Bytes) (nowMs : Nat)
  | lookUp (nowMs : Nat)
  | connected (call : Nat) (nowMs : Nat) (ok : Bool)
  | publish (service : Bytes) (endpoints : Endpoints)
  | finishPublish (publication : Nat)
  | retire (task : Nat)
  /-- The connection fails, or has drained. -/
  | close (connection : Nat)
  deriving DecidableEq

namespace ClientShard

def step (options : RpcClientOptions) (resolves : Bytes → Bool) (s : ClientShard) :
    ShardLabel → Option ClientShard
  | .call service method requestSchema nowMs =>
    if s.current = none then s.beginCall options service method requestSchema nowMs else none
  | .lookUp nowMs =>
    match s.current with
    | some i => s.lookUp options resolves i nowMs
    | none => none
  | .connected i nowMs ok =>
    if s.current = none then s.connected options resolves i nowMs ok else none
  | .publish service endpoints =>
    if publishable service endpoints then some (s.publish service endpoints) else none
  | .finishPublish p => s.finishPublish p
  | .retire n => if s.current = none then s.retire n else none
  | .close c =>
    if s.current = none ∧ (s.isReady c ∨ s.stateOf c = some .closing) then
      some (s.setState c .closed)
    else none

/-! ## What a step does -/

section
variable {options : RpcClientOptions} {resolves : Bytes → Bool} {s s' : ClientShard} {c : Nat}

/-- What each label does. -/
inductive Taken (options : RpcClientOptions) (resolves : Bytes → Bool) (s : ClientShard) :
    ShardLabel → ClientShard → Prop
  | call {service method requestSchema : Bytes} {nowMs : Nat} {s' : ClientShard}
      (next : s.beginCall options service method requestSchema nowMs = some s') :
      Taken options resolves s (.call service method requestSchema nowMs) s'
  | lookUp {i generation nowMs : Nat} {call : RouteCall} {s' : ClientShard}
      (loading : s.calls[i]? = some call) (at_ : call.pc = .lookup generation)
      (next : tryEndpoints options resolves i call generation nowMs s.breakerTable
        ((s.services.lookup call.service).getD []) { s with current := none } = some s') :
      Taken options resolves s (.lookUp nowMs) s'
  | connected {i nowMs : Nat} {ok : Bool} {s' : ClientShard}
      (next : s.connected options resolves i nowMs ok = some s') :
      Taken options resolves s (.connected i nowMs ok) s'
  | publish (service : Bytes) (endpoints : Endpoints) :
      Taken options resolves s (.publish service endpoints) (s.publish service endpoints)
  | finishPublish {p : Nat} {s' : ClientShard} (next : s.finishPublish p = some s') :
      Taken options resolves s (.finishPublish p) s'
  | retire {n : Nat} {s' : ClientShard} (next : s.retire n = some s') :
      Taken options resolves s (.retire n) s'
  | close {c : Nat} (connected : s.stateOf c ≠ some .connecting) :
      Taken options resolves s (.close c) (s.setState c .closed)

theorem stateOf_of_isReady (h : s.isReady c = true) : s.stateOf c = some .ready :=
  of_decide_eq_true h

theorem step_cases {l : ShardLabel} (h : s.step options resolves l = some s') :
    Taken options resolves s l s' := by
  cases l with
  | call service method requestSchema nowMs =>
    simp only [ClientShard.step] at h
    split at h
    · exact .call h
    · cases h
  | lookUp nowMs =>
    simp only [ClientShard.step, ClientShard.lookUp] at h
    split at h
    case h_2 => cases h
    split at h
    · cases h
    rename_i call hi
    split at h
    · rename_i generation hpc
      exact .lookUp hi hpc h
    · cases h
  | connected i nowMs ok =>
    simp only [ClientShard.step] at h
    split at h
    · exact .connected h
    · cases h
  | publish service endpoints =>
    simp only [ClientShard.step] at h
    split at h
    · cases h
      exact .publish service endpoints
    · cases h
  | finishPublish p => exact .finishPublish h
  | retire n =>
    simp only [ClientShard.step] at h
    split at h
    · exact .retire h
    · cases h
  | close c =>
    simp only [ClientShard.step] at h
    split at h
    · rename_i hguard
      cases h
      refine .close ?_
      rcases hguard.2 with hready | hclosing
      · rw [stateOf_of_isReady hready]
        exact fun heq => by cases heq
      · rw [hclosing]
        exact fun heq => by cases heq
    · cases h

theorem retireAddress_eq (s : ClientShard) (key : Bytes) :
    ∃ objects connections, s.retireAddress key =
      { s with objects := objects, connections := connections } := by
  unfold ClientShard.retireAddress
  split
  · unfold ClientShard.beginDrain
    split
    · exact ⟨_, _, rfl⟩
    · exact ⟨_, _, rfl⟩
  · exact ⟨_, _, rfl⟩

theorem foldl_retireAddress_eq : ∀ (keys : List Bytes) (s : ClientShard),
    ∃ objects connections, keys.foldl ClientShard.retireAddress s =
      { s with objects := objects, connections := connections } := by
  intro keys
  induction keys with
  | nil => exact fun _ => ⟨_, _, rfl⟩
  | cons key keys ih =>
    intro s
    obtain ⟨objects, connections, heq⟩ := retireAddress_eq s key
    rw [List.foldl_cons, heq]
    exact ih _

theorem retire_eq {n : Nat} (h : s.retire n = some s') : ∃ objects connections tasks, s' = { s with
      objects := objects, connections := connections, retirements := tasks } := by
  unfold ClientShard.retire at h
  split at h
  · cases h
  · cases h
    obtain ⟨objects, connections, heq⟩ := foldl_retireAddress_eq _ _
    exact ⟨objects, connections, _, heq⟩

end

end ClientShard

end CoroRpc.Client
