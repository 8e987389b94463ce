import Mathlib.Data.List.AList
import CoroRpc.Lib.Decimal
import CoroRpc.Protocol.Metadata

/-!
# The idempotency table

What `RpcServer` keeps under `idempotency_mutex_` (`rpc_src/transport/rpc_server.cpp`): the map
from full idempotency keys to records, and the queue of completed keys that `PruneIdempotencyCache`
evicts from. Its four operations are the four sections the source runs with the mutex held: the
lookup of `OnFrame`, the one of `FinishIdempotent`, and the one that `Cancel` and `Abandon` share;
`PruneIdempotencyCache` is called from the first two. Each is a pure function of the table here,
and between two of them any other thread may run one.

A waiter is the index of a request. The `std::weak_ptr` the source keeps needs no expired case: a
request in a waiter list has not completed, so the request map of its connection holds it.
-/

namespace CoroRpc.Server

open Lib Protocol

/-- `enum class RpcStatus : std::uint32_t`. -/
inductive RpcStatus where
  | ok
  | cancelled
  | invalidArgument
  | deadlineExceeded
  | notFound
  | alreadyExists
  | resourceExhausted
  | failedPrecondition
  | unavailable
  | internal
  | unimplemented
  deriving DecidableEq

def RpcStatus.code : RpcStatus → UInt32
  | .ok => 0
  | .cancelled => 1
  | .invalidArgument => 2
  | .deadlineExceeded => 3
  | .notFound => 4
  | .alreadyExists => 5
  | .resourceExhausted => 6
  | .failedPrecondition => 7
  | .unavailable => 8
  | .internal => 9
  | .unimplemented => 10

/-- A response frame. For the statements it remembers where it is from: `some e` if execution `e`
    of the handler returned it, `none` for the server's own replies. -/
structure Response where
  frame : Frame
  origin : Option Nat
  deriving DecidableEq

def makeStatusResponse (requestId : UInt64) (status : RpcStatus) : Response where
  frame :=
    { header := { flags := status.code, messageType := .response, requestId := requestId }
      metadata := []
      body := [] }
  origin := none

@[simp] theorem makeStatusResponse_origin (requestId : UInt64) (status : RpcStatus) :
    (makeStatusResponse requestId status).origin = none := rfl

/-- `response.header.message_type = RESPONSE; response.header.request_id = request_id`. -/
def Response.addressedTo (response : Response) (requestId : UInt64) : Response :=
  { response with frame.header.messageType := .response, frame.header.requestId := requestId }

@[simp] theorem Response.addressedTo_origin (response : Response) (requestId : UInt64) :
    (response.addressedTo requestId).origin = response.origin := rfl

/-! ## Keys -/

/-- FNV-1a. -/
def bodyFingerprint (body : Bytes) : UInt64 :=
  body.foldl (fun hash byte => (hash ^^^ byte.toUInt64) * 1099511628211) 1469598103934665603

/-- `AppendKeyPart`: the length in decimal, a colon, the value. -/
def keyPart (value : Bytes) : Bytes :=
  decimal value.length ++ 0x3a :: value

def buildIdempotencyKey (callerScope service method key : Bytes) : Bytes :=
  keyPart callerScope ++ keyPart service ++ keyPart method ++ keyPart key

theorem prefixFree_keyPart : PrefixFree (fun _ => True) keyPart :=
  prefixFree_of_length decimal_injective fun _ => colon_not_mem_decimal

/-- **No two requests share a key**, whatever bytes their four components hold: in front of each
    part stands its length, so the parts are read off one after the other. -/
theorem idempotency_keys_distinct (callerScope service method key callerScope' service' method'
    key' : Bytes) :
    buildIdempotencyKey callerScope service method key =
        buildIdempotencyKey callerScope' service' method' key' ↔
      callerScope = callerScope' ∧ service = service' ∧ method = method' ∧ key = key' := by
  constructor
  · intro h
    have hparts : [callerScope, service, method, key].flatMap keyPart ++ [] =
        [callerScope', service', method', key'].flatMap keyPart ++ [] := by
      simpa [buildIdempotencyKey] using h
    have hend : Incomplete (fun _ => True) keyPart [] := by
      intro value rest _ hnil
      simp [keyPart] at hnil
    have heq := (prefixFree_keyPart.read_unique (by simp) (by simp) hend hend hparts).1
    simpa using heq
  · rintro ⟨rfl, rfl, rfl, rfl⟩
    rfl

/-! ## The table -/

structure IdempotencyRecord where
  pending : Bool := true
  bodyFingerprint : UInt64
  body : Bytes
  response : Response := { frame := { header := {}, metadata := [], body := [] }, origin := none }
  waiters : List Nat
  deriving DecidableEq

structure IdempotencyTable where
  idempotency : AList (fun _ : Bytes => IdempotencyRecord)
  completedIdempotencyKeys : List Bytes

namespace IdempotencyTable

def find (table : IdempotencyTable) (key : Bytes) : Option IdempotencyRecord :=
  table.idempotency.lookup key

def size (table : IdempotencyTable) : Nat := table.idempotency.entries.length

def put (table : IdempotencyTable) (key : Bytes) (record : IdempotencyRecord) :
    IdempotencyTable :=
  { table with idempotency := table.idempotency.insert key record }

def erase (table : IdempotencyTable) (key : Bytes) : IdempotencyTable :=
  { table with idempotency := table.idempotency.erase key }

/-- `PruneIdempotencyCache` with the queue of completed keys `keys`. -/
def pruneFrom (maxEntries : Nat) (table : IdempotencyTable) : List Bytes → IdempotencyTable
  | [] => { table with completedIdempotencyKeys := [] }
  | key :: keys =>
    if table.size ≥ maxEntries then
      match table.find key with
      | some record => if record.pending then pruneFrom maxEntries table keys
          else pruneFrom maxEntries (table.erase key) keys
      | none => pruneFrom maxEntries table keys
    else { table with completedIdempotencyKeys := key :: keys }

def pruneIdempotencyCache (maxEntries : Nat) (table : IdempotencyTable) : IdempotencyTable :=
  pruneFrom maxEntries table table.completedIdempotencyKeys

/-- How `OnFrame` goes on after its locked section. -/
inductive Admission where
  /-- A new record: run the handler. -/
  | execute
  /-- The request waits for an execution in progress. -/
  | merged
  | useCachedResponse (response : Response)
  | conflictingRequest
  | rejectCacheCapacity
  deriving DecidableEq

/-- The locked section of `OnFrame`, for request `i`. -/
def resolve (maxEntries : Nat) (table : IdempotencyTable) (key : Bytes) (fingerprint : UInt64)
    (body : Bytes) (i : Nat) : IdempotencyTable × Admission :=
  match table.find key with
  | some record =>
    if record.bodyFingerprint ≠ fingerprint ∨ record.body ≠ body then (table, .conflictingRequest)
    else if record.pending then
      (table.put key { record with waiters := record.waiters ++ [i] }, .merged)
    else (table, .useCachedResponse record.response)
  | none =>
    let pruned := table.pruneIdempotencyCache maxEntries
    if pruned.size ≥ maxEntries then (pruned, .rejectCacheCapacity)
    else (pruned.put key { bodyFingerprint := fingerprint, body := body, waiters := [i] }, .execute)

/-- The locked section of `FinishIdempotent`, and the waiters it takes out of the record. -/
def finish (maxEntries : Nat) (table : IdempotencyTable) (key : Bytes) (response : Response)
    (cacheResponse : Bool) : IdempotencyTable × List Nat :=
  match table.find key with
  | none => (table, [])
  | some record =>
    if cacheResponse then
      let cached := table.put key { record with pending := false, response := response, waiters := [] }
      let queued :=
        { cached with completedIdempotencyKeys := cached.completedIdempotencyKeys ++ [key] }
      (queued.pruneIdempotencyCache maxEntries, record.waiters)
    else (table.erase key, record.waiters)

/-- The locked section of `Cancel` and of `Abandon`, for request `i` under `key`. -/
def dropWaiter (table : IdempotencyTable) (key : Bytes) (i : Nat) : IdempotencyTable :=
  match table.find key with
  | some record =>
    if record.pending then
      let waiters := record.waiters.filter fun j => decide (j ≠ i)
      if waiters = [] then table.erase key else table.put key { record with waiters := waiters }
    else table
  | none => table

/-! ## What the operations do to a lookup -/

variable {table : IdempotencyTable} {key key' : Bytes} {record record' : IdempotencyRecord}

theorem find_put (table : IdempotencyTable) (key : Bytes) (record : IdempotencyRecord)
    (key' : Bytes) :
    (table.put key record).find key' = if key' = key then some record else table.find key' := by
  split
  · next h => subst h; exact AList.lookup_insert _
  · next h => exact AList.lookup_insert_ne h

theorem find_erase (table : IdempotencyTable) (key key' : Bytes) :
    (table.erase key).find key' = if key' = key then none else table.find key' := by
  split
  · next h => subst h; exact AList.lookup_erase _ _
  · next h => exact AList.lookup_erase_ne h

/-- Pruning keeps a record or evicts it, and evicts completed ones only. -/
theorem find_pruneFrom (maxEntries : Nat) (keys : List Bytes) (key' : Bytes) :
    ∀ table, (pruneFrom maxEntries table keys).find key' = table.find key' ∨
      ((pruneFrom maxEntries table keys).find key' = none ∧
        ∃ record, table.find key' = some record ∧ record.pending = false) := by
  induction keys with
  | nil => intro table; exact .inl rfl
  | cons key keys ih =>
    intro table
    simp only [pruneFrom]
    split
    · split
      · next record hr =>
        split
        · exact ih table
        · next hp =>
          -- The head of the queue is a completed record: it goes, whatever the rest does.
          have he := find_erase table key key'
          by_cases hk : key' = key
          · subst hk
            rw [if_pos rfl] at he
            refine .inr ⟨?_, record, hr, by simpa using hp⟩
            rcases ih (table.erase key') with h | ⟨h, -⟩
            · rw [h, he]
            · exact h
          · rw [if_neg hk] at he
            simpa only [he] using ih (table.erase key)
      · exact ih table
    · exact .inl rfl

theorem find_prune (maxEntries : Nat) (table : IdempotencyTable) (key' : Bytes) :
    (table.pruneIdempotencyCache maxEntries).find key' = table.find key' ∨
      ((table.pruneIdempotencyCache maxEntries).find key' = none ∧
        ∃ record, table.find key' = some record ∧ record.pending = false) :=
  find_pruneFrom maxEntries _ key' table

variable {maxEntries : Nat}

theorem find_of_find_prune (h : (table.pruneIdempotencyCache maxEntries).find key = some record) :
    table.find key = some record := by
  rcases find_prune maxEntries table key with h' | ⟨h', -⟩
  · rw [← h', h]
  · rw [h'] at h; cases h

theorem find_prune_of_pending (h : table.find key = some record) (hp : record.pending = true) :
    (table.pruneIdempotencyCache maxEntries).find key = some record := by
  rcases find_prune maxEntries table key with h' | ⟨-, record', hr, hf⟩
  · rw [h', h]
  · cases h.symm.trans hr
    rw [hp] at hf
    cases hf

/-! ## What each locked section can do -/

theorem resolve_cases {fingerprint : UInt64} {body : Bytes} {i : Nat} {table' : IdempotencyTable}
    {admission : Admission}
    (h : table.resolve maxEntries key fingerprint body i = (table', admission)) :
    (∃ record, table.find key = some record ∧ table' = table ∧ admission = .conflictingRequest) ∨
    (∃ record, table.find key = some record ∧ record.body = body ∧ record.pending = true ∧
      table' = table.put key { record with waiters := record.waiters ++ [i] } ∧
      admission = .merged) ∨
    (∃ record, table.find key = some record ∧ record.body = body ∧ record.pending = false ∧
      table' = table ∧ admission = .useCachedResponse record.response) ∨
    (table.find key = none ∧ table' = table.pruneIdempotencyCache maxEntries ∧
      admission = .rejectCacheCapacity) ∨
    (table.find key = none ∧ table' = (table.pruneIdempotencyCache maxEntries).put key
        { bodyFingerprint := fingerprint, body := body, waiters := [i] } ∧
      admission = .execute) := by
  unfold resolve at h
  split at h
  · next record hr =>
    split at h
    · cases h; exact .inl ⟨record, hr, rfl, rfl⟩
    · next hb =>
      have hbody : record.body = body := by
        by_contra hne; exact hb (.inr hne)
      split at h
      · next hp => cases h; exact .inr (.inl ⟨record, hr, hbody, hp, rfl, rfl⟩)
      · next hp =>
        cases h
        exact .inr (.inr (.inl ⟨record, hr, hbody, by simpa using hp, rfl, rfl⟩))
  · next hr =>
    dsimp only at h
    split at h
    · cases h; exact .inr (.inr (.inr (.inl ⟨hr, rfl, rfl⟩)))
    · cases h; exact .inr (.inr (.inr (.inr ⟨hr, rfl, rfl⟩)))

variable {cacheResponse : Bool} {response : Response}

/-- The record that a lookup finds after `FinishIdempotent`: an older one under another key, or
    the finished one with its response. -/
theorem find_finish
    (h : (table.finish maxEntries key response cacheResponse).1.find key' = some record') :
    (key' ≠ key ∧ table.find key' = some record') ∨
    (key' = key ∧ ∃ record, table.find key = some record ∧
      record' = { record with pending := false, response := response, waiters := [] }) := by
  unfold finish at h
  split at h
  · next hn =>
    refine .inl ⟨?_, h⟩
    rintro rfl
    rw [hn] at h
    cases h
  · next record hr =>
    split at h
    · have hput := find_of_find_prune h
      have hput : (table.put key { record with pending := false, response, waiters := [] }).find
          key' = some record' := hput
      rw [find_put] at hput
      split at hput
      · next hk => exact .inr ⟨hk, record, hr, (Option.some.inj hput).symm⟩
      · next hk => exact .inl ⟨hk, hput⟩
    · simp only [find_erase] at h
      split at h
      · cases h
      · next hk => exact .inl ⟨hk, h⟩

theorem find_finish_of_pending (hk : key' ≠ key) (h : table.find key' = some record)
    (hp : record.pending = true) :
    (table.finish maxEntries key response cacheResponse).1.find key' = some record := by
  unfold finish
  split
  · exact h
  · split
    · refine find_prune_of_pending ?_ hp
      have hput := find_put table key
      show (table.put key _).find key' = _
      rw [hput, if_neg hk, h]
    · simp only [find_erase, if_neg hk, h]

theorem mem_finish_waiters {i : Nat}
    (h : i ∈ (table.finish maxEntries key response cacheResponse).2) :
    ∃ record, table.find key = some record ∧ i ∈ record.waiters := by
  unfold finish at h
  split at h
  · cases h
  · next record hr =>
    refine ⟨record, hr, ?_⟩
    split at h <;> exact h

/-- Dropping a waiter leaves a lookup as it was, up to the waiters, or erases the key's record. -/
theorem find_dropWaiter (table : IdempotencyTable) (key : Bytes) (i : Nat) (key' : Bytes) :
    (table.dropWaiter key i).find key' = table.find key' ∨
    (key' = key ∧ ∃ record, table.find key = some record ∧ record.pending = true ∧
      ((table.dropWaiter key i).find key = none ∨ (table.dropWaiter key i).find key =
          some { record with waiters := record.waiters.filter fun j => decide (j ≠ i) })) := by
  by_cases hk : key' = key
  · subst hk
    unfold dropWaiter
    split
    · next record hr =>
      split
      · next hp =>
        refine .inr ⟨rfl, record, hr, hp, ?_⟩
        dsimp only
        split
        · exact .inl (by rw [find_erase, if_pos rfl])
        · exact .inr (by rw [find_put, if_pos rfl])
      · exact .inl rfl
    · exact .inl rfl
  · left
    unfold dropWaiter
    split
    · split
      · dsimp only
        split
        · rw [find_erase, if_neg hk]
        · rw [find_put, if_neg hk]
      · rfl
    · rfl

end IdempotencyTable

end CoroRpc.Server
