import CoroRpc.Server.Effects

/-!
# The idempotency table stays within its bound, and stays available

The map and the queue of completed keys are updated apart and need not agree: the queue may hold a
key twice, or one whose record is gone or is pending again. Only one direction has to hold for
eviction to work, and it does: the key of every *completed* record is in the queue
(`Bounded.queued`). A key leaves the queue in `PruneIdempotencyCache` only, which erases the record
if it is completed, and a record becomes completed in `FinishIdempotent` only, which enters the key.

So where pruning runs out of keys with the table still full, no record is completed. That is the one
case in which a new key is refused.
-/

namespace CoroRpc.Server

open Lib Protocol List Option RpcServer

namespace IdempotencyTable

variable {table : IdempotencyTable} {key : Bytes} {record : IdempotencyRecord} {maxEntries : Nat}

/-! ## Sizes -/

theorem mem_of_find (h : table.find key = some record) : key ∈ table.idempotency :=
  AList.lookup_isSome.mp (by rw [← find, h]; rfl)

theorem size_erase_lt (h : table.find key = some record) : (table.erase key).size < table.size :=
  Nat.lt_of_succ_le (Nat.le_of_eq (length_entries_erase (mem_of_find h)))

theorem size_put_of_find (h : table.find key = some record) (record' : IdempotencyRecord) :
    (table.put key record').size = table.size :=
  length_entries_insert_of_mem (mem_of_find h) record'

theorem size_put_of_find_none (h : table.find key = none) (record' : IdempotencyRecord) :
    (table.put key record').size = table.size + 1 :=
  congrArg List.length (AList.entries_insert_of_notMem (AList.lookup_eq_none.mp h))

/-! ## Pruning -/

theorem size_pruneFrom_le (maxEntries : Nat) (keys : List Bytes) :
    ∀ table, (pruneFrom maxEntries table keys).size ≤ table.size := by
  induction keys with
  | nil => exact fun table => Nat.le_refl _
  | cons key keys ih =>
    intro table
    simp only [pruneFrom]
    split
    · split
      · next record hr =>
        split
        · exact ih table
        · exact Nat.le_trans (ih _) (Nat.le_of_lt (size_erase_lt hr))
      · exact ih table
    · exact Nat.le_refl _

/-- A table that is still full after pruning has lost nothing: the first record to go would have
    made room. All keys have been tried. -/
theorem pruneFrom_of_full (keys : List Bytes) :
    ∀ table, table.size ≤ maxEntries →
      maxEntries ≤ (pruneFrom maxEntries table keys).size →
      pruneFrom maxEntries table keys = { table with completedIdempotencyKeys := [] } := by
  induction keys with
  | nil => intro table _ _; rfl
  | cons key keys ih =>
    intro table hsize hfull
    simp only [pruneFrom] at hfull ⊢
    split at hfull
    · next hroom =>
      rw [if_pos hroom]
      cases hr : table.find key with
      | none =>
        simp only [hr] at hfull ⊢
        exact ih table hsize hfull
      | some record =>
        simp only [hr] at hfull ⊢
        split at hfull
        · next hp =>
          rw [if_pos hp]
          exact ih table hsize hfull
        · have hle := size_pruneFrom_le maxEntries keys (table.erase key)
          have hlt := size_erase_lt hr
          omega
    · next hroom => exact absurd hfull hroom

/-- The invariant, with the queue given apart. -/
structure BoundedFrom (maxEntries : Nat) (table : IdempotencyTable) (keys : List Bytes) : Prop where
  size : table.size ≤ maxEntries
  queued : ∀ key record, table.find key = some record → record.pending = false → key ∈ keys

/-- The table is within its bound, and whatever can be evicted is in the queue. -/
abbrev Bounded (maxEntries : Nat) (table : IdempotencyTable) : Prop :=
  BoundedFrom maxEntries table table.completedIdempotencyKeys

variable {keys : List Bytes}

/-- The head of the queue may go, once its record is not a completed one. -/
theorem BoundedFrom.tail (h : BoundedFrom maxEntries table (key :: keys))
    (hgone : ∀ record, table.find key = some record → record.pending = true) :
    BoundedFrom maxEntries table keys := by
  refine ⟨h.size, fun key' record hr hp => ?_⟩
  rcases mem_cons.mp (h.queued key' record hr hp) with rfl | hmem
  · have hpending := hgone record hr
    rw [hp] at hpending
    cases hpending
  · exact hmem

theorem BoundedFrom.erase (h : BoundedFrom maxEntries table keys)
    (hr : table.find key = some record) : BoundedFrom maxEntries (table.erase key) keys := by
  refine ⟨Nat.le_trans (Nat.le_of_lt (size_erase_lt hr)) h.size, fun key' record' hr' hp => ?_⟩
  rw [find_erase] at hr'
  split at hr'
  · cases hr'
  · exact h.queued key' record' hr' hp

theorem bounded_pruneFrom (keys : List Bytes) :
    ∀ table, BoundedFrom maxEntries table keys →
      Bounded maxEntries (pruneFrom maxEntries table keys) := by
  induction keys with
  | nil => exact fun table h => ⟨h.size, h.queued⟩
  | cons key keys ih =>
    intro table h
    simp only [pruneFrom]
    split
    · split
      · next record hr =>
        split
        · next hp =>
          refine ih table (h.tail fun record' hr' => ?_)
          rw [← some.inj (hr.symm.trans hr')]
          exact hp
        · refine ih _ ((h.erase hr).tail fun record' hr' => ?_)
          rw [find_erase, if_pos rfl] at hr'
          cases hr'
      · next hr =>
        refine ih table (h.tail fun record' hr' => ?_)
        rw [hr] at hr'
        cases hr'
    · exact ⟨h.size, h.queued⟩

theorem Bounded.prune (h : Bounded maxEntries table) :
    Bounded maxEntries (table.pruneIdempotencyCache maxEntries) :=
  bounded_pruneFrom _ table h

/-! ## The locked sections -/

/-- A record of the table is replaced by one that is pending, or whose key is in the queue. -/
theorem BoundedFrom.replace {record' : IdempotencyRecord} (h : BoundedFrom maxEntries table keys)
    (hr : table.find key = some record) (hqueued : record'.pending = false → key ∈ keys) :
    BoundedFrom maxEntries (table.put key record') keys := by
  refine ⟨Nat.le_trans (Nat.le_of_eq (size_put_of_find hr record')) h.size, fun key' found hf hp => ?_⟩
  rw [find_put] at hf
  split at hf
  · next hk =>
    rw [hk]
    rw [← some.inj hf] at hp
    exact hqueued hp
  · exact h.queued key' found hf hp

section
variable (h : Bounded maxEntries table)
include h

variable {i : Nat}

theorem Bounded.resolve {fingerprint : UInt64} {body : Bytes} {table' : IdempotencyTable}
    {admission : Admission}
    (hr : table.resolve maxEntries key fingerprint body i = (table', admission)) :
    Bounded maxEntries table' := by
  unfold IdempotencyTable.resolve at hr
  split at hr
  · next record hfound =>
    split at hr
    · obtain ⟨rfl, -⟩ := Prod.mk.inj hr
      exact h
    split at hr
    · next hp =>
      obtain ⟨rfl, -⟩ := Prod.mk.inj hr
      refine BoundedFrom.replace h hfound fun hp' => ?_
      rw [hp] at hp'
      cases hp'
    · obtain ⟨rfl, -⟩ := Prod.mk.inj hr
      exact h
  · next hfound =>
    dsimp only at hr
    split at hr
    · obtain ⟨rfl, -⟩ := Prod.mk.inj hr
      exact h.prune
    · next hroom =>
      obtain ⟨rfl, -⟩ := Prod.mk.inj hr
      have hnone : (table.pruneIdempotencyCache maxEntries).find key = none := by
        rcases find_prune maxEntries table key with heq | ⟨hnone, -⟩
        · rw [heq, hfound]
        · exact hnone
      refine ⟨?_, fun key' found hf hp => ?_⟩
      · rw [size_put_of_find_none hnone]
        omega
      · rw [find_put] at hf
        split at hf
        · rw [← some.inj hf] at hp
          cases hp
        · exact h.prune.queued key' found hf hp

theorem Bounded.finish {response : Response} {cacheResponse : Bool} :
    Bounded maxEntries (table.finish maxEntries key response cacheResponse).1 := by
  unfold IdempotencyTable.finish
  split
  · exact h
  · next record hr =>
    split
    · -- the key goes into the queue before the queue is pruned
      have hlonger : BoundedFrom maxEntries table (table.completedIdempotencyKeys ++ [key]) :=
        ⟨h.size, fun key' found hf hp => mem_append_left _ (h.queued key' found hf hp)⟩
      have hentered : BoundedFrom maxEntries
          (table.put key { record with pending := false, response := response, waiters := [] })
          (table.completedIdempotencyKeys ++ [key]) :=
        hlonger.replace hr fun _ => mem_append_right _ (mem_singleton.mpr rfl)
      exact bounded_pruneFrom _ _ ⟨hentered.size, hentered.queued⟩
    · exact BoundedFrom.erase h hr

theorem Bounded.dropWaiter : Bounded maxEntries (table.dropWaiter key i) := by
  unfold IdempotencyTable.dropWaiter
  split
  · next record hr =>
    split
    · next hp =>
      dsimp only
      split
      · exact BoundedFrom.erase h hr
      · refine BoundedFrom.replace h hr fun hp' => ?_
        rw [hp] at hp'
        cases hp'
    · exact h
  · exact h

theorem Bounded.full_of_reject {fingerprint : UInt64} {body : Bytes} {table' : IdempotencyTable}
    (hr : table.resolve maxEntries key fingerprint body i = (table', .rejectCacheCapacity)) :
    table.size = maxEntries ∧
      ∀ key' record, table.find key' = some record → record.pending = true := by
  have hfull : maxEntries ≤ (table.pruneIdempotencyCache maxEntries).size := by
    unfold IdempotencyTable.resolve at hr
    split at hr
    · split at hr
      · cases hr
      split at hr <;> cases hr
    · dsimp only at hr
      split at hr
      · assumption
      · cases hr
  have hsame := pruneFrom_of_full _ table h.size hfull
  have hprune := h.prune
  unfold pruneIdempotencyCache at hfull hprune
  rw [hsame] at hfull hprune
  refine ⟨Nat.le_antisymm h.size hfull, fun key' record hfound => ?_⟩
  cases hp : record.pending with
  | true => rfl
  | false => exact absurd (hprune.queued key' record hfound hp) not_mem_nil

end

end IdempotencyTable

/-! ## Runs of the server -/

open IdempotencyTable in
theorem Effect.bounded {options : RpcServerOptions} {s : RpcServer} {w : Option Work}
    {executions : List Execution} {table : IdempotencyTable} {new : Nat → Response → Prop}
    (he : Effect options s w executions table new)
    (h : Bounded options.maxIdempotencyEntries s.table) :
    Bounded options.maxIdempotencyEntries table := by
  cases he with
  | resolve _ _ _ ht => exact h.resolve ht
  | complete _ _ _ => exact h.finish
  | drop _ => exact h.dropWaiter
  | _ => exact h

open IdempotencyTable in
theorem bounded_of_reachable {options : RpcServerOptions} {n : Nat} {s : RpcServer}
    (h : Reachable (step options) (.init n) s) :
    Bounded options.maxIdempotencyEntries s.table := by
  refine h.invariant (p := fun s => Bounded options.maxIdempotencyEntries s.table)
    ⟨Nat.zero_le _, fun _ _ hfound => by cases hfound⟩ fun s l s' hs _ hstep => ?_
  obtain ⟨_, he, -⟩ := step_effect options hstep
  exact he.bounded hs

/-- **The table keeps its bound and stays available.** In every state the server reaches, the table
    has at most `max_idempotency_entries` records, the key of every completed record is in the queue
    of completed keys, and `OnFrame` refuses a request with a key that has no record only where the
    table has that many records and all of them are pending. -/
theorem idempotency_table_bounded {options : RpcServerOptions} {n : Nat} {s : RpcServer}
    (h : Reachable (step options) (.init n) s) :
    s.table.size ≤ options.maxIdempotencyEntries ∧
    (∀ key record, s.table.find key = some record → record.pending = false →
      key ∈ s.table.completedIdempotencyKeys) ∧
    ∀ i state mode, s.states[i]? = some state → state.idempotencyKey ≠ [] →
      s.table.find state.idempotencyKey = none →
      (s.lookUp options i state mode).2 =
        [.finish i (makeStatusResponse state.requestId .resourceExhausted)] →
      s.table.size = options.maxIdempotencyEntries ∧
        ∀ key record, s.table.find key = some record → record.pending = true := by
  have hbounded := bounded_of_reachable h
  refine ⟨hbounded.size, hbounded.queued, fun i state mode _ hkey hnone hrefused => ?_⟩
  rw [lookUp, if_neg hkey] at hrefused
  split at hrefused
  · cases hrefused
  · cases hrefused
  · next response hr =>
    -- a cached response comes from a record of the key
    rcases IdempotencyTable.resolve_cases hr with ⟨_, hfound, -⟩ | ⟨_, hfound, -⟩ |
      ⟨_, hfound, -⟩ | ⟨-, -, hadmission⟩ | ⟨-, -, hadmission⟩
    · rw [hnone] at hfound
      cases hfound
    · rw [hnone] at hfound
      cases hfound
    · rw [hnone] at hfound
      cases hfound
    · cases hadmission
    · cases hadmission
  · cases hrefused
  · next hr => exact hbounded.full_of_reject hr

def oneEntryOptions : RpcServerOptions where
  maxInflightPerConnection := 4
  maxInflightRequests := 4
  maxIdempotencyEntries := 1
  executionMode _ := .cpuPool
  inlineViewHandler := false

def requestUnder (key : Bytes) (requestId : UInt64) : Frame where
  header := { messageType := .request, requestId := requestId }
  metadata := (encodeRequestMetadata ⟨[1], [2], key, [], 0⟩).toOption.getD []
  body := []

/-- The one record is that of a request whose handler runs, and a second key is refused. -/
theorem idempotency_table_bounded_second_key : ∃ (s : RpcServer) (state : RequestState),
      Reachable (step oneEntryOptions) (.init 1) s ∧ s.states[1]? = some state ∧
      s.table.find state.idempotencyKey = none ∧
      (s.lookUp oneEntryOptions 1 state .cpuPool).2 =
        [.finish 1 (makeStatusResponse state.requestId .resourceExhausted)] ∧
      s.table.size = 1 ∧
      ∀ key record, s.table.find key = some record → record.pending = true := by
  obtain ⟨s, hreach, state, hstate, hkey, hnone, hrefused⟩ : ∃ s,
      Reachable (step oneEntryOptions) (.init 1) s ∧ ∃ state ∈ s.states[1]?,
      state.idempotencyKey ≠ [] ∧ s.table.find state.idempotencyKey = none ∧
      (s.lookUp oneEntryOptions 1 state .cpuPool).2 =
        [.finish 1 (makeStatusResponse state.requestId .resourceExhausted)] :=
    exists_reaches_of_exec [.attachConnection 0 [], .frame 0 (requestUnder [7] 1), .work 0 .none,
      .work 0 (.submit true), .workerStarts 0, .frame 0 (requestUnder [8] 2)] (by decide +kernel)
      fun _ _ hs => hs
  exact ⟨s, state, hreach, hstate, hnone, hrefused,
    (idempotency_table_bounded hreach).2.2 1 state .cpuPool hstate hkey hnone hrefused⟩

end CoroRpc.Server
