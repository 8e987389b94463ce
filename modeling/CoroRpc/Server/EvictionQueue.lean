import CoroRpc.Server.CacheBound
import CoroRpc.Server.ResponseMatching

/-!
# The queue of completed keys, and who is evicted

`CacheBound` needs one direction only: every completed record is in the queue. The other one, that
the queue lists completed records and each of them once, holds as long as `FinishIdempotent` finds a
pending record. It does where the executions of a key do not overlap (`SingleExecution`).

`FinishIdempotent` prunes with the bound that a new record needs, although it brings none. In a table
that is full, one completed record has to go, and it is the one that has just been completed if the
queue has no other in front of it.
-/

namespace CoroRpc.Server

open Lib Protocol List Option RpcServer

namespace IdempotencyTable

variable {table table' : IdempotencyTable} {key : Bytes} {record : IdempotencyRecord}
  {maxEntries : Nat} {keys : List Bytes}

/-- The queue lists completed records, each once. -/
structure TightFrom (table : IdempotencyTable) (keys : List Bytes) : Prop where
  nodup : keys.Nodup
  completed : ∀ key ∈ keys, ∃ record, table.find key = some record ∧ record.pending = false

abbrev Tight (table : IdempotencyTable) : Prop := TightFrom table table.completedIdempotencyKeys

theorem TightFrom.of_find (h : TightFrom table keys)
    (hkeep : ∀ key ∈ keys, ∀ record, table.find key = some record → record.pending = false →
      table'.find key = some record) : TightFrom table' keys := by
  refine ⟨h.nodup, fun key hk => ?_⟩
  obtain ⟨record, hr, hp⟩ := h.completed key hk
  exact ⟨record, hkeep key hk record hr hp, hp⟩

theorem TightFrom.ne (h : TightFrom table keys) {key' : Bytes} (hk : key' ∈ keys)
    (hpending : ∀ record, table.find key = some record → record.pending = true) : key' ≠ key := by
  rintro rfl
  obtain ⟨record, hr, hp⟩ := h.completed _ hk
  cases hp.symm.trans (hpending record hr)

theorem tight_pruneFrom (keys : List Bytes) :
    ∀ table : IdempotencyTable, TightFrom table keys → Tight (pruneFrom maxEntries table keys) := by
  induction keys with
  | nil => exact fun table h => ⟨h.nodup, h.completed⟩
  | cons key keys ih =>
    intro table h
    have hhead := (nodup_cons.mp h.nodup).1
    have htail : TightFrom table keys :=
      ⟨(nodup_cons.mp h.nodup).2, fun k hk => h.completed k (mem_cons_of_mem _ hk)⟩
    simp only [pruneFrom]
    split
    · split
      · split
        · exact ih table htail
        · refine ih _ (htail.of_find fun k hk record hr _ => ?_)
          rw [find_erase, if_neg fun heq : k = key => hhead (heq ▸ hk)]
          exact hr
      · exact ih table htail
    · exact ⟨h.nodup, h.completed⟩

theorem Tight.resolve {fingerprint : UInt64} {body : Bytes} {i : Nat} {admission : Admission}
    (h : Tight table) (hr : table.resolve maxEntries key fingerprint body i = (table', admission)) :
    Tight table' := by
  have hprune : Tight (table.pruneIdempotencyCache maxEntries) := tight_pruneFrom _ table h
  obtain ⟨_, -, rfl, -⟩ | ⟨record, hfound, -, hp, rfl, -⟩ | ⟨_, -, -, -, rfl, -⟩ |
    ⟨-, rfl, -⟩ | ⟨hnone, rfl, -⟩ := resolve_cases hr
  · exact h
  · refine TightFrom.of_find h fun k hk r hr _ => ?_
    have hne : k ≠ key := h.ne hk fun r' hr' => by
      cases hfound.symm.trans hr'
      exact hp
    rw [find_put, if_neg hne]
    exact hr
  · exact h
  · exact hprune
  · refine TightFrom.of_find hprune fun k hk r hr _ => ?_
    have hne : k ≠ key := hprune.ne hk fun r' hr' => by
      cases hnone.symm.trans (find_of_find_prune hr')
    rw [find_put, if_neg hne]
    exact hr

theorem Tight.finish {response : Response} {cacheResponse : Bool} (h : Tight table)
    (hr : table.find key = some record) (hp : record.pending = true) :
    Tight (table.finish maxEntries key response cacheResponse).1 := by
  have hpending : ∀ r, table.find key = some r → r.pending = true := fun r hr' => by
    cases hr.symm.trans hr'
    exact hp
  simp only [IdempotencyTable.finish, hr]
  split
  · refine tight_pruneFrom _ _ ⟨?_, fun k hk => ?_⟩
    · refine nodup_append.mpr ⟨h.nodup, nodup_singleton _, fun k hk k' hk' => ?_⟩
      rw [mem_singleton.mp hk']
      exact h.ne hk hpending
    · change ∃ r, (table.put key _).find k = some r ∧ _
      rw [find_put]
      rcases mem_append.mp hk with hk | hk
      · rw [if_neg (h.ne hk hpending)]
        exact h.completed k hk
      · exact ⟨_, if_pos (mem_singleton.mp hk), rfl⟩
  · refine TightFrom.of_find h fun k hk r hr' _ => ?_
    rw [find_erase, if_neg (h.ne hk hpending)]
    exact hr'

theorem Tight.dropWaiter {i : Nat} (h : Tight table) : Tight (table.dropWaiter key i) := by
  have hqueue : (table.dropWaiter key i).completedIdempotencyKeys =
      table.completedIdempotencyKeys := by
    unfold IdempotencyTable.dropWaiter
    split
    · split
      · dsimp only
        split <;> rfl
      · rfl
    · rfl
  unfold Tight
  rw [hqueue]
  refine TightFrom.of_find h fun k hk r hr hp => ?_
  rcases find_dropWaiter table key i k with heq | ⟨rfl, r', hr', hp', -⟩
  · exact heq.trans hr
  · cases hr.symm.trans hr'
    cases hp.symm.trans hp'

theorem Tight.length_le (h : Tight table) : table.completedIdempotencyKeys.length ≤ table.size := by
  have hsub : table.completedIdempotencyKeys ⊆ table.idempotency.keys := fun k hk => by
    obtain ⟨record, hr, -⟩ := h.completed k hk
    exact mem_of_find hr
  exact Nat.le_trans (subperm_of_subset h.nodup hsub).length_le (Nat.le_of_eq (length_map _))

end IdempotencyTable

open IdempotencyTable

variable {options : RpcServerOptions} {n : Nat} {s : RpcServer} {w : Option Work}
  {executions : List Execution} {table : IdempotencyTable} {new : Nat → Response → Prop}

theorem Effect.tight (he : Effect options s w executions table new) (h : Tight s.table)
    (hm : Merged s.executions s.table) : Tight table := by
  cases he with
  | resolve _ _ _ ht => exact h.resolve ht
  | complete hx hw hk =>
    obtain ⟨record, hr, hp⟩ := hm.pending _ _ hx hk (by simp [hw])
    exact h.finish hr hp
  | drop _ => exact h.dropWaiter
  | _ => exact h

theorem Effect.completed (he : Effect options s w executions table new)
    (hm : Merged s.executions s.table) {key : Bytes} {record : IdempotencyRecord}
    (hr : s.table.find key = some record) (hp : record.pending = false) :
    table.find key = some record ∨ table.find key = none := by
  have hput : ∀ {t : IdempotencyTable} {key' : Bytes} {r : IdempotencyRecord}, key ≠ key' →
      (t.find key = some record ∨ t.find key = none) →
      (t.put key' r).find key = some record ∨ (t.put key' r).find key = none := by
    intro t key' r hne ht
    rw [find_put, if_neg hne]
    exact ht
  have hprune : ∀ {t : IdempotencyTable}, t.find key = some record →
      (t.pruneIdempotencyCache options.maxIdempotencyEntries).find key = some record ∨
        (t.pruneIdempotencyCache options.maxIdempotencyEntries).find key = none := fun {t} ht =>
    (find_prune _ t key).imp (·.trans ht) And.left
  cases he with
  | resolve _ _ _ ht =>
    obtain ⟨_, -, heq, -⟩ | ⟨r, hfound, -, hpending, heq, -⟩ | ⟨_, -, -, -, heq, -⟩ |
      ⟨-, heq, -⟩ | ⟨hnone, heq, -⟩ := resolve_cases ht <;> rw [heq]
    · exact .inl hr
    · refine hput ?_ (.inl hr)
      rintro rfl
      cases hfound.symm.trans hr
      cases hp.symm.trans hpending
    · exact .inl hr
    · exact hprune hr
    · refine hput ?_ (hprune hr)
      rintro rfl
      cases hnone.symm.trans hr
  | @complete _ _ x _ _ hx hw hk =>
    obtain ⟨record', hr', hp'⟩ := hm.pending _ x hx hk (by simp [hw])
    have hne : key ≠ x.idempotencyKey := by
      rintro rfl
      cases hr.symm.trans hr'
      cases hp.symm.trans hp'
    simp only [IdempotencyTable.finish, hr']
    split
    · refine hprune ?_
      change (s.table.put _ _).find key = _
      rw [find_put, if_neg hne]
      exact hr
    · rw [find_erase, if_neg hne]
      exact .inl hr
  | @drop i state _ =>
    rcases find_dropWaiter s.table state.idempotencyKey i key with heq | ⟨rfl, r', hr', hp', -⟩
    · exact .inl (heq.trans hr)
    · cases hr.symm.trans hr'
      cases hp.symm.trans hp'
  | _ => exact .inl hr

/-- **The queue is exact**: where no cancel and no close erases the record of an execution in
    progress, the queue lists the keys of the completed records, each once, and so is no longer than
    the table may be; and no step overwrites the response of a completed record. -/
theorem eviction_queue_exact (h : Reaches (step options) ErasesOnlyIdle (.init n) s) :
    s.table.completedIdempotencyKeys.Nodup ∧
    (∀ key, key ∈ s.table.completedIdempotencyKeys ↔
      ∃ record, s.table.find key = some record ∧ record.pending = false) ∧
    s.table.completedIdempotencyKeys.length ≤ options.maxIdempotencyEntries ∧
    ∀ l s', s.step options l = some s' → ∀ key record, s.table.find key = some record →
      record.pending = false → s'.table.find key = some record ∨ s'.table.find key = none := by
  obtain ⟨hmerged, htight⟩ := h.invariant
    (p := fun s => Merged s.executions s.table ∧ Tight s.table)
    ⟨Merged.init n, nodup_nil, fun _ hk => by cases hk⟩ fun _ _ _ hi hok hs => by
      obtain ⟨_, he, -⟩ := step_effect options hs
      exact ⟨merged_step hi.1 hok hs, he.tight hi.2 hi.1⟩
  have hbounded := bounded_of_reachable (h.mono fun _ _ _ => trivial)
  refine ⟨htight.nodup, fun key => ⟨htight.completed key, ?_⟩,
    Nat.le_trans htight.length_le hbounded.size, fun l s' hs key record hr hp => ?_⟩
  · rintro ⟨record, hr, hp⟩
    exact hbounded.queued key record hr hp
  · obtain ⟨_, he, -⟩ := step_effect options hs
    exact he.completed hmerged hr hp

/-- The one handler has returned. -/
theorem eviction_queue_exact_one_key :
    ∃ s, Reaches (step pooledOptions) ErasesOnlyIdle (.init 1) s ∧
      s.table.completedIdempotencyKeys = [buildIdempotencyKey [] [1] [2] [7]] ∧
      ∃ record, s.table.find (buildIdempotencyKey [] [1] [2] [7]) = some record ∧
        record.pending = false := by
  refine exists_reaches_of_exec
      (p := fun s => s.table.completedIdempotencyKeys = [buildIdempotencyKey [] [1] [2] [7]])
    (.attachConnection 0 [] :: submitted (keyedRequest 1 [5]) ++ [.workerStarts 0,
      .workerEnds 0 (.returns (keyedRequest 1 [])), .deliver 0, .work 0 .none])
    (by decide +kernel) fun s hreach hqueue => ?_
  refine ⟨hqueue, ((eviction_queue_exact hreach).2.1 _).mp ?_⟩
  rw [hqueue]
  exact mem_singleton.mpr rfl

/-- Request 1 is cancelled while its handler runs, and retried. Its execution completes the record of
    the retry, and that of the retry completes it again: with another response, and with the key in
    the queue a second time. -/
theorem cached_response_overwritten :
    ∃ (s s' : RpcServer) (key : Bytes) (record record' : IdempotencyRecord),
      Reachable (step pooledOptions) (.init 1) s ∧
      s.step pooledOptions (.work 0 .none) = some s' ∧
      s.table.find key = some record ∧ record.pending = false ∧
      s'.table.find key = some record' ∧ record'.response ≠ record.response ∧
      s'.table.completedIdempotencyKeys = [key, key] := by
  obtain ⟨s, hreach, record, hr, s', hstep, record', hr', hp, hends⟩ : ∃ s,
      Reachable (step pooledOptions) (.init 1) s ∧
      ∃ record ∈ s.table.find (buildIdempotencyKey [] [1] [2] [7]),
        ∃ s' ∈ s.step pooledOptions (.work 0 .none),
          ∃ record' ∈ s'.table.find (buildIdempotencyKey [] [1] [2] [7]),
            record.pending = false ∧ record'.response ≠ record.response ∧
            s'.table.completedIdempotencyKeys = [buildIdempotencyKey [] [1] [2] [7],
              buildIdempotencyKey [] [1] [2] [7]] :=
    exists_reaches_of_exec (.attachConnection 0 [] :: submitted (keyedRequest 1 [5]) ++
      .workerStarts 0 :: cancelled 1 ++ submitted (keyedRequest 2 [5]) ++ .workerStarts 1 ::
      answered 0 ++ [.work 0 .none, .work 0 (.queue false), .work 0 (.outboundEmpty false),
        .work 0 .none, .workerEnds 1 (.returns (keyedRequest 2 [])), .deliver 0])
      (by decide +kernel) fun _ _ hs => hs
  exact ⟨s, s', _, record, record', hreach, hstep, hr, hp, hr', hends⟩

/-! ## What a completion evicts -/

namespace IdempotencyTable

variable {table table' : IdempotencyTable} {key : Bytes} {record : IdempotencyRecord}
  {maxEntries : Nat}

/-- What pruning comes to first: `key`, which is about to be completed, or a completed record. -/
def firstEvictable (table : IdempotencyTable) (key : Bytes) : Option Bytes :=
  table.completedIdempotencyKeys.find? fun k =>
    decide (k = key) || (table.find k).any fun record => !record.pending

/-- The completion of `key` leaves its record in the table: there is room, or another completed
    record is first in the queue. -/
def Spares (maxEntries : Nat) (table : IdempotencyTable) (key : Bytes) : Prop :=
  table.size < maxEntries ∨ ∃ key', table.firstEvictable key = some key' ∧ key' ≠ key

theorem pruneFrom_of_lt (h : table.size < maxEntries) (keys : List Bytes) :
    pruneFrom maxEntries table keys = { table with completedIdempotencyKeys := keys } := by
  cases keys with
  | nil => rfl
  | cons key keys => exact if_neg (Nat.not_le_of_lt h)

theorem find_pruneFrom_append {t : IdempotencyTable} (keys : List Bytes)
    (hsize : t.size ≤ maxEntries) (hr : t.find key = some record) (hp : record.pending = false)
    (hsame : ∀ k, k ≠ key → t.find k = table.find k) (spares : Prop)
    (hspares : spares ↔ t.size < maxEntries ∨ ∃ key', keys.find? (fun k =>
      decide (k = key) || (table.find k).any fun record => !record.pending) = some key' ∧
        key' ≠ key) :
    (spares → (pruneFrom maxEntries t (keys ++ [key])).find key = some record ∧
      (pruneFrom maxEntries t (keys ++ [key])).size < maxEntries) ∧
    (¬ spares → (pruneFrom maxEntries t (keys ++ [key])).find key = none) := by
  by_cases hroom : t.size < maxEntries
  · rw [pruneFrom_of_lt hroom]
    exact ⟨fun _ => ⟨hr, hroom⟩, fun hnot => absurd (hspares.mpr (.inl hroom)) hnot⟩
  have hfull : t.size ≥ maxEntries := Nat.le_of_not_lt hroom
  have hgone : ∀ keys, (pruneFrom maxEntries (t.erase key) keys).find key = none := fun keys => by
    rcases find_pruneFrom maxEntries keys key (t.erase key) with heq | ⟨heq, -⟩
    · rw [heq, find_erase, if_pos rfl]
    · exact heq
  simp only [hroom, false_or] at hspares
  induction keys with
  | nil =>
    refine ⟨fun h => ?_, fun _ => ?_⟩
    · simp [hspares] at h
    · simpa [pruneFrom, hfull, hr, hp] using hgone []
  | cons k keys ih =>
    simp only [cons_append, pruneFrom, if_pos hfull]
    by_cases hk : k = key
    · subst hk
      refine ⟨fun h => ?_, fun _ => ?_⟩
      · simp [hspares] at h
      · simpa [hr, hp] using hgone (keys ++ [k])
    · rw [hsame k hk]
      cases hrk : table.find k with
      | none => exact ih (by simpa [hk, hrk] using hspares)
      | some r =>
        by_cases hpr : r.pending = true
        · simp only [hpr, if_true]
          exact ih (by simpa [hk, hrk, hpr] using hspares)
        · -- one record makes room, and it is the one of another key
          have hlt : (t.erase k).size < maxEntries :=
            Nat.lt_of_lt_of_le (size_erase_lt ((hsame k hk).trans hrk)) hsize
          have hkept : (t.erase k).find key = some record := by
            rw [find_erase, if_neg (Ne.symm hk)]
            exact hr
          simp only [hpr, Bool.false_eq_true, if_false, pruneFrom_of_lt hlt]
          refine ⟨fun _ => ⟨hkept, hlt⟩, fun hnot => absurd (hspares.mpr ⟨k, ?_, hk⟩) hnot⟩
          simp [hrk, hpr]

/-- **The record that `FinishIdempotent` completes** stays, with room to spare, or goes at once. -/
theorem find_finish_self (response : Response) (hsize : table.size ≤ maxEntries)
    (hr : table.find key = some record) :
    (Spares maxEntries table key → (table.finish maxEntries key response true).1.find key =
          some { record with pending := false, response := response, waiters := [] } ∧
        (table.finish maxEntries key response true).1.size < maxEntries) ∧
    (¬ Spares maxEntries table key →
      (table.finish maxEntries key response true).1.find key = none) := by
  have hput := find_put table key { record with pending := false, response := response, waiters := [] }
  have hcount := size_put_of_find hr
    { record with pending := false, response := response, waiters := [] }
  simp only [IdempotencyTable.finish, hr, if_true]
  refine find_pruneFrom_append
    (t := { table.put key { record with pending := false, response := response, waiters := [] } with
      completedIdempotencyKeys := table.completedIdempotencyKeys ++ [key] })
    table.completedIdempotencyKeys (Nat.le_trans (Nat.le_of_eq hcount) hsize)
    ((hput key).trans (if_pos rfl)) rfl (fun k hk => (hput k).trans (if_neg hk)) _ ?_
  change _ ↔ (table.put key _).size < maxEntries ∨ _
  rw [hcount]
  rfl

/-- The sections of the server that run with `idempotency_mutex_` held. -/
inductive Locked where
  | lookUp (key : Bytes) (fingerprint : UInt64) (body : Bytes) (i : Nat)
  | finish (key : Bytes) (response : Response) (cacheResponse : Bool)
  | dropWaiter (key : Bytes) (i : Nat)
  deriving DecidableEq

def locked (maxEntries : Nat) (table : IdempotencyTable) : Locked → Option IdempotencyTable
  | .lookUp key fingerprint body i => some (table.resolve maxEntries key fingerprint body i).1
  | .finish key response cacheResponse => some (table.finish maxEntries key response cacheResponse).1
  | .dropWaiter key i => some (table.dropWaiter key i)

/-- No request with a key that has no record, and no completion of `key`. -/
def Undisturbed (key : Bytes) (table : IdempotencyTable) : Locked → Prop
  | .lookUp key' _ _ _ => (table.find key').isSome = true
  | .finish key' _ _ => key' ≠ key
  | .dropWaiter _ _ => True

/-- Such a section makes no record of `key`, and leaves a completed one alone where there is room. -/
theorem undisturbed_locked {l : Locked} (hok : Undisturbed key table l)
    (hs : table.locked maxEntries l = some table') :
    table'.size ≤ table.size ∧
    (table.find key = none → table'.find key = none) ∧
    ∀ record, table.find key = some record → record.pending = false →
      table.size < maxEntries → table'.find key = some record := by
  cases l with
  | lookUp key' fingerprint body i =>
    obtain ⟨record, hfound⟩ := isSome_iff_exists.mp hok
    cases hs
    obtain ⟨_, -, heq, -⟩ | ⟨r, hr, -, hpending, heq, -⟩ | ⟨_, -, -, -, heq, -⟩ |
      ⟨hnone, -⟩ | ⟨hnone, -⟩ :=
        resolve_cases (Prod.eta (table.resolve maxEntries key' fingerprint body i)).symm
    · rw [heq]
      exact ⟨Nat.le_refl _, id, fun _ hr _ _ => hr⟩
    · rw [heq, find_put, size_put_of_find hr]
      refine ⟨Nat.le_refl _, fun hnone => ?_, fun record hr' hp _ => ?_⟩ <;> rw [if_neg]
      · exact hnone
      · rintro rfl
        cases hr.symm.trans hnone
      · exact hr'
      · rintro rfl
        cases hr.symm.trans hr'
        cases hp.symm.trans hpending
    · rw [heq]
      exact ⟨Nat.le_refl _, id, fun _ hr _ _ => hr⟩
    · cases hfound.symm.trans hnone
    · cases hfound.symm.trans hnone
  | finish key' response cacheResponse =>
    have hne : key ≠ key' := Ne.symm hok
    have hput : ∀ r, (table.put key' r).find key = table.find key := fun r => by
      rw [find_put, if_neg hne]
    cases hs
    simp only [IdempotencyTable.finish]
    split
    · exact ⟨Nat.le_refl _, id, fun _ hr _ _ => hr⟩
    · next r hr =>
      split
      · refine ⟨Nat.le_trans (size_pruneFrom_le _ _ _) (Nat.le_of_eq (size_put_of_find hr _)),
          fun hnone => ?_, fun record hr' _ hroom => ?_⟩
        · rcases find_pruneFrom maxEntries _ key _ with heq | ⟨heq, -⟩
          · exact heq.trans ((hput _).trans hnone)
          · exact heq
        · refine (congrArg (find · key) (pruneFrom_of_lt ?_ _)).trans ((hput _).trans hr')
          exact Nat.lt_of_le_of_lt (Nat.le_of_eq (size_put_of_find hr _)) hroom
      · rw [find_erase, if_neg hne]
        exact ⟨Nat.le_of_lt (size_erase_lt hr), id, fun _ hr _ _ => hr⟩
  | dropWaiter key' i =>
    cases hs
    refine ⟨?_, fun hnone => ?_, fun record hr hp _ => ?_⟩
    · unfold IdempotencyTable.dropWaiter
      split
      · next record hr =>
        split
        · dsimp only
          split
          · exact Nat.le_of_lt (size_erase_lt hr)
          · exact Nat.le_of_eq (size_put_of_find hr _)
        · exact Nat.le_refl _
      · exact Nat.le_refl _
    · rcases find_dropWaiter table key' i key with heq | ⟨rfl, r', hr', -⟩
      · exact heq.trans hnone
      · cases hr'.symm.trans hnone
    · rcases find_dropWaiter table key' i key with heq | ⟨rfl, r', hr', hp', -⟩
      · exact heq.trans hr
      · cases hr.symm.trans hr'
        cases hp.symm.trans hp'

end IdempotencyTable

/-- **A completed response is there for the next request** with its key, fingerprint and body,
    exactly if the table had room for it or another completed record was first in the queue. -/
theorem completed_response_cached_iff {key : Bytes} {record : IdempotencyRecord}
    {response : Response} {table : IdempotencyTable} {i : Nat}
    (h : Reachable (step options) (.init n) s) (hr : s.table.find key = some record)
    (hrun : Reaches (locked options.maxIdempotencyEntries) (Undisturbed key)
      (s.table.finish options.maxIdempotencyEntries key response true).1 table) :
    table.resolve options.maxIdempotencyEntries key record.bodyFingerprint record.body i =
        (table, .useCachedResponse response) ↔
      Spares options.maxIdempotencyEntries s.table key := by
  obtain ⟨hstays, hgoes⟩ :=
    find_finish_self response (bounded_of_reachable h).size hr
  by_cases hspares : Spares options.maxIdempotencyEntries s.table key
  · obtain ⟨hfound, -⟩ := hrun.invariant (p := fun t => t.find key =
      some { record with pending := false, response := response, waiters := [] } ∧
        t.size < options.maxIdempotencyEntries) (hstays hspares) fun _ _ _ hi hok hs => by
      obtain ⟨hle, -, hkeep⟩ := undisturbed_locked hok hs
      exact ⟨hkeep _ hi.1 rfl hi.2, Nat.lt_of_le_of_lt hle hi.2⟩
    refine iff_of_true ?_ hspares
    simp [IdempotencyTable.resolve, hfound]
  · have hnone := hrun.invariant (p := fun t => t.find key = none) (hgoes hspares)
      fun _ _ _ hi hok hs => (undisturbed_locked hok hs).2.1 hi
    refine iff_of_false (fun heq => ?_) hspares
    rcases resolve_cases heq with ⟨_, hfound, -⟩ | ⟨_, hfound, -⟩ | ⟨_, hfound, -⟩ | ⟨-, -, heq⟩ |
      ⟨-, -, heq⟩
    · cases hnone.symm.trans hfound
    · cases hnone.symm.trans hfound
    · cases hnone.symm.trans hfound
    · cases heq
    · cases heq

/-- In a table for four keys there is room. -/
theorem completed_response_cached_with_room : ∃ (s : RpcServer) (record : IdempotencyRecord),
      Reachable (step pooledOptions) (.init 1) s ∧
      s.table.find (buildIdempotencyKey [] [1] [2] [7]) = some record ∧ record.pending = true ∧
      ∀ response, ((s.table.finish 4 (buildIdempotencyKey [] [1] [2] [7]) response true).1.resolve 4
        (buildIdempotencyKey [] [1] [2] [7]) record.bodyFingerprint record.body 1).2 =
          .useCachedResponse response := by
  obtain ⟨s, hreach, hsize, record, hr, hp⟩ : ∃ s, Reachable (step pooledOptions) (.init 1) s ∧
      s.table.size < 4 ∧ ∃ record ∈ s.table.find (buildIdempotencyKey [] [1] [2] [7]),
        record.pending = true :=
    exists_reaches_of_exec (.attachConnection 0 [] :: submitted (keyedRequest 1 [5]))
      (by decide +kernel) fun _ _ hs => hs
  refine ⟨s, record, hreach, hr, hp, fun response => ?_⟩
  have hdone : Reaches (locked 4) (Undisturbed (buildIdempotencyKey [] [1] [2] [7]))
      (s.table.finish 4 (buildIdempotencyKey [] [1] [2] [7]) response true).1 _ := .refl
  have hiff := completed_response_cached_iff (i := 1) hreach hr hdone
  exact congrArg Prod.snd (hiff.mpr (.inl hsize))

/-- In a table for one key the response is evicted as soon as it is there, and a request with
    the same key and body runs the handler again. -/
theorem completed_response_evicted :
    ∃ (s : RpcServer) (record : IdempotencyRecord) (response : Response),
      Reachable (step oneEntryOptions) (.init 1) s ∧
      s.table.find (buildIdempotencyKey [] [1] [2] [7]) = some record ∧ record.pending = true ∧
      ((s.table.finish 1 (buildIdempotencyKey [] [1] [2] [7]) response true).1.resolve 1
        (buildIdempotencyKey [] [1] [2] [7]) record.bodyFingerprint record.body 1).2 =
          .execute := by
  obtain ⟨s, hreach, record, hr, hp, hexecute⟩ : ∃ s,
      Reachable (step oneEntryOptions) (.init 1) s ∧
      ∃ record ∈ s.table.find (buildIdempotencyKey [] [1] [2] [7]), record.pending = true ∧
        ((s.table.finish 1 (buildIdempotencyKey [] [1] [2] [7])
          (makeStatusResponse 1 .ok) true).1.resolve 1 (buildIdempotencyKey [] [1] [2] [7])
            record.bodyFingerprint record.body 1).2 = .execute :=
    exists_reaches_of_exec (.attachConnection 0 [] :: submitted (keyedRequest 1 [5]))
      (by decide +kernel) fun _ _ hs => hs
  exact ⟨s, record, _, hreach, hr, hp, hexecute⟩

end CoroRpc.Server
