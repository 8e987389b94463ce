import CoroRpc.Client.Shard

/-!
# What a publication changes

`RpcClient::PublishService`, from its tests to `RetireAddresses`, one call after the other. An
address is retired when the service that listed it no longer does and no other service lists it.
The breakers are kept by service and address and never removed, so an endpoint that comes back
finds the breaker it had.
-/

namespace CoroRpc.Client

open Lib Protocol List

/-- The client, with the services and addresses that have been published. -/
structure Publisher where
  shard : ClientShard := {}
  stopping : Bool := false
  published : List (Bytes × Bytes) := []

namespace Publisher

def publishService (c : Publisher) (service : Bytes) (endpoints : Endpoints) : Publisher :=
  if c.stopping ∨ publishable service endpoints = false then c
  else
    let s := c.shard.publish service endpoints
    { c with
      shard := (s.finishPublish (s.publishing.length - 1)).getD s
      published := c.published ++ endpoints.map fun endpoint => (service, endpoint.1) }

inductive Op where
  | publishService (service : Bytes) (endpoints : Endpoints)
  /-- Calls have changed the state of a breaker. -/
  | breaker (b : Nat) (breaker : Breaker)
  | stop

def step (c : Publisher) : Op → Option Publisher
  | .publishService service endpoints => some (c.publishService service endpoints)
  | .breaker b breaker =>
    some { c with shard := { c.shard with breakers := c.shard.breakers.set b breaker } }
  | .stop => some { c with stopping := true }

/-- What an accepted publication does. `retirements` are the address lists that
`RetireAddresses` has posted; it posts no empty one. -/
structure Published (c : Publisher) (service : Bytes) (endpoints : Endpoints) (c' : Publisher) :
    Prop where
  own : ∀ next, (service, next) ∈ c'.shard.services ↔ next = endpoints
  others : ∀ e, e.1 ≠ service → (e ∈ c'.shard.services ↔ e ∈ c.shard.services)
  keys : (c'.shard.services.map Prod.fst).Nodup
  retired : ∃ addresses,
    c'.shard.retirements = c.shard.retirements ++ (if addresses = [] then [] else [addresses]) ∧
    ∀ a, a ∈ addresses ↔
      (∃ previous, c.shard.services.lookup service = some previous ∧ a ∈ previous.map Prod.fst) ∧
        ∀ e ∈ c'.shard.services, a ∉ e.2.map Prod.fst
  generation : c'.shard.servicesGeneration = (c.shard.servicesGeneration + 1) % 2 ^ 64
  /-- No breaker is changed or replaced. -/
  breakers : c.shard.breakers <+: c'.shard.breakers
  table : c.shard.breakerTable <+: c'.shard.breakerTable
  published : c'.published = c.published ++ endpoints.map fun endpoint => (service, endpoint.1)

/-- Each service has one snapshot, and each published address of it one breaker. -/
structure Inv (c : Publisher) : Prop where
  services : (c.shard.services.map Prod.fst).Nodup
  keys : (c.shard.breakerTable.map Prod.fst).Nodup
  published : ∀ p ∈ c.published, breakerKey p.1 p.2 ∈ c.shard.breakerTable.map Prod.fst
  bound : ∀ e ∈ c.shard.breakerTable, e.2 < c.shard.breakers.length

variable {c c' : Publisher} {s : ClientShard} {service : Bytes} {endpoints : Endpoints}

/-! ## Breakers -/

/-- The table and the breakers of `s` when those of some endpoints have been added. -/
structure Extends (s : ClientShard) (table : List (Bytes × Nat)) (breakers : List Breaker)
    (keys : List Bytes) : Prop where
  kept : s.breakers <+: breakers
  entries : s.breakerTable <+: table
  nodup : (s.breakerTable.map Prod.fst).Nodup → (table.map Prod.fst).Nodup
  has : ∀ key ∈ keys, key ∈ table.map Prod.fst
  bound : (∀ e ∈ s.breakerTable, e.2 < s.breakers.length) → ∀ e ∈ table, e.2 < breakers.length

theorem lookup_isSome_iff {β : Type} {l : List (Bytes × β)} {key : Bytes} :
    (l.lookup key).isSome = true ↔ key ∈ l.map Prod.fst := by
  induction l with
  | nil => simp
  | cons e l ih =>
    rw [lookup_cons, map_cons, mem_cons, ← ih]
    by_cases h : key = e.1
    · simp [h]
    · rw [beq_false_of_ne h]
      exact ⟨.inr, fun h' => h'.resolve_left h⟩

theorem addBreakers_extends (service : Bytes) (endpoints : Endpoints) (s : ClientShard) :
    ∃ table breakers,
      s.addBreakers service endpoints = { s with breakerTable := table, breakers := breakers } ∧
      Extends s table breakers (endpoints.map fun endpoint => breakerKey service endpoint.1) := by
  induction endpoints generalizing s with
  | nil => exact ⟨_, _, rfl, prefix_rfl, prefix_rfl, id, nofun, id⟩
  | cons first rest ih =>
    unfold ClientShard.addBreakers
    rw [foldl_cons]
    dsimp only
    split
    · next hthere =>
      obtain ⟨table, breakers, heq, h⟩ := ih s
      refine ⟨table, breakers, heq, h.kept, h.entries, h.nodup,
        forall_mem_cons.mpr ⟨?_, h.has⟩, h.bound⟩
      exact (h.entries.map Prod.fst).subset (lookup_isSome_iff.mp hthere)
    · next hnew =>
      obtain ⟨table, breakers, heq, h⟩ := ih { s with
        breakerTable := s.breakerTable ++ [(breakerKey service first.1, s.breakers.length)]
        breakers := s.breakers ++ [{}] }
      refine ⟨table, breakers, heq, (prefix_append _ _).trans h.kept,
        (prefix_append _ _).trans h.entries, fun hn => h.nodup ?_,
        forall_mem_cons.mpr ⟨(h.entries.map Prod.fst).subset (by simp), h.has⟩,
        fun hb => h.bound fun e he => ?_⟩
      · rw [lookup_isSome_iff] at hnew
        rw [map_append]
        exact hn.append (nodup_singleton _) (disjoint_singleton.mpr hnew)
      · rw [length_append]
        rcases mem_append.mp he with he | he
        · exact Nat.lt_of_lt_of_le (hb e he) (Nat.le_add_right _ _)
        · cases mem_singleton.mp he
          exact Nat.lt_succ_self _

/-! ## Publications -/

/-- What the call hands to `RetireAddresses`, given the services before and after it. -/
def retiredAddresses (before after : Services) (service : Bytes) (endpoints : Endpoints) :
    List Bytes :=
  (((before.lookup service).getD []).map Prod.fst).filter fun key =>
    (endpoints.lookup key).isNone && after.all fun (_, endpoints) => (endpoints.lookup key).isNone

theorem mem_retiredAddresses {before after : Services} {a : Bytes}
    (hmem : (service, endpoints) ∈ after) : a ∈ retiredAddresses before after service endpoints ↔
      (∃ previous, before.lookup service = some previous ∧ a ∈ previous.map Prod.fst) ∧
        ∀ e ∈ after, a ∉ e.2.map Prod.fst := by
  have hnone : ∀ {l : Endpoints}, (l.lookup a).isNone = true ↔ a ∉ l.map Prod.fst := by
    intro l
    rw [← lookup_isSome_iff, ← Option.not_isSome, Bool.not_eq_true', Bool.eq_false_iff]
  rw [retiredAddresses, mem_filter, Bool.and_eq_true, List.all_eq_true, hnone]
  refine and_congr ?_ ⟨fun h e he => hnone.mp (h.2 e he), fun h =>
    ⟨h _ hmem, fun e he => hnone.mpr (h e he)⟩⟩
  cases before.lookup service <;> simp

variable (haccepted : c.stopping = false ∧ publishable service endpoints = true)
include haccepted

theorem publishService_shard : ∃ table breakers, Extends c.shard table breakers
        (endpoints.map fun endpoint => breakerKey service endpoint.1) ∧
      let services := (service, endpoints) ::
        c.shard.services.filter fun entry => decide (entry.1 ≠ service)
      let retired := retiredAddresses c.shard.services services service endpoints
      (c.publishService service endpoints).shard = { c.shard with
        breakerTable := table
        breakers := breakers
        services
        servicesGeneration := (c.shard.servicesGeneration + 1) % 2 ^ 64
        retirements := if retired = [] then c.shard.retirements else c.shard.retirements ++ [retired]
        snapshots := ((c.shard.servicesGeneration + 1) % 2 ^ 64, services) :: c.shard.snapshots } := by
  obtain ⟨table, breakers, heq, h⟩ := addBreakers_extends service endpoints c.shard
  refine ⟨table, breakers, h, ?_⟩
  unfold publishService
  rw [if_neg (by simp [haccepted])]
  dsimp only [ClientShard.publish]
  rw [heq]
  simp only [ClientShard.finishPublish, length_append, length_singleton,
    Nat.add_sub_cancel, getElem?_concat_length, Option.getD_some,
    eraseIdx_append_of_length_le (Nat.le_refl _), Nat.sub_self, eraseIdx_cons_zero,
    append_nil, retiredAddresses]
  rfl

theorem publishService_spec (h : Inv c) :
    Published c service endpoints (c.publishService service endpoints) ∧
      Inv (c.publishService service endpoints) := by
  obtain ⟨table, breakers, hext, heq⟩ := publishService_shard haccepted
  have hpub : (c.publishService service endpoints).published =
      c.published ++ endpoints.map fun endpoint => (service, endpoint.1) := by
    unfold publishService
    rw [if_neg (by simp [haccepted])]
  have hkeys : ((c.publishService service endpoints).shard.services.map Prod.fst).Nodup := by
    rw [heq]
    refine nodup_cons.mpr ⟨?_, h.services.sublist (filter_sublist.map _)⟩
    simp
  refine ⟨⟨fun next => ?_, fun e he => ?_, hkeys, ⟨retiredAddresses c.shard.services
    (c.publishService service endpoints).shard.services service endpoints, ?_, fun a =>
    mem_retiredAddresses (by rw [heq]; exact mem_cons_self)⟩, by rw [heq],
    by rw [heq]; exact hext.kept, by rw [heq]; exact hext.entries, hpub⟩, hkeys,
    by rw [heq]; exact hext.nodup h.keys, ?_, by rw [heq]; exact hext.bound h.bound⟩
  · rw [heq]
    simp
  · rw [heq]
    simp [he, Prod.ext_iff]
  · rw [heq]
    dsimp only
    split
    · rw [append_nil]
    · rfl
  · rw [hpub, heq]
    intro p hp
    rcases mem_append.mp hp with hp | hp
    · exact (hext.entries.map Prod.fst).subset (h.published p hp)
    · obtain ⟨endpoint, he, rfl⟩ := mem_map.mp hp
      exact hext.has _ (mem_map_of_mem he)

omit haccepted

theorem publishService_refused (h : ¬ (c.stopping = false ∧ publishable service endpoints = true)) :
    c.publishService service endpoints = c := by
  refine if_pos ?_
  simpa [Classical.or_iff_not_imp_left] using h

theorem Inv.step {op : Op} (h : Inv c) (hs : c.step op = some c') : Inv c' := by
  cases op with
  | publishService service endpoints =>
    cases hs
    by_cases hacc : c.stopping = false ∧ publishable service endpoints = true
    · exact (publishService_spec hacc h).2
    · rw [publishService_refused hacc]
      exact h
  | breaker b breaker =>
    cases hs
    exact { h with bound := fun e he => by simpa using h.bound e he }
  | stop => cases hs; exact { h with }

/-- A refused publication changes nothing. An accepted one replaces the endpoints of its service,
retires the addresses that nobody lists any more, counts the generation up and leaves every
breaker as it is; and all that was ever published has one entry in the table, with its breaker. -/
theorem publication_retires_abandoned (h : Reachable step {} c) (service : Bytes)
    (endpoints : Endpoints) :
    (¬ (c.stopping = false ∧ publishable service endpoints = true) →
        c.publishService service endpoints = c) ∧
      (c.stopping = false ∧ publishable service endpoints = true →
        Published c service endpoints (c.publishService service endpoints)) ∧
      ∀ p ∈ c.published, (∃! b, (breakerKey p.1 p.2, b) ∈ c.shard.breakerTable) ∧
        ∀ b, (breakerKey p.1 p.2, b) ∈ c.shard.breakerTable → b < c.shard.breakers.length := by
  have hinv : Inv c := h.invariant (p := Inv) ⟨.nil, .nil, nofun, nofun⟩ fun _ _ _ hi _ hs => hi.step hs
  refine ⟨publishService_refused, fun hacc => (publishService_spec hacc hinv).1, fun p hp =>
    ⟨?_, fun b hb => hinv.bound _ hb⟩⟩
  obtain ⟨⟨key, b⟩, hmem, rfl⟩ := mem_map.mp (hinv.published p hp)
  exact ⟨b, hmem, fun b' hb' =>
    congrArg Prod.snd (inj_on_of_nodup_map hinv.keys hb' hmem rfl)⟩

/-- The endpoint `b:1`, under its key. -/
def sampleEndpoints : Endpoints := [([98, 58, 49], ⟨[98], 1, [([99], ⟨[1], [1], [1]⟩)]⟩)]

/-- Service `a` gives up its one endpoint. -/
theorem abandoned_address_retired : ∃ c : Publisher, Reachable step {} c ∧
    (c.publishService [97] []).shard.retirements = [[[98, 58, 49]]] ∧
    Published c [97] [] (c.publishService [97] []) := by
  have hreach : Reachable step {} _ := .tail (a := .publishService [97] sampleEndpoints)
    .refl trivial rfl
  exact ⟨_, hreach, by decide +kernel, (publication_retires_abandoned hreach [97] []).2.1
    (by decide +kernel)⟩

/-- A client that stops keeps the endpoints it has. -/
theorem stopping_client_keeps_endpoints : ∃ c : Publisher, Reachable step {} c ∧
    publishable [97] [] = true ∧
    (c.publishService [97] []).shard.services.lookup [97] = some sampleEndpoints := by
  have hreach : Reachable step {} _ := .tail (a := .stop)
    (.tail (a := .publishService [97] sampleEndpoints) .refl trivial rfl) trivial rfl
  exact ⟨_, hreach, by decide, by decide +kernel⟩

end Publisher
end CoroRpc.Client
