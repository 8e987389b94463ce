import Mathlib.Data.List.AList
import CoroRpc.Lib.Refinement
import CoroRpc.Server.Requests

/-!
# The method table

`ServiceDispatcher` (`rpc_src/transport/service_dispatcher.cpp`): a copy-on-write table from
method names to handlers, with the one-entry cache that every thread keeps in front of it.

The table is keyed by one string, `service + '\n' + method`. Names come from two sides: the
program registers a pair, and a remote client sends one in its request metadata. What the table
is meant to be is `Directory`, a map on pairs, and the question is whether the dispatcher answers
every sequence of calls as the map does. `key_inj` is where that is decided: the concatenation is
injective as soon as one of the two pairs has no separator in it.

The cache is keyed by the address of the dispatcher and its `generation_`. It outlives the
dispatcher, and so the model has a process in which dispatchers are constructed and destroyed at
addresses. A call is one step here. An update publishes its table before it counts
`generation_` up, so a lookup that runs inside one may still be answered from the table before it.

A handler is whatever it is: the types `η` and `ν` of handlers and of view handlers are
parameters, an empty `std::function` is `none`, and `Dispatch` answers which handler it runs.
-/

namespace CoroRpc.Server

open Lib Protocol Option Function List

structure MethodCapability where
  serviceVersion : Bytes
  codec : Bytes
  requestSchema : Bytes
  responseSchema : Bytes
  deriving DecidableEq

def MethodCapability.valid (capability : MethodCapability) : Bool :=
  !capability.serviceVersion.isEmpty && !capability.codec.isEmpty

structure Method (η ν : Type) where
  handler : η
  viewHandler : Option ν
  mode : RpcExecutionMode
  capability : MethodCapability
  service : Bytes
  method : Bytes
  deriving DecidableEq

structure ServiceDispatcher (η ν : Type) where
  methods : AList (fun _ : Bytes => Method η ν) := ∅
  generation : UInt64 := 1

/-- The `thread_local` of `Lookup`. Its `owner` is the address of a dispatcher. -/
structure Cache (η ν : Type) where
  owner : Option Nat := none
  generation : UInt64 := 0
  service : Bytes := []
  methodName : Bytes := []
  method : Option (Method η ν) := none

def newline : UInt8 := 10

def key (service method : Bytes) : Bytes := service ++ newline :: method

/-- The response that `Dispatch` and `DispatchInline` make up themselves. -/
def unimplemented : Frame :=
  { header := { flags := RpcStatus.code .unimplemented }, metadata := [], body := [] }

/-- What a call of the dispatcher does. -/
inductive Answer (η ν : Type) where
  /-- Nothing: a constructor, a destructor, or there is no dispatcher at the address. -/
  | nothing
  | bool (value : Bool)
  | mode (mode : RpcExecutionMode)
  /-- It runs a handler, whose result it returns. -/
  | handler (handler : η)
  | viewHandler (handler : ν)
  | reply (frame : Frame)
  deriving DecidableEq

variable {η ν : Type}

namespace ServiceDispatcher

variable (d : ServiceDispatcher η ν)

/-- The locked section of `Register` and `RegisterInline`. -/
def emplace (entry : Method η ν) : ServiceDispatcher η ν × Bool :=
  if (d.methods.lookup (key entry.service entry.method)).isSome then (d, false)
  else
    ({ methods := d.methods.insert (key entry.service entry.method) entry
       generation := d.generation + 1 }, true)

def register (service method : Bytes) (handler : Option η)
    (mode : RpcExecutionMode) (capability : MethodCapability) : ServiceDispatcher η ν × Bool :=
  match handler with
  | none => (d, false)
  | some handler =>
    if service.isEmpty || method.isEmpty || !capability.valid then (d, false)
    else d.emplace ⟨handler, none, mode, capability, service, method⟩

def registerInline (service method : Bytes) (handler : Option η)
    (viewHandler : Option ν) (capability : MethodCapability) : ServiceDispatcher η ν × Bool :=
  match handler, viewHandler with
  | some handler, some viewHandler =>
    if service.isEmpty || method.isEmpty || !capability.valid then (d, false)
    else d.emplace ⟨handler, some viewHandler, .networkInline, capability, service, method⟩
  | _, _ => (d, false)

def unregister (service method : Bytes) :
    ServiceDispatcher η ν × Bool :=
  if (d.methods.lookup (key service method)).isSome then
    ({ methods := d.methods.erase (key service method), generation := d.generation + 1 }, true)
  else (d, false)

def contains (service method : Bytes) : Bool :=
  (d.methods.lookup (key service method)).isSome

/-- `Lookup` on a thread whose cache is `cache`, for the dispatcher at address `self`. -/
def lookup (d : ServiceDispatcher η ν) (self : Nat) (cache : Cache η ν) (service method : Bytes) :
    Cache η ν × Option (Method η ν) :=
  if cache.owner = some self ∧ cache.generation = d.generation ∧ cache.service = service ∧
      cache.methodName = method then (cache, cache.method)
  else
    let found := d.methods.lookup (key service method)
    (⟨some self, d.generation, service, method, found⟩, found)

end ServiceDispatcher

def executionMode (found : Option (Method η ν)) : RpcExecutionMode :=
  match found with
  | none => .cpuPool
  | some method => method.mode

def dispatch (found : Option (Method η ν)) : Answer η ν :=
  match found with
  | none => .reply unimplemented
  | some method => .handler method.handler

def dispatchInline (found : Option (Method η ν)) : Answer η ν :=
  match found.bind Method.viewHandler with
  | none => .reply unimplemented
  | some viewHandler => .viewHandler viewHandler

/-! ## Dispatchers in a process -/

/-- A call on the dispatcher at address `self`; a lookup is made on some `thread`. -/
inductive Call (η ν : Type) where
  | construct (self : Nat)
  | destroy (self : Nat)
  | register (self : Nat) (service method : Bytes) (handler : Option η) (mode : RpcExecutionMode)
      (capability : MethodCapability)
  | registerInline (self : Nat) (service method : Bytes) (handler : Option η)
      (viewHandler : Option ν) (capability : MethodCapability)
  | unregister (self : Nat) (service method : Bytes)
  | contains (self : Nat) (service method : Bytes)
  | executionMode (self thread : Nat) (metadata : RequestMetadata)
  | dispatch (self thread : Nat) (metadata : RequestMetadata)
  | dispatchInline (self thread : Nat) (metadata : RequestMetadata)

structure Process (η ν : Type) where
  dispatchers : AList (fun _ : Nat => ServiceDispatcher η ν) := ∅
  caches : AList (fun _ : Nat => Cache η ν) := ∅

namespace Process

variable (p : Process η ν)

/-- The cache of a thread; one that has never looked anything up has the initial one. -/
def cache (thread : Nat) : Cache η ν := (p.caches.lookup thread).getD {}

def update (self : Nat)
    (f : ServiceDispatcher η ν → ServiceDispatcher η ν × Bool) : Process η ν × Answer η ν :=
  match p.dispatchers.lookup self with
  | none => (p, .nothing)
  | some d => ({ p with dispatchers := p.dispatchers.insert self (f d).1 }, .bool (f d).2)

/-- A call of the dispatcher at `self` that starts with a `Lookup` on `thread`. -/
def look (self thread : Nat) (metadata : RequestMetadata)
    (f : Option (Method η ν) → Answer η ν) : Process η ν × Answer η ν :=
  match p.dispatchers.lookup self with
  | none => (p, .nothing)
  | some d =>
    let (cache, found) := d.lookup self (p.cache thread) metadata.service metadata.method
    ({ p with caches := p.caches.insert thread cache }, f found)

def call : Call η ν → Process η ν × Answer η ν
  | .construct self => ({ p with dispatchers := p.dispatchers.insert self {} }, .nothing)
  | .destroy self => ({ p with dispatchers := p.dispatchers.erase self }, .nothing)
  | .register self service method handler mode capability =>
    p.update self fun d => d.register service method handler mode capability
  | .registerInline self service method handler viewHandler capability =>
    p.update self fun d => d.registerInline service method handler viewHandler capability
  | .unregister self service method => p.update self fun d => d.unregister service method
  | .contains self service method => p.update self fun d => (d, d.contains service method)
  | .executionMode self thread metadata =>
    p.look self thread metadata fun found => .mode (Server.executionMode found)
  | .dispatch self thread metadata => p.look self thread metadata Server.dispatch
  | .dispatchInline self thread metadata => p.look self thread metadata Server.dispatchInline

end Process

/-! ## What the dispatcher is for -/

/-- The methods of one dispatcher: a map on pairs of names. -/
abbrev Methods (η ν : Type) := Bytes × Bytes → Option (Method η ν)

abbrev Directory (η ν : Type) := Nat → Option (Methods η ν)

namespace Methods

variable (methods : Methods η ν)

def enter (entry : Method η ν) : Methods η ν × Bool :=
  match methods (entry.service, entry.method) with
  | some _ => (methods, false)
  | none => (update methods (entry.service, entry.method) (some entry), true)

/-- The arguments that `Register` and `RegisterInline` accept at all. -/
def acceptable (service method : Bytes) (capability : MethodCapability) : Prop :=
  service ≠ [] ∧ method ≠ [] ∧ capability.valid = true

instance (service method : Bytes) (capability : MethodCapability) :
    Decidable (acceptable service method capability) :=
  inferInstanceAs (Decidable (_ ∧ _ ∧ _))

def register (service method : Bytes) (handler : Option η)
    (mode : RpcExecutionMode) (capability : MethodCapability) : Methods η ν × Bool :=
  match handler with
  | some handler =>
    if acceptable service method capability then
      methods.enter ⟨handler, none, mode, capability, service, method⟩
    else (methods, false)
  | none => (methods, false)

def registerInline (service method : Bytes) (handler : Option η)
    (viewHandler : Option ν) (capability : MethodCapability) : Methods η ν × Bool :=
  match handler, viewHandler with
  | some handler, some viewHandler =>
    if acceptable service method capability then
      methods.enter ⟨handler, some viewHandler, .networkInline, capability, service, method⟩
    else (methods, false)
  | _, _ => (methods, false)

def unregister (service method : Bytes) : Methods η ν × Bool :=
  (update methods (service, method) none, (methods (service, method)).isSome)

end Methods

namespace Directory

def update (directory : Directory η ν) (self : Nat) (f : Methods η ν → Methods η ν × Bool) :
    Directory η ν × Answer η ν :=
  match directory self with
  | none => (directory, .nothing)
  | some methods => (Function.update directory self (some (f methods).1), .bool (f methods).2)

def look (directory : Directory η ν) (self : Nat) (metadata : RequestMetadata)
    (f : Option (Method η ν) → Answer η ν) : Directory η ν × Answer η ν :=
  match directory self with
  | none => (directory, .nothing)
  | some methods => (directory, f (methods (metadata.service, metadata.method)))

/-- The calls, on maps. The entry of a pair is what was registered under exactly that pair and not
    unregistered since, and there is no cache. -/
def call (directory : Directory η ν) : Call η ν → Directory η ν × Answer η ν
  | .construct self => (Function.update directory self (some fun _ => none), .nothing)
  | .destroy self => (Function.update directory self none, .nothing)
  | .register self service method handler mode capability =>
    directory.update self fun methods => methods.register service method handler mode capability
  | .registerInline self service method handler viewHandler capability =>
    directory.update self fun methods =>
      methods.registerInline service method handler viewHandler capability
  | .unregister self service method =>
    directory.update self fun methods => methods.unregister service method
  | .contains self service method =>
    directory.update self fun methods => (methods, (methods (service, method)).isSome)
  | .executionMode self _ metadata =>
    directory.look self metadata fun found => .mode (Server.executionMode found)
  | .dispatch self _ metadata => directory.look self metadata Server.dispatch
  | .dispatchInline self _ metadata => directory.look self metadata Server.dispatchInline

end Directory

/-! ## The condition

Three things break the refinement, each by a call that looks harmless: a registered name with a
separator in it, a dispatcher at the address of one that some thread remembers, and the update
that brings `generation_` back to where it was. -/

/-- No name that is registered has a separator in it. -/
def Call.Plain : Call η ν → Prop
  | .register _ service method _ _ _ | .registerInline _ service method _ _ _ =>
    newline ∉ service ∧ newline ∉ method
  | _ => True

/-- No thread remembers an earlier dispatcher at the address, and the count does not come round. -/
def Process.Unworn (p : Process η ν) : Call η ν → Prop
  | .construct self => ∀ entry ∈ p.caches.entries, entry.2.owner ≠ some self
  | .register self _ _ _ _ _ | .registerInline self _ _ _ _ _ | .unregister self _ _ =>
    ∀ d ∈ p.dispatchers.lookup self, d.generation.toNat + 1 < 2 ^ 64
  | _ => True

/-- The call is none of these. -/
def Process.Careful (p : Process η ν) (call : Call η ν) : Prop := call.Plain ∧ p.Unworn call

instance : ∀ call : Call η ν, Decidable call.Plain
  | .register .. => inferInstanceAs (Decidable (_ ∧ _))
  | .registerInline .. => inferInstanceAs (Decidable (_ ∧ _))
  | .construct .. | .destroy .. | .unregister .. | .contains .. | .executionMode .. | .dispatch ..
  | .dispatchInline .. => .isTrue trivial

instance (p : Process η ν) : ∀ call, Decidable (p.Unworn call)
  | .construct .. => inferInstanceAs (Decidable (∀ _ ∈ _, _))
  | .register .. => inferInstanceAs (Decidable (∀ _ ∈ _, _))
  | .registerInline .. => inferInstanceAs (Decidable (∀ _ ∈ _, _))
  | .unregister .. => inferInstanceAs (Decidable (∀ _ ∈ _, _))
  | .destroy .. | .contains .. | .executionMode .. | .dispatch .. | .dispatchInline .. =>
    .isTrue trivial

instance (p : Process η ν) (call : Call η ν) : Decidable (p.Careful call) :=
  inferInstanceAs (Decidable (_ ∧ _))

/-! ## The table is the map -/

theorem key_inj {service method service' method' : Bytes} (hs : newline ∉ service)
    (hm : newline ∉ method) :
    key service' method' = key service method ↔ (service', method') = (service, method) := by
  refine ⟨fun h => ?_, fun h => by rw [Prod.mk.injEq] at h; rw [h.1, h.2]⟩
  obtain ⟨h₁, -, h₂⟩ := (append_cons_inj_of_notMem hs hm).mp h.symm
  rw [h₁, h₂]

/-- The table has the methods of the map, and no name in it has a separator. -/
structure Holds (d : ServiceDispatcher η ν) (methods : Methods η ν) : Prop where
  lookup : ∀ service method, d.methods.lookup (key service method) = methods (service, method)
  plain : ∀ service method, methods (service, method) ≠ none → newline ∉ service ∧ newline ∉ method

/-- An operation on the table and one on the map give the same answer, and what they leave fits. -/
def Agree (x : ServiceDispatcher η ν × Bool) (y : Methods η ν × Bool) : Prop :=
  Holds x.1 y.1 ∧ x.2 = y.2

namespace Holds

variable {d : ServiceDispatcher η ν} {methods : Methods η ν}

theorem empty : Holds ({} : ServiceDispatcher η ν) fun _ => none where
  lookup := fun _ _ => AList.lookup_empty _
  plain := fun _ _ h => absurd rfl h

variable {service method : Bytes}

/-- Binding the key of a pair without a separator binds that pair and no other. -/
theorem bind (h : Holds d methods) (hs : newline ∉ service) (hm : newline ∉ method)
    {found : Option (Method η ν)} {table : AList fun _ => Method η ν} {generation : UInt64}
    (hself : table.lookup (key service method) = found)
    (hother : ∀ k, k ≠ key service method → table.lookup k = d.methods.lookup k) :
    Holds ⟨table, generation⟩ (update methods (service, method) found) where
  lookup := by
    intro service' method'
    by_cases hpair : (service', method') = (service, method)
    · rw [hpair, update_self, (key_inj hs hm).mpr hpair]
      exact hself
    · rw [update_of_ne hpair, ← h.lookup]
      exact hother _ fun hk => hpair ((key_inj hs hm).mp hk)
  plain := by
    intro service' method' hbound
    by_cases hpair : (service', method') = (service, method)
    · rw [Prod.mk.injEq] at hpair
      exact ⟨hpair.1 ▸ hs, hpair.2 ▸ hm⟩
    · rw [update_of_ne hpair] at hbound
      exact h.plain _ _ hbound

theorem emplace (h : Holds d methods) (entry : Method η ν) (hs : newline ∉ entry.service)
    (hm : newline ∉ entry.method) : Agree (d.emplace entry) (methods.enter entry) := by
  unfold ServiceDispatcher.emplace Methods.enter
  rw [h.lookup]
  cases hfound : methods (entry.service, entry.method) with
  | some _ => exact ⟨h, rfl⟩
  | none =>
    refine ⟨h.bind hs hm (AList.lookup_insert _) fun k hk => ?_, rfl⟩
    exact AList.lookup_insert_ne hk

theorem acceptable_iff {capability : MethodCapability} :
    (service.isEmpty || method.isEmpty || !capability.valid) = false ↔
      Methods.acceptable service method capability := by
  simp [Methods.acceptable, and_assoc]

theorem offer (h : Holds d methods) (entry : Method η ν) (hs : newline ∉ entry.service)
    (hm : newline ∉ entry.method) :
    Agree
      (if entry.service.isEmpty || entry.method.isEmpty || !entry.capability.valid then (d, false)
        else d.emplace entry)
      (if Methods.acceptable entry.service entry.method entry.capability then methods.enter entry
        else (methods, false)) := by
  by_cases ha : Methods.acceptable entry.service entry.method entry.capability
  · simp only [acceptable_iff.mpr ha, if_pos ha, Bool.false_eq_true, if_false]
    exact h.emplace entry hs hm
  · rw [← acceptable_iff, Bool.not_eq_false] at ha
    simp only [ha, ← acceptable_iff, Bool.true_eq_false, if_true, if_false]
    exact ⟨h, rfl⟩

section
variable (h : Holds d methods) (hs : newline ∉ service) (hm : newline ∉ method) (handler : Option η)
include h hs hm handler

theorem register (mode : RpcExecutionMode) (capability : MethodCapability) :
    Agree (d.register service method handler mode capability)
      (methods.register service method handler mode capability) := by
  cases handler with
  | none => exact ⟨h, rfl⟩
  | some handler => exact h.offer ⟨handler, none, mode, capability, service, method⟩ hs hm

theorem registerInline (viewHandler : Option ν) (capability : MethodCapability) :
    Agree (d.registerInline service method handler viewHandler capability)
      (methods.registerInline service method handler viewHandler capability) := by
  cases handler with
  | none => exact ⟨h, rfl⟩
  | some handler =>
    cases viewHandler with
    | none => exact ⟨h, rfl⟩
    | some viewHandler =>
      exact h.offer ⟨handler, some viewHandler, .networkInline, capability, service, method⟩ hs hm

end

theorem unregister (h : Holds d methods) (service method : Bytes) :
    Agree (d.unregister service method) (methods.unregister service method) := by
  unfold ServiceDispatcher.unregister Methods.unregister
  rw [h.lookup]
  cases hfound : methods (service, method) with
  | none =>
    have hsame : update methods (service, method) none = methods := by
      rw [← hfound, update_eq_self]
    exact ⟨hsame.symm ▸ h, rfl⟩
  | some entry =>
    -- What is bound was registered, so the pair has no separator.
    obtain ⟨hs, hm⟩ := h.plain service method (by rw [hfound]; simp)
    exact ⟨h.bind hs hm (AList.lookup_erase _ _) fun k hk => AList.lookup_erase_ne hk, rfl⟩

end Holds

/-! ## The caches tell no more than the tables -/

/-- A cache that names a live dispatcher is not ahead of it, and if it is not behind either, it
    has what the table has. -/
def Fresh (p : Process η ν) (cache : Cache η ν) : Prop :=
  ∀ self d, cache.owner = some self → p.dispatchers.lookup self = some d →
    cache.generation.toNat ≤ d.generation.toNat ∧ (cache.generation = d.generation →
        cache.method = d.methods.lookup (key cache.service cache.methodName))

/-- The caches of a process are fresh. -/
def Coherent (p : Process η ν) : Prop := ∀ thread, Fresh p (p.cache thread)

variable {self : Nat}

theorem ServiceDispatcher.lookup_of_fresh {p : Process η ν} {d : ServiceDispatcher η ν}
    {cache : Cache η ν} (hd : p.dispatchers.lookup self = some d) (hfresh : Fresh p cache)
    (service method : Bytes) :
    (d.lookup self cache service method).2 = d.methods.lookup (key service method) ∧
      Fresh p (d.lookup self cache service method).1 := by
  unfold ServiceDispatcher.lookup
  split
  · next hhit =>
    obtain ⟨howner, hgeneration, rfl, rfl⟩ := hhit
    exact ⟨(hfresh self d howner hd).2 hgeneration, hfresh⟩
  · refine ⟨rfl, fun self' d' howner hd' => ?_⟩
    cases howner
    cases hd.symm.trans hd'
    exact ⟨Nat.le_refl _, fun _ => rfl⟩

/-- An update either leaves the dispatcher as it is or counts its generation up. -/
def Counts (d d' : ServiceDispatcher η ν) : Prop :=
  d' = d ∨ d'.generation = d.generation + 1

namespace ServiceDispatcher

variable (d : ServiceDispatcher η ν) (service method : Bytes)

theorem emplace_counts (entry : Method η ν) : Counts d (d.emplace entry).1 := by
  unfold emplace
  split
  · exact .inl rfl
  · exact .inr rfl

theorem register_counts (handler : Option η) (mode : RpcExecutionMode)
    (capability : MethodCapability) :
    Counts d (d.register service method handler mode capability).1 := by
  unfold register
  split
  · exact .inl rfl
  · split
    · exact .inl rfl
    · exact d.emplace_counts _

theorem registerInline_counts (handler : Option η) (viewHandler : Option ν)
    (capability : MethodCapability) :
    Counts d (d.registerInline service method handler viewHandler capability).1 := by
  unfold registerInline
  split
  · split
    · exact .inl rfl
    · exact d.emplace_counts _
  · exact .inl rfl

theorem unregister_counts : Counts d (d.unregister service method).1 := by
  unfold unregister
  split
  · exact .inr rfl
  · exact .inl rfl

end ServiceDispatcher

namespace Coherent

variable {p : Process η ν}

theorem init : Coherent ({} : Process η ν) :=
  fun _ _ _ howner => absurd howner (by simp [Process.cache])

theorem construct (h : Coherent p) {self : Nat}
    (hforgotten : ∀ entry ∈ p.caches.entries, entry.2.owner ≠ some self) :
    Coherent { p with dispatchers := p.dispatchers.insert self {} } := by
  intro thread self' d howner hd
  have hne : self' ≠ self := by
    rintro rfl
    unfold Process.cache at howner
    cases hcache : p.caches.lookup thread with
    | none => simp [hcache] at howner
    | some cache =>
      rw [hcache] at howner
      exact hforgotten ⟨thread, cache⟩ (AList.mem_lookup_iff.mp hcache) howner
  rw [AList.lookup_insert_ne hne] at hd
  exact h thread self' d howner hd

theorem destroy (h : Coherent p) (self : Nat) :
    Coherent { p with dispatchers := p.dispatchers.erase self } := by
  intro thread self' d howner hd
  have hne : self' ≠ self := by
    rintro rfl
    exact absurd hd (by simp [AList.lookup_erase])
  rw [AList.lookup_erase_ne hne] at hd
  exact h thread self' d howner hd

theorem update (h : Coherent p) (self : Nat)
    {f : ServiceDispatcher η ν → ServiceDispatcher η ν × Bool} (hcounts : ∀ d, Counts d (f d).1)
    (hroom : ∀ d ∈ p.dispatchers.lookup self, (f d).1 ≠ d → d.generation.toNat + 1 < 2 ^ 64) :
    Coherent (p.update self f).1 := by
  unfold Process.update
  cases hd : p.dispatchers.lookup self with
  | none => exact h
  | some d =>
    intro thread self' d' howner hd'
    by_cases hself : self' = self
    · subst hself
      rw [AList.lookup_insert] at hd'
      cases hd'
      have hold := h thread self' d howner hd
      by_cases hsame : (f d).1 = d
      · rw [hsame]
        exact hold
      · have hcount : (f d).1.generation.toNat = d.generation.toNat + 1 := by
          rw [(hcounts d).resolve_left hsame, UInt64.toNat_add]
          exact Nat.mod_eq_of_lt (hroom d hd hsame)
        change (p.cache thread).generation.toNat ≤ _ ∧ ((p.cache thread).generation = _ → _)
        refine ⟨by omega, fun heq => ?_⟩
        have := congrArg UInt64.toNat heq
        omega
    · rw [AList.lookup_insert_ne hself] at hd'
      exact h thread self' d' howner hd'

theorem look (h : Coherent p) (self thread : Nat) (metadata : RequestMetadata)
    (f : Option (Method η ν) → Answer η ν) : Coherent (p.look self thread metadata f).1 := by
  unfold Process.look
  cases hd : p.dispatchers.lookup self with
  | none => exact h
  | some d =>
    intro thread'
    obtain ⟨-, hcache⟩ := ServiceDispatcher.lookup_of_fresh hd (h thread) metadata.service
      metadata.method
    change Fresh p ((AList.lookup thread' (p.caches.insert thread _)).getD {})
    by_cases ht : thread' = thread
    · rw [ht, AList.lookup_insert]
      exact hcache
    · rw [AList.lookup_insert_ne ht]
      exact h thread'

theorem call (h : Coherent p) (call : Call η ν) (hunworn : p.Unworn call) :
    Coherent (p.call call).1 := by
  cases call with
  | construct self => exact h.construct hunworn
  | destroy self => exact h.destroy self
  | register self service method handler mode capability =>
    exact h.update self (fun d => d.register_counts service method handler mode capability)
      fun d hd _ => hunworn d hd
  | registerInline self service method handler viewHandler capability =>
    exact h.update self
      (fun d => d.registerInline_counts service method handler viewHandler capability)
      fun d hd _ => hunworn d hd
  | unregister self service method =>
    exact h.update self (fun d => d.unregister_counts service method) fun d hd _ => hunworn d hd
  | contains self service method =>
    exact h.update self (fun d => .inl rfl) fun d _ hne => absurd rfl hne
  | executionMode self thread metadata | dispatch self thread metadata
  | dispatchInline self thread metadata => exact h.look self thread metadata _

end Coherent

theorem Process.look_answer {p : Process η ν} (h : Coherent p) {d : ServiceDispatcher η ν}
    (hd : p.dispatchers.lookup self = some d) (thread : Nat) (metadata : RequestMetadata)
    (f : Option (Method η ν) → Answer η ν) :
    (p.look self thread metadata f).2 =
      f (d.methods.lookup (key metadata.service metadata.method)) := by
  simp only [Process.look, hd]
  rw [(ServiceDispatcher.lookup_of_fresh hd (h thread) metadata.service metadata.method).1]

/-! ## The process refines the directory -/

structure Refines (p : Process η ν) (directory : Directory η ν) : Prop where
  holds : ∀ self, Option.Rel Holds (p.dispatchers.lookup self) (directory self)
  coherent : Coherent p

namespace Refines

variable {p : Process η ν} {directory : Directory η ν}

theorem init : Refines ({} : Process η ν) fun _ => none where
  holds := fun _ => .none
  coherent := .init

section
variable (h : Refines p directory)
include h

/-- An address has a dispatcher in neither, or in both, and then its table holds its methods. -/
theorem address (self : Nat) : (p.dispatchers.lookup self = none ∧ directory self = none) ∨
      ∃ d methods, p.dispatchers.lookup self = some d ∧ directory self = some methods ∧
        Holds d methods := by
  have hself := h.holds self
  generalize p.dispatchers.lookup self = found, directory self = bound at hself
  cases hself with
  | none => exact .inl ⟨rfl, rfl⟩
  | some hholds => exact .inr ⟨_, _, rfl, rfl, hholds⟩

theorem holds_insert (self : Nat) {d : ServiceDispatcher η ν} {methods : Methods η ν}
    (hholds : Holds d methods) (self' : Nat) :
    Option.Rel Holds ((p.dispatchers.insert self d).lookup self')
      (update directory self (some methods) self') := by
  by_cases hself : self' = self
  · subst hself
    rw [AList.lookup_insert, update_self]
    exact .some hholds
  · rw [AList.lookup_insert_ne hself, update_of_ne hself]
    exact h.holds self'

theorem holds_erase (self self' : Nat) : Option.Rel Holds ((p.dispatchers.erase self).lookup self')
      (update directory self none self') := by
  by_cases hself : self' = self
  · subst hself
    rw [AList.lookup_erase, update_self]
    exact .none
  · rw [AList.lookup_erase_ne hself, update_of_ne hself]
    exact h.holds self'

/-- An update that does to the table what `f'` does to the map. -/
theorem update (self : Nat) {f : ServiceDispatcher η ν → ServiceDispatcher η ν × Bool}
    {f' : Methods η ν → Methods η ν × Bool} (hcoherent : Coherent (p.update self f).1)
    (hf : ∀ d methods, Holds d methods → Agree (f d) (f' methods)) :
    Refines (p.update self f).1 (directory.update self f').1 ∧
      (p.update self f).2 = (directory.update self f').2 := by
  rcases h.address self with ⟨hd, hm⟩ | ⟨d, methods, hd, hm, hholds⟩
  · simp only [Process.update, Directory.update, hd, hm]
    exact ⟨h, trivial⟩
  · simp only [Process.update, Directory.update, hd, hm] at hcoherent ⊢
    obtain ⟨hnext, hanswer⟩ := hf d methods hholds
    exact ⟨⟨h.holds_insert self hnext, hcoherent⟩, by rw [hanswer]⟩

theorem look (self thread : Nat) (metadata : RequestMetadata)
    (f : Option (Method η ν) → Answer η ν) :
    Refines (p.look self thread metadata f).1 (directory.look self metadata f).1 ∧
      (p.look self thread metadata f).2 = (directory.look self metadata f).2 := by
  have hcoherent := h.coherent.look self thread metadata f
  rcases h.address self with ⟨hd, hm⟩ | ⟨d, methods, hd, hm, hholds⟩
  · simp only [Process.look, Directory.look, hd, hm]
    exact ⟨h, trivial⟩
  · rw [Process.look_answer h.coherent hd, hholds.lookup]
    simp only [Process.look, Directory.look, hd, hm] at hcoherent ⊢
    exact ⟨⟨h.holds, hcoherent⟩, trivial⟩

theorem call (call : Call η ν) (hcareful : p.Careful call) :
    Refines (p.call call).1 (directory.call call).1 ∧
      (p.call call).2 = (directory.call call).2 := by
  obtain ⟨hplain, hunworn⟩ := hcareful
  have hcoherent := h.coherent.call call hunworn
  cases call with
  | construct self => exact ⟨⟨h.holds_insert self .empty, hcoherent⟩, rfl⟩
  | destroy self => exact ⟨⟨h.holds_erase self, hcoherent⟩, rfl⟩
  | register self service method handler mode capability =>
    exact h.update self hcoherent fun d methods hd =>
      hd.register hplain.1 hplain.2 handler mode capability
  | registerInline self service method handler viewHandler capability =>
    exact h.update self hcoherent fun d methods hd =>
      hd.registerInline hplain.1 hplain.2 handler viewHandler capability
  | unregister self service method =>
    exact h.update self hcoherent fun d methods hd => hd.unregister service method
  | contains self service method =>
    refine h.update self hcoherent fun d methods hd => ⟨hd, ?_⟩
    rw [ServiceDispatcher.contains, hd.lookup]
  | executionMode self thread metadata | dispatch self thread metadata
  | dispatchInline self thread metadata => exact h.look self thread metadata _

end

end Refines

/-- To every sequence of careful calls the dispatchers of a process answer as maps on pairs of
    names do. -/
theorem dispatch_refines_map (calls : List (Call η ν))
    (hcareful : Allowed Process.call Process.Careful ({} : Process η ν) calls) :
    answers Process.call ({} : Process η ν) calls =
      answers Directory.call (fun _ => none : Directory η ν) calls :=
  answers_eq_of_simulation (R := Refines) (fun _ _ call h hok => h.call call hok) calls
    .init hcareful

/-- The calls of a program that registers two methods, drops one and starts over, seen by two
    threads. -/
def carefulCalls : List (Call Nat Nat) :=
  let capability : MethodCapability := ⟨[1], [1], [], []⟩
  let metadata : RequestMetadata := ⟨[97], [98], [], [], 0⟩
  [.construct 0, .register 0 [97] [98] (some 1) .cpuPool capability,
    .registerInline 0 [97] [99] (some 2) (some 3) capability, .dispatch 0 0 metadata,
    .dispatchInline 0 1 { metadata with method := [99] }, .unregister 0 [97] [98],
    .dispatch 0 0 metadata, .contains 0 [97, newline, 97] [99], .destroy 0, .construct 1,
    .register 1 [97] [98] (some 4) .ioCoroutine capability, .executionMode 1 0 metadata]

theorem dispatch_refines_map_careful :
    Allowed Process.call Process.Careful ({} : Process Nat Nat) carefulCalls ∧
      answers Process.call ({} : Process Nat Nat) carefulCalls =
        [.nothing, .bool true, .bool true, .handler 1, .viewHandler 3, .bool true,
          .reply unimplemented, .bool false, .nothing, .nothing, .bool true,
          .mode .ioCoroutine] := by
  have hcareful : Allowed Process.call Process.Careful ({} : Process Nat Nat) carefulCalls := by
    decide +kernel
  refine ⟨hcareful, ?_⟩
  rw [dispatch_refines_map carefulCalls hcareful]
  decide +kernel

/-- A service is registered with a separator in its name. Then another pair, which nobody
    registered, is found under its key: a client that sends that pair runs the handler, and the
    pair can no longer be registered. -/
def separatorCalls : List (Call Nat Nat) :=
  let capability : MethodCapability := ⟨[1], [1], [], []⟩
  [.construct 0, .register 0 [97, newline, 98] [99] (some 1) .cpuPool capability,
    .contains 0 [97] [98, newline, 99], .dispatch 0 0 ⟨[97], [98, newline, 99], [], [], 0⟩,
    .register 0 [97] [98, newline, 99] (some 2) .cpuPool capability]

theorem separator_in_name_confuses_pairs :
    answers Process.call ({} : Process Nat Nat) separatorCalls =
        [.nothing, .bool true, .bool true, .handler 1, .bool false] ∧
      answers Directory.call (fun _ => none : Directory Nat Nat) separatorCalls =
        [.nothing, .bool true, .bool false, .reply unimplemented, .bool true] := by
  decide +kernel

/-! ## The cache is not seen

Whatever the names are, one condition less is needed: what the thread remembers is what the table
has. -/

def Process.step (p : Process η ν) (call : Call η ν) : Option (Process η ν) := some (p.call call).1

theorem Coherent.of_reaches {p : Process η ν}
    (h : Reaches Process.step Process.Unworn ({} : Process η ν) p) : Coherent p :=
  h.invariant (p := Coherent) .init fun p call p' hp hunworn hs => by
    cases hs
    exact hp.call call hunworn

/-- **The cache is transparent.** After every sequence of constructions, destructions, updates and
    lookups in which no dispatcher is constructed at an address that a thread remembers, `Lookup` of
    any pair on any live dispatcher and any thread returns what a search of its table returns. -/
theorem lookup_cache_transparent {p : Process η ν}
    (h : Reaches Process.step Process.Unworn ({} : Process η ν) p) {self : Nat}
    {d : ServiceDispatcher η ν} (hd : p.dispatchers.lookup self = some d) (thread : Nat)
    (service method : Bytes) :
    (d.lookup self (p.cache thread) service method).2 = d.methods.lookup (key service method) :=
  (ServiceDispatcher.lookup_of_fresh hd (Coherent.of_reaches h thread) service method).1

/-- The address of the first dispatcher is used again, after the thread has looked a method up in
    the second one. -/
def forgottenCalls : List (Call Nat Nat) :=
  let capability : MethodCapability := ⟨[1], [1], [], []⟩
  let metadata : RequestMetadata := ⟨[97], [98], [], [], 0⟩
  [.construct 0, .register 0 [97] [98] (some 1) .cpuPool capability, .dispatch 0 0 metadata,
    .construct 1, .dispatch 1 0 metadata, .destroy 0, .construct 0,
    .register 0 [97] [98] (some 2) .cpuPool capability]

theorem lookup_cache_transparent_forgotten :
    ∃ (p : Process Nat Nat) (d : ServiceDispatcher Nat Nat),
      Reaches Process.step Process.Unworn ({} : Process Nat Nat) p ∧
      p.dispatchers.lookup 0 = some d ∧ (p.cache 0).owner = some 1 ∧
      (d.lookup 0 (p.cache 0) [97] [98]).2.map Method.handler = some 2 := by
  obtain ⟨p, hreach, hp⟩ : ∃ p, Reaches Process.step Process.Unworn ({} : Process Nat Nat) p ∧
      ((p.dispatchers.lookup 0).any fun d => decide ((p.cache 0).owner = some 1 ∧
        (d.methods.lookup (key [97] [98])).map Method.handler = some 2)) = true :=
    exists_reaches_of_exec forgottenCalls (by decide +kernel) fun _ _ hs => hs
  obtain ⟨d, hd, hfound⟩ := (any_eq_true _ _).mp hp
  obtain ⟨howner, hhandler⟩ := of_decide_eq_true hfound
  refine ⟨p, d, hreach, hd, howner, ?_⟩
  rw [lookup_cache_transparent hreach hd]
  exact hhandler

/-- The thread that looked a method up in a destroyed dispatcher is still given its method, where a
    new dispatcher at the same address has registered another one. -/
def rememberedCalls : List (Call Nat Nat) :=
  let capability : MethodCapability := ⟨[1], [1], [], []⟩
  let metadata : RequestMetadata := ⟨[97], [98], [], [], 0⟩
  [.construct 0, .register 0 [97] [98] (some 1) .cpuPool capability, .dispatch 0 0 metadata,
    .destroy 0, .construct 0, .register 0 [97] [98] (some 2) .cpuPool capability]

theorem lookup_of_destroyed_dispatcher : ∃ (p : Process Nat Nat) (d : ServiceDispatcher Nat Nat),
      Reachable Process.step ({} : Process Nat Nat) p ∧ p.dispatchers.lookup 0 = some d ∧
      (d.methods.lookup (key [97] [98])).map Method.handler = some 2 ∧
      (d.lookup 0 (p.cache 0) [97] [98]).2.map Method.handler = some 1 := by
  obtain ⟨p, hreach, hp⟩ : ∃ p, Reachable Process.step ({} : Process Nat Nat) p ∧
      ((p.dispatchers.lookup 0).any fun d => decide (
        (d.methods.lookup (key [97] [98])).map Method.handler = some 2 ∧
        (d.lookup 0 (p.cache 0) [97] [98]).2.map Method.handler = some 1)) = true :=
    exists_reaches_of_exec rememberedCalls (by decide +kernel) fun _ _ hs => hs
  obtain ⟨d, hd, hfound⟩ := (any_eq_true _ _).mp hp
  exact ⟨p, d, hreach, hd, of_decide_eq_true hfound⟩

end CoroRpc.Server
