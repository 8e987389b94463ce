import Mathlib.Algebra.GroupWithZero.Nat
import CoroRpc.Client.Shard
import CoroRpc.Server.Dispatcher

/-!
# The format of a provider

`ZookeeperServiceRegistry` writes a provider as a node named `AddressKey()` with the document
`Encode(service)`; `ZookeeperServiceDiscovery::ParseEndpoint` reads both back, and accepts the
endpoint only if its own `address_key()` is the name of the node. The JSON library is a parameter:
`dump` throws for strings that are not UTF-8, and `parse` for texts that are no documents.
-/

namespace CoroRpc.Discovery

open Lib List
open Server (MethodCapability)

/-- What a `nlohmann::json` holds. The members of an object are in the order of their keys. -/
inductive Json where
  | object (members : List (Bytes × Json))
  | string (value : Bytes)
  | other

structure JsonLibrary where
  dump : Json → Option Bytes
  parse : Bytes → Option Json

variable (json : JsonLibrary)

/-- The library can write `j`, and reads it back from what it has written. -/
def JsonLibrary.ReadsBack (j : Json) : Prop :=
  ∃ text, json.dump j = some text ∧ text ≠ [] ∧ json.parse text = some j

abbrev Methods := List (Bytes × MethodCapability)

def ascii (text : String) : Bytes := text.toList.map fun c => UInt8.ofNat c.toNat

def validPathSegment (value : Bytes) : Bool :=
  !value.isEmpty && value ≠ ascii "." && value ≠ ascii ".." && !value.contains 47

structure Endpoint where
  host : Bytes
  port : UInt16
  methods : Methods
  deriving DecidableEq

def Endpoint.client (endpoint : Endpoint) : Client.Endpoint :=
  ⟨endpoint.host, endpoint.port,
    endpoint.methods.map fun (name, c) => (name, ⟨c.serviceVersion, c.codec, c.requestSchema⟩)⟩

/-! ## The registry -/

/-- The tests of the registry before it writes anything. -/
def publishes (services : List (Bytes × Methods)) : Bool :=
  !services.isEmpty && services.all fun (service, methods) =>
    validPathSegment service && !methods.isEmpty &&
      methods.all fun (method, capability) => validPathSegment method && capability.valid

/-- `object[key] = value`. -/
def assign (key : Bytes) (value : Json) : List (Bytes × Json) → List (Bytes × Json)
  | [] => [(key, value)]
  | (k, v) :: rest =>
    if key < k then (key, value) :: (k, v) :: rest
    else if key = k then (k, value) :: rest
    else (k, v) :: assign key value rest

def encodeCapability (c : MethodCapability) : Json :=
  .object [(ascii "codec", .string c.codec), (ascii "request_schema", .string c.requestSchema),
    (ascii "response_schema", .string c.responseSchema), (ascii "version", .string c.serviceVersion)]

def members (methods : Methods) : List (Bytes × Json) :=
  methods.foldl (fun members (name, c) => assign name (encodeCapability c) members) []

def document (methods : Methods) : Json := .object [(ascii "methods", .object (members methods))]

def encode (services : List (Bytes × Methods)) (service : Bytes) :
    Option Bytes :=
  json.dump (document ((services.lookup service).getD []))

def addressKey (host : Bytes) (port : UInt16) : Bytes :=
  if 58 ∈ host ∧ host.head? ≠ some 91 then
    91 :: host ++ 93 :: 58 :: decimal port.toNat
  else host ++ 58 :: decimal port.toNat

/-! ## The discovery -/

/-- What is in front of the first `]:` and what is behind it. -/
def cutAtClosing : Bytes → Option (Bytes × Bytes)
  | 93 :: 58 :: rest => some ([], rest)
  | b :: rest => (cutAtClosing rest).map fun (host, port) => (b :: host, port)
  | [] => none

/-- What is in front of the only colon and what is behind it. -/
def cutAtColon (key : Bytes) : Option (Bytes × Bytes) :=
  let host := key.takeWhile (· ≠ 58)
  match key.drop host.length with
  | _ :: port => if 58 ∈ port then none else some (host, port)
  | [] => none

/-- `std::from_chars` into an `unsigned int`, where the whole text has to be read. -/
def fromChars (text : Bytes) : Option Nat :=
  let value := text.foldl (fun value b => 10 * value + (b.toNat - 48)) 0
  if text ≠ [] ∧ text.all (fun b => 48 ≤ b ∧ b ≤ 57) ∧ value < 2 ^ 32 then some value else none

/-- `value(key, std::string())`, which throws at a member that is no string. -/
def stringAt (members : List (Bytes × Json)) (key : String) : Option Bytes :=
  match members.lookup (ascii key) with
  | some (.string value) => some value
  | some _ => none
  | none => some []

def parseCapability : Json → Option MethodCapability
  | .object members => do
    let version ← stringAt members "version"
    let codec ← stringAt members "codec"
    let requestSchema ← stringAt members "request_schema"
    let responseSchema ← stringAt members "response_schema"
    return ⟨version, codec, requestSchema, responseSchema⟩
  | _ => none

def parseMethods : List (Bytes × Json) → Option Methods
  | [] => some []
  | (name, value) :: rest => do
    let capability ← parseCapability value
    if validPathSegment name && capability.valid then
      return (name, capability) :: (← parseMethods rest)
    else none

def parseAddress (key : Bytes) : Option (Bytes × Nat) := do
  let (host, text) ← if key.head? = some 91 then cutAtClosing key.tail else cutAtColon key
  let port ← fromChars text
  if host = [] ∨ port = 0 ∨ 65535 < port then none else return (host, port)

def parseEndpoint (key value : Bytes) : Option Endpoint := do
  let (host, port) ← parseAddress key
  if value = [] then none else
  match ← json.parse value with
  | .object document =>
    match document.lookup (ascii "methods") with
    | some (.object members) =>
      let endpoint := ⟨host, UInt16.ofNat port, ← parseMethods members⟩
      if endpoint.client.valid ∧ endpoint.client.addressKey = key then return endpoint else none
    | _ => none
  | _ => none

/-! ## The name of the node -/

variable {host port : Bytes} {n : Nat}

theorem fromChars_decimal (h : n < 2 ^ 32) : fromChars (decimal n) = some n := by
  have hvalue : (decimal n).foldl (fun value b => 10 * value + (b.toNat - 48)) 0 = n :=
    ofDecimal_decimal
  have hdigits : (decimal n).all (fun b => 48 ≤ b ∧ b ≤ 57) :=
    all_eq_true.mpr fun _ hb => decide_eq_true (decimal_digits hb)
  rw [fromChars, hvalue, if_pos ⟨decimal_ne_nil, hdigits, h⟩]

theorem cutAtClosing_append (h : 93 ∉ host) :
    cutAtClosing (host ++ 93 :: 58 :: port) = some (host, port) := by
  induction host with
  | nil => rfl
  | cons b host ih =>
    rw [mem_cons, not_or] at h
    rw [cons_append, cutAtClosing, ih h.2]
    · rfl
    · rintro _ rfl
      exact absurd rfl h.1

theorem cutAtColon_append (h : 58 ∉ host) (hport : 58 ∉ port) :
    cutAtColon (host ++ 58 :: port) = some (host, port) := by
  have htake : (host ++ 58 :: port).takeWhile (· ≠ 58) = host := by
    rw [takeWhile_append_of_pos (by simpa using fun b hb (heq : b = 58) => h (heq ▸ hb))]
    simp
  simp only [cutAtColon]
  rw [htake, drop_left]
  exact if_neg hport

/-- The name of the node reads back as the address. -/
theorem parseAddress_addressKey {port : UInt16} (hhost : host ≠ []) (hopen : 91 ∉ host)
    (hclose : 93 ∉ host) (hport : port ≠ 0) :
    parseAddress (addressKey host port) = some (host, port.toNat) := by
  have hcolon : 58 ∉ decimal port.toNat := colon_not_mem_decimal
  have hhead : host.head? ≠ some 91 := fun h => hopen (mem_of_head? h)
  have hne : port.toNat ≠ 0 := fun h => hport (UInt16.toNat_inj.mp h)
  have hlt := port.toNat_lt
  have hread := fromChars_decimal (Nat.lt_trans hlt (by decide))
  have hrange : ¬ (host = [] ∨ port.toNat = 0 ∨ 65535 < port.toNat) := by
    simp only [hhost, hne, false_or]
    omega
  by_cases hin : 58 ∈ host
  · simp [parseAddress, addressKey, hin, hhead, cutAtClosing_append hclose, hread, hrange]
  · have hhead' : (host ++ 58 :: decimal port.toNat).head? ≠ some 91 := by
      rwa [head?_append_of_ne_nil _ hhost]
    have hkey : addressKey host port = host ++ 58 :: decimal port.toNat :=
      if_neg fun h => hin h.1
    rw [hkey, parseAddress, if_neg hhead', cutAtColon_append hin hcolon]
    simp [hread, hrange]

/-! ## The document -/

def encoded (methods : Methods) : List (Bytes × Json) :=
  methods.map fun (name, c) => (name, encodeCapability c)

theorem parseCapability_encode (c : MethodCapability) :
    parseCapability (encodeCapability c) = some c := rfl

variable {methods : Methods}

theorem parseMethods_encoded (h : ∀ m ∈ methods, validPathSegment m.1 = true ∧ m.2.valid = true) :
    parseMethods (encoded methods) = some methods := by
  induction methods with
  | nil => rfl
  | cons m rest ih =>
    rw [forall_mem_cons] at h
    have ih := ih h.2
    unfold encoded at ih ⊢
    simp [parseMethods, parseCapability_encode, h.1, ih]

theorem assign_encoded {name : Bytes} {c : MethodCapability} (h : name ∉ methods.map Prod.fst) :
    ∃ sorted, sorted.Perm ((name, c) :: methods) ∧
        assign name (encodeCapability c) (encoded methods) = encoded sorted := by
  induction methods with
  | nil => exact ⟨[(name, c)], .refl _, rfl⟩
  | cons m rest ih =>
    rw [map_cons, mem_cons, not_or] at h
    obtain ⟨sorted, hperm, heq⟩ := ih h.2
    by_cases hlt : name < m.1
    · exact ⟨(name, c) :: m :: rest, .refl _, if_pos hlt⟩
    · refine ⟨m :: sorted, (hperm.cons m).trans (.swap ..), ?_⟩
      exact (if_neg hlt).trans ((if_neg h.1).trans (congrArg _ heq))

/-- The document lists the methods in the order of their names. -/
theorem members_encoded (h : (methods.map Prod.fst).Nodup) :
    ∃ sorted, sorted.Perm methods ∧ members methods = encoded sorted := by
  -- with the methods that have been assigned already
  suffices hfold : ∀ done, ((methods ++ done).map Prod.fst).Nodup →
      ∃ sorted, sorted.Perm (methods ++ done) ∧
        methods.foldl (fun members (name, c) => assign name (encodeCapability c) members)
          (encoded done) = encoded sorted by
    have hnil := hfold []
    rw [append_nil] at hnil
    exact hnil h
  clear h
  induction methods with
  | nil => exact fun done _ => ⟨done, .refl _, rfl⟩
  | cons m rest ih =>
    intro done h
    rw [cons_append, map_cons, nodup_cons, map_append, mem_append, not_or] at h
    obtain ⟨done', hperm, heq⟩ := assign_encoded (c := m.2) h.1.2
    have hmid : (rest ++ done').Perm (m :: rest ++ done) :=
      (hperm.append_left rest).trans perm_middle
    obtain ⟨sorted, hsorted, hfold⟩ := ih done' (by
      rw [(hmid.map Prod.fst).nodup_iff, cons_append, map_cons, nodup_cons,
        map_append, mem_append, not_or]
      exact h)
    refine ⟨sorted, hsorted.trans hmid, ?_⟩
    rw [foldl_cons, ← hfold, ← heq]

/-- **What the registry writes, the discovery reads.** -/
theorem registry_provider_read_back (json : JsonLibrary) (services : List (Bytes × Methods))
    (service host : Bytes) (port : UInt16) {methods : Methods}
    (hhost : host ≠ []) (hopen : 91 ∉ host) (hclose : 93 ∉ host) (hport : port ≠ 0)
    (hpublish : publishes services = true) (hservice : services.lookup service = some methods)
    (hkeys : (methods.map Prod.fst).Nodup) (hjson : json.ReadsBack (document methods)) :
    ∃ text endpoint, encode json services service = some text ∧
      parseEndpoint json (addressKey host port) text = some endpoint ∧
      endpoint.host = host ∧ endpoint.port = port ∧ endpoint.methods.Perm methods ∧
      endpoint.client.addressKey = addressKey host port := by
  obtain ⟨text, hdump, hne, hparse⟩ := hjson
  have htext : encode json services service = some text := by
    rwa [encode, hservice, Option.getD_some]
  obtain ⟨sorted, hperm, hmembers⟩ := members_encoded hkeys
  obtain ⟨l₁, l₂, rfl, -⟩ := lookup_eq_some_iff.mp hservice
  obtain ⟨hmethods, hvalid⟩ : methods ≠ [] ∧
      ∀ m ∈ methods, validPathSegment m.1 = true ∧ m.2.valid = true := by
    rw [publishes, Bool.and_eq_true, all_eq_true] at hpublish
    have h := hpublish.2 (service, methods) (by simp)
    simp only [Bool.and_eq_true, all_eq_true, Bool.not_eq_true', isEmpty_eq_false_iff] at h
    exact ⟨h.1.2, h.2⟩
  have hread := parseMethods_encoded fun m hm => hvalid m (hperm.mem_iff.mp hm)
  have hsorted : sorted ≠ [] := fun h => hmethods (nil_perm.mp (h ▸ hperm))
  refine ⟨text, ⟨host, port, sorted⟩, htext, ?_, rfl, rfl, hperm, rfl⟩
  have hvalid' : (Endpoint.client ⟨host, port, sorted⟩).valid = true := by
    simp [Endpoint.client, Client.Endpoint.valid, hhost, hport, hsorted]
  have hsame : (Endpoint.client ⟨host, port, sorted⟩).addressKey = addressKey host port := rfl
  simp [parseEndpoint, parseAddress_addressKey hhost hopen hclose hport, hne, hparse, document,
    hmembers, hread, hvalid', hsame]

/-- Method `Add` of service `Calc` at `::1`, port 80. -/
theorem provider_of_ipv6_host :
    let text := ascii "\x7b\"methods\":\x7b\"Add\":\x7b\"codec\":\"json\"," ++
      ascii "\"request_schema\":\"\",\"response_schema\":\"\",\"version\":\"1\"\x7d\x7d\x7d"
    let methods : Methods := [(ascii "Add", ⟨ascii "1", ascii "json", [], []⟩)]
    let json : JsonLibrary :=
      ⟨fun _ => some text, fun t => if t = text then some (document methods) else none⟩
    ∃ written endpoint, encode json [(ascii "Calc", methods)] (ascii "Calc") = some written ∧
      parseEndpoint json (ascii "[::1]:80") written = some endpoint ∧
      endpoint.host = ascii "::1" ∧ endpoint.port = 80 ∧ endpoint.methods.Perm methods ∧
      endpoint.client.addressKey = ascii "[::1]:80" := by
  intro text methods json
  have hparse : json.parse text = some (document methods) := by simp [json]
  exact registry_provider_read_back json [(ascii "Calc", methods)] (ascii "Calc") (ascii "::1") 80
    (by decide) (by decide) (by decide) (by decide) (by decide) rfl (by decide)
    ⟨text, rfl, by decide, hparse⟩

end CoroRpc.Discovery
