import Mathlib.Data.Set.Subsingleton
import CoroRpc.Discovery.ProviderFormat

/-!
# The paths of the watches

`RefreshService`, `ExistsCompletion` and `ChildrenCompletion` watch the node of the providers of a
service and the nodes below it. `Watcher` is handed back the path of the watch that has fired and
nothing else, and `ServiceFromPath` has to find in it the service that the watch was set for: it
cuts the path at the first `/providers` behind the root. The path of a watch is built as a
`std::string` and handed to the C library as `c_str()`, which ends at the first NUL. The name of a
service comes from the caller of a stub, and `ValidPathSegment` does not look for a NUL in it.
-/

namespace CoroRpc.Discovery

open Lib List

def providers : Bytes := ascii "/providers"

/-- What `find("/providers")` has in front of the place it answers, and what is behind the match. -/
def cutAtProviders : Bytes → Option (Bytes × Bytes)
  | [] => none
  | b :: rest =>
    if providers.isPrefixOf (b :: rest) then some ([], (b :: rest).drop providers.length)
    else (cutAtProviders rest).map fun (service, behind) => (b :: service, behind)

/-- `ServiceFromPath`; the service is empty where there is none. -/
def serviceFromPath (serviceRoot path : Bytes) : Bytes :=
  if (serviceRoot ++ [47]).isPrefixOf path then
    match cutAtProviders (path.drop (serviceRoot ++ [47]).length) with
    | some (service, behind) =>
      if (behind = [] ∨ behind.head? = some 47) ∧ validPathSegment service then service else []
    | none => []
  else []

/-! ## The watches -/

/-- The node that `zoo_awexists` and `zoo_awget_children` watch. -/
def providersPath (serviceRoot service : Bytes) : Bytes :=
  serviceRoot ++ [47] ++ service ++ providers

/-- The node that `zoo_awget` watches. -/
def endpointPath (serviceRoot service addressKey : Bytes) : Bytes :=
  providersPath serviceRoot service ++ 47 :: addressKey

/-- The node of the providers of a service, or one below it. -/
def IsPathOf (serviceRoot service path : Bytes) : Prop :=
  path = providersPath serviceRoot service ∨ ∃ rest, path = endpointPath serviceRoot service rest

/-- `WatchService` lets no other service into `watched_services_`. -/
structure WatchedService where
  name : Bytes
  valid : validPathSegment name = true

inductive Watch where
  | providers (service : WatchedService)
  | endpoint (service : WatchedService) (addressKey : Bytes)

def Watch.service : Watch → WatchedService
  | .providers service | .endpoint service _ => service

/-- `c_str()`, as far as the C library reads it. -/
def cStr (value : Bytes) : Bytes := value.takeWhile fun b => decide (b ≠ 0)

def Watch.path (serviceRoot : Bytes) : Watch → Bytes
  | .providers service => cStr (providersPath serviceRoot service.name)
  | .endpoint service addressKey => cStr (endpointPath serviceRoot service.name addressKey)

/-- The types of events that are not about the session. -/
inductive EventType where
  | created
  | deleted
  | changed
  | child
  deriving DecidableEq

inductive Reaction where
  | discoverAllServices
  | refreshService (service : Bytes)
  | nothing
  deriving DecidableEq

/-- `Watcher`, for an event of the current session that is about a node. -/
def watcher (serviceRoot : Bytes) (type : EventType) (path : Bytes) : Reaction :=
  if path = serviceRoot ∧ type = .child then .discoverAllServices
  else
    match serviceFromPath serviceRoot path with
    | [] => .nothing
    | service => .refreshService service

/-! ## The cut -/

variable {root path service behind : Bytes}

theorem eq_of_cutAtProviders (h : cutAtProviders path = some (service, behind)) :
    path = service ++ (providers ++ behind) := by
  induction path generalizing service with
  | nil => cases h
  | cons b rest ih =>
    unfold cutAtProviders at h
    split at h
    · next hprefix =>
      cases h
      obtain ⟨tail, htail⟩ := isPrefixOf_iff_prefix.mp hprefix
      rw [← htail, drop_left, nil_append]
    · obtain ⟨⟨service', behind'⟩, hcut, heq⟩ := Option.map_eq_some_iff.mp h
      cases heq
      rw [cons_append, ← ih hcut]

/-- A name without a slash does not hide the match behind it. -/
theorem cutAtProviders_append (h : 47 ∉ service) :
    cutAtProviders (service ++ (providers ++ behind)) = some (service, behind) := by
  induction service with
  | nil => rfl
  | cons b service ih =>
    rw [mem_cons, not_or] at h
    have hno : providers.isPrefixOf (b :: (service ++ (providers ++ behind))) = false := by
      rw [Bool.eq_false_iff]
      intro hprefix
      obtain ⟨tail, htail⟩ := isPrefixOf_iff_prefix.mp hprefix
      exact h.1 (cons.inj htail).1
    rw [cons_append, cutAtProviders, hno, ih h.2]
    rfl

theorem slash_not_mem (h : validPathSegment service = true) : 47 ∉ service := by
  simp only [validPathSegment, Bool.and_eq_true, Bool.not_eq_true'] at h
  simpa using h.2

theorem ne_nil_of_valid (h : validPathSegment service = true) : service ≠ [] := by
  rintro rfl
  cases h

theorem isPathOf_iff : IsPathOf root service path ↔
    ∃ behind, (behind = [] ∨ behind.head? = some 47) ∧
      path = root ++ [47] ++ (service ++ (providers ++ behind)) := by
  constructor
  · rintro (rfl | ⟨rest, rfl⟩)
    · exact ⟨[], .inl rfl, by simp [providersPath]⟩
    · exact ⟨47 :: rest, .inr rfl, by simp [endpointPath, providersPath]⟩
  · rintro ⟨behind, rfl | hslash, rfl⟩
    · exact .inl (by simp [providersPath])
    · obtain ⟨rest, rfl⟩ := head?_eq_some_iff.mp hslash
      exact .inr ⟨rest, by simp [endpointPath, providersPath]⟩

theorem serviceFromPath_of_isPathOf (hvalid : validPathSegment service = true)
    (h : IsPathOf root service path) : serviceFromPath root path = service := by
  obtain ⟨behind, hend, rfl⟩ := isPathOf_iff.mp h
  have hprefix := isPrefixOf_iff_prefix.mpr
    (prefix_append (root ++ [47]) (service ++ (providers ++ behind)))
  rw [serviceFromPath, if_pos hprefix, drop_left, cutAtProviders_append (slash_not_mem hvalid)]
  exact if_pos ⟨hend, hvalid⟩

theorem isPathOf_of_serviceFromPath (h : serviceFromPath root path ≠ []) :
    validPathSegment (serviceFromPath root path) = true ∧
      IsPathOf root (serviceFromPath root path) path := by
  unfold serviceFromPath at h ⊢
  split at h
  · next hprefix =>
    rw [if_pos hprefix]
    obtain ⟨tail, rfl⟩ := isPrefixOf_iff_prefix.mp hprefix
    rw [drop_left] at h ⊢
    split at h
    · next service behind hcut =>
      split at h
      · next hok =>
        simp only [if_pos hok]
        exact ⟨hok.2, isPathOf_iff.mpr ⟨behind, hok.1, by rw [eq_of_cutAtProviders hcut]⟩⟩
      · exact absurd rfl h
    · exact absurd rfl h
  · exact absurd rfl h

/-! ## Paths as the C library sees them -/

theorem cStr_append (h : 0 ∉ path) (behind : Bytes) : cStr (path ++ behind) = path ++ cStr behind :=
  takeWhile_append_of_pos fun _ hb => decide_eq_true (ne_of_mem_of_not_mem hb h)

theorem zero_not_mem_cStr (value : Bytes) : 0 ∉ cStr value := by
  have hall := all_takeWhile (p := fun b => decide (b ≠ 0)) (l := value)
  exact fun hmem => of_decide_eq_true (all_eq_true.mp hall 0 hmem) rfl

theorem zero_not_mem_providersPath (hroot : 0 ∉ root) (hservice : 0 ∉ service) :
    0 ∉ providersPath root service := by
  have hproviders : 0 ∉ providers := by decide
  simp [providersPath, hroot, hservice, hproviders]

/-- The path of a watch is one of its service exactly if no NUL cuts it off before its end. -/
theorem isPathOf_watch_iff (watch : Watch) : IsPathOf root watch.service.name (watch.path root) ↔
    0 ∉ root ∧ 0 ∉ watch.service.name := by
  constructor
  · intro hof
    obtain ⟨behind, -, hpath⟩ := isPathOf_iff.mp hof
    have hnone : 0 ∉ watch.path root := by
      cases watch <;> exact zero_not_mem_cStr _
    rw [hpath] at hnone
    simp only [mem_append, not_or] at hnone
    exact ⟨hnone.1.1, hnone.2.1⟩
  · rintro ⟨hroot, hname⟩
    have hnone := zero_not_mem_providersPath hroot hname
    cases watch with
    | providers service =>
      left
      have hcut := cStr_append hnone []
      rw [append_nil] at hcut
      exact hcut.trans (append_nil _)
    | endpoint service addressKey =>
      exact .inr ⟨cStr addressKey, cStr_append hnone (47 :: addressKey)⟩

theorem watcher_of_isPathOf (type : EventType) (hvalid : validPathSegment service = true)
    (hof : IsPathOf root service path) : watcher root type path = .refreshService service := by
  -- the path is longer than that of the root, whose events `Watcher` looks for first
  have hroot : path ≠ root := by
    intro heq
    obtain ⟨behind, -, hlong⟩ := isPathOf_iff.mp hof
    have hlength := congrArg List.length (heq.symm.trans hlong)
    simp at hlength
  rw [watcher, if_neg fun h => hroot h.1, serviceFromPath_of_isPathOf hvalid hof]
  cases service with
  | nil => cases hvalid
  | cons => rfl

theorem isPathOf_of_watcher {type : EventType}
    (h : watcher root type path = .refreshService service) : IsPathOf root service path := by
  unfold watcher at h
  split at h
  · cases h
  split at h
  · cases h
  · next hne =>
    cases h
    exact (isPathOf_of_serviceFromPath hne).2

/-- **A path tells the service it is of.** A service is found in a path exactly if the path is one
    of its own, and no path is one of two services. An event for a watch refreshes the service that
    the watch was set for exactly if neither the root nor the name of the service has a NUL. -/
theorem watch_paths_map_back (root : Bytes) :
    (∀ path service, service ≠ [] ∧ serviceFromPath root path = service ↔
      validPathSegment service = true ∧ IsPathOf root service path) ∧
    (∀ path, { service | validPathSegment service = true ∧
      IsPathOf root service path }.Subsingleton) ∧
    ∀ (type : EventType) (watch : Watch),
      watcher root type (watch.path root) = .refreshService watch.service.name ↔
        0 ∉ root ∧ 0 ∉ watch.service.name := by
  refine ⟨?_, ?_, ?_⟩
  · intro path service
    constructor
    · rintro ⟨hne, rfl⟩
      exact isPathOf_of_serviceFromPath hne
    · intro h
      exact ⟨ne_nil_of_valid h.1, serviceFromPath_of_isPathOf h.1 h.2⟩
  · intro path service h service' h'
    rw [← serviceFromPath_of_isPathOf h.1 h.2, serviceFromPath_of_isPathOf h'.1 h'.2]
  · intro type watch
    rw [← isPathOf_watch_iff]
    exact ⟨isPathOf_of_watcher, watcher_of_isPathOf type watch.service.valid⟩

/-- The watch of the service `a\0b`. -/
def watchWithNul : Watch := .providers ⟨[97, 0, 98], by decide⟩

/-- It is on the node `/s/a`, whose events refresh nothing. -/
theorem watch_of_name_with_nul : watchWithNul.path (ascii "/s") = ascii "/s/a" ∧
    ∀ type, watcher (ascii "/s") type (watchWithNul.path (ascii "/s")) ≠
      .refreshService watchWithNul.service.name := by
  refine ⟨by decide, fun type => ?_⟩
  cases type <;> decide

end CoroRpc.Discovery
