import CoroRpc.Server.Dispatcher

/-!
# Which handler serves a request

In a managed server `OnFrame` asks the dispatcher for the execution mode of a request and then
takes one of two paths: a request without an idempotency key whose method runs on the network
thread goes to `inline_view_handler`, which is `DispatchInline`, and every other one, at once or
through an executor, to `handler_`, which is `Dispatch`. The two look at different fields of the
same entry.

`Register` takes any mode and never a view handler, so that the first path can be chosen for an
entry which the second one alone can serve. The result on dispatch holds of the tables
in which `RegisterInline` is the only way to get that mode.

Registrations go on while requests are served, on other threads: between the choice of the path
and the call of the dispatcher any number of them may succeed.
-/

namespace CoroRpc.Server

open Lib Protocol List Option ServiceDispatcher

/-- The two ways from `OnFrame` to the dispatcher. -/
inductive Path where
  | view
  | owned
  deriving DecidableEq

/-- `OnFrame`, with `inline_view_handler` set. -/
def pathOf (mode : RpcExecutionMode) (metadata : RequestMetadata) : Path :=
  if mode = .networkInline ∧ metadata.idempotencyKey = [] then .view else .owned

variable {η ν : Type}

structure ManagedServer (η ν : Type) where
  process : Process η ν := (({} : Process η ν).call (.construct 0)).1
  /-- The requests that are on their way to the dispatcher. -/
  handed : List (Path × RequestMetadata) := []
  /-- Every registration that succeeded: kept for the statements only. -/
  registered : List (Method η ν) := []

inductive Event (η ν : Type) where
  | register (service method : Bytes) (handler : η) (mode : RpcExecutionMode)
      (capability : MethodCapability)
  | registerInline (service method : Bytes) (handler : η) (viewHandler : ν)
      (capability : MethodCapability)
  /-- `OnFrame` chooses the path of a request, on a network thread. -/
  | frame (thread : Nat) (metadata : RequestMetadata)
  /-- The dispatcher is called for a request, on the thread that runs it. -/
  | run (thread n : Nat)

namespace ManagedServer

variable (s : ManagedServer η ν)

def enter (entry : Method η ν) (call : Call η ν) :
    Option (ManagedServer η ν) :=
  match s.process.call call with
  | (process, .bool true) => some { s with process, registered := s.registered ++ [entry] }
  | _ => none

/-- `options_.execution_mode_view_selector(metadata_view)`, and what `OnFrame` makes of it. -/
def frame (thread : Nat) (metadata : RequestMetadata) :
    Process η ν × Path :=
  match s.process.call (.executionMode 0 thread metadata) with
  | (process, .mode mode) => (process, pathOf mode metadata)
  | (process, _) => (process, .owned)

def callOn (path : Path) (thread : Nat) (metadata : RequestMetadata) : Call η ν :=
  match path with
  | .view => .dispatchInline 0 thread metadata
  | .owned => .dispatch 0 thread metadata

/-- What the dispatcher does with a request that comes to it on `path`. -/
def reply (path : Path) (thread : Nat) (metadata : RequestMetadata) :
    Answer η ν :=
  (s.process.call (callOn path thread metadata)).2

def step : Event η ν → Option (ManagedServer η ν)
  | .register service method handler mode capability =>
    s.enter ⟨handler, none, mode, capability, service, method⟩
      (.register 0 service method (some handler) mode capability)
  | .registerInline service method handler viewHandler capability =>
    s.enter ⟨handler, some viewHandler, .networkInline, capability, service, method⟩
      (.registerInline 0 service method (some handler) (some viewHandler) capability)
  | .frame thread metadata =>
    let (process, path) := s.frame thread metadata
    some { s with process, handed := s.handed ++ [(path, metadata)] }
  | .run thread n =>
    s.handed[n]?.map fun (path, metadata) =>
      { s with
        process := (s.process.call (callOn path thread metadata)).1
        handed := s.handed.eraseIdx n }

/-- The dispatcher's answer to a request that is run right after its `OnFrame`. -/
def serve (thread : Nat) (metadata : RequestMetadata) : Answer η ν :=
  let (process, path) := s.frame thread metadata
  { s with process }.reply path thread metadata

/-- No method runs on the network thread that has no view handler, and the dispatcher's count does
    not come round. -/
def Steady : Event η ν → Prop
  | .register service method handler mode capability =>
    mode ≠ .networkInline ∧
      s.process.Unworn (.register 0 service method (some handler) mode capability)
  | .registerInline service method handler viewHandler capability =>
    s.process.Unworn (.registerInline 0 service method (some handler) (some viewHandler) capability)
  | _ => True

instance (s : ManagedServer η ν) : ∀ e, Decidable (s.Steady e)
  | .register .. => inferInstanceAs (Decidable (_ ∧ _))
  | .registerInline service method handler viewHandler capability =>
    inferInstanceAs (Decidable (s.process.Unworn
      (.registerInline 0 service method (some handler) (some viewHandler) capability)))
  | .frame .. | .run .. => .isTrue trivial

end ManagedServer

/-! ## The path is the one of the request path model -/

/-- `onRequest` of a server with an inline view handler calls that handler for the requests of
    `Path.view`, and goes on to an execution for those of `Path.owned`, if it goes on at all. -/
theorem RpcServer.onRequest_path {options : RpcServerOptions} (hview : options.inlineViewHandler)
    (s : RpcServer) (c : Nat) (connection : ServerConnection) (frame : Frame)
    (metadata : RequestMetadata) (w : Work)
    (hw : w ∈ (s.onRequest options c connection frame metadata).2) :
    (∀ requestId deadlineMs, w = .view c requestId deadlineMs →
      pathOf (options.executionMode metadata) metadata = .view) ∧
    ∀ i mode, w = .lookUp i mode → mode = options.executionMode metadata ∧
      pathOf mode metadata = .owned := by
  unfold RpcServer.onRequest at hw
  dsimp only at hw
  split at hw
  · refine ⟨?_, ?_⟩ <;> (intros; subst w; simp [RpcServer.reply] at hw)
  · split at hw
    · refine ⟨?_, ?_⟩ <;> (intros; subst w; simp [RpcServer.reply] at hw)
    · split at hw
      · next hinline =>
        refine ⟨fun _ _ _ => if_pos ⟨hinline.1, hinline.2.1⟩, ?_⟩
        intro i mode heq
        subst heq
        simp at hw
      · next hinline =>
        split at hw
        · refine ⟨?_, ?_⟩ <;> (intros; subst w; simp [RpcServer.reply] at hw)
        · refine ⟨?_, ?_⟩
          · intro _ _ heq
            subst heq
            simp at hw
          · intro i mode heq
            subst heq
            simp only [mem_singleton, Work.lookUp.injEq] at hw
            refine ⟨hw.2, if_neg fun h => hinline ?_⟩
            exact ⟨hw.2 ▸ h.1, h.2, hview⟩

/-! ## Registered methods stay served -/

variable {d : ServiceDispatcher η ν}

/-- A registration that succeeds puts its entry under a key that was free. -/
theorem ServiceDispatcher.emplace_true {entry : Method η ν} (h : (d.emplace entry).2 = true) :
    d.methods.lookup (key entry.service entry.method) = none ∧
      (d.emplace entry).1.methods = d.methods.insert (key entry.service entry.method) entry := by
  unfold emplace at h ⊢
  split at h
  · cases h
  · next hfree =>
    rw [if_neg hfree]
    exact ⟨by simpa using hfree, rfl⟩

theorem ServiceDispatcher.register_true {service method : Bytes} {handler : η}
    {mode : RpcExecutionMode} {capability : MethodCapability}
    (h : (d.register service method (some handler) mode capability).2 = true) :
    d.register service method (some handler) mode capability =
      d.emplace ⟨handler, none, mode, capability, service, method⟩ := by
  unfold register at h ⊢
  dsimp only at h ⊢
  split at h
  · cases h
  · next hok => rw [if_neg hok]

theorem ServiceDispatcher.registerInline_true {service method : Bytes} {handler : η}
    {viewHandler : ν} {capability : MethodCapability}
    (h : (d.registerInline service method (some handler) (some viewHandler) capability).2 = true) :
    d.registerInline service method (some handler) (some viewHandler) capability =
      d.emplace ⟨handler, some viewHandler, .networkInline, capability, service, method⟩ := by
  unfold registerInline at h ⊢
  dsimp only at h ⊢
  split at h
  · cases h
  · next hok => rw [if_neg hok]

/-- What holds of a managed server whose dispatcher is `d`. -/
structure Serving (s : ManagedServer η ν) (d : ServiceDispatcher η ν) : Prop where
  alive : s.process.dispatchers.lookup 0 = some d
  coherent : Coherent s.process
  /-- What was registered is in the table. -/
  entries : ∀ m ∈ s.registered, d.methods.lookup (key m.service m.method) = some m
  /-- A method that runs on the network thread has a view handler. -/
  inline : ∀ k m, d.methods.lookup k = some m → m.mode = .networkInline → m.viewHandler ≠ none
  /-- The first path is only taken for such methods. -/
  handed : ∀ metadata, (Path.view, metadata) ∈ s.handed →
    ∃ m, d.methods.lookup (key metadata.service metadata.method) = some m ∧ m.mode = .networkInline

namespace Serving

variable {s : ManagedServer η ν} {d : ServiceDispatcher η ν}

theorem init : Serving ({} : ManagedServer η ν) {} where
  alive := rfl
  coherent := Coherent.init.call (.construct 0) (by simp [Process.Unworn])
  entries := fun _ h => absurd h not_mem_nil
  inline := fun k m h => absurd h (by simp [AList.lookup_empty])
  handed := fun _ h => absurd h not_mem_nil

/-- A registration that succeeds. It shadows nothing, so what was served before is. -/
theorem enter (h : Serving s d) (call : Call η ν) {entry : Method η ν}
    {f : ServiceDispatcher η ν → ServiceDispatcher η ν × Bool} {s' : ManagedServer η ν}
    (hcall : s.process.call call = s.process.update 0 f)
    (htrue : (f d).2 = true → f d = d.emplace entry) (hunworn : s.process.Unworn call)
    (hinline : entry.mode = .networkInline → entry.viewHandler ≠ none)
    (hs : s.enter entry call = some s') : ∃ d', Serving s' d' := by
  have hcoherent := h.coherent.call call hunworn
  unfold ManagedServer.enter at hs
  split at hs
  · next process hprocess =>
    cases hs
    rw [hprocess] at hcoherent
    rw [hcall, Process.update, h.alive] at hprocess
    simp only [Prod.mk.injEq, Answer.bool.injEq] at hprocess
    obtain ⟨hdispatchers, hanswer⟩ := hprocess
    rw [htrue hanswer] at hdispatchers hanswer
    obtain ⟨hfree, hmethods⟩ := emplace_true hanswer
    have hkeep : ∀ k m, d.methods.lookup k = some m →
        (d.emplace entry).1.methods.lookup k = some m := by
      intro k m hk
      rw [hmethods, AList.lookup_insert_ne]
      · exact hk
      · rintro rfl
        cases hk.symm.trans hfree
    refine ⟨(d.emplace entry).1, ⟨?_, hcoherent, ?_, ?_, ?_⟩⟩
    · rw [← hdispatchers]
      exact AList.lookup_insert _
    · intro m hm
      rcases mem_append.mp hm with hm | hm
      · exact hkeep _ _ (h.entries m hm)
      · rw [mem_singleton.mp hm, hmethods]
        exact AList.lookup_insert _
    · intro k m hk
      by_cases hkey : k = key entry.service entry.method
      · rw [hkey, hmethods, AList.lookup_insert] at hk
        exact some.inj hk ▸ hinline
      · rw [hmethods, AList.lookup_insert_ne hkey] at hk
        exact h.inline k m hk
    · intro metadata hmem
      obtain ⟨m, hm, hmode⟩ := h.handed metadata hmem
      exact ⟨m, hkeep _ _ hm, hmode⟩
  · cases hs

/-- The path that `OnFrame` chooses, in terms of the table. -/
theorem frame_path (h : Serving s d) (thread : Nat) (metadata : RequestMetadata) :
    (s.frame thread metadata).2 =
      pathOf (executionMode (d.methods.lookup (key metadata.service metadata.method)))
        metadata := by
  have hanswer := Process.look_answer h.coherent h.alive thread metadata
  unfold ManagedServer.frame
  rw [← Prod.eta (s.process.call _)]
  simp only [Process.call, hanswer]

theorem frame_process (thread : Nat) (metadata : RequestMetadata) :
    (s.frame thread metadata).1 = (s.process.call (.executionMode 0 thread metadata)).1 := by
  unfold ManagedServer.frame
  split <;> simp_all

section
variable (h : Serving s d)
include h

theorem lookedUp (thread : Nat) (metadata : RequestMetadata) (f : Option (Method η ν) → Answer η ν)
    {handed : List (Path × RequestMetadata)}
    (hhanded : ∀ metadata, (Path.view, metadata) ∈ handed →
      ∃ m, d.methods.lookup (key metadata.service metadata.method) = some m ∧
        m.mode = .networkInline) :
    Serving { s with process := (s.process.look 0 thread metadata f).1, handed } d where
  alive := by
    simp only [Process.look, h.alive]
  coherent := h.coherent.look 0 thread metadata f
  entries := h.entries
  inline := h.inline
  handed := hhanded

theorem view_method {thread : Nat} {metadata : RequestMetadata}
    (hpath : (s.frame thread metadata).2 = .view) :
    ∃ m, d.methods.lookup (key metadata.service metadata.method) = some m ∧
      m.mode = .networkInline := by
  rw [h.frame_path, pathOf] at hpath
  split at hpath
  · next hmode =>
    cases hfound : d.methods.lookup (key metadata.service metadata.method) with
    | none => exact absurd hmode.1 (by simp [hfound, executionMode])
    | some m => exact ⟨m, rfl, by simpa [hfound, executionMode] using hmode.1⟩
  · cases hpath

theorem frame (thread : Nat) (metadata : RequestMetadata) :
    Serving { s with process := (s.frame thread metadata).1
                     handed := s.handed ++ [((s.frame thread metadata).2, metadata)] } d := by
  rw [frame_process]
  refine h.lookedUp thread metadata _ fun metadata' hmem => ?_
  rcases mem_append.mp hmem with hmem | hmem
  · exact h.handed metadata' hmem
  · obtain ⟨hpath, rfl⟩ := Prod.mk.inj (mem_singleton.mp hmem)
    exact h.view_method hpath.symm

theorem run (path : Path) (thread n : Nat) (metadata : RequestMetadata) :
    Serving { s with process := (s.process.call (ManagedServer.callOn path thread metadata)).1
                     handed := s.handed.eraseIdx n } d := by
  have hhanded := fun metadata' hmem =>
    h.handed metadata' (mem_of_mem_eraseIdx (i := n) hmem)
  cases path with
  | view => exact h.lookedUp thread metadata dispatchInline hhanded
  | owned => exact h.lookedUp thread metadata dispatch hhanded

theorem step {e : Event η ν} {s' : ManagedServer η ν} (hok : s.Steady e) (hs : s.step e = some s') :
    ∃ d', Serving s' d' := by
  cases e with
  | register service method handler mode capability =>
    exact h.enter (.register 0 service method handler mode capability) rfl
      register_true hok.2 (fun hmode => absurd hmode hok.1) hs
  | registerInline service method handler viewHandler capability =>
    exact h.enter (.registerInline 0 service method handler viewHandler capability) rfl
      registerInline_true hok (fun _ => by simp) hs
  | frame thread metadata =>
    cases hs
    exact ⟨d, h.frame thread metadata⟩
  | run thread n =>
    obtain ⟨⟨path, metadata⟩, -, rfl⟩ := map_eq_some_iff.mp hs
    exact ⟨d, h.run path thread n metadata⟩

theorem reply_eq (path : Path) (thread : Nat) (metadata : RequestMetadata) :
    s.reply path thread metadata = (match path with
        | .view => dispatchInline
        | .owned => dispatch)
      (d.methods.lookup (key metadata.service metadata.method)) := by
  cases path with
  | view => exact Process.look_answer h.coherent h.alive thread metadata dispatchInline
  | owned => exact Process.look_answer h.coherent h.alive thread metadata dispatch

/-- A request for a registered method is served on either path, if the path was chosen for it. -/
theorem reply_registered {path : Path} {metadata : RequestMetadata} {m : Method η ν}
    (hm : d.methods.lookup (key metadata.service metadata.method) = some m)
    (hpath : path = .view → m.mode = .networkInline) (thread : Nat) :
    s.reply path thread metadata = .handler m.handler ∨
      ∃ v, m.viewHandler = some v ∧ s.reply path thread metadata = .viewHandler v := by
  rw [h.reply_eq, hm]
  cases path with
  | owned => exact .inl rfl
  | view =>
    obtain ⟨v, hv⟩ := ne_none_iff_exists'.mp (h.inline _ m hm (hpath rfl))
    exact .inr ⟨v, hv, by simp [dispatchInline, hv]⟩

/-- Whether the method is found does not depend on the path. -/
theorem serve_eq_unimplemented (thread : Nat) (metadata : RequestMetadata) :
    s.serve thread metadata = .reply unimplemented ↔
      d.methods.lookup (key metadata.service metadata.method) = none := by
  have hserve : s.serve thread metadata =
      { s with process := (s.frame thread metadata).1 }.reply (s.frame thread metadata).2 thread
        metadata := rfl
  have hframe : Serving { s with process := (s.frame thread metadata).1 } d := by
    rw [frame_process]
    exact h.lookedUp thread metadata _ h.handed
  rw [hserve]
  cases hm : d.methods.lookup (key metadata.service metadata.method) with
  | none =>
    rw [hframe.reply_eq, hm]
    cases (s.frame thread metadata).2 <;> simp [dispatch, dispatchInline]
  | some m =>
    have hpath : (s.frame thread metadata).2 = .view → m.mode = .networkInline := by
      intro hpath
      obtain ⟨m', hm', hmode⟩ := h.view_method hpath
      exact some.inj (hm.symm.trans hm') ▸ hmode
    rcases hframe.reply_registered hm hpath thread with heq | ⟨v, -, heq⟩ <;> simp [heq]

end

end Serving

/-- A method of each kind is registered and asked for. -/
def servedEvents : List (Event Nat Nat) :=
  let capability : MethodCapability := ⟨[1], [1], [], []⟩
  [.register [97] [98] 1 .cpuPool capability, .registerInline [97] [99] 2 3 capability,
    .frame 0 ⟨[97], [98], [], [], 0⟩, .frame 0 ⟨[97], [99], [], [], 0⟩,
    .frame 1 ⟨[97], [99], [107], [], 0⟩]

/-- `Register` with `NETWORK_INLINE`. The method's requests go to `DispatchInline`, which has no
    handler for them, unless they carry an idempotency key. -/
def inlineWithoutView : List (Event Nat Nat) :=
  [.register [97] [98] 1 .networkInline ⟨[1], [1], [], []⟩, .frame 0 ⟨[97], [98], [], [], 0⟩]

end CoroRpc.Server
