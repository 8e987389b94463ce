import CoroRpc.Server.Effects

/-!
# One execution per key

Duplicates of a keyed request are merged onto the execution in progress because the pending
record of the key is in the table for as long as that execution lasts. `Cancel` and `Abandon`
break this: when they drop the last waiter of a pending record they erase it, although the handler
goes on, and the next request with the key starts a second execution beside the first.
Where no cancel or close does that, the executions of a key never
overlap.
-/

namespace CoroRpc.Server

open Lib Protocol IdempotencyTable RpcServer

/-- An execution lasts from its submission (or its handler call, if it is inline) until its
    response has been taken. -/
def Execution.Active (x : Execution) : Prop :=
  x.phase ≠ .done ∧ ∀ mode, x.phase ≠ .admitted mode

/-- If request `i` is the last waiter of a pending record, the executions of its key have ended. -/
def LastWaiterIdle (s : RpcServer) (i : Nat) : Prop :=
  ∀ state ∈ s.states[i]?, ∀ record ∈ s.table.find state.idempotencyKey,
    record.pending = true → (record.waiters.filter fun j => decide (j ≠ i)) = [] →
      ∀ x ∈ s.executions, x.idempotencyKey = state.idempotencyKey → x.phase = .done

instance (s : RpcServer) (i : Nat) : Decidable (LastWaiterIdle s i) :=
  inferInstanceAs (Decidable (∀ state ∈ s.states[i]?, ∀ record ∈ s.table.find state.idempotencyKey,
      record.pending = true → (record.waiters.filter fun j => decide (j ≠ i)) = [] →
        ∀ x ∈ s.executions, x.idempotencyKey = state.idempotencyKey → x.phase = .done))

/-- No cancel and no close erases the record of an execution that has not ended. -/
def ErasesOnlyIdle (s : RpcServer) (l : Label) : Prop :=
  match s.workOf l with
  | some (.dropWaiter i) => LastWaiterIdle s i
  | _ => True

instance (s : RpcServer) (l : Label) : Decidable (ErasesOnlyIdle s l) := by
  unfold ErasesOnlyIdle
  split
  · infer_instance
  · exact isTrue trivial

/-! ## Phases in the list of executions -/

theorem getElem?_setPhase {l : List Execution} {e e' : Nat} {p : Phase} {y : Execution}
    (h : (l.modify e fun x => { x with phase := p })[e']? = some y) :
    ∃ x, l[e']? = some x ∧ y.idempotencyKey = x.idempotencyKey ∧ y.body = x.body ∧
      y.request = x.request ∧ ((e' = e ∧ y.phase = p) ∨ (e' ≠ e ∧ y = x)) := by
  obtain ⟨x, hx, rfl⟩ := getElem?_modify_iff.mp h
  refine ⟨x, hx, ?_⟩
  split
  · next he => exact ⟨rfl, rfl, rfl, .inl ⟨he.symm, rfl⟩⟩
  · next he => exact ⟨rfl, rfl, rfl, .inr ⟨fun h => he h.symm, rfl⟩⟩

/-! ## The invariant -/

/-- A keyed execution that has not ended has the pending record of its key to itself. -/
structure Merged (executions : List Execution) (table : IdempotencyTable) : Prop where
  pending : ∀ (e : Nat) (x : Execution), executions[e]? = some x → x.idempotencyKey ≠ [] →
    x.phase ≠ .done →
    ∃ record, table.find x.idempotencyKey = some record ∧ record.pending = true
  unique : ∀ (e e' : Nat) (x x' : Execution), executions[e]? = some x → executions[e']? = some x' →
    x.idempotencyKey = x'.idempotencyKey → x.idempotencyKey ≠ [] →
    x.phase ≠ .done → x'.phase ≠ .done → e = e'

namespace Merged

variable {executions : List Execution} {table table' : IdempotencyTable}

theorem init (n : Nat) : Merged (RpcServer.init n).executions (RpcServer.init n).table where
  pending _ _ h := by simp [RpcServer.init] at h
  unique _ _ _ _ h := by simp [RpcServer.init] at h

section
variable (h : Merged executions table)
include h

theorem of_table (keep : ∀ key record, table.find key = some record → record.pending = true →
      (∃ (e : Nat) (x : Execution), executions[e]? = some x ∧ x.idempotencyKey = key ∧
        x.phase ≠ .done) →
      ∃ record', table'.find key = some record' ∧ record'.pending = true) :
    Merged executions table' where
  pending e x hx hk hp := by
    obtain ⟨record, hr, hpend⟩ := h.pending e x hx hk hp
    exact keep _ record hr hpend ⟨e, x, hx, rfl, hp⟩
  unique := h.unique

variable {x : Execution}

theorem setPhase {e : Nat} (hx : executions[e]? = some x) (hp : x.phase ≠ .done) (p : Phase) :
    Merged (executions.modify e fun x => { x with phase := p }) table := by
  -- Whatever has not ended now had not ended before.
  have hback : ∀ {e' : Nat} {y : Execution},
      (executions.modify e fun x => { x with phase := p })[e']? = some y → y.phase ≠ .done →
      ∃ x, executions[e']? = some x ∧ y.idempotencyKey = x.idempotencyKey ∧ x.phase ≠ .done := by
    intro e' y hy hyp
    obtain ⟨x', hx', hkey, -, -, ⟨rfl, -⟩ | ⟨-, rfl⟩⟩ := getElem?_setPhase hy
    · rw [hx] at hx'
      cases hx'
      exact ⟨x, hx, hkey, hp⟩
    · exact ⟨y, hx', hkey, hyp⟩
  constructor
  · intro e' y hy hk hyp
    obtain ⟨x', hx', hkey, hxp⟩ := hback hy hyp
    rw [hkey] at hk ⊢
    exact h.pending e' x' hx' hk hxp
  · intro e₁ e₂ y₁ y₂ hy₁ hy₂ heq hk hp₁ hp₂
    obtain ⟨x₁, hx₁, hk₁, hxp₁⟩ := hback hy₁ hp₁
    obtain ⟨x₂, hx₂, hk₂, hxp₂⟩ := hback hy₂ hp₂
    exact h.unique e₁ e₂ x₁ x₂ hx₁ hx₂ (by rw [← hk₁, ← hk₂, heq]) (hk₁ ▸ hk) hxp₁ hxp₂

/-- A new execution needs a pending record that no execution in progress has. -/
theorem start (hrec : x.idempotencyKey ≠ [] →
      ∃ record, table.find x.idempotencyKey = some record ∧ record.pending = true)
    (hfree : x.idempotencyKey ≠ [] → ∀ (e : Nat) (y : Execution), executions[e]? = some y →
      y.idempotencyKey = x.idempotencyKey → y.phase = .done) :
    Merged (executions ++ [x]) table := by
  constructor
  · intro e y hy hk hp
    rcases getElem?_snoc hy with hy | ⟨-, rfl⟩
    · exact h.pending e y hy hk hp
    · exact hrec hk
  · intro e₁ e₂ y₁ y₂ hy₁ hy₂ heq hk hp₁ hp₂
    rcases getElem?_snoc hy₁ with old₁ | ⟨h₁, rfl⟩ <;>
      rcases getElem?_snoc hy₂ with old₂ | ⟨h₂, rfl⟩
    · exact h.unique e₁ e₂ y₁ y₂ old₁ old₂ heq hk hp₁ hp₂
    · exact absurd (hfree (heq ▸ hk) e₁ y₁ old₁ heq) hp₁
    · exact absurd (hfree hk e₂ y₂ old₂ heq.symm) hp₂
    · rw [h₁, h₂]

theorem resolve {maxEntries : Nat} {key body : Bytes} {fingerprint : UInt64} {i : Nat}
    {admission : IdempotencyTable.Admission} {mode : RpcExecutionMode}
    (ht : table.resolve maxEntries key fingerprint body i = (table', admission)) :
    Merged (if admission = .execute then executions ++ [⟨i, key, body, .admitted mode⟩]
      else executions) table' := by
  have hprune : Merged executions (table.pruneIdempotencyCache maxEntries) :=
    h.of_table fun key record hr hp _ =>
      ⟨record, find_prune_of_pending hr hp, hp⟩
  obtain ⟨record, -, rfl, rfl⟩ | ⟨record, hr, -, hp, rfl, rfl⟩ | ⟨record, -, -, -, rfl, rfl⟩ |
    ⟨hn, rfl, rfl⟩ | ⟨hn, rfl, rfl⟩ := resolve_cases ht
  · simpa using h
  · rw [if_neg (by simp)]
    refine h.of_table fun key' record' hr' hp' _ => ?_
    rw [find_put]
    split
    · exact ⟨_, rfl, hp⟩
    · exact ⟨record', hr', hp'⟩
  · simpa using h
  · simpa using hprune
  · -- The key had no record, so no execution of it is in progress.
    refine start (hprune.of_table fun key' record' hr' hp' _ => ?_) ?_ ?_
    · rw [find_put]
      split
      · exact ⟨_, rfl, rfl⟩
      · exact ⟨record', hr', hp'⟩
    · exact fun _ => ⟨_, by rw [find_put, if_pos rfl], rfl⟩
    · intro hk e y hy hkey
      by_contra hp
      obtain ⟨record, hr, -⟩ := h.pending e y hy (by rw [hkey]; exact hk) hp
      rw [hkey] at hr
      rw [show table.find key = none from hn] at hr
      cases hr

theorem complete {e maxEntries : Nat} {r : Response} {c : Bool} (hx : executions[e]? = some x)
    (hp : x.phase ≠ .done) (hk : x.idempotencyKey ≠ []) :
    Merged (executions.modify e fun x => { x with phase := .done })
      (table.finish maxEntries x.idempotencyKey r c).1 := by
  refine (h.setPhase hx hp .done).of_table fun key record hr hpend hlive => ?_
  obtain ⟨e', y, hy, rfl, hyp⟩ := hlive
  obtain ⟨x', hx', hkey, -, -, ⟨-, hd⟩ | ⟨hne, rfl⟩⟩ := getElem?_setPhase hy
  · exact absurd hd hyp
  · -- Only `e` itself can be in progress under its key.
    have hother : y.idempotencyKey ≠ x.idempotencyKey := by
      intro heq
      exact hne (h.unique e' e y x hx' hx heq (heq ▸ hk) hyp hp)
    exact ⟨record, find_finish_of_pending hother hr hpend, hpend⟩

theorem dropWaiter {key : Bytes} {i : Nat}
    (hidle : ∀ record, table.find key = some record → record.pending = true →
      (record.waiters.filter fun j => decide (j ≠ i)) = [] →
      ∀ x ∈ executions, x.idempotencyKey = key → x.phase = .done) :
    Merged executions (table.dropWaiter key i) := by
  refine h.of_table fun key' record hr hp hlive => ?_
  unfold IdempotencyTable.dropWaiter
  split
  · next record' hr' =>
    split
    · next hp' =>
      dsimp only
      split
      · next hempty =>
        obtain ⟨e, x, hx, rfl, hxp⟩ := hlive
        rw [find_erase]
        split
        · next hkey => exact absurd (hidle record' hr' hp' hempty x (List.mem_of_getElem? hx) hkey) hxp
        · exact ⟨record, hr, hp⟩
      · rw [find_put]
        split
        · exact ⟨_, rfl, hp'⟩
        · exact ⟨record, hr, hp⟩
    · exact ⟨record, hr, hp⟩
  · exact ⟨record, hr, hp⟩

end

end Merged

variable {s : RpcServer}

theorem merged_step {options : RpcServerOptions} {s' : RpcServer} {l : Label}
    (h : Merged s.executions s.table) (hok : ErasesOnlyIdle s l) (hs : s.step options l = some s') :
    Merged s'.executions s'.table := by
  obtain ⟨_, he, -⟩ := step_effect options hs
  unfold ErasesOnlyIdle at hok
  generalize s.workOf l = w at he hok
  generalize s'.executions = executions, s'.table = table at he ⊢
  cases he with
  | quiet => exact h
  | phase hx hw _ _ => exact h.setPhase hx hw _
  | start _ hk => exact h.start (absurd hk) (absurd hk)
  | resolve _ _ _ ht => exact h.resolve ht
  | deliver hx hw => exact h.setPhase hx (by simp [hw]) .done
  | complete hx hw hk => exact h.complete hx (by simp [hw]) hk
  | drop hi => exact h.dropWaiter fun record hr => hok _ hi record hr

theorem merged_of_reaches {options : RpcServerOptions} {n : Nat}
    (h : Reaches (step options) ErasesOnlyIdle (.init n) s) :
    Merged s.executions s.table :=
  h.invariant (p := fun s => Merged s.executions s.table) (Merged.init n)
    fun _ _ _ hi hok hs => merged_step hi hok hs

/-- **No overlap**: where no cancel and no close erases the record of an execution in progress,
two executions of one key that are in progress are the same execution. -/
theorem executions_do_not_overlap (options : RpcServerOptions) (n : Nat) {s : RpcServer}
    (h : Reaches (RpcServer.step options) ErasesOnlyIdle (.init n) s) {e e' : Nat}
    {x x' : Execution} (hx : s.executions[e]? = some x) (hx' : s.executions[e']? = some x')
    (hkey : x.idempotencyKey = x'.idempotencyKey) (hne : x.idempotencyKey ≠ [])
    (ha : x.Active) (ha' : x'.Active) : e = e' :=
  (merged_of_reaches h).unique e e' x x' hx hx' hkey hne ha.1 ha'.1

/-! ## Runs -/

/-- A server with a pool of workers. -/
def pooledOptions : RpcServerOptions where
  maxInflightPerConnection := 4
  maxInflightRequests := 4
  maxIdempotencyEntries := 4
  executionMode _ := .cpuPool
  inlineViewHandler := false

variable (requestId : UInt64)

/-- A request for one fixed method, under one fixed key. -/
def keyedRequest (body : Bytes) : Frame where
  header := { messageType := .request, requestId := requestId }
  metadata :=
    (encodeRequestMetadata
      { service := [1], method := [2], idempotencyKey := [7], applicationMetadata := [],
        timeoutMs := 0 }).toOption.getD []
  body := body

def cancelFrame : Frame where
  header := { messageType := .cancel, requestId := requestId }
  metadata := []
  body := []

/-- The frame arrives on connection 0 and its handler goes to the pool. -/
def submitted (frame : Frame) : List Label :=
  [.frame 0 frame, .work 0 .none, .work 0 (.submit true)]

/-- CANCEL for the request `requestId` of connection 0, up to the reply. -/
def cancelled : List Label :=
  [.frame 0 (cancelFrame requestId), .work 0 .none, .work 0 .none, .work 0 .none,
    .work 0 (.queue false), .work 0 (.outboundEmpty false)]

/-- A duplicate that arrives while the handler runs is merged onto that one execution. -/
theorem executions_do_not_overlap_merged :
    ∃ s, Reaches (step pooledOptions) ErasesOnlyIdle (.init 1) s ∧
      s.states.length = 2 ∧ ∃ x, s.executions[0]? = some x ∧ x.Active ∧
        ∀ (e : Nat) (x' : Execution), s.executions[e]? = some x' →
          x'.idempotencyKey = x.idempotencyKey → x'.Active → e = 0 := by
  refine exists_reaches_of_exec (p := fun s => s.states.length = 2 ∧
      s.executions = [⟨0, buildIdempotencyKey [] [1] [2] [7], [5], .running⟩])
    (.attachConnection 0 [] :: submitted (keyedRequest 1 [5]) ++ [.workerStarts 0,
      .frame 0 (keyedRequest 2 [5]), .work 0 .none]) (by decide +kernel) fun s hr hs => ?_
  obtain ⟨hlen, hexec⟩ := hs
  have hx : s.executions[0]? = some ⟨0, buildIdempotencyKey [] [1] [2] [7], [5], .running⟩ := by
    rw [hexec]; rfl
  have hactive : Execution.Active ⟨0, buildIdempotencyKey [] [1] [2] [7], [5], .running⟩ :=
    ⟨by simp, by simp⟩
  refine ⟨hlen, _, hx, hactive, fun e x' hx' hkey ha => ?_⟩
  exact executions_do_not_overlap pooledOptions 1 hr hx' hx hkey (by rw [hkey]; decide) ha hactive

/-- The handler runs for request 1; the client cancels it and retries under the same key; the
retry's execution is submitted while the first one is still running. -/
theorem cancel_then_retry_overlaps : ∃ s, Reachable (step pooledOptions) (.init 1) s ∧
      ∃ x x' : Execution, s.executions[0]? = some x ∧ s.executions[1]? = some x' ∧
        x.idempotencyKey = x'.idempotencyKey ∧ x.idempotencyKey ≠ [] ∧ x.Active ∧ x'.Active := by
  refine exists_reaches_of_exec
      (p := fun s => s.executions = [⟨0, buildIdempotencyKey [] [1] [2] [7], [5], .running⟩,
        ⟨1, buildIdempotencyKey [] [1] [2] [7], [5], .queued⟩])
    (.attachConnection 0 [] :: submitted (keyedRequest 1 [5]) ++ .workerStarts 0 :: cancelled 1 ++
      submitted (keyedRequest 2 [5])) (by decide +kernel) fun s hr hexec => ?_
  refine ⟨⟨0, _, [5], .running⟩, ⟨1, _, [5], .queued⟩, by rw [hexec]; rfl,
    by rw [hexec]; rfl, rfl, by decide, ?_, ?_⟩
  · exact ⟨by simp, by simp⟩
  · exact ⟨by simp, by simp⟩

end CoroRpc.Server
