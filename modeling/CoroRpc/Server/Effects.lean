import CoroRpc.Server.Moves

/-!
# What a step of the server can do

The idempotency results only look at the table, at the executions and at the responses on their
way to a request. `Effect` lists what a step can do to these, once for all of them: nothing, move
an execution from one phase to the next, start one, or run one of the locked sections. The
invariants of the later modules are then short case analyses of `Effect`, and none of them
unfolds the request path again.

A response is on its way to request `i` when some thread or some posted closure is about to
`Finish` it (`Owes`). `Passes` says that a step invents no such obligation: what it leaves behind
was owed by the work it did, or is the server's own reply, or is named by the effect.
-/

namespace CoroRpc.Server

open Lib Protocol List Work

/-- Doing `w` will finish request `j` with response `r'`. -/
def Work.owes : Work → Nat → Response → Prop
  | .finish i r, j, r' => j = i ∧ r' = r
  | .finishWaiters waiters r, j, r' => j ∈ waiters ∧ r' = r
  | _, _, _ => False

def Message.owes : Message → Nat → Response → Prop
  | .finish i r, j, r' => j = i ∧ r' = r
  | .completion _, _, _ => False

/-- Response `r` is on its way to request `i`. -/
def RpcServer.Owes (s : RpcServer) (i : Nat) (r : Response) : Prop :=
  (∃ stack ∈ s.threads, ∃ w ∈ stack, w.owes i r) ∨ ∃ m ∈ s.mailbox, m.2.owes i r

/-! ## What never changes -/

/-- A request keeps its key and its body. -/
def RequestState.Kept (x x' : RequestState) : Prop :=
  x'.idempotencyKey = x.idempotencyKey ∧ x'.body = x.body

instance : Std.Refl RequestState.Kept := ⟨fun _ => ⟨rfl, rfl⟩⟩

def StatesKept : List RequestState → List RequestState → Prop := Stays RequestState.Kept

/-- An execution keeps the request it is for. -/
def Execution.Kept (x x' : Execution) : Prop :=
  x'.request = x.request ∧ x'.idempotencyKey = x.idempotencyKey ∧ x'.body = x.body

instance : Std.Refl Execution.Kept := ⟨fun _ => ⟨rfl, rfl, rfl⟩⟩

def ExecutionsKept : List Execution → List Execution → Prop := Stays Execution.Kept

/-! ## Obligations -/

/-- The step from `s` to `s'` that does `w` (or is no work of a thread) and makes `calls` leaves
    no other obligations than those of `w` and those in `new`. -/
structure Passes (w : Option Work) (new : Nat → Response → Prop) (s s' : RpcServer)
    (calls : List Work) : Prop where
  states : StatesKept s.states s'.states
  mailbox : ∀ m ∈ s'.mailbox, m ∈ s.mailbox ∨ ∀ i r, m.2.owes i r → ∃ w' ∈ w, w'.owes i r
  calls : ∀ c ∈ calls, ∀ i r, c.owes i r → (∃ w' ∈ w, w'.owes i r) ∨ r.origin = none ∨ new i r
  delivered : ∀ p ∈ s'.delivered, p ∈ s.delivered ∨ p.2.origin = none ∨
      ∃ w' ∈ w, ∃ r, w'.owes p.1 r ∧ p.2.origin = r.origin

variable {w : Option Work}

theorem Passes.local {new : Nat → Response → Prop} {s s' : RpcServer}
    {calls : List Work} (states : StatesKept s.states s'.states) (mailbox : s'.mailbox = s.mailbox)
    (delivered : s'.delivered = s.delivered)
    (hcalls : ∀ c ∈ calls, ∀ i r, c.owes i r →
      (∃ w' ∈ w, w'.owes i r) ∨ r.origin = none ∨ new i r) : Passes w new s s' calls where
  states := states
  mailbox _ hm := .inl (mailbox ▸ hm)
  calls := hcalls
  delivered _ hp := .inl (delivered ▸ hp)

theorem noneOwed {calls : List Work} {new : Nat → Response → Prop}
    (h : ∀ c ∈ calls, ∀ i r, ¬ c.owes i r) :
    ∀ c ∈ calls, ∀ i r, c.owes i r → (∃ w' ∈ w, w'.owes i r) ∨ r.origin = none ∨ new i r :=
  fun c hc i r ho => absurd ho (h c hc i r)

/-! ## Effects -/

/-- What a step that does `w` can do to the executions and to the table, and which obligations it
    creates beyond those of `w`. -/
inductive Effect (options : RpcServerOptions) (s : RpcServer) :
    Option Work → List Execution → IdempotencyTable → (Nat → Response → Prop) → Prop
  | quiet {work} : Effect options s work s.executions s.table fun _ _ => False
  /-- Execution `e` goes on, and does not end. -/
  | phase {work e x} {p : Phase} (found : s.executions[e]? = some x) (was : x.phase ≠ .done)
      (goes : p ≠ .done) (origin : ∀ r c, p = .finishing r c → ∀ e', r.origin = some e' → e' = e) :
      Effect options s work (s.executions.modify e fun x => { x with phase := p }) s.table
        fun _ _ => False
  /-- A request without a key starts its execution. -/
  | start {work i state mode} (found : s.states[i]? = some state)
      (unkeyed : state.idempotencyKey = []) :
      Effect options s work
        (s.executions ++ [⟨i, state.idempotencyKey, state.body, .admitted mode⟩]) s.table
        fun _ _ => False
  /-- The locked section of `OnFrame`. -/
  | resolve {i state admission table} (mode : RpcExecutionMode)
      (found : s.states[i]? = some state) (keyed : state.idempotencyKey ≠ [])
      (resolved : s.table.resolve options.maxIdempotencyEntries state.idempotencyKey
        state.idempotencyFingerprint state.body i = (table, admission)) :
      Effect options s (some (.lookUp i mode))
        (if admission = .execute then
          s.executions ++ [⟨i, state.idempotencyKey, state.body, .admitted mode⟩]
        else s.executions) table
        fun j r => j = i ∧ admission = .useCachedResponse r
  /-- The response of an execution without a key goes to its request. -/
  | deliver {work e x r c} (found : s.executions[e]? = some x) (was : x.phase = .finishing r c) :
      Effect options s work (s.executions.modify e fun x => { x with phase := .done }) s.table
        fun j r' => j = x.request ∧ x.idempotencyKey = [] ∧ r' = r
  /-- The locked section of `FinishIdempotent`. -/
  | complete {work e x r c} (found : s.executions[e]? = some x) (was : x.phase = .finishing r c)
      (keyed : x.idempotencyKey ≠ []) :
      Effect options s work (s.executions.modify e fun x => { x with phase := .done })
        (s.table.finish options.maxIdempotencyEntries x.idempotencyKey r c).1
        fun j r' =>
          j ∈ (s.table.finish options.maxIdempotencyEntries x.idempotencyKey r c).2 ∧ r' = r
  /-- The locked section of `Cancel` and `Abandon`. -/
  | drop {i state} (found : s.states[i]? = some state) :
      Effect options s (some (.dropWaiter i)) s.executions
        (s.table.dropWaiter state.idempotencyKey i) fun _ _ => False

variable {options : RpcServerOptions} {s s' : RpcServer} {calls : List Work} {k : Nat}
  {executions : List Execution} {table : IdempotencyTable} {new : Nat → Response → Prop}

theorem Effect.executionsKept (h : Effect options s w executions table new) :
    ExecutionsKept s.executions executions := by
  cases h with
  | quiet | drop _ => exact .refl _
  | phase _ _ _ _ | deliver _ _ | complete _ _ _ => exact .modify fun _ => ⟨rfl, rfl, rfl⟩
  | start _ _ => exact .append _ _
  | resolve _ _ _ _ =>
    split
    · exact .append _ _
    · exact .refl _

/-- The effect of a thread's work, with what it passes on to its calls. -/
theorem Move.effect {heard : List (Nat × UInt64)} (h : Move options s k heard w s' calls) :
    ∃ new, Effect options s w s'.executions s'.table new ∧ Passes w new s s' calls := by
  cases h with
  | start hi hk => exact ⟨_, .start hi hk, .local (.refl _) rfl rfl (noneOwed (by simp [owes]))⟩
  | @acquire _ _ mode _ hi hk ht =>
    have he := Effect.resolve mode hi hk ht
    rw [if_pos rfl] at he
    exact ⟨_, he, .local (.refl _) rfl rfl (noneOwed (by simp [owes]))⟩
  | @answer _ _ mode _ _ _ hi hk ht hne hcalls =>
    have he := Effect.resolve mode hi hk ht
    rw [if_neg hne] at he
    refine ⟨_, he, .local (.refl _) rfl rfl ?_⟩
    rcases hcalls with ⟨-, rfl⟩ | ⟨r, rfl, hr⟩
    · exact noneOwed (by simp)
    · intro c hc j r' ho
      rw [mem_singleton.mp hc] at ho
      obtain ⟨rfl, rfl⟩ := ho
      exact .inr (hr.symm.imp_right fun h => ⟨rfl, h⟩)
  | respond hx hp ho | resume _ _ _ hx hp ho =>
    refine ⟨_, .phase hx hp (by simp) ?_, .local (.refl _) rfl rfl (noneOwed (by simp [owes]))⟩
    intro _ _ heq
    cases heq
    exact ho
  | submit hx hp | suspend hx hp _ =>
    exact ⟨_, .phase hx hp (by simp) (by simp), .local (.refl _) rfl rfl (noneOwed (by simp))⟩
  | deliver hx hp hk =>
    exact ⟨_, .deliver hx hp, .local (.refl _) rfl rfl (by simp +contextual [owes, hk])⟩
  | complete hx hp hk hf =>
    obtain ⟨rfl, rfl⟩ := Prod.ext_iff.mp hf
    exact ⟨_, .complete hx hp hk, .local (.refl _) rfl rfl (by simp +contextual [owes])⟩
  | finish hx hc _ ho =>
    refine ⟨_, .quiet,
      { states := .modify fun _ => ⟨rfl, rfl⟩
        mailbox := fun m hm => .inl hm
        calls := noneOwed (by simp [owes])
        delivered := ?_ }⟩
    intro p hp
    rcases mem_append.mp hp with hp | hp
    · exact .inl hp
    · rw [mem_singleton.mp hp]
      exact .inr (ho.imp_right fun ho => ⟨_, rfl, _, ⟨rfl, rfl⟩, ho⟩)
  | finishOwn =>
    refine ⟨_, .quiet, .local (.refl _) rfl rfl ?_⟩
    intro c hc j r ho
    simp only [mem_cons, not_mem_nil, or_false] at hc
    rcases hc with rfl | rfl
    · exact .inl ⟨_, rfl, by simp [ho.1], ho.2⟩
    · exact .inl ⟨_, rfl, mem_cons_of_mem _ ho.1, ho.2⟩
  | finishOnOwner =>
    refine ⟨_, .quiet,
      { states := .refl _
        mailbox := ?_
        calls := ?_
        delivered := fun p hp => .inl hp }⟩
    · intro m hm
      rcases mem_append.mp hm with hm | hm
      · exact .inl hm
      · rw [mem_singleton.mp hm]
        exact .inr fun j r ho => ⟨_, rfl, by simp [ho.1], ho.2⟩
    · intro c hc j r ho
      rw [mem_singleton.mp hc] at ho
      exact .inl ⟨_, rfl, mem_cons_of_mem _ ho.1, ho.2⟩
  | queue _ _ hcalls | maybeClose hcalls =>
    refine ⟨_, .quiet, .local (.refl _) rfl rfl (noneOwed ?_)⟩
    rcases hcalls with rfl | rfl <;> simp [owes]
  | refuse _ hcalls =>
    refine ⟨_, .quiet, .local (.refl _) rfl rfl (noneOwed ?_)⟩
    rcases hcalls with rfl | ⟨rfl, -⟩ <;> simp [owes]
  | abandon _ _ hcalls =>
    refine ⟨_, .quiet, .local (.modify fun _ => ⟨rfl, rfl⟩) rfl rfl (noneOwed ?_)⟩
    rcases hcalls with rfl | rfl <;> simp [owes]
  | dropWaiter hi => exact ⟨_, .drop hi, .local (.refl _) rfl rfl (noneOwed (by simp))⟩
  | pass hcalls =>
    refine ⟨_, .quiet, .local (.refl _) rfl rfl (noneOwed ?_)⟩
    rcases hcalls with rfl | ⟨c, rfl⟩ <;> simp [owes]
  | cancel hcalls =>
    -- The only response a CANCEL sends is the CANCELLED status.
    refine ⟨_, .quiet, .local (.modify fun _ => ⟨rfl, rfl⟩) rfl rfl ?_⟩
    rcases hcalls with rfl | rfl <;> simp +contextual [owes]
  | accept _ _ _ _ =>
    exact ⟨_, .quiet, .local (.append _ _) rfl rfl (noneOwed (by simp [owes]))⟩
  | _ => exact ⟨_, .quiet, .local (.refl _) rfl rfl (noneOwed (by simp [owes]))⟩

/-! ## Whole steps -/

/-- `Passes` with the threads and the mailbox taken together. -/
structure Accounts (new : Nat → Response → Prop) (s s' : RpcServer) : Prop where
  states : StatesKept s.states s'.states
  owes : ∀ i r, s'.Owes i r → s.Owes i r ∨ r.origin = none ∨ new i r
  delivered : ∀ p ∈ s'.delivered,
    p ∈ s.delivered ∨ p.2.origin = none ∨ ∃ r, s.Owes p.1 r ∧ p.2.origin = r.origin

variable {s₁ : RpcServer}

theorem Passes.accounts {rest : List Work} (h : Passes w new s s₁ calls)
    (hk : s.threads[k]? = some (w.toList ++ rest)) :
    Accounts new s { s₁ with threads := s.threads.set k (calls ++ rest) } := by
  have hmem : w.toList ++ rest ∈ s.threads := mem_of_getElem? hk
  have hw : ∀ {i r}, (∃ w' ∈ w, w'.owes i r) → s.Owes i r := by
    rintro i r ⟨w', hw', ho⟩
    exact .inl ⟨_, hmem, w', mem_append_left _ (Option.mem_toList.mpr hw'), ho⟩
  refine ⟨h.states, ?_, ?_⟩
  · rintro i r (⟨stack, hst, c, hc, ho⟩ | ⟨m, hm, ho⟩)
    · rcases mem_or_eq_of_mem_set hst with hst | rfl
      · exact .inl (.inl ⟨stack, hst, c, hc, ho⟩)
      · rcases mem_append.mp hc with hc | hc
        · exact (h.calls c hc i r ho).imp_left hw
        · exact .inl (.inl ⟨_, hmem, c, mem_append_right _ hc, ho⟩)
    · rcases h.mailbox m hm with hm | hm
      · exact .inl (.inr ⟨m, hm, ho⟩)
      · exact .inl (hw (hm i r ho))
  · intro p hp
    rcases h.delivered p hp with hp | hp | ⟨w', hw', r, ho, hr⟩
    · exact .inl hp
    · exact .inr (.inl hp)
    · exact .inr (.inr ⟨r, hw ⟨w', hw', ho⟩, hr⟩)

namespace RpcServer

theorem step_effect (options : RpcServerOptions) {l : Label} (h : s.step options l = some s') :
    ∃ new, Effect options s (s.workOf l) s'.executions s'.table new ∧ Accounts new s s' := by
  cases step_turn h with
  | attach _ _ _ | still _ _ _ =>
    exact ⟨_, .quiet, .refl _, fun _ _ => .inl, fun _ => .inl⟩
  | worker _ hx hp hg ho hposts =>
    refine ⟨_, .phase hx hp hg ho, .refl _, ?_, fun _ => .inl⟩
    rintro i r (ht | ⟨m, hm, hr⟩)
    · exact .inl (.inl ht)
    · rcases mem_append.mp hm with hm | hm
      · exact .inl (.inr ⟨m, hm, hr⟩)
      · obtain ⟨e, he⟩ := hposts m hm
        rw [he] at hr
        exact hr.elim
  | @take _ _ _ m hm _ =>
    refine ⟨_, .quiet, .refl _, ?_, fun _ => .inl⟩
    rintro i r (⟨stack, hst, c, hc, ho⟩ | ⟨m', hm', ho⟩)
    · rcases mem_or_eq_of_mem_set hst with hst | rfl
      · exact .inl (.inl ⟨stack, hst, c, hc, ho⟩)
      · -- The closure's obligation moves from the mailbox to the thread.
        refine .inl (.inr ⟨_, mem_of_getElem? hm, ?_⟩)
        cases m <;> simp only [messageWork, mem_singleton] at hc <;> subst hc <;> exact ho
    · exact .inl (.inr ⟨m', mem_of_mem_eraseIdx hm', ho⟩)
  | thread hw hk _ hmove =>
    rw [hw]
    obtain ⟨new, he, hp⟩ := hmove.effect
    exact ⟨new, he, hp.accounts hk⟩

end RpcServer

end CoroRpc.Server
