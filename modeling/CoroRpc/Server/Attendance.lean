import CoroRpc.Server.Accounting
import CoroRpc.Server.SingleExecution

/-!
# Who completes a keyed request

A request with an idempotency key is completed by the execution whose record it waits in, which need
not be its own. Until then it is in exactly one of a few hands: the `OnFrame` that brings it to the
table, the waiter list of the pending record of its key, the loop of `FinishIdempotent` that took
that list, the closure that `FinishOnOwner` posted, or a `Finish`. `Heeds` says that no step drops it,
with one exception: the locked section of `Cancel` and `Abandon` takes a request out of the waiter
list. Both complete the request themselves, `Abandon` before and `Cancel` right after (`Covered`).

The file ends with the accounting of requests as a whole, over a server together with the log of
the REQUEST frames it received.
-/

namespace CoroRpc.Server

open Lib Protocol List Option RpcServer

/-! ## The table -/

/-- Request `i` is in the waiter list of the pending record of `key`. -/
def IdempotencyTable.Waits (table : IdempotencyTable) (key : Bytes) (i : Nat) : Prop :=
  ∃ record, table.find key = some record ∧ record.pending = true ∧ i ∈ record.waiters

namespace IdempotencyTable

variable {table table' : IdempotencyTable} {key key' body : Bytes} {i j maxEntries : Nat}

theorem Waits.prune (h : table.Waits key j) :
    (table.pruneIdempotencyCache maxEntries).Waits key j := by
  obtain ⟨record, hr, hp, hj⟩ := h
  exact ⟨record, find_prune_of_pending hr hp, hp, hj⟩

theorem waits_put {record : IdempotencyRecord} (hp : record.pending = true)
    (hj : j ∈ record.waiters) : (table.put key record).Waits key j :=
  ⟨record, by rw [find_put, if_pos rfl], hp, hj⟩

theorem Waits.put {record : IdempotencyRecord} (h : table.Waits key' j) (hk : key' ≠ key) :
    (table.put key record).Waits key' j := by
  obtain ⟨record', hr, hp, hj⟩ := h
  exact ⟨record', by rw [find_put, if_neg hk, hr], hp, hj⟩

theorem Waits.resolve {fingerprint : UInt64} {admission : Admission} (h : table.Waits key' j)
    (ht : table.resolve maxEntries key fingerprint body i = (table', admission)) :
    table'.Waits key' j := by
  obtain ⟨record, -, rfl, -⟩ | ⟨record, hr, -, hp, rfl, -⟩ | ⟨record, -, -, -, rfl, -⟩ |
    ⟨hn, rfl, -⟩ | ⟨hn, rfl, -⟩ := resolve_cases ht
  · exact h
  · by_cases hk : key' = key
    · subst hk
      obtain ⟨record', hr', -, hj⟩ := h
      cases hr.symm.trans hr'
      exact waits_put hp (mem_append_left _ hj)
    · exact h.put hk
  · exact h
  · exact h.prune
  · refine h.prune.put ?_
    rintro rfl
    obtain ⟨record', hr', -⟩ := h
    rw [hn] at hr'
    cases hr'

theorem waits_of_resolve {fingerprint : UInt64} {admission : Admission}
    (ht : table.resolve maxEntries key fingerprint body i = (table', admission))
    (ha : admission = .execute ∨ admission = .merged) : table'.Waits key i := by
  obtain ⟨record, -, -, rfl⟩ | ⟨record, -, -, hp, rfl, -⟩ | ⟨record, -, -, -, -, rfl⟩ |
    ⟨-, -, rfl⟩ | ⟨-, rfl, -⟩ := resolve_cases ht
  · simp at ha
  · exact waits_put hp (mem_append_right _ (mem_singleton_self _))
  · simp at ha
  · simp at ha
  · exact waits_put rfl (mem_singleton_self _)

theorem Waits.finish (h : table.Waits key' j) (maxEntries : Nat) (key : Bytes) (response : Response)
    (cacheResponse : Bool) :
    (table.finish maxEntries key response cacheResponse).1.Waits key' j ∨
      j ∈ (table.finish maxEntries key response cacheResponse).2 := by
  obtain ⟨record, hr, hp, hj⟩ := h
  by_cases hk : key' = key
  · subst hk
    right
    unfold IdempotencyTable.finish
    rw [hr]
    dsimp only
    split <;> exact hj
  · exact .inl ⟨record, find_finish_of_pending hk hr hp, hp, hj⟩

theorem Waits.dropWaiter (h : table.Waits key' j) (hij : j ≠ i) :
    (table.dropWaiter key i).Waits key' j := by
  obtain ⟨record, hr, hp, hj⟩ := h
  have hmem : j ∈ record.waiters.filter fun j => decide (j ≠ i) :=
    mem_filter.mpr ⟨hj, by simpa using hij⟩
  by_cases hk : key' = key
  · subst hk
    unfold IdempotencyTable.dropWaiter
    rw [hr]
    dsimp only
    rw [if_pos hp, if_neg (ne_nil_of_mem hmem)]
    exact waits_put hp hmem
  · rcases find_dropWaiter table key i key' with heq | ⟨heq, -⟩
    · exact ⟨record, heq.trans hr, hp, hj⟩
    · exact absurd heq hk

end IdempotencyTable

/-! ## Attention -/

/-- Doing the work completes request `j`, or brings it to the table. -/
def Work.attends : Work → Nat → Prop
  | .lookUp i _, j => j = i
  | .finish i _, j => j = i
  | .finishWaiters waiters _, j => j ∈ waiters
  | _, _ => False

def Message.attends : Message → Nat → Prop
  | .finish i _, j => j = i
  | .completion _, _ => False

def Completed (states : List RequestState) (i : Nat) : Prop :=
  ∃ x, states[i]? = some x ∧ x.completed = true

theorem Completed.goesOn {l l' : List RequestState} {i : Nat} (h : Completed l i)
    (hl : StatesGoOn l l') : Completed l' i := by
  obtain ⟨x, hx, hc⟩ := h
  obtain ⟨x', hx', -, -, hc'⟩ := hl i x hx
  exact ⟨x', hx', hc' hc⟩

/-- A step that does `w` and makes `calls` keeps every request it has to do with in some hand,
    a `dropWaiter` apart. -/
structure Heeds (s : RpcServer) (w : Option Work) (s' : RpcServer) (calls : List Work) : Prop where
  table : ∀ key j, s.table.Waits key j → s'.table.Waits key j ∨ (∃ x ∈ calls, x.attends j) ∨
    w = some (.dropWaiter j)
  mailbox : ∀ m ∈ s.mailbox, ∀ j, m.2.attends j →
    (∃ m' ∈ s'.mailbox, m'.2.attends j) ∨ ∃ x ∈ calls, x.attends j
  work : ∀ x ∈ w, ∀ j state, x.attends j → s.states[j]? = some state →
    state.idempotencyKey ≠ [] → s'.table.Waits state.idempotencyKey j ∨
      (∃ m' ∈ s'.mailbox, m'.2.attends j) ∨ (∃ x ∈ calls, x.attends j) ∨ Completed s'.states j

/-- A step that touches neither the table nor what is posted, and does nothing for a request. -/
theorem heeds_quiet {s s' : RpcServer} {w : Option Work} {calls : List Work}
    (ht : s'.table = s.table) (hm : ∀ m ∈ s.mailbox, m ∈ s'.mailbox)
    (hw : ∀ x ∈ w, ∀ j, ¬ x.attends j) : Heeds s w s' calls where
  table _ _ h := .inl (ht ▸ h)
  mailbox m hmem _ h := .inl ⟨m, hm m hmem, h⟩
  work x hx j _ h := absurd h (hw x hx j)

/-- A step that only has to answer for its own work. -/
theorem heeds_work {s s' : RpcServer} {w : Work} {calls : List Work} (ht : s'.table = s.table)
    (hm : ∀ m ∈ s.mailbox, m ∈ s'.mailbox)
    (hw : ∀ j state, w.attends j → s.states[j]? = some state → state.idempotencyKey ≠ [] →
      (∃ m' ∈ s'.mailbox, m'.2.attends j) ∨ (∃ x ∈ calls, x.attends j) ∨ Completed s'.states j) :
    Heeds s (some w) s' calls where
  table _ _ h := .inl (ht ▸ h)
  mailbox m hmem _ h := .inl ⟨m, hm m hmem, h⟩
  work x hx j state hj hstate hk := by
    obtain rfl := mem_some_iff.mp hx
    exact .inr (hw j state hj hstate hk)

/-- What the table makes of a request. -/
theorem heeds_resolve {options : RpcServerOptions} {s s' : RpcServer} {calls : List Work} {i : Nat}
    {state : RequestState} {mode : RpcExecutionMode} {admission : IdempotencyTable.Admission}
    (hi : s.states[i]? = some state)
    (ht : s.table.resolve options.maxIdempotencyEntries state.idempotencyKey
      state.idempotencyFingerprint state.body i = (s'.table, admission))
    (hm : s'.mailbox = s.mailbox)
    (hout : (admission = .execute ∨ admission = .merged) ∨ ∃ r, calls = [.finish i r]) :
    Heeds s (some (.lookUp i mode)) s' calls := by
  refine ⟨fun key j h => .inl (h.resolve ht), fun m hmem j h => .inl ⟨m, hm ▸ hmem, h⟩, ?_⟩
  intro x hx j state' hj hstate hkey
  obtain rfl := mem_some_iff.mp hx
  obtain rfl : j = i := hj
  cases hi.symm.trans hstate
  rcases hout with ha | ⟨r, rfl⟩
  · exact .inl (IdempotencyTable.waits_of_resolve ht ha)
  · exact .inr (.inr (.inl ⟨_, mem_singleton_self _, rfl⟩))

theorem Move.heeds {options : RpcServerOptions} {s s' : RpcServer} {k : Nat}
    {heard : List (Nat × UInt64)} {w : Option Work} {calls : List Work}
    (h : Move options s k heard w s' calls) : Heeds s w s' calls := by
  cases h with
  | start hi hk =>
    refine heeds_work rfl (fun _ => id) fun j state' hj hstate hkey => ?_
    obtain rfl : j = _ := hj
    cases hi.symm.trans hstate
    exact absurd hk hkey
  | acquire hi _ ht => exact heeds_resolve hi ht rfl (.inl (.inl rfl))
  | answer hi _ ht _ hcalls =>
    rcases hcalls with ⟨rfl, -⟩ | ⟨r, rfl, -⟩
    · exact heeds_resolve hi ht rfl (.inl (.inr rfl))
    · exact heeds_resolve hi ht rfl (.inr ⟨r, rfl⟩)
  | @complete e x r cacheResponse _ _ _ _ _ hf =>
    refine ⟨?_, fun m hm j h => .inl ⟨m, hm, h⟩, by simp [Work.attends]⟩
    intro key j h
    have hfinish := h.finish options.maxIdempotencyEntries x.idempotencyKey r cacheResponse
    rw [hf] at hfinish
    exact hfinish.imp_right fun hj => .inl ⟨_, mem_singleton_self _, hj⟩
  | finished hx hc =>
    refine heeds_work rfl (fun _ => id) fun j _ hj _ _ => ?_
    obtain rfl : j = _ := hj
    exact .inr (.inr ⟨_, hx, hc⟩)
  | finish hx _ _ _ =>
    refine heeds_work rfl (fun _ => id) fun j _ hj _ _ => ?_
    obtain rfl : j = _ := hj
    exact .inr (.inr ⟨_, getElem?_modify_self hx, rfl⟩)
  | finishOwn =>
    refine heeds_work rfl (fun _ => id) fun j _ hj _ _ => .inr (.inl ?_)
    rcases mem_cons.mp hj with rfl | hj
    · exact ⟨_, mem_cons_self, rfl⟩
    · exact ⟨_, mem_cons_of_mem _ (mem_singleton_self _), hj⟩
  | finishOnOwner =>
    refine heeds_work rfl (fun _ => mem_append_left _) fun j _ hj _ _ => ?_
    rcases mem_cons.mp hj with rfl | hj
    · exact .inl ⟨_, mem_append_right _ (mem_singleton_self _), rfl⟩
    · exact .inr (.inl ⟨_, mem_singleton_self _, hj⟩)
  | @dropWaiter i _ _ =>
    refine ⟨?_, fun m hm j h => .inl ⟨m, hm, h⟩, by simp [Work.attends]⟩
    intro key j h
    by_cases hij : j = i
    · exact .inr (.inr (by rw [hij]))
    · exact .inl (h.dropWaiter hij)
  | _ => exact heeds_quiet rfl (fun _ => id) (by simp [Work.attends])

/-- A whole step, for the requests that are in some hand. -/
inductive StepHeeds (s s' : RpcServer) : Prop
  | aside (heeds : Heeds s none s' []) (threads : s'.threads = s.threads)
  | thread (k : Nat) (w : Option Work) (rest calls : List Work)
      (top : s.threads[k]? = some (w.toList ++ rest)) (heeds : Heeds s w s' calls)
      (threads : s'.threads = s.threads.set k (calls ++ rest))

theorem RpcServer.step_heeds {options : RpcServerOptions} {s s' : RpcServer} {l : Label}
    (h : s.step options l = some s') : StepHeeds s s' := by
  cases step_turn h with
  | attach _ _ _ | still _ _ _ => exact .aside (heeds_quiet rfl (fun _ => id) (by simp)) rfl
  | worker _ _ _ _ _ _ =>
    exact .aside (heeds_quiet rfl (fun _ => mem_append_left _) (by simp)) rfl
  | @take _ n k m hm hk =>
    refine .thread k none [] (messageWork m) hk ⟨fun key j h => .inl h, ?_, by simp⟩ (by simp)
    intro m' hm' j hj
    -- the closure taken is the one that attends to `j`, or it is still there
    obtain ⟨n', hn'⟩ := getElem?_of_mem hm'
    by_cases hnn : n' = n
    · subst hnn
      cases hm.symm.trans hn'
      cases m with
      | completion e => exact hj.elim
      | finish i r => exact .inr ⟨_, mem_singleton_self _, hj⟩
    · exact .inl ⟨m', mem_eraseIdx_iff_getElem?.mpr ⟨n', hnn, hn'⟩, hj⟩
  | thread _ hk _ hmove =>
    have hh := hmove.heeds
    exact .thread _ _ _ _ hk { hh with } rfl

/-! ## Dropped waiters -/

/-- A request that the thread is about to take out of its waiter list has been completed, or the
    thread will finish it next. -/
def Covered (states : List RequestState) : List Work → Prop
  | [] => True
  | x :: rest => (∀ i, x = .dropWaiter i → Completed states i ∨ ∃ r, .finish i r ∈ rest) ∧
    Covered states rest

variable {states : List RequestState}

theorem covered_of_ne :
    ∀ {stack}, (∀ x ∈ stack, ∀ i, x ≠ .dropWaiter i) → Covered states stack
  | [], _ => trivial
  | x :: _, h => ⟨fun i hx => absurd hx (h x mem_cons_self i),
      covered_of_ne fun y hy => h y (mem_cons_of_mem _ hy)⟩

theorem Covered.append : ∀ {stack rest}, Covered states stack → Covered states rest →
      Covered states (stack ++ rest)
  | [], _, _, h => h
  | _ :: _, _, h, h' =>
    ⟨fun i hx => (h.1 i hx).imp_right fun ⟨r, hr⟩ => ⟨r, mem_append_left _ hr⟩, h.2.append h'⟩

theorem Covered.tail :
    ∀ {stack rest}, Covered states (stack ++ rest) → Covered states rest
  | [], _, h => h
  | _ :: _, _, h => Covered.tail h.2

theorem Covered.goesOn {l l' : List RequestState} (hl : StatesGoOn l l') :
    ∀ {stack}, Covered l stack → Covered l' stack
  | [], _ => trivial
  | _ :: _, h => ⟨fun i hx => (h.1 i hx).imp_left fun hc => hc.goesOn hl, h.2.goesOn hl⟩

variable {s s' : RpcServer} {k : Nat} {b : Book} {executions : List Execution}
  {heard : List (Nat × UInt64)} {w : Option Work} {calls : List Work} {l : Label}
  {options : RpcServerOptions}

/-- `Cancel` finishes the request it drops; `Abandon` has completed it. -/
theorem Entry.covered (h : Entry s k executions b heard w calls) : Covered b.states calls := by
  cases h with
  | quiet _ _ _ hd => exact covered_of_ne hd
  | @cancel i r calls _ hcalls =>
    rcases hcalls with rfl | rfl
    · exact covered_of_ne (by simp)
    · refine ⟨fun j hj => .inr ⟨r, ?_⟩, covered_of_ne (by simp)⟩
      obtain rfl := Work.dropWaiter.inj hj
      exact mem_singleton_self _
  | @abandon i x calls hx _ _ hcalls =>
    rcases hcalls with rfl | rfl
    · trivial
    · refine ⟨fun j hj => .inl ?_, trivial⟩
      obtain rfl := Work.dropWaiter.inj hj
      exact ⟨_, getElem?_modify_self hx, rfl⟩
  | queue _ _ hcalls => rcases hcalls with rfl | rfl <;> exact covered_of_ne (by simp)
  | refuse hcalls => rcases hcalls with rfl | ⟨rfl, -⟩ <;> exact covered_of_ne (by simp)
  | _ => exact covered_of_ne (by simp)

/-- Where a request is from: it was there, or `OnFrame` has just accepted it. -/
theorem Entry.states_back (h : Entry s k executions b heard w calls) {i : Nat} {x' : RequestState}
    (hx' : b.states[i]? = some x') :
    (∃ x, s.states[i]? = some x ∧ x'.idempotencyKey = x.idempotencyKey ∧
      (x.completed = true → x'.completed = true)) ∨ ∃ mode, .lookUp i mode ∈ calls := by
  have hmodify : ∀ {j} {f},
      (s.states.modify j f)[i]? = some x' → (∀ x, (f x).idempotencyKey = x.idempotencyKey ∧
        (x.completed = true → (f x).completed = true)) →
      ∃ x, s.states[i]? = some x ∧ x'.idempotencyKey = x.idempotencyKey ∧
        (x.completed = true → x'.completed = true) := by
    intro j f h hf
    obtain ⟨x, hx, rfl⟩ := getElem?_modify_iff.mp h
    refine ⟨x, hx, ?_⟩
    split
    · exact hf x
    · exact ⟨rfl, id⟩
  cases h with
  | @accept x state mode _ _ _ _ =>
    rcases getElem?_snoc hx' with hx' | ⟨rfl, rfl⟩
    · exact .inl ⟨x', hx', rfl, id⟩
    · exact .inr ⟨mode, mem_singleton_self _⟩
  | cancel _ _ => exact .inl (hmodify hx' fun _ => ⟨rfl, id⟩)
  | finish _ _ _ | abandon _ _ _ _ =>
    exact .inl (hmodify hx' fun _ => ⟨rfl, fun _ => rfl⟩)
  | _ => exact .inl ⟨x', hx', rfl, id⟩

/-! ## The invariant -/

/-- Request `i`, which has the key `key`, is in some hand. -/
def RpcServer.Attended (s : RpcServer) (key : Bytes) (i : Nat) : Prop :=
  s.table.Waits key i ∨ (∃ m ∈ s.mailbox, m.2.attends i) ∨ ∃ x ∈ s.works, x.attends i

structure Attending (s : RpcServer) : Prop where
  covered : ∀ stack ∈ s.threads, Covered s.states stack
  attended : ∀ (i : Nat) (x : RequestState), s.states[i]? = some x → x.completed = false →
    x.idempotencyKey ≠ [] → s.Attended x.idempotencyKey i

theorem attending_init (n : Nat) : Attending (.init n) where
  covered stack h := by
    obtain rfl := eq_of_mem_replicate h
    trivial
  attended i x h := absurd h (by simp [init])

theorem StepHeeds.attended (h : StepHeeds s s') (hs : Attending s)
    (hg : StatesGoOn s.states s'.states) {i : Nat} {x : RequestState} (hx : s.states[i]? = some x)
    (hc : x.completed = false) (hk : x.idempotencyKey ≠ []) :
    s'.Attended x.idempotencyKey i ∨ Completed s'.states i := by
  cases h with
  | aside hh hstacks =>
    have hworks : s'.works = s.works := congrArg List.flatten hstacks
    rcases hs.attended i x hx hc hk with hw | ⟨m, hm, hj⟩ | ⟨y, hy, hj⟩
    · rcases hh.table _ i hw with hw | ⟨y, hy, -⟩ | hd
      · exact .inl (.inl hw)
      · cases hy
      · cases hd
    · rcases hh.mailbox m hm i hj with hm | ⟨y, hy, -⟩
      · exact .inl (.inr (.inl hm))
      · cases hy
    · exact .inl (.inr (.inr ⟨y, hworks ▸ hy, hj⟩))
  | thread k w rest calls hk' hh hstacks =>
    have hworks : s'.works = (s.threads.set k (calls ++ rest)).flatten := congrArg List.flatten hstacks
    have hcall : (∃ y ∈ calls, y.attends i) → ∃ y ∈ s'.works, y.attends i := by
      rintro ⟨y, hy, hj⟩
      exact ⟨y, hworks ▸ mem_flatten_set_self hk' (mem_append_left _ hy), hj⟩
    have hbelow : ∀ {y}, y ∈ rest → y ∈ s'.works := fun hy =>
      hworks ▸ mem_flatten_set_self hk' (mem_append_right _ hy)
    rcases hs.attended i x hx hc hk with hw | ⟨m, hm, hj⟩ | ⟨y, hy, hj⟩
    · rcases hh.table _ i hw with hw | hcalls | rfl
      · exact .inl (.inl hw)
      · exact .inl (.inr (.inr (hcall hcalls)))
      · -- dropped from its waiter list
        have hcov := hs.covered _ (mem_of_getElem? hk')
        rcases hcov.1 i rfl with hdone | ⟨r, hr⟩
        · exact .inr (hdone.goesOn hg)
        · exact .inl (.inr (.inr ⟨_, hbelow hr, rfl⟩))
    · rcases hh.mailbox m hm i hj with hm | hcalls
      · exact .inl (.inr (.inl hm))
      · exact .inl (.inr (.inr (hcall hcalls)))
    · rcases mem_flatten_of_set hk' hy with hy | hy
      · rcases mem_append.mp hy with hy | hy
        · rcases hh.work y (mem_toList.mp hy) i x hj hx hk with hw | hm | hcalls | hdone
          · exact .inl (.inl hw)
          · exact .inl (.inr (.inl hm))
          · exact .inl (.inr (.inr (hcall hcalls)))
          · exact .inr hdone
        · exact .inl (.inr (.inr ⟨y, hbelow hy, hj⟩))
      · exact .inl (.inr (.inr ⟨y, hworks ▸ hy, hj⟩))

theorem StepEntry.statesGoOn (h : StepEntry s l s') : StatesGoOn s.states s'.states := by
  cases h with
  | attach owner callerScope _ heq => exact heq ▸ .refl _
  | aside _ hb _ =>
    have hstates : s'.states = s.states := congrArg Book.states hb
    exact hstates ▸ .refl _
  | thread k w rest calls _ _ _ hentry _ => exact hentry.goesOn.states

theorem Attending.step (h : Attending s) (hs : s.step options l = some s') : Attending s' := by
  have hentry := step_entry hs
  have hgoes := hentry.statesGoOn
  have hkept : ∀ {i} {x x'}, s.states[i]? = some x →
      s'.states[i]? = some x' → x'.idempotencyKey = x.idempotencyKey →
      (x.completed = true → x'.completed = true) → x'.completed = false →
      x'.idempotencyKey ≠ [] → s'.Attended x'.idempotencyKey i := by
    intro i x x' hx hx' hkey hmono hc hk
    have hcx : x.completed = false := by
      by_contra hne
      cases (hmono (by simpa using hne)).symm.trans hc
    rcases (step_heeds hs).attended h hgoes hx hcx (hkey ▸ hk) with ha | ⟨y, hy, hdone⟩
    · exact hkey ▸ ha
    · cases hx'.symm.trans hy
      cases hdone.symm.trans hc
  cases hentry with
  | attach owner callerScope _ heq =>
    subst heq
    exact ⟨h.covered, fun i x hx => hkept hx hx rfl id⟩
  | aside _ hb hstacks =>
    have hstates : s'.states = s.states := congrArg Book.states hb
    refine ⟨?_, fun i x hx => hkept (hstates ▸ hx) hx rfl id⟩
    rw [hstacks, hstates]
    exact h.covered
  | thread k w rest calls _ hk _ he hstacks =>
    constructor
    · intro stack hstack
      rw [hstacks] at hstack
      rcases mem_or_eq_of_mem_set hstack with hstack | rfl
      · exact (h.covered stack hstack).goesOn hgoes
      · have hbefore := h.covered _ (mem_of_getElem? hk)
        exact he.covered.append (hbefore.tail.goesOn hgoes)
    · intro i x' hx' hc hkey
      rcases he.states_back hx' with ⟨x, hx, hsame, hmono⟩ | ⟨mode, hmem⟩
      · exact hkept hx hx' hsame hmono hc hkey
      · refine .inr (.inr ⟨.lookUp i mode, ?_, rfl⟩)
        rw [works, hstacks]
        exact mem_flatten_set_self hk (mem_append_left _ hmem)

/-! ## Completions and the counter -/

def Completes (l l' : List RequestState) (i : Nat) : Prop :=
  ∃ x x', l[i]? = some x ∧ x.completed = false ∧ l'[i]? = some x' ∧ x'.completed = true

/-- An entry completes one request and counts it off, or ends a view and counts it off, or
    completes nothing and counts nothing off. -/
theorem Entry.moves (h : Entry s k executions b heard w calls) {n : Nat}
    (hc : s.inflightCount = s.book.uncompleted + s.book.suspendedViews + n)
    (hn : w.toList.countP Work.isView ≤ n) :
    (∃ i x cancels, s.states[i]? = some x ∧ x.completed = false ∧
      ((∃ r, w = some (.finish i r)) ∨ w = some (.abandon i)) ∧ b = s.book.complete i cancels ∧
      b.inflightCount + 1 = s.inflightCount) ∨
    (b.states = s.states ∧ b.inflightCount + 1 = s.inflightCount) ∨
    ((∀ i, ¬ Completes s.states b.states i) ∧
      (b.inflightCount = s.inflightCount ∨ b.inflightCount = s.inflightCount + 1)) := by
  have hsub : 1 ≤ s.inflightCount → subSize s.inflightCount 1 + 1 = s.inflightCount := by
    intro h1
    rw [subSize_eq h1, Nat.sub_add_cancel h1]
  have hcounted : ∀ {i : Nat} {x : RequestState}, s.states[i]? = some x → x.completed = false →
      1 ≤ s.inflightCount := by
    intro i x hx hcomp
    have hpos : 0 < s.book.uncompleted := countP_pos_of_getElem? hx (by simp [hcomp])
    omega
  have hnone : ∀ i, ¬ Completes s.states s.states i := by
    rintro i ⟨x, x', hx, hf, hx', ht⟩
    cases hx.symm.trans hx'
    cases hf.symm.trans ht
  cases h with
  | finish hx hwas _ =>
    exact .inl ⟨_, _, _, hx, hwas, .inl ⟨_, rfl⟩, rfl, hsub (hcounted hx hwas)⟩
  | abandon hx hwas _ _ =>
    exact .inl ⟨_, _, _, hx, hwas, .inr rfl, rfl, hsub (hcounted hx hwas)⟩
  | endView _ =>
    have hv : 1 ≤ n := hn
    exact .inr (.inl ⟨rfl, hsub (by omega)⟩)
  | resumeView hx _ hr _ =>
    have hv : 0 < s.book.suspendedViews :=
      countP_pos_of_getElem? hx (by simp [ServerConnection.viewed, hr])
    exact .inr (.inl ⟨rfl, hsub (by omega)⟩)
  | startView _ _ _ => exact .inr (.inr ⟨hnone, .inr rfl⟩)
  | accept _ _ _ hnew =>
    refine .inr (.inr ⟨?_, .inr rfl⟩)
    rintro i ⟨x, x', hx, hf, hx', ht⟩
    cases (getElem?_append_of_eq_some hx).symm.trans hx'
    cases hf.symm.trans ht
  | cancel _ _ =>
    refine .inr (.inr ⟨?_, .inl rfl⟩)
    rintro i ⟨x, x', hx, hf, hx', ht⟩
    obtain ⟨y, hy, rfl⟩ := getElem?_modify_iff.mp hx'
    cases hx.symm.trans hy
    split at ht <;> cases hf.symm.trans ht
  | _ => exact .inr (.inr ⟨hnone, .inl rfl⟩)

/-- The view handlers in progress: those a thread runs, and those that have suspended a reader. -/
def RpcServer.viewsInProgress (s : RpcServer) : Nat :=
  s.book.suspendedViews + s.works.countP Work.isView

/-- What a step does to the completion of requests and to `inflight_count_`. -/
structure CompletesOnce (s : RpcServer) (l : Label) (s' : RpcServer) : Prop where
  stays : ∀ i, Completed s.states i → Completed s'.states i
  completes : ∀ i, Completes s.states s'.states i →
    ((∃ r, s.workOf l = some (.finish i r)) ∨ s.workOf l = some (.abandon i)) ∧
      s'.inflightCount + 1 = s.inflightCount ∧ ∀ j, Completes s.states s'.states j → j = i
  /-- The counter moves by one at most, and does not wrap around. -/
  counter : s'.inflightCount + 1 = s.inflightCount ∨ s'.inflightCount = s.inflightCount ∨
    s'.inflightCount = s.inflightCount + 1
  decrement : s'.inflightCount + 1 = s.inflightCount →
    (∃ i, Completes s.states s'.states i) ∨ s'.viewsInProgress + 1 = s.viewsInProgress

theorem completesOnce_step {received : List (Nat × UInt64)} (h : Accounted s received)
    (hs : s.step options l = some s') : CompletesOnce s l s' := by
  have hentry := step_entry hs
  have hstays : ∀ i, Completed s.states i → Completed s'.states i :=
    fun i hi => hi.goesOn hentry.statesGoOn
  -- steps that complete nothing and count nothing off
  have hnothing : (∀ i, ¬ Completes s.states s'.states i) → s'.inflightCount = s.inflightCount ∨
      s'.inflightCount = s.inflightCount + 1 → CompletesOnce s l s' := by
    intro hnone hi
    exact ⟨hstays, fun i hc => absurd hc (hnone i), .inr hi, fun hd => by omega⟩
  have hsame : s'.states = s.states → ∀ i, ¬ Completes s.states s'.states i := by
    rintro heq i ⟨x, x', hx, hf, hx', ht⟩
    rw [heq] at hx'
    cases hx.symm.trans hx'
    cases hf.symm.trans ht
  have hcounter' := (h.step hs).counter
  cases hentry with
  | attach owner callerScope _ heq =>
    subst heq
    exact hnothing (hsame rfl) (.inl rfl)
  | aside _ hb _ =>
    exact hnothing (hsame (congrArg Book.states hb)) (.inl (congrArg Book.inflightCount hb))
  | thread k w rest calls hwork hk _ he hstacks =>
    have hw : w.toList.countP Work.isView ≤ s.works.countP Work.isView := by
      refine List.Sublist.countP_le (List.Sublist.trans (sublist_append_left _ rest) ?_)
      exact sublist_flatten_of_mem (mem_of_getElem? hk)
    rcases he.moves h.counter hw with ⟨i, x, cancels, hx, hwas, hby, hb, hd⟩ | ⟨hstates, hd⟩ |
      ⟨hnone, hi⟩
    · have hstates : s'.states = (s.book.complete i cancels).states := congrArg Book.states hb
      have honly : ∀ j, Completes s.states s'.states j → j = i := by
        rintro j ⟨y, y', hy, hf, hy', ht⟩
        by_contra hne
        rw [hstates, Book.complete, getElem?_modify_of_ne (Ne.symm hne)] at hy'
        cases hy.symm.trans hy'
        cases hf.symm.trans ht
      have hx' : (s.book.complete i cancels).states[i]? = some _ := getElem?_modify_self hx
      have hcomp : Completes s.states s'.states i := ⟨x, _, hx, hwas, hstates ▸ hx', rfl⟩
      refine ⟨hstays, ?_, .inl hd, fun _ => .inl ⟨i, hcomp⟩⟩
      intro j hj
      obtain rfl := honly j hj
      exact ⟨hwork ▸ hby, hd, honly⟩
    · refine ⟨hstays, fun i hc => absurd hc (hsame hstates i), .inl hd, fun _ => .inr ?_⟩
      have hu : s'.book.uncompleted = s.book.uncompleted := congrArg (List.countP _) hstates
      have hc := h.counter
      simp only [viewsInProgress]
      omega
    · exact hnothing hnone hi

/-! ## Requests received and responses queued -/

/-- A server with a log of the REQUEST frames it has received, by connection and request id. -/
structure Observed where
  server : RpcServer
  received : List (Nat × UInt64)

def Observed.init (n : Nat) : Observed := ⟨.init n, []⟩

def Observed.step (options : RpcServerOptions) (o : Observed) (l : Label) : Option Observed :=
  (o.server.step options l).map fun s => ⟨s, o.received ++ heardBy l⟩

namespace RpcServer

/-- The RESPONSE frames queued on connection `c` for the request id. -/
def responses (s : RpcServer) (c : Nat) (requestId : UInt64) : Nat :=
  (s.connections[c]?.map (·.answered requestId)).getD 0

/-- Connection `c` is open and has no request in progress, and no thread is in the middle of
    answering one or of closing the connection. -/
structure Settled (s : RpcServer) (c : Nat) : Prop where
  isOpen : ∃ x, s.connections[c]? = some x ∧ x.closed = false ∧ x.viewed = none
  completed : ∀ x ∈ s.states, x.connection = c → x.completed = true
  idle : ∀ x ∈ s.works, x ≠ .close c ∧ ∀ p, x.claim = some p → p.1 ≠ c

end RpcServer

theorem responses_le_account (s : RpcServer) (c : Nat) (requestId : UInt64) :
    s.responses c requestId ≤ s.book.account (c, requestId) := by
  simp only [responses, Book.account, book]
  cases s.connections[c]? with
  | none => exact Nat.le_refl _
  | some x => exact Nat.le_add_right _ _

theorem RpcServer.Settled.tally {c : Nat} (h : s.Settled c) (requestId : UInt64) :
    s.book.tally (c, requestId) + s.works.countP (Work.claims (c, requestId)) =
      s.responses c requestId := by
  obtain ⟨x, hx, -, hv⟩ := h.isOpen
  have hawaiting : s.book.awaiting (c, requestId) = 0 := by
    refine countP_eq_zero.mpr fun y hy hclaim => ?_
    have hclaim := of_decide_eq_true hclaim
    unfold RequestState.claim at hclaim
    split at hclaim
    · cases hclaim
    · next hc =>
      have heq := congrArg Prod.fst (some.inj hclaim)
      exact hc (h.completed y hy heq)
  have hclaims : s.works.countP (Work.claims (c, requestId)) = 0 := by
    refine countP_eq_zero.mpr fun y hy hclaim => ?_
    exact (h.idle y hy).2 _ (of_decide_eq_true hclaim) rfl
  have haccount : s.book.account (c, requestId) = s.responses c requestId := by
    have hx' : s.book.connections[(c, requestId).1]? = some x := hx
    rw [Book.account_eq hx', ServerConnection.account, hv, responses, hx]
    rfl
  rw [Book.tally, hawaiting, hclaims, haccount, Nat.zero_add, Nat.add_zero]

/-- **Accounting**: in every state that a server reaches, `inflight_count_` is the number of
requests not completed and of view handlers in progress; a step completes a request at most once,
in `Finish` or `Abandon`, and counts it off then; a keyed request that is not completed waits in the
pending record of its key, or is being finished; and no more RESPONSE frames have been queued for a
request id than REQUEST frames received with it, and as many where the connection is open and
has no request in progress. -/
theorem requests_accounted_for (options : RpcServerOptions) (n : Nat) {o : Observed}
    (h : Reachable (Observed.step options) (.init n) o) :
    o.server.inflightCount = o.server.book.uncompleted + o.server.viewsInProgress ∧
    (∀ l o', o.step options l = some o' → CompletesOnce o.server l o'.server) ∧
    (∀ (i : Nat) (x : RequestState), o.server.states[i]? = some x → x.completed = false →
      x.idempotencyKey ≠ [] → o.server.Attended x.idempotencyKey i) ∧
    (∀ c requestId, o.server.responses c requestId ≤ o.received.count (c, requestId)) ∧
    (∀ c requestId, o.server.Settled c →
      o.server.responses c requestId = o.received.count (c, requestId)) := by
  have hinv : Accounted o.server o.received ∧ Attending o.server := by
    refine h.invariant (p := fun o => Accounted o.server o.received ∧ Attending o.server)
      ⟨accounted_init n, attending_init n⟩ ?_
    rintro o l o' ⟨ha, hw⟩ - hs
    obtain ⟨s', hs', rfl⟩ := map_eq_some_iff.mp hs
    exact ⟨ha.step hs', hw.step hs'⟩
  obtain ⟨ha, hw⟩ := hinv
  refine ⟨?_, ?_, hw.attended, ?_, ?_⟩
  · rw [ha.counter, viewsInProgress, Nat.add_assoc]
  · intro l o' hs
    obtain ⟨s', hs', rfl⟩ := map_eq_some_iff.mp hs
    exact completesOnce_step ha hs'
  · intro c requestId
    have hb := ha.bound (c, requestId)
    have hle := responses_le_account o.server c requestId
    simp only [Book.tally] at hb
    omega
  · intro c requestId hsettled
    obtain ⟨x, hx, hopen, -⟩ := hsettled.isOpen
    rw [← hsettled.tally requestId]
    exact ha.exact (c, requestId) ⟨x, hx, hopen⟩ fun hmem => (hsettled.idle _ hmem).1 rfl

/-- Two connections send the same keyed request; the second is merged onto the execution of the
first, which is then cancelled. The first connection has its one response, and the second
request goes on waiting in the record. -/
theorem requests_accounted_for_merged :
    ∃ o, Reachable (Observed.step pooledOptions) (.init 1) o ∧ o.received = [(0, 1), (1, 2)] ∧
      o.server.states.map (fun x => (x.connection, x.completed)) = [(0, true), (1, false)] ∧
      o.server.inflightCount = 1 ∧ o.server.book.uncompleted + o.server.viewsInProgress = 1 ∧
      (∀ x, o.server.states[1]? = some x → o.server.Attended x.idempotencyKey 1) ∧
      o.server.responses 0 1 = 1 := by
  refine exists_reaches_of_exec (p := fun o => o.received = [(0, 1), (1, 2)] ∧ o.server.works = [] ∧
      o.server.states.map (fun x => (x.connection, x.completed)) = [(0, true), (1, false)] ∧
      o.server.inflightCount = 1 ∧
      (o.server.states[1]?.any fun x => decide (x.idempotencyKey ≠ [])) = true ∧
      (o.server.connections[0]?.any fun x => decide (x.closed = false ∧ x.viewed = none)) = true)
    (.attachConnection 0 [] :: .attachConnection 0 [] :: submitted (keyedRequest 1 [5]) ++
      [.frame 1 (keyedRequest 2 [5]), .work 0 .none] ++ cancelled 1)
    (by decide +kernel) fun o hr hs => ?_
  obtain ⟨hreceived, hworks, hstates, hinflight, hkey, hconn⟩ := hs
  obtain ⟨hcounter, -, hattended, -, hequal⟩ := requests_accounted_for pooledOptions 1 hr
  refine ⟨hreceived, hstates, hinflight, hcounter ▸ hinflight, ?_, ?_⟩
  · intro x hx
    refine hattended 1 x hx ?_ ?_
    · have hmap : (o.server.states.map fun x => (x.connection, x.completed))[1]? =
          some (x.connection, x.completed) := by rw [getElem?_map, hx]; rfl
      rw [hstates] at hmap
      exact (congrArg Prod.snd (some.inj hmap)).symm
    · rw [hx] at hkey
      exact of_decide_eq_true hkey
  · obtain ⟨x, hx, hopen⟩ := (any_eq_true _ _).mp hconn
    have hsettled : o.server.Settled 0 := by
      refine ⟨⟨x, hx, of_decide_eq_true hopen⟩, ?_, ?_⟩
      · intro y hy hc
        have hmem : (y.connection, y.completed) ∈ [(0, true), (1, false)] :=
          hstates ▸ mem_map_of_mem hy
        simpa [hc] using hmem
      · rw [hworks]
        simp
    rw [hequal 0 1 hsettled, hreceived]
    decide

end CoroRpc.Server
