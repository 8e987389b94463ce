import CoroRpc.Server.Ledger

/-!
# Requests are accounted for

Three facts hold between any two steps, whatever the interleaving. `inflight_count_` is the number of
requests not completed and of view handlers in progress. The RESPONSE frames queued for a request id
and the claims on further ones are never more than the REQUEST frames received with that id. And on a
connection that is open and not about to be closed they are exactly as many: only a close makes the
server drop a claim.

The side conditions are about who runs where. A thread that reads from a connection does nothing
else, and the reader of that connection is not suspended, so a reader suspended in a view handler
cannot be overwritten (`Reading`); what is abandoned belongs to a closed connection (`detached`).
-/

namespace CoroRpc.Server

open Lib Protocol List Option Book RpcServer Work

/-! ## What goes on -/

/-- A request stays on its connection, and stays completed. -/
def RequestState.GoesOn (x x' : RequestState) : Prop :=
  x'.connection = x.connection ∧ x'.idempotencyKey = x.idempotencyKey ∧
    (x.completed = true → x'.completed = true)

instance : Std.Refl RequestState.GoesOn := ⟨fun _ => ⟨rfl, rfl, id⟩⟩

def StatesGoOn : List RequestState → List RequestState → Prop := Stays RequestState.GoesOn

/-- A connection keeps its shard, and stays closed. -/
def ServerConnection.GoesOn (x x' : ServerConnection) : Prop :=
  x'.owner = x.owner ∧ (x.closed = true → x'.closed = true)

instance : Std.Refl ServerConnection.GoesOn := ⟨fun _ => ⟨rfl, id⟩⟩

def ConnectionsGoOn : List ServerConnection → List ServerConnection → Prop :=
  Stays ServerConnection.GoesOn

structure Book.GoesOn (b b' : Book) : Prop where
  states : StatesGoOn b.states b'.states
  connections : ConnectionsGoOn b.connections b'.connections

variable {s s' : RpcServer} {k : Nat} {b : Book} {executions : List Execution}
  {heard : List (Nat × UInt64)} {w : Option Work} {calls rest : List Work}

theorem Entry.goesOn (h : Entry s k executions b heard w calls) : s.book.GoesOn b := by
  cases h with
  | accept _ _ _ _ => exact ⟨.append _ _, .modify fun _ => ⟨rfl, id⟩⟩
  | cancel _ _ => exact ⟨.modify fun _ => ⟨rfl, rfl, id⟩, .refl _⟩
  | drain | suspend _ _ | resume _ _ _ | suspendView | resumeView _ _ _ _ | completeRequest
  | queue _ _ _ => exact ⟨.refl _, .modify fun _ => ⟨rfl, id⟩⟩
  | finish _ _ _ | abandon _ _ _ _ =>
    exact ⟨.modify fun _ => ⟨rfl, rfl, fun _ => rfl⟩, .refl _⟩
  | close _ => exact ⟨.refl _, .modify fun _ => ⟨rfl, fun _ => rfl⟩⟩
  | _ => exact ⟨.refl _, .refl _⟩

theorem Entry.length (h : Entry s k executions b heard w calls) :
    b.connections.length = s.connections.length := by
  cases h <;> simp [RpcServer.book, Book.setReader, Book.complete]

/-- The connection exists, and is closed. -/
def Book.IsClosed (b : Book) (c : Nat) : Prop :=
  ∃ x, b.connections[c]? = some x ∧ x.closed = true

variable {c : Nat}

theorem Book.IsClosed.not_isOpen (h : b.IsClosed c) : ¬ b.IsOpen c := by
  obtain ⟨x, hx, hc⟩ := h
  exact Book.not_isOpen hx hc

theorem ConnectionsGoOn.isClosed {b' : Book} (h : ConnectionsGoOn b.connections b'.connections)
    (hc : b.IsClosed c) : b'.IsClosed c := by
  obtain ⟨x, hx, hcl⟩ := hc
  obtain ⟨x', hx', -, hcl'⟩ := h c x hx
  exact ⟨x', hx', hcl' hcl⟩

theorem Entry.isOpen_of (h : Entry s k executions b heard w calls) (ho : b.IsOpen c) :
    s.book.IsOpen c := by
  obtain ⟨x', hx', hc'⟩ := ho
  obtain ⟨hlt, -⟩ := List.getElem?_eq_some_iff.mp hx'
  rw [h.length] at hlt
  refine ⟨s.connections[c], List.getElem?_eq_getElem hlt, ?_⟩
  by_contra hcl
  obtain ⟨y, hy, -, hyc⟩ := h.goesOn.connections c _ (List.getElem?_eq_getElem hlt)
  cases hx'.symm.trans hy
  cases (hyc (by simpa using hcl)).symm.trans hc'

theorem Entry.closes (h : Entry s k executions b heard (some (.close c)) calls) : ¬ b.IsOpen c := by
  cases h with
  | quiet _ hclose _ _ => exact hclose c rfl
  | close hx => exact Book.not_isOpen (getElem?_modify_self hx) rfl

/-! ## Reading -/

/-- Shard `k` has connection `c`, whose reader is not suspended. -/
def Book.Reads (b : Book) (k c : Nat) : Prop :=
  ∃ x, b.connections[c]? = some x ∧ x.owner = k ∧ x.reader = none

def RpcServer.readerOf (s : RpcServer) : Work → Option Nat
  | .view c _ _ => some c
  | .lookUp i _ => s.states[i]?.map (·.connection)
  | .execute e => s.executions[e]?.bind fun x => s.states[x.request]?.map (·.connection)
  | _ => none

/-- A thread that does a reader's work does nothing else. -/
def Reading (s : RpcServer) : Prop :=
  ∀ (k : Nat) (stack : List Work), s.threads[k]? = some stack → ∀ w ∈ stack, w.isReading = true →
    stack = [w] ∧ ∃ c, s.readerOf w = some c ∧ s.book.Reads k c

variable {i : Nat}

theorem StatesGoOn.connection {l l' : List RequestState} (h : StatesGoOn l l')
    (hi : l[i]?.map (·.connection) = some c) : l'[i]?.map (·.connection) = some c := by
  obtain ⟨x, hx, rfl⟩ := map_eq_some_iff.mp hi
  obtain ⟨x', hx', hc, -⟩ := h i x hx
  rw [hx', map_some, hc]

variable {x : Work}

theorem readerOf_goesOn (hs : StatesGoOn s.states s'.states)
    (he : ExecutionsKept s.executions s'.executions) (h : s.readerOf x = some c) :
    s'.readerOf x = some c := by
  cases x with
  | view c' id dl => exact h
  | lookUp i mode => exact hs.connection h
  | execute e =>
    obtain ⟨x, hx, hc⟩ := bind_eq_some_iff.mp h
    obtain ⟨x', hx', hreq, -⟩ := he e x hx
    refine bind_eq_some_iff.mpr ⟨x', hx', ?_⟩
    rw [hreq]
    exact hs.connection hc
  | _ => exact h

theorem Book.Reads.modify {c' : Nat} {f : ServerConnection → ServerConnection}
    {states : List RequestState} {n : Nat} (h : b.Reads k c)
    (hf : c' = c → ∀ x, b.connections[c]? = some x → (f x).owner = x.owner ∧
      (f x).reader = x.reader) : (Book.mk states (b.connections.modify c' f) n).Reads k c := by
  obtain ⟨x, hx, ho, hr⟩ := h
  refine ⟨_, getElem?_modify_iff.mpr ⟨x, hx, rfl⟩, ?_⟩
  split
  · next hc =>
    obtain ⟨ho', hr'⟩ := hf hc x hx
    exact ⟨ho'.trans ho, hr'.trans hr⟩
  · exact ⟨ho, hr⟩

theorem Book.Reads.ne {k' c' : Nat} {x : ServerConnection} (h : b.Reads k' c) (hne : k' ≠ k)
    (hx : b.connections[c']? = some x) (ho : x.owner = k) : c' ≠ c := by
  rintro rfl
  obtain ⟨y, hy, ho', -⟩ := h
  cases hx.symm.trans hy
  exact hne (ho'.symm.trans ho)

/-- The reader whose work is on top of the stack is awake. -/
abbrev TopReads (s : RpcServer) (k : Nat) (w : Option Work) : Prop :=
  ∀ x ∈ w, x.isReading = true → ∃ c, s.readerOf x = some c ∧ s.book.Reads k c

theorem TopReads.view {requestId : UInt64} {deadlineMs : Nat}
    (h : TopReads s k (some (.view c requestId deadlineMs))) : s.book.Reads k c := by
  obtain ⟨c', hc, hr⟩ := h _ rfl rfl
  exact some.inj hc ▸ hr

theorem TopReads.execute {e : Nat} {x : Execution} {state : RequestState}
    (h : TopReads s k (some (.execute e))) (hx : s.executions[e]? = some x)
    (hstate : s.states[x.request]? = some state) : s.book.Reads k state.connection := by
  obtain ⟨c', hc, hr⟩ := h _ rfl rfl
  simp only [RpcServer.readerOf, hx, hstate, bind_some, map_some, Option.some.injEq] at hc
  exact hc ▸ hr

theorem Entry.reads (h : Entry s k executions b heard w calls) (htop : TopReads s k w) {k' : Nat}
    (hne : k' ≠ k) (hr : s.book.Reads k' c) : b.Reads k' c := by
  have hmine : ∀ {c'} reader, s.book.Reads k c' →
      (s.book.setReader c' reader).Reads k' c := by
    rintro c' reader ⟨x, hx, ho, -⟩
    exact hr.modify fun hc => absurd hc (hr.ne hne hx ho)
  cases h with
  | accept _ _ _ _ | drain | completeRequest | queue _ _ _ | close _ =>
    exact hr.modify fun _ _ _ => ⟨rfl, rfl⟩
  | suspend hx hstate => exact hmine _ (htop.execute hx hstate)
  | resume hx ho _ | resumeView hx ho _ _ =>
    exact hr.modify fun hc => absurd hc (hr.ne hne hx ho)
  | suspendView => exact hmine _ htop.view
  | _ => exact hr

theorem Entry.reads_calls (h : Entry s k s'.executions b heard w calls) (hs : s'.states = b.states)
    (htop : TopReads s k w) (hx : x ∈ calls) (hxr : x.isReading = true) :
    calls = [x] ∧ (∀ y ∈ w, y.isReading = true) ∧ ∃ c, s'.readerOf x = some c ∧ b.Reads k c := by
  have hplain : ∀ {w'}, Plain w' calls → False := by
    intro w' hp
    cases (hp x hx).2.1.symm.trans hxr
  cases h with
  | quiet _ _ hp _ | cancel hp _ | abandon _ _ hp _ => exact (hplain hp).elim
  | startView hc ho hi =>
    obtain rfl := mem_singleton.mp hx
    exact ⟨rfl, by simp, _, rfl, _, hc, ho, hi⟩
  | @accept x state mode hc ho hi _ =>
    obtain rfl := mem_singleton.mp hx
    have hr : s.book.Reads k state.connection := ⟨x, hc, ho, hi⟩
    refine ⟨rfl, by simp, state.connection, ?_, hr.modify fun _ _ _ => ⟨rfl, rfl⟩⟩
    simp only [RpcServer.readerOf, hs, getElem?_concat_length, map_some]
  | start he hreq =>
    obtain rfl := mem_singleton.mp hx
    obtain ⟨c, hc, hr⟩ := htop _ rfl rfl
    refine ⟨rfl, by simp [isReading], c, ?_, hr⟩
    simp only [RpcServer.readerOf, he, getElem?_concat_length, bind_some, hs, hreq]
    exact hc
  | queue _ _ hc =>
    rcases hc with rfl | rfl
    · cases hx
    · obtain rfl := mem_singleton.mp hx
      exact absurd hxr (by simp [isReading])
  | refuse hc =>
    rcases hc with rfl | ⟨rfl, -⟩
    · obtain rfl := mem_singleton.mp hx
      exact absurd hxr (by simp [isReading])
    · cases hx
  | completeRequest =>
    simp only [mem_cons, not_mem_nil, or_false] at hx
    rcases hx with rfl | rfl <;> exact absurd hxr (by simp [isReading])
  | suspend _ _ | suspendView => cases hx
  | _ =>
    obtain rfl := mem_singleton.mp hx
    exact absurd hxr (by simp [isReading])

theorem Reading.top (h : Reading s) (hk : s.threads[k]? = some (w.toList ++ rest)) :
    TopReads s k w := by
  intro x hx hr
  refine (h k _ hk x ?_ hr).2
  rw [mem_def.mp hx]
  exact mem_cons_self

theorem Reading.thread (h : Reading s) (he : s.Enters k s' heard w calls)
    (hk : s.threads[k]? = some (w.toList ++ rest)) (hrest : w = none → rest = [])
    (hstacks : s'.threads = s.threads.set k (calls ++ rest))
    (hexec : ExecutionsKept s.executions s'.executions) : Reading s' := by
  intro k' stack hk' x hx hxr
  by_cases hkk : k' = k
  · subst hkk
    have hlt := (List.getElem?_eq_some_iff.mp hk).1
    rw [hstacks, List.getElem?_set_self hlt, Option.some.injEq] at hk'
    subst hk'
    rcases List.mem_append.mp hx with hx | hx
    · obtain ⟨hcalls, hwr, hread⟩ := he.reads_calls rfl (h.top hk) hx hxr
      -- what was below the work of a reader is nothing
      have hnil : rest = [] := by
        cases w with
        | none => exact hrest rfl
        | some y =>
          have hy := (h k' _ hk y mem_cons_self (hwr y rfl)).1
          simpa using hy
      exact ⟨by rw [hnil, append_nil, hcalls], hread⟩
    · -- a reader's work is not below anything
      have hxs := (h k' _ hk x (mem_append_right _ hx) hxr).1
      cases w with
      | none =>
        rw [hrest rfl] at hx
        cases hx
      | some y =>
        simp only [toList_some, singleton_append, cons.injEq] at hxs
        rw [hxs.2] at hx
        cases hx
  · rw [hstacks, getElem?_set_ne (Ne.symm hkk)] at hk'
    obtain ⟨hs, c, hc, hr⟩ := h k' stack hk' x hx hxr
    exact ⟨hs, c, readerOf_goesOn he.goesOn.states hexec hc, he.reads (h.top hk) hkk hr⟩

/-! ## Counts -/

namespace ServerConnection

/-- The RESPONSE frames queued for the request id. -/
def answered (x : ServerConnection) (requestId : UInt64) : Nat :=
  x.queued.countP fun frame => decide (Answers requestId frame)

/-- With the one its reader will queue. -/
def account (x : ServerConnection) (requestId : UInt64) : Nat :=
  x.answered requestId + (decide (x.viewed = some requestId)).toNat

end ServerConnection

def Work.claims (p : Nat × UInt64) (x : Work) : Bool := decide (x.claim = some p)

namespace Book

def uncompleted (b : Book) : Nat := b.states.countP fun x => !x.completed

def suspendedViews (b : Book) : Nat := b.connections.countP fun x => x.viewed.isSome

def account (b : Book) (p : Nat × UInt64) : Nat :=
  (b.connections[p.1]?.map (·.account p.2)).getD 0

/-- The requests that have a claim on a RESPONSE for `p`. -/
def awaiting (b : Book) (p : Nat × UInt64) : Nat :=
  b.states.countP fun x => decide (x.claim = some p)

/-- RESPONSE frames for `p`: those queued, and those that a request or a suspended reader has a
    claim on. -/
def tally (b : Book) (p : Nat × UInt64) : Nat := b.awaiting p + b.account p

variable {p : Nat × UInt64} {c n : Nat} {states : List RequestState}
  {f : ServerConnection → ServerConnection}

variable {x : ServerConnection}

theorem account_eq (h : b.connections[p.1]? = some x) : b.account p = x.account p.2 := by
  rw [account, h]
  rfl

theorem account_modify_eq (hf : ∀ x, (f x).account p.2 = x.account p.2) :
    (Book.mk states (b.connections.modify c f) n).account p = b.account p := by
  simp only [account, ← getElem?_map]
  rw [map_modify_eq hf]

theorem account_modify (hx : b.connections[c]? = some x) :
    (Book.mk states (b.connections.modify c f) n).account p +
        (if c = p.1 then x.account p.2 else 0) =
      b.account p + (if c = p.1 then (f x).account p.2 else 0) := by
  split
  · next hc =>
    subst hc
    have hx' : (Book.mk states (b.connections.modify p.1 f) n).connections[p.1]? = some (f x) :=
      getElem?_modify_self hx
    rw [account_eq hx', account_eq hx, Nat.add_comm]
  · next hc => simp only [account, getElem?_modify_of_ne hc]

theorem Reads.viewed (h : b.Reads k c) (hx : b.connections[c]? = some x) : x.viewed = none := by
  obtain ⟨y, hy, -, hr⟩ := h
  cases hx.symm.trans hy
  rw [ServerConnection.viewed, hr]

end Book

/-- Work without a claim counts for nothing. -/
theorem Work.isView_of_claim (h : x.claim = none) : x.isView = false := by
  cases x <;> first | rfl | exact absurd h (by simp [Work.claim])

theorem countP_claims_eq_zero {l : List Work} {p : Nat × UInt64} (h : ∀ x ∈ l, x.claim = none) :
    l.countP (claims p) = 0 := by
  rw [countP_eq_zero]
  intro x hx
  simp [claims, h x hx]

theorem countP_isView_eq_zero {l : List Work} (h : ∀ x ∈ l, x.claim = none) :
    l.countP isView = 0 := by
  rw [countP_eq_zero]
  intro x hx
  simp [isView_of_claim (h x hx)]

theorem Plain.claim (h : Plain w calls) : ∀ x ∈ calls, x.claim = none := fun x hx => (h x hx).1

/-! ## The counter -/

theorem Book.uncompleted_complete {x : RequestState} {cancels : Bool} (hx : b.states[i]? = some x)
    (hc : x.completed = false) : (b.complete i cancels).uncompleted + 1 = b.uncompleted := by
  have h := countP_modify_add (f := fun x =>
    { x with completed := true, cancelled := x.cancelled || cancels }) (fun x => !x.completed) hx
  rw [hc] at h
  exact h

theorem Book.suspendedViews_setReader {x : ServerConnection} (reader : Option Suspended)
    (hx : b.connections[c]? = some x) :
    (b.setReader c reader).suspendedViews + x.viewed.isSome.toNat =
      b.suspendedViews + ({ x with reader := reader } : ServerConnection).viewed.isSome.toNat :=
  countP_modify_add (fun x : ServerConnection => x.viewed.isSome) hx

/-- `inflight_count_` moves with the requests not completed and the views in progress, of which
    there are `n` on the stacks. -/
theorem Entry.counter (h : Entry s k executions b heard w calls) (htop : TopReads s k w) {n : Nat}
    (hc : s.inflightCount = s.book.uncompleted + s.book.suspendedViews + n)
    (hn : w.toList.countP isView ≤ n) :
    b.inflightCount + w.toList.countP isView =
      b.uncompleted + b.suspendedViews + n + calls.countP isView := by
  have hsum : ∀ {i u v j m}, b.inflightCount = i → b.uncompleted = u → b.suspendedViews = v →
      i + j = u + v + n + m → b.inflightCount + j = b.uncompleted + b.suspendedViews + n + m := by
    rintro i u v j m rfl rfl rfl heq
    exact heq
  have hsub : 1 ≤ s.inflightCount → subSize s.inflightCount 1 + 1 = s.inflightCount := by
    intro h1
    rw [subSize_eq h1, Nat.sub_add_cancel h1]
  -- a request that is completed was counted
  have hcompleted : ∀ {i} {x} {cancels}, s.states[i]? = some x →
      x.completed = false → b = s.book.complete i cancels →
      b.inflightCount + 0 = b.uncompleted + b.suspendedViews + n + 0 := by
    intro i x cancels hx hwas hb
    have hu : b.uncompleted + 1 = s.book.uncompleted := by
      rw [hb]
      exact uncompleted_complete hx hwas
    have hi := hsub (by omega)
    refine hsum (congrArg Book.inflightCount hb) rfl (congrArg Book.suspendedViews hb) ?_
    show subSize s.inflightCount 1 + 0 = b.uncompleted + s.book.suspendedViews + n + 0
    omega
  cases h with
  | quiet hw _ hp _ =>
    rw [countP_isView_eq_zero hp.claim, countP_isView_eq_zero (l := w.toList) (by simpa using hw)]
    exact hc
  | reply _ _ | start _ _ => exact hc
  | startView _ _ _ =>
    exact hsum rfl rfl rfl (congrArg (· + 1) hc)
  | accept _ _ _ hnew =>
    refine hsum rfl (u := s.book.uncompleted + 1) ?_ (countP_modify_eq fun _ => rfl) ?_
    · simp [uncompleted, RpcServer.book, hnew]
    · show s.inflightCount + 1 + 0 = s.book.uncompleted + 1 + s.book.suspendedViews + n + 0
      omega
  | cancel hp _ =>
    rw [countP_isView_eq_zero hp.claim]
    exact hsum rfl (countP_modify_eq fun _ => rfl) rfl hc
  | drain | completeRequest | close _ =>
    exact hsum rfl rfl (countP_modify_eq fun _ => rfl) hc
  | @suspend e x state hx hstate =>
    have hr := htop.execute hx hstate
    obtain ⟨y, hy, -⟩ := htop.execute hx hstate
    have hset := suspendedViews_setReader (some (.handler e)) hy
    rw [hr.viewed hy] at hset
    exact hsum rfl rfl hset hc
  | @resume c e x hx ho hr =>
    have hset := suspendedViews_setReader (b := s.book) none hx
    rw [ServerConnection.viewed, hr] at hset
    exact hsum rfl rfl hset hc
  | endView _ =>
    have hv : 1 ≤ n := hn
    have hi := hsub (by omega)
    exact hsum rfl rfl rfl (hi.trans hc)
  | @suspendView c requestId deadlineMs =>
    have hr := htop.view
    obtain ⟨y, hy, -⟩ := htop.view
    have hset := suspendedViews_setReader (some (.view requestId deadlineMs)) hy
    rw [hr.viewed hy] at hset
    refine hsum rfl rfl hset ?_
    show s.inflightCount + 1 = s.book.uncompleted + (s.book.suspendedViews + 1) + n + 0
    omega
  | @resumeView c x requestId deadlineMs frame hx ho hr _ =>
    have hset := suspendedViews_setReader (b := s.book) none hx
    rw [ServerConnection.viewed, hr] at hset
    have hset : (s.book.setReader c none).suspendedViews + 1 = s.book.suspendedViews := hset
    have hi := hsub (by omega)
    refine hsum rfl rfl rfl ?_
    show subSize s.inflightCount 1 + 0 =
      s.book.uncompleted + (s.book.setReader c none).suspendedViews + n + 0
    omega
  | finish hx hwas _ => exact hcompleted hx hwas rfl
  | abandon hx hwas hp _ =>
    rw [countP_isView_eq_zero hp.claim]
    exact hcompleted hx hwas rfl
  | queue _ _ hcalls =>
    have hv : calls.countP isView = 0 := by rcases hcalls with rfl | rfl <;> rfl
    rw [hv]
    exact hsum rfl rfl (countP_modify_eq fun _ => rfl) hc
  | refuse hcalls =>
    have hv : calls.countP isView = 0 := by rcases hcalls with rfl | ⟨rfl, -⟩ <;> rfl
    rw [hv]
    exact hc

/-! ## Claims and answers -/

/-- Work carries the frame it says it does. -/
def Work.Addressed : Work → Prop
  | .completeRequest _ requestId frame => Answers requestId frame
  | .queueFrame _ frame => frame.header.messageType = .response
  | _ => True

/-- One for `p`, if `q` is about `p`. -/
abbrev one (q : Option (Nat × UInt64)) (p : Nat × UInt64) : Nat := (decide (q = some p)).toNat

theorem one_none (p : Nat × UInt64) : one none p = 0 := by simp [one]

theorem countP_claims_cons (x : Work) (l : List Work) (p : Nat × UInt64) :
    (x :: l).countP (claims p) = one x.claim p + l.countP (claims p) := by
  rw [countP_cons, Nat.add_comm, claims, one]
  cases decide (x.claim = some p) <;> rfl

theorem countP_claims_singleton (x : Work) (p : Nat × UInt64) :
    [x].countP (claims p) = one x.claim p := countP_claims_cons x [] p

theorem count_singleton (q p : Nat × UInt64) : [q].count p = one (some q) p := by
  rw [List.count_singleton, one]
  by_cases h : q = p
  · simp [h]
  · simp [h]

theorem Book.tally_complete {x : RequestState} {cancels : Bool} (p : Nat × UInt64)
    (hx : b.states[i]? = some x) (hc : x.completed = false) :
    (b.complete i cancels).tally p + one (some (x.connection, x.requestId)) p = b.tally p := by
  have hclaim : x.claim = some (x.connection, x.requestId) := by simp [RequestState.claim, hc]
  have hstates : (b.complete i cancels).awaiting p + one x.claim p = b.awaiting p + one none p :=
    countP_modify_add (fun x : RequestState => decide (x.claim = some p)) hx
  have haccount : (b.complete i cancels).account p = b.account p := rfl
  rw [hclaim, one_none] at hstates
  simp only [tally]
  omega

theorem ServerConnection.account_view (x : ServerConnection) (requestId : UInt64) (deadlineMs : Nat)
    (p : Nat × UInt64) :
    ({ x with reader := some (.view requestId deadlineMs) } : ServerConnection).account p.2 =
      x.answered p.2 + (decide (requestId = p.2)).toNat := by
  simp [account, answered, viewed]

/-- Where a frame is queued, it counts for the request id it carries. -/
theorem ServerConnection.account_queue (x : ServerConnection) {frame : Frame}
    (h : frame.header.messageType = .response) (requestId : UInt64) :
    ({ x with queued := x.queued ++ [frame] } : ServerConnection).account requestId =
      x.account requestId + (decide (frame.header.requestId = requestId)).toNat := by
  have hone : [frame].countP (fun frame => decide (Answers requestId frame)) =
      (decide (frame.header.requestId = requestId)).toNat := by
    by_cases hid : frame.header.requestId = requestId <;> simp [Answers, h, hid]
  have hviewed : ({ x with queued := x.queued ++ [frame] } : ServerConnection).viewed = x.viewed :=
    rfl
  simp only [account, answered, countP_append, hone, hviewed]
  omega

theorem one_some (c : Nat) (requestId : UInt64) (p : Nat × UInt64) :
    one (some (c, requestId)) p = if c = p.1 then (decide (requestId = p.2)).toNat else 0 := by
  obtain ⟨c', requestId'⟩ := p
  by_cases hc : c = c' <;> simp [one, hc]

/-- The RESPONSE frames queued and claimed are as many more as REQUEST frames were received, or a
    claim is dropped on a connection that is closed or about to be. -/
theorem Entry.balance (h : Entry s k executions b heard w calls) (htop : TopReads s k w)
    (haddr : ∀ x ∈ w, x.Addressed)
    (hdet : ∀ x ∈ w, ∀ i ∈ x.abandons, ∀ state, s.states[i]? = some state →
      s.book.IsClosed state.connection) (p : Nat × UInt64) :
    b.tally p + calls.countP (claims p) =
        s.book.tally p + w.toList.countP (claims p) + heard.count p ∨
      (b.tally p + calls.countP (claims p) ≤
          s.book.tally p + w.toList.countP (claims p) + heard.count p ∧
        (¬ b.IsOpen p.1 ∨ .close p.1 ∈ calls)) := by
  -- the tally of an entry that changes one connection and no request
  have hconnection : ∀ {c n} {f}
      {x}, b = ⟨s.states, s.connections.modify c f, n⟩ →
      s.connections[c]? = some x → b.tally p + (if c = p.1 then x.account p.2 else 0) =
        s.book.tally p + (if c = p.1 then (f x).account p.2 else 0) := by
    intro c n f x hb hx
    have haccount : b.account p + (if c = p.1 then x.account p.2 else 0) =
        s.book.account p + (if c = p.1 then (f x).account p.2 else 0) := by
      rw [hb]
      exact account_modify (b := s.book) hx
    have hstates : b.awaiting p = s.book.awaiting p := by rw [hb]; rfl
    simp only [tally]
    omega
  have hunchanged : ∀ {c n} {f},
      b = ⟨s.states, s.connections.modify c f, n⟩ → (∀ x, (f x).account p.2 = x.account p.2) →
      b.tally p = s.book.tally p := by
    intro c n f hb hf
    rw [hb]
    exact congrArg _ (account_modify_eq (b := s.book) hf)
  cases h with
  | quiet hw _ hp _ =>
    left
    rw [countP_claims_eq_zero hp.claim, countP_claims_eq_zero (l := w.toList) (by simpa using hw)]
    rfl
  | @reply c x requestId frame _ ha =>
    left
    rw [countP_claims_singleton, count_singleton, Work.claim, ha.2]
    rfl
  | startView _ _ _ =>
    left
    rw [countP_claims_singleton, count_singleton]
    rfl
  | @accept x state mode _ _ _ hnew =>
    left
    have hclaim : state.claim = some (state.connection, state.requestId) := by
      simp [RequestState.claim, hnew]
    have hstates : (s.states ++ [state]).countP (fun x => x.claim = some p) =
        s.book.awaiting p + one state.claim p := by
      simp only [awaiting, countP_append, RpcServer.book]
      cases decide (state.claim = some p) <;> rfl
    rw [count_singleton, ← hclaim, tally, awaiting, hstates]
    refine (congrArg (_ + · + 0) (account_modify_eq (b := s.book) ?_)).trans ?_
    · exact fun _ => rfl
    show _ + s.book.account p + 0 = s.book.awaiting p + s.book.account p + 0 + _
    omega
  | @cancel i r calls hp _ =>
    left
    rw [countP_claims_eq_zero hp.claim]
    exact congrArg (· + s.book.account p) (countP_modify_eq fun _ => rfl)
  | drain | close _ => exact .inl (hunchanged rfl fun _ => rfl)
  | start _ _ => exact .inl rfl
  | @suspend e x state hx hstate =>
    have hr := htop.execute hx hstate
    obtain ⟨y, hy, -⟩ := htop.execute hx hstate
    have hset := hconnection rfl hy
    have hsame : ({ y with reader := some (.handler e) } : ServerConnection).account p.2 =
        y.account p.2 := by
      rw [ServerConnection.account, ServerConnection.account, hr.viewed hy]
      rfl
    rw [hsame] at hset
    exact .inl (Nat.add_right_cancel hset)
  | @resume c e x hx ho hr =>
    have hset := hconnection rfl hx
    have hsame : ({ x with reader := none } : ServerConnection).account p.2 = x.account p.2 := by
      simp [ServerConnection.account, ServerConnection.viewed, ServerConnection.answered, hr]
    rw [hsame] at hset
    exact .inl (Nat.add_right_cancel hset)
  | endView ha =>
    left
    rw [toList_some, countP_claims_singleton, countP_claims_singleton]
    simp only [Work.claim, ha.2]
    rfl
  | @suspendView c requestId deadlineMs =>
    left
    have hr := htop.view
    obtain ⟨y, hy, -⟩ := htop.view
    have hset := hconnection rfl hy
    have hy' : y.account p.2 = y.answered p.2 := by
      rw [ServerConnection.account, hr.viewed hy]
      rfl
    rw [ServerConnection.account_view, hy'] at hset
    rw [toList_some, countP_claims_singleton, Work.claim, one_some]
    show _ + 0 = s.book.tally p + _ + 0
    split at hset
    · next hc => rw [if_pos hc]; omega
    · next hc => rw [if_neg hc]; omega
  | @resumeView c x requestId deadlineMs frame hx ho hr ha =>
    left
    have hset := hconnection rfl hx
    have hx' : x.account p.2 = x.answered p.2 + (decide (requestId = p.2)).toNat := by
      simp [ServerConnection.account, ServerConnection.viewed, hr]
    have hsame : ({ x with reader := none } : ServerConnection).account p.2 = x.answered p.2 := by
      simp [ServerConnection.account, ServerConnection.viewed, ServerConnection.answered]
    rw [countP_claims_singleton, Work.claim, ha.2, one_some]
    show _ = s.book.tally p + 0 + 0
    split at hset
    · next hc => rw [if_pos hc]; omega
    · next hc => rw [if_neg hc]; omega
  | @finish i x r frame cancels hx hwas ha =>
    left
    rw [countP_claims_singleton]
    exact tally_complete p hx hwas
  | @abandon i x calls hx hwas hp _ =>
    have htally : (s.book.complete i true).tally p + _ = s.book.tally p := tally_complete p hx hwas
    rw [countP_claims_eq_zero hp.claim]
    -- the request's connection is closed, so an open one loses nothing
    have hclosed := hdet _ rfl i (mem_singleton_self i) x hx
    rw [one_some] at htally
    split at htally
    · next hc =>
      refine .inr ⟨?_, .inl ?_⟩
      · show _ + 0 ≤ s.book.tally p + 0 + 0
        omega
      · rw [← hc]
        exact hclosed.not_isOpen
    · exact .inl htally
  | @completeRequest c requestId frame =>
    left
    have ha : Answers requestId frame := haddr _ rfl
    have hsame := hunchanged rfl fun _ => rfl
    rw [countP_claims_cons, countP_claims_singleton, toList_some, countP_claims_singleton, hsame]
    simp only [Work.claim, ha.2, one_none]
    rfl
  | @queue c x frame calls hx ho hcalls =>
    left
    have ha : frame.header.messageType = .response := haddr _ rfl
    have hset := hconnection rfl hx
    rw [ServerConnection.account_queue x ha] at hset
    have hzero : calls.countP (claims p) = 0 := by
      refine countP_claims_eq_zero ?_
      rcases hcalls with rfl | rfl <;> simp [Work.claim]
    rw [hzero, toList_some, countP_claims_singleton, Work.claim, one_some]
    show _ + 0 = s.book.tally p + _ + 0
    split at hset
    · next hc => rw [if_pos hc]; omega
    · next hc => rw [if_neg hc]; omega
  | @refuse c frame calls hcalls =>
    have hzero : calls.countP (claims p) = 0 := by
      refine countP_claims_eq_zero ?_
      rcases hcalls with rfl | ⟨rfl, -⟩ <;> simp [Work.claim]
    rw [hzero, toList_some, countP_claims_singleton, Work.claim, one_some]
    split
    · next hc =>
      subst hc
      refine .inr ⟨Nat.le_trans (Nat.le_add_right _ _) (Nat.le_add_right _ _), ?_⟩
      rcases hcalls with rfl | ⟨-, ho⟩
      · exact .inr (mem_singleton_self _)
      · exact .inl ho
    · exact .inl rfl

/-! ## Requests and their connections -/

/-- The requests in the map of a connection are requests of that connection. -/
def Book.Registered (b : Book) : Prop :=
  ∀ (c : Nat) (x : ServerConnection), b.connections[c]? = some x → ∀ entry ∈ x.requests.entries,
    ∃ state, b.states[entry.2]? = some state ∧ state.connection = c

namespace Book

theorem Registered.modify (h : b.Registered) {states : List RequestState} {n : Nat}
    {f : ServerConnection → ServerConnection} (hs : StatesGoOn b.states states)
    (hf : ∀ x, (f x).requests.entries ⊆ x.requests.entries) :
    (Book.mk states (b.connections.modify c f) n).Registered := by
  intro c' y hy entry hentry
  obtain ⟨x, hx, rfl⟩ := getElem?_modify_iff.mp hy
  have hold : entry ∈ x.requests.entries := by
    split at hentry
    · exact hf x hentry
    · exact hentry
  obtain ⟨state, hstate, hc⟩ := h c' x hx entry hold
  obtain ⟨state', hstate', hc', -⟩ := hs _ state hstate
  exact ⟨state', hstate', hc'.trans hc⟩

theorem Registered.states (h : b.Registered) {states : List RequestState} {n : Nat}
    (hs : StatesGoOn b.states states) : (Book.mk states b.connections n).Registered := by
  intro c x hx entry hentry
  obtain ⟨state, hstate, hc⟩ := h c x hx entry hentry
  obtain ⟨state', hstate', hc', -⟩ := hs _ state hstate
  exact ⟨state', hstate', hc'.trans hc⟩

theorem Registered.accept (h : b.Registered) (state : RequestState) (n : Nat) :
    (Book.mk (b.states ++ [state]) (b.connections.modify state.connection fun x =>
      { x with requests := x.requests.insert state.requestId b.states.length }) n).Registered := by
  intro c y hy entry hentry
  have hold : ∀ x, b.connections[c]? = some x → entry ∈ x.requests.entries →
      ∃ state', (b.states ++ [state])[entry.2]? = some state' ∧ state'.connection = c := by
    intro x hx hmem
    obtain ⟨state', hstate', hc⟩ := h c x hx entry hmem
    exact ⟨state', getElem?_append_of_eq_some hstate', hc⟩
  obtain ⟨x, hx, rfl⟩ := getElem?_modify_iff.mp hy
  split at hentry
  · next hc =>
    rw [AList.entries_insert, mem_cons] at hentry
    rcases hentry with rfl | hentry
    · exact ⟨state, getElem?_concat_length, hc⟩
    · exact hold x hx ((kerase_sublist _ _).subset hentry)
  · exact hold x hx hentry

end Book

theorem Entry.registered (h : Entry s k executions b heard w calls) (hr : s.book.Registered) :
    b.Registered := by
  have hsame : ∀ x : ServerConnection, x.requests.entries ⊆ x.requests.entries :=
    fun x => List.Subset.refl _
  cases h with
  | accept _ _ _ _ => exact hr.accept _ _
  | cancel _ _ => exact hr.states (.modify fun _ => ⟨rfl, rfl, id⟩)
  | drain | suspend _ _ | resume _ _ _ | suspendView | resumeView _ _ _ _ | queue _ _ _ =>
    exact hr.modify (.refl _) hsame
  | finish _ _ _ | abandon _ _ _ _ =>
    exact hr.states (.modify fun _ => ⟨rfl, rfl, fun _ => rfl⟩)
  | completeRequest => exact hr.modify (.refl _) fun x => (kerase_sublist _ _).subset
  | close _ => exact hr.modify (.refl _) fun x => nil_subset _
  | _ => exact hr

/-- Request `i` is one of a closed connection. -/
def Book.Detached (b : Book) (i : Nat) : Prop :=
  ∃ state, b.states[i]? = some state ∧ b.IsClosed state.connection

theorem Book.Detached.goesOn {b' : Book} (h : b.Detached i) (hg : b.GoesOn b') : b'.Detached i := by
  obtain ⟨state, hstate, hc⟩ := h
  obtain ⟨state', hstate', hc', -⟩ := hg.states i state hstate
  exact ⟨state', hstate', hc' ▸ hg.connections.isClosed hc⟩

/-- What a thread comes to abandon it had detached from a connection that it closed. -/
theorem Entry.detached (h : Entry s k executions b heard w calls) (hr : s.book.Registered)
    (hw : ∀ x ∈ w, ∀ i ∈ x.abandons, s.book.Detached i) :
    ∀ x ∈ calls, ∀ i ∈ x.abandons, b.Detached i := by
  have hg := h.goesOn
  have hplain : Plain w calls → ∀ x ∈ calls, ∀ i ∈ x.abandons, b.Detached i := by
    intro hp x hx i hi
    obtain ⟨y, hy, hiy⟩ := (hp x hx).2.2 i hi
    exact (hw y hy i hiy).goesOn hg
  intro x hx i hi
  cases h with
  | quiet _ _ hp _ | cancel hp _ => exact hplain hp x hx i hi
  | abandon _ _ hp _ =>
    obtain ⟨y, hy, -⟩ := (hp x hx).2.2 i hi
    cases hy
  | @close c y hy =>
    obtain rfl := mem_singleton.mp hx
    obtain ⟨entry, hentry, rfl⟩ := mem_map.mp hi
    obtain ⟨state, hstate, rfl⟩ := hr c y hy entry hentry
    exact ⟨state, hstate, _, getElem?_modify_self hy, rfl⟩
  | queue _ _ hcalls =>
    rcases hcalls with rfl | rfl
    · cases hx
    · obtain rfl := mem_singleton.mp hx
      exact absurd hi (by simp [abandons])
  | refuse hcalls =>
    rcases hcalls with rfl | ⟨rfl, -⟩
    · obtain rfl := mem_singleton.mp hx
      exact absurd hi (by simp [abandons])
    · cases hx
  | completeRequest =>
    simp only [mem_cons, not_mem_nil, or_false] at hx
    rcases hx with rfl | rfl <;> exact absurd hi (by simp [abandons])
  | suspend _ _ | suspendView => cases hx
  | _ =>
    obtain rfl := mem_singleton.mp hx
    exact absurd hi (by simp [abandons])

theorem Entry.heard_lt {p : Nat × UInt64} (h : Entry s k executions b heard w calls) (hp : p ∈ heard) :
    p.1 < s.connections.length := by
  cases h with
  | reply hx _ | startView hx _ _ | accept hx _ _ _ =>
    obtain rfl := mem_singleton.mp hp
    exact (List.getElem?_eq_some_iff.mp hx).1
  | _ => cases hp

theorem Work.addressed_of_claim (h : x.claim = none) : x.Addressed := by
  cases x <;> trivial

theorem Entry.addressed (h : Entry s k executions b heard w calls) (hw : ∀ x ∈ w, x.Addressed) :
    ∀ x ∈ calls, x.Addressed := by
  intro x hx
  cases h with
  | quiet _ _ hp _ | cancel hp _ | abandon _ _ hp _ =>
    exact addressed_of_claim (hp.claim x hx)
  | reply _ ha | endView ha | resumeView _ _ _ ha =>
    obtain rfl := mem_singleton.mp hx; exact ha.1
  | finish _ _ ha => obtain rfl := mem_singleton.mp hx; exact ha
  | @completeRequest c requestId frame =>
    have ha : Answers requestId frame := hw _ rfl
    simp only [mem_cons, not_mem_nil, or_false] at hx
    rcases hx with rfl | rfl
    · exact ha.1
    · trivial
  | queue _ _ hcalls =>
    rcases hcalls with rfl | rfl
    · cases hx
    · obtain rfl := mem_singleton.mp hx; trivial
  | refuse hcalls =>
    rcases hcalls with rfl | ⟨rfl, -⟩
    · obtain rfl := mem_singleton.mp hx; trivial
    · cases hx
  | suspend _ _ | suspendView => cases hx
  | _ => obtain rfl := mem_singleton.mp hx; trivial

/-! ## The invariant -/

/-- Everything the threads have still to do. -/
def RpcServer.works (s : RpcServer) : List Work := s.threads.flatten

/-- The server `s` accounts for the REQUEST frames it has `received`. -/
structure Accounted (s : RpcServer) (received : List (Nat × UInt64)) : Prop where
  reading : Reading s
  registered : s.book.Registered
  addressed : ∀ x ∈ s.works, x.Addressed
  detached : ∀ x ∈ s.works, ∀ i ∈ x.abandons, s.book.Detached i
  counter : s.inflightCount = s.book.uncompleted + s.book.suspendedViews + s.works.countP isView
  heard : ∀ p ∈ received, p.1 < s.connections.length
  bound : ∀ p, s.book.tally p + s.works.countP (claims p) ≤ received.count p
  /-- On a connection that is not about to be closed no claim has been dropped. -/
  exact : ∀ p, s.book.IsOpen p.1 → .close p.1 ∉ s.works →
    s.book.tally p + s.works.countP (claims p) = received.count p

theorem accounted_init (n : Nat) : Accounted (.init n) [] := by
  have hworks : (init n).works = [] := by simp [works, init]
  have hstack : ∀ {k} {stack}, (init n).threads[k]? = some stack →
      stack = [] := fun h => eq_of_mem_replicate (mem_of_getElem? h)
  have htally : ∀ p, (init n).book.tally p = 0 := fun _ => rfl
  refine ⟨?_, ?_, ?_, ?_, ?_, ?_, ?_, ?_⟩
  · intro k stack hk w hw
    rw [hstack hk] at hw
    cases hw
  · intro c x hx
    exact absurd hx (by simp [init, RpcServer.book])
  · simp [hworks]
  · simp [hworks]
  · rw [hworks]
    rfl
  · simp
  · intro p
    rw [hworks, htally]
    rfl
  · intro p _ _
    rw [hworks, htally]
    rfl

variable {received : List (Nat × UInt64)} {options : RpcServerOptions} {l : Label}

namespace Accounted

section
variable (h : Accounted s received)
include h

theorem attach {new : ServerConnection} (haccount : ∀ requestId, new.account requestId = 0)
    (hviewed : new.viewed = none) (hrequests : new.requests.entries = []) :
    Accounted { s with connections := s.connections ++ [new] } received := by
  have hconn : ConnectionsGoOn s.connections (s.connections ++ [new]) :=
    fun c x hx => ⟨x, getElem?_append_of_eq_some hx, rfl, id⟩
  have htally : ∀ p, (Book.mk s.states (s.connections ++ [new]) s.inflightCount).tally p =
      s.book.tally p := by
    intro p
    refine congrArg (s.book.awaiting p + ·) ?_
    simp only [Book.account, RpcServer.book]
    rcases Nat.lt_trichotomy p.1 s.connections.length with hp | hp | hp
    · rw [getElem?_append_left hp]
    · rw [hp, getElem?_concat_length, getElem?_eq_none (Nat.le_refl _)]
      exact haccount p.2
    · rw [getElem?_eq_none (by simp; omega), getElem?_eq_none (by omega)]
  refine ⟨?_, ?_, h.addressed, ?_, ?_, ?_, ?_, ?_⟩
  · intro k stack hk x hx hxr
    obtain ⟨hs, c, hc, y, hy, ho, hr⟩ := h.reading k stack hk x hx hxr
    exact ⟨hs, c, readerOf_goesOn (.refl _) (.refl _) hc, y, getElem?_append_of_eq_some hy, ho, hr⟩
  · intro c x hx entry hentry
    rcases getElem?_snoc hx with hx | ⟨-, rfl⟩
    · exact h.registered c x hx entry hentry
    · rw [hrequests] at hentry
      cases hentry
  · intro x hx i hi
    exact (h.detached x hx i hi).goesOn ⟨.refl _, hconn⟩
  · have hviews : (Book.mk s.states (s.connections ++ [new]) s.inflightCount).suspendedViews =
        s.book.suspendedViews := by
      simp [Book.suspendedViews, RpcServer.book, hviewed]
    exact hviews.symm ▸ h.counter
  · intro p hp
    have := h.heard p hp
    simp only [length_append]
    omega
  · intro p
    exact (htally p).symm ▸ h.bound p
  · intro p ho hclose
    refine (htally p).symm ▸ ?_
    obtain ⟨x, hx, hc⟩ := ho
    rcases getElem?_snoc hx with hx | ⟨hp, -⟩
    · exact h.exact p ⟨x, hx, hc⟩ hclose
    · -- nothing has been received on a connection that was not there
      have hzero : received.count p = 0 := by
        refine count_eq_zero.mpr fun hmem => ?_
        have := h.heard p hmem
        omega
      have hb := h.bound p
      show s.book.tally p + s.works.countP (claims p) = received.count p
      omega

theorem aside (hb : s'.book = s.book) (hstacks : s'.threads = s.threads)
    (hexec : ExecutionsKept s.executions s'.executions) : Accounted s' received := by
  have hworks : s'.works = s.works := congrArg List.flatten hstacks
  have hstates : s'.states = s.states := congrArg Book.states hb
  have hconn : s'.connections = s.connections := congrArg Book.connections hb
  have hinflight : s'.inflightCount = s.inflightCount := congrArg Book.inflightCount hb
  refine ⟨?_, hb ▸ h.registered, ?_, ?_, ?_, ?_, ?_, ?_⟩
  · intro k stack hk x hx hxr
    rw [hstacks] at hk
    obtain ⟨hs, c, hc, hr⟩ := h.reading k stack hk x hx hxr
    exact ⟨hs, c, readerOf_goesOn (hstates ▸ .refl _) hexec hc, hb ▸ hr⟩
  · exact hworks ▸ h.addressed
  · rw [hworks, hb]
    exact h.detached
  · rw [hinflight, hb, hworks]
    exact h.counter
  · rw [hconn]
    exact h.heard
  · rw [hb, hworks]
    exact h.bound
  · rw [hb, hworks]
    exact h.exact

theorem thread (he : s.Enters k s' heard w calls) (hk : s.threads[k]? = some (w.toList ++ rest))
    (hrest : w = none → rest = []) (hstacks : s'.threads = s.threads.set k (calls ++ rest))
    (hexec : ExecutionsKept s.executions s'.executions)
    (hheard : ∀ p ∈ heard, p.1 < s.connections.length) : Accounted s' (received ++ heard) := by
  have htop := h.reading.top hk
  -- what is on the stacks afterwards is a call or was there before
  have hmem : ∀ {x}, x ∈ s'.works → x ∈ calls ∨ x ∈ s.works := by
    intro x hx
    rw [works, hstacks] at hx
    rcases mem_flatten_set hx with hx | hx
    · rcases List.mem_append.mp hx with hx | hx
      · exact .inl hx
      · exact .inr (mem_flatten.mpr ⟨_, mem_of_getElem? hk, mem_append_right _ hx⟩)
    · exact .inr hx
  have hwmem : ∀ {x}, x ∈ w → x ∈ s.works := by
    intro x hx
    refine mem_flatten.mpr ⟨_, mem_of_getElem? hk, mem_append_left _ ?_⟩
    exact mem_toList.mpr hx
  have hcount : ∀ f : Work → Bool,
      s'.works.countP f + w.toList.countP f = s.works.countP f + calls.countP f := by
    intro f
    have := countP_flatten_set f (calls ++ rest) hk
    rw [countP_append, countP_append] at this
    rw [works, works, hstacks]
    omega
  have hwcount : ∀ f : Work → Bool, w.toList.countP f ≤ s.works.countP f := by
    intro f
    cases w with
    | none => exact Nat.zero_le _
    | some x =>
      by_cases hf : f x = true
      · have hpos := countP_pos_iff.mpr ⟨x, hwmem rfl, hf⟩
        simpa [hf] using hpos
      · simp [hf]
  have hbalance := he.balance htop (fun x hx => h.addressed x (hwmem hx)) (by
    intro x hx i hi state hstate
    obtain ⟨state', hstate', hc⟩ := h.detached x (hwmem hx) i hi
    cases hstate.symm.trans hstate'
    exact hc)
  refine ⟨h.reading.thread he hk hrest hstacks hexec, he.registered h.registered, ?_, ?_, ?_, ?_,
    ?_, ?_⟩
  · intro x hx
    rcases hmem hx with hx | hx
    · exact he.addressed (fun y hy => h.addressed y (hwmem hy)) x hx
    · exact h.addressed x hx
  · intro x hx i hi
    rcases hmem hx with hx | hx
    · exact he.detached h.registered (fun y hy => h.detached y (hwmem hy)) x hx i hi
    · exact (h.detached x hx i hi).goesOn he.goesOn
  · have hc := he.counter htop h.counter (hwcount _)
    have hw := hcount isView
    show s'.book.inflightCount = _
    omega
  · intro p hp
    have hlen : s'.connections.length = s.connections.length := he.length
    rw [hlen]
    rcases List.mem_append.mp hp with hp | hp
    · exact h.heard p hp
    · exact hheard p hp
  · intro p
    have hb := h.bound p
    have hw := hcount (claims p)
    rw [count_append]
    rcases hbalance p with heq | ⟨hle, -⟩ <;> omega
  · intro p ho hclose
    have hw := hcount (claims p)
    rw [count_append]
    -- the connection was open, and nobody was about to close it
    have hbefore : .close p.1 ∉ s.works := by
      intro hmemc
      rw [works, hstacks] at hclose
      rcases mem_flatten_of_set hk hmemc with hx | hx
      · rcases List.mem_append.mp hx with hx | hx
        · obtain rfl := mem_def.mp (mem_toList.mp hx)
          exact he.closes ho
        · exact hclose (mem_flatten_set_self hk (mem_append_right _ hx))
      · exact hclose hx
    have hexact := h.exact p (he.isOpen_of ho) hbefore
    rcases hbalance p with heq | ⟨-, hnot | hcall⟩
    · omega
    · exact absurd ho hnot
    · refine absurd ?_ hclose
      rw [works, hstacks]
      exact mem_flatten_set_self hk (mem_append_left _ hcall)

theorem step (hs : s.step options l = some s') :
    Accounted s' (received ++ heardBy l) := by
  obtain ⟨_, he, -⟩ := step_effect options hs
  have hexec := he.executionsKept
  cases step_entry hs with
  | attach owner callerScope hsilent heq =>
    rw [hsilent, append_nil, heq]
    exact h.attach (fun _ => rfl) rfl rfl
  | aside hsilent hb hstacks =>
    rw [hsilent, append_nil]
    exact h.aside hb hstacks hexec
  | thread k w rest calls _ hk hrest hentry hstacks =>
    exact h.thread hentry hk hrest hstacks hexec fun p => hentry.heard_lt

end

end Accounted

end CoroRpc.Server
