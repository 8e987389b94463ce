import CoroRpc.Server.Effects

/-!
# The ledger of the request path

Every REQUEST frame that a connection receives is answered at once, or becomes a `RequestState`, or
is served by the inline view handler; sooner or later it leads to one RESPONSE frame. Until then
something has a claim on that frame: the request while it is not completed, the work of a thread
between completing the request and queueing the frame, or the reader that a view handler has
suspended. `inflight_count_` counts some of these claims.

The `Book` is what they are read from: requests, connections and the counter. `Entry` says once what
a step does to the book and to the stack of the thread that takes it; the invariants of the request
path are then case analyses of `Entry`.
-/

namespace CoroRpc.Server

open Lib Protocol List Option Work

/-! ## Claims -/

/-- The RESPONSE that the work leads to: connection and request id. -/
def Work.claim : Work → Option (Nat × UInt64)
  | .view c requestId _ => some (c, requestId)
  | .completeRequest c requestId _ => some (c, requestId)
  | .queueFrame c frame => some (c, frame.header.requestId)
  | _ => none

def Work.isView : Work → Bool
  | .view .. => true
  | _ => false

/-- Work of an `OnFrame` that may come to suspend the reader it runs in. -/
def Work.isReading : Work → Bool
  | .view .. | .lookUp .. | .execute _ => true
  | _ => false

/-- The requests that the work is about to abandon. -/
def Work.abandons : Work → List Nat
  | .abandonAll requests => requests
  | .abandon i => [i]
  | _ => []

/-- Work that leads to no RESPONSE of its own and abandons nothing. -/
def Work.isIdle : Work → Bool
  | .complete _ | .finish .. | .finishWaiters .. | .maybeCloseAfterDrain _ | .close _ => true
  | _ => false

theorem Work.ne_dropWaiter {x : Work} (h : x.isIdle = true) (i : Nat) : x ≠ .dropWaiter i := by
  rintro rfl
  exact absurd h (by simp [isIdle])

/-- The RESPONSE that the request waits for. -/
def RequestState.claim (x : RequestState) : Option (Nat × UInt64) :=
  if x.completed then none else some (x.connection, x.requestId)

/-- The request whose view handler the reader is suspended in. -/
def ServerConnection.viewed (x : ServerConnection) : Option UInt64 :=
  match x.reader with
  | some (.view requestId _) => some requestId
  | _ => none

/-! ## The book -/

/-- The part of the server that claims are read from. -/
structure Book where
  states : List RequestState
  connections : List ServerConnection
  inflightCount : Nat

def RpcServer.book (s : RpcServer) : Book := ⟨s.states, s.connections, s.inflightCount⟩

def Book.IsOpen (b : Book) (c : Nat) : Prop :=
  ∃ x, b.connections[c]? = some x ∧ x.closed = false

theorem Book.not_isOpen {b : Book} {c : Nat} {x : ServerConnection}
    (hx : b.connections[c]? = some x) (hc : x.closed = true) : ¬ b.IsOpen c := by
  rintro ⟨y, hy, ho⟩
  cases hx.symm.trans hy
  cases hc.symm.trans ho

namespace Book

def setReader (b : Book) (c : Nat) (reader : Option Suspended) : Book :=
  { b with connections := b.connections.modify c fun x => { x with reader := reader } }

/-- Request `i` is completed; its context is cancelled as well where `b'` says so. -/
def complete (b : Book) (i : Nat) (b' : Bool) : Book :=
  { b with
    states := b.states.modify i fun x => { x with completed := true, cancelled := x.cancelled || b' }
    inflightCount := subSize b.inflightCount 1 }

end Book

/-- Calls that lead to no RESPONSE, read nothing and abandon only what `w` was to abandon. -/
def Plain (w : Option Work) (calls : List Work) : Prop :=
  ∀ x ∈ calls, x.claim = none ∧ x.isReading = false ∧ ∀ i ∈ x.abandons, ∃ y ∈ w, i ∈ y.abandons

/-- What a step on shard `k` enters in the book, when it takes `w` from the shard's stack and puts
    `calls` there instead. `heard` are the REQUEST frames it received. -/
inductive Entry (s : RpcServer) (k : Nat) (executions' : List Execution) :
    Book → List (Nat × UInt64) → Option Work → List Work → Prop
  | quiet {w calls} (hw : ∀ x ∈ w, x.claim = none)
      (hclose : ∀ c, w = some (.close c) → ¬ s.book.IsOpen c) (plain : Plain w calls)
      (drops : ∀ x ∈ calls, ∀ i, x ≠ .dropWaiter i) : Entry s k executions' s.book [] w calls
  | reply {c x requestId frame} (found : s.connections[c]? = some x)
      (answers : Answers requestId frame) :
      Entry s k executions' s.book [(c, requestId)] none [.queueFrame c frame]
  | startView {c x requestId deadlineMs} (found : s.connections[c]? = some x)
      (owner : x.owner = k) (idle : x.reader = none) :
      Entry s k executions' { s.book with inflightCount := s.inflightCount + 1 } [(c, requestId)]
        none [.view c requestId deadlineMs]
  | accept {x} {state : RequestState} {mode} (found : s.connections[state.connection]? = some x)
      (owner : x.owner = k) (idle : x.reader = none) (new : state.completed = false) :
      Entry s k executions'
        { states := s.states ++ [state]
          connections := s.connections.modify state.connection fun x =>
            { x with requests := x.requests.insert state.requestId s.states.length }
          inflightCount := s.inflightCount + 1 }
        [(state.connection, state.requestId)] none [.lookUp s.states.length mode]
  | cancel {i r calls} (plain : Plain none calls)
      (hcalls : calls = [.finish i r] ∨ calls = [.dropWaiter i, .finish i r]) :
      Entry s k executions'
        { s.book with states := s.states.modify i fun x => { x with cancelled := true } } [] none calls
  | drain {c} :
      Entry s k executions'
        { s.book with connections := s.connections.modify c fun x => { x with draining := true } } []
        none [.maybeCloseAfterDrain c]
  /-- An execution begins, in the `OnFrame` of its request. -/
  | start {i mode x} (executions : executions' = s.executions ++ [x]) (request : x.request = i) :
      Entry s k executions' s.book [] (some (.lookUp i mode)) [.execute s.executions.length]
  /-- A handler suspends the reader of its connection. -/
  | suspend {e x state} (found : s.executions[e]? = some x)
      (request : s.states[x.request]? = some state) :
      Entry s k executions' (s.book.setReader state.connection (some (.handler e))) []
        (some (.execute e)) []
  | resume {c e x} (found : s.connections[c]? = some x) (owner : x.owner = k)
      (reader : x.reader = some (.handler e)) :
      Entry s k executions' (s.book.setReader c none) [] none [.complete e]
  | endView {c requestId deadlineMs frame} (answers : Answers requestId frame) :
      Entry s k executions' { s.book with inflightCount := subSize s.inflightCount 1 } []
        (some (.view c requestId deadlineMs)) [.queueFrame c frame]
  | suspendView {c requestId deadlineMs} :
      Entry s k executions' (s.book.setReader c (some (.view requestId deadlineMs))) []
        (some (.view c requestId deadlineMs)) []
  | resumeView {c x requestId deadlineMs frame} (found : s.connections[c]? = some x)
      (owner : x.owner = k) (reader : x.reader = some (.view requestId deadlineMs))
      (answers : Answers requestId frame) :
      Entry s k executions'
        { s.book.setReader c none with inflightCount := subSize s.inflightCount 1 } [] none
        [.queueFrame c frame]
  | finish {i x r frame cancels} (found : s.states[i]? = some x) (was : x.completed = false)
      (answers : Answers x.requestId frame) :
      Entry s k executions' (s.book.complete i cancels) [] (some (.finish i r))
        [.completeRequest x.connection x.requestId frame]
  | abandon {i x calls} (found : s.states[i]? = some x) (was : x.completed = false)
      (plain : Plain none calls) (hcalls : calls = [] ∨ calls = [.dropWaiter i]) :
      Entry s k executions' (s.book.complete i true) [] (some (.abandon i)) calls
  | completeRequest {c requestId frame} :
      Entry s k executions'
        { s.book with
          connections := s.connections.modify c fun x =>
            { x with requests := x.requests.erase requestId } }
        [] (some (.completeRequest c requestId frame)) [.queueFrame c frame, .maybeCloseAfterDrain c]
  | queue {c x frame calls} (found : s.connections[c]? = some x) (isOpen : x.closed = false)
      (hcalls : calls = [] ∨ calls = [.close c]) :
      Entry s k executions'
        { s.book with
          connections := s.connections.modify c fun x => { x with queued := x.queued ++ [frame] } }
        [] (some (.queueFrame c frame)) calls
  /-- A frame is not queued: the connection is closed, or about to be. -/
  | refuse {c frame calls} (hcalls : calls = [.close c] ∨ calls = [] ∧ ¬ s.book.IsOpen c) :
      Entry s k executions' s.book [] (some (.queueFrame c frame)) calls
  | close {c x} (found : s.connections[c]? = some x) :
      Entry s k executions'
        { s.book with
          connections := s.connections.modify c fun x => { x with closed := true, requests := ∅ } }
        [] (some (.close c)) [.abandonAll (x.requests.entries.map fun entry => entry.2)]

/-- The step from `s` to `s'` makes the entry. -/
abbrev RpcServer.Enters (s : RpcServer) (k : Nat) (s' : RpcServer) (heard : List (Nat × UInt64))
    (w : Option Work) (calls : List Work) : Prop :=
  Entry s k s'.executions s'.book heard w calls

namespace RpcServer

variable {options : RpcServerOptions} {s s' : RpcServer} {calls : List Work} {k : Nat}

/-! ## A thread's work -/

theorem plain_nil (w : Option Work) : Plain w [] := by
  intro x hx
  cases hx

theorem plain_of_idle {w : Option Work} (h : ∀ x ∈ calls, x.isIdle = true) : Plain w calls := by
  intro x hx
  have hi := h x hx
  cases x <;> simp_all [isIdle, claim, isReading, abandons]

theorem entry_quiet {w : Work} (hw : w.claim = none) (hclose : ∀ c, w ≠ .close c)
    (book : s'.book = s.book) (hcalls : ∀ x ∈ calls, x.isIdle = true) :
    s.Enters k s' [] (some w) calls := by
  rw [RpcServer.Enters, book]
  refine .quiet ?_ ?_ (plain_of_idle hcalls) (fun x hx => ne_dropWaiter (hcalls x hx))
  · intro x hx
    obtain rfl := mem_some_iff.mp hx
    exact hw
  · intro c heq
    exact absurd (some.inj heq) (hclose c)

theorem entry_begin (book : s'.book = s.book) (hcalls : ∀ x ∈ calls, x.isIdle = true) :
    s.Enters k s' [] none calls := by
  rw [RpcServer.Enters, book]
  exact .quiet (by simp) (by simp) (plain_of_idle hcalls) fun x hx => ne_dropWaiter (hcalls x hx)

end RpcServer

open RpcServer in
theorem Move.entry {options : RpcServerOptions} {s s' : RpcServer} {k : Nat}
    {heard : List (Nat × UInt64)} {w : Option Work} {calls : List Work}
    (h : Move options s k heard w s' calls) : s.Enters k s' heard w calls := by
  cases h with
  | start _ _ | acquire _ _ _ => exact .start rfl rfl
  | answer _ _ _ _ hcalls =>
    refine entry_quiet rfl (by simp) rfl ?_
    rcases hcalls with ⟨-, rfl⟩ | ⟨r, rfl, -⟩ <;> simp [isIdle]
  | suspend hx _ hstate => exact .suspend hx hstate
  | endView ha => exact .endView ha
  | suspendView => exact .suspendView
  | finish hx hc ha _ => exact .finish hx hc ha
  | completeRequest => exact .completeRequest
  | queue hx ho hcalls => exact .queue hx ho hcalls
  | refuse hx hcalls =>
    exact .refuse (hcalls.imp_right fun h => ⟨h.1, Book.not_isOpen hx h.2⟩)
  | maybeClose hcalls =>
    refine entry_quiet rfl (by simp) rfl ?_
    rcases hcalls with rfl | rfl <;> simp [isIdle]
  | closed hx hc =>
    refine .quiet (by simp [claim]) ?_ (plain_nil _) (by simp)
    intro c' heq
    obtain rfl := close.inj (some.inj heq)
    exact Book.not_isOpen hx hc
  | close hx => exact .close hx
  | abandonNext hi =>
    refine .quiet (by simp [claim]) (by simp) ?_ (by simp)
    intro x hx
    simp only [mem_cons, not_mem_nil, or_false] at hx
    rcases hx with rfl | rfl
    · refine ⟨rfl, rfl, fun j hj => ⟨_, rfl, ?_⟩⟩
      obtain rfl := mem_singleton.mp hj
      exact mem_of_getElem? hi
    · exact ⟨rfl, rfl, fun j hj => ⟨_, rfl, mem_of_mem_eraseIdx hj⟩⟩
  | abandon hx hc hcalls =>
    have hplain : Plain none calls := by
      rcases hcalls with rfl | rfl <;> simp [Plain, claim, isReading, abandons]
    have h : Entry s k s.executions _ [] _ calls := .abandon hx hc hplain hcalls
    simp only [Book.complete, Bool.or_true] at h
    exact h
  | pass hcalls =>
    have hidle : ∀ x ∈ calls, x.isIdle = true := by
      rcases hcalls with rfl | ⟨c, rfl⟩ <;> simp [isIdle]
    exact entry_begin rfl hidle
  | cancel hcalls =>
    refine .cancel ?_ hcalls
    rcases hcalls with rfl | rfl <;> simp [Plain, claim, isReading, abandons]
  | reply hx ha => exact .reply hx ha
  | startView hx ho hidle => exact .startView hx ho hidle
  | accept hx ho hidle hnew =>
    obtain ⟨hc, rfl, rfl⟩ := hnew
    exact .accept hx ho hidle hc
  | resume hx ho hr _ _ _ => exact .resume hx ho hr
  | resumeView hx ho hr ha => exact .resumeView hx ho hr ha
  | drain => exact .drain
  | _ => exact entry_quiet rfl (by simp) rfl (by simp [isIdle])

/-! ## Whole steps -/

/-- A whole step, for the book and for the stacks. -/
inductive StepEntry (s : RpcServer) (l : Label) (s' : RpcServer) : Prop
  | attach (owner : Nat) (callerScope : Bytes) (silent : RpcServer.heardBy l = [])
      (eq : s' = { s with
        connections := s.connections ++ [{ owner := owner, callerScope := callerScope }] })
  /-- Neither the book nor a stack changes. -/
  | aside (silent : RpcServer.heardBy l = []) (book : s'.book = s.book) (threads : s'.threads = s.threads)
  /-- Shard `k` takes `w` from its stack, or begins with an empty one. -/
  | thread (k : Nat) (w : Option Work) (rest calls : List Work)
      (work : s.workOf l = w) (top : s.threads[k]? = some (w.toList ++ rest))
      (begins : w = none → rest = []) (entry : s.Enters k s' (RpcServer.heardBy l) w calls)
      (threads : s'.threads = s.threads.set k (calls ++ rest))

open RpcServer in
theorem RpcServer.step_entry {options : RpcServerOptions} {s s' : RpcServer} {l : Label}
    (h : s.step options l = some s') : StepEntry s l s' := by
  cases step_turn h with
  | attach ha owner callerScope => exact .attach owner callerScope ha.2 rfl
  | still ha _ _ | worker ha _ _ _ _ _ => exact .aside ha.2 rfl rfl
  | @take ha _ k m _ hk =>
    have hidle : ∀ x ∈ messageWork m, x.isIdle = true := by
      cases m <;> simp [messageWork, isIdle]
    refine .thread k none [] (messageWork m) ha.1 hk (fun _ => rfl) ?_ (by simp)
    rw [ha.2]
    exact entry_begin rfl hidle
  | thread hw hk hb hmove => exact .thread _ _ _ _ hw hk hb hmove.entry rfl

end CoroRpc.Server
