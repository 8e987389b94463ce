import CoroRpc.Client.Connection
import CoroRpc.Lib.Table
import Mathlib.Data.List.Nodup

/-!
# The invariant of a connection and its call stack

What is true of a `MultiplexedConnection` between any two pieces of code, as long as no write
fails under a call that is still on its way to its `Yield` (`CallCompletion` has the condition).

`Stacked` is about the call stack: who may run on top of whom. A caller that has not yielded yet
has at most the writer above it, at its loop or at a `write`. Code in the middle of
`CompleteAllPending` has only user code above it, and a writer that is about to end. `Ledger` is
about the calls: which are in `pending_calls_`, which are completed. `Place` says where the
coroutine of a pending call is, and in particular that a caller which is suspended although its
call is completed is in the hands of code that is about to resume it.

Each operation of the connection comes with one lemma that says under which conditions it keeps
the invariant. The conditions mention the code of the running coroutine only.
-/

namespace CoroRpc.Client

open Lib Protocol CoroRpc.Runtime List Option Function Op

/-! ## Continuations -/

namespace Op

def isLoop : Op → Bool
  | .completeAll .. => true
  | _ => false

def isResume : Op → Bool
  | .resume _ => true
  | _ => false

def isYield : Op → Bool
  | .yieldCall .. => true
  | _ => false

def isStart : Op → Bool
  | .startReader | .startWriter => true
  | _ => false

/-- Nothing is ever put on top of these: they give up control, or go on with other code. -/
def isAlone : Op → Bool
  | .write _ | .yieldCall .. | .callResumed _ => true
  | _ => false

/-- The call that the piece of `CallEncoded` is about. -/
def callId : Op → Option UInt64
  | .yieldCall _ id | .callResumed id | .callEnd id => some id
  | _ => none

end Op

/-- The continuations of a running coroutine. The bodies of the two loops and of `CallEncoded` are
    at the bottom; only the reader and the writer fail the connection; `CompletePending` does not
    nest in one coroutine. -/
def WellFormed (fiber : Bool) : List Op → Prop
  | [] => fiber = false
  | op :: rest =>
    match op with
    | .readerLoop | .read _ | .readAwaited _ | .decodeNext | .readerCheck | .readerEnd
    | .writerLoop | .write _ | .writeAwaited _ | .writerEnd => fiber = true ∧ rest = []
    | .yieldCall .. | .callResumed _ | .callEnd _ => fiber = false ∧ rest = []
    | .failConnection _ =>
      fiber = true ∧ (rest = [.readerEnd] ∨ rest = [.readerCheck] ∨ rest = [.writerEnd])
    | .resume _ | .completeAll .. =>
      rest ≠ [.writerLoop] ∧ rest.any isResume = false ∧ rest.any isAlone = false ∧
        WellFormed fiber rest
    | .returned _ => rest.any isAlone = false ∧ WellFormed fiber rest
    | .maybeFinishDrain => fiber = false ∧ rest.any isAlone = false ∧ WellFormed fiber rest
    | .startReader => fiber = false ∧ rest = [.startWriter]
    | .startWriter => fiber = false ∧ rest = []

/-- The continuations of a coroutine that does not run. -/
inductive Rests : Coroutine → Prop
  | user {x : Coroutine} (fiber : x.fiber = false) (code : x.code = []) : Rests x
  | call {x : Coroutine} (fiber : x.fiber = false) (id : UInt64) (code : x.code = [.callResumed id]) :
    Rests x
  | ended {x : Coroutine} (fiber : x.fiber = true) (state : x.state = .finished)
    (code : x.code = []) : Rests x
  | reader {x : Coroutine} (fiber : x.fiber = true) (state : x.state ≠ .waitEvent) (op : Op)
    (hop : op = .readerLoop ∨ ∃ o, op = .readAwaited o) (code : x.code = [op]) : Rests x
  | writer {x : Coroutine} (fiber : x.fiber = true) (op : Op)
    (hop : op = .writerLoop ∨ (x.state ≠ .waitEvent ∧ ∃ o, op = .writeAwaited o))
    (code : x.code = [op]) : Rests x

structure Shape (x : Coroutine) : Prop where
  runs : x.state = .running → WellFormed x.fiber x.code
  rests : x.state ≠ .running → Rests x

namespace Rests

variable {x : Coroutine}

theorem quiet (h : Rests x) : x.code.any isLoop = false ∧ x.code.any isResume = false ∧
    x.code.any isYield = false ∧ x.code.any isStart = false := by
  cases h with
  | user _ code | call _ _ code | ended _ _ code => rw [code]; simp [isLoop, isResume,
      isYield, isStart]
  | reader _ _ op hop code =>
    rcases hop with rfl | ⟨o, rfl⟩ <;>
      rw [code] <;> simp [isLoop, isResume, isYield, isStart]
  | writer _ op hop code =>
    rcases hop with rfl | ⟨-, o, rfl⟩ <;>
      rw [code] <;> simp [isLoop, isResume, isYield, isStart]

theorem wellFormed (h : Rests x) (hx : x.state ≠ .finished) : WellFormed x.fiber x.code := by
  cases h with
  | user fiber code | call fiber _ code => simp [code, fiber, WellFormed]
  | ended _ state _ => exact absurd state hx
  | reader fiber _ op hop code =>
    rcases hop with rfl | ⟨o, rfl⟩ <;> simp [code, fiber, WellFormed]
  | writer fiber op hop code =>
    rcases hop with rfl | ⟨-, o, rfl⟩ <;> simp [code, fiber, WellFormed]

/-- The writer suspends in `Yield` at the head of its loop only. -/
theorem writerLoop (h : Rests x) (hf : x.fiber = true) (hx : x.state = .waitEvent) :
    x.code = [.writerLoop] := by
  cases h with
  | user fiber _ | call fiber _ _ => cases fiber.symm.trans hf
  | ended _ state _ => cases state.symm.trans hx
  | reader _ state _ _ _ => exact absurd hx state
  | writer _ op hop code =>
    rcases hop with rfl | ⟨hne, -⟩
    · exact code
    · exact absurd hx hne

/-- A state that is not `WAIT_EVENT` or `RUNNING` is as good as any other. -/
theorem setState (h : Rests x) {y : Coroutine} (hf : y.fiber = x.fiber) (hc : y.code = x.code)
    (hx : x.state ≠ .finished) (hy : y.state ≠ .waitEvent) : Rests y := by
  cases h with
  | user fiber code => exact .user (hf.trans fiber) (hc.trans code)
  | call fiber id code => exact .call (hf.trans fiber) id (hc.trans code)
  | ended _ state _ => exact absurd state hx
  | reader fiber _ op hop code => exact .reader (hf.trans fiber) hy op hop (hc.trans code)
  | writer fiber op hop code =>
    exact .writer (hf.trans fiber) op (hop.imp_right fun h => ⟨hy, h.2⟩) (hc.trans code)

end Rests

/-! ## The call stack -/

/-- `x` may run on top of `y`, directly or not. -/
structure Over (st : ConnectionState) (x y : Coroutine) : Prop where
  /-- `y` is in the `WakeWriter` of `CallEncoded`. -/
  yields : y.code.any isYield = true →
    x.fiber = true ∧ (x.code = [.writerLoop] ∨ ∃ o, x.code = [.write o])
  /-- `y` is in the loop of `CompleteAllPending`. -/
  loops : y.code.any isLoop = true → (x.fiber = false ∧ x.code.any isStart = false) ∨
      (x.fiber = true ∧ x.code = [.writerLoop] ∧ st = .closed)
  /-- `y` is in the `MaybeFinishDrain` of `CompletePending`. -/
  resumes : y.code.any isResume = true → x.fiber = true ∧ x.code = [.writerLoop] ∧ st = .closed

theorem Over.mono {st st' : ConnectionState} {x y : Coroutine} (h : Over st x y)
    (hst : st = .closed → st' = .closed) : Over st' x y :=
  ⟨h.yields, fun hl => (h.loops hl).imp_right fun ⟨hf, hc, hs⟩ => ⟨hf, hc, hst hs⟩,
    fun hr => ⟨(h.resumes hr).1, (h.resumes hr).2.1, hst (h.resumes hr).2.2⟩⟩

theorem Over.user {st : ConnectionState} {x y : Coroutine} (hf : x.fiber = false)
    (hs : x.code.any isStart = false) (hy : y.code.any isYield = false)
    (hr : y.code.any isResume = false) : Over st x y :=
  ⟨fun h => absurd (hy.symm.trans h) (by simp), fun _ => .inl ⟨hf, hs⟩,
    fun h => absurd (hr.symm.trans h) (by simp)⟩

theorem Over.quiet {st : ConnectionState} {x y : Coroutine} (hl : y.code.any isLoop = false)
    (hy : y.code.any isYield = false) (hr : y.code.any isResume = false) : Over st x y :=
  ⟨fun h => absurd (hy.symm.trans h) (by simp), fun h => absurd (hl.symm.trans h) (by simp),
    fun h => absurd (hr.symm.trans h) (by simp)⟩

structure Stacked (st : ConnectionState) (cos : List Coroutine) (stack : List Nat) : Prop where
  nodup : stack.Nodup
  bound : ∀ c ∈ stack, c < cos.length
  running : ∀ (c : Nat) (x : Coroutine), cos[c]? = some x → (x.state = .running ↔ c ∈ stack)
  shape : ∀ (c : Nat) (x : Coroutine), cos[c]? = some x → Shape x
  onTop : stack.Pairwise fun a b => ∀ x y, cos[a]? = some x → cos[b]? = some y → Over st x y
  yields : ∀ (c : Nat) (x : Coroutine), cos[c]? = some x → x.code.any isYield = true → st = .ready

/-! ## Calls -/

/-- What the invariant knows of an entry of `pending_calls_`. -/
structure Entry where
  coroutine : Nat
  requestId : UInt64
  completed : Bool
  serial : Nat

def PendingCall.entry (p : PendingCall) : Entry := ⟨p.coroutine, p.requestId, p.completed, p.serial⟩

def MultiplexedConnection.entries (s : MultiplexedConnection) : List Entry :=
  s.pendingCalls.map PendingCall.entry

structure Ledger (entries : List Entry) (calls : Nat) (completions : List Nat) : Prop where
  ids : (entries.map Entry.requestId).Nodup
  serials : (entries.map Entry.serial).Nodup
  completed : ∀ e ∈ entries, e.completed = true ↔ e.serial ∈ completions
  bound : ∀ e ∈ entries, e.serial < calls
  logged : ∀ n < calls, n ∈ completions ∨ n ∈ entries.map Entry.serial
  past : ∀ n ∈ completions, n < calls
  once : completions.Nodup

/-- Where the coroutine `y` of a pending call is. `hand` are the coroutines that the code which
    runs is about to resume. -/
inductive Place (cos : List Coroutine) (stack : List Nat) (hand : Nat → Prop) (e : Entry)
    (y : Coroutine) : Prop
  | calling (t : Bool) (pending : e.completed = false) (code : y.code = [.yieldCall t e.requestId])
  | queued (state : y.state = .ready) (code : y.code = [.callResumed e.requestId])
  | parked (state : y.state = .waitEvent ∨ y.state = .waitTimer)
    (code : y.code = [.callResumed e.requestId])
    (inHand : e.completed = true → hand e.coroutine ∨
      ∃ (d : Nat) (z : Coroutine), cos[d]? = some z ∧ .resume e.coroutine ∈ z.code)
  | resumed (state : y.state = .running) (code : y.code = [.callResumed e.requestId])
    (top : stack.head? = some e.coroutine)
  | ending (state : y.state = .running) (done : e.completed = true)
    (code : y.code.getLast? = some (.callEnd e.requestId))

def Placed (cos : List Coroutine) (stack : List Nat) (hand : Nat → Prop) (e : Entry) : Prop :=
  ∃ y, cos[e.coroutine]? = some y ∧ y.fiber = false ∧ Place cos stack hand e y

/-- The coroutine of the call is suspended inside `CallEncoded`, or ready to go on there. -/
def Suspended (cos : List Coroutine) (e : Entry) : Prop :=
  ∃ y, cos[e.coroutine]? = some y ∧ y.fiber = false ∧ y.code = [.callResumed e.requestId] ∧
    (y.state = .ready ∨ y.state = .waitEvent ∨ y.state = .waitTimer)

/-- What a piece of code of coroutine `c` relies on until it runs. -/
def OpOk (st : ConnectionState) (cos : List Coroutine) (entries : List Entry) (calls : Nat)
    (completions : List Nat) (c : Nat) : Op → Prop
  | .completeAll ids _ inClose entry =>
    (st = .closed ∨ (st = .closing ∧ inClose = true)) ∧
    (∀ e ∈ entries, e.completed = false → e.requestId ∈ ids) ∧ ∀ n ∈ entry, n < calls
  | .resume d => ∃ e ∈ entries, e.coroutine = d ∧ Suspended cos e
  | .returned entry => ∀ n ∈ entry, n ∈ completions
  | .yieldCall _ id | .callResumed id | .callEnd id =>
    ∃ e ∈ entries, e.requestId = id ∧ e.coroutine = c
  | _ => True

structure Inv (s : MultiplexedConnection) (hand : Nat → Prop) : Prop where
  stacked : Stacked s.state s.coroutines s.callStack
  ledger : Ledger s.entries s.calls s.completions
  fibers : ∀ w, s.reader = some w ∨ s.writer = some w →
    ∃ x, s.coroutines[w]? = some x ∧ x.fiber = true
  placed : ∀ e ∈ s.entries, Placed s.coroutines s.callStack hand e
  ops : ∀ (c : Nat) (x : Coroutine), s.coroutines[c]? = some x → ∀ op ∈ x.code,
    OpOk s.state s.coroutines s.entries s.calls s.completions c op
  /-- A closed connection with unfinished calls is about to complete them. -/
  failing : s.state = .closed → ∀ e ∈ s.entries, e.completed = false →
    ∃ c ∈ s.callStack, ∃ x, s.coroutines[c]? = some x ∧ x.code.any isLoop = true
  fresh : s.state = .disconnected → s.entries = []

/-- What the invariant reads of a connection, but the calls. -/
def MultiplexedConnection.frame (s : MultiplexedConnection) :
    ConnectionState × List Coroutine × List Nat × Option Nat × Option Nat × List Nat :=
  (s.state, s.coroutines, s.callStack, s.reader, s.writer, s.completions)

/-- No coroutine is on its way to the `Yield` of a call. -/
def NoYield (cos : List Coroutine) : Prop :=
  ∀ (d : Nat) y, cos[d]? = some y → y.code.any isYield = false

/-! ## Moves on the call stack -/

namespace Stacked

variable {st : ConnectionState} {cos : List Coroutine} {stack below : List Nat} {c : Nat}
  {x : Coroutine}

def Ordered (st : ConnectionState) (cos : List Coroutine) (stack : List Nat) : Prop :=
  stack.Pairwise fun a b => ∀ x y, cos[a]? = some x → cos[b]? = some y → Over st x y

theorem Ordered.back {cos' : List Coroutine} (h : Ordered st cos stack)
    (hback : ∀ b ∈ stack, ∀ y, cos'[b]? = some y → cos[b]? = some y) : Ordered st cos' stack :=
  h.imp_of_mem fun ha hb hab y z hy hz => hab y z (hback _ ha y hy) (hback _ hb z hz)

theorem top_running (h : Stacked st cos (c :: below)) (hx : cos[c]? = some x) :
    x.state = .running :=
  (h.running c x hx).mpr mem_cons_self

theorem ne_below (h : Stacked st cos (c :: below)) {b : Nat} (hb : b ∈ below) : c ≠ b := by
  rintro rfl
  exact (nodup_cons.mp h.nodup).1 hb

theorem over_below (h : Stacked st cos (c :: below)) (hx : cos[c]? = some x) {b : Nat}
    {y : Coroutine} (hb : b ∈ below) (hy : cos[b]? = some y) : Over st x y :=
  (pairwise_cons.mp h.onTop).1 b hb x y hx hy

theorem mem_of_any (h : Stacked st cos stack) (hx : cos[c]? = some x)
    (hc : x.code.any isLoop = true ∨ x.code.any isResume = true ∨
      x.code.any isYield = true) : c ∈ stack := by
  rw [← h.running c x hx]
  by_contra hr
  obtain ⟨hl, hre, hy, -⟩ := ((h.shape c x hx).rests hr).quiet
  simp [hl, hre, hy] at hc

/-- What the fields of `Stacked` say coroutine by coroutine has to be shown of those that are not
    as they were. -/
theorem change {cos' : List Coroutine} {stack' : List Nat} (h : Stacked st cos stack)
    (hnodup : stack'.Nodup) (hbound : ∀ d ∈ stack', d < cos'.length)
    (hcos : ∀ d y, cos'[d]? = some y → (cos[d]? = some y ∧ (d ∈ stack ↔ d ∈ stack')) ∨
      ((y.state = .running ↔ d ∈ stack') ∧ Shape y ∧ (y.code.any isYield = true → st = .ready)))
    (hordered : Ordered st cos' stack') : Stacked st cos' stack' where
  nodup := hnodup
  bound := hbound
  running d y hy := (hcos d y hy).elim (fun hold => (h.running d y hold.1).trans hold.2) (·.1)
  shape d y hy := (hcos d y hy).elim (fun hold => h.shape d y hold.1) (·.2.1)
  onTop := hordered
  yields d y hy := (hcos d y hy).elim (fun hold => h.yields d y hold.1) (·.2.2)

theorem setCode (h : Stacked st cos (c :: below)) (hx : cos[c]? = some x) {code : List Op}
    (hwf : WellFormed x.fiber code)
    (hover : ∀ b y, b ∈ below → cos[b]? = some y → Over st x y → Over st { x with code := code } y)
    (hyield : code.any isYield = true → st = .ready) :
    Stacked st (cos.modify c fun x => { x with code := code }) (c :: below) := by
  refine h.change h.nodup (by simpa using h.bound) (fun d y hy => ?_)
    (pairwise_cons.mpr ⟨fun b hb y z hy hz => ?_, ?_⟩)
  · rcases getElem?_modify_cases hy with ⟨z, rfl, hz, rfl⟩ | ⟨-, hy⟩
    · cases hx.symm.trans hz
      exact .inr ⟨h.running c x hx, ⟨fun _ => hwf, fun hr => absurd (h.top_running hx) hr⟩, hyield⟩
    · exact .inl ⟨hy, .rfl⟩
  · rw [getElem?_modify_self hx] at hy
    cases hy
    rw [getElem?_modify_of_ne (h.ne_below hb)] at hz
    exact hover b z hb hz (h.over_below hx hb hz)
  · refine Ordered.back (pairwise_cons.mp h.onTop).2 fun b hb y hy => ?_
    rwa [getElem?_modify_of_ne (h.ne_below hb)] at hy

theorem leave (h : Stacked st cos (c :: below)) (hx : cos[c]? = some x) {state : CoroutineState}
    {code : List Op} (hstate : state ≠ .running)
    (hrests : Rests { x with state := state, code := code }) :
    Stacked st (cos.modify c fun x => { x with state := state, code := code }) below := by
  refine h.change (nodup_cons.mp h.nodup).2
    (fun b hb => by simpa using h.bound b (mem_cons_of_mem c hb)) (fun d y hy => ?_)
    (Ordered.back (pairwise_cons.mp h.onTop).2 fun b hb y hy => ?_)
  · rcases getElem?_modify_cases hy with ⟨z, rfl, hz, rfl⟩ | ⟨hne, hy⟩
    · cases hx.symm.trans hz
      exact .inr ⟨⟨fun hr => absurd hr hstate, fun hc => absurd rfl (h.ne_below hc)⟩,
        ⟨fun hr => absurd hr hstate, fun _ => hrests⟩,
        fun hyy => by cases hrests.quiet.2.2.1.symm.trans hyy⟩
    · exact .inl ⟨hy, by rw [mem_cons, or_iff_right hne.symm]⟩
  · rwa [getElem?_modify_of_ne (h.ne_below hb)] at hy

section
variable (h : Stacked st cos stack)
include h

theorem enter (hx : cos[c]? = some x) (hrun : x.state ≠ .running) (hfin : x.state ≠ .finished)
    (hover : ∀ b y, b ∈ stack → cos[b]? = some y → Over st { x with state := .running } y) :
    Stacked st (cos.modify c fun x => { x with state := .running }) (c :: stack) := by
  have hc : ∀ b ∈ stack, c ≠ b := by
    rintro b hb rfl
    exact hrun ((h.running c x hx).mpr hb)
  refine h.change (nodup_cons.mpr ⟨fun hmem => hc c hmem rfl, h.nodup⟩) (fun b hb => ?_)
    (fun d y hy => ?_) (pairwise_cons.mpr ⟨fun b hb y z hy hz => ?_, ?_⟩)
  · rw [length_modify]
    rcases mem_cons.mp hb with rfl | hb
    · exact (List.getElem?_eq_some_iff.mp hx).1
    · exact h.bound b hb
  · rcases getElem?_modify_cases hy with ⟨z, rfl, hz, rfl⟩ | ⟨hne, hy⟩
    · cases hx.symm.trans hz
      exact .inr ⟨⟨fun _ => mem_cons_self, fun _ => rfl⟩,
        ⟨fun _ => ((h.shape c x hx).rests hrun).wellFormed hfin, fun hr => absurd rfl hr⟩,
        h.yields c x hx⟩
    · exact .inl ⟨hy, by rw [mem_cons, or_iff_right hne.symm]⟩
  · rw [getElem?_modify_self hx] at hy
    cases hy
    rw [getElem?_modify_of_ne (hc b hb)] at hz
    exact hover b z hb hz
  · refine Ordered.back h.onTop fun b hb y hy => ?_
    rwa [getElem?_modify_of_ne (hc b hb)] at hy

theorem restate {cos' : List Coroutine} (hlen : cos'.length = cos.length)
    (hcos : ∀ (d : Nat) (y : Coroutine), cos'[d]? = some y → cos[d]? = some y ∨
      ∃ z : Coroutine, cos[d]? = some z ∧ y.code = z.code ∧ y.fiber = z.fiber ∧
        z.state ≠ .running ∧ z.state ≠ .finished ∧ y.state = .ready) :
    Stacked st cos' stack := by
  refine h.change h.nodup (by simpa [hlen] using h.bound) (fun d y hy => ?_)
    (Ordered.back h.onTop fun b hb y hy => ?_)
  · rcases hcos d y hy with hy | ⟨z, hz, hcode, hfiber, hrun, hfin, hready⟩
    · exact .inl ⟨hy, .rfl⟩
    · have hne : y.state ≠ .running := by simp [hready]
      exact .inr ⟨⟨fun hr => absurd hr hne, fun hd => absurd ((h.running d z hz).mpr hd) hrun⟩,
        ⟨fun hr => absurd hr hne, fun _ =>
          ((h.shape d z hz).rests hrun).setState hfiber hcode hfin (by simp [hready])⟩,
        hcode ▸ h.yields d z hz⟩
  · rcases hcos b y hy with hy | ⟨z, hz, -, -, hrun, -⟩
    · exact hy
    · exact absurd ((h.running b z hz).mpr hb) hrun

theorem append {new : List Coroutine} (hnew : ∀ x ∈ new, x.state ≠ .running ∧ Rests x) :
    Stacked st (cos ++ new) stack := by
  have hcos : ∀ d y, (cos ++ new)[d]? = some y →
      cos[d]? = some y ∨ (cos.length ≤ d ∧ y ∈ new) := by
    intro d y hy
    rcases Nat.lt_or_ge d cos.length with hd | hd
    · exact .inl (by rwa [getElem?_append_left hd] at hy)
    · rw [getElem?_append_right hd] at hy
      exact .inr ⟨hd, mem_of_getElem? hy⟩
  refine h.change h.nodup (fun c hc => ?_) (fun d y hy => ?_)
    (Ordered.back h.onTop fun b hb y hy => ?_)
  · have := h.bound c hc
    rw [length_append]
    omega
  · rcases hcos d y hy with hy | ⟨hd, hy⟩
    · exact .inl ⟨hy, .rfl⟩
    · obtain ⟨hne, hrests⟩ := hnew y hy
      exact .inr ⟨⟨fun hr => absurd hr hne, fun hd' => absurd (h.bound d hd') (by omega)⟩,
        ⟨fun hr => absurd hr hne, fun _ => hrests⟩,
        fun hyy => by cases hrests.quiet.2.2.1.symm.trans hyy⟩
  · rcases hcos b y hy with hy | ⟨hd, -⟩
    · exact hy
    · exact absurd (h.bound b hb) (by omega)

/-- The connection closes, which only matters to what may run on top of what. -/
theorem setState {st' : ConnectionState} (hclosed : st = .closed → st' = .closed)
    (hyield : NoYield cos) : Stacked st' cos stack :=
  { h with
    onTop := h.onTop.imp fun hab x y hx hy => (hab x y hx hy).mono hclosed
    yields := fun c x hx hy => absurd ((hyield c x hx).symm.trans hy) (by simp) }

end

end Stacked

/-! ## Moves in the ledger -/

variable (id : UInt64)

/-- The entry with this id is completed. -/
def Entry.complete (e : Entry) : Entry :=
  if e.requestId = id then { e with completed := true } else e

@[simp] theorem Entry.complete_requestId (e : Entry) : (e.complete id).requestId = e.requestId := by
  unfold Entry.complete
  split <;> rfl

@[simp] theorem Entry.complete_serial (e : Entry) : (e.complete id).serial = e.serial := by
  unfold Entry.complete
  split <;> rfl

@[simp] theorem Entry.complete_coroutine (e : Entry) : (e.complete id).coroutine = e.coroutine := by
  unfold Entry.complete
  split <;> rfl

theorem Entry.complete_completed {id : UInt64} {e : Entry} :
    (e.complete id).completed = true ↔ e.requestId = id ∨ e.completed = true := by
  unfold Entry.complete
  split <;> simp [*]

theorem Entry.open_of_complete {id : UInt64} {e : Entry} (h : (e.complete id).completed = false) :
    e.completed = false := by
  rw [Bool.eq_false_iff, ne_eq, Entry.complete_completed, not_or] at h
  exact Bool.eq_false_iff.mpr h.2

namespace Ledger

variable {entries : List Entry} {calls : Nat} {completions : List Nat} {e e' : Entry}

section
variable (h : Ledger entries calls completions)
include h

theorem eq_of_requestId (he : e ∈ entries) (he' : e' ∈ entries) (hid : e.requestId = e'.requestId) :
    e = e' :=
  inj_on_of_nodup_map h.ids he he' hid

theorem eq_of_serial (he : e ∈ entries) (he' : e' ∈ entries) (hid : e.serial = e'.serial) :
    e = e' :=
  inj_on_of_nodup_map h.serials he he' hid

theorem all_completed (hall : ∀ e ∈ entries, e.completed = true) {n : Nat} (hn : n < calls) :
    n ∈ completions := by
  rcases h.logged n hn with hn | hn
  · exact hn
  · obtain ⟨e, he, rfl⟩ := mem_map.mp hn
    exact (h.completed e he).mp (hall e he)

theorem complete (he : e ∈ entries) (hopen : e.completed = false) :
    Ledger (entries.map (Entry.complete e.requestId)) calls (completions ++ [e.serial]) where
  ids := by
    simpa [comp_def] using h.ids
  serials := by
    simpa [comp_def] using h.serials
  completed q hq := by
    obtain ⟨e', he', rfl⟩ := mem_map.mp hq
    rw [Entry.complete_completed, Entry.complete_serial, mem_append, mem_singleton,
      h.completed e' he', or_comm]
    -- Only `e` has the serial number of `e`.
    refine or_congr_right ⟨fun hid => ?_, fun hser => ?_⟩
    · rw [h.eq_of_requestId he' he hid]
    · rw [h.eq_of_serial he' he hser]
  bound q hq := by
    obtain ⟨e', he', rfl⟩ := mem_map.mp hq
    rw [Entry.complete_serial]
    exact h.bound e' he'
  logged n hn := by
    rcases h.logged n hn with hn | hn
    · exact .inl (mem_append_left _ hn)
    · exact .inr (by simpa [comp_def] using hn)
  past n hn := by
    rcases mem_append.mp hn with hn | hn
    · exact h.past n hn
    · rw [mem_singleton.mp hn]
      exact h.bound e he
  once := by
    refine nodup_append.mpr ⟨h.once, nodup_singleton _, ?_⟩
    rintro n hn m hm rfl
    rw [mem_singleton.mp hm, ← h.completed e he, hopen] at hn
    cases hn

theorem add (hid : ∀ q ∈ entries, q.requestId ≠ e.requestId) (hopen : e.completed = false)
    (hserial : e.serial = calls) : Ledger (entries ++ [e]) (calls + 1) completions where
  ids := by
    rw [map_append]
    refine nodup_append.mpr ⟨h.ids, nodup_singleton _, ?_⟩
    rintro a ha b hb rfl
    obtain ⟨q, hq, hqa⟩ := mem_map.mp ha
    exact hid q hq (hqa.trans (mem_singleton.mp hb))
  serials := by
    rw [map_append]
    refine nodup_append.mpr ⟨h.serials, nodup_singleton _, ?_⟩
    rintro a ha b hb rfl
    obtain ⟨q, hq, rfl⟩ := mem_map.mp ha
    have := h.bound q hq
    rw [mem_singleton.mp hb, hserial] at this
    exact Nat.lt_irrefl _ this
  completed q hq := by
    rcases mem_append.mp hq with hq | hq
    · exact h.completed q hq
    · rw [mem_singleton.mp hq, hopen, hserial]
      exact ⟨nofun, fun hc => absurd (h.past _ hc) (Nat.lt_irrefl _)⟩
  bound q hq := by
    rcases mem_append.mp hq with hq | hq
    · exact Nat.lt_succ_of_lt (h.bound q hq)
    · rw [mem_singleton.mp hq, hserial]
      exact Nat.lt_succ_self _
  logged n hn := by
    rw [map_append]
    rcases Nat.lt_succ_iff_lt_or_eq.mp hn with hn | rfl
    · exact (h.logged n hn).imp_right (mem_append_left _)
    · exact .inr (mem_append_right _ (by simp [hserial]))
  past n hn := Nat.lt_succ_of_lt (h.past n hn)
  once := h.once

theorem erase {id : UInt64} (hdone : ∀ q ∈ entries, q.requestId = id → q.completed = true) :
    Ledger (entries.filter (·.requestId != id)) calls completions where
  ids := h.ids.sublist (filter_sublist.map _)
  serials := h.serials.sublist (filter_sublist.map _)
  completed q hq := h.completed q (mem_of_mem_filter hq)
  bound q hq := h.bound q (mem_of_mem_filter hq)
  logged n hn := by
    rcases h.logged n hn with hn | hn
    · exact .inl hn
    · obtain ⟨q, hq, rfl⟩ := mem_map.mp hn
      by_cases hid : q.requestId = id
      · exact .inl ((h.completed q hq).mp (hdone q hq hid))
      · exact .inr (mem_map_of_mem (mem_filter.mpr ⟨hq, by simpa using hid⟩))
  past := h.past
  once := h.once

end

end Ledger

/-! ## Moves of the whole connection -/

section
variable {cos cos' : List Coroutine} {stack stack' : List Nat} {hand hand' : Nat → Prop} {e : Entry}
  {y : Coroutine}

/-- The code that runs, or some code on the call stack, is about to resume coroutine `c`. -/
def InHand (cos : List Coroutine) (hand : Nat → Prop) (c : Nat) : Prop :=
  hand c ∨ ∃ (d : Nat) (z : Coroutine), cos[d]? = some z ∧ .resume c ∈ z.code

theorem Place.transport (h : Place cos stack hand e y)
    (htop : stack.head? = some e.coroutine → stack'.head? = some e.coroutine)
    (hhand : InHand cos hand e.coroutine → InHand cos' hand' e.coroutine) :
    Place cos' stack' hand' e y := by
  cases h with
  | calling t pending code => exact .calling t pending code
  | queued state code => exact .queued state code
  | parked state code inHand => exact .parked state code fun hc => hhand (inHand hc)
  | resumed state code top => exact .resumed state code (htop top)
  | ending state done code => exact .ending state done code

theorem Place.requestId_eq {e' : Entry} (h : Place cos stack hand e y)
    (h' : Place cos stack hand e' y) : e.requestId = e'.requestId := by
  have key : ∀ {e}, Place cos stack hand e y →
      (∃ t, y.code.getLast? = some (.yieldCall t e.requestId)) ∨
      y.code.getLast? = some (.callResumed e.requestId) ∨
      y.code.getLast? = some (.callEnd e.requestId) := by
    intro e h
    cases h with
    | calling t _ code => exact .inl ⟨t, by rw [code]; rfl⟩
    | queued _ code | parked _ code _ | resumed _ code _ => exact .inr (.inl (by rw [code]; rfl))
    | ending _ _ code => exact .inr (.inr code)
  rcases key h with ⟨t, h⟩ | h | h <;> rcases key h' with ⟨t', h'⟩ | h' | h' <;>
    simp_all

theorem Suspended.keep (h : Suspended cos e)
    (hsame : ∀ y, cos[e.coroutine]? = some y → y.state ≠ .running →
      cos'[e.coroutine]? = some y) : Suspended cos' e := by
  obtain ⟨y, hy, hf, hcode, hstate⟩ := h
  exact ⟨y, hsame y hy (by rcases hstate with h | h | h <;> simp [h]), hf, hcode, hstate⟩

theorem OpOk.transport {st st' : ConnectionState} {entries entries' : List Entry}
    {calls calls' : Nat} {completions completions' : List Nat} {c : Nat} {op : Op}
    (h : OpOk st cos entries calls completions c op) (hclosed : st = .closed → st' = .closed)
    (hclosing : st = .closing → st' = .closing ∨ st' = .closed)
    (hentries : st = .closing ∨ st = .closed → ∀ e' ∈ entries', e'.completed = false →
      ∃ e ∈ entries, e.completed = false ∧ e.requestId = e'.requestId) (hcalls : calls ≤ calls')
    (hcompl : ∀ n ∈ completions, n ∈ completions')
    (hsus : ∀ e ∈ entries, op = .resume e.coroutine → Suspended cos e →
      ∃ e' ∈ entries', e'.coroutine = e.coroutine ∧ Suspended cos' e')
    (hcall : ∀ e ∈ entries, op.callId = some e.requestId → e.coroutine = c →
      ∃ e' ∈ entries', e'.requestId = e.requestId ∧ e'.coroutine = e.coroutine) :
    OpOk st' cos' entries' calls' completions' c op := by
  cases op with
  | completeAll ids status inClose entry =>
    obtain ⟨hst, hall, hbound⟩ := h
    refine ⟨?_, fun e' he' hopen => ?_, fun n hn => Nat.lt_of_lt_of_le (hbound n hn) hcalls⟩
    · rcases hst with hst | ⟨hst, hin⟩
      · exact .inl (hclosed hst)
      · exact (hclosing hst).elim (fun h => .inr ⟨h, hin⟩) .inl
    · obtain ⟨e, he, hopen, hid⟩ := hentries (hst.elim .inr fun h => .inl h.1) e' he' hopen
      exact hid ▸ hall e he hopen
  | resume d =>
    obtain ⟨e, he, rfl, hs⟩ := h
    exact hsus e he rfl hs
  | returned entry => exact fun n hn => hcompl n (h n hn)
  | yieldCall t id | callResumed id | callEnd id =>
    obtain ⟨e, he, rfl, rfl⟩ := h
    exact hcall e he rfl rfl
  | _ => trivial

/-- Where only coroutines have changed, and none that is suspended in a call. -/
theorem OpOk.keep {st : ConnectionState} {entries : List Entry} {calls : Nat}
    {completions : List Nat} {c : Nat} {op : Op} (h : OpOk st cos entries calls completions c op)
    (hsus : ∀ e ∈ entries, op = .resume e.coroutine → Suspended cos e → Suspended cos' e) :
    OpOk st cos' entries calls completions c op :=
  h.transport id .inl (fun _ e he hopen => ⟨e, he, hopen, rfl⟩) (Nat.le_refl _) (fun _ => id)
    (fun e he hop hs => ⟨e, he, rfl, hsus e he hop hs⟩) fun e he _ _ => ⟨e, he, rfl, rfl⟩

end

/-- Coroutine `c`, which is `x`, runs on top of `below`. -/
structure OnTop (s : MultiplexedConnection) (c : Nat) (below : List Nat) (x : Coroutine) : Prop where
  stack : s.callStack = c :: below
  top : s.coroutines[c]? = some x
  running : x.state = .running

theorem OnTop.others {s : MultiplexedConnection} {c d : Nat} {below : List Nat} {x y : Coroutine}
    (hs : OnTop s c below x) {f : Coroutine → Coroutine} (hy : s.coroutines[d]? = some y)
    (hne : y.state ≠ .running) : (s.coroutines.modify c f)[d]? = some y := by
  rw [getElem?_modify_of_ne, hy]
  rintro rfl
  exact hne (some.inj (hs.top.symm.trans hy) ▸ hs.running)

namespace Inv

open MultiplexedConnection

variable {s : MultiplexedConnection} {hand hand' : Nat → Prop} {c : Nat} {below : List Nat}
  {x : Coroutine}

theorem goOn_eq (hs : s.callStack = c :: below) (code : List Op) :
    s.goOn code = s.setCoroutine c fun x => { x with code := code } := by
  rw [MultiplexedConnection.goOn, hs]

section
variable (h : Inv s hand)
include h

theorem onTop (hs : s.callStack = c :: below) (hx : s.coroutines[c]? = some x) :
    OnTop s c below x :=
  ⟨hs, hx, (hs ▸ h.stacked).top_running hx⟩

theorem top_wellFormed (hs : OnTop s c below x) : WellFormed x.fiber x.code :=
  (h.stacked.shape c x hs.top).runs hs.running

/-- Only user coroutines have nothing left to do. -/
theorem user_of_idle (hs : OnTop s c below x) (hcode : x.code = []) : x.fiber = false := by
  have hwf := h.top_wellFormed hs
  rwa [hcode, WellFormed] at hwf

/-- A coroutine that changes stays a fiber or a user coroutine. -/
theorem fibers_modify {f : Coroutine → Coroutine} {w : Nat}
    (hw : s.reader = some w ∨ s.writer = some w) (hf : ∀ x, (f x).fiber = x.fiber) :
    ∃ x, (s.coroutines.modify c f)[w]? = some x ∧ x.fiber = true := by
  obtain ⟨y, hy, hfiber⟩ := h.fibers w hw
  refine ⟨_, getElem?_modify_iff.mpr ⟨y, hy, rfl⟩, ?_⟩
  split
  · exact (hf y).trans hfiber
  · exact hfiber

theorem goOn (hs : OnTop s c below x) {code : List Op} (hwf : WellFormed x.fiber code)
    (hover : ∀ b y, b ∈ below → s.coroutines[b]? = some y → Over s.state x y →
      Over s.state { x with code := code } y) (hyield : code.any isYield = false)
    (hops : ∀ op ∈ code,
      op ∈ x.code ∨ OpOk s.state s.coroutines s.entries s.calls s.completions c op)
    (hloop : x.code.any isLoop = true → code.any isLoop = true ∨
      ∀ e ∈ s.entries, e.completed = true)
    (hresume : ∀ d, hand d ∨ .resume d ∈ x.code → hand' d ∨ .resume d ∈ code)
    (hcall : ∀ e ∈ s.entries, e.coroutine = c → Place s.coroutines s.callStack hand e x →
      e.completed = true ∧ code.getLast? = some (.callEnd e.requestId)) :
    Inv (s.goOn code) hand' := by
  rw [goOn_eq hs.stack]
  have hinHand : ∀ d, InHand s.coroutines hand d →
      InHand (s.coroutines.modify c fun x => { x with code := code }) hand' d := by
    rintro d (hd | ⟨q, z, hz, hq⟩)
    · rcases hresume d (.inl hd) with hd | hd
      · exact .inl hd
      · exact .inr ⟨c, _, getElem?_modify_self hs.top, hd⟩
    · by_cases hcq : c = q
      · subst hcq
        cases hs.top.symm.trans hz
        rcases hresume d (.inr hq) with hd | hd
        · exact .inl hd
        · exact .inr ⟨c, _, getElem?_modify_self hs.top, hd⟩
      · exact .inr ⟨q, z, by rw [getElem?_modify_of_ne hcq, hz], hq⟩
  refine
    { h with
      stacked := ?_
      fibers := fun _ hw => h.fibers_modify hw (by simp)
      placed := fun e he => ?_
      ops := fun d y hy op hop => ?_
      failing := fun hst e he hopen => ?_ }
  · have hstacked := h.stacked
    rw [hs.stack] at hstacked
    have := hstacked.setCode hs.top hwf hover fun hy => by cases hyield.symm.trans hy
    rwa [← hs.stack] at this
  · obtain ⟨y, hy, hf, hplace⟩ := h.placed e he
    by_cases hc : c = e.coroutine
    · subst hc
      cases hs.top.symm.trans hy
      obtain ⟨hdone, hlast⟩ := hcall e he rfl hplace
      exact ⟨_, getElem?_modify_self hs.top, hf, .ending hs.running hdone hlast⟩
    · exact ⟨y, by rw [setCoroutine, getElem?_modify_of_ne hc, hy], hf,
        hplace.transport id (hinHand _)⟩
  · suffices hok : OpOk s.state s.coroutines s.entries s.calls s.completions d op from
      hok.keep fun e _ _ hsus => hsus.keep fun y hy hne => hs.others hy hne
    rcases getElem?_modify_cases hy with ⟨z, rfl, hz, rfl⟩ | ⟨-, hy⟩
    · exact (hops op hop).elim (h.ops c x hs.top op) id
    · exact h.ops d y hy op hop
  · obtain ⟨d, hd, y, hy, hl⟩ := h.failing hst e he hopen
    by_cases hcd : c = d
    · subst hcd
      cases hs.top.symm.trans hy
      rcases hloop hl with hl | hall
      · exact ⟨c, hd, _, getElem?_modify_self hs.top, hl⟩
      · cases (hall e he).symm.trans hopen
    · exact ⟨d, hd, y, by rw [setCoroutine, getElem?_modify_of_ne hcd, hy], hl⟩

theorem leave (hs : OnTop s c below x) {state : CoroutineState} {code : List Op}
    (hstate : state ≠ .running) (hrests : Rests { x with state := state, code := code })
    (hops : ∀ op ∈ code, OpOk s.state s.coroutines s.entries s.calls s.completions c op)
    (hloop : x.code.any isLoop = false) (hresume : x.code.any isResume = false)
    (hcall : ∀ e ∈ s.entries, e.coroutine = c → Place s.coroutines s.callStack hand e x →
      e.completed = false ∧ (state = .waitEvent ∨ state = .waitTimer) ∧
        code = [.callResumed e.requestId]) : Inv (s.leave state code) hand := by
  have heq : s.leave state code = { s.setCoroutine c fun x => { x with state := state, code := code }
      with callStack := below } := by
    rw [MultiplexedConnection.leave, hs.stack]
  rw [heq]
  have hstacked := h.stacked
  rw [hs.stack] at hstacked
  have hnot : ∀ d, .resume d ∉ x.code := by
    intro d hd
    rw [List.any_eq_false] at hresume
    exact hresume _ hd rfl
  refine
    { h with
      stacked := hstacked.leave hs.top hstate hrests
      fibers := fun _ hw => h.fibers_modify hw (by simp)
      placed := fun e he => ?_
      ops := fun d y hy op hop => ?_
      failing := fun hst e he hopen => ?_ }
  · obtain ⟨y, hy, hf, hplace⟩ := h.placed e he
    by_cases hc : c = e.coroutine
    · subst hc
      cases hs.top.symm.trans hy
      obtain ⟨hopen, hwait, hcode⟩ := hcall e he rfl hplace
      refine ⟨_, getElem?_modify_self hs.top, hf, .parked hwait hcode fun hd => ?_⟩
      cases hopen.symm.trans hd
    · refine ⟨y, by rw [setCoroutine, getElem?_modify_of_ne hc, hy], hf,
        hplace.transport (fun htop => ?_) ?_⟩
      · rw [hs.stack] at htop
        exact absurd (some.inj htop) hc
      · rintro (hd | ⟨q, z, hz, hq⟩)
        · exact .inl hd
        · refine .inr ⟨q, z, ?_, hq⟩
          rw [setCoroutine, getElem?_modify_of_ne, hz]
          rintro rfl
          exact hnot _ (some.inj (hs.top.symm.trans hz) ▸ hq)
  · suffices hok : OpOk s.state s.coroutines s.entries s.calls s.completions d op from
      hok.keep fun e _ _ hsus => hsus.keep fun y hy hne => hs.others hy hne
    rcases getElem?_modify_cases hy with ⟨z, rfl, hz, rfl⟩ | ⟨-, hy⟩
    · exact hops op hop
    · exact h.ops d y hy op hop
  · obtain ⟨d, hd, y, hy, hl⟩ := h.failing hst e he hopen
    have hcd : c ≠ d := by
      rintro rfl
      cases hs.top.symm.trans hy
      cases hloop.symm.trans hl
    rw [hs.stack] at hd
    exact ⟨d, (mem_cons.mp hd).resolve_left hcd.symm, y,
      by rw [setCoroutine, getElem?_modify_of_ne hcd, hy], hl⟩

theorem enter (hx : s.coroutines[c]? = some x) (hrun : x.state ≠ .running)
    (hfin : x.state ≠ .finished)
    (hover : ∀ b y, b ∈ s.callStack → s.coroutines[b]? = some y →
      Over s.state { x with state := .running } y)
    (htop : ∀ b y, s.callStack.head? = some b → s.coroutines[b]? = some y →
      ∀ id, y.code ≠ [.callResumed id])
    (hresume : ∀ (b : Nat) (y : Coroutine), s.coroutines[b]? = some y → .resume c ∉ y.code)
    (hhand : ∀ d, hand d → d ≠ c → hand' d) : Inv (s.enter c) hand' := by
  have hsame : ∀ (d : Nat) (y : Coroutine), s.coroutines[d]? = some y → d ≠ c →
      (s.coroutines.modify c fun x => { x with state := .running })[d]? = some y := by
    intro d y hy hne
    rw [getElem?_modify_of_ne hne.symm, hy]
  have hcode : ∀ (d : Nat) (y : Coroutine), s.coroutines[d]? = some y →
      ∃ z, (s.coroutines.modify c fun x => { x with state := .running })[d]? = some z ∧
        z.code = y.code := by
    intro d y hy
    refine ⟨_, getElem?_modify_iff.mpr ⟨y, hy, rfl⟩, ?_⟩
    split <;> rfl
  refine
    { h with
      stacked := h.stacked.enter hx hrun hfin hover
      fibers := fun _ hw => h.fibers_modify hw (by simp)
      placed := fun e he => ?_
      ops := fun d y hy op hop => ?_
      failing := fun hst e he hopen => ?_ }
  · obtain ⟨y, hy, hf, hplace⟩ := h.placed e he
    by_cases hc : e.coroutine = c
    · -- The caller that is entered was suspended in its call.
      rw [hc] at hy
      cases hx.symm.trans hy
      refine ⟨{ x with state := .running }, by rw [hc]; exact getElem?_modify_self hx, hf, ?_⟩
      have hhead : (s.enter c).callStack.head? = some e.coroutine := congrArg some hc.symm
      cases hplace with
      | calling t _ code =>
        have hq := ((h.stacked.shape c x hx).rests hrun).quiet.2.2.1
        simp [code, isYield] at hq
      | queued _ code | parked _ code _ => exact .resumed rfl code hhead
      | resumed state _ _ | ending state _ _ => exact absurd state hrun
    · refine ⟨y, hsame _ y hy hc, hf, ?_⟩
      cases hplace with
      | resumed _ code top => exact absurd code (htop _ y top hy _)
      | calling t pending code => exact .calling t pending code
      | queued state code => exact .queued state code
      | ending state done code => exact .ending state done code
      | parked state code inHand =>
        refine .parked state code fun hd => ?_
        rcases inHand hd with hd | ⟨q, z, hz, hq⟩
        · exact .inl (hhand _ hd hc)
        · obtain ⟨z', hz', hcode'⟩ := hcode q z hz
          exact .inr ⟨q, z', hz', hcode' ▸ hq⟩
  · obtain ⟨z, hz, hop⟩ : ∃ z, s.coroutines[d]? = some z ∧ op ∈ z.code := by
      rcases getElem?_modify_cases hy with ⟨z, -, hz, rfl⟩ | ⟨-, hy⟩
      · exact ⟨z, hz, hop⟩
      · exact ⟨y, hy, hop⟩
    refine (h.ops d z hz op hop).keep fun e _ hres hsus => ?_
    subst hres
    exact hsus.keep fun y hy _ => hsame _ y hy fun hc => hresume d z hz (hc ▸ hop)
  · obtain ⟨d, hd, y, hy, hl⟩ := h.failing hst e he hopen
    obtain ⟨z, hz, hcode'⟩ := hcode d y hy
    exact ⟨d, mem_cons_of_mem c hd, z, hz, hcode' ▸ hl⟩

theorem restate {cos' : List Coroutine} (hlen : cos'.length = s.coroutines.length)
    (hcos : ∀ (d : Nat) (y : Coroutine), cos'[d]? = some y → s.coroutines[d]? = some y ∨
      ∃ z : Coroutine, s.coroutines[d]? = some z ∧ y.code = z.code ∧ y.fiber = z.fiber ∧
        z.state ≠ .running ∧ z.state ≠ .finished ∧ y.state = .ready) :
    Inv { s with coroutines := cos' } hand := by
  have hforth : ∀ (d : Nat) (z : Coroutine), s.coroutines[d]? = some z →
      cos'[d]? = some z ∨ ∃ y, cos'[d]? = some y ∧ y.code = z.code ∧ y.fiber = z.fiber ∧
        z.state ≠ .running ∧ y.state = .ready := by
    intro d z hz
    have hd : d < cos'.length := hlen ▸ (List.getElem?_eq_some_iff.mp hz).1
    have hy := List.getElem?_eq_getElem hd
    rcases hcos d _ hy with hy' | ⟨z', hz', hcode, hf, hrun, -, hready⟩
    · exact .inl (hy.trans (hy'.symm.trans hz))
    · cases hz.symm.trans hz'
      exact .inr ⟨_, hy, hcode, hf, hrun, hready⟩
  have hcode : ∀ (d : Nat) (z : Coroutine), s.coroutines[d]? = some z →
      ∃ y, cos'[d]? = some y ∧ y.code = z.code ∧ y.fiber = z.fiber := by
    intro d z hz
    rcases hforth d z hz with hy | ⟨y, hy, hcode, hf, -⟩
    · exact ⟨z, hy, rfl, rfl⟩
    · exact ⟨y, hy, hcode, hf⟩
  have hback : ∀ (d : Nat) (y : Coroutine), cos'[d]? = some y →
      ∃ z, s.coroutines[d]? = some z ∧ y.code = z.code := by
    intro d y hy
    rcases hcos d y hy with hy | ⟨z, hz, hcode, -⟩
    · exact ⟨y, hy, rfl⟩
    · exact ⟨z, hz, hcode⟩
  refine
    { h with
      stacked := h.stacked.restate hlen hcos
      fibers := fun w hw => ?_
      placed := fun e he => ?_
      ops := fun d y hy op hop => ?_
      failing := fun hst e he hopen => ?_ }
  · obtain ⟨z, hz, hf⟩ := h.fibers w hw
    obtain ⟨y, hy, -, hf'⟩ := hcode w z hz
    exact ⟨y, hy, hf'.trans hf⟩
  · obtain ⟨z, hz, hf, hplace⟩ := h.placed e he
    have hinHand : InHand s.coroutines hand e.coroutine → InHand cos' hand e.coroutine := by
      rintro (hd | ⟨q, w, hw, hq⟩)
      · exact .inl hd
      · obtain ⟨w', hw', hcode', -⟩ := hcode q w hw
        exact .inr ⟨q, w', hw', hcode' ▸ hq⟩
    rcases hforth _ z hz with hy | ⟨y, hy, hcode, hf', hrun, hready⟩
    · exact ⟨z, hy, hf, hplace.transport id hinHand⟩
    · refine ⟨y, hy, hf'.trans hf, ?_⟩
      cases hplace with
      | calling t pending code => exact .calling t pending (hcode.trans code)
      | queued _ code | parked _ code _ => exact .queued hready (hcode.trans code)
      | resumed state _ _ | ending state _ _ => exact absurd state hrun
  · obtain ⟨z, hz, hcode'⟩ := hback d y hy
    refine (h.ops d z hz op (hcode' ▸ hop)).keep fun e _ _ hsus => ?_
    obtain ⟨w, hw, hf, hc, hstate⟩ := hsus
    rcases hforth _ w hw with hy | ⟨v, hv, hcode, hf', -, hready⟩
    · exact ⟨w, hy, hf, hc, hstate⟩
    · exact ⟨v, hv, hf'.trans hf, hcode.trans hc, .inl hready⟩
  · obtain ⟨d, hd, z, hz, hl⟩ := h.failing hst e he hopen
    obtain ⟨y, hy, hcode', -⟩ := hcode d z hz
    exact ⟨d, hd, y, hy, hcode' ▸ hl⟩

theorem append {new : List Coroutine}
    (hnew : ∀ x ∈ new, x.state ≠ .running ∧ Rests x ∧ ∀ op ∈ x.code, op.callId = none) :
    Inv { s with coroutines := s.coroutines ++ new } hand := by
  have hold : ∀ {d} {y}, s.coroutines[d]? = some y →
      (s.coroutines ++ new)[d]? = some y := getElem?_append_of_eq_some
  refine
    { h with
      stacked := h.stacked.append fun x hx => ⟨(hnew x hx).1, (hnew x hx).2.1⟩
      fibers := fun w hw => ?_
      placed := fun e he => ?_
      ops := fun d y hy op hop => ?_
      failing := fun hst e he hopen => ?_ }
  · obtain ⟨y, hy, hf⟩ := h.fibers w hw
    exact ⟨y, hold hy, hf⟩
  · obtain ⟨y, hy, hf, hplace⟩ := h.placed e he
    refine ⟨y, hold hy, hf, hplace.transport id ?_⟩
    rintro (hd | ⟨q, z, hz, hq⟩)
    · exact .inl hd
    · exact .inr ⟨q, z, hold hz, hq⟩
  · rcases Nat.lt_or_ge d s.coroutines.length with hd | hd
    · rw [getElem?_append_left hd] at hy
      exact (h.ops d y hy op hop).keep fun e _ _ hsus => hsus.keep fun y hy _ => hold hy
    · rw [getElem?_append_right hd] at hy
      obtain ⟨-, hrests, hcall⟩ := hnew y (mem_of_getElem? hy)
      cases hrests with
      | user _ code | ended _ _ code => rw [code] at hop; exact absurd hop not_mem_nil
      | call _ id code =>
        rw [code] at hcall
        exact absurd (hcall _ mem_cons_self) (by simp [callId])
      | reader _ _ op' hop' code =>
        rw [code, mem_singleton] at hop
        subst hop
        rcases hop' with rfl | ⟨o, rfl⟩ <;> trivial
      | writer _ op' hop' code =>
        rw [code, mem_singleton] at hop
        subst hop
        rcases hop' with rfl | ⟨-, o, rfl⟩ <;> trivial
  · obtain ⟨d, hd, y, hy, hl⟩ := h.failing hst e he hopen
    exact ⟨d, hd, y, hold hy, hl⟩

theorem setState {st : ConnectionState} (hclosed : s.state = .closed → st = .closed)
    (hclosing : s.state = .closing → st = .closing ∨ st = .closed) (hyield : NoYield s.coroutines)
    (hfail : st = .closed → ∀ e ∈ s.entries, e.completed = false →
      ∃ c ∈ s.callStack, ∃ x, s.coroutines[c]? = some x ∧ x.code.any isLoop = true)
    (hfresh : st = .disconnected → s.entries = []) : Inv { s with state := st } hand where
  __ := h
  stacked := h.stacked.setState hclosed hyield
  ops d y hy op hop :=
    (h.ops d y hy op hop).transport hclosed hclosing (fun _ e he hopen => ⟨e, he, hopen, rfl⟩)
      (Nat.le_refl _) (fun _ => id) (fun e he _ hsus => ⟨e, he, rfl, hsus⟩)
      fun e he _ _ => ⟨e, he, rfl, rfl⟩
  failing := hfail
  fresh := hfresh

end

/-! ### Calls -/

theorem entries_complete (s : MultiplexedConnection) (p : PendingCall) (status : CallStatus)
    (response : Option Frame) :
    (s.complete p status response).entries = s.entries.map (Entry.complete p.requestId) := by
  simp only [MultiplexedConnection.complete, entries, setPending, List.map_map]
  refine List.map_congr_left fun q _ => ?_
  simp only [Function.comp_apply, Entry.complete, PendingCall.entry]
  split <;> simp [*]

/-- A call gets its result; its coroutine is in hand, or it is not suspended. -/
theorem complete (h : Inv s hand) {p : PendingCall} (hp : p ∈ s.pendingCalls)
    (hopen : p.completed = false) (status : CallStatus) (response : Option Frame)
    (hplace : ∀ y, s.coroutines[p.coroutine]? = some y → y.code = [.callResumed p.requestId] ∧
        (y.state = .waitEvent ∨ y.state = .waitTimer → InHand s.coroutines hand p.coroutine)) :
    Inv (s.complete p status response) hand := by
  have hentry : p.entry ∈ s.entries := mem_map_of_mem hp
  have hentries := entries_complete s p status response
  refine
    { stacked := h.stacked
      ledger := by rw [hentries]; exact h.ledger.complete hentry hopen
      fibers := h.fibers
      placed := fun e' he' => ?_
      ops := fun d y hy op hop => ?_
      failing := fun hst e' he' hopen' => ?_
      fresh := fun hst => by rw [hentries, h.fresh hst]; rfl }
  · rw [hentries] at he'
    obtain ⟨e, he, rfl⟩ := mem_map.mp he'
    obtain ⟨y, hy, hf, hpl⟩ := h.placed e he
    refine ⟨y, by rw [Entry.complete_coroutine]; exact hy, hf, ?_⟩
    by_cases hid : e.requestId = p.requestId
    · obtain rfl := h.ledger.eq_of_requestId he hentry hid
      obtain ⟨hcode, hwait⟩ := hplace y hy
      have hcode' : y.code = [.callResumed (Entry.complete p.requestId p.entry).requestId] := by
        rw [Entry.complete_requestId]
        exact hcode
      cases hpl with
      | calling t _ code => cases hcode.symm.trans code
      | queued state _ => exact .queued state hcode'
      | parked state _ _ =>
        exact .parked state hcode' fun _ => by
          rw [Entry.complete_coroutine]
          exact hwait state
      | resumed state _ top =>
        exact .resumed state hcode' (by rw [Entry.complete_coroutine]; exact top)
      | ending _ _ code =>
        rw [hcode] at code
        cases code
    · have : Entry.complete p.requestId e = e := if_neg hid
      rw [this]
      exact hpl.transport id id
  · rw [hentries]
    refine (h.ops d y hy op hop).transport id .inl (fun _ e' he' hopen' => ?_) (Nat.le_refl _)
      (fun n hn => mem_append_left _ hn) (fun e he _ hsus => ?_) fun e he _ _ => ?_
    · obtain ⟨e, he, rfl⟩ := mem_map.mp he'
      exact ⟨e, he, Entry.open_of_complete hopen', (Entry.complete_requestId _ _).symm⟩
    · refine ⟨_, mem_map_of_mem he, Entry.complete_coroutine _ _, ?_⟩
      rw [Suspended, Entry.complete_coroutine, Entry.complete_requestId]
      exact hsus
    · exact ⟨_, mem_map_of_mem he, Entry.complete_requestId _ _, Entry.complete_coroutine _ _⟩
  · rw [hentries] at he'
    obtain ⟨e, he, rfl⟩ := mem_map.mp he'
    exact h.failing hst e he (Entry.open_of_complete hopen')

theorem not_placed_of_user (h : Inv s hand) (hx : s.coroutines[c]? = some x) (hcode : x.code = [])
    {e : Entry} (he : e ∈ s.entries) : e.coroutine ≠ c := by
  rintro rfl
  obtain ⟨y, hy, -, hplace⟩ := h.placed e he
  cases hx.symm.trans hy
  cases hplace with
  | calling _ _ code | queued _ code | parked _ code _ | resumed _ code _ =>
    cases hcode.symm.trans code
  | ending _ _ code =>
    rw [hcode] at code
    cases code

variable {t : MultiplexedConnection}

/-- The running coroutine takes up a call or ends the one it has: the other calls stay as they
are, and what its code promised to the others does not change. -/
theorem exchangeCall (h : Inv s hand) (hs : OnTop s c below x) (hfiber : x.fiber = false)
    (hquiet : ∀ op ∈ x.code, op.isLoop = false ∧ op.isResume = false) (code : List Op)
    (hwf : WellFormed x.fiber code) (hstart : code.any isStart = false)
    (hyield : code.any isYield = true → s.state = .ready) (hframe : t.frame = s.frame)
    (hcalls : s.calls ≤ t.calls) (hledger : Ledger t.entries t.calls s.completions)
    (hstays : ∀ e ∈ s.entries, e.coroutine ≠ c → e ∈ t.entries)
    (hold : ∀ e ∈ t.entries, (e ∈ s.entries ∧ e.coroutine ≠ c) ∨
      (s.state = .ready ∧ e.coroutine = c ∧ e.completed = false ∧
        ∃ timed, code = [.yieldCall timed e.requestId]))
    (hops : ∀ op ∈ code, ∀ cos, OpOk t.state cos t.entries t.calls t.completions c op) :
    Inv (t.goOn code) hand := by
  simp only [frame, Prod.mk.injEq] at hframe
  obtain ⟨hst, hco, hstack, hreader, hwriter, hcompl⟩ := hframe
  rw [goOn_eq (hstack.trans hs.stack)]
  have hstacked := h.stacked
  rw [hs.stack] at hstacked
  have hlook : ∀ {d} {y}, s.coroutines[d]? = some y → c ≠ d →
      (t.setCoroutine c fun x => { x with code := code }).coroutines[d]? = some y := by
    intro d y hy hne
    rw [setCoroutine, getElem?_modify_of_ne hne, hco, hy]
  have hself : (t.setCoroutine c fun x => { x with code := code }).coroutines[c]? =
      some { x with code := code } := by
    rw [setCoroutine, hco, getElem?_modify_self hs.top]
  have hkept : s.state ≠ .ready → ∀ e ∈ t.entries, e ∈ s.entries := fun hr e he =>
    (hold e he).elim (·.1) fun hnew => absurd hnew.1 hr
  refine
    { stacked := ?_
      ledger := hcompl ▸ hledger
      fibers := fun w hw => ?_
      placed := fun e he => ?_
      ops := fun d y hy op hop => ?_
      failing := fun hc e he hopen => ?_
      fresh := fun hd => ?_ }
  · have := hstacked.setCode hs.top hwf
      (fun _ y _ _ ho => ⟨fun hy => absurd ((ho.yields hy).1.symm.trans hfiber) (by simp),
        fun _ => .inl ⟨hfiber, hstart⟩,
        fun hy => by cases (ho.resumes hy).1.symm.trans hfiber⟩) hyield
    rw [← hs.stack, ← hstack, ← hco, ← hst] at this
    exact this
  · obtain ⟨y, hy, hf⟩ := h.fibers w (hreader ▸ hwriter ▸ hw)
    by_cases hwc : c = w
    · subst hwc
      cases hs.top.symm.trans hy
      cases hf.symm.trans hfiber
    · exact ⟨y, hlook hy hwc, hf⟩
  · rcases hold e he with ⟨he, hne⟩ | ⟨-, rfl, hopen, timed, rfl⟩
    · obtain ⟨y, hy, hf, hplace⟩ := h.placed e he
      refine ⟨y, hlook hy hne.symm, hf, hplace.transport (fun htop => ?_) ?_⟩
      · rw [hs.stack] at htop
        exact absurd (some.inj htop).symm hne
      · rintro (hd | ⟨q, z, hz, hq⟩)
        · exact .inl hd
        · refine .inr ⟨q, z, hlook hz ?_, hq⟩
          rintro rfl
          cases hs.top.symm.trans hz
          cases (hquiet _ hq).2
    · exact ⟨_, hself, hfiber, .calling timed hopen rfl⟩
  · by_cases hcd : c = d
    · subst hcd
      rw [hself] at hy
      cases hy
      exact hops op hop _
    · change OpOk t.state _ t.entries t.calls t.completions d op
      rw [setCoroutine, getElem?_modify_of_ne hcd, hco] at hy
      rw [hcompl, hst]
      refine (h.ops d y hy op hop).transport (fun hc => hc) .inl
        (fun hc e he hopen => ⟨e, hkept (by rcases hc with hc | hc <;> simp [hc]) e he, hopen, rfl⟩)
        hcalls (fun _ hn => hn) (fun e he _ hsus => ?_)
        fun e he _ hd => ⟨e, hstays e he (hd ▸ Ne.symm hcd), rfl, rfl⟩
      -- A suspended caller is not the running one.
      have hne : e.coroutine ≠ c := by
        intro hc
        obtain ⟨z, hz, -, -, hstate⟩ := hsus
        cases hs.top.symm.trans (hc ▸ hz)
        rw [hs.running] at hstate
        simp at hstate
      exact ⟨e, hstays e he hne, rfl, hsus.keep fun z hz _ => hlook hz hne.symm⟩
  · replace hc : s.state = .closed := hst ▸ hc
    obtain ⟨d, hd, y, hy, hl⟩ := h.failing hc e (hkept (by simp [hc]) e he) hopen
    have hcd : c ≠ d := by
      rintro rfl
      cases hs.top.symm.trans hy
      obtain ⟨op, hop, hl⟩ := any_eq_true.mp hl
      cases (hquiet op hop).1.symm.trans hl
    exact ⟨d, hstack ▸ hd, y, hlook hy hcd, hl⟩
  · replace hd : s.state = .disconnected := hst ▸ hd
    refine eq_nil_iff_forall_not_mem.mpr fun e he => ?_
    have he := hkept (by simp [hd]) e he
    rw [h.fresh hd] at he
    exact not_mem_nil he

variable {id : UInt64}

/-- `CallEncoded` registers the call of the running coroutine. -/
theorem addCall (h : Inv s hand) (hs : OnTop s c below x) (hcode : x.code = [])
    (hstate : s.state = .ready) (hid : ∀ e ∈ s.entries, e.requestId ≠ id) (timed : Bool)
    (hframe : t.frame = s.frame) (hcalls : t.calls = s.calls + 1)
    (hentries : t.entries = s.entries ++ [⟨c, id, false, s.calls⟩]) :
    Inv (t.goOn [.yieldCall timed id]) hand := by
  have hfiber := h.user_of_idle hs hcode
  refine h.exchangeCall hs hfiber (by simp [hcode]) [.yieldCall timed id] ⟨hfiber, rfl⟩ rfl
    (fun _ => hstate) hframe (by omega) ?_ (fun e he _ => ?_) (fun e he => ?_)
    fun op hop _ => ?_
  · rw [hentries, hcalls]
    exact h.ledger.add hid rfl rfl
  · exact hentries ▸ mem_append_left _ he
  · rw [hentries] at he
    rcases mem_append.mp he with he | he
    · exact .inl ⟨he, h.not_placed_of_user hs.top hcode he⟩
    · rw [mem_singleton.mp he]
      exact .inr ⟨hstate, rfl, rfl, timed, rfl⟩
  · rw [mem_singleton.mp hop, hentries]
    exact ⟨_, mem_append_right _ mem_cons_self, rfl, rfl⟩

theorem callEnd_eq (rest : List Op) {p : PendingCall} (hp : s.find id = some p) :
    ∃ t : MultiplexedConnection, s.callEnd id rest = t.goOn rest ∧
      t.frame = s.frame ∧ t.calls = s.calls ∧ t.entries = s.entries.filter (·.requestId != id) := by
  simp only [MultiplexedConnection.callEnd, hp]
  refine ⟨_, rfl, rfl, rfl, ?_⟩
  simp only [entries, List.filter_map]
  rfl

/-- The call that the running coroutine is about to take out of `pending_calls_` is completed. -/
theorem completed_of_callEnd (h : Inv s hand) (hs : OnTop s c below x)
    (hcode : x.code = [.callEnd id]) : ∀ e ∈ s.entries, e.requestId = id → e.completed = true := by
  intro e he hid
  obtain ⟨own, hown, hownId, hownC⟩ := h.ops c x hs.top (.callEnd id) (by rw [hcode]; simp)
  obtain rfl := h.ledger.eq_of_requestId he hown (hid.trans hownId.symm)
  obtain ⟨y, hy, -, hplace⟩ := h.placed e he
  cases hs.top.symm.trans (hownC ▸ hy)
  cases hplace with
  | ending _ done _ => exact done
  | calling _ _ code | queued _ code | parked _ code _ | resumed _ code _ =>
    cases hcode.symm.trans code

/-- `CallEncoded` takes its completed call out of `pending_calls_` and returns. -/
theorem eraseCall (h : Inv s hand) (hs : OnTop s c below x) (hcode : x.code = [.callEnd id])
    (hframe : t.frame = s.frame) (hcalls : t.calls = s.calls)
    (hentries : t.entries = s.entries.filter (·.requestId != id)) : Inv (t.goOn []) hand := by
  obtain ⟨own, hown, hownId, hownC⟩ := h.ops c x hs.top (.callEnd id) (by rw [hcode]; simp)
  obtain ⟨y, hy, hfiber, hplace⟩ := h.placed own hown
  cases hs.top.symm.trans (hownC ▸ hy)
  -- The entries that stay are those of the other coroutines.
  have hothers : ∀ e ∈ s.entries, e.requestId ≠ id → e.coroutine ≠ c := by
    intro e he hid hc
    obtain ⟨y, hy, -, hpl⟩ := h.placed e he
    cases hs.top.symm.trans (hc ▸ hy)
    exact hid ((hpl.requestId_eq hplace).trans hownId)
  have hstays : ∀ e ∈ s.entries, e.coroutine ≠ c → e ∈ t.entries := by
    intro e he hc
    rw [hentries, mem_filter]
    refine ⟨he, ?_⟩
    rw [bne_iff_ne]
    intro hid
    exact hc ((h.ledger.eq_of_requestId he hown (hid.trans hownId.symm)) ▸ hownC)
  have hold : ∀ e ∈ t.entries, e ∈ s.entries ∧ e.coroutine ≠ c := by
    intro e he
    rw [hentries, mem_filter, bne_iff_ne] at he
    exact ⟨he.1, hothers e he.1 he.2⟩
  refine h.exchangeCall hs hfiber (by simp [hcode, isLoop, isResume]) [] hfiber rfl
    (fun hy => by cases hy) hframe (Nat.le_of_eq hcalls.symm) ?_ hstays
    (fun e he => .inl (hold e he)) fun op hop => absurd hop not_mem_nil
  rw [hentries, hcalls]
  exact h.ledger.erase (h.completed_of_callEnd hs hcode)

end Inv

end CoroRpc.Client
