import CoroRpc.Client.ConnectionInvariant

/-!
# Each piece of connection code keeps the invariant

The moves of `ConnectionInvariant` put together, one lemma for each function of
`multiplexed_connection.cpp`. The functions that go on with `rest` ask that going on with `rest`
alone would keep the invariant: what they do to the connection comes on top of that.

The one piece of code that breaks the invariant is a failing `::write` while the writer runs in
the `WakeWriter` of `CallEncoded`, and it is the only one for which nothing is proved here without
a condition: `writeReturns` asks that nobody on the call stack is about to yield.
-/

namespace CoroRpc.Client

open Lib Protocol CoroRpc.Runtime List Option Op PendingCall

namespace MultiplexedConnection

/-! ## Small facts on the operations -/

section
variable (s : MultiplexedConnection) (code code' : List Op) (st : ConnectionState)

@[simp] theorem goOn_state : (s.goOn code).state = s.state := by unfold goOn; split <;> rfl

@[simp] theorem goOn_callStack : (s.goOn code).callStack = s.callStack := by
  unfold goOn
  split <;> rfl

@[simp] theorem goOn_entries : (s.goOn code).entries = s.entries := by unfold goOn; split <;> rfl

@[simp] theorem goOn_pendingCalls : (s.goOn code).pendingCalls = s.pendingCalls := by
  unfold goOn
  split <;> rfl

@[simp] theorem goOn_calls : (s.goOn code).calls = s.calls := by unfold goOn; split <;> rfl

@[simp] theorem goOn_completions : (s.goOn code).completions = s.completions := by
  unfold goOn
  split <;> rfl

theorem goOn_goOn : (s.goOn code).goOn code' = s.goOn code' := by
  unfold goOn
  cases hs : s.callStack with
  | nil => simp [hs]
  | cons c below => simp [setCoroutine, hs, modify_modify_eq, Function.comp_def]

theorem setState_goOn : { s.goOn code with state := st } = { s with state := st }.goOn code := by
  unfold goOn
  dsimp only
  split <;> rfl

theorem disconnect_setState :
    { s with state := st }.disconnect = { s.disconnect with state := st } := by
  unfold disconnect closeSocket
  split <;> rfl

@[simp] theorem disconnect_state : s.disconnect.state = s.state := by
  unfold disconnect closeSocket
  split <;> rfl

@[simp] theorem disconnect_callStack : s.disconnect.callStack = s.callStack := by
  unfold disconnect closeSocket
  split <;> rfl

@[simp] theorem disconnect_entries : s.disconnect.entries = s.entries := by
  unfold disconnect closeSocket
  split <;> rfl

@[simp] theorem disconnect_calls : s.disconnect.calls = s.calls := by
  unfold disconnect closeSocket
  split <;> rfl

@[simp] theorem disconnect_writer : s.disconnect.writer = s.writer := by
  unfold disconnect closeSocket
  split <;> rfl

@[simp] theorem disconnect_hasUnfinished :
    s.disconnect.hasUnfinishedPending = s.hasUnfinishedPending := by
  unfold disconnect closeSocket
  split <;> rfl

theorem complete_goOn (p : PendingCall) (status : CallStatus) (response : Option Frame) :
    (s.goOn code).complete p status response = (s.complete p status response).goOn code := by
  unfold goOn complete setPending
  dsimp only
  split <;> rfl

theorem disconnect_goOn : (s.goOn code).disconnect = s.disconnect.goOn code := by
  cases hs : s.callStack with
  | nil => simp [goOn, hs]
  | cons c below =>
    rw [Inv.goOn_eq hs, Inv.goOn_eq (s.disconnect_callStack.trans hs)]
    unfold disconnect closeSocket setCoroutine
    dsimp only
    split
    · congr 1
      refine map_modify_comm fun x => ?_
      split <;> rfl
    · rfl

end

section
variable {s : MultiplexedConnection} {c : Nat} {below : List Nat} {x : Coroutine}

/-- To go on with the code one has is to do nothing. -/
theorem goOn_self (hs : OnTop s c below x) : s.goOn x.code = s := by
  rw [Inv.goOn_eq hs.stack, setCoroutine, modify_eq_self hs.top rfl]

theorem goOn_of_ne (hs : s.callStack = c :: below) {d : Nat} (hd : c ≠ d) (code : List Op) :
    (s.goOn code).coroutines[d]? = s.coroutines[d]? := by
  rw [Inv.goOn_eq hs]
  exact getElem?_modify_of_ne hd

theorem find_some {id : UInt64} {p : PendingCall} (h : s.find id = some p) :
    p ∈ s.pendingCalls ∧ p.requestId = id :=
  ⟨mem_of_find?_eq_some h, by simpa using find?_some h⟩

theorem find_none {id : UInt64} (h : (s.find id).isSome = false) :
    ∀ e ∈ s.entries, e.requestId ≠ id := by
  intro e he
  obtain ⟨p, hp, rfl⟩ := mem_map.mp he
  rw [isSome_eq_false_iff, isNone_iff_eq_none] at h
  have := find?_eq_none.mp h p hp
  simpa [entry] using this

/-- The order that `CompleteAllPending` goes by has all calls that are not completed. -/
theorem entry_of_unfinished {order : List UInt64} (h : order.isPerm s.unfinished = true) {e : Entry}
    (he : e ∈ s.entries) (hopen : e.completed = false) : e.requestId ∈ order := by
  rw [(isPerm_iff.mp h).mem_iff]
  obtain ⟨p, hp, rfl⟩ := mem_map.mp he
  exact mem_map_of_mem (mem_filter.mpr ⟨hp, by simpa [entry] using hopen⟩)

theorem completed_of_finished (h : s.hasUnfinishedPending = false) {e : Entry} (he : e ∈ s.entries) :
    e.completed = true := by
  obtain ⟨p, hp, rfl⟩ := mem_map.mp he
  have := List.any_eq_false.mp h p hp
  simpa [entry] using this

end

/-! ## A call begins -/

/-- What `Call` and `CallMetadata` of coroutine `c` do: the call is refused, or `CallEncoded` takes it
    on. -/
inductive Begun (s : MultiplexedConnection) (c timeoutMs : Nat) : MultiplexedConnection → Prop
  | refuse (n requestId : UInt64) (status : CallStatus) :
      Begun s c timeoutMs ({ s with nextRequestId := n }.refuse requestId status)
  | encoded (n requestId : UInt64) (encoded : Bytes) (ready : s.state = .ready) :
      Begun s c timeoutMs ({ s with nextRequestId := n }.callEncoded c requestId encoded timeoutMs)

theorem call_begun (s : MultiplexedConnection) (c : Nat) (request : Frame) (timeoutMs : Nat) :
    Begun s c timeoutMs (s.call c request timeoutMs) := by
  unfold call
  split
  · exact .refuse ..
  next hst =>
  rw [not_or, not_not] at hst
  split
  · exact .refuse ..
  split
  · exact .refuse ..
  split
  · exact .refuse ..
  obtain ⟨n, id, heq⟩ : ∃ n id, (if request.header.requestId = 0 then s.takeRequestId
      else (s, request.header.requestId)) = ({ s with nextRequestId := n }, id) := by
    split
    · exact ⟨_, _, rfl⟩
    · exact ⟨_, _, rfl⟩
  rw [heq]
  dsimp only
  split
  · exact .refuse ..
  · exact .encoded _ _ _ hst.2

theorem callMetadata_begun (s : MultiplexedConnection) (c : Nat) (metadata : RequestMetadata)
    (body : Bytes) (timeoutMs : Nat) :
    Begun s c timeoutMs (s.callMetadata c metadata body timeoutMs) := by
  unfold callMetadata
  split
  · exact .refuse ..
  next hst =>
  rw [not_or, not_not] at hst
  split
  · exact .refuse ..
  split
  · exact .refuse ..
  dsimp only
  split
  · exact .refuse ..
  · exact .encoded _ _ _ hst.2

end MultiplexedConnection

/-! ## Who may run on top of whom -/

namespace OnTop

variable {s t : MultiplexedConnection} {c : Nat} {below : List Nat} {x : Coroutine}
  (hs : OnTop s c below x)
include hs

theorem goOn (code : List Op) : OnTop (s.goOn code) c below { x with code := code } where
  stack := (s.goOn_callStack code).trans hs.stack
  top := by
    rw [Inv.goOn_eq hs.stack]
    exact getElem?_modify_self hs.top
  running := hs.running

theorem disconnect : OnTop s.disconnect c below x where
  stack := s.disconnect_callStack.trans hs.stack
  top := by
    unfold MultiplexedConnection.disconnect MultiplexedConnection.closeSocket
    split
    · simp [hs.top, hs.running]
    · exact hs.top
  running := hs.running

theorem congr (hstack : t.callStack = s.callStack) (hco : t.coroutines = s.coroutines) :
    OnTop t c below x :=
  ⟨hstack.trans hs.stack, hco ▸ hs.top, hs.running⟩

end OnTop

/-- A call whose coroutine has none of the code of a call that goes on is over. -/
theorem Place.over {cos : List Coroutine} {stack : List Nat} {hand : Nat → Prop} {e : Entry}
    {y : Coroutine} (h : Place cos stack hand e y) (hne : ∀ o, o.isAlone = true → y.code ≠ [o]) :
    e.completed = true ∧ y.code.getLast? = some (.callEnd e.requestId) := by
  cases h with
  | calling t _ code | queued _ code | parked _ code _ | resumed _ code _ =>
    exact absurd code (hne _ rfl)
  | ending _ done code => exact ⟨done, code⟩

/-- Not the writer at its loop or at a `write`. -/
def Busy (x : Coroutine) : Prop :=
  x.fiber = true → x.code ≠ [.writerLoop] ∧ ∀ o, x.code ≠ [.write o]

/-- The loop and the `write` are code of a fiber. -/
theorem Busy.of_user {x : Coroutine} (h : x.fiber = false) : Busy x := by
  intro hf
  cases hf.symm.trans h

/-- Under anybody else, nobody is in `CallEncoded` or `CompletePending`. -/
theorem Over.calm {st : ConnectionState} {x y : Coroutine} (h : Over st x y) (hb : Busy x) :
    y.code.any isYield = false ∧ y.code.any isResume = false ∧
      (y.code.any isLoop = true → x.fiber = false ∧ x.code.any isStart = false) := by
  refine ⟨?_, ?_, fun hl => ?_⟩
  · rw [Bool.eq_false_iff]
    intro hy
    obtain ⟨hf, hc | ⟨o, hc⟩⟩ := h.yields hy
    · exact (hb hf).1 hc
    · exact (hb hf).2 o hc
  · rw [Bool.eq_false_iff]
    intro hr
    exact (hb (h.resumes hr).1).1 (h.resumes hr).2.1
  · rcases h.loops hl with hu | ⟨hf, hc, -⟩
    · exact hu
    · exact absurd hc (hb hf).1

/-- Such a coroutine may take any other code that does not start the reader or the writer. -/
theorem Over.of_busy {st st' : ConnectionState} {x x' y : Coroutine} (h : Over st x y) (hb : Busy x)
    (hf : x'.fiber = x.fiber)
    (hs : x.fiber = false → x'.code.any isStart = true → x.code.any isStart = true) :
    Over st' x' y := by
  obtain ⟨hy, hr, hl⟩ := h.calm hb
  refine ⟨fun hyy => absurd (hy.symm.trans hyy) (by simp), fun hll => .inl ?_,
    fun hrr => by cases hr.symm.trans hrr⟩
  obtain ⟨hu, hstart⟩ := hl hll
  refine ⟨hf.trans hu, ?_⟩
  rw [Bool.eq_false_iff]
  exact fun h => by cases hstart.symm.trans (hs hu h)

/-! ## Continuations, once more -/

namespace Op

/-- The code of the two loops themselves. -/
def isOwn : Op → Bool
  | .readerLoop | .read _ | .readAwaited _ | .decodeNext | .readerCheck | .readerEnd
  | .writerLoop | .write _ | .writeAwaited _ | .writerEnd | .failConnection _ => true
  | _ => false

theorem own_quiet {op : Op} (h : op.isOwn = true) : op.isLoop = false ∧ op.isResume = false ∧
    op.isYield = false ∧ op.callId = none := by
  cases op <;> simp_all [isOwn, isLoop, isResume, isYield, callId]

/-- Such code is in no call and completes none. -/
theorem any_quiet {code : List Op} (h : ∀ op ∈ code, op.isOwn = true) :
    code.any isLoop = false ∧ code.any isResume = false ∧ code.any isYield = false := by
  simp only [List.any_eq_false, Bool.not_eq_true]
  exact ⟨fun op hop => (own_quiet (h op hop)).1, fun op hop => (own_quiet (h op hop)).2.1,
    fun op hop => (own_quiet (h op hop)).2.2.1⟩

theorem start_quiet {op : Op} (h : op.isStart = true) : op.isLoop = false ∧ op.isResume = false ∧
    op.isYield = false ∧ op.isAlone = false ∧ op.callId = none ∧ op ≠ .writerLoop := by
  cases op with
  | startReader | startWriter => exact ⟨rfl, rfl, rfl, rfl, rfl, by simp⟩
  | _ => exact absurd h (by simp [isStart])

theorem yield_of_alone {code : List Op} (h : code.any isAlone = false) :
    code.any isYield = false := by
  simp only [List.any_eq_false, Bool.not_eq_true] at h ⊢
  intro op hop
  have := h op hop
  cases op <;> simp_all [isAlone, isYield]

end Op

/-- Nothing is asked of such code. -/
theorem OpOk.of_own {st : ConnectionState} {cos : List Coroutine} {entries : List Entry}
    {calls : Nat} {completions : List Nat} {c : Nat} {op : Op} (h : op.isOwn = true) :
    OpOk st cos entries calls completions c op := by
  cases op <;> trivial

/-- A coroutine of the connection, in its own code. -/
structure InFiber (x : Coroutine) : Prop where
  fiber : x.fiber = true
  own : ∀ op ∈ x.code, op.isOwn = true

/-- What may be left to do behind a piece of code that is put on top of it. -/
structure Plain (fiber : Bool) (st : ConnectionState) (rest : List Op) : Prop where
  alone : rest.any isAlone = false
  writer : fiber = true → rest = [.writerLoop] → st = .closing

/-! ## The running coroutine goes on -/

namespace Inv

open MultiplexedConnection

variable {s : MultiplexedConnection} {hand hand' : Nat → Prop} {c : Nat} {below : List Nat}
  {x : Coroutine} {rest : List Op}

section
variable (h : Inv s hand) {y : Coroutine} {d : Nat}
include h

theorem congr {t : MultiplexedConnection} (hframe : t.frame = s.frame) (hcalls : t.calls = s.calls)
    (hentries : t.entries = s.entries) : Inv t hand := by
  simp only [frame, Prod.mk.injEq] at hframe
  obtain ⟨hst, hco, hstack, hreader, hwriter, hcompl⟩ := hframe
  constructor <;> simp only [hst, hco, hstack, hreader, hwriter, hcompl, hcalls, hentries]
  exacts [h.stacked, h.ledger, h.fibers, h.placed, h.ops, h.failing, h.fresh]

section
variable (hs : OnTop s c below x)
include hs

theorem over_below {b : Nat} (hb : b ∈ below) (hy : s.coroutines[b]? = some y) : Over s.state x y :=
  (hs.stack ▸ h.stacked).over_below hs.top hb hy

end

/-- The reader and the writer make no calls. -/
theorem not_placed_of_fiber (hx : s.coroutines[c]? = some x) (hf : x.fiber = true) {e : Entry}
    (he : e ∈ s.entries) : e.coroutine ≠ c := by
  rintro rfl
  obtain ⟨y, hy, hfy, -⟩ := h.placed e he
  cases hx.symm.trans hy
  cases hf.symm.trans hfy

/-- Callers are on the way to their `Yield` only while the connection is ready. -/
theorem no_yield (hst : s.state ≠ .ready) : NoYield s.coroutines := fun d y hy => by
  rw [Bool.eq_false_iff]
  exact fun hyy => hst (h.stacked.yields d y hy hyy)

/-- Where somebody else than the writer is on top, nobody below is about to yield or to resume. -/
theorem quiet_of_busy (hs : OnTop s c below x) (hb : Busy x) (hy : s.coroutines[d]? = some y)
    (hd : c ≠ d) : y.code.any isYield = false ∧ y.code.any isResume = false := by
  have hmem : y.code.any isYield = true ∨ y.code.any isResume = true → d ∈ below := by
    intro hyy
    have hd' := h.stacked.mem_of_any hy (.inr hyy.symm)
    rw [hs.stack] at hd'
    exact (mem_cons.mp hd').resolve_left (Ne.symm hd)
  constructor <;> rw [Bool.eq_false_iff] <;> intro hyy
  · have := ((h.over_below hs (hmem (.inl hyy)) hy).calm hb).1
    cases this.symm.trans hyy
  · have := ((h.over_below hs (hmem (.inr hyy)) hy).calm hb).2.1
    cases this.symm.trans hyy

theorem no_yield_of_busy (hs : OnTop s c below x)
    (hb : Busy x) (hcode : x.code.any isYield = false) : NoYield s.coroutines := by
  intro d y hy
  by_cases hd : c = d
  · subst hd
    cases hs.top.symm.trans hy
    exact hcode
  · exact (h.quiet_of_busy hs hb hy hd).1

/-- Nobody is in `CompleteAllPending` while the connection is ready. -/
theorem no_loop (hst : s.state = .ready) (hy : s.coroutines[d]? = some y) :
    y.code.any isLoop = false := by
  rw [List.any_eq_false]
  intro op hop hl
  have hok := h.ops d y hy op hop
  cases op with
  | completeAll =>
    rw [OpOk, hst] at hok
    simp at hok
  | _ => simp [isLoop] at hl

section
variable (hs : OnTop s c below x) (hf : InFiber x)
include hs hf

/-- The reader or the writer goes on with code of its own. -/
theorem fiberGoOn {code : List Op} (hnew : WellFormed true code ∧ ∀ op ∈ code, op.isOwn = true)
    (hover : ∀ b y, b ∈ below → s.coroutines[b]? = some y → Over s.state x y →
      Over s.state { x with code := code } y) : Inv (s.goOn code) hand := by
  obtain ⟨hloop, hresume, -⟩ := any_quiet hf.own
  refine h.goOn hs (hf.fiber ▸ hnew.1) hover (any_quiet hnew.2).2.2
    (fun op hop => .inr (.of_own (hnew.2 op hop)))
    (fun hl => by cases hloop.symm.trans hl) (fun d hd => .inl ?_)
    fun e he hc _ => absurd hc (h.not_placed_of_fiber hs.top hf.fiber he)
  rcases hd with hd | hd
  · exact hd
  · exact absurd rfl (List.any_eq_false.mp hresume _ hd)

/-- It suspends, or ends. -/
theorem fiberLeave {state : CoroutineState} {code : List Op} (hstate : state ≠ .running)
    (hrests : Rests { x with state := state, code := code }) (hnew : ∀ op ∈ code, op.isOwn = true) :
    Inv (s.leave state code) hand := by
  obtain ⟨hloop, hresume, -⟩ := any_quiet hf.own
  exact h.leave hs hstate hrests (fun op hop => .of_own (hnew op hop)) hloop hresume
    fun e he hc _ => absurd hc (h.not_placed_of_fiber hs.top hf.fiber he)

end

end

variable {op : Op}

/-- `op` comes on top of what is left to do. -/
theorem push (h : Inv (s.goOn rest) hand) (hs : OnTop s c below x)
    (hplain : Plain x.fiber s.state rest)
    (hwf : WellFormed x.fiber rest → WellFormed x.fiber (op :: rest)) (hone : op.isAlone = false)
    (hstart : op.isStart = false)
    (hop : OpOk s.state (s.goOn rest).coroutines s.entries s.calls s.completions c op) :
    Inv (s.goOn (op :: rest)) hand := by
  rw [← goOn_goOn s rest]
  have hs' := hs.goOn rest
  have halone : (op :: rest).any isAlone = false := by
    rw [any_cons, hone, hplain.alone]
    rfl
  refine h.goOn hs' (hwf (h.top_wellFormed hs')) ?_ (yield_of_alone halone) ?_ ?_ ?_ ?_
  · intro b y hb hy ho
    by_cases hloop : x.fiber = true ∧ rest = [.writerLoop]
    · -- The writer at its loop has nobody special below it while the connection is closing.
      have hclosing : (s.goOn rest).state = .closing := by
        rw [goOn_state]
        exact hplain.writer hloop.1 hloop.2
      have hnot : (s.goOn rest).state ≠ .ready := by rw [hclosing]; simp
      refine .quiet ?_ (h.no_yield hnot _ _ hy) ?_ <;> rw [Bool.eq_false_iff]
      · intro hl
        rcases ho.loops hl with ⟨hf, -⟩ | ⟨-, -, hst⟩
        · cases hloop.1.symm.trans hf
        · cases hclosing.symm.trans hst
      · intro hr
        cases hclosing.symm.trans (ho.resumes hr).2.2
    · refine ho.of_busy (fun hf => ⟨fun hc => hloop ⟨hf, hc⟩, fun o hc => ?_⟩) rfl fun _ hst => ?_
      · have halone := hplain.alone
        rw [show rest = _ from hc] at halone
        exact absurd halone (by simp [isAlone])
      · simpa [hstart] using hst
  · intro o ho
    rcases mem_cons.mp ho with rfl | ho
    · exact .inr (by rw [goOn_state, goOn_entries, goOn_calls, goOn_completions]; exact hop)
    · exact .inl ho
  · intro hl
    exact .inl (by rw [any_cons, show rest.any isLoop = true from hl, Bool.or_true])
  · intro d hd
    exact hd.imp_right (mem_cons_of_mem _)
  · intro e _ _ hplace
    have hne : ∀ o, o.isAlone = true → rest ≠ [o] := by
      rintro o ho rfl
      exact absurd hplain.alone (by simp [ho])
    obtain ⟨hdone, hlast⟩ := hplace.over hne
    refine ⟨hdone, ?_⟩
    rw [getLast?_cons, hlast]
    rfl

/-- `op` is over; whom it was to resume is in hand. -/
theorem pop (h : Inv s hand) (hs : OnTop s c below x) (hcode : x.code = op :: rest)
    (hwf : WellFormed x.fiber rest) (hone : op.isAlone = false) (hcall : op.callId = none)
    (hloop : op ≠ .writerLoop) (halone : rest.any isAlone = false)
    (hdone : op.isLoop = true → rest.any isLoop = true ∨ ∀ e ∈ s.entries, e.completed = true)
    (hresume : ∀ d, hand d ∨ op = .resume d → hand' d) : Inv (s.goOn rest) hand' := by
  have hbusy : Busy x := by
    intro _
    refine ⟨fun hc => hloop ?_, fun o hc => ?_⟩
    · exact (cons.inj (hcode.symm.trans hc)).1
    · have := (cons.inj (hcode.symm.trans hc)).1
      rw [this] at hone
      exact absurd hone (by simp [isAlone])
  refine h.goOn hs hwf (fun b y _ _ ho => ho.of_busy hbusy rfl fun _ hst => ?_)
    (yield_of_alone halone) ?_ ?_ ?_ ?_
  · rw [hcode, any_cons, show rest.any isStart = true from hst, Bool.or_true]
  · intro o ho
    exact .inl (hcode ▸ mem_cons_of_mem _ ho)
  · rw [hcode, any_cons, Bool.or_eq_true]
    exact fun hl => hl.elim hdone .inl
  · rintro d (hd | hd)
    · exact .inl (hresume d (.inl hd))
    · rw [hcode] at hd
      rcases mem_cons.mp hd with hd | hd
      · exact .inl (hresume d (.inr hd.symm))
      · exact .inr hd
  · intro e _ _ hplace
    have hne : ∀ o, o.isAlone = true → x.code ≠ [o] := by
      intro o ho hc
      rw [(cons.inj (hcode.symm.trans hc)).1, ho] at hone
      cases hone
    obtain ⟨hdone, hlast⟩ := hplace.over hne
    refine ⟨hdone, ?_⟩
    rw [hcode] at hlast
    cases hrest : rest with
    | nil =>
      rw [hrest] at hlast
      have hop := some.inj hlast
      simp only [getLast_singleton] at hop
      rw [hop] at hcall
      exact absurd hcall (by simp [callId])
    | cons o os =>
      rw [hrest, getLast?_cons_cons] at hlast
      exact hlast

/-! ## `WakeWriter`, `Close`, `FailConnection` -/

theorem disconnect (h : Inv s hand) : Inv s.disconnect hand := by
  unfold MultiplexedConnection.disconnect closeSocket
  split
  · have hcos : Inv { s with coroutines := s.coroutines.map fun x =>
        if x.fiber = true ∧ x.state = .waitIo then
          { x with state := .ready, waitResult := .cancelled } else x } hand := by
      refine h.restate (length_map _) fun d y hy => ?_
      rw [getElem?_map] at hy
      obtain ⟨z, hz, rfl⟩ := Option.map_eq_some_iff.mp hy
      split
      · next hw => exact .inr ⟨z, hz, rfl, rfl, by simp [hw.2], by simp [hw.2], rfl⟩
      · exact .inl hz
    exact hcos.congr rfl rfl rfl
  · exact h.congr rfl rfl rfl

theorem not_resume_fiber (h : Inv s hand) {w : Nat} {z : Coroutine} (hz : s.coroutines[w]? = some z)
    (hf : z.fiber = true) {b : Nat} {y : Coroutine} (hy : s.coroutines[b]? = some y) :
    .resume w ∉ y.code := by
  intro hr
  obtain ⟨e, he, hec, -⟩ := h.ops b y hy _ hr
  exact h.not_placed_of_fiber hz hf he hec

/-- The writer, if it sleeps, runs on top of whoever wakes it. -/
theorem wakeWriter (h : Inv s hand) (hs : OnTop s c below x)
    (htop : ∀ id, x.code ≠ [.callResumed id])
    (hover : ∀ b y, b ∈ s.callStack → s.coroutines[b]? = some y → ∀ w,
      w.fiber = true → w.code = [.writerLoop] → Over s.state w y) : Inv s.wakeWriter hand := by
  unfold MultiplexedConnection.wakeWriter
  split
  case h_2 => exact h
  case h_1 w hw =>
  obtain ⟨z, hz, hf⟩ := h.fibers w (.inr hw)
  rw [hz]
  dsimp only
  split
  case isFalse => exact h
  case isTrue hwait =>
  have hcode := ((h.stacked.shape w z hz).rests (by simp [hwait])).writerLoop hf hwait
  have henter : s.resume w = s.enter w := by simp [MultiplexedConnection.resume, hz, hwait]
  rw [henter]
  refine h.enter hz (by simp [hwait]) (by simp [hwait])
    (fun b y hb hy => hover b y hb hy _ hf hcode) ?_ (fun b y hy => h.not_resume_fiber hz hf hy)
    fun _ hd _ => hd
  intro b y hb hy
  rw [hs.stack] at hb
  cases hb
  cases hs.top.symm.trans hy
  exact htop

/-- `WakeWriter` in user code, where nobody is in `CompleteAllPending`. -/
theorem wakeWriter_of_user (h : Inv s hand) (hs : OnTop s c below x) (hf : x.fiber = false)
    (htop : ∀ id, x.code ≠ [.callResumed id]) (hresume : x.code.any isResume = false)
    (hloop : ∀ (d : Nat) (y : Coroutine), s.coroutines[d]? = some y → y.code.any isLoop = false) :
    Inv s.wakeWriter hand := by
  refine h.wakeWriter hs htop fun b y hb hy w hwf hw => ?_
  have hr : y.code.any isResume = false := by
    rw [hs.stack] at hb
    rcases mem_cons.mp hb with rfl | hb
    · cases hs.top.symm.trans hy
      exact hresume
    · exact ((h.over_below hs hb hy).calm (.of_user hf)).2.1
  exact ⟨fun _ => ⟨hwf, .inl hw⟩, fun hl => absurd ((hloop b y hy).symm.trans hl) (by simp),
    fun hrr => by cases hr.symm.trans hrr⟩

/-- The connection may be closed when all calls are completed. -/
theorem closed (h : Inv s hand) (hst : s.state ≠ .ready)
    (hall : ∀ e ∈ s.entries, e.completed = true) : Inv { s with state := .closed } hand := by
  refine h.setState (fun _ => rfl) (fun _ => .inr rfl) (h.no_yield hst) (fun _ e he ho => ?_)
    fun hd => by cases hd
  cases (hall e he).symm.trans ho

/-- The end of `Close` and of `FailConnection`: the writer may run, and ends. -/
theorem endCompleteAll (h : Inv (s.goOn rest) hand) (hs : OnTop s c below x)
    (hplain : Plain x.fiber s.state rest) {entry : List Nat} {inClose : Bool}
    (hall : ∀ e ∈ s.entries, e.completed = true) (hentry : ∀ n ∈ entry, n < s.calls)
    (hst : s.state = .closing ∨ s.state = .closed) (hclosed : inClose = false → s.state = .closed) :
    Inv (s.endCompleteAll inClose entry rest) hand := by
  have hledger := h.ledger
  rw [goOn_entries, goOn_calls, goOn_completions] at hledger
  have hret : Inv (s.goOn (.returned entry :: rest)) hand :=
    h.push hs hplain (fun hwf => ⟨hplain.alone, hwf⟩) rfl rfl
      fun n hn => hledger.all_completed hall (hentry n hn)
  obtain ⟨t, ht, hinv, hst', hs'⟩ : ∃ t, t = (if inClose then { s with state := .closed } else s) ∧
      Inv (t.goOn (.returned entry :: rest)) hand ∧ t.state = .closed ∧ OnTop t c below x := by
    cases inClose with
    | false => exact ⟨s, rfl, hret, hclosed rfl, hs⟩
    | true =>
      refine ⟨{ s with state := .closed }, rfl, ?_, rfl, hs.congr rfl rfl⟩
      rw [← setState_goOn]
      refine hret.closed ?_ (by rwa [goOn_entries])
      rcases hst with hst | hst <;> simp [hst]
  unfold MultiplexedConnection.endCompleteAll
  rw [← ht]
  refine hinv.wakeWriter (hs'.goOn _) ?_ ?_
  · intro id
    simp
  · intro b y _ hy w hf hcode
    rw [goOn_state, hst']
    exact ⟨fun _ => ⟨hf, .inl hcode⟩, fun _ => .inr ⟨hf, hcode, rfl⟩, fun _ => ⟨hf, hcode, rfl⟩⟩

theorem serials_lt (h : Inv s hand) : ∀ n ∈ s.serials, n < s.calls := by
  intro n hn
  obtain ⟨p, hp, rfl⟩ := mem_map.mp hn
  exact h.ledger.bound p.entry (mem_map_of_mem hp)

theorem serials_completed (h : Inv s hand) (hall : ∀ e ∈ s.entries, e.completed = true) :
    ∀ n ∈ s.serials, n ∈ s.completions := by
  intro n hn
  exact h.ledger.all_completed hall (h.serials_lt n hn)

@[simp] theorem goOn_serials (s : MultiplexedConnection) (code : List Op) :
    (s.goOn code).serials = s.serials := by
  unfold MultiplexedConnection.goOn
  split <;> rfl

theorem completed_of_order {entries : List Entry}
    (h : ∀ e ∈ entries, e.completed = false → e.requestId ∈ ([] : List UInt64)) :
    ∀ e ∈ entries, e.completed = true := by
  intro e he
  rw [← Bool.not_eq_false]
  exact fun ho => absurd (h e he ho) not_mem_nil

/-- The connection in which `Close` and `FailConnection` complete the calls. -/
theorem closing (h : Inv (s.goOn rest) hand) (hs : OnTop s c below x) (hne : s.state ≠ .closed)
    (hyields : NoYield (s.goOn rest).coroutines) :
    ∃ t, t = { s with state := .closing }.disconnect ∧ Inv (t.goOn rest) hand ∧
      t.state = .closing ∧ OnTop t c below x ∧ t.entries = s.entries ∧
      ∀ n ∈ s.serials, n < t.calls := by
  have hs' : OnTop { s with state := .closing } c below x := hs.congr rfl rfl
  refine ⟨_, rfl, ?_, disconnect_state _, hs'.disconnect, disconnect_entries _, ?_⟩
  · rw [← disconnect_goOn, ← setState_goOn]
    refine (h.setState (fun hc => absurd hc ?_) (fun _ => .inl rfl) hyields
      (fun hc => by cases hc) fun hd => by cases hd).disconnect
    rwa [goOn_state]
  · rw [disconnect_calls]
    simpa using h.serials_lt

theorem close (h : Inv (s.goOn rest) hand) (hs : OnTop s c below x)
    (halone : rest.any isAlone = false) (hopen : s.state ≠ .closed ∧ s.state ≠ .disconnected)
    (hyields : NoYield (s.goOn rest).coroutines) {order : List UInt64}
    (horder : ∀ e ∈ s.entries, e.completed = false → e.requestId ∈ order)
    (hrest : order ≠ [] → rest ≠ [.writerLoop] ∧ rest.any isResume = false) :
    Inv (s.close order rest) hand := by
  rw [MultiplexedConnection.close, if_neg (by simp [hopen])]
  obtain ⟨t, ht, hclosing, hst, hs', hentries, hserials⟩ := h.closing hs hopen.1 hyields
  rw [← ht]
  have hplain : Plain x.fiber t.state rest := ⟨halone, fun _ _ => hst⟩
  cases order with
  | nil =>
    exact hclosing.endCompleteAll hs' hplain (hentries ▸ completed_of_order horder) hserials (.inl hst)
      fun hc => by cases hc
  | cons id ids =>
    refine hclosing.push hs' hplain
      (fun hwf => ⟨(hrest (by simp)).1, (hrest (by simp)).2, halone, hwf⟩) rfl rfl ?_
    exact ⟨.inr ⟨hst, rfl⟩, hentries ▸ horder, hserials⟩

variable {status : CallStatus}

/-- The connection is `CLOSED` while callers are resumed, so that a `Close` of theirs returns at
    once. -/
theorem failConnection (h : Inv s hand) (hs : OnTop s c below x)
    (hcode : x.code = .failConnection status :: rest) {order : List UInt64}
    (horder : ∀ e ∈ s.entries, e.completed = false → e.requestId ∈ order) :
    Inv (s.failConnection status order rest) hand := by
  have hwf := h.top_wellFormed hs
  rw [hcode] at hwf
  obtain ⟨hf, hrest⟩ := hwf
  have hbusy : Busy x := fun _ => by simp [hcode]
  have halone : rest.any isAlone = false := by rcases hrest with rfl | rfl | rfl <;> rfl
  have hloop : rest.any isLoop = false := by rcases hrest with rfl | rfl | rfl <;> rfl
  have hresume : rest.any isResume = false := by rcases hrest with rfl | rfl | rfl <;> rfl
  have hwriter : rest ≠ [.writerLoop] := by rcases hrest with rfl | rfl | rfl <;> simp
  have hwf : WellFormed x.fiber rest := by rcases hrest with rfl | rfl | rfl <;> exact ⟨hf, rfl⟩
  have hplain : ∀ st, Plain x.fiber st rest := fun st => ⟨halone, fun _ hc => absurd hc hwriter⟩
  have hpop : Inv (s.goOn rest) hand :=
    h.pop hs hcode hwf rfl rfl (by simp) halone (fun hl => absurd hl (by simp [isLoop]))
      fun d hd => hd.elim (fun hd => hd) fun hd => by cases hd
  unfold MultiplexedConnection.failConnection
  split
  · next hst =>
    -- Nobody below the reader or the writer is in `CompleteAllPending`.
    refine hpop.push hs (hplain _) (fun hwf => ⟨halone, hwf⟩) rfl rfl
      (h.serials_completed fun e he => ?_)
    rw [← Bool.not_eq_false]
    intro hopen
    rcases hst with hst | hst
    · obtain ⟨d, hd, y, hy, hl⟩ := h.failing hst e he hopen
      rw [hs.stack] at hd
      rcases mem_cons.mp hd with rfl | hd
      · cases hs.top.symm.trans hy
        simp [hcode, hloop, isLoop] at hl
      · have hu := (((h.over_below hs hd hy).calm hbusy).2.2 hl).1
        cases hf.symm.trans hu
    · rw [h.fresh hst] at he
      exact absurd he not_mem_nil
  · next hst =>
    rw [not_or] at hst
    have hyields : NoYield (s.goOn rest).coroutines :=
      hpop.no_yield_of_busy (hs.goOn rest)
        (fun _ => ⟨hwriter, by rcases hrest with rfl | rfl | rfl <;> simp⟩) (yield_of_alone halone)
    obtain ⟨t, ht, hclosing, hst', hs', hentries, hserials⟩ := hpop.closing hs hst.1 hyields
    have heq : ({ s.disconnect with state := .closed } : MultiplexedConnection) =
        { t with state := .closed } := by
      rw [ht]
      exact congrArg (fun t : MultiplexedConnection => { t with state := .closed })
        (disconnect_setState s .closing).symm
    rw [heq]
    cases order with
    | nil =>
      have hall : ∀ e ∈ t.entries, e.completed = true := hentries ▸ completed_of_order horder
      have hclosed : Inv ({ t with state := .closed }.goOn rest) hand := by
        rw [← setState_goOn]
        exact hclosing.closed (by rw [goOn_state, hst']; simp) (by rwa [goOn_entries])
      exact hclosed.endCompleteAll (hs'.congr rfl rfl) (hplain _) hall hserials (.inr rfl) fun _ => rfl
    | cons id ids =>
      -- As in `Close`, and then the connection is closed and the loop is that of `FailConnection`.
      have hpush : Inv (t.goOn (.completeAll (id :: ids) status true s.serials :: rest)) hand :=
        hclosing.push hs' (hplain _) (fun hwf => ⟨hwriter, hresume, halone, hwf⟩) rfl rfl
          ⟨.inr ⟨hst', rfl⟩, hentries ▸ horder, hserials⟩
      have hclosed : Inv ({ t with state := .closed }.goOn
          (.completeAll (id :: ids) status true s.serials :: rest)) hand := by
        rw [← setState_goOn]
        refine hpush.setState (fun _ => rfl) (fun _ => .inr rfl)
          (hpush.no_yield (by rw [goOn_state, hst']; simp)) (fun _ e _ _ => ?_)
          fun hd => by cases hd
        exact ⟨c, by rw [goOn_callStack, hs'.stack]; simp, _, (hs'.goOn _).top, rfl⟩
      have hs'' : OnTop { t with state := .closed } c below x := hs'.congr rfl rfl
      change Inv (({ t with state := .closed } : MultiplexedConnection).goOn _) hand
      rw [← goOn_goOn]
      refine hclosed.goOn (hs''.goOn _) ⟨hwriter, hresume, halone, hwf⟩ (fun b y _ _ ho => ?_) ?_
        (fun op hop => ?_) (fun _ => .inl rfl) (fun d hd => ?_) fun e he hc _ => ?_
      · exact ho.of_busy (fun _ => by simp) rfl fun hu => by cases hf.symm.trans hu
      · exact yield_of_alone halone
      · rcases mem_cons.mp hop with rfl | hop
        · refine .inr ⟨.inl (by rw [goOn_state]), ?_, ?_⟩
          · rw [goOn_entries]
            exact hentries ▸ horder
          · rw [goOn_calls]
            exact hserials
        · exact .inl (mem_cons_of_mem _ hop)
      · simpa using hd
      · rw [goOn_entries] at he
        exact absurd hc (h.not_placed_of_fiber hs.top hf (hentries ▸ he))

section
variable (h : Inv (s.goOn rest) hand) (hs : OnTop s c below x) (halone : rest.any isAlone = false)
include h hs halone

theorem maybeFinishDrain : Inv (s.maybeFinishDrain rest) hand := by
  unfold MultiplexedConnection.maybeFinishDrain
  split
  · next hdone =>
    obtain ⟨hst, -, hfinished⟩ := hdone
    refine h.close hs halone (by simp [hst])
      (h.no_yield (by rw [goOn_state, hst]; simp)) (fun e he ho => ?_)
      fun hne => absurd rfl hne
    cases (completed_of_finished hfinished he).symm.trans ho
  · exact h

/-- `CompletePending` up to its `MaybeFinishDrain`, where no caller is on its way to its `Yield`:
    the caller is suspended, and in hand. -/
theorem completeInHand (hne : rest ≠ [.writerLoop]) (hresume : rest.any isResume = false)
    (hyields : NoYield (s.goOn rest).coroutines) {p : PendingCall} (hp : p ∈ s.pendingCalls)
    (hopen : p.completed = false) (status : CallStatus) (response : Option Frame) :
    Inv ((s.complete p status response).goOn (.resume p.coroutine :: rest)) hand := by
  have hentry : p.entry ∈ s.entries := mem_map_of_mem hp
  obtain ⟨y, hy, hf, hplace⟩ := h.placed p.entry (by rw [goOn_entries]; exact hentry)
  have hs' := hs.goOn rest
  have hsus : y.code = [.callResumed p.requestId] ∧
      (y.state = .ready ∨ y.state = .waitEvent ∨ y.state = .waitTimer) := by
    cases hplace with
    | calling t _ code =>
      have := hyields _ y hy
      simp [code, isYield] at this
    | queued state code => exact ⟨code, .inl state⟩
    | parked state code _ => exact ⟨code, .inr state⟩
    | resumed _ code top =>
      rw [hs'.stack] at top
      rw [← some.inj top] at hy
      cases hs'.top.symm.trans hy
      rw [show rest = _ from code] at halone
      exact absurd halone (by simp [isAlone])
    | ending _ done _ => cases hopen.symm.trans done
  have hpc : c ≠ p.coroutine := by
    rintro rfl
    cases hs'.top.symm.trans hy
    rcases hsus.2 with hst | hst | hst <;> cases hst.symm.trans hs.running
  have hpush : Inv (s.goOn (.resume p.coroutine :: rest)) hand :=
    h.push hs ⟨halone, fun _ hc => absurd hc hne⟩ (fun hwf => ⟨hne, hresume, halone, hwf⟩) rfl rfl
      ⟨p.entry, hentry, rfl, y, hy, hf, hsus⟩
  rw [← complete_goOn]
  refine hpush.complete (by rw [goOn_pendingCalls]; exact hp) hopen _ _ fun z hz => ?_
  rw [goOn_of_ne hs.stack hpc] at hz
  cases hz.symm.trans ((goOn_of_ne hs.stack hpc rest).symm.trans hy)
  exact ⟨hsus.1, fun _ => .inr ⟨c, _, (hs.goOn _).top, mem_cons_self⟩⟩

end

/-- The loop of `CompleteAllPending` leaves one id behind, whose call is completed or gone. -/
theorem shrink (h : Inv s hand) (hs : OnTop s c below x) {pre : List Op} {id : UInt64}
    {ids : List UInt64} {inClose : Bool} {entry : List Nat}
    (hpre : pre = [] ∨ ∃ d, pre = [.resume d])
    (hcode : x.code = pre ++ .completeAll (id :: ids) status inClose entry :: rest)
    (hall : ∀ e ∈ s.entries, e.completed = false → e.requestId ∈ ids) :
    Inv (s.goOn (pre ++ .completeAll ids status inClose entry :: rest)) hand := by
  have hwf := h.top_wellFormed hs
  rw [hcode] at hwf
  obtain ⟨hst, -, hentry⟩ := h.ops c x hs.top (.completeAll (id :: ids) status inClose entry)
    (by rw [hcode]; simp)
  have hbusy : Busy x := by
    intro _
    rcases hpre with rfl | ⟨d, rfl⟩ <;> simp [hcode]
  obtain ⟨hwf', halone⟩ : WellFormed x.fiber (pre ++ .completeAll ids status inClose entry :: rest) ∧
      (pre ++ .completeAll ids status inClose entry :: rest).any isAlone = false := by
    rcases hpre with rfl | ⟨d, rfl⟩
    · exact ⟨hwf, hwf.2.2.1⟩
    · obtain ⟨-, hr, ha, hwf⟩ := hwf
      exact ⟨⟨by simp, hr, ha, hwf⟩, ha⟩
  refine h.goOn hs hwf' (fun b y _ _ ho => ho.of_busy hbusy rfl fun _ hstart => ?_)
    (yield_of_alone halone) (fun op hop => ?_) (fun _ => .inl (by simp [isLoop]))
    (fun d hd => ?_) fun e _ _ hplace => ?_
  · rw [hcode]
    simpa [isStart] using hstart
  · rw [hcode]
    simp only [mem_append, mem_cons] at hop ⊢
    rcases hop with hop | rfl | hop
    · exact .inl (.inl hop)
    · exact .inr ⟨hst, hall, hentry⟩
    · exact .inl (.inr (.inr hop))
  · rw [hcode] at hd
    simpa using hd
  · have hne : ∀ o, o.isAlone = true → x.code ≠ [o] := by
      rintro o ho hc
      rw [hcode] at hc
      rcases hpre with rfl | ⟨d, rfl⟩
      · rw [← (cons.inj hc).1] at ho
        exact absurd ho (by simp [isAlone])
      · cases hc
    obtain ⟨hdone, hlast⟩ := hplace.over hne
    refine ⟨hdone, ?_⟩
    rw [hcode, getLast?_append] at hlast
    rw [getLast?_append]
    cases rest with
    | nil => cases hlast
    | cons o os => exact hlast

/-! ## Calls -/

theorem queueCancel (h : Inv (s.goOn rest) hand) (hs : OnTop s c below x) (hf : x.fiber = false)
    (halone : rest.any isAlone = false) (hresume : rest.any isResume = false) (id : UInt64) :
    Inv (s.queueCancel id rest) hand := by
  unfold MultiplexedConnection.queueCancel
  split
  · exact h
  · next hst =>
    rw [not_or, not_not] at hst
    split
    · exact h
    · next encoded _ =>
      split
      · exact h
      · have hs' : OnTop (s.enqueue ⟨id, encoded, true⟩) c below x := hs.congr rfl rfl
        have henqueue : Inv ((s.enqueue ⟨id, encoded, true⟩).goOn rest) hand := by
          rw [goOn_eq hs.stack] at h
          rw [goOn_eq hs'.stack]
          exact h.congr rfl rfl rfl
        refine henqueue.wakeWriter_of_user (hs'.goOn rest) hf (fun id hc => ?_) hresume
          fun d y hy => henqueue.no_loop (by rw [goOn_state]; exact hst.1) hy
        rw [show rest = _ from hc] at halone
        exact absurd halone (by simp [isAlone])

section
variable (h : Inv s hand) (hs : OnTop s c below x)
include h hs

/-- The call is registered before the writer is woken, and its caller suspends after that. -/
theorem callEncoded (hcode : x.code = []) (hst : s.state = .ready) (id : UInt64) (encoded : Bytes)
    (timeoutMs : Nat) : Inv (s.callEncoded c id encoded timeoutMs) hand := by
  unfold MultiplexedConnection.callEncoded
  split
  · exact h.congr rfl rfl rfl
  · next hfind =>
    split
    · exact h.congr rfl rfl rfl
    · rw [Bool.not_eq_true] at hfind
      dsimp only
      generalize ht : ({ s.enqueue ⟨id, encoded, false⟩ with
        pendingCalls := s.pendingCalls ++ [{ coroutine := c, requestId := id, serial := s.calls }]
        calls := s.calls + 1 } : MultiplexedConnection) = t
      have hfiber := h.user_of_idle hs hcode
      have hadd : Inv (t.goOn [.yieldCall (timeoutMs != kNoTimeout) id]) hand := by
        refine h.addCall hs hcode hst (find_none hfind) _ ?_ ?_ ?_ <;> rw [← ht]
        · rfl
        · simp [entries, entry]
      have hs' : OnTop t c below x := by rw [← ht]; exact hs.congr rfl rfl
      have hst' : t.state = .ready := by rw [← ht]; exact hst
      exact hadd.wakeWriter_of_user (hs'.goOn _) hfiber
        (fun _ => by simp) rfl fun d y hy => hadd.no_loop (by rw [goOn_state, hst']) hy

theorem call (hcode : x.code = []) {timeoutMs : Nat} {t : MultiplexedConnection}
    (ht : Begun s c timeoutMs t) : Inv t hand := by
  have hnext : ∀ n, Inv { s with nextRequestId := n } hand := fun _ =>
    h.congr rfl rfl rfl
  cases ht with
  | refuse n _ _ => exact (hnext n).congr rfl rfl rfl
  | encoded n _ _ hst => exact (hnext n).callEncoded (hs.congr rfl rfl) hcode hst _ _ _

/-- The caller is back: its call is completed, or has timed out. -/
theorem callResumed {id : UInt64} (hcode : x.code = [.callResumed id]) :
    Inv (s.callResumed id []) hand := by
  obtain ⟨hf, -⟩ : x.fiber = false ∧ ([] : List Op) = [] := by
    have hwf := h.top_wellFormed hs
    rwa [hcode] at hwf
  obtain ⟨own, hown, hownId, hownC⟩ := h.ops c x hs.top (.callResumed id) (by rw [hcode]; simp)
  have hsome : ∃ p, s.find id = some p := by
    rw [← isSome_iff_exists]
    by_contra hnone
    exact find_none (by simpa using hnone) own hown hownId
  obtain ⟨p, hfind⟩ := hsome
  obtain ⟨hp, hpid⟩ := find_some hfind
  have hpown : p.entry = own :=
    h.ledger.eq_of_requestId (mem_map_of_mem hp) hown (hpid.trans hownId.symm)
  have hpc : p.coroutine = c := by rw [← hownC, ← hpown]; rfl
  -- Once the call is completed, the coroutine may go on to the end of `CallEncoded`.
  have hend : ∀ {t}, Inv t hand → OnTop t c below x →
      (∀ e ∈ t.entries, e.requestId = id → e.completed = true) → Inv (t.goOn [.callEnd id]) hand := by
    intro t ht hts hdone
    refine ht.goOn hts ⟨hf, rfl⟩ (fun b y _ _ ho => ho.of_busy (.of_user hf) rfl fun _ hst => ?_)
      rfl (fun op hop => .inr ?_) (fun hl => ?_) (fun d hd => .inl ?_) fun e he _ hplace => ?_
    · exact absurd hst (by simp [isStart])
    · rw [mem_singleton.mp hop]
      exact ht.ops c x hts.top (.callResumed id) (by rw [hcode]; simp)
    · exact absurd hl (by simp [hcode, isLoop])
    · exact hd.resolve_right (by simp [hcode])
    · have hid : e.requestId = id := by
        cases hplace with
        | calling t _ code => cases hcode.symm.trans code
        | queued _ code | parked _ code _ | resumed _ code _ =>
          exact (by simpa using hcode.symm.trans code : id = e.requestId).symm
        | ending _ _ code =>
          rw [hcode] at code
          cases code
      exact ⟨hdone e he hid, by rw [hid]; rfl⟩
  simp only [MultiplexedConnection.callResumed, hfind]
  split
  · next hdone =>
    refine hend h hs fun e he hid => ?_
    rw [h.ledger.eq_of_requestId he (mem_map_of_mem hp) (hid.trans hpid.symm)]
    exact hdone
  · next hopen =>
    rw [Bool.not_eq_true] at hopen
    have hs' : OnTop (s.complete p .timeout p.response) c below x := hs.congr rfl rfl
    have htimed : Inv (s.complete p .timeout p.response) hand := by
      refine h.complete hp hopen _ _ fun y hy => ?_
      rw [hpc] at hy
      cases hs.top.symm.trans hy
      refine ⟨by rw [hcode, hpid], fun hst => ?_⟩
      rw [hs.running] at hst
      simp at hst
    have hgo : Inv ((s.complete p .timeout p.response).goOn [.callEnd id]) hand := by
      refine hend htimed hs' fun e he hid => ?_
      rw [entries_complete] at he
      obtain ⟨q, -, rfl⟩ := mem_map.mp he
      rw [Entry.complete_requestId] at hid
      exact Entry.complete_completed.mpr (.inl (hid.trans hpid.symm))
    split
    · have hpush : Inv ((s.complete p .timeout p.response).goOn [.maybeFinishDrain, .callEnd id])
          hand :=
        hgo.push hs' ⟨rfl, fun hc => by cases hf.symm.trans hc⟩
          (fun hwf => ⟨hf, rfl, hwf⟩) rfl rfl trivial
      exact hpush.queueCancel hs' hf rfl rfl id
    · exact hgo.maybeFinishDrain hs' rfl

theorem callEnd {id : UInt64} (hcode : x.code = [.callEnd id]) : Inv (s.callEnd id []) hand := by
  obtain ⟨own, hown, hownId, -⟩ := h.ops c x hs.top (.callEnd id) (by rw [hcode]; simp)
  cases hfind : s.find id with
  | none => exact absurd hownId (find_none (by simp [hfind]) own hown)
  | some p =>
    obtain ⟨t, ht, hframe, hcalls, hentries⟩ := callEnd_eq [] hfind
    rw [ht]
    exact h.eraseCall hs hcode hframe hcalls hentries

theorem beginDrain (hcode : x.code = []) : Inv s.beginDrain hand := by
  unfold MultiplexedConnection.beginDrain
  split
  · exact h
  · next hst =>
    rw [not_not] at hst
    have hf := h.user_of_idle hs hcode
    have hyields : NoYield s.coroutines :=
      h.no_yield_of_busy hs (.of_user hf) (by rw [hcode]; rfl)
    have hclosing : Inv { s with state := .closing } hand := by
      refine h.setState (fun hc => ?_) (fun _ => .inl rfl) hyields (fun hc => by cases hc)
        fun hd => by cases hd
      cases hst.symm.trans hc
    have hs' : OnTop { s with state := .closing } c below x := hs.congr rfl rfl
    have hgo : Inv ({ s with state := .closing }.goOn [.maybeFinishDrain]) hand := by
      refine hclosing.goOn hs' ⟨hf, rfl, hf⟩
        (fun b y _ _ ho => ho.of_busy (.of_user hf) rfl fun _ hst => absurd hst (by simp [isStart]))
        rfl (fun op hop => .inr ?_) (fun hl => ?_) (fun d hd => .inl ?_)
        fun e he hc _ => absurd hc (h.not_placed_of_user hs.top hcode he)
      · rw [mem_singleton.mp hop]
        trivial
      · exact absurd hl (by simp [hcode])
      · exact hd.resolve_right (by simp [hcode])
    refine hgo.wakeWriter_of_user (hs'.goOn _) hf (fun _ => by simp) rfl fun d y hy => ?_
    -- The connection was ready, so nobody was in `CompleteAllPending`.
    by_cases hd : c = d
    · subst hd
      rw [(hs'.goOn _).top] at hy
      cases hy
      rfl
    · rw [goOn_of_ne hs'.stack hd] at hy
      exact h.no_loop hst hy

end

/-! ## Resuming, starting and ending coroutines -/

section
variable (h : Inv s hand) (hs : OnTop s c below x)
include h hs

/-- `Attach`: the connection is ready, its two coroutines are about to be started. -/
theorem attach (hcode : x.code = []) : Inv s.attach hand := by
  unfold MultiplexedConnection.attach
  split
  · exact h
  · next hst =>
    rw [not_not] at hst
    have hf := h.user_of_idle hs hcode
    dsimp only
    generalize hcos : s.coroutines ++ [({ state := .init, fiber := true, code := [.readerLoop] } :
      Coroutine), { state := .init, fiber := true, code := [.writerLoop] }] = cos
    have happend : Inv { s with coroutines := cos } hand := by
      rw [← hcos]
      refine h.append fun x hx => ?_
      rcases mem_pair.mp hx with rfl | rfl
      · exact ⟨by simp, .reader rfl (by simp) _ (.inl rfl) rfl, by simp [callId]⟩
      · exact ⟨by simp, .writer rfl _ (.inl rfl) rfl, by simp [callId]⟩
    have hready : Inv { s with state := .ready, coroutines := cos } hand := by
      refine happend.setState (fun hc => by cases hst.symm.trans hc) (fun hc => ?_)
        (happend.no_yield (by simp [hst])) (fun hc => by cases hc)
        fun hd => by cases hd
      rw [show _ = _ from hst] at hc
      cases hc
    have hattached : Inv { s with
        state := .ready
        fdOpen := true
        reader := some s.coroutines.length
        writer := some (s.coroutines.length + 1)
        coroutines := cos } hand := by
      refine { hready with fibers := fun w hw => ?_ }
      rcases hw with hw | hw <;> obtain rfl := some.inj hw <;> dsimp only <;>
        rw [← hcos, getElem?_append_right (by omega)] <;> simp
    have hx' : cos[c]? = some x := by
      rw [← hcos]
      exact getElem?_append_of_eq_some hs.top
    refine hattached.goOn ⟨hs.stack, hx', hs.running⟩ ⟨hf, rfl⟩ (fun b y _ hy ho => ?_) rfl
      (fun op hop => .inr ?_) (fun hl => absurd hl (by simp [hcode])) (fun d hd => .inl ?_)
      fun e he hc _ => absurd hc (h.not_placed_of_user hs.top hcode he)
    · obtain ⟨hy', hr, -⟩ := ho.calm (.of_user hf)
      exact .quiet (hattached.no_loop rfl hy) hy' hr
    · rcases mem_pair.mp hop with rfl | rfl <;> trivial
    · exact hd.resolve_right (by simp [hcode])

theorem throw (hf : x.fiber = false) (hcode : ∀ op ∈ x.code, op.isStart = true) :
    Inv s.throw hand := by
  have heq : s.throw = s.goOn [] := by simp [MultiplexedConnection.throw, hs.stack, hs.top, hf]
  have hnot : ∀ op, op.isStart = false → op ∉ x.code := fun op ho hop =>
    by cases ho.symm.trans (hcode op hop)
  rw [heq]
  refine h.goOn hs hf
    (fun b y _ _ ho => ho.of_busy (.of_user hf) rfl fun _ hst => by cases hst) rfl
    (fun op hop => absurd hop not_mem_nil) (fun hl => ?_) (fun d hd => .inl ?_)
    fun e _ _ hplace => ?_
  · obtain ⟨op, hop, hl⟩ := any_eq_true.mp hl
    cases op <;> simp_all [isLoop, isStart]
  · exact hd.resolve_right (hnot _ rfl)
  · cases hplace with
    | calling t _ code => exact absurd (code ▸ mem_cons_self) (hnot _ rfl)
    | queued _ code | parked _ code _ | resumed _ code _ =>
      exact absurd (code ▸ mem_cons_self) (hnot _ rfl)
    | ending _ _ code => exact absurd (mem_of_getLast? code) (hnot _ rfl)

theorem resume (htop : ∀ id, x.code ≠ [.callResumed id]) {d : Nat} {z : Coroutine}
    (hz : s.coroutines[d]? = some z) (hthrow : Inv s.throw hand)
    (hover : ∀ b y, b ∈ s.callStack → s.coroutines[b]? = some y →
      Over s.state { z with state := .running } y)
    (hresume : ∀ (b : Nat) (y : Coroutine), s.coroutines[b]? = some y → .resume d ∉ y.code) :
    Inv (s.resume d) hand := by
  have henter : z.state ≠ .running → z.state ≠ .finished → Inv (s.enter d) hand := by
    intro hrun hfin
    refine h.enter hz hrun hfin hover (fun b y hb hy => ?_) hresume fun _ hd _ => hd
    rw [hs.stack] at hb
    cases hb
    cases hs.top.symm.trans hy
    exact htop
  unfold MultiplexedConnection.resume
  rw [hz]
  dsimp only
  split
  · exact h
  · next hst => exact henter (by simp [hst]) (by simp [hst])
  · next hst => exact henter (by simp [hst]) (by simp [hst])
  · next hst => exact henter (by simp [hst]) (by simp [hst])
  · exact hthrow
  · exact hthrow
  · exact hthrow

theorem start {op : Op} (hcode : x.code = op :: rest) (hop : op.isStart = true) : Inv s.throw hand ∧
      ∀ d, s.reader = some d ∨ s.writer = some d → Inv ((s.goOn rest).resume d) hand := by
  have hwf := h.top_wellFormed hs
  rw [hcode] at hwf
  obtain ⟨hf, hrest⟩ : x.fiber = false ∧ ∀ o ∈ rest, o.isStart = true := by
    cases op with
    | startReader => exact ⟨hwf.1, by simp [hwf.2, isStart]⟩
    | startWriter => exact ⟨hwf.1, by simp [hwf.2]⟩
    | _ => exact absurd hop (by simp [isStart])
  have hall : ∀ o ∈ x.code, o.isStart = true := by
    rw [hcode]
    exact forall_mem_cons.mpr ⟨hop, hrest⟩
  refine ⟨h.throw hs hf hall, fun d hw => ?_⟩
  have hwf' : WellFormed x.fiber rest := by
    cases op with
    | startReader => rw [hwf.2]; exact ⟨hf, rfl⟩
    | startWriter => rw [hwf.2]; exact hf
    | _ => exact absurd hop (by simp [isStart])
  obtain ⟨hl, hr, -, hone, hcall, hne⟩ := start_quiet hop
  have halone : rest.any isAlone = false :=
    List.any_eq_false.mpr fun o ho => by simp [(start_quiet (hrest o ho)).2.2.2.1]
  have hpop : Inv (s.goOn rest) hand := by
    refine h.pop hs hcode hwf' hone hcall hne halone (fun hll => absurd (hl.symm.trans hll)
      (by simp)) fun d hd => hd.elim (fun hd => hd) fun hd => ?_
    rw [hd] at hr
    exact absurd hr (by simp [isResume])
  have hs' := hs.goOn rest
  obtain ⟨z, hz, hzf⟩ := h.fibers d hw
  have hdc : c ≠ d := by
    rintro rfl
    cases hs.top.symm.trans hz
    cases hzf.symm.trans hf
  have hz' : (s.goOn rest).coroutines[d]? = some z := by rw [goOn_of_ne hs.stack hdc, hz]
  refine hpop.resume hs' (fun id hc => ?_) hz' (hpop.throw hs' hf hrest)
    (fun b y hb hy => ?_) fun b y hy => hpop.not_resume_fiber hz' hzf hy
  · have := hrest (.callResumed id) (by rw [show rest = _ from hc]; simp)
    exact absurd this (by simp [isStart])
  · -- Whoever starts them is not called from `CompleteAllPending`.
    rw [hs'.stack] at hb
    by_cases hbc : c = b
    · subst hbc
      cases hs'.top.symm.trans hy
      refine .quiet ?_ (yield_of_alone halone) ?_ <;>
        exact List.any_eq_false.mpr fun o ho => by simp [start_quiet (hrest o ho)]
    · have hb := (mem_cons.mp hb).resolve_left (Ne.symm hbc)
      rw [goOn_of_ne hs.stack hbc] at hy
      obtain ⟨hyy, hr, hl⟩ := (h.over_below hs hb hy).calm (.of_user hf)
      refine .quiet ?_ hyy hr
      rw [Bool.eq_false_iff]
      intro hll
      have := (hl hll).2
      simp [hcode, hop] at this

theorem resumeUser (hcode : x.code = []) {d : Nat} {z : Coroutine} (hz : s.coroutines[d]? = some z)
    (hzf : z.fiber = false) (hzc : z.code = []) : Inv (s.resume d) hand := by
  have hf := h.user_of_idle hs hcode
  refine h.resume hs (by simp [hcode]) hz (h.throw hs hf (by simp [hcode]))
    (fun b y hb hy => ?_) fun b y hy hr => ?_
  · rw [hs.stack] at hb
    rcases mem_cons.mp hb with rfl | hb
    · cases hs.top.symm.trans hy
      exact .user hzf (by simp [hzc]) (by simp [hcode]) (by simp [hcode])
    · obtain ⟨hyy, hr, -⟩ := (h.over_below hs hb hy).calm (.of_user hf)
      exact .user hzf (by simp [hzc]) hyy hr
  · obtain ⟨e, he, hed, -⟩ := h.ops b y hy _ hr
    exact h.not_placed_of_user hz hzc he hed

end

/-- The code that runs is no longer about to resume anybody who is suspended. -/
theorem drop (h : Inv s hand) (hready : ∀ d, hand d → ∀ y, s.coroutines[d]? = some y →
    y.state = .ready) : Inv s fun _ => False := by
  refine { h with placed := fun e he => ?_ }
  obtain ⟨y, hy, hf, hplace⟩ := h.placed e he
  refine ⟨y, hy, hf, ?_⟩
  cases hplace with
  | parked state code inHand =>
    refine .parked state code fun hd => (inHand hd).imp_left fun hh => ?_
    have := hready _ hh y hy
    rcases state with hst | hst <;> cases hst.symm.trans this
  | calling t pending code => exact .calling t pending code
  | queued state code => exact .queued state code
  | resumed state code top => exact .resumed state code top
  | ending state done code => exact .ending state done code

/-- The end of `CompletePending`: the caller in hand is resumed, or it is ready and stays so. -/
theorem resumeCaller (h : Inv s fun _ => False) (hs : OnTop s c below x) {d : Nat}
    (hcode : x.code = .resume d :: rest) : Inv ((s.goOn rest).resume d) fun _ => False := by
  have hwf := h.top_wellFormed hs
  rw [hcode] at hwf
  obtain ⟨-, hresume, halone, hwf⟩ := hwf
  have hbusy : Busy x := fun _ => by simp [hcode]
  have hpop : Inv (s.goOn rest) (· = d) :=
    h.pop hs hcode hwf rfl rfl (by simp) halone (fun hl => absurd hl (by simp [isLoop]))
      fun e he => he.elim (fun he => he.elim) fun he => (Op.resume.inj he).symm
  obtain ⟨e, -, hed, y, hy, hyf, hyc, hyst⟩ := h.ops c x hs.top (.resume d) (by rw [hcode]; simp)
  rw [hed] at hy
  have hdc : c ≠ d := by
    rintro rfl
    cases hs.top.symm.trans hy
    rw [hs.running] at hyst
    simp at hyst
  have hy' : (s.goOn rest).coroutines[d]? = some y := by rw [goOn_of_ne hs.stack hdc, hy]
  have hs' := hs.goOn rest
  have hquiet : ∀ (b : Nat) (z : Coroutine), (s.goOn rest).coroutines[b]? = some z →
      z.code.any isYield = false ∧ z.code.any isResume = false := by
    intro b z hz
    by_cases hbc : c = b
    · subst hbc
      cases hs'.top.symm.trans hz
      exact ⟨yield_of_alone halone, hresume⟩
    · rw [goOn_of_ne hs.stack hbc] at hz
      exact h.quiet_of_busy hs hbusy hz hbc
  have henter : y.state ≠ .running → y.state ≠ .finished →
      Inv ((s.goOn rest).enter d) fun _ => False := by
    intro hrun hfin
    refine hpop.enter hy' hrun hfin (fun b z hb hz => ?_) (fun b z hb hz => ?_)
      (fun b z hz hr => ?_) fun d' hd' hne => hne hd'
    · obtain ⟨hyy, hr⟩ := hquiet b z hz
      exact .user hyf (by simp [hyc, isStart]) hyy hr
    · rw [hs'.stack] at hb
      cases hb
      cases hs'.top.symm.trans hz
      intro id hc
      rw [show rest = _ from hc] at halone
      exact absurd halone (by simp [isAlone])
    · exact absurd rfl (List.any_eq_false.mp (hquiet b z hz).2 _ hr)
  unfold MultiplexedConnection.resume
  rw [hy']
  dsimp only
  rcases hyst with hst | hst | hst
  · -- The caller's timer has made it ready; it finds its call completed.
    rw [hst]
    refine hpop.drop fun d' hd' z hz => ?_
    rw [hd'] at hz
    rwa [← some.inj (hy'.symm.trans hz)]
  · rw [hst]
    exact henter (by simp [hst]) (by simp [hst])
  · rw [hst]
    exact henter (by simp [hst]) (by simp [hst])

/-! ## The reader and the writer -/

/-- The reader has only user code below it, and the writer behind its `write`. -/
theorem quiet_below (hf : x.fiber = true) (hb : Busy x) {st : ConnectionState} {y : Coroutine}
    (ho : Over st x y) : y.code.any isLoop = false ∧ y.code.any isYield = false ∧
      y.code.any isResume = false := by
  obtain ⟨hyy, hr, hl⟩ := ho.calm hb
  refine ⟨?_, hyy, hr⟩
  rw [Bool.eq_false_iff]
  exact fun hll => by cases hf.symm.trans (hl hll).1

section
variable (h : Inv s hand) (hs : OnTop s c below x) (hf : InFiber x)
include h hs hf

theorem failNext (hover : ∀ b y, b ∈ below → s.coroutines[b]? = some y → Over s.state x y →
      y.code.any isLoop = false ∧ y.code.any isYield = false ∧ y.code.any isResume = false)
    (hop : op = .readerEnd ∨ op = .readerCheck ∨ op = .writerEnd) :
    Inv (s.goOn [.failConnection status, op]) hand := by
  refine h.fiberGoOn hs hf ⟨⟨rfl, by simpa using hop⟩, fun o ho => ?_⟩ fun b y hb hy ho => ?_
  · rcases mem_pair.mp ho with rfl | rfl
    · rfl
    · rcases hop with rfl | rfl | rfl <;> rfl
  · obtain ⟨hl, hyy, hr⟩ := hover b y hb hy ho
    exact .quiet hl hyy hr

theorem endFiber : Inv s.endReader hand ∧ Inv s.endWriter hand := by
  have hend : ∀ {t}, Inv t hand → OnTop t c below x → Inv (t.leave .finished []) hand :=
    fun ht hts => ht.fiberLeave hts hf (by simp) (.ended hf.fiber rfl rfl) (by simp)
  constructor
  · have hnone : Inv { s with reader := none } hand :=
      { h with fibers := fun w hw => h.fibers w (.inr (hw.resolve_left (by simp))) }
    exact hend hnone (hs.congr rfl rfl)
  · have hnone : Inv { s with writer := none } hand :=
      { h with fibers := fun w hw => h.fibers w (.inl (hw.resolve_right (by simp))) }
    exact hend hnone (hs.congr rfl rfl)

theorem readerGoOn (hb : Busy x) {code : List Op}
    (hnew : WellFormed true code ∧ ∀ op ∈ code, op.isOwn = true) {d : FrameDecoder} {n : Nat} :
    Inv ({ s with decoder := d, lateResponses := n }.goOn code) hand := by
  have hd : Inv { s with decoder := d, lateResponses := n } hand := h.congr rfl rfl rfl
  refine hd.fiberGoOn (hs.congr rfl rfl) hf hnew fun b y _ _ ho => ?_
  exact ho.of_busy hb rfl fun hu => by cases hf.fiber.symm.trans hu

theorem readerLoop (hcode : x.code = [.readerLoop]) : Inv (s.readerLoop []) hand := by
  have hb : Busy x := fun _ => by simp [hcode]
  unfold MultiplexedConnection.readerLoop
  split
  · split <;> exact h.readerGoOn hs hf hb (by simp [WellFormed, Op.isOwn])
  · exact (h.endFiber hs hf).1

theorem readFailed (hb : Busy x) : Inv (s.readFailed []) hand :=
  h.readerGoOn hs hf hb (by simp [WellFormed, Op.isOwn])

theorem readReturns {o : Nat} (hcode : x.code = [.read o]) {result : ReadResult}
    {t : MultiplexedConnection} (ht : s.readReturns o [] result = some t) : Inv t hand := by
  have hb : Busy x := fun _ => by simp [hcode]
  unfold MultiplexedConnection.readReturns at ht
  split at ht
  · split at ht
    · cases ht
    · dsimp only at ht
      split at ht <;> cases ht <;> exact h.readerGoOn hs hf hb (by simp [WellFormed, Op.isOwn])
  · cases ht
    exact h.readFailed hs hf hb
  · cases ht
    exact h.readFailed hs hf hb
  · cases ht
    exact h.fiberLeave hs hf (by simp) (.reader hf.fiber (by simp) _ (.inr ⟨o, rfl⟩) rfl)
      (by simp [Op.isOwn])
  · cases ht
    exact h

theorem decodeNext (hcode : x.code = [.decodeNext]) : Inv (s.decodeNext []) hand := by
  have hb : Busy x := fun _ => by simp [hcode]
  unfold MultiplexedConnection.decodeNext
  split
  · exact h.readerGoOn hs hf hb (by simp [WellFormed, Op.isOwn])
  · next d frame _ =>
    have hgo : Inv ({ s with decoder := d }.goOn [.decodeNext]) hand :=
      h.readerGoOn hs hf hb (by simp [WellFormed, Op.isOwn])
    have hs' : OnTop { s with decoder := d } c below x := hs.congr rfl rfl
    dsimp only
    split
    · exact h.readerGoOn hs hf hb (by simp [WellFormed, Op.isOwn])
    · split
      · next p hfind =>
        unfold MultiplexedConnection.completePending
        split
        · exact hgo
        · next hopen =>
          refine maybeFinishDrain ?_ (hs'.congr rfl rfl) rfl
          refine hgo.completeInHand hs' rfl (by simp) rfl ?_ (find_some hfind).1
            (by simpa using hopen) _ _
          exact hgo.no_yield_of_busy (hs'.goOn [.decodeNext]) (fun _ => by simp) rfl
      · exact h.readerGoOn hs hf hb (by simp [WellFormed, Op.isOwn])
  · exact h.readerGoOn hs hf hb (by simp [WellFormed, Op.isOwn])

end

/-- Frames of calls that are over are dropped; the other calls are marked as sent. -/
theorem fillBatch (queue : List OutboundFrame) : ∀ {s : MultiplexedConnection}, Inv s hand →
    Inv (fillBatch queue s) hand ∧ (fillBatch queue s).frame = s.frame := by
  induction queue with
  | nil =>
    intro s h
    exact ⟨h.congr rfl rfl rfl, rfl⟩
  | cons frame queue ih =>
    intro s h
    have htaken : ∀ {t : MultiplexedConnection}, t.frame = s.frame → t.calls = s.calls →
        t.entries = s.entries → Inv (MultiplexedConnection.fillBatch queue t) hand ∧
          (MultiplexedConnection.fillBatch queue t).frame = s.frame := by
      intro t hframe hcalls hentries
      obtain ⟨hi, heq⟩ := ih (h.congr hframe hcalls hentries)
      exact ⟨hi, heq.trans hframe⟩
    unfold MultiplexedConnection.fillBatch
    dsimp only
    split
    · split
      · exact htaken rfl rfl rfl
      · split
        · exact htaken rfl rfl rfl
        · split
          · exact htaken rfl rfl rfl
          · refine htaken rfl rfl ?_
            simp only [entries, setPending, List.map_map]
            refine List.map_congr_left fun p _ => ?_
            simp only [Function.comp_apply, entry]
            split <;> rfl
    · exact ⟨h.congr rfl rfl rfl, rfl⟩

section
variable (h : Inv s hand) (hs : OnTop s c below x) (hf : InFiber x)
include h hs hf

theorem writerLoop : Inv (s.writerLoop []) hand := by
  unfold MultiplexedConnection.writerLoop
  split
  · next hopen =>
    split
    · exact h.fiberLeave hs hf (by simp) (.writer hf.fiber _ (.inl rfl) rfl) (by simp [Op.isOwn])
    · have hempty : Inv { s with writeBatch := [] } hand := h.congr rfl rfl rfl
      obtain ⟨hfill, hframe⟩ := hempty.fillBatch s.outbound
      simp only [frame, Prod.mk.injEq] at hframe
      obtain ⟨hst, hco, hstack, -⟩ := hframe
      dsimp only
      -- An open connection has nobody below its writer but callers and user code.
      have hover : ∀ {y} {code}, (code = [.writerLoop] ∨ ∃ o, code = [.write o]) →
          Over s.state x y → Over s.state { x with code := code } y := by
        intro y code hc ho
        have hne : s.state ≠ .closed := by
          intro hclosed
          simp [isOpen, hclosed] at hopen
        refine ⟨fun _ => ⟨hf.fiber, hc⟩, fun hl => ?_, fun hr => absurd (ho.resumes hr).2.2 hne⟩
        rcases ho.loops hl with ⟨hu, -⟩ | ⟨-, -, hclosed⟩
        · cases hf.fiber.symm.trans hu
        · exact absurd hclosed hne
      have hs' := hs.congr hstack hco
      split
      · refine hfill.fiberGoOn hs' hf (by simp [WellFormed, Op.isOwn]) fun b y _ _ ho => ?_
        rw [hst] at ho ⊢
        exact hover (.inl rfl) ho
      · refine hfill.fiberGoOn hs' hf (by simp [WellFormed, Op.isOwn]) fun b y _ _ ho => ?_
        rw [hst] at ho ⊢
        exact hover (.inr ⟨0, rfl⟩) ho
  · exact (h.endFiber hs hf).2

theorem writeFailed (hover : ∀ b y, b ∈ below → s.coroutines[b]? = some y → Over s.state x y →
      y.code.any isLoop = false ∧ y.code.any isYield = false ∧ y.code.any isResume = false) :
    Inv (s.writeFailed []) hand :=
  h.failNext hs hf hover (.inr (.inr rfl))

/-- `::write`, where a failure finds nobody on the call stack that is about to yield. -/
theorem writeReturns {o : Nat} (hcode : x.code = [.write o]) {result : WriteResult}
    (hyields : result = .zero ∨ result = .error → ∀ b y, b ∈ below → s.coroutines[b]? = some y →
      y.code.any isYield = false) {t : MultiplexedConnection}
    (ht : s.writeReturns o [] result = some t) : Inv t hand := by
  have hover : ∀ {y}, Over s.state x y →
      y.code.any isLoop = false ∧ y.code.any isResume = false := by
    intro y ho
    constructor <;> rw [Bool.eq_false_iff]
    · intro hl
      rcases ho.loops hl with ⟨hu, -⟩ | ⟨-, hc, -⟩
      · cases hf.fiber.symm.trans hu
      · cases hcode.symm.trans hc
    · intro hr
      cases hcode.symm.trans (ho.resumes hr).2.1
  have hgo : ∀ {w} {op}, op = .writerLoop ∨ (∃ o, op = .write o) →
      Inv ({ s with wire := w }.goOn [op]) hand := by
    intro w op hop
    have hw : Inv { s with wire := w } hand := h.congr rfl rfl rfl
    have hnew : WellFormed true [op] ∧ ∀ o ∈ [op], o.isOwn = true := by
      rcases hop with rfl | ⟨o, rfl⟩ <;> simp [WellFormed, Op.isOwn]
    refine hw.fiberGoOn (hs.congr rfl rfl) hf hnew fun b y _ _ ho => ?_
    obtain ⟨hl, hr⟩ := hover ho
    refine ⟨fun _ => ⟨hf.fiber, by simpa using hop⟩, fun hll => absurd (hl.symm.trans hll) (by simp),
      fun hrr => by cases hr.symm.trans hrr⟩
  unfold MultiplexedConnection.writeReturns at ht
  split at ht
  · split at ht
    · cases ht
    · dsimp only at ht
      split at ht <;> cases ht
      · exact hgo (.inr ⟨_, rfl⟩)
      · exact (hgo (.inl rfl)).maybeFinishDrain (hs.congr rfl rfl) rfl
  · cases ht
    refine h.writeFailed hs hf fun b y hb hy ho => ?_
    exact ⟨(hover ho).1, hyields (.inl rfl) b y hb hy, (hover ho).2⟩
  · cases ht
    refine h.writeFailed hs hf fun b y hb hy ho => ?_
    exact ⟨(hover ho).1, hyields (.inr rfl) b y hb hy, (hover ho).2⟩
  · cases ht
    exact h.fiberLeave hs hf (by simp)
      (.writer hf.fiber _ (.inr ⟨by simp, o, rfl⟩) rfl) (by simp [Op.isOwn])
  · cases ht
    exact h

end

end Inv

end CoroRpc.Client
