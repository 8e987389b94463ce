import CoroRpc.Client.CallCompletion
import CoroRpc.Client.Traffic

/-!
# A connection that drains does not get stuck

`BeginDrain` makes the connection `CLOSING`; the last of three places to see that nothing is left
to send and nothing is pending has to close it: the completion of a call, the timeout of a call
and the end of a write, each by `MaybeFinishDrain`. `Drained` is what they look for. The writer
suspends in `Yield` without looking; so the invariant is that a connection which is drained while
its writer is at the head of its loop is about to run `MaybeFinishDrain` (`FinishNext`).

There is one way around it. The writer leaves out the frames of calls that have timed out while
they were queued; if that leaves nothing to write, it goes back to the head of its loop without a
`write` and so without `MaybeFinishDrain`. When those were the last calls, nobody closes the
connection any more. `Drains` excludes this, and is all that is needed: a write that
fails under a call (see `CallCompletion`) closes the connection.
-/

namespace CoroRpc.Client

open Lib Protocol CoroRpc.Runtime List Option MultiplexedConnection

/-- Code of the writer itself. -/
def Op.isWriter : Op → Bool
  | .writerLoop | .write _ | .writeAwaited _ | .writerEnd => true
  | _ => false

namespace MultiplexedConnection

/-- The condition of `MaybeFinishDrain`. -/
def Drained (s : MultiplexedConnection) : Prop :=
  s.state = .closing ∧ s.outbound = [] ∧ s.hasUnfinishedPending = false

/-- Drained, with the writer at the head of its loop. -/
def Stuck (s : MultiplexedConnection) : Prop :=
  s.Drained ∧ ∃ (c : Nat) (x : Coroutine), s.coroutines[c]? = some x ∧ x.code = [.writerLoop]

/-- `MaybeFinishDrain` runs next; at most the writer, which finds nothing to do, runs before. -/
def FinishNext (s : MultiplexedConnection) : Prop :=
  s.code.head? = some .maybeFinishDrain ∨
    (s.code = [.writerLoop] ∧ ∃ (c d : Nat) (below : List Nat) (y : Coroutine),
      s.callStack = c :: d :: below ∧ s.coroutines[d]? = some y ∧
        y.code.head? = some .maybeFinishDrain)

/-- The writer finds only frames it leaves out. -/
def discardsAll (s : MultiplexedConnection) : Bool :=
  decide ((fillBatch s.outbound { s with writeBatch := [] }).writeBatch = [])

/-- A draining writer that leaves out all it finds in the queue leaves some call unfinished. -/
def Drains (s : MultiplexedConnection) : Label → Prop
  | .tick => s.code = [.writerLoop] → s.state = .closing → s.outbound ≠ [] →
      s.discardsAll = true → s.hasUnfinishedPending = true
  | _ => True

instance (s : MultiplexedConnection) : ∀ l, Decidable (s.Drains l)
  | .tick => inferInstanceAs (Decidable (_ → _))
  | .create | .spawn | .attach | .call .. | .callMetadata .. | .beginDrain | .close _ | .suspend _
  | .finish | .resumeUser _ | .wake _ | .run _ | .timer _ | .ioReady _ | .failOrder _
  | .readReturns _ | .writeReturns _ => inferInstanceAs (Decidable True)

/-- What holds of the writer. -/
structure Wired (s : MultiplexedConnection) : Prop where
  writer : ∀ (d : Nat) (y : Coroutine), s.coroutines[d]? = some y → y.code.any Op.isWriter = true →
    s.writer = some d
  fresh : s.state = .disconnected → ∀ (d : Nat) (y : Coroutine), s.coroutines[d]? = some y →
    y.code.any Op.isWriter = false
  sleeps : ∀ (d : Nat) (y : Coroutine), s.coroutines[d]? = some y → y.fiber = true →
    y.state = .waitEvent → y.code = [.writerLoop]
  parked : ∀ (d : Nat) (y : Coroutine), s.coroutines[d]? = some y → y.fiber = true →
    y.state = .waitEvent → s.outbound = []
  /-- `MaybeFinishDrain` of the writer has closed the connection. -/
  under : ∀ (d : Nat) (y : Coroutine), s.coroutines[d]? = some y → .writerLoop ∈ y.code →
    y.code = [.writerLoop] ∨ s.state = .closed

/-! ## Moves -/

section
variable {s t : MultiplexedConnection} {c : Nat} {below : List Nat} {x : Coroutine}
  {code : List Op} {state : CoroutineState}

/-- The coroutines of `t` are those of `s`; some have been entered or have become ready. -/
def Restated (t s : MultiplexedConnection) : Prop :=
  ∀ (d : Nat) (y : Coroutine), t.coroutines[d]? = some y → ∃ z : Coroutine,
    s.coroutines[d]? = some z ∧ y.code = z.code ∧ y.fiber = z.fiber ∧
      (y.state = .waitEvent → z.state = .waitEvent)

theorem Restated.refl (h : t.coroutines = s.coroutines) : Restated t s :=
  fun _ y hy => ⟨y, h ▸ hy, rfl, rfl, fun h => h⟩

theorem Restated.trans {u : MultiplexedConnection} (h : Restated u t) (h' : Restated t s) :
    Restated u s := by
  intro d y hy
  obtain ⟨z, hz, hc, hf, hst⟩ := h d y hy
  obtain ⟨w, hw, hc', hf', hst'⟩ := h' d z hz
  exact ⟨w, hw, hc.trans hc', hf.trans hf', fun h => hst' (hst h)⟩

theorem Restated.enter (s : MultiplexedConnection) (c : Nat) : Restated (s.enter c) s := by
  intro d y hy
  rcases getElem?_modify_cases hy with ⟨z, -, hz, rfl⟩ | ⟨-, hz⟩
  · exact ⟨z, hz, rfl, rfl, fun h => by cases h⟩
  · exact ⟨y, hz, rfl, rfl, fun h => h⟩

theorem Restated.disconnect (s : MultiplexedConnection) : Restated s.disconnect s := by
  intro d y hy
  unfold MultiplexedConnection.disconnect closeSocket at hy
  split at hy
  · rw [getElem?_map] at hy
    obtain ⟨z, hz, rfl⟩ := Option.map_eq_some_iff.mp hy
    refine ⟨z, hz, ?_⟩
    split
    · exact ⟨rfl, rfl, fun h => by cases h⟩
    · exact ⟨rfl, rfl, fun h => h⟩
  · exact ⟨y, hy, rfl, rfl, fun h => h⟩

/-- The state is as before or later, and the queue is empty where the writer sleeps. -/
theorem Wired.requeued (h : Wired s) (hr : Restated t s) (hw : t.writer = s.writer)
    (hst : t.state = s.state ∨ (t.state = .closed) ∨ (t.state = .closing ∧ s.state ≠ .closed))
    (hout : ∀ (d : Nat) y, t.coroutines[d]? = some y → y.fiber = true → y.state = .waitEvent →
      t.outbound = []) : Wired t where
  writer d y hy hwr := by
    obtain ⟨z, hz, hc, -⟩ := hr d y hy
    rw [hw]
    exact h.writer d z hz (hc ▸ hwr)
  fresh hd d y hy := by
    obtain ⟨z, hz, hc, -⟩ := hr d y hy
    rcases hst with hst | hst | ⟨hst, -⟩
    · rw [hc]
      exact h.fresh (hst ▸ hd) d z hz
    · cases hst.symm.trans hd
    · cases hst.symm.trans hd
  sleeps d y hy hf hwait := by
    obtain ⟨z, hz, hc, hfz, hs⟩ := hr d y hy
    exact hc.trans (h.sleeps d z hz (hfz ▸ hf) (hs hwait))
  parked := hout
  under d y hy hmem := by
    obtain ⟨z, hz, hc, -⟩ := hr d y hy
    rw [hc] at hmem ⊢
    rcases h.under d z hz hmem with hloop | hclosed
    · exact .inl hloop
    · rcases hst with hst | hst | ⟨-, hst⟩
      · exact .inr (hst.trans hclosed)
      · exact .inr hst
      · exact absurd hclosed hst

/-- The queue is as before or empty. -/
theorem Wired.restated (h : Wired s) (hr : Restated t s) (hw : t.writer = s.writer)
    (hst : t.state = s.state ∨ (t.state = .closed) ∨ (t.state = .closing ∧ s.state ≠ .closed))
    (hout : t.outbound = s.outbound ∨ t.outbound = []) : Wired t := by
  refine h.requeued hr hw hst fun d y hy hf hwait => ?_
  obtain ⟨z, hz, -, hfz, hs⟩ := hr d y hy
  rcases hout with hout | hout
  · exact hout.trans (h.parked d z hz (hfz ▸ hf) (hs hwait))
  · exact hout

theorem Wired.modify {f : Coroutine → Coroutine} (h : Wired s) (hx : s.coroutines[c]? = some x)
    (hw : (f x).code.any Op.isWriter = true → x.code.any Op.isWriter = true)
    (hunder : .writerLoop ∈ (f x).code → (f x).code = [.writerLoop] ∨ s.state = .closed)
    (hpark : (f x).fiber = true → (f x).state = .waitEvent →
      (f x).code = [.writerLoop] ∧ s.outbound = []) : Wired (s.setCoroutine c f) := by
  refine ⟨fun d y hy hwr => ?_, fun hd d y hy => ?_, fun d y hy hf hwait => ?_,
    fun d y hy hf hwait => ?_, fun d y hy hc => ?_⟩ <;>
    rcases getElem?_modify_cases hy with ⟨z, rfl, hz, rfl⟩ | ⟨-, hy⟩
  · cases hx.symm.trans hz
    exact h.writer c x hx (hw hwr)
  · exact h.writer d y hy hwr
  · cases hx.symm.trans hz
    rw [Bool.eq_false_iff]
    exact fun hwr => by cases (h.fresh hd c x hx).symm.trans (hw hwr)
  · exact h.fresh hd d y hy
  · cases hx.symm.trans hz
    exact (hpark hf hwait).1
  · exact h.sleeps d y hy hf hwait
  · cases hx.symm.trans hz
    exact (hpark hf hwait).2
  · exact h.parked d y hy hf hwait
  · cases hx.symm.trans hz
    exact hunder hc
  · exact h.under d y hy hc

/-- Who goes on has code of the writer only if it is the writer. -/
theorem Wired.goOn (h : Wired s) (hs : OnTop s c below x)
    (hw : code.any Op.isWriter = true → x.code.any Op.isWriter = true)
    (hunder : .writerLoop ∈ code → code = [.writerLoop] ∨ s.state = .closed) :
    Wired (s.goOn code) := by
  rw [Inv.goOn_eq hs.stack]
  exact h.modify hs.top hw hunder fun _ hwait => by cases hs.running.symm.trans hwait

theorem Wired.leave (h : Wired s) (hs : OnTop s c below x)
    (hw : code.any Op.isWriter = true → x.code.any Op.isWriter = true)
    (hunder : .writerLoop ∈ code → code = [.writerLoop])
    (hpark : x.fiber = true → state = .waitEvent → code = [.writerLoop] ∧ s.outbound = []) :
    Wired (s.leave state code) := by
  have hset := h.modify (f := fun x => { x with state := state, code := code }) hs.top hw
    (fun hc => .inl (hunder hc)) hpark
  rw [MultiplexedConnection.leave, hs.stack]
  exact { hset with }

/-- `WakeWriter` leaves no writer asleep. -/
theorem wakeWriter_cases (s : MultiplexedConnection) : s.wakeWriter = s ∨
    ∃ w z, s.writer = some w ∧ s.coroutines[w]? = some z ∧ z.state = .waitEvent ∧
      s.wakeWriter = s.enter w := by
  unfold wakeWriter
  split
  · next w hw =>
    split
    · next z hz =>
      split
      · next hwait => exact .inr ⟨w, z, hw, hz, hwait, by simp [resume, hz, hwait]⟩
      · exact .inl rfl
    · exact .inl rfl
  · exact .inl rfl

theorem Restated.wakeWriter (s : MultiplexedConnection) : Restated s.wakeWriter s := by
  rcases wakeWriter_cases s with h | ⟨w, -, -, -, -, h⟩
  · rw [h]
    exact .refl rfl
  · rw [h]
    exact .enter s w

/-- After `WakeWriter` the writer does not sleep. -/
theorem awake (h : ∀ (d : Nat) (y : Coroutine), s.coroutines[d]? = some y → y.fiber = true →
      y.state = .waitEvent → y.code = [.writerLoop])
    (hw : ∀ (d : Nat) (y : Coroutine), s.coroutines[d]? = some y → y.code.any Op.isWriter = true →
      s.writer = some d) {d : Nat} {y : Coroutine} (hy : s.wakeWriter.coroutines[d]? = some y)
    (hf : y.fiber = true) : y.state ≠ .waitEvent := by
  intro hwait
  obtain ⟨z, hz, hc, hfz, hs⟩ := Restated.wakeWriter s d y hy
  have hd := hw d z hz (by rw [h d z hz (hfz ▸ hf) (hs hwait)]; rfl)
  rw [wakeWriter, hd] at hy
  simp only [hz, hs hwait, if_true, resume] at hy
  rw [MultiplexedConnection.enter, setCoroutine, getElem?_modify_self hz] at hy
  cases hy
  cases hwait

/-! ## Where nobody has to finish the drain -/

@[simp] theorem goOn_outbound (s : MultiplexedConnection) (code : List Op) :
    (s.goOn code).outbound = s.outbound := by
  unfold goOn
  split <;> rfl

@[simp] theorem wakeWriter_state (s : MultiplexedConnection) : s.wakeWriter.state = s.state := by
  rcases wakeWriter_cases s with h | ⟨w, -, -, -, -, h⟩ <;> rw [h]
  rfl

@[simp] theorem wakeWriter_writer (s : MultiplexedConnection) : s.wakeWriter.writer = s.writer := by
  rcases wakeWriter_cases s with h | ⟨w, -, -, -, -, h⟩ <;> rw [h]
  rfl

@[simp] theorem wakeWriter_outbound (s : MultiplexedConnection) :
    s.wakeWriter.outbound = s.outbound := by
  rcases wakeWriter_cases s with h | ⟨w, -, -, -, -, h⟩ <;> rw [h]
  rfl

theorem drained_goOn : (s.goOn code).Drained ↔ s.Drained := by
  unfold Drained hasUnfinishedPending
  rw [goOn_state, goOn_outbound, goOn_pendingCalls]

theorem code_goOn (hs : OnTop s c below x) :
    (s.goOn code).code = code := by
  simp [MultiplexedConnection.code, hs.stack, (hs.goOn code).top]

/-- The writer is well, and nobody has to finish the drain. -/
structure Calm (s : MultiplexedConnection) : Prop extends Wired s where
  unstuck : ¬ s.Stuck

theorem Wired.calm (h : Wired s) (hd : ¬ s.Drained) : Calm s :=
  ⟨h, fun hs => hd hs.1⟩

theorem Wired.calm_of_state (h : Wired s) (hst : s.state ≠ .closing) : Calm s :=
  h.calm fun hd => hst hd.1

theorem Calm.restated (h : Calm s) (hr : Restated t s) (hw : t.writer = s.writer)
    (hst : t.state = s.state) (hout : t.outbound = s.outbound)
    (hp : t.hasUnfinishedPending = s.hasUnfinishedPending) : Calm t := by
  refine ⟨h.toWired.restated hr hw (.inl hst) (.inl hout), fun hstuck => h.unstuck ?_⟩
  obtain ⟨⟨h1, h2, h3⟩, d, y, hy, hc⟩ := hstuck
  obtain ⟨z, hz, hcz, -⟩ := hr d y hy
  exact ⟨⟨hst ▸ h1, hout ▸ h2, hp ▸ h3⟩, d, z, hz, hcz ▸ hc⟩

theorem Calm.goOn (h : Calm s) (hs : OnTop s c below x)
    (hw : code.any Op.isWriter = true → x.code.any Op.isWriter = true)
    (hunder : .writerLoop ∈ code → s.state = .closed) : Calm (s.goOn code) := by
  refine ⟨h.toWired.goOn hs hw fun hmem => .inr (hunder hmem), fun hstuck => ?_⟩
  obtain ⟨hd, d, y, hy, hc⟩ := hstuck
  rw [drained_goOn] at hd
  rw [Inv.goOn_eq hs.stack] at hy
  rcases getElem?_modify_cases hy with ⟨z, -, -, rfl⟩ | ⟨-, hy⟩
  · have hclosed := hunder (by rw [show code = _ from hc]; simp)
    cases hclosed.symm.trans hd.1
  · exact h.unstuck ⟨hd, d, y, hy, hc⟩

theorem Calm.leave (h : Calm s) (hs : OnTop s c below x)
    (hw : code.any Op.isWriter = true → x.code.any Op.isWriter = true) (hne : .writerLoop ∉ code)
    (hpark : x.fiber = true → state ≠ .waitEvent) : Calm (s.leave state code) := by
  refine ⟨h.toWired.leave hs hw (fun hmem => absurd hmem hne) fun hf hst =>
    absurd hst (hpark hf), fun hstuck => ?_⟩
  obtain ⟨hd, d, y, hy, hc⟩ := hstuck
  rw [MultiplexedConnection.leave, hs.stack] at hd hy
  rcases getElem?_modify_cases hy with ⟨z, -, -, rfl⟩ | ⟨-, hy⟩
  · exact hne (by rw [show code = _ from hc]; simp)
  · exact h.unstuck ⟨hd, d, y, hy, hc⟩

theorem Calm.enter (h : Calm s) (c : Nat) : Calm (s.enter c) :=
  h.restated (.enter s c) rfl rfl rfl rfl

section
variable (h : Calm s) (hs : OnTop s c below x)
include h hs

theorem Calm.throw : Calm s.throw := by
  unfold MultiplexedConnection.throw
  rw [hs.stack]
  dsimp only
  rw [hs.top]
  dsimp only
  split
  · exact h.leave hs (by simp) (by simp) (by simp)
  · exact h.goOn hs (by simp) (by simp)

theorem Calm.pop {op : Op} {rest : List Op} (hcode : x.code = op :: rest) : Calm (s.goOn rest) := by
  refine h.goOn hs (fun hw => ?_) fun hmem => ?_
  · rw [hcode, any_cons, hw, Bool.or_true]
  · rcases h.under c x hs.top (hcode ▸ mem_cons_of_mem _ hmem) with hloop | hclosed
    · rw [(cons.inj (hcode.symm.trans hloop)).2] at hmem
      exact absurd hmem not_mem_nil
    · exact hclosed

theorem Calm.resume (d : Nat) : Calm (s.resume d) := by
  unfold MultiplexedConnection.resume
  split
  · exact h.throw hs
  · split
    · exact h
    · exact h.enter d
    · exact h.enter d
    · exact h.enter d
    · exact h.throw hs
    · exact h.throw hs
    · exact h.throw hs

end

/-! ## Functions of the connection -/

section
variable {rest : List Op} (h : Wired s) (hs : OnTop s c below x)
  (hw : rest.any Op.isWriter = true → x.code.any Op.isWriter = true)
include h hs hw

theorem Wired.endCompleteAll {inClose : Bool} {entry : List Nat}
    (hst : inClose = true ∨ s.state = .closed) : Calm (s.endCompleteAll inClose entry rest) := by
  obtain ⟨t, ht, hwired, hclosed, hs'⟩ : ∃ t, t = (if inClose then { s with state := .closed } else s) ∧
      Wired t ∧ t.state = .closed ∧ OnTop t c below x := by
    cases inClose with
    | true =>
      exact ⟨_, rfl, h.restated (.refl rfl) rfl (.inr (.inl rfl)) (.inl rfl), rfl, hs.congr rfl rfl⟩
    | false => exact ⟨s, rfl, h, hst.resolve_left (by simp), hs⟩
  unfold MultiplexedConnection.endCompleteAll
  rw [← ht]
  have hgo : Wired (t.goOn (.returned entry :: rest)) :=
    hwired.goOn hs' hw fun _ => .inr hclosed
  refine (hgo.restated (.wakeWriter _) (wakeWriter_writer _) (.inl (wakeWriter_state _))
    (.inl (wakeWriter_outbound _))).calm_of_state ?_
  rw [wakeWriter_state, goOn_state, hclosed]
  simp

theorem Wired.early (hst : s.state = .closed ∨ s.state = .disconnected) {entry : List Nat} :
    Calm (s.goOn (.returned entry :: rest)) := by
  have hgo : Wired (s.goOn (.returned entry :: rest)) := by
    refine h.goOn hs hw fun hmem => .inr ?_
    rcases hst with hst | hst
    · exact hst
    · have hmem := (mem_cons.mp hmem).resolve_left (by simp)
      have hwr := hw (List.any_eq_true.mpr ⟨_, hmem, rfl⟩)
      cases (h.fresh hst c x hs.top).symm.trans hwr
  refine hgo.calm_of_state ?_
  rcases hst with hst | hst <;> simp [hst]

/-- After `Close` nobody has to finish the drain. -/
theorem Wired.close {order : List UInt64}
    (horder : order = [] ∨ (s.hasUnfinishedPending = true ∧ .writerLoop ∉ rest)) :
    Calm (s.close order rest) := by
  unfold MultiplexedConnection.close
  split
  · next hst => exact h.early hs hw hst
  · next hst =>
    rw [not_or] at hst
    generalize ht : ({ s with state := .closing } : MultiplexedConnection).disconnect = t
    have hs' : OnTop t c below x := by rw [← ht]; exact OnTop.disconnect (hs.congr rfl rfl)
    have hwired : Wired t := by
      have hclosing : Wired { s with state := .closing } :=
        h.restated (.refl rfl) rfl (.inr (.inr ⟨rfl, hst.1⟩)) (.inl rfl)
      rw [← ht]
      exact hclosing.restated (.disconnect _) (disconnect_writer _) (.inl (disconnect_state _))
        (.inr rfl)
    have hpending : t.hasUnfinishedPending = s.hasUnfinishedPending := by
      rw [← ht]
      exact disconnect_hasUnfinished _
    cases order with
    | nil => exact hwired.endCompleteAll hs' hw (.inl rfl)
    | cons id ids =>
      have hgo : Wired (t.goOn (.completeAll (id :: ids) .connectionClosed true s.serials :: rest)) :=
        hwired.goOn hs' hw fun hmem => absurd hmem (by simp [(horder.resolve_left (by simp)).2])
      refine hgo.calm fun hd => ?_
      rw [drained_goOn] at hd
      have := hd.2.2
      rw [hpending, (horder.resolve_left (by simp)).1] at this
      cases this

theorem Wired.failConnection {status : CallStatus} {order : List UInt64} :
    Calm (s.failConnection status order rest) := by
  unfold MultiplexedConnection.failConnection
  split
  · next hst => exact h.early hs hw hst
  · have hs' : OnTop { s.disconnect with state := .closed } c below x := hs.disconnect.congr rfl rfl
    have hwired : Wired { s.disconnect with state := .closed } :=
      (h.restated (.disconnect s) (disconnect_writer s) (.inl (disconnect_state s)) (.inr rfl)).restated
        (.refl rfl) rfl (.inr (.inl rfl)) (.inl rfl)
    cases order with
    | nil => exact hwired.endCompleteAll hs' hw (.inr rfl)
    | cons id ids =>
      have hgo : Wired ({ s.disconnect with state := .closed }.goOn
          (.completeAll (id :: ids) status false s.serials :: rest)) :=
        hwired.goOn hs' hw fun _ => .inr rfl
      refine hgo.calm_of_state ?_
      simp

/-- Nor after `MaybeFinishDrain`, which is what a drain waits for. -/
theorem Wired.maybeFinishDrain
    (hunder : .writerLoop ∈ rest → rest = [.writerLoop] ∨ s.state = .closed) :
    Calm (s.maybeFinishDrain rest) := by
  unfold MultiplexedConnection.maybeFinishDrain
  split
  · exact h.close hs hw (.inl rfl)
  · next hnot =>
    refine (h.goOn hs hw hunder).calm fun hd => hnot ?_
    exact drained_goOn.mp hd

end

theorem Calm.completePending {rest : List Op} (h : Calm s) (hs : OnTop s c below x)
    (hw : rest.any Op.isWriter = true → x.code.any Op.isWriter = true)
    (hunder : .writerLoop ∈ rest → s.state = .closed) (p : PendingCall) (status : CallStatus)
    (response : Option Frame) : Calm (s.completePending p status response rest) := by
  unfold MultiplexedConnection.completePending
  split
  · exact h.goOn hs hw hunder
  · have hcomplete : Wired (s.complete p status response) :=
      h.toWired.restated (.refl rfl) rfl (.inl rfl) (.inl rfl)
    refine hcomplete.maybeFinishDrain (hs.congr rfl rfl) hw fun hmem => .inr (hunder ?_)
    exact (mem_cons.mp hmem).resolve_left (by simp)

theorem Wired.wake (h : Wired s) (hs : OnTop s c below x) (hstack : t.callStack = s.callStack)
    (hco : t.coroutines = s.coroutines) (hwr : t.writer = s.writer) (hst : t.state = s.state)
    (hcode : code.any Op.isWriter = false) : Wired (t.goOn code).wakeWriter := by
  have hgo : Wired (s.goOn code) := by
    refine h.goOn hs (fun hw => by cases hcode.symm.trans hw) fun hmem => ?_
    exact absurd rfl (any_eq_false.mp hcode _ hmem)
  have hco' : (t.goOn code).coroutines = (s.goOn code).coroutines := by
    rw [Inv.goOn_eq hs.stack, Inv.goOn_eq (hstack.trans hs.stack), setCoroutine, setCoroutine, hco]
  have hwr' : (t.goOn code).writer = (s.goOn code).writer := by
    rw [Inv.goOn_eq hs.stack, Inv.goOn_eq (hstack.trans hs.stack)]
    exact hwr
  refine hgo.requeued ((Restated.wakeWriter (t.goOn code)).trans (.refl hco'))
    ((wakeWriter_writer _).trans hwr') (.inl ?_) fun d y hy hf hwait => ?_
  · rw [wakeWriter_state, goOn_state, goOn_state, hst]
  · refine absurd hwait (awake (fun d y hy => ?_) (fun d y hy => ?_) hy hf)
    · exact hgo.sleeps d y (hco' ▸ hy)
    · rw [hwr']
      exact hgo.writer d y (hco' ▸ hy)

/-- The fields that neither the writer nor the drain looks at. -/
theorem Calm.congr (h : Calm s) (hco : t.coroutines = s.coroutines) (hw : t.writer = s.writer)
    (hst : t.state = s.state) (hout : t.outbound = s.outbound)
    (hp : t.pendingCalls = s.pendingCalls) : Calm t := by
  refine h.restated (.refl hco) hw hst hout ?_
  unfold hasUnfinishedPending
  rw [hp]

section
variable (h : Calm s) (hs : OnTop s c below x)
include h hs

theorem Calm.callEncoded (hst : s.state = .ready)
    (id : UInt64) (encoded : Bytes) (timeoutMs : Nat) :
    Calm (s.callEncoded c id encoded timeoutMs) := by
  unfold MultiplexedConnection.callEncoded
  split
  · exact h.congr rfl rfl rfl rfl rfl
  · split
    · exact h.congr rfl rfl rfl rfl rfl
    · refine Wired.calm_of_state (h.toWired.wake hs rfl rfl rfl rfl rfl) ?_
      rw [wakeWriter_state, goOn_state]
      exact fun hc => by cases hst.symm.trans hc

theorem Calm.call {timeoutMs : Nat} (ht : Begun s c timeoutMs t) : Calm t := by
  have hnext : ∀ n, Calm { s with nextRequestId := n } := fun _ => h.congr rfl rfl rfl rfl rfl
  cases ht with
  | refuse n _ _ => exact (hnext n).congr rfl rfl rfl rfl rfl
  | encoded n _ _ hst => exact (hnext n).callEncoded (hs.congr rfl rfl) hst _ _ _

theorem Calm.attach : Calm s.attach := by
  unfold MultiplexedConnection.attach
  split
  · exact h
  · next hst =>
    rw [not_not] at hst
    dsimp only
    generalize hcos : s.coroutines ++ [({ state := .init, fiber := true, code := [.readerLoop] } :
      Coroutine), { state := .init, fiber := true, code := [.writerLoop] }] = cos
    have hold : ∀ {d} {y}, cos[d]? = some y → s.coroutines[d]? = some y ∨
        (y.state = .init ∧ (y.code = [.readerLoop] ∨
          (y.code = [.writerLoop] ∧ d = s.coroutines.length + 1))) := by
      intro d y hy
      rw [← hcos] at hy
      rcases Nat.lt_or_ge d s.coroutines.length with hd | hd
      · rw [getElem?_append_left hd] at hy
        exact .inl hy
      · rw [getElem?_append_right hd] at hy
        refine .inr ?_
        obtain ⟨n, hn⟩ : ∃ n, d = s.coroutines.length + n := ⟨d - s.coroutines.length, by omega⟩
        rw [hn, Nat.add_sub_cancel_left] at hy
        match n with
        | 0 =>
          cases hy
          exact ⟨rfl, .inl rfl⟩
        | 1 =>
          cases hy
          exact ⟨rfl, .inr ⟨rfl, hn⟩⟩
        | n + 2 => cases hy
    have hattached : Wired { s with
        state := .ready
        fdOpen := true
        reader := some s.coroutines.length
        writer := some (s.coroutines.length + 1)
        coroutines := cos } := by
      refine ⟨fun d y hy hw => ?_, nofun, fun d y hy hf hwait => ?_,
        fun d y hy hf hwait => ?_, fun d y hy hc => ?_⟩ <;>
        rcases hold hy with hz | ⟨hinit, hc'⟩
      · cases (h.fresh hst d y hz).symm.trans hw
      · rcases hc' with hc' | ⟨-, hd⟩
        · exact absurd hw (by simp [hc', Op.isWriter])
        · exact congrArg some hd.symm
      · exact h.sleeps d y hz hf hwait
      · cases hinit.symm.trans hwait
      · exact h.parked d y hz hf hwait
      · cases hinit.symm.trans hwait
      · exact absurd rfl (any_eq_false.mp (h.fresh hst d y hz) _ hc)
      · rcases hc' with hc' | ⟨hc', -⟩
        · exact absurd hc (by simp [hc'])
        · exact .inl hc'
    have hx' : cos[c]? = some x := by
      rw [← hcos]
      exact getElem?_append_of_eq_some hs.top
    refine (hattached.goOn ⟨hs.stack, hx', hs.running⟩ (by simp [Op.isWriter]) (by simp)).calm_of_state ?_
    simp

end

/-! ## One step -/

/-- A connection that is drained while its writer is at the head of its loop is about to close. -/
structure Draining (s : MultiplexedConnection) : Prop extends Wired s where
  next : s.Stuck → s.FinishNext

/-- Where neither `MaybeFinishDrain` nor the writer's loop comes next, the connection is not
    stuck. -/
theorem Draining.calm (h : Draining s) (hhead : s.code.head? ≠ some .maybeFinishDrain)
    (hloop : s.code ≠ [.writerLoop]) : Calm s :=
  ⟨h.toWired, fun hstuck => (h.next hstuck).elim hhead fun hnext => hloop hnext.1⟩

theorem Calm.draining (h : Calm s) : Draining s := ⟨h.toWired, fun hs => absurd hs h.unstuck⟩

theorem Calm.beginDrain (h : Calm s) (hi : Inv s noHand) (hs : OnTop s c below x) :
    Draining s.beginDrain := by
  unfold MultiplexedConnection.beginDrain
  split
  · exact h.draining
  · next hst =>
    rw [not_not] at hst
    have hclosing : Wired { s with state := .closing } :=
      h.toWired.restated (.refl rfl) rfl (.inr (.inr ⟨rfl, by simp [hst]⟩)) (.inl rfl)
    have hs' : OnTop { s with state := .closing } c below x := hs.congr rfl rfl
    refine ⟨hclosing.wake hs' rfl rfl rfl rfl rfl, fun _ => ?_⟩
    have hgo := hs'.goOn [.maybeFinishDrain]
    rcases wakeWriter_cases ({ s with state := .closing }.goOn [.maybeFinishDrain]) with
      heq | ⟨w, z, hwriter, hz, hwait, heq⟩
    · rw [heq]
      refine .inl ?_
      rw [code_goOn hs']
      rfl
    · -- The writer wakes up at the head of its loop.
      rw [heq]
      have hcw : c ≠ w := by
        rintro rfl
        cases hgo.top.symm.trans hz
        cases hs.running.symm.trans hwait
      have hz' : s.coroutines[w]? = some z := by rwa [goOn_of_ne hs'.stack hcw] at hz
      obtain ⟨y, hy, hf⟩ := hi.fibers w (.inr (by rwa [Inv.goOn_eq hs'.stack] at hwriter))
      cases hz'.symm.trans hy
      have hcode := h.sleeps w z hz' hf hwait
      refine .inr ⟨?_, w, c, below, { x with code := [.maybeFinishDrain] }, ?_, ?_, rfl⟩
      · simp [MultiplexedConnection.code, MultiplexedConnection.enter, setCoroutine,
          getElem?_modify_self hz, hcode]
      · rw [MultiplexedConnection.enter, hgo.stack]
      · rw [MultiplexedConnection.enter, setCoroutine, getElem?_modify_of_ne hcw.symm, hgo.top]

/-- `CallEncoded` after its `Yield`: a call that has timed out is followed by
    `MaybeFinishDrain`. -/
theorem Calm.callResumed (h : Calm s) (hs : OnTop s c below x) (id : UInt64) :
    Draining (s.callResumed id []) := by
  unfold MultiplexedConnection.callResumed
  split
  · exact (h.goOn hs (by simp) (by simp)).draining
  · next p _ =>
    split
    · exact (h.goOn hs (by simp [Op.isWriter]) (by simp)).draining
    · have hcomplete : Wired (s.complete p .timeout p.response) :=
        h.toWired.restated (.refl rfl) rfl (.inl rfl) (.inl rfl)
      have hs' : OnTop (s.complete p .timeout p.response) c below x := hs.congr rfl rfl
      dsimp only
      split
      · have hgo : Draining ((s.complete p .timeout p.response).goOn
            [.maybeFinishDrain, .callEnd id]) := by
          refine ⟨hcomplete.goOn hs' (by simp [Op.isWriter]) (by simp), fun _ => .inl ?_⟩
          rw [code_goOn hs']
          rfl
        unfold queueCancel
        split
        · exact hgo
        · next hst =>
          rw [not_or, not_not] at hst
          split
          · exact hgo
          · split
            · exact hgo
            · refine Calm.draining (Wired.calm_of_state ?_ ?_)
              · exact hcomplete.wake hs' rfl rfl rfl rfl rfl
              · rw [wakeWriter_state, goOn_state]
                exact fun hc => by cases hst.1.symm.trans hc
      · exact (hcomplete.maybeFinishDrain hs' (by simp [Op.isWriter]) (by simp)).draining

theorem Calm.callEnd (h : Calm s) (hi : Inv s noHand) (hs : OnTop s c below x) {id : UInt64}
    (hcode : x.code = [.callEnd id]) : Calm (s.callEnd id []) := by
  unfold MultiplexedConnection.callEnd
  split
  · exact h.goOn hs (by simp) (by simp)
  · next p hfind =>
    have hdone := hi.completed_of_callEnd hs hcode
    have herase : Calm { s with
        pendingCalls := s.pendingCalls.filter (·.requestId != id)
        results := s.results ++ [⟨some p.serial, id, p.status, p.response⟩] } := by
      refine h.restated (.refl rfl) rfl rfl rfl ?_
      unfold hasUnfinishedPending
      rw [Bool.eq_iff_iff, List.any_eq_true, List.any_eq_true]
      refine ⟨fun ⟨q, hq, ho⟩ => ⟨q, mem_of_mem_filter hq, ho⟩, fun ⟨q, hq, ho⟩ => ?_⟩
      refine ⟨q, mem_filter.mpr ⟨hq, ?_⟩, ho⟩
      rw [bne_iff_ne]
      intro hid
      have : q.completed = true := hdone q.entry (mem_map_of_mem hq) hid
      simp [this] at ho
    exact herase.goOn (hs.congr rfl rfl) (by simp) (by simp)

theorem fillBatch_keeps (queue : List OutboundFrame) : ∀ s,
    (fillBatch queue s).coroutines = s.coroutines ∧ (fillBatch queue s).callStack = s.callStack ∧
      (fillBatch queue s).writer = s.writer ∧ (fillBatch queue s).state = s.state ∧
      (fillBatch queue s).hasUnfinishedPending = s.hasUnfinishedPending := by
  induction queue with
  | nil => exact fun s => ⟨rfl, rfl, rfl, rfl, rfl⟩
  | cons frame queue ih =>
    intro s
    unfold fillBatch
    dsimp only
    split
    · split
      · exact ih _
      · split
        · exact ih _
        · split
          · exact ih _
          · obtain ⟨h1, h2, h3, h4, h5⟩ := ih ({ s with
              outboundBytes := subSize s.outboundBytes frame.bytes.length
              writeBatch := s.writeBatch ++ frame.bytes }.setPending frame.requestId
                fun p => { p with sent := true })
            refine ⟨h1, h2, h3, h4, h5.trans ?_⟩
            simp only [hasUnfinishedPending, setPending, List.any_map]
            congr 1
            funext p
            simp only [Function.comp_apply]
            split <;> rfl
    · exact ⟨rfl, rfl, rfl, rfl, rfl⟩

theorem Wired.endWriter (h : Wired s) (hs : OnTop s c below x)
    (hown : x.code.any Op.isWriter = true) : Calm s.endWriter := by
  have heq : s.endWriter = { { s with writer := none }.setCoroutine c fun x =>
      { x with state := .finished, code := [] } with callStack := below } := by
    rw [MultiplexedConnection.endWriter, MultiplexedConnection.leave]
    simp only [hs.stack]
  have hother : ∀ {d} {y}, c ≠ d → s.coroutines[d]? = some y →
      y.code.any Op.isWriter = false := by
    intro d y hcd hy
    rw [Bool.eq_false_iff]
    intro hw
    exact hcd (some.inj ((h.writer c x hs.top hown).symm.trans (h.writer d y hy hw)))
  rw [heq]
  refine ⟨⟨fun d y hy hw => ?_, fun hd d y hy => ?_, fun d y hy hf hwait => ?_,
    fun d y hy hf hwait => ?_, fun d y hy hc => ?_⟩, fun hstuck => ?_⟩
  case refine_6 =>
    obtain ⟨-, d, y, hy, hc⟩ := hstuck
    rcases getElem?_modify_cases hy with ⟨z, -, -, rfl⟩ | ⟨hne, hy⟩
    · cases hc
    · have := hother hne hy
      simp [hc, Op.isWriter] at this
  all_goals rcases getElem?_modify_cases hy with ⟨z, rfl, hz, rfl⟩ | ⟨hne, hy⟩
  · cases hw
  · cases (hother hne hy).symm.trans hw
  · rfl
  · exact h.fresh hd d y hy
  · cases hwait
  · exact h.sleeps d y hy hf hwait
  · cases hwait
  · exact h.parked d y hy hf hwait
  · exact absurd hc not_mem_nil
  · exact h.under d y hy hc

/-- Here `Drains` is needed: the loop may find nothing to write. -/
theorem Draining.writerLoop (h : Draining s) (hi : Inv s noHand) (hs : OnTop s c below x)
    (hcode : x.code = [.writerLoop]) (hok : s.Drains .tick) : Draining (s.writerLoop []) := by
  have hown : x.code.any Op.isWriter = true := by rw [hcode]; rfl
  have hscode : s.code = [.writerLoop] := by simp [MultiplexedConnection.code, hs.stack, hs.top, hcode]
  -- There is no other writer.
  have honly : ∀ {d} {y}, s.coroutines[d]? = some y →
      y.code.any Op.isWriter = true → d = c := fun hy hw =>
    some.inj ((h.writer _ _ hy hw).symm.trans (h.writer c x hs.top hown))
  unfold MultiplexedConnection.writerLoop
  split
  · split
    · next hout =>
      have hleave : s.leave .waitEvent [.writerLoop] = { s.setCoroutine c fun x =>
          { x with state := .waitEvent, code := [.writerLoop] } with callStack := below } := by
        rw [MultiplexedConnection.leave, hs.stack]
      refine ⟨h.toWired.leave hs (fun _ => hown) (by simp) fun _ _ => ⟨rfl, hout⟩, fun hstuck => ?_⟩
      -- If the connection is drained, whoever has woken the writer runs `MaybeFinishDrain`.
      have hnext := h.next ⟨by rw [hleave] at hstuck; exact hstuck.1, c, x, hs.top, hcode⟩
      rcases hnext with hhead | ⟨-, c', d, below', y, hstack, hy, hhead⟩
      · rw [hscode] at hhead
        cases hhead
      · obtain ⟨rfl, hbelow⟩ := cons.inj (hs.stack.symm.trans hstack)
        have hcd : c ≠ d := (hs.stack ▸ hi.stacked).ne_below (by rw [hbelow]; simp)
        refine .inl ?_
        rw [hleave]
        simp [MultiplexedConnection.code, hbelow, setCoroutine, getElem?_modify_of_ne hcd, hy, hhead]
    · next hout =>
      obtain ⟨hco, hstack, hwr, hst, hp⟩ := fillBatch_keeps s.outbound { s with writeBatch := [] }
      have hok' : s.state = .closing → s.discardsAll = true → s.hasUnfinishedPending = true :=
        fun hc hd => hok hscode hc hout hd
      unfold discardsAll at hok'
      dsimp only at hok' ⊢
      generalize fillBatch s.outbound { s with writeBatch := [] } = t at hco hstack hwr hst hp hok' ⊢
      have hs' := hs.congr hstack hco
      have hwired : Wired t := by
        refine h.toWired.requeued (.refl hco) hwr (.inl hst) fun d y hy hf hwait => ?_
        rw [hco] at hy
        obtain rfl := honly hy (by rw [h.sleeps d y hy hf hwait]; rfl)
        cases hs.top.symm.trans hy
        cases hs.running.symm.trans hwait
      split
      · next hbatch =>
        -- Nothing to write: some call is unfinished.
        refine Calm.draining (Wired.calm ?_ fun hd => ?_)
        · exact hwired.goOn hs' (fun _ => hown) (by simp)
        · obtain ⟨hclosing, -, hfinished⟩ := drained_goOn.mp hd
          have hun := hok' (hst ▸ hclosing) (by simp [hbatch])
          cases hun.symm.trans (hp.symm.trans hfinished)
      · refine Calm.draining ⟨?_, fun hstuck => ?_⟩
        · exact hwired.goOn hs' (fun _ => hown) (by simp)
        · obtain ⟨-, d, y, hy, hc⟩ := hstuck
          rw [Inv.goOn_eq hs'.stack] at hy
          rcases getElem?_modify_cases hy with ⟨z, -, -, rfl⟩ | ⟨hne, hy⟩
          · cases hc
          · rw [hco] at hy
            exact absurd (honly hy (by rw [hc]; rfl)).symm hne
  · exact (h.toWired.endWriter hs hown).draining

theorem Calm.endReader (h : Calm s) (hs : OnTop s c below x) : Calm s.endReader := by
  have hnone : Calm { s with reader := none } := h.congr rfl rfl rfl rfl rfl
  exact hnone.leave (hs.congr rfl rfl) (by simp) (by simp) (by simp)

theorem Calm.read (h : Calm s) (hs : OnTop s c below x) (hcode : code.any Op.isWriter = false)
    {d : FrameDecoder} {n : Nat} :
    Draining ({ s with decoder := d, lateResponses := n }.goOn code) := by
  have hd : Calm { s with decoder := d, lateResponses := n } := h.congr rfl rfl rfl rfl rfl
  refine (hd.goOn (hs.congr rfl rfl) (fun hw => ?_) fun hmem => ?_).draining
  · cases hcode.symm.trans hw
  · exact absurd rfl (any_eq_false.mp hcode _ hmem)

variable {l : Label}

theorem Draining.opStep (h : Draining s) (hi : Inv s noHand) (hs : OnTop s c below x) {op : Op}
    {rest : List Op} (hcode : x.code = op :: rest) (hok : s.Drains l)
    (ht : s.opStep x rest op l = some t) : Draining t := by
  have hwf := hi.top_wellFormed hs
  rw [hcode] at hwf
  have hscode : s.code = op :: rest := by simp [MultiplexedConnection.code, hs.stack, hs.top, hcode]
  -- Only `MaybeFinishDrain` and the writer at its loop run while the connection is drained.
  have hcalm : op ≠ .maybeFinishDrain → op ≠ .writerLoop → Calm s := fun h1 h2 =>
    h.calm (by simpa [hscode] using h1) (by simp [hscode, h2])
  have hrest : rest.any Op.isWriter = true → x.code.any Op.isWriter = true := by
    intro hw
    rw [hcode, any_cons, hw, Bool.or_true]
  cases opStep_cases ht with
  | readerLoop =>
    have hq := hcalm (by simp) (by simp)
    obtain ⟨-, rfl⟩ := hwf
    unfold readerLoop
    split
    · split <;> exact hq.read hs rfl
    · exact (hq.endReader hs).draining
  | read _ _ ht =>
    have hq := hcalm (by simp) (by simp)
    obtain ⟨-, rfl⟩ := hwf
    unfold readReturns at ht
    split at ht
    · split at ht
      · cases ht
      · dsimp only at ht
        split at ht <;> obtain rfl := some.inj ht <;>
          exact hq.read hs rfl
    · cases ht
      exact hq.read hs rfl
    · cases ht
      exact hq.read hs rfl
    · cases ht
      exact Calm.draining (hq.leave hs (by simp [Op.isWriter]) (by simp) (by simp))
    · cases ht
      exact h
  | readAwaited _ =>
    have hq := hcalm (by simp) (by simp)
    obtain ⟨-, rfl⟩ := hwf
    split
    · exact hq.read hs rfl
    · exact hq.read hs rfl
  | decodeNext =>
    have hq := hcalm (by simp) (by simp)
    obtain ⟨-, rfl⟩ := hwf
    unfold decodeNext
    split
    · exact hq.read hs rfl
    · next d _ _ =>
      have hd : Calm { s with decoder := d } := hq.congr rfl rfl rfl rfl rfl
      dsimp only
      split
      · exact hq.read hs rfl
      · split
        · exact Calm.draining (hd.completePending (hs.congr rfl rfl) (by simp [Op.isWriter]) (by simp) _ _ _)
        · exact hq.read hs rfl
    · exact hq.read hs rfl
  | readerCheck =>
    have hq := hcalm (by simp) (by simp)
    obtain ⟨-, rfl⟩ := hwf
    split <;> exact hq.read hs rfl
  | readerEnd =>
    exact ((hcalm (by simp) (by simp)).endReader hs).draining
  | writerLoop =>
    obtain ⟨-, rfl⟩ := hwf
    exact h.writerLoop hi hs hcode hok
  | write o result ht =>
    have hq := hcalm (by simp) (by simp)
    obtain ⟨-, rfl⟩ := hwf
    have hown : x.code.any Op.isWriter = true := by rw [hcode]; rfl
    have hfailed : Calm (s.writeFailed []) :=
      hq.goOn hs (fun _ => hown) (by simp)
    unfold writeReturns at ht
    split at ht
    · split at ht
      · cases ht
      · dsimp only at ht
        have hwire : ∀ {w}, Calm { s with wire := w } := hq.congr rfl rfl rfl rfl rfl
        split at ht <;> cases ht
        · exact Calm.draining (hwire.goOn (hs.congr rfl rfl) (fun _ => hown) (by simp))
        · exact Calm.draining (hwire.toWired.maybeFinishDrain (hs.congr rfl rfl) (fun _ => hown) (by simp))
    · cases ht
      exact hfailed.draining
    · cases ht
      exact hfailed.draining
    · cases ht
      exact Calm.draining (hq.leave hs (fun _ => hown) (by simp) (by simp))
    · cases ht
      exact h
  | writeAwaited _ =>
    have hq := hcalm (by simp) (by simp)
    obtain ⟨-, rfl⟩ := hwf
    have hown : x.code.any Op.isWriter = true := by rw [hcode]; rfl
    split <;> exact Calm.draining (hq.goOn hs (fun _ => hown) (by simp))
  | writerEnd =>
    have hown : x.code.any Op.isWriter = true := by rw [hcode]; rfl
    exact (h.toWired.endWriter hs hown).draining
  | failConnection => exact (h.toWired.failConnection hs hrest).draining
  | completedAll status inClose entry =>
    refine (h.toWired.endCompleteAll hs hrest ?_).draining
    obtain ⟨hst, -⟩ := hi.ops c x hs.top (.completeAll [] status inClose entry) (by rw [hcode]; simp)
    exact hst.elim .inr fun h => .inl h.2
  | completeAll _ _ _ _ _ =>
    have hq := hcalm (by simp) (by simp)
    have hunder : ∀ {o}, o ≠ .writerLoop → .writerLoop ∈ o :: rest → s.state = .closed := by
      intro o ho hmem
      have hmem := (mem_cons.mp hmem).resolve_left (Ne.symm ho)
      refine (h.under c x hs.top (hcode ▸ mem_cons_of_mem _ hmem)).resolve_left fun hloop => ?_
      cases hcode.symm.trans hloop
    split
    · refine Calm.draining (hq.completePending hs ?_ (hunder ?_) _ _ _)
      · exact hrest
      · simp
    · refine Calm.draining (hq.goOn hs ?_ (hunder ?_))
      · exact hrest
      · simp
  | resume d =>
    have hq := (hcalm (by simp) (by simp)).pop hs hcode
    exact (hq.resume (hs.goOn rest) d).draining
  | returned _ =>
    exact ((hcalm (by simp) (by simp)).pop hs hcode).draining
  | maybeFinishDrain =>
    refine (h.toWired.maybeFinishDrain hs hrest fun hmem => .inr ?_).draining
    refine (h.under c x hs.top (hcode ▸ mem_cons_of_mem _ hmem)).resolve_left fun hloop => ?_
    cases hcode.symm.trans hloop
  | yieldCall _ _ =>
    obtain ⟨hf, rfl⟩ := hwf
    exact Calm.draining ((hcalm (by simp) (by simp)).leave hs (by simp [Op.isWriter]) (by simp)
      fun hf' => by cases hf.symm.trans hf')
  | callResumed _ =>
    obtain ⟨-, rfl⟩ := hwf
    exact (hcalm (by simp) (by simp)).callResumed hs _
  | callEnd _ =>
    obtain ⟨-, rfl⟩ := hwf
    exact ((hcalm (by simp) (by simp)).callEnd hi hs hcode).draining
  | startReader | startWriter =>
    have hq := hcalm (by simp) (by simp)
    split
    · exact ((hq.pop hs hcode).resume (hs.goOn rest) _).draining
    · exact (hq.throw hs).draining

theorem Calm.append (h : Calm s) {y : Coroutine} (hcode : y.code = []) (hf : y.fiber = false) :
    Calm { s with coroutines := s.coroutines ++ [y] } := by
  have hold : ∀ {d : Nat} {z : Coroutine}, (s.coroutines ++ [y])[d]? = some z →
      s.coroutines[d]? = some z ∨ z = y := by
    intro d z hz
    rcases getElem?_snoc hz with hz | ⟨-, rfl⟩
    · exact .inl hz
    · exact .inr rfl
  refine ⟨⟨fun d z hz hw => ?_, fun hd d z hz => ?_, fun d z hz hfz hwait => ?_,
    fun d z hz hfz hwait => ?_, fun d z hz hc => ?_⟩, fun hstuck => ?_⟩
  case refine_6 =>
    obtain ⟨hd, d, z, hz, hc⟩ := hstuck
    rcases hold hz with hz | rfl
    · exact h.unstuck ⟨hd, d, z, hz, hc⟩
    · cases hcode.symm.trans hc
  all_goals rcases hold hz with hz | rfl
  · exact h.writer d z hz hw
  · exact absurd hw (by simp [hcode])
  · exact h.fresh hd d z hz
  · simp [hcode]
  · exact h.sleeps d z hz hfz hwait
  · cases hf.symm.trans hfz
  · exact h.parked d z hz hfz hwait
  · cases hf.symm.trans hfz
  · exact h.under d z hz hc
  · exact absurd hc (by simp [hcode])

theorem Restated.ready {d : Nat} {f : Coroutine → Coroutine}
    (hf : ∀ y, (f y).code = y.code ∧ (f y).fiber = y.fiber ∧ (f y).state = .ready) :
    Restated (s.setCoroutine d f) s := by
  intro e y hy
  rcases getElem?_modify_cases hy with ⟨z, -, hz, rfl⟩ | ⟨-, hz⟩
  · exact ⟨z, hz, (hf z).1, (hf z).2.1, fun h => by cases (hf z).2.2.symm.trans h⟩
  · exact ⟨y, hz, rfl, rfl, fun h => h⟩

theorem Calm.userStep (h : Calm s) (hi : Inv s noHand) (hs : OnTop s c below x)
    (hcode : x.code = []) (ht : s.userStep c l = some t) : Draining t := by
  have hf := hi.user_of_idle hs hcode
  have hleave : ∀ {state}, Calm (s.leave state []) :=
    h.leave hs (by simp) (by simp) fun hf' => by cases hf.symm.trans hf'
  unfold MultiplexedConnection.userStep at ht
  split at ht
  · cases ht
    exact (h.append rfl rfl).draining
  · cases ht
    exact (h.append rfl rfl).draining
  · cases ht
    exact (h.attach hs).draining
  · cases ht
    exact (h.call hs (s.call_begun ..)).draining
  · cases ht
    exact (h.call hs (s.callMetadata_begun ..)).draining
  · cases ht
    exact h.beginDrain hi hs
  · split at ht
    · next order horder =>
      cases ht
      refine Calm.draining (h.toWired.close hs (by simp) ?_)
      cases order with
      | nil => exact .inl rfl
      | cons id ids =>
        refine .inr ⟨?_, by simp⟩
        have hmem : id ∈ s.unfinished := (isPerm_iff.mp horder).mem_iff.mp mem_cons_self
        obtain ⟨p, hp, -⟩ := mem_map.mp hmem
        exact List.any_eq_true.mpr ⟨p, mem_of_mem_filter hp, (mem_filter.mp hp).2⟩
    · cases ht
  · split at ht
    · cases ht
      exact hleave.draining
    · cases ht
  · split at ht
    · cases ht
      exact hleave.draining
    · cases ht
  · split at ht
    · split at ht
      · cases ht
        exact (h.resume hs _).draining
      · cases ht
    · cases ht
  · split at ht
    · split at ht
      · cases ht
        exact Calm.draining (h.restated (.ready fun y => ⟨rfl, rfl, rfl⟩) rfl rfl rfl rfl)
      · cases ht
    · cases ht
  · cases ht

theorem Calm.rootStep (h : Calm s) (ht : s.rootStep l = some t) : Calm t := by
  obtain ⟨d, y, hy, ⟨-, rfl⟩ | ⟨f, -, rfl, hf⟩⟩ := rootStep_cases ht
  · exact h.enter _
  · exact h.restated (.ready hf) rfl rfl rfl rfl

theorem Draining.step (h : Draining s) (hi : Inv s noHand) (hok : s.Drains l)
    (ht : s.step l = some t) : Draining t := by
  obtain ⟨c, below, x, hs, hx, ⟨op, rest, hcode, ht⟩ | ⟨hcode, ht⟩⟩ := step_cases ht
  · exact h.opStep hi (hi.onTop hs hx) hcode hok ht
  · have hscode : s.code = [] := by simp [MultiplexedConnection.code, hs, hx, hcode]
    have hcalm := h.calm (by simp [hscode]) (by simp [hscode])
    rcases ht with ht | ⟨-, ht⟩
    · exact hcalm.userStep hi (hi.onTop hs hx) hcode ht
    · exact (hcalm.rootStep ht).draining

/-! ## A closed connection stays closed -/

theorem endCompleteAll_closed (hst : s.state = .closed) {rest : List Op} (inClose : Bool)
    (entry : List Nat) : (s.endCompleteAll inClose entry rest).state = .closed := by
  unfold MultiplexedConnection.endCompleteAll
  cases inClose <;> simp [hst]

theorem step_closed (hst : s.state = .closed) (ht : s.step l = some t) : t.state = .closed := by
  obtain ⟨c, below, old, -, -, hdeed⟩ := Deed.of_step ht
  exact hdeed.closed hst

/-! ## Every run -/

/-- The writer has failed under a call: the next step closes the connection. -/
def Doomed (s : MultiplexedConnection) : Prop :=
  s.state = .ready ∧ ∃ status rest, s.code = .failConnection status :: rest

/-- What comes next is the `FailConnection` of the writer. -/
theorem Doomed.step (h : s.Doomed) (ht : s.step l = some t) : t.state = .closed := by
  obtain ⟨hst, status, rest, hcode⟩ := h
  obtain ⟨c, below, x, hs, hx, hcases⟩ := step_cases ht
  have hxcode : x.code = .failConnection status :: rest := by
    simpa [MultiplexedConnection.code, hs, hx] using hcode
  rw [hxcode] at hcases
  obtain ⟨op, rest', heq, ht⟩ | ⟨hnil, -⟩ := hcases
  · cases heq
    cases opStep_cases ht with
    | failConnection _ order _ =>
      rw [MultiplexedConnection.failConnection, if_neg (by simp [hst])]
      cases order with
      | nil => exact endCompleteAll_closed rfl _ _
      | cons id ids => exact goOn_state _ _
  · cases hnil

theorem doomed_of_writeFails (hi : Inv s noHand) {result : WriteResult}
    (hres : result = .zero ∨ result = .error) (hcalls : s.callsBelow = true)
    (ht : s.step (.writeReturns result) = some t) : t.Doomed := by
  obtain ⟨d, hd, hany⟩ := List.any_eq_true.mp hcalls
  obtain ⟨y, hy, hyield⟩ := (Option.any_eq_true _ _).mp hany
  have hst := hi.stacked.yields d y hy hyield
  obtain ⟨c, below, x, hs, hx, ⟨op, rest, hcode, ht⟩ | ⟨-, ht | ⟨-, ht⟩⟩⟩ := step_cases ht
  · cases opStep_cases ht with
    | write o _ ht =>
      rcases hres with rfl | rfl <;> obtain rfl := some.inj ht <;>
        exact ⟨(goOn_state _ _).trans hst, .connectionClosed, _, code_goOn (hi.onTop hs hx)⟩
  · cases ht
  · cases ht

/-- What holds in every state of a run that `Drains`. -/
def Safe (s : MultiplexedConnection) : Prop :=
  (Inv s noHand ∧ Draining s) ∨ s.Doomed ∨ s.state = .closed

theorem Safe.step (h : Safe s) (hok : s.Drains l) (ht : s.step l = some t) : Safe t := by
  rcases h with ⟨hi, hd⟩ | hdoomed | hclosed
  · by_cases hg : s.Guarded l
    · exact .inl ⟨hi.step hg ht, hd.step hi hok ht⟩
    · -- Outside the condition of `CallCompletion` the connection is closed, or about to be.
      unfold Guarded at hg
      split at hg
      · exact .inr (.inl (doomed_of_writeFails hi (.inl rfl) (by simpa using hg) ht))
      · exact .inr (.inl (doomed_of_writeFails hi (.inr rfl) (by simpa using hg) ht))
      · rw [Classical.not_imp] at hg
        exact .inr (.inr (step_closed hg.1 ht))
      · exact absurd trivial hg
  · exact .inr (.inr (hdoomed.step ht))
  · exact .inr (.inr (step_closed hclosed ht))

theorem Draining.init (limits : ConnectionLimits) :
    Draining (MultiplexedConnection.init limits) := by
  refine ⟨⟨fun d y hy hw => ?_, fun _ d y hy => ?_, fun d y hy hf => ?_, fun _ _ _ _ _ => rfl,
    fun d y hy hc => ?_⟩, fun hs => absurd hs.1.1 (by simp [MultiplexedConnection.init])⟩
  · exact absurd hw (by simp [Inv.eq_root hy])
  · simp [Inv.eq_root hy]
  · cases hf.symm.trans (Inv.eq_root hy).2.2.1
  · exact absurd hc (by simp [Inv.eq_root hy])

end

def writerParked (s : MultiplexedConnection) : Prop :=
  ∃ w ∈ s.writer, ∃ x ∈ s.coroutines[w]?, x.state = .waitEvent

instance (s : MultiplexedConnection) : Decidable s.writerParked :=
  inferInstanceAs (Decidable (∃ w ∈ s.writer, _))

end MultiplexedConnection

open MultiplexedConnection

/-- **A draining connection does not get stuck**, in the runs that `Drains`: whenever the
    connection is closing and its writer is suspended in `Yield`, nothing is queued and some call is
    unfinished, unless the code that runs is just about to run `MaybeFinishDrain`. So it never is
    stuck while user code or the root runs. -/
theorem drain_progress {limits : ConnectionLimits} {s : MultiplexedConnection}
    (h : Reaches step Drains (init limits) s) (hst : s.state = .closing) (hw : s.writerParked) :
    s.outbound = [] ∧
      ((∃ p ∈ s.pendingCalls, p.completed = false) ∨ s.code.head? = some .maybeFinishDrain) := by
  have hsafe : Safe s := h.invariant (p := Safe) (.inl ⟨Inv.init limits, Draining.init limits⟩)
    fun _ _ _ hs hok ht => hs.step hok ht
  rcases hsafe with ⟨hi, hd⟩ | ⟨hready, -⟩ | hclosed
  · obtain ⟨w, hw, x, hx, hwait⟩ := hw
    obtain ⟨y, hy, hf⟩ := hi.fibers w (.inr hw)
    cases hx.symm.trans hy
    have hout := hd.parked w x hx hf hwait
    refine ⟨hout, ?_⟩
    by_cases hfin : s.hasUnfinishedPending = true
    · obtain ⟨p, hp, ho⟩ := List.any_eq_true.mp hfin
      exact .inl ⟨p, hp, by simpa using ho⟩
    · have hstuck : s.Stuck :=
        ⟨⟨hst, hout, by simpa using hfin⟩, w, x, hx, hd.sleeps w x hx hf hwait⟩
      rcases hd.next hstuck with hhead | ⟨hloop, c, d, below, y, hstack, -⟩
      · exact .inr hhead
      · -- Whoever runs at the head of the loop is the writer, which is suspended.
        obtain ⟨z, hz⟩ : ∃ z, s.coroutines[c]? = some z :=
          ⟨_, getElem?_eq_getElem (hi.stacked.bound c (by rw [hstack]; simp))⟩
        have hcode : z.code = [.writerLoop] := by
          simpa [MultiplexedConnection.code, hstack, hz] using hloop
        have hwriter := hd.writer c z hz (by rw [hcode]; rfl)
        rw [show s.writer = some w from hw] at hwriter
        cases hwriter
        cases (hi.onTop hstack hx).running.symm.trans hwait
  · cases hready.symm.trans hst
  · cases hclosed.symm.trans hst

/-- One call is on its way and the root starts to drain: the writer goes back to sleep, the call is
    unfinished. -/
theorem drain_progress_one_call :
    ∃ s, Reaches step Drains (init {}) s ∧ s.state = .closing ∧ s.writerParked ∧ s.code = [] ∧
      s.outbound = [] ∧ ∃ p ∈ s.pendingCalls, p.completed = false := by
  obtain ⟨s, hreach, hst, hw, hcode⟩ : ∃ s, Reaches step Drains (init {}) s ∧ s.state = .closing ∧
      s.writerParked ∧ s.code = [] :=
    exists_reaches_of_exec [.attach, .tick, .tick, .readReturns .wouldBlock, .tick, .tick, .spawn,
      .run 3, .call ⟨{}, [], []⟩ kNoTimeout, .tick, .writeReturns (.accepted 32), .tick, .tick,
      .beginDrain, .tick, .tick] (by decide +kernel) fun _ _ hs => hs
  obtain ⟨hout, hopen | hhead⟩ := drain_progress hreach hst hw
  · exact ⟨s, hreach, hst, hw, hcode, hout, hopen⟩
  · rw [hcode] at hhead
    cases hhead

/-- The write of the first call blocks, the second call is queued, the root starts to drain, and both
    calls time out. The first write goes through; the frame of the second call is left out. The
    connection is closing, its writer is suspended, nothing is queued and no call is left, and the
    root runs: nobody will close the connection. -/
theorem drain_stuck :
    ∃ s, Reachable step (init {}) s ∧ s.state = .closing ∧ s.writerParked ∧ s.code = [] ∧
      s.outbound = [] ∧ s.pendingCalls = [] := by
  exact exists_reaches_of_exec [.attach, .tick, .tick, .readReturns .wouldBlock, .tick, .tick,
    .spawn, .spawn, .run 3, .call ⟨{}, [], []⟩ 5, .tick, .writeReturns .wouldBlock, .tick, .run 4,
    .call ⟨{}, [], []⟩ 5, .tick, .beginDrain, .tick, .timer 3, .run 3, .tick, .tick, .tick, .finish,
    .timer 4, .run 4, .tick, .tick, .finish, .ioReady 2, .run 2, .tick,
    .writeReturns (.accepted 32), .tick, .tick] (by decide +kernel) fun _ _ hs => hs

end CoroRpc.Client
