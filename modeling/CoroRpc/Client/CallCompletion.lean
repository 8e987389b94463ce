import CoroRpc.Client.ConnectionSteps

/-!
# Every call is completed once, and its caller is woken

A call that `CallEncoded` has accepted is completed at most once. When `FailConnection` or `Close`
has returned, the calls that were pending when it was called are completed. And a caller that is
suspended inside `CallEncoded` although its call is completed is one that the code which has
completed the call is about to resume: while user code runs, nobody sleeps on a call that is over.

All this needs two conditions on the run (`Guarded`). No write fails while the writer runs inside
the `WakeWriter` of `CallEncoded`: such a write fails the connection on top of the caller,
`CompletePending` marks the call of the caller completed and then resumes the caller, which runs;
that throws, the exception ends the writer in the middle of `CompleteAllPending`, the caller goes to
sleep on its completed call and the calls behind it in the loop are never completed.
And nobody calls `Close` from a caller that `FailConnection` has just
resumed while it has others to resume: the connection is closed already, so `Close` returns at once.
-/

namespace CoroRpc.Client

open Lib Protocol CoroRpc.Runtime List Op

namespace MultiplexedConnection

/-- Somebody on the call stack has registered its call and not yet suspended. -/
def callsBelow (s : MultiplexedConnection) : Bool :=
  s.callStack.any fun c => (s.coroutines[c]?).any fun x => x.code.any isYield

/-- No write fails under a call that is not suspended yet, and `Close` does not find a closed
    connection with calls that are still to be completed. -/
def Guarded (s : MultiplexedConnection) : Label → Prop
  | .writeReturns .zero | .writeReturns .error => s.callsBelow = false
  | .close _ => s.state = .closed → s.hasUnfinishedPending = false
  | _ => True

instance (s : MultiplexedConnection) : ∀ l, Decidable (s.Guarded l)
  | .writeReturns .zero | .writeReturns .error => inferInstanceAs (Decidable (_ = _))
  | .close _ => inferInstanceAs (Decidable (_ → _))
  | .create | .spawn | .attach | .call .. | .callMetadata .. | .beginDrain | .suspend _ | .finish
  | .resumeUser _ | .wake _ | .run _ | .timer _ | .ioReady _ | .tick | .failOrder _
  | .readReturns _ | .writeReturns (.accepted _) | .writeReturns .wouldBlock
  | .writeReturns .interrupted => inferInstanceAs (Decidable True)

/-- What the running coroutine does next; nothing if it is in user code. -/
def code (s : MultiplexedConnection) : List Op :=
  match s.callStack with
  | [] => []
  | c :: _ => ((s.coroutines[c]?).map Coroutine.code).getD []

/-- The caller of a pending call is suspended although the call is completed. -/
def Overslept (s : MultiplexedConnection) (p : PendingCall) : Prop :=
  p.completed = true ∧ ∃ y ∈ s.coroutines[p.coroutine]?, y.state = .waitEvent ∨ y.state = .waitTimer

instance (s : MultiplexedConnection) (p : PendingCall) : Decidable (s.Overslept p) :=
  inferInstanceAs (Decidable (_ ∧ _))

end MultiplexedConnection

/-- Nobody is in the hands of code outside the continuations. -/
abbrev noHand : Nat → Prop := fun _ => False

namespace Inv

open MultiplexedConnection

variable {s t : MultiplexedConnection} {c : Nat} {below : List Nat} {x : Coroutine}
  {rest : List Op} {l : Label}

/-- At first there is only the root. -/
theorem eq_root {limits : ConnectionLimits}
    (hx : (MultiplexedConnection.init limits).coroutines[c]? = some x) :
    c = 0 ∧ x.state = .running ∧ x.fiber = false ∧ x.code = [] := by
  cases c with
  | zero =>
    cases hx
    exact ⟨rfl, rfl, rfl, rfl⟩
  | succ c => exact absurd hx (by simp [MultiplexedConnection.init])

theorem init (limits : ConnectionLimits) : Inv (MultiplexedConnection.init limits) noHand where
  stacked :=
    { nodup := by simp [MultiplexedConnection.init]
      bound := by simp [MultiplexedConnection.init]
      running := fun c x hx => by simp [eq_root hx, MultiplexedConnection.init]
      shape := fun c x hx => by
        obtain ⟨-, hst, hf, hcode⟩ := eq_root hx
        exact ⟨fun _ => by simp [hf, hcode, WellFormed], fun h => absurd hst h⟩
      onTop := pairwise_singleton _ _
      yields := fun c x hx hy => absurd hy (by simp [eq_root hx]) }
  ledger := ⟨.nil, .nil, by simp [MultiplexedConnection.init, entries],
    by simp [MultiplexedConnection.init, entries], by simp [MultiplexedConnection.init],
    by simp [MultiplexedConnection.init], .nil⟩
  fibers w hw := by simp [MultiplexedConnection.init] at hw
  placed e he := absurd he (by simp [MultiplexedConnection.init, entries])
  ops c x hx op hop := absurd hop (by simp [eq_root hx])
  failing hst := absurd hst (by simp [MultiplexedConnection.init])
  fresh _ := rfl

/-! ## One step -/

section
variable (h : Inv s noHand) (hs : OnTop s c below x)
include h hs

theorem completeAll {ids : List UInt64} {status : CallStatus} {inClose : Bool} {entry : List Nat}
    (hcode : x.code = .completeAll ids status inClose entry :: rest)
    (ht : OpStep s x rest (.completeAll ids status inClose entry) .tick t) :
    Inv t noHand := by
  have hwf := h.top_wellFormed hs
  rw [hcode] at hwf
  obtain ⟨hne, hresume, halone, hwf⟩ := hwf
  obtain ⟨hst, hall, hentry⟩ := h.ops c x hs.top (.completeAll ids status inClose entry)
    (by rw [hcode]; simp)
  cases ids with
  | nil =>
    have hdone := completed_of_order hall
    have hpop : Inv (s.goOn rest) noHand :=
      h.pop hs hcode hwf rfl rfl (by simp) halone (fun _ => .inr hdone)
        fun d hd => hd.elim (fun hd => hd) fun hd => by cases hd
    cases ht
    refine hpop.endCompleteAll hs ⟨halone, fun _ hc => absurd hc hne⟩ hdone hentry
      (hst.elim .inr fun h => .inl h.1) fun hin => ?_
    rcases hst with hst | ⟨-, hin'⟩
    · exact hst
    · cases hin.symm.trans hin'
  | cons id ids =>
    cases ht
    split
    · next p hfind =>
      obtain ⟨hp, hpid⟩ := find_some hfind
      -- Of the calls that are not completed, only this one may have the id.
      have hrest : ∀ e ∈ s.entries, e.completed = false → e.requestId ≠ id → e.requestId ∈ ids :=
        fun e he ho hid => (mem_cons.mp (hall e he ho)).resolve_left hid
      unfold MultiplexedConnection.completePending
      split
      · next hdone =>
        refine h.shrink hs (.inl rfl) hcode fun e he ho => hrest e he ho fun hid => ?_
        obtain rfl := h.ledger.eq_of_requestId he (mem_map_of_mem hp) (hid.trans hpid.symm)
        cases hdone.symm.trans ho
      · next hopen =>
        have hself := goOn_self hs
        have hyield := h.no_yield (by rcases hst with hst | ⟨hst, -⟩ <;> simp [hst])
        have hhand : Inv ((s.complete p status none).goOn (.resume p.coroutine :: x.code)) noHand := by
          refine completeInHand ?_ hs ?_ ?_ ?_ ?_ hp (by simpa using hopen) _ _
          · rwa [hself]
          · simpa [hcode, isAlone] using halone
          · simp [hcode]
          · simpa [hcode, isResume] using hresume
          · rwa [hself]
        have hs' : OnTop (s.complete p status none) c below x := hs.congr rfl rfl
        refine maybeFinishDrain ?_ hs' (by simpa [isAlone] using halone)
        rw [← goOn_goOn _ (.resume p.coroutine :: x.code)]
        refine hhand.shrink (hs'.goOn _) (.inr ⟨_, rfl⟩)
          (by simp [hcode]; rfl) fun e he ho => ?_
        rw [goOn_entries, entries_complete] at he
        obtain ⟨q, hq, rfl⟩ := mem_map.mp he
        rw [Entry.complete_requestId]
        refine hrest q hq (Entry.open_of_complete ho) fun hid => ?_
        have := Entry.complete_completed.mpr (.inl (hid.trans hpid.symm))
        cases this.symm.trans ho
    · next hfind =>
      refine h.shrink hs (.inl rfl) hcode fun e he ho => ?_
      refine (mem_cons.mp (hall e he ho)).resolve_left ?_
      exact find_none (by simp [hfind]) e he

theorem opStep {op : Op} (hcode : x.code = op :: rest) (hok : s.Guarded l)
    (ht : s.opStep x rest op l = some t) : Inv t noHand := by
  have hwf := h.top_wellFormed hs
  rw [hcode] at hwf
  -- The own code of the reader and of the writer, other than `writerLoop` and `write`.
  have hown : x.fiber = true → op.isOwn = true → rest = [] → InFiber x := by
    rintro hf ho rfl
    refine ⟨hf, fun o hmem => ?_⟩
    rw [hcode, mem_singleton] at hmem
    exact hmem ▸ ho
  have hbusy : op ≠ .writerLoop → (∀ o, op ≠ .write o) → Busy x := by
    intro h1 h2 _
    rw [hcode]
    exact ⟨fun hc => h1 (cons.inj hc).1, fun o hc => h2 o (cons.inj hc).1⟩
  cases opStep_cases ht with
  | readerLoop =>
    obtain ⟨hf, rfl⟩ := hwf
    exact h.readerLoop hs (hown hf rfl rfl) hcode
  | read _ _ ht =>
    obtain ⟨hf, rfl⟩ := hwf
    exact h.readReturns hs (hown hf rfl rfl) hcode ht
  | readAwaited _ =>
    obtain ⟨hf, rfl⟩ := hwf
    split
    · exact h.readerGoOn hs (hown hf rfl rfl) (hbusy (by simp) (by simp)) (by simp [WellFormed, isOwn])
    · exact h.readFailed hs (hown hf rfl rfl) (hbusy (by simp) (by simp))
  | decodeNext =>
    obtain ⟨hf, rfl⟩ := hwf
    exact h.decodeNext hs (hown hf rfl rfl) hcode
  | readerCheck =>
    obtain ⟨hf, rfl⟩ := hwf
    split <;> exact h.readerGoOn hs (hown hf rfl rfl) (hbusy (by simp) (by simp))
      (by simp [WellFormed, isOwn])
  | readerEnd =>
    obtain ⟨hf, rfl⟩ := hwf
    exact (h.endFiber hs (hown hf rfl rfl)).1
  | writerLoop =>
    obtain ⟨hf, rfl⟩ := hwf
    exact h.writerLoop hs (hown hf rfl rfl)
  | write _ result ht =>
    obtain ⟨hf, rfl⟩ := hwf
    refine h.writeReturns hs (hown hf rfl rfl) hcode (fun hres b y hb hy => ?_) ht
    have hnone : s.callsBelow = false := by rcases hres with rfl | rfl <;> exact hok
    have := any_eq_false.mp hnone b (by rw [hs.stack]; exact mem_cons_of_mem _ hb)
    simpa [hy] using this
  | writeAwaited _ =>
    obtain ⟨hf, rfl⟩ := hwf
    split
    · refine h.fiberGoOn hs (hown hf rfl rfl) (by simp [WellFormed, isOwn]) fun b y _ _ ho => ?_
      obtain ⟨hl, hyy, hr⟩ := quiet_below hf (hbusy (by simp) (by simp)) ho
      exact .quiet hl hyy hr
    · exact h.writeFailed hs (hown hf rfl rfl) fun b y _ _ ho =>
        quiet_below hf (hbusy (by simp) (by simp)) ho
  | writerEnd =>
    obtain ⟨hf, rfl⟩ := hwf
    exact (h.endFiber hs (hown hf rfl rfl)).2
  | failConnection _ _ horder =>
    exact h.failConnection hs hcode fun e he ho => entry_of_unfinished horder he ho
  | completedAll => exact h.completeAll hs hcode (.completedAll ..)
  | completeAll => exact h.completeAll hs hcode (.completeAll ..)
  | resume _ =>
    exact h.resumeCaller hs hcode
  | returned _ =>
    obtain ⟨halone, hwf⟩ := hwf
    exact h.pop hs hcode hwf rfl rfl (by simp) halone (fun hl => absurd hl (by simp [isLoop]))
      fun d hd => hd.elim (fun hd => hd) fun hd => by cases hd
  | maybeFinishDrain =>
    obtain ⟨-, halone, hwf⟩ := hwf
    refine maybeFinishDrain ?_ hs halone
    exact h.pop hs hcode hwf rfl rfl (by simp) halone (fun hl => absurd hl (by simp [isLoop]))
      fun d hd => hd.elim (fun hd => hd) fun hd => by cases hd
  | yieldCall timed id =>
    obtain ⟨hf, rfl⟩ := hwf
    have hid := h.ops c x hs.top (.yieldCall timed id) (by rw [hcode]; simp)
    refine h.leave hs (by split <;> simp) (.call hf id rfl) (fun o ho => ?_)
      (by simp [hcode, isLoop]) (by simp [hcode, isResume]) fun e _ _ hplace => ?_
    · rw [mem_singleton.mp ho]
      exact hid
    · cases hplace with
      | calling t' pending code =>
        have := hcode.symm.trans code
        simp only [cons.injEq, yieldCall.injEq, and_true] at this
        exact ⟨pending, by split <;> simp, by rw [this.2]⟩
      | queued _ code | parked _ code _ | resumed _ code _ =>
        cases hcode.symm.trans code
      | ending _ _ code =>
        rw [hcode] at code
        cases code
  | callResumed _ =>
    obtain ⟨-, rfl⟩ := hwf
    exact h.callResumed hs hcode
  | callEnd _ =>
    obtain ⟨-, rfl⟩ := hwf
    exact h.callEnd hs hcode
  | startReader =>
    obtain ⟨hthrow, hstart⟩ := h.start hs hcode rfl
    split
    · next hr => exact hstart _ (.inl hr)
    · exact hthrow
  | startWriter =>
    obtain ⟨hthrow, hstart⟩ := h.start hs hcode rfl
    split
    · next hw => exact hstart _ (.inr hw)
    · exact hthrow

theorem userStep (hcode : x.code = []) (hok : s.Guarded l) (ht : s.userStep c l = some t) :
    Inv t noHand := by
  have hf := h.user_of_idle hs hcode
  have hspawn : ∀ {state}, state ≠ .running →
      Inv { s with coroutines := s.coroutines ++ [{ state := state, fiber := false, code := [] }] }
        noHand := by
    intro state hstate
    refine h.append fun y hy => ?_
    rw [mem_singleton.mp hy]
    exact ⟨hstate, .user rfl rfl, by simp⟩
  have hleave : ∀ {state}, state ≠ .running → Inv (s.leave state []) noHand := by
    intro state hstate
    exact h.leave hs hstate (.user hf rfl) (by simp) (by simp [hcode]) (by simp [hcode])
      fun e he hc _ => absurd hc (h.not_placed_of_user hs.top hcode he)
  have hself : s.goOn [] = s := hcode ▸ goOn_self hs
  unfold MultiplexedConnection.userStep at ht
  split at ht
  · cases ht
    exact hspawn (by simp)
  · cases ht
    exact hspawn (by simp)
  · cases ht
    exact h.attach hs hcode
  · cases ht
    exact h.call hs hcode (s.call_begun ..)
  · cases ht
    exact h.call hs hcode (s.callMetadata_begun ..)
  · cases ht
    exact h.beginDrain hs hcode
  · split at ht
    · next order horder =>
      cases ht
      by_cases hst : s.state = .closed ∨ s.state = .disconnected
      · rw [MultiplexedConnection.close, if_pos hst]
        have hgo : Inv (s.goOn []) noHand := by rwa [hself]
        refine hgo.push hs ⟨rfl, by simp⟩ (fun hwf => ⟨rfl, hwf⟩) rfl rfl
          (h.serials_completed fun e he => ?_)
        rcases hst with hst | hst
        · exact completed_of_finished (hok hst) he
        · rw [h.fresh hst] at he
          exact absurd he not_mem_nil
      · rw [not_or] at hst
        refine close ?_ hs rfl hst ?_ (fun e he ho => entry_of_unfinished horder he ho) ?_
        · rwa [hself]
        · rw [hself]
          exact h.no_yield_of_busy hs (.of_user hf) (by simp [hcode])
        · exact fun _ => ⟨by simp, rfl⟩
    · cases ht
  · split at ht
    · next hwait =>
      cases ht
      refine hleave ?_
      rintro rfl
      exact absurd hwait.2 (by simp [CoroutineState.isWaiting])
    · cases ht
  · split at ht
    · cases ht
      exact hleave (by simp)
    · cases ht
  · split at ht
    · next z hz =>
      split at ht
      · next hzc =>
        cases ht
        exact h.resumeUser hs hcode hz hzc.1 hzc.2
      · cases ht
    · cases ht
  · split at ht
    · next d y hy =>
      split at ht
      · next hyc =>
        cases ht
        refine h.restate (length_modify _ _ _) fun e z hz => ?_
        rcases getElem?_modify_cases hz with ⟨w, rfl, hw, rfl⟩ | ⟨-, hz⟩
        · cases hy.symm.trans hw
          refine .inr ⟨y, hw, rfl, rfl, ?_, ?_, rfl⟩ <;> intro hst <;>
            simp [hst, CoroutineState.isWaiting] at hyc
        · exact .inl hz
      · cases ht
    · cases ht
  · cases ht

end

theorem rootStep (h : Inv s noHand) (hs : s.callStack = [c]) (hx : s.coroutines[c]? = some x)
    (hcode : x.code = []) (ht : s.rootStep l = some t) : Inv t noHand := by
  have hquiet : ∀ (d : Nat) (y : Coroutine), s.coroutines[d]? = some y →
      y.code.any isLoop = false ∧ y.code.any isYield = false ∧ y.code.any isResume = false := by
    intro d y hy
    by_cases hd : d ∈ s.callStack
    · rw [hs, mem_singleton] at hd
      subst hd
      cases hx.symm.trans hy
      simp [hcode]
    · have hrests := (h.stacked.shape d y hy).rests fun hr => hd ((h.stacked.running d y hy).mp hr)
      exact ⟨hrests.quiet.1, hrests.quiet.2.2.1, hrests.quiet.2.1⟩
  obtain ⟨d, y, hy, ⟨hst, rfl⟩ | ⟨f, hst, rfl, hf⟩⟩ := rootStep_cases ht
  · refine h.enter hy (by simp [hst]) (by simp [hst]) (fun b z _ hz => ?_) (fun b z hb hz => ?_)
      (fun b z hz hr => ?_) fun _ hd _ => hd
    · obtain ⟨hl, hyy, hr⟩ := hquiet b z hz
      exact .quiet hl hyy hr
    · rw [hs] at hb
      cases hb
      cases hx.symm.trans hz
      simp [hcode]
    · exact absurd rfl (any_eq_false.mp (hquiet b z hz).2.2 _ hr)
  · refine h.restate (length_modify _ _ _) fun e z hz => ?_
    rcases getElem?_modify_cases hz with ⟨w, rfl, hw, rfl⟩ | ⟨-, hz⟩
    · cases hy.symm.trans hw
      obtain ⟨hcode, hfiber, hready⟩ := hf y
      exact .inr ⟨y, hw, hcode, hfiber, by rcases hst with h | h <;> simp [h],
        by rcases hst with h | h <;> simp [h], hready⟩
    · exact .inl hz

theorem step (h : Inv s noHand) (hok : s.Guarded l) (ht : s.step l = some t) : Inv t noHand := by
  obtain ⟨c, below, x, hs, hx, ⟨op, rest, hcode, ht⟩ | ⟨hcode, ht | ⟨rfl, ht⟩⟩⟩ := step_cases ht
  · exact h.opStep (h.onTop hs hx) hcode hok ht
  · exact h.userStep (h.onTop hs hx) hcode hok ht
  · exact h.rootStep hs hx hcode ht

theorem of_reaches {limits : ConnectionLimits}
    (h : Reaches MultiplexedConnection.step Guarded (MultiplexedConnection.init limits) s) :
    Inv s noHand :=
  h.invariant (p := fun s => Inv s noHand) (init limits) fun _ _ _ hi hok ht => hi.step hok ht

/-- Whoever sleeps on a completed call is about to be resumed by code on the call stack. -/
theorem overslept (h : Inv s noHand) {p : PendingCall} (hp : p ∈ s.pendingCalls)
    (hover : s.Overslept p) :
    ∃ c ∈ s.callStack, ∃ x ∈ s.coroutines[c]?, .resume p.coroutine ∈ x.code := by
  obtain ⟨hdone, y, hy, hst⟩ := hover
  obtain ⟨z, hz, -, hplace⟩ := h.placed p.entry (mem_map_of_mem hp)
  cases hz.symm.trans hy
  cases hplace with
  | calling t pending _ => cases hdone.symm.trans pending
  | queued state _ | resumed state _ _ | ending state _ _ =>
    rw [state] at hst
    simp at hst
  | parked _ _ inHand =>
    rcases inHand hdone with hd | ⟨d, x, hx, hr⟩
    · exact hd.elim
    · refine ⟨d, h.stacked.mem_of_any hx (.inr (.inl ?_)), x, hx, hr⟩
      exact any_eq_true.mpr ⟨_, hr, rfl⟩

/-- While user code runs, nobody is about to be resumed. -/
theorem not_overslept (h : Inv s noHand) (hcode : s.code = []) {p : PendingCall}
    (hp : p ∈ s.pendingCalls) : ¬ s.Overslept p := by
  intro hover
  obtain ⟨d, hd, y, hy, hr⟩ := h.overslept hp hover
  cases hs : s.callStack with
  | nil =>
    rw [hs] at hd
    exact absurd hd not_mem_nil
  | cons c below =>
    obtain ⟨x, hx⟩ : ∃ x, s.coroutines[c]? = some x :=
      ⟨_, getElem?_eq_getElem (h.stacked.bound c (by rw [hs]; simp))⟩
    have hnil : x.code = [] := by simpa [code, hs, hx] using hcode
    have hs' := h.onTop hs hx
    by_cases hcd : c = d
    · subst hcd
      cases hx.symm.trans hy
      rw [hnil] at hr
      exact absurd hr not_mem_nil
    · have hquiet := (h.quiet_of_busy hs' (.of_user (h.user_of_idle hs' hnil)) hy hcd).2
      exact absurd rfl (any_eq_false.mp hquiet _ hr)

end Inv

open MultiplexedConnection

/-- **Every accepted call is completed exactly once, and no wake-up is lost**, in the runs that are
    `Guarded`. No call is completed twice, and the calls that are not completed are in
    `pending_calls_`. When `Close` or `FailConnection` has returned, the calls that were pending when
    it was called are completed. Nobody is suspended in `CallEncoded` with a completed call while
    user code or the root runs; and while connection code runs, some code on the call stack is about
    to resume whoever is. -/
theorem calls_complete_once {limits : ConnectionLimits} {s : MultiplexedConnection}
    (h : Reaches step Guarded (init limits) s) :
    (s.completions.Nodup ∧ ∀ n < s.calls, n ∈ s.completions ∨ n ∈ s.serials) ∧
    (∀ entry rest, s.code = .returned entry :: rest → ∀ n ∈ entry, n ∈ s.completions) ∧
    (∀ p ∈ s.pendingCalls, s.Overslept p →
      ∃ c ∈ s.callStack, ∃ x ∈ s.coroutines[c]?, .resume p.coroutine ∈ x.code) ∧
    (s.code = [] → ∀ p ∈ s.pendingCalls, ¬ s.Overslept p) := by
  have hi := Inv.of_reaches h
  refine ⟨⟨hi.ledger.once, fun n hn => ?_⟩, fun entry rest hcode n hn => ?_,
    fun p hp hover => hi.overslept hp hover, fun hcode p hp => hi.not_overslept hcode hp⟩
  · refine (hi.ledger.logged n hn).imp_right fun hmem => ?_
    rwa [entries, map_map] at hmem
  · unfold code at hcode
    split at hcode
    · cases hcode
    · next c below hs =>
      cases hx : s.coroutines[c]? with
      | none => simp [hx] at hcode
      | some x =>
        have hxcode : x.code = .returned entry :: rest := by simpa [hx] using hcode
        exact hi.ops c x hx (.returned entry) (by rw [hxcode]; simp) n hn

/-- Two calls, and the root closes the connection. The last call that `Close` completes makes
    `MaybeFinishDrain` close the connection once more, before its caller is resumed. -/
theorem calls_complete_once_close :
    ∃ s, Reaches step Guarded (init {}) s ∧ s.code = [.returned [0, 1]] ∧ s.completions = [0, 1] ∧
      ∀ n ∈ [0, 1], n ∈ s.completions := by
  refine exists_reaches_of_exec (p := fun s => s.code = [.returned [0, 1]] ∧ s.completions = [0, 1])
    [.attach, .tick, .tick, .readReturns .wouldBlock, .tick, .tick, .spawn, .spawn, .run 3,
      .call ⟨{}, [], []⟩ kNoTimeout, .tick, .writeReturns (.accepted 32), .tick, .tick, .run 4,
      .call ⟨{}, [], []⟩ kNoTimeout, .tick, .writeReturns (.accepted 32), .tick, .tick,
      .close [1, 2], .tick, .tick, .tick, .tick, .finish, .tick, .tick, .tick, .tick, .tick, .tick,
      .finish, .tick] (by decide +kernel) fun s hreach hs => ?_
  obtain ⟨hcode, hcompl⟩ := hs
  exact ⟨hcode, hcompl, (calls_complete_once hreach).2.1 _ _ hcode⟩

/-- Two callers have called, and the write for the second has failed. -/
def failingWrite : List Label :=
  [.attach, .tick, .tick, .readReturns .wouldBlock, .tick, .tick, .spawn, .spawn,
    .run 3, .call ⟨{}, [], []⟩ kNoTimeout, .tick, .writeReturns (.accepted 32), .tick, .tick,
    .run 4, .call ⟨{}, [], []⟩ kNoTimeout, .tick, .writeReturns .error, .failOrder [2, 1],
    .tick, .tick, .tick]

/-- Two calls; the write of the second fails at once, under the second caller. The exception ends
    the writer. The root runs, the second caller sleeps on its completed call, and the first call
    is not completed although the connection is closed. When the reader then fails the connection
    once more, `FailConnection` returns and the first call is still not completed. -/
theorem write_fails_under_call :
    (∃ s, Reachable step (init {}) s ∧ s.code = [] ∧ s.state = .closed ∧
      (∃ p ∈ s.pendingCalls, s.Overslept p) ∧ ∃ p ∈ s.pendingCalls, p.completed = false) ∧
    ∃ s, Reachable step (init {}) s ∧ s.code = [.returned [0, 1], .readerEnd] ∧
      0 ∉ s.completions := by
  refine ⟨exists_reaches_of_exec failingWrite (by decide +kernel) fun _ _ hs => hs, ?_⟩
  exact exists_reaches_of_exec (failingWrite ++ [.run 1, .tick, .failOrder [1]])
    (by decide +kernel) fun _ _ hs => hs

end CoroRpc.Client
