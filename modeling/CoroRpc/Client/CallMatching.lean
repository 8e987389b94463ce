import CoroRpc.Client.CallCompletion
import CoroRpc.Client.Traffic
import Mathlib.Data.List.Perm.Basic

/-!
# A response goes to the call that has asked for it

`Call(metadata, body, timeout)` numbers the calls of a connection with `NextRequestId`, which does
not come around in fewer than 2^64 calls. So no two calls have the same id, whatever happens to
them: `pending_calls_` never holds two calls under one id, and an id whose call has returned is
never given out again. A RESPONSE can therefore complete the call it answers and no other, and a
RESPONSE for a call that is over is counted and dropped.

The results hold of every run of the connection, also of those in which a write fails under a call
(see `CallCompletion`): all that can go wrong there is that a call is not completed.
-/

namespace CoroRpc.Client

open Lib Protocol CoroRpc.Runtime List Op PendingCall

namespace Traffic

def callsMade (T : Traffic) : Nat := T.results.length + T.pendingCalls.length

/-- The ids that calls have been given. A call that is refused before it gets one returns 0. -/
def usedIds (T : Traffic) : List UInt64 :=
  T.pendingCalls.map requestId ++ (T.results.map CallResult.requestId).filter fun id => id != 0

/-- The first `k` ids have been given out, each at most once. -/
structure Numbered (T : Traffic) (k : Nat) : Prop where
  nodup : T.usedIds.Nodup
  bound : ∀ id ∈ T.usedIds, 0 < id.toNat ∧ id.toNat ≤ k
  few : k ≤ T.callsMade
  next : k + 1 < 2 ^ 64 → T.nextRequestId.toNat = k + 1

structure Matched (T : Traffic) : Prop where
  numbered : ∃ k, T.Numbered k
  pending : ∀ p ∈ T.pendingCalls, p.status = .ok → Answers p.requestId p.response
  returned : ∀ r ∈ T.results, r.status = .ok → Answers r.requestId r.response

end Traffic

namespace MultiplexedConnection

/-- Calls are made through the metadata overload, and fewer than 2^64 of them. -/
def Automatic (s : MultiplexedConnection) : Label → Prop
  | .call .. => False
  | .callMetadata .. => s.traffic.callsMade + 1 < 2 ^ 64
  | _ => True

instance (s : MultiplexedConnection) : ∀ l, Decidable (s.Automatic l)
  | .call .. => inferInstanceAs (Decidable False)
  | .callMetadata .. => inferInstanceAs (Decidable (_ < _))
  | .create | .spawn | .attach | .beginDrain | .close _ | .suspend _ | .finish | .resumeUser _
  | .wake _ | .run _ | .timer _ | .ioReady _ | .tick | .failOrder _ | .readReturns _
  | .writeReturns _ => inferInstanceAs (Decidable True)

/-- The calls are matched, and no code is about to report success for an unanswered one. -/
structure Matched (s : MultiplexedConnection) : Prop where
  traffic : s.traffic.Matched
  faults : ∀ op ∈ s.codes.flatten, op.completesOk = false

end MultiplexedConnection

namespace Traffic

variable {T T' : Traffic} {k : Nat}

theorem Numbered.congr (h : T.Numbered k)
    (hp : T'.pendingCalls.map requestId = T.pendingCalls.map requestId)
    (hr : T'.results = T.results) (hn : T'.nextRequestId = T.nextRequestId) : T'.Numbered k := by
  have hused : T'.usedIds = T.usedIds := by rw [usedIds, usedIds, hp, hr]
  have hlen : T'.pendingCalls.length = T.pendingCalls.length := by
    rw [← length_map (f := requestId), hp, length_map]
  refine ⟨hused ▸ h.nodup, hused ▸ h.bound, ?_, ?_⟩
  · rw [callsMade, hr, hlen]
    exact h.few
  · rw [hn]
    exact h.next

theorem Matched.congr (h : T.Matched) (hp : T'.pendingCalls = T.pendingCalls)
    (hr : T'.results = T.results) (hn : T'.nextRequestId = T.nextRequestId) : T'.Matched := by
  obtain ⟨k, hk⟩ := h.numbered
  refine ⟨⟨k, hk.congr (by rw [hp]) hr hn⟩, ?_, ?_⟩
  · rw [hp]
    exact h.pending
  · rw [hr]
    exact h.returned

/-- The entries of `pending_calls_` change, but for their ids. -/
theorem Matched.map (h : T.Matched) {f : PendingCall → PendingCall}
    (hp : T'.pendingCalls = T.pendingCalls.map f) (hid : ∀ p, (f p).requestId = p.requestId)
    (hok : ∀ p ∈ T.pendingCalls, (f p).status = .ok → Answers p.requestId (f p).response)
    (hr : T'.results = T.results) (hn : T'.nextRequestId = T.nextRequestId) : T'.Matched := by
  obtain ⟨k, hk⟩ := h.numbered
  refine ⟨⟨k, hk.congr ?_ hr hn⟩, ?_, ?_⟩
  · rw [hp, map_map]
    exact map_congr_left fun p _ => hid p
  · rw [hp]
    intro q hq hst
    obtain ⟨p, hpm, rfl⟩ := mem_map.mp hq
    rw [hid]
    exact hok p hpm hst
  · rw [hr]
    exact h.returned

theorem Matched.refuse (h : T.Matched) {status : CallStatus} (hok : status ≠ .ok)
    (hp : T'.pendingCalls = T.pendingCalls)
    (hr : T'.results = T.results ++ [{ requestId := 0, status := status }])
    (hn : T'.nextRequestId = T.nextRequestId) : T'.Matched := by
  obtain ⟨k, hk⟩ := h.numbered
  have hused : T'.usedIds = T.usedIds := by simp [usedIds, hp, hr]
  refine ⟨⟨k, hused ▸ hk.nodup, hused ▸ hk.bound, ?_, hn ▸ hk.next⟩, hp ▸ h.pending, ?_⟩
  · have := hk.few
    simp only [callsMade, hr, hp, length_append] at this ⊢
    omega
  · intro r hmem hst
    rw [hr] at hmem
    rcases mem_append.mp hmem with hmem | hmem
    · exact h.returned r hmem hst
    · rw [mem_singleton.mp hmem] at hst
      exact absurd hst hok

theorem Numbered.issue (h : T.Numbered k) (hmade : T.callsMade + 1 < 2 ^ 64)
    (hused : T'.usedIds.Perm (T.nextRequestId :: T.usedIds))
    (hcalls : T'.callsMade = T.callsMade + 1)
    (hn : T'.nextRequestId = if T.nextRequestId + 1 = 0 then 1 else T.nextRequestId + 1) :
    T'.Numbered (k + 1) := by
  have hk : k + 1 < 2 ^ 64 := Nat.lt_of_le_of_lt (Nat.succ_le_succ h.few) hmade
  have hnext := h.next hk
  refine ⟨hused.nodup_iff.mpr (nodup_cons.mpr ⟨fun hmem => ?_, h.nodup⟩), fun id hid => ?_,
    hcalls ▸ Nat.succ_le_succ h.few, fun hlt => ?_⟩
  · have := (h.bound _ hmem).2
    omega
  · rcases mem_cons.mp (hused.mem_iff.mp hid) with rfl | hid
    · exact ⟨by omega, by omega⟩
    · have := h.bound id hid
      exact ⟨this.1, by omega⟩
  · -- The successor does not wrap, so it is not 0.
    have hsucc : (T.nextRequestId + 1).toNat = k + 1 + 1 := by
      rw [UInt64.toNat_add, hnext]
      exact Nat.mod_eq_of_lt hlt
    rw [hn, if_neg]
    · exact hsucc
    · intro hzero
      rw [hzero] at hsucc
      cases hsucc

theorem next_ne_zero (h : T.Numbered k) (hmade : T.callsMade + 1 < 2 ^ 64) :
    T.nextRequestId ≠ 0 := by
  intro hzero
  have hnext := h.next (Nat.lt_of_le_of_lt (Nat.succ_le_succ h.few) hmade)
  rw [hzero] at hnext
  cases hnext

theorem Matched.reject (h : T.Matched) (hmade : T.callsMade + 1 < 2 ^ 64) {status : CallStatus}
    (hok : status ≠ .ok) (hp : T'.pendingCalls = T.pendingCalls)
    (hr : T'.results = T.results ++ [{ requestId := T.nextRequestId, status := status }])
    (hn : T'.nextRequestId = if T.nextRequestId + 1 = 0 then 1 else T.nextRequestId + 1) :
    T'.Matched := by
  obtain ⟨k, hk⟩ := h.numbered
  have hne := next_ne_zero hk hmade
  refine ⟨⟨k + 1, hk.issue hmade ?_ ?_ hn⟩, hp ▸ h.pending, ?_⟩
  · have hused : T'.usedIds = T.usedIds ++ [T.nextRequestId] := by simp [usedIds, hp, hr, hne]
    rw [hused]
    exact perm_append_singleton _ _
  · simp only [callsMade, hr, hp, length_append, length_singleton]
    omega
  · intro r hmem hst
    rw [hr] at hmem
    rcases mem_append.mp hmem with hmem | hmem
    · exact h.returned r hmem hst
    · rw [mem_singleton.mp hmem] at hst
      exact absurd hst hok

theorem Matched.accept (h : T.Matched) (hmade : T.callsMade + 1 < 2 ^ 64) {p : PendingCall}
    (hid : p.requestId = T.nextRequestId) (hstatus : p.status ≠ .ok)
    (hp : T'.pendingCalls = T.pendingCalls ++ [p]) (hr : T'.results = T.results)
    (hn : T'.nextRequestId = if T.nextRequestId + 1 = 0 then 1 else T.nextRequestId + 1) :
    T'.Matched := by
  obtain ⟨k, hk⟩ := h.numbered
  refine ⟨⟨k + 1, hk.issue hmade ?_ ?_ hn⟩, ?_, hr ▸ h.returned⟩
  · simp only [usedIds, hp, hr, map_append, map_cons, map_nil, hid, append_assoc, singleton_append]
    exact perm_middle
  · simp only [callsMade, hr, hp, length_append, length_singleton]
    omega
  · intro q hq hst
    rw [hp] at hq
    rcases mem_append.mp hq with hq | hq
    · exact h.pending q hq hst
    · rw [mem_singleton.mp hq] at hst
      exact absurd hst hstatus

theorem Matched.retire (h : T.Matched) {p : PendingCall} (hmem : p ∈ T.pendingCalls)
    (hp : T'.pendingCalls = T.pendingCalls.filter (·.requestId != p.requestId))
    (hr : T'.results = T.results ++ [⟨some p.serial, p.requestId, p.status, p.response⟩])
    (hn : T'.nextRequestId = T.nextRequestId) : T'.Matched := by
  obtain ⟨k, hk⟩ := h.numbered
  have hids : (T.pendingCalls.map requestId).Nodup :=
    (nodup_append.mp hk.nodup).1
  have hne : p.requestId ≠ 0 := by
    intro hzero
    have := (hk.bound p.requestId (mem_append_left _ (mem_map_of_mem hmem))).1
    rw [hzero] at this
    cases this
  -- Exactly one entry has the id.
  have hperm : T.pendingCalls.Perm (p :: T'.pendingCalls) := hp ▸ perm_cons_filter_ne hids hmem
  have hused : T'.usedIds.Perm T.usedIds := by
    have hout : T'.usedIds = T'.pendingCalls.map requestId ++
        ((T.results.map CallResult.requestId).filter (fun id => id != 0) ++ [p.requestId]) := by
      simp [usedIds, hr, hne]
    rw [hout, usedIds]
    refine List.Perm.trans ?_ ((hperm.map requestId).symm.append_right _)
    rw [← append_assoc]
    exact perm_append_singleton _ _
  refine ⟨⟨k, hused.nodup_iff.mpr hk.nodup, fun id hid => hk.bound id (hused.mem_iff.mp hid), ?_,
    hn ▸ hk.next⟩, fun q hq hst => ?_, fun r hmem' hst => ?_⟩
  · have hlen := hperm.length_eq
    have := hk.few
    simp only [callsMade, hr, length_append, length_cons, length_nil] at this hlen ⊢
    omega
  · rw [hp] at hq
    exact h.pending q (mem_of_mem_filter hq) hst
  · rw [hr] at hmem'
    rcases mem_append.mp hmem' with hmem' | hmem'
    · exact h.returned r hmem' hst
    · obtain rfl := mem_singleton.mp hmem'
      exact h.pending p hmem hst

end Traffic

namespace MultiplexedConnection

variable {s t : MultiplexedConnection} {c : Nat} {old : List Op} {l : Label}

/-- Code that takes the place of `old` and has no new way to report success. -/
theorem faults_set (h : ∀ op ∈ s.codes.flatten, op.completesOk = false)
    (hold : s.codes[c]? = some old) {code : List Op}
    (hcode : code.any completesOk = true → old.any completesOk = true)
    (ht : t.codes = s.codes.set c code) : ∀ op ∈ t.codes.flatten, op.completesOk = false := by
  intro op hop
  rw [ht] at hop
  rcases mem_flatten_set hop with hop | hop
  · rw [Bool.eq_false_iff]
    intro hok
    obtain ⟨op', hop', hok'⟩ := any_eq_true.mp (hcode (any_eq_true.mpr ⟨op, hop, hok⟩))
    have := h op' (mem_flatten.mpr ⟨old, mem_of_getElem? hold, hop'⟩)
    rw [this] at hok'
    cases hok'
  · exact h op hop

theorem Shift.matched (h : Shift c old s t) (hold : s.codes[c]? = some old) (hs : s.Matched) :
    t.Matched := by
  obtain ⟨code, hcode, hless⟩ := h.codes
  refine ⟨?_, faults_set hs.faults hold hless.faults hcode⟩
  rcases h.traffic with ht | ⟨ht, -⟩ <;> rw [ht]
  · exact hs.traffic
  · exact hs.traffic.congr rfl rfl rfl

theorem Matched.goOn (h : s.Matched) {below : List Nat} (hs : s.callStack = c :: below)
    (hold : s.codes[c]? = some old) {code : List Op}
    (hcode : code.any completesOk = true → old.any completesOk = true) :
    (s.goOn code).Matched :=
  ⟨(traffic_goOn s code).symm ▸ h.traffic, faults_set h.faults hold hcode (codes_goOn hs code)⟩

theorem Matched.complete (h : s.Matched) (p : PendingCall) {status : CallStatus}
    {response : Option Frame} (hok : status = .ok → Answers p.requestId response) :
    (s.complete p status response).Matched := by
  refine ⟨h.traffic.map (f := fun q => if q.requestId = p.requestId then
    { q with completed := true, status := status, response := response } else q) rfl
    (fun q => ?_) (fun q hq hst => ?_) rfl rfl, h.faults⟩
  · split <;> rfl
  · split at hst
    · next hid =>
      rw [if_pos hid, hid]
      exact hok hst
    · next hid =>
      rw [if_neg hid]
      exact h.traffic.pending q hq hst

theorem Matched.init (limits : ConnectionLimits) : (init limits).Matched := by
  refine ⟨⟨⟨0, ?_, ?_, ?_, ?_⟩, ?_, ?_⟩, ?_⟩
  · exact nodup_nil
  · exact fun id hid => absurd hid not_mem_nil
  · exact Nat.zero_le _
  · exact fun _ => rfl
  · exact fun p hp => absurd hp not_mem_nil
  · exact fun r hr => absurd hr not_mem_nil
  · exact fun op hop => absurd hop (by simp [MultiplexedConnection.init, codes])

theorem Matched.deed {below : List Nat} (h : s.Matched) (hs : s.callStack = c :: below)
    (hold : s.codes[c]? = some old) (hauto : s.Automatic l) (hd : Deed s t c l old) :
    t.Matched := by
  have hfault : old.any completesOk = false := by
    rw [any_eq_false]
    intro op hop
    simp [h.faults op (mem_flatten.mpr ⟨old, mem_of_getElem? hold, hop⟩)]
  -- Steps that change the code of the running coroutine only.
  have hrecode : ∀ {code}, t.traffic = s.traffic → t.codes = s.codes.set c code →
      (code.any completesOk = true → old.any completesOk = true) → t.Matched :=
    fun ht hc hcode => ⟨ht ▸ h.traffic, faults_set h.faults hold hcode hc⟩
  cases hd with
  | shift hshift => exact hshift.matched hold h
  | spawn _ ht hc =>
    refine ⟨ht ▸ h.traffic, fun op hop => h.faults op ?_⟩
    rw [hc, flatten_append] at hop
    simpa using hop
  | attach _ _ ht hc =>
    refine ⟨ht ▸ h.traffic, fun op hop => ?_⟩
    rw [hc, flatten_append, mem_append] at hop
    rcases hop with hop | hop
    · exact faults_set h.faults hold (t := s.goOn [.startReader, .startWriter]) (by simp [completesOk])
        (codes_goOn hs _) op (by rwa [codes_goOn hs])
    · have : op = .readerLoop ∨ op = .writerLoop := by simpa using hop
      rcases this with rfl | rfl <;> rfl
  | refuse status hok ht =>
    subst ht
    exact ⟨h.traffic.refuse hok rfl rfl rfl, h.faults⟩
  | reject hid status hok ht =>
    subst ht
    cases hid with
    | metadata => exact ⟨h.traffic.reject hauto hok rfl rfl rfl, h.faults⟩
    | automatic | chosen => exact hauto.elim
  | accept hid _ _ encoded _ timed _ ht hc =>
    cases hid with
    | metadata =>
      refine ⟨?_, faults_set h.faults hold (by simp [completesOk]) hc⟩
      rw [ht]
      exact h.traffic.accept hauto rfl (by simp) rfl rfl rfl
    | automatic | chosen => exact hauto.elim
  | yield _ _ rest _ ht hc | wake _ rest _ _ _ _ ht hc | await _ rest _ ht hc
  | awaited _ rest _ ht hc => exact hrecode ht hc fun hf => by simpa [completesOk] using hf
  | timeout id rest p hp _ hshift =>
    have hcomplete : (s.complete p .timeout p.response).Matched := h.complete p fun hst => by simp at hst
    have hs' : (s.complete p .timeout p.response).callStack = c :: below := hs
    have hold' : (s.complete p .timeout p.response).codes[c]? = _ := hold
    refine hshift.matched (codes_goOn_self hs' hold' _) (hcomplete.goOn hs' hold' fun hf => ?_)
    simpa [completesOk] using hf
  | cancel id rest p hp _ _ _ encoded _ _ ht hc =>
    have hcomplete : (s.complete p .timeout p.response).Matched := h.complete p fun hst => by simp at hst
    refine ⟨?_, faults_set h.faults hold (fun hf => by simpa [completesOk] using hf) hc⟩
    rw [ht]
    exact hcomplete.traffic.congr rfl rfl rfl
  | complete p hp _ status response hok hshift =>
    refine hshift.matched hold (h.complete p fun hst => ?_)
    exact (hok hst).resolve_right (by simp [hfault])
  | retire id rest p hp _ ht hc =>
    obtain ⟨hmem, rfl⟩ := find_some hp
    refine ⟨?_, faults_set h.faults hold (fun hf => by simpa [completesOk] using hf) hc⟩
    rw [ht]
    exact h.traffic.retire hmem rfl rfl rfl
  | take rest taken queue _ _ ht hc =>
    refine ⟨?_, faults_set h.faults hold (fun hf => ?_) hc⟩
    · rw [ht]
      exact h.traffic.map rfl (fun _ => rfl) (fun p hp hst => h.traffic.pending p hp hst) rfl rfl
    · split at hf <;> simpa [completesOk] using hf
  | write offset n rest _ op hop hshift =>
    have hs' : (s.accepted offset n).callStack = c :: below := hs
    have hold' : (s.accepted offset n).codes[c]? = _ := hold
    have haccepted : (s.accepted offset n).Matched := ⟨h.traffic.congr rfl rfl rfl, h.faults⟩
    refine hshift.matched (codes_goOn_self hs' hold' _) (haccepted.goOn hs' hold' fun hf => ?_)
    rw [hop] at hf
    split at hf <;> simpa [completesOk] using hf

theorem Matched.of_reaches {limits : ConnectionLimits}
    (h : Reaches step Automatic (MultiplexedConnection.init limits) s) : s.Matched := by
  refine h.invariant (p := Matched) (.init limits) fun s l t hs hauto ht => ?_
  obtain ⟨c, below, old, hstack, hold, hdeed⟩ := Deed.of_step ht
  exact hs.deed hstack hold hauto hdeed

end MultiplexedConnection

open MultiplexedConnection

variable {rest : List Op}

/-- The next step of the running coroutine is the body of the inner loop of `ReaderLoop`. -/
theorem step_decodeNext {s t : MultiplexedConnection} (hcode : s.code = .decodeNext :: rest)
    (ht : s.step .tick = some t) :
    (∃ c below, s.callStack = c :: below) ∧ t = s.decodeNext rest := by
  unfold code at hcode
  unfold step at ht
  split at hcode
  · cases hcode
  · next c below hs =>
    rw [hs] at ht
    dsimp only at ht
    cases hx : s.coroutines[c]? with
    | none => simp [hx] at hcode
    | some x =>
      have hxcode : x.code = .decodeNext :: rest := by simpa [hx] using hcode
      rw [hx] at ht
      dsimp only at ht
      rw [hxcode] at ht
      exact ⟨⟨c, below, hs⟩, (Option.some.inj ht).symm⟩

theorem decodeNext_completions {s : MultiplexedConnection} {c : Nat} {below : List Nat}
    {d : FrameDecoder} {frame : Frame} (hs : s.callStack = c :: below)
    (hnext : s.decoder.next = (d, .frameReady, some frame)) :
    (s.decodeNext rest).completions = s.completions ∨
      ∃ p ∈ s.pendingCalls, p.requestId = frame.header.requestId ∧ p.completed = false ∧
        (s.decodeNext rest).completions = s.completions ++ [p.serial] := by
  unfold MultiplexedConnection.decodeNext
  rw [hnext]
  dsimp only
  split
  · exact .inl (goOn_completions _ _)
  · split
    · next p hfind =>
      obtain ⟨hp, hid⟩ := find_some hfind
      unfold MultiplexedConnection.completePending
      split
      · exact .inl (goOn_completions _ _)
      · next hopen =>
        refine .inr ⟨p, hp, hid, by simpa using hopen, ?_⟩
        -- `MaybeFinishDrain` closes a connection without unfinished calls.
        have hshift := Shift.maybeFinishDrain
          (s := ({ s with decoder := d } : MultiplexedConnection).complete p .ok (some frame)) hs
          (.refl (.resume p.coroutine :: .decodeNext :: rest))
        rcases hshift.traffic with ht | ⟨ht, -⟩ <;> exact congrArg Traffic.completions ht
    · exact .inl (goOn_completions _ _)

theorem decodeNext_late {s : MultiplexedConnection} {d : FrameDecoder} {frame : Frame}
    (hnext : s.decoder.next = (d, .frameReady, some frame))
    (htype : frame.header.messageType = .response)
    (hover : ∀ p ∈ s.pendingCalls, p.requestId = frame.header.requestId → p.completed = true) :
    s.decodeNext rest = { s with
      decoder := d
      lateResponses := s.lateResponses + if (s.find frame.header.requestId).isSome then 0 else 1
      }.goOn (.decodeNext :: rest) := by
  unfold MultiplexedConnection.decodeNext
  rw [hnext]
  dsimp only
  rw [if_neg (by simp [htype])]
  have hfind : ({ s with decoder := d } : MultiplexedConnection).find frame.header.requestId =
      s.find frame.header.requestId := rfl
  rw [hfind]
  cases hf : s.find frame.header.requestId with
  | none => rfl
  | some p =>
    obtain ⟨hp, hid⟩ := find_some hf
    dsimp only
    rw [MultiplexedConnection.completePending, if_pos (hover p hp hid)]
    rfl

/-- **Responses are matched to calls**, in every run whose calls are made through the metadata
    overload and are fewer than 2^64. No two calls have been given the same id. A call that has
    returned `OK` has returned a RESPONSE with its own id. A received frame completes at most one
    call, the one with its id. And a RESPONSE whose call is over, or which belongs to no call, is
    taken out of the decoder and changes nothing but `late_responses`. -/
theorem responses_match {limits : ConnectionLimits} {s : MultiplexedConnection}
    (h : Reaches step Automatic (init limits) s) :
    s.traffic.usedIds.Nodup ∧
    (∀ r ∈ s.results, r.status = .ok → Answers r.requestId r.response) ∧
    (∀ rest d frame t, s.code = .decodeNext :: rest →
      s.decoder.next = (d, .frameReady, some frame) → s.step .tick = some t →
      (t.completions = s.completions ∨
        ∃ p ∈ s.pendingCalls, p.requestId = frame.header.requestId ∧ p.completed = false ∧
          t.completions = s.completions ++ [p.serial]) ∧
      (frame.header.messageType = .response →
        (∀ p ∈ s.pendingCalls, p.requestId = frame.header.requestId → p.completed = true) →
        t = { s with
          decoder := d
          lateResponses := s.lateResponses +
            if (s.find frame.header.requestId).isSome then 0 else 1 }.goOn
              (.decodeNext :: rest))) := by
  have hmatched := Matched.of_reaches h
  obtain ⟨k, hk⟩ := hmatched.traffic.numbered
  refine ⟨hk.nodup, hmatched.traffic.returned, fun rest d frame t hcode hnext ht => ?_⟩
  obtain ⟨⟨c, below, hs⟩, rfl⟩ := step_decodeNext hcode ht
  exact ⟨decodeNext_completions hs hnext, decodeNext_late hnext⟩

/-- One call, and its RESPONSE arrives twice in one read. The first copy has completed the call,
    which has returned; the second is in the decoder. -/
theorem responses_match_duplicate :
    ∃ s, Reaches step Automatic (init {}) s ∧ s.code = [.decodeNext] ∧
      s.decoder.next.2.1 = .frameReady ∧ s.results.map (·.status) = [.ok] ∧
      ∀ r ∈ s.results, r.status = .ok → Answers r.requestId r.response := by
  refine exists_reaches_of_exec (p := fun s => s.code = [.decodeNext] ∧
      s.decoder.next.2.1 = .frameReady ∧ s.results.map (·.status) = [.ok])
    [.attach, .tick, .tick, .readReturns .wouldBlock, .tick, .tick, .spawn, .run 3,
      .callMetadata ⟨[0x73], [0x6d], [], [], 0⟩ [] kNoTimeout, .tick, .writeReturns (.accepted 62),
      .tick, .tick, .ioReady 1, .run 1, .tick,
      .readReturns (.data (List.replicate 2 [0x52, 0x50, 0x43, 0x52, 0, 1, 0, 32, 0, 0, 0, 0, 2, 0,
        0, 0, 0, 0, 0, 0, 0, 0, 0, 1, 0, 0, 0, 0, 0, 0, 0, 0]).flatten),
      .tick, .tick, .tick, .tick, .finish] (by decide +kernel) fun s hreach hs => ?_
  obtain ⟨hcode, hnext, hresults⟩ := hs
  exact ⟨hcode, hnext, hresults, (responses_match hreach).2.1⟩

end CoroRpc.Client
