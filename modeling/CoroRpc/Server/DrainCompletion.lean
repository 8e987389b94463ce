import CoroRpc.Server.ShutdownTurns

/-!
# No drain is left unfinished

Every step of the server is a turn of one of its threads, or posts a closure from outside, so the
invariant of `ShutdownTurns` holds in every state that can be reached.
-/

namespace CoroRpc.Server
namespace Shutdown

open Lib Protocol List Option

namespace ShardedServer

variable {limits : ServerLimits} {s s' t : ShardedServer} {k : Nat}
variable {popped rest calls : List Work}

section
variable {choice : Choice} {c i fd : Nat} {requestId : UInt64}

/-! ## Steps -/

/-- Whatever is on top of a thread's stack, to do it is a turn. -/
theorem doWork_turn (hs : s.Sound limits) {w : Work} (hstack : s.threads[k]? = some (w :: rest))
    (h : s.doWork limits k w choice = some (s', calls)) : Turn limits s k [w] rest s' calls := by
  have hlinked := hs.placed.linked
  have howned : s.Owned k w := hs.placed.work k _ hstack w mem_cons_self
  cases w with
  | attachConnection fd => exact attachConnection_turn hlinked h
  | reserve fd => exact reserve_turn hlinked (some.inj h)
  | emplace fd =>
    obtain ⟨table, htable, h⟩ := bind_eq_some_iff.mp h
    exact emplace_turn hs hstack htable h
  | onFrame c requestId => exact onFrame_turn hs.placed hstack h
  | acquireInflight c requestId viewHandler =>
    exact acquireInflight_turn hs.placed hstack (some.inj h)
  | view c => exact view_turn hlinked howned h
  | addRequest c requestId =>
    obtain ⟨connection, hc, h⟩ := map_eq_some_iff.mp h
    exact addRequest_turn hs hstack hc h
  | serve i =>
    obtain ⟨state, -, h⟩ := bind_eq_some_iff.mp h
    exact serve_turn hlinked h
  | finishWaiters waiters => exact finishWaiters_turn hlinked h
  | finish i =>
    obtain ⟨state, -, h⟩ := map_eq_some_iff.mp h
    exact finish_turn hlinked howned h
  | completeRequest i =>
    obtain ⟨state, hstate, h⟩ := map_eq_some_iff.mp h
    cases h
    exact completeRequest_turn hlinked hstate howned
  | queueFrame c =>
    obtain ⟨connection, -, h⟩ := bind_eq_some_iff.mp h
    exact queueFrame_turn hlinked howned h
  | maybeCloseAfterDrain c =>
    obtain ⟨connection, -, h⟩ := bind_eq_some_iff.mp h
    exact maybeCloseAfterDrain_turn hlinked howned h
  | close c =>
    obtain ⟨connection, hc, h⟩ := map_eq_some_iff.mp h
    exact close_turn hlinked hc howned h
  | abandonAll requests => exact abandonAll_turn hlinked h
  | maybeFinishDrain next => exact maybeFinishDrain_turn hlinked (some.inj h)
  | requestBeginDrain shards => exact requestBeginDrain_turn hlinked howned (some.inj h)
  | beginDrainAll connections => exact beginDrainAll_turn hlinked howned (some.inj h)
  | endBeginDrain =>
    cases h
    exact endBeginDrain_turn hlinked
  | stopNow => exact stopNow_turn hlinked (some.inj h)
  | stopAccepting =>
    cases h
    exact stopAccepting_turn hlinked howned.1 howned.2
  | closeShards shards => exact closeShards_turn hlinked howned (some.inj h)
  | closeAll connections => exact closeAll_turn hlinked howned (some.inj h)

theorem run_sound (hs : s.Sound limits) (h : s'.run k calls = some t)
    (hturn : Turn limits s k [] [] s' calls) : t.Sound limits := by
  unfold run at h
  split at h
  · next hidle =>
    cases h
    rw [hturn.keeps.threads] at hidle
    have hsound := hturn.sound hs hidle (.inr rfl)
    rwa [append_nil] at hsound
  · cases h

theorem Turn.begin (hs : s.Linked) (hcalls : ∀ w ∈ calls, s.Follows k w) :
    Turn limits s k [] [] s calls :=
  .quiet hs (.of_eq rfl rfl rfl rfl) rfl (by simp) hcalls (by simp)

theorem post_sound (hs : s.Sound limits) {m : Message} (hm : s.OwnedMessage (k, m)) :
    (s.post k m).Sound limits := by
  have ha : s.Alike (s.post k m) := .of_eq rfl rfl rfl rfl
  have hkeeps : s.Keeps (s.post k m) k := by
    refine ha.keeps id fun m' hm' => ?_
    rcases mem_append.mp hm' with h | h
    · exact .inl h
    · obtain rfl := mem_singleton.mp h
      refine .inr ?_
      cases m <;> exact hm
  refine ⟨⟨ha.linked hs.placed.linked, ?_, ?_, ?_⟩, hs.active, hs.bounded, ?_⟩
  · intro j stack hj w hw
    exact hkeeps.owned (hs.placed.work j stack hj w hw)
  · intro m' hm'
    rcases hkeeps.mail m' hm' with hold | hnew
    · exact hkeeps.ownedMessage (hs.placed.mail m' hold)
    · exact hnew
  · intro j stack hj w hw c hc
    obtain ⟨hsingle, hopen⟩ := hs.placed.admitted j stack hj w hw c hc
    exact ⟨hsingle, ha.isOpen hopen⟩
  · rcases hs.watched with h | h | ⟨m', hm', hchecks⟩
    · exact .inl h
    · exact .inr (.inl h)
    · exact .inr (.inr ⟨m', mem_append_left _ hm', hchecks⟩)

theorem messageWork_follows (hs : s.Linked) {m : Message} (hm : s.OwnedMessage (k, m)) :
    ∀ w ∈ s.messageWork k m, s.Follows k w := by
  cases m with
  | attachAccepted | completion | maybeFinishDrain | stopNow =>
    exact forall_mem_singleton.mpr ⟨trivial, rfl, rfl⟩
  | finish => exact forall_mem_singleton.mpr ⟨hm, rfl, rfl⟩
  | beginDrainConnections | closeAllConnections =>
    exact forall_mem_singleton.mpr ⟨fun _ => hs.heldBy, rfl, rfl⟩

/-- A closure that a shard takes from its mailbox is work on its stack at once. -/
theorem deliver_sound (hs : s.Sound limits) {n : Nat} {m : Message}
    (hn : s.mailbox[n]? = some (k, m))
    (h : { s with mailbox := s.mailbox.eraseIdx n }.run k (s.messageWork k m) = some t) :
    t.Sound limits := by
  have ha : s.Alike { s with mailbox := s.mailbox.eraseIdx n } := .of_eq rfl rfl rfl rfl
  have hkeeps : s.Keeps { s with mailbox := s.mailbox.eraseIdx n } k :=
    ha.keeps id fun _ hm' => .inl (mem_of_mem_eraseIdx hm')
  have hcalls := messageWork_follows hs.placed.linked (hs.placed.mail _ (mem_of_getElem? hn))
  refine run_sound hs h (.of_alike hs.placed.linked ha id rfl hkeeps.mail (by simp)
    (fun w hw => ⟨hkeeps.owned (hcalls w hw).1, (hcalls w hw).2⟩) ?_)
  rintro (hsettled | ⟨w, hw, -⟩ | ⟨m', hm', hchecks⟩)
  · exact .inl hsettled
  · cases hw
  · obtain ⟨j, hj⟩ := getElem?_of_mem hm'
    by_cases hjn : j = n
    · subst hjn
      cases hn.symm.trans hj
      refine .inr (.inl ?_)
      cases m with
      | maybeFinishDrain | stopNow => exact ⟨_, mem_singleton.mpr rfl, rfl⟩
      | attachAccepted | completion | finish | beginDrainConnections | closeAllConnections =>
        cases hchecks
    · exact .inr (.inr ⟨m', mem_eraseIdx_iff_getElem?.mpr ⟨j, hjn, hj⟩, hchecks⟩)

theorem beginDrain_sound (hs : s.Sound limits) {timeoutMs : Nat}
    (h : (s.beginDrain timeoutMs).1.run 0 (s.beginDrain timeoutMs).2 = some t) :
    t.Sound limits := by
  refine run_sound hs h ?_
  have hlinked := hs.placed.linked
  unfold beginDrain
  split
  · exact .begin hlinked (by simp)
  · split
    · exact .changed hlinked (.of_eq rfl rfl rfl rfl) id rfl rfl (by simp)
        (forall_mem_singleton.mpr ⟨trivial, rfl, rfl⟩)
        (.inr ⟨.stopNow, mem_singleton.mpr rfl, rfl⟩)
    · exact .changed hlinked (.of_eq rfl rfl rfl rfl) id rfl rfl (by simp) (forall_mem_cons.mpr
          ⟨⟨rfl, rfl, rfl⟩, forall_mem_singleton.mpr ⟨trivial, rfl, rfl⟩⟩)
        (.inr ⟨.endBeginDrain, by simp, rfl⟩)

theorem request_sound (hs : s.Sound limits) {connection : ServerConnection}
    (hc : s.connections[c]? = some connection) (hopen : connection.closed = false)
    (h : s.run connection.shard [.onFrame c requestId] = some t) : t.Sound limits := by
  have hshard : s.shardOf c = some connection.shard := by rw [shardOf, hc]; rfl
  have ha : s.Alike s := .of_eq rfl rfl rfl rfl
  refine run_sound hs h ?_
  exact
    { keeps := ha.keeps id fun _ => .inl
      linked := hs.placed.linked
      owned := forall_mem_singleton.mpr hshard
      admits := by
        intro w hw c' hc'
        obtain rfl := mem_singleton.mp hw
        cases hc'
        exact ⟨rfl, connection, hc, rfl, hopen⟩
      counts := .same rfl rfl rfl rfl
      watch := by
        rintro (hsettled | ⟨w, hw, -⟩ | hmail)
        · exact .inl hsettled
        · cases hw
        · exact .inr (.inr hmail) }

theorem resumeReader_sound (hs : s.Sound limits) {connection : ServerConnection}
    {waiters : List Nat} (hc : s.connections[c]? = some connection)
    (h : s.step limits (.resumeReader c waiters) = some t) : t.Sound limits := by
  have ha : s.Alike (s.setConnection c fun x => { x with reader := none }) :=
    .setConnection s c (fun _ => rfl) fun _ _ _ => id
  have hshard : s.shardOf c = some connection.shard := by rw [shardOf, hc]; rfl
  simp only [step, hc] at h
  cases hreader : connection.reader with
  | none => simp [hreader] at h
  | some resumption =>
    cases resumption with
    | handler =>
      simp only [hreader] at h
      exact run_sound hs h (.quiet hs.placed.linked ha rfl (by simp)
        (forall_mem_singleton.mpr ⟨trivial, rfl, rfl⟩) (by simp))
    | view =>
      simp only [hreader] at h
      refine run_sound hs h (.changed hs.placed.linked ⟨rfl, rfl, ha.ports, rfl, ha.requests⟩ id rfl
        rfl (by simp) ?_ (.inr ⟨.maybeFinishDrain .accepting, by simp [viewReturned], rfl⟩))
      exact forall_mem_cons.mpr
        ⟨⟨(ha.shardOf c).trans hshard, rfl, rfl⟩, forall_mem_singleton.mpr ⟨trivial, rfl, rfl⟩⟩

end

/-- Every step of the server keeps the invariant. -/
theorem step_sound {l : Label} (hs : s.Sound limits) (h : s.step limits l = some t) :
    t.Sound limits := by
  have hlinked := hs.placed.linked
  have hshard : ∀ {c : Nat} {connection : ServerConnection},
      s.connections[c]? = some connection → s.shardOf c = some connection.shard := by
    intro c connection hc
    rw [shardOf, hc]
    rfl
  cases l with
  | accepted k fd =>
    simp only [step] at h
    split at h
    · exact run_sound hs h (.begin hlinked (forall_mem_singleton.mpr ⟨trivial, rfl, rfl⟩))
    · split at h
      · cases h
        exact post_sound hs trivial
      · cases h
  | request c requestId =>
    simp only [step] at h
    split at h
    · cases h
    · next connection hc =>
      split at h
      · next hready => exact request_sound hs hc hready.1 h
      · cases h
  | cancel c requestId =>
    simp only [step] at h
    split at h
    · cases h
    · next connection hc =>
      split at h
      · split at h
        · cases h
          exact hs
        · next i hi =>
          have howner := hlinked.mapped c connection requestId i hc hi
          exact run_sound hs h (.begin hlinked (forall_mem_singleton.mpr ⟨howner, rfl, rfl⟩))
      · cases h
  | closeConnection c | written c =>
    simp only [step] at h
    split at h
    · cases h
    · next connection hc =>
      exact run_sound hs h (.begin hlinked (forall_mem_singleton.mpr ⟨hshard hc, rfl, rfl⟩))
  | work k choice =>
    simp only [step] at h
    split at h
    · next w rest hstack =>
      obtain ⟨⟨s', calls⟩, hwork, h⟩ := map_eq_some_iff.mp h
      obtain rfl : _ = t := h
      exact (doWork_turn hs hstack hwork).sound hs hstack (.inl (cons_ne_nil w []))
    · cases h
  | resumeReader c waiters =>
    cases hc : s.connections[c]? with
    | none => simp [step, hc] at h
    | some connection => exact resumeReader_sound hs hc h
  | workerEnds k waiters =>
    simp only [step] at h
    split at h
    · cases h
      exact post_sound hs trivial
    · cases h
  | beginDrain timeoutMs => exact beginDrain_sound hs h
  | drainTimeout =>
    simp only [step] at h
    split at h
    · refine run_sound hs h (.quiet hlinked (.of_eq rfl rfl rfl rfl) rfl (by simp) ?_ (by simp))
      split
      · simp
      · exact forall_mem_singleton.mpr ⟨trivial, rfl, rfl⟩
    · cases h
  | stopNow =>
    exact run_sound hs h (.begin hlinked (forall_mem_singleton.mpr ⟨trivial, rfl, rfl⟩))
  | deliver n =>
    simp only [step] at h
    split at h
    · cases h
    · next k m hn => exact deliver_sound hs hn h

theorem init_sound (limits : ServerLimits) (n : Nat) : (init n).Sound limits := by
  have hnil : ∀ {k} {stack}, (List.replicate n ([] : List Work))[k]? = some stack →
      stack = [] := fun h => eq_of_mem_replicate (mem_of_getElem? h)
  refine ⟨⟨⟨?_, ?_, ?_, ?_⟩, ?_, ?_, ?_⟩, ?_, Nat.zero_le _, .inl (.inl rfl)⟩
  · intro k table fd c htable hfd
    obtain rfl := eq_of_mem_replicate (mem_of_getElem? htable)
    cases hfd
  · intro c connection hc
    cases hc
  · intro i state hi
    cases hi
  · intro c connection requestId i hc
    cases hc
  · intro k stack hstack w hw
    rw [hnil hstack] at hw
    cases hw
  · intro m hm
    cases hm
  · intro k stack hstack w hw
    rw [hnil hstack] at hw
    cases hw
  · have hflat : (List.replicate n ([] : List Work)).flatten = [] := flatten_replicate_nil
    simp [init, held, attaching, hflat]

theorem Sound.of_reaches {n : Nat} (h : Reachable (step limits) (init n) s) : s.Sound limits :=
  h.invariant (init_sound limits n) fun _ _ _ hs _ ht => step_sound hs ht

instance (s : ShardedServer) : Decidable s.Quiescent := inferInstanceAs (Decidable (_ ∧ _))

/-- **Every network thread keeps to its own shard**: the connections it works on, and the requests
    that it finishes or is posted to finish, are its own. -/
theorem shards_confined {n : Nat} (h : Reachable (step limits) (init n) s) : s.Placed :=
  (Sound.of_reaches h).placed

/-- Two connections, one on each shard, have a request each, and the one on shard 0 ends with the
    response for both: its thread finishes its own and posts the other, with which shard 1 begins. -/
theorem shards_confined_two_waiters : ∃ s, Reachable (step ⟨8, 8, 8⟩) (init 2) s ∧
    s.threads = [[.finishWaiters []], [.finish 0]] ∧ s.states.map RequestState.owner = [1, 0] ∧
    s.states.map RequestState.completed = [false, true] ∧ s.Placed := by
  refine exists_reaches_of_exec (p := fun s => s.threads = [[.finishWaiters []], [.finish 0]] ∧
      s.states.map RequestState.owner = [1, 0] ∧
      s.states.map RequestState.completed = [false, true])
    [.accepted 1 5, .deliver 0, .work 1 .prepared, .work 1 .none, .work 1 (.start false),
      .accepted 0 6, .work 0 .prepared, .work 0 .none, .work 0 (.start false), .request 0 7,
      .work 1 (.admitRequest false), .work 1 .none, .work 1 .none, .work 1 (.respond []),
      .work 1 .none, .request 1 9, .work 0 (.admitRequest false), .work 0 .none, .work 0 .none,
      .work 0 (.respond [1, 0]), .work 0 .none, .work 0 .none, .work 0 .none,
      .work 0 (.queue false), .work 0 (.outboundEmpty true), .work 0 .none, .work 0 .none,
      .deliver 0] (by decide +kernel) fun s hreach hs => ?_
  obtain ⟨hthreads, howners, hcompleted⟩ := hs
  exact ⟨hthreads, howners, hcompleted, shards_confined hreach⟩

end ShardedServer
end Shutdown
end CoroRpc.Server
