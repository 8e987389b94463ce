import CoroRpc.Lib.Table
import CoroRpc.Server.Shutdown

/-!
# What one turn of a thread does to the counters

A drained server stops when the last of two counters reaches zero, on whichever thread that
happens. The invariant (`Sound`) is that somebody is always about to look: as long as the server
does not accept, is not stopped and both counters are zero, some thread still has a
`MaybeFinishDrain` (or a `StopNow`) ahead of it, or one is on its way to the owner thread.

Two places lower a counter without looking again. `OnFrame` returns the share of a request that its
connection refuses, and `AttachConnection` returns the share of a connection whose descriptor is
already in the table. Both are harmless, because the thread that does it holds a connection at that
moment, so the other counter is not zero. That is what the part of the invariant about the tables
is for.

`Turn` says what the invariant has to know of one step of a thread. There is one lemma per function
of `Shutdown`; `DrainCompletion` puts them together.
-/

namespace CoroRpc.Server
namespace Shutdown

open Lib Protocol List Option Function ServerConnection Work

/-! ## What is counted and what is watched -/

/-- The connection is counted and not yet in its shard's table. -/
def Work.attaches : Work → Bool
  | .emplace _ => true
  | _ => false

/-- The work comes to look at the counters, or to stop the server. -/
def Work.checks : Work → Bool
  | .abandonAll _ | .maybeFinishDrain _ | .endBeginDrain | .stopNow => true
  | _ => false

def Message.checks : Message → Bool
  | .maybeFinishDrain | .stopNow => true
  | _ => false

/-- The connection whose REQUEST is being admitted. -/
def Work.admits : Work → Option Nat
  | .onFrame c _ | .acquireInflight c _ _ | .addRequest c _ => some c
  | _ => none

namespace ShardedServer

variable {limits : ServerLimits} {s s' t : ShardedServer} {k : Nat}
variable {popped rest calls : List Work}

/-- The connections held by the shards. -/
def held (s : ShardedServer) : Nat := (s.tables.map fun table => table.keys.length).sum

/-- The attaches in progress. -/
def attaching (s : ShardedServer) : Nat := s.threads.flatten.countP attaches

/-- No posted closure is in flight, and no thread is in the middle of an operation that still
    comes to look at the counters. -/
def Quiescent (s : ShardedServer) : Prop :=
  s.mailbox = [] ∧ ∀ stack ∈ s.threads, ∀ w ∈ stack, w.checks = false

/-- The drain has not begun, has something left to wait for, or is over. -/
def Settled (s : ShardedServer) : Prop :=
  s.accepting = true ∨ s.stopped = true ∨ s.inflightCount ≠ 0 ∨ s.activeConnections ≠ 0

def shardOf (s : ShardedServer) (c : Nat) : Option Nat :=
  s.connections[c]?.map shard

def ownerOf (s : ShardedServer) (i : Nat) : Option Nat := s.states[i]?.map RequestState.owner

/-- Shard `k` has the open connection `c`. -/
def IsOpen (s : ShardedServer) (k c : Nat) : Prop :=
  ∃ connection, s.connections[c]? = some connection ∧ connection.shard = k ∧
    connection.closed = false

/-- Whatever thread `k` does concerns its own shard. -/
def Owned (s : ShardedServer) (k : Nat) : Work → Prop
  | .onFrame c _ | .acquireInflight c _ _ | .addRequest c _ | .view c | .queueFrame c
  | .maybeCloseAfterDrain c | .close c => s.shardOf c = some k
  | .serve i | .finish i | .completeRequest i => s.ownerOf i = some k
  | .beginDrainAll connections | .closeAll connections => ∀ c ∈ connections, s.shardOf c = some k
  | .requestBeginDrain _ | .closeShards _ => k = 0
  | .stopAccepting => k = 0 ∧ s.stopped = true
  | .attachConnection _ | .reserve _ | .emplace _ | .finishWaiters _ | .abandonAll _
  | .maybeFinishDrain _ | .endBeginDrain | .stopNow => True

def OwnedMessage (s : ShardedServer) : Nat × Message → Prop
  | (k, .finish i) => s.ownerOf i = some k
  | _ => True

/-! ## The tables -/

/-- The tables, the connections and the requests refer to each other as they should. -/
structure Linked (s : ShardedServer) : Prop where
  held : ∀ (k : Nat) (table : AList fun _ : Nat => Nat) (fd c : Nat),
    s.tables[k]? = some table → table.lookup fd = some c → s.shardOf c = some k
  listed : ∀ (c : Nat) (connection : ServerConnection),
    s.connections[c]? = some connection → connection.closed = false →
    ∃ table : AList fun _ : Nat => Nat, s.tables[connection.shard]? = some table ∧
      table.lookup connection.fd = some c
  homed : ∀ (i : Nat) (state : RequestState), s.states[i]? = some state →
    s.shardOf state.connection = some state.owner
  mapped : ∀ (c : Nat) (connection : ServerConnection) (requestId : UInt64) (i : Nat),
    s.connections[c]? = some connection → connection.requests.lookup requestId = some i →
    s.ownerOf i = some connection.shard

theorem Linked.heldBy (h : s.Linked) {c : Nat} (hc : c ∈ s.heldBy k) : s.shardOf c = some k := by
  unfold ShardedServer.heldBy at hc
  split at hc
  · cases hc
  · rename_i table htable
    obtain ⟨⟨fd, c'⟩, hentry, rfl⟩ := mem_map.mp hc
    exact h.held k table fd c' htable (AList.mem_lookup_iff.mpr hentry)

variable {j : Nat}

theorem held_pos_of_lookup {fd c : Nat} {table : AList (fun _ : Nat => Nat)}
    (htable : s.tables[j]? = some table) (hfd : table.lookup fd = some c) : 0 < s.held := by
  have hkey : fd ∈ table.keys := AList.lookup_isSome.mp (by rw [hfd]; rfl)
  have hlen : 0 < table.keys.length := length_pos_of_mem hkey
  have hsum := sum_map_set_add
    (fun table : AList (fun _ : Nat => Nat) => table.keys.length) ∅ htable
  have hempty : (∅ : AList (fun _ : Nat => Nat)).keys.length = 0 := rfl
  unfold held
  omega

theorem Linked.held_pos (h : s.Linked) {c : Nat} (hc : s.IsOpen k c) : 0 < s.held := by
  obtain ⟨connection, hconnection, -, hopen⟩ := hc
  obtain ⟨table, htable, hfd⟩ := h.listed c connection hconnection hopen
  exact held_pos_of_lookup htable hfd

/-! ## What one turn of a thread does

`popped` is what the thread takes off its stack, `calls` what it puts there. -/

/-- What a turn does to the counter of connections and to the tables. -/
inductive Counts (limits : ServerLimits) (s s' : ShardedServer) (popped calls : List Work) : Prop
  | same (hactive : s'.activeConnections = s.activeConnections) (hheld : s'.held = s.held)
      (hpopped : popped.countP attaches = 0) (hcalls : calls.countP attaches = 0)
  | reserve (hlt : s.activeConnections < limits.maxConnections)
      (hactive : s'.activeConnections = s.activeConnections + 1) (hheld : s'.held = s.held)
      (hpopped : popped.countP attaches = 0) (hcalls : calls.countP attaches = 1)
  | collide (hactive : s'.activeConnections = subSize s.activeConnections 1)
      (hheld : s'.held = s.held)
      (hpopped : popped.countP attaches = 1) (hcalls : calls.countP attaches = 0)
  | emplace (hactive : s'.activeConnections = s.activeConnections) (hheld : s'.held = s.held + 1)
      (hpopped : popped.countP attaches = 1) (hcalls : calls.countP attaches = 0)
  | close (hactive : s'.activeConnections = subSize s.activeConnections 1)
      (hheld : s'.held + 1 = s.held)
      (hpopped : popped.countP attaches = 0) (hcalls : calls.countP attaches = 0)

/-- What thread `k` may leave behind for its own shard: the references stay valid, and the
    connections of the other shards stay open. -/
structure Keeps (s s' : ShardedServer) (k : Nat) : Prop where
  threads : s'.threads = s.threads
  stopped : s.stopped = true → s'.stopped = true
  shard : ∀ c j, s.shardOf c = some j → s'.shardOf c = some j
  owner : ∀ i j, s.ownerOf i = some j → s'.ownerOf i = some j
  opened : ∀ c j, j ≠ k → s.IsOpen j c → s'.IsOpen j c
  mail : ∀ m ∈ s'.mailbox, m ∈ s.mailbox ∨ s'.OwnedMessage m

/-- There is a look at the counters ahead among `calls`, or on its way. -/
def Rechecks (s' : ShardedServer) (calls : List Work) : Prop :=
  (∃ w ∈ calls, w.checks = true) ∨ ∃ m ∈ s'.mailbox, m.2.checks = true

structure Turn (limits : ServerLimits) (s : ShardedServer) (k : Nat) (popped rest : List Work)
    (s' : ShardedServer) (calls : List Work) : Prop where
  keeps : s.Keeps s' k
  linked : s'.Linked
  owned : ∀ w ∈ calls, s'.Owned k w
  admits : ∀ w ∈ calls, ∀ c, w.admits = some c → calls ++ rest = [w] ∧ s'.IsOpen k c
  counts : Counts limits s s' popped calls
  watch : s.Settled ∨ (∃ w ∈ popped, w.checks = true) ∨ (∃ m ∈ s.mailbox, m.2.checks = true) →
    s'.Settled ∨ s'.Rechecks calls

/-! ## The invariant -/

/-- Every thread works for its own shard, and a REQUEST is admitted on an open connection, with
    nothing else on the thread's stack. -/
structure Placed (s : ShardedServer) : Prop where
  linked : s.Linked
  work : ∀ (k : Nat) (stack : List Work), s.threads[k]? = some stack → ∀ w ∈ stack, s.Owned k w
  mail : ∀ m ∈ s.mailbox, s.OwnedMessage m
  admitted : ∀ (k : Nat) (stack : List Work), s.threads[k]? = some stack → ∀ w ∈ stack,
    ∀ c, w.admits = some c → stack = [w] ∧ s.IsOpen k c

structure Sound (limits : ServerLimits) (s : ShardedServer) : Prop where
  placed : s.Placed
  active : s.activeConnections = s.held + s.attaching
  bounded : s.activeConnections ≤ limits.maxConnections
  watched : s.Settled ∨ s.Rechecks s.threads.flatten

variable {w : Work}

theorem Keeps.owned (h : s.Keeps s' k) (hw : s.Owned j w) : s'.Owned j w := by
  cases w with
  | onFrame | acquireInflight | addRequest | view | queueFrame | maybeCloseAfterDrain | close =>
    exact h.shard _ _ hw
  | serve | finish | completeRequest => exact h.owner _ _ hw
  | beginDrainAll | closeAll => exact fun c hc => h.shard c j (hw c hc)
  | stopAccepting => exact ⟨hw.1, h.stopped hw.2⟩
  | requestBeginDrain | closeShards => exact hw
  | attachConnection | reserve | emplace | finishWaiters | abandonAll | maybeFinishDrain
  | endBeginDrain | stopNow => trivial

theorem Keeps.ownedMessage (h : s.Keeps s' k) {m : Nat × Message} (hm : s.OwnedMessage m) :
    s'.OwnedMessage m := by
  obtain ⟨j, m⟩ := m
  cases m with
  | finish i => exact h.owner i j hm
  | attachAccepted | completion | beginDrainConnections | closeAllConnections | maybeFinishDrain
  | stopNow => trivial

theorem Turn.placed (h : Turn limits s k popped rest s' calls) (hs : s.Placed)
    (hstack : s.threads[k]? = some (popped ++ rest)) (hidle : popped ≠ [] ∨ rest = []) :
    Placed { s' with threads := s'.threads.set k (calls ++ rest) } := by
  have hrow : ∀ {j stack}, (s'.threads.set k (calls ++ rest))[j]? = some stack →
      (j = k ∧ stack = calls ++ rest) ∨ (j ≠ k ∧ s.threads[j]? = some stack) := by
    intro j stack hj
    rw [h.keeps.threads] at hj
    by_cases hjk : j = k
    · subst hjk
      rw [List.getElem?_set_self (List.getElem?_eq_some_iff.mp hstack).1] at hj
      exact .inl ⟨rfl, (Option.some.inj hj).symm⟩
    · rw [List.getElem?_set_ne (Ne.symm hjk)] at hj
      exact .inr ⟨hjk, hj⟩
  -- Nothing is left on the stack below a REQUEST that is being admitted.
  have hnone : ∀ w ∈ rest, ∀ c, w.admits = some c → False := by
    intro w hw c hc
    obtain ⟨hsingle, -⟩ := hs.admitted k _ hstack w (mem_append_right _ hw) c hc
    rcases hidle with hne | rfl
    · cases popped with
      | nil => exact hne rfl
      | cons _ _ =>
        cases rest with
        | nil => cases hw
        | cons _ _ => simp at hsingle
    · cases hw
  refine ⟨⟨h.linked.held, h.linked.listed, h.linked.homed, h.linked.mapped⟩, ?_, ?_, ?_⟩
  · intro j stack hj w hw
    rcases hrow hj with ⟨rfl, rfl⟩ | ⟨-, hj⟩
    · rcases mem_append.mp hw with hw | hw
      · exact owned_congr (h.owned w hw)
      · exact owned_congr (h.keeps.owned (hs.work j _ hstack w (mem_append_right _ hw)))
    · exact owned_congr (h.keeps.owned (hs.work j stack hj w hw))
  · intro m hm
    rcases h.keeps.mail m hm with hold | hnew
    · exact message_congr (h.keeps.ownedMessage (hs.mail m hold))
    · exact message_congr hnew
  · intro j stack hj w hw c hc
    rcases hrow hj with ⟨rfl, rfl⟩ | ⟨hjk, hj⟩
    · rcases mem_append.mp hw with hw | hw
      · exact h.admits w hw c hc
      · exact (hnone w hw c hc).elim
    · obtain ⟨hsingle, hopen⟩ := hs.admitted j stack hj w hw c hc
      exact ⟨hsingle, h.keeps.opened c j hjk hopen⟩
where
  owned_congr {threads : List (List Work)} {j : Nat} {w : Work} (hw : s'.Owned j w) :
      Owned { s' with threads := threads } j w := by
    cases w <;> exact hw
  message_congr {threads : List (List Work)} {m : Nat × Message} (hm : s'.OwnedMessage m) :
      OwnedMessage { s' with threads := threads } m := by
    obtain ⟨j, m⟩ := m
    cases m <;> exact hm

theorem Turn.sound (h : Turn limits s k popped rest s' calls) (hs : s.Sound limits)
    (hstack : s.threads[k]? = some (popped ++ rest)) (hidle : popped ≠ [] ∨ rest = []) :
    Sound limits { s' with threads := s'.threads.set k (calls ++ rest) } := by
  have hcount := countP_flatten_set attaches (calls ++ rest) hstack
  rw [countP_append, countP_append] at hcount
  have hattaching : attaching { s' with threads := s'.threads.set k (calls ++ rest) } =
      (s.threads.set k (calls ++ rest)).flatten.countP attaches := by
    rw [← h.keeps.threads]
    rfl
  have hbefore : s.attaching = s.threads.flatten.countP attaches := rfl
  have hactive := hs.active
  have hbounded := hs.bounded
  refine ⟨h.placed hs.placed hstack hidle, ?_, ?_, ?_⟩
  · show s'.activeConnections = s'.held + attaching { s' with threads := _ }
    rw [hattaching]
    cases h.counts with
    | same hactive' hheld hpopped hcalls => omega
    | reserve hlt hactive' hheld hpopped hcalls => omega
    | collide hactive' hheld hpopped hcalls | close hactive' hheld hpopped hcalls =>
      rw [subSize_eq (by omega)] at hactive'
      omega
    | emplace hactive' hheld hpopped hcalls => omega
  · show s'.activeConnections ≤ limits.maxConnections
    cases h.counts with
    | same hactive' | reserve _ hactive' | emplace hactive' => omega
    | collide hactive' hheld hpopped hcalls | close hactive' hheld =>
      rw [subSize_eq (by omega)] at hactive'
      omega
  · -- A look that is neither popped nor posted is still on its stack.
    have hcalls : s'.Settled ∨ s'.Rechecks calls →
        Settled { s' with threads := s'.threads.set k (calls ++ rest) } ∨
          Rechecks { s' with threads := s'.threads.set k (calls ++ rest) }
            (s'.threads.set k (calls ++ rest)).flatten := by
      rintro (hsettled | ⟨w, hw, hchecks⟩ | hmail)
      · exact .inl hsettled
      · refine .inr (.inl ⟨w, ?_, hchecks⟩)
        rw [h.keeps.threads]
        exact mem_flatten_set_self hstack (mem_append_left _ hw)
      · exact .inr (.inr hmail)
    rcases hs.watched with hsettled | ⟨w, hw, hchecks⟩ | hmail
    · exact hcalls (h.watch (.inl hsettled))
    · rcases mem_flatten_of_set (y := calls ++ rest) hstack hw with hw | hw
      · rcases mem_append.mp hw with hw | hw
        · exact hcalls (h.watch (.inr (.inl ⟨w, hw, hchecks⟩)))
        · refine .inr (.inl ⟨w, ?_, hchecks⟩)
          show w ∈ (s'.threads.set k (calls ++ rest)).flatten
          rw [h.keeps.threads]
          exact mem_flatten_set_self hstack (mem_append_right _ hw)
      · refine .inr (.inl ⟨w, ?_, hchecks⟩)
        show w ∈ (s'.threads.set k (calls ++ rest)).flatten
        rw [h.keeps.threads]
        exact hw
    · exact hcalls (h.watch (.inr (.inr hmail)))

/-! ## Turns that leave the tables alone -/

/-- The states agree on what the tables, the connections and the requests refer to. -/
structure Alike (s s' : ShardedServer) : Prop where
  threads : s'.threads = s.threads
  tables : s'.tables = s.tables
  ports : s'.connections.map (fun x => (x.shard, x.fd, x.closed)) =
    s.connections.map fun x => (x.shard, x.fd, x.closed)
  homes : s'.states.map (fun x => (x.connection, x.owner)) =
    s.states.map fun x => (x.connection, x.owner)
  requests : ∀ (c : Nat) (x' : ServerConnection) (requestId : UInt64) (i : Nat),
    s'.connections[c]? = some x' → x'.requests.lookup requestId = some i →
    ∃ x : ServerConnection, s.connections[c]? = some x ∧ x.requests.lookup requestId = some i

namespace Alike

theorem of_eq (hthreads : s'.threads = s.threads) (htables : s'.tables = s.tables)
    (hconnections : s'.connections = s.connections) (hstates : s'.states = s.states) :
    s.Alike s' :=
  ⟨hthreads, htables, by rw [hconnections], by rw [hstates],
    fun _ x' _ _ hx' hi => ⟨x', hconnections ▸ hx', hi⟩⟩

theorem setConnection (s : ShardedServer) (c : Nat) {f : ServerConnection → ServerConnection}
    (hport : ∀ x, ((f x).shard, (f x).fd, (f x).closed) = (x.shard, x.fd, x.closed))
    (hrequests : ∀ x requestId i, (f x).requests.lookup requestId = some i →
      x.requests.lookup requestId = some i) : s.Alike (s.setConnection c f) := by
  refine ⟨rfl, rfl, map_modify_eq hport, rfl, ?_⟩
  intro c' x' requestId i hx' hi
  rcases getElem?_modify_cases hx' with ⟨x, rfl, hx, rfl⟩ | ⟨-, hx⟩
  · exact ⟨x, hx, hrequests x requestId i hi⟩
  · exact ⟨x', hx, hi⟩

theorem complete (s : ShardedServer) (i : Nat) : s.Alike { s.releaseInflight with
      states := s.states.modify i fun state => { state with completed := true } } :=
  ⟨rfl, rfl, rfl, map_modify_eq fun _ => rfl, fun _ x' _ _ hx' hi => ⟨x', hx', hi⟩⟩

variable (h : s.Alike s')
include h

theorem port {c : Nat} {x' : ServerConnection} (hx' : s'.connections[c]? = some x') :
    ∃ x, s.connections[c]? = some x ∧ x.shard = x'.shard ∧ x.fd = x'.fd ∧
      x.closed = x'.closed := by
  have hc := congrArg (fun l => l[c]?) h.ports
  simp only [getElem?_map, hx', map_some] at hc
  obtain ⟨x, hx, heq⟩ := map_eq_some_iff.mp hc.symm
  simp only [Prod.mk.injEq] at heq
  exact ⟨x, hx, heq⟩

theorem shardOf (c : Nat) : s'.shardOf c = s.shardOf c := by
  have hc := congrArg (fun l => (l[c]?).map Prod.fst) h.ports
  simpa [ShardedServer.shardOf, comp_def] using hc

theorem ownerOf (i : Nat) : s'.ownerOf i = s.ownerOf i := by
  have hi := congrArg (fun l => (l[i]?).map Prod.snd) h.homes
  simpa [ShardedServer.ownerOf, comp_def] using hi

theorem isOpen {j c : Nat} (hc : s.IsOpen j c) : s'.IsOpen j c := by
  obtain ⟨x, hx, hshard, hclosed⟩ := hc
  have hport := congrArg (fun l => l[c]?) h.ports
  simp only [getElem?_map, hx, map_some] at hport
  obtain ⟨x', hx', heq⟩ := map_eq_some_iff.mp hport
  simp only [Prod.mk.injEq] at heq
  exact ⟨x', hx', heq.1.trans hshard, heq.2.2.trans hclosed⟩

theorem held_eq : s'.held = s.held := by
  unfold ShardedServer.held
  rw [h.tables]

theorem linked (hs : s.Linked) : s'.Linked := by
  refine ⟨?_, ?_, ?_, ?_⟩
  · intro k table fd c htable hfd
    rw [h.shardOf]
    exact hs.held k table fd c (h.tables ▸ htable) hfd
  · intro c x' hx' hopen
    obtain ⟨x, hx, hshard, hfd, hclosed⟩ := h.port hx'
    rw [h.tables, ← hshard, ← hfd]
    exact hs.listed c x hx (hclosed.trans hopen)
  · intro i state' hstate'
    have hi := congrArg (fun l => l[i]?) h.homes
    simp only [getElem?_map, hstate', map_some] at hi
    obtain ⟨state, hstate, heq⟩ := map_eq_some_iff.mp hi.symm
    simp only [Prod.mk.injEq] at heq
    rw [h.shardOf, ← heq.1, ← heq.2]
    exact hs.homed i state hstate
  · intro c x' requestId i hx' hi
    obtain ⟨x, hx, hlookup⟩ := h.requests c x' requestId i hx' hi
    obtain ⟨y, hy, hshard, -⟩ := h.port hx'
    cases hx.symm.trans hy
    rw [h.ownerOf, ← hshard]
    exact hs.mapped c x requestId i hx hlookup

theorem keeps (hstopped : s.stopped = true → s'.stopped = true)
    (hmail : ∀ m ∈ s'.mailbox, m ∈ s.mailbox ∨ s'.OwnedMessage m) : s.Keeps s' k :=
  ⟨h.threads, hstopped, fun c _ hc => (h.shardOf c).trans hc,
    fun i _ hi => (h.ownerOf i).trans hi, fun _ _ _ => h.isOpen, hmail⟩

end Alike

/-- Thread `k` of `s` may come to do `w`, and `w` neither attaches a connection nor admits a
    REQUEST. -/
def Follows (s : ShardedServer) (k : Nat) (w : Work) : Prop :=
  s.Owned k w ∧ w.attaches = false ∧ w.admits = none

theorem countP_attaches_eq_zero {l : List Work} (h : ∀ w ∈ l, w.attaches = false) :
    l.countP attaches = 0 :=
  countP_eq_zero.mpr fun w hw => by simp [h w hw]

theorem Turn.of_alike (hs : s.Linked) (ha : s.Alike s')
    (hstopped : s.stopped = true → s'.stopped = true)
    (hactive : s'.activeConnections = s.activeConnections)
    (hmail : ∀ m ∈ s'.mailbox, m ∈ s.mailbox ∨ s'.OwnedMessage m)
    (hpopped : ∀ w ∈ popped, w.attaches = false) (hcalls : ∀ w ∈ calls, s'.Follows k w)
    (hwatch : s.Settled ∨ (∃ w ∈ popped, w.checks = true) ∨
      (∃ m ∈ s.mailbox, m.2.checks = true) → s'.Settled ∨ s'.Rechecks calls) :
    Turn limits s k popped rest s' calls where
  keeps := ha.keeps hstopped hmail
  linked := ha.linked hs
  owned := fun w hw => (hcalls w hw).1
  admits := fun w hw c hc => by simp [(hcalls w hw).2.2] at hc
  counts := .same hactive ha.held_eq (countP_attaches_eq_zero hpopped)
    (countP_attaches_eq_zero fun w hw => (hcalls w hw).2.1)
  watch := hwatch

/-- What `MaybeFinishDrain` reads, and the posted closures. -/
def flags (s : ShardedServer) : Bool × Bool × Nat × Nat × List (Nat × Message) :=
  (s.accepting, s.stopped, s.inflightCount, s.activeConnections, s.mailbox)

/-- Nothing that is watched changes. A look at the counters that ends here has found one of them
    other than zero, or leads to another. -/
theorem Turn.quiet (hs : s.Linked) (ha : s.Alike s') (hflags : s'.flags = s.flags)
    (hpopped : ∀ w ∈ popped, w.attaches = false) (hcalls : ∀ w ∈ calls, s'.Follows k w)
    (hwatch : (∃ w ∈ popped, w.checks = true) → s.Settled ∨ ∃ w ∈ calls, w.checks = true) :
    Turn limits s k popped rest s' calls := by
  simp only [flags, Prod.mk.injEq] at hflags
  obtain ⟨haccepting, hstopped, hinflight, hactive, hmailbox⟩ := hflags
  have hsettled : s.Settled → s'.Settled := by
    unfold Settled
    rw [haccepting, hstopped, hinflight, hactive]
    exact id
  refine .of_alike hs ha (fun h => hstopped.trans h) hactive (fun m hm => .inl (hmailbox ▸ hm))
    hpopped hcalls ?_
  rintro (h | h | ⟨m, hm, hchecks⟩)
  · exact .inl (hsettled h)
  · rcases hwatch h with h | h
    · exact .inl (hsettled h)
    · exact .inr (.inl h)
  · exact .inr (.inr ⟨m, hmailbox ▸ hm, hchecks⟩)

/-- Nothing that is watched changes, and the work has nothing to do with the watch. -/
theorem Turn.pass (hs : s.Linked) (ha : s.Alike s') (hflags : s'.flags = s.flags)
    (hw : w.attaches = false ∧ w.checks = false) (hcalls : ∀ w ∈ calls, s'.Follows k w) :
    Turn limits s k [w] rest s' calls := by
  refine .quiet hs ha hflags (forall_mem_singleton.mpr hw.1) hcalls ?_
  rintro ⟨_, hmem, hchecks⟩
  rw [mem_singleton.mp hmem, hw.2] at hchecks
  cases hchecks

/-- Nothing changes at all. -/
theorem Turn.stay (hs : s.Linked) (hw : w.attaches = false ∧ w.checks = false)
    (hcalls : ∀ w ∈ calls, s.Follows k w) : Turn limits s k [w] rest s calls :=
  .pass hs (.of_eq rfl rfl rfl rfl) rfl hw hcalls

theorem Turn.post {m : Message} (hs : s.Linked) (hm : s.OwnedMessage (j, m))
    (hw : w.attaches = false) (hcalls : ∀ w ∈ calls, s.Follows k w)
    (hwatch : w.checks = true → m.checks = true) : Turn limits s k [w] rest (s.post j m) calls := by
  refine .of_alike hs (.of_eq rfl rfl rfl rfl) id rfl ?_ (forall_mem_singleton.mpr hw) ?_ ?_
  · intro m' hm'
    rcases mem_append.mp hm' with h | h
    · exact .inl h
    · obtain rfl := mem_singleton.mp h
      refine .inr ?_
      cases m <;> exact hm
  · intro w hw
    refine ⟨?_, (hcalls w hw).2⟩
    have := (hcalls w hw).1
    cases w <;> exact this
  · rintro (h | ⟨_, hmem, hchecks⟩ | ⟨m', hm', hchecks⟩)
    · exact .inl h
    · obtain rfl := mem_singleton.mp hmem
      exact .inr (.inr ⟨(j, m), mem_append_right _ (mem_singleton.mpr rfl), hwatch hchecks⟩)
    · exact .inr (.inr ⟨m', mem_append_left _ hm', hchecks⟩)

/-- A counter or a flag changes, and the thread looks again or there is nothing to look for. -/
theorem Turn.changed (hs : s.Linked) (ha : s.Alike s')
    (hstopped : s.stopped = true → s'.stopped = true)
    (hactive : s'.activeConnections = s.activeConnections) (hmailbox : s'.mailbox = s.mailbox)
    (hpopped : ∀ w ∈ popped, w.attaches = false) (hcalls : ∀ w ∈ calls, s'.Follows k w)
    (hwatch : s'.Settled ∨ ∃ w ∈ calls, w.checks = true) :
    Turn limits s k popped rest s' calls :=
  .of_alike hs ha hstopped hactive (fun _ hm => .inl (hmailbox ▸ hm)) hpopped hcalls
    fun _ => hwatch.imp id .inl

/-! ## The functions -/

section
variable {choice : Choice} {c i fd : Nat} {requestId : UInt64}

theorem attachConnection_turn (hs : s.Linked)
    (h : s.attachConnection fd choice = some (s', calls)) :
    Turn limits s k [.attachConnection fd] rest s' calls := by
  cases choice with
  | refuse =>
    cases h
    exact .stay hs ⟨rfl, rfl⟩ (by simp)
  | prepared =>
    cases h
    refine .stay hs ⟨rfl, rfl⟩ ?_
    split <;> simp [Follows, Owned, attaches, admits]
  | _ => cases h

theorem reserve_turn (hs : s.Linked) (h : s.reserve limits fd = (s', calls)) :
    Turn limits s k [.reserve fd] rest s' calls := by
  unfold reserve at h
  split at h
  · cases h
    exact .stay hs ⟨rfl, rfl⟩ (by simp)
  · next hlt =>
    cases h
    have ha : s.Alike { s with activeConnections := s.activeConnections + 1 } :=
      .of_eq rfl rfl rfl rfl
    exact
      { keeps := ha.keeps id fun _ => .inl
        linked := ha.linked hs
        owned := by simp [Owned]
        admits := by simp [admits]
        counts := .reserve (Nat.lt_of_not_le hlt) rfl rfl rfl rfl
        watch := fun _ => .inl (.inr (.inr (.inr (Nat.succ_ne_zero _)))) }

theorem attaching_pos (hstack : s.threads[k]? = some (.emplace fd :: rest)) : 0 < s.attaching :=
  countP_pos_iff.mpr ⟨.emplace fd, mem_flatten.mpr ⟨_, mem_of_getElem? hstack, mem_cons_self⟩, rfl⟩

variable {table : AList (fun _ : Nat => Nat)}

/-- The descriptor is in the table already, so the counter does not fall to zero. -/
theorem collide_turn (hs : s.Sound limits) (hstack : s.threads[k]? = some (.emplace fd :: rest))
    (htable : s.tables[k]? = some table) (hfd : table.lookup fd = some c) :
    Turn limits s k [.emplace fd] rest s.releaseConnection [] := by
  have ha : s.Alike s.releaseConnection := .of_eq rfl rfl rfl rfl
  have hheld := held_pos_of_lookup htable hfd
  have hattaching := attaching_pos hstack
  have hactive := hs.active
  exact
    { keeps := ha.keeps id fun _ => .inl
      linked := ha.linked hs.placed.linked
      owned := by simp
      admits := by simp
      counts := .collide rfl rfl rfl rfl
      watch := fun _ => by
        refine .inl (.inr (.inr (.inr ?_)))
        show subSize s.activeConnections 1 ≠ 0
        rw [subSize_eq (by omega)]
        omega }

variable {j : Nat}

theorem shardOf_append {x : ServerConnection} (h : s.shardOf c = some j) :
    (s.connections ++ [x])[c]?.map shard = some j := by
  obtain ⟨y, hy, hshard⟩ := map_eq_some_iff.mp h
  rw [getElem?_append_of_eq_some hy, map_some, hshard]

theorem placeConnection_linked (hs : s.Linked) (htable : s.tables[k]? = some table)
    (hfd : table.lookup fd = none) :
    Linked { s with
      connections := s.connections ++ [{ shard := k, fd := fd }]
      tables := s.tables.set k (table.insert fd s.connections.length) } := by
  have hk : k < s.tables.length := (List.getElem?_eq_some_iff.mp htable).1
  have hnew : (s.connections ++ [{ shard := k, fd := fd }])[s.connections.length]? =
      some { shard := k, fd := fd } := List.getElem?_concat_length
  refine ⟨?_, ?_, fun i state hi => shardOf_append (hs.homed i state hi), ?_⟩
  · intro j table' fd' c' htable' hfd'
    by_cases hj : k = j
    · subst hj
      cases (List.getElem?_set_self hk).symm.trans htable'
      by_cases hsame : fd' = fd
      · subst hsame
        cases (AList.lookup_insert table).symm.trans hfd'
        show Option.map _ _ = _
        rw [hnew]
        rfl
      · rw [AList.lookup_insert_ne hsame] at hfd'
        exact shardOf_append (hs.held k table fd' c' htable hfd')
    · have hrow : s.tables[j]? = some table' := (List.getElem?_set_ne hj).symm.trans htable'
      exact shardOf_append (hs.held j table' fd' c' hrow hfd')
  · intro c' x hx hopen
    rcases getElem?_snoc hx with hx | ⟨rfl, rfl⟩
    · obtain ⟨table', htable', hfd'⟩ := hs.listed c' x hx hopen
      by_cases hj : k = x.shard
      · cases (hj ▸ htable).symm.trans htable'
        have hne : x.fd ≠ fd := by
          rintro rfl
          cases hfd.symm.trans hfd'
        refine ⟨table.insert fd s.connections.length, ?_, ?_⟩
        · rw [← hj]
          exact List.getElem?_set_self hk
        · rw [AList.lookup_insert_ne hne, hfd']
      · exact ⟨table', (List.getElem?_set_ne hj).trans htable', hfd'⟩
    · exact ⟨table.insert fd s.connections.length, List.getElem?_set_self hk,
        AList.lookup_insert table⟩
  · intro c' x requestId i hx hi
    rcases getElem?_snoc hx with hx | ⟨rfl, rfl⟩
    · exact hs.mapped c' x requestId i hx hi
    · cases hi

theorem emplace_turn (hs : s.Sound limits) (hstack : s.threads[k]? = some (.emplace fd :: rest))
    (htable : s.tables[k]? = some table) (h : s.emplace k fd table choice = some (s', calls)) :
    Turn limits s k [.emplace fd] rest s' calls := by
  cases choice with
  | start throws =>
    cases hfd : table.lookup fd with
    | some c =>
      simp only [emplace, hfd, isSome_some, if_true] at h
      cases h
      exact collide_turn hs hstack htable hfd
    | none =>
      simp only [emplace, hfd, isSome_none, if_neg Bool.false_ne_true] at h
      cases h
      have hactive := hs.active
      have hattaching := attaching_pos hstack
      have hkey : fd ∉ table.keys := AList.lookup_eq_none.mp hfd
      have hsum := sum_map_set_add (fun table : AList (fun _ : Nat => Nat) => table.keys.length)
        (table.insert fd s.connections.length) htable
      simp only [AList.keys_insert, erase_of_not_mem hkey, length_cons] at hsum
      have hheld : ((s.tables.set k (table.insert fd s.connections.length)).map
          fun table => table.keys.length).sum = s.held + 1 := by
        unfold held
        omega
      have hnew : (s.connections ++ [{ shard := k, fd := fd }])[s.connections.length]? =
          some { shard := k, fd := fd } := List.getElem?_concat_length
      exact
        { keeps := ⟨rfl, id, fun c j => shardOf_append, fun _ _ => id,
            fun c j _ ⟨x, hx, hopen⟩ => ⟨x, getElem?_append_of_eq_some hx, hopen⟩, fun _ => .inl⟩
          linked := placeConnection_linked hs.placed.linked htable hfd
          owned := by
            intro w hw
            cases throws with
            | false => cases hw
            | true =>
              obtain rfl := mem_singleton.mp hw
              show Option.map _ _ = _
              rw [hnew]
              rfl
          admits := by cases throws <;> simp [admits]
          counts := .emplace rfl hheld rfl (by cases throws <;> rfl)
          watch := fun _ => .inl (.inr (.inr (.inr (by
            show s.activeConnections ≠ 0
            omega)))) }
  | _ => cases h

/-- The state in which an open connection `c` of shard `k` has been closed and its entry erased. -/
def afterClose (s : ShardedServer) (k c fd : Nat) (table : AList (fun _ : Nat => Nat)) :
    ShardedServer :=
  { s.releaseConnection with
    connections := s.connections.modify c fun x => { x with closed := true, requests := ∅ }
    tables := s.tables.set k (table.erase fd) }

variable {connection : ServerConnection}

theorem close_eq (hc : s.connections[c]? = some connection) (hopen : connection.closed = false)
    (htable : s.tables[connection.shard]? = some table)
    (hfd : table.lookup connection.fd = some c) :
    s.close c connection = (s.afterClose connection.shard c connection.fd table,
      [.abandonAll (connection.requests.entries.map fun entry => entry.2)]) := by
  have hclosed : (s.connections.modify c fun x => { x with closed := true })[c]? =
      some { connection with closed := true } := getElem?_modify_self hc
  simp only [close, hopen, if_neg Bool.false_ne_true, onConnectionClosed, setConnection, htable,
    hfd, hclosed, afterClose, releaseConnection, modify_modify_eq]
  rfl

theorem shardOf_afterClose {c' : Nat} : (s.afterClose j c fd table).shardOf c' = s.shardOf c' := by
  have hmap := congrArg (fun l => l[c']?) (map_modify_eq (l := s.connections) (i := c) (g := shard)
      (f := fun x => { x with closed := true, requests := ∅ }) fun _ => rfl)
  simpa [shardOf, afterClose] using hmap

theorem afterClose_linked (hs : s.Linked) (htable : s.tables[connection.shard]? = some table)
    (hfd : table.lookup connection.fd = some c) :
    (s.afterClose connection.shard c connection.fd table).Linked := by
  have hlt : connection.shard < s.tables.length := (List.getElem?_eq_some_iff.mp htable).1
  refine ⟨?_, ?_, ?_, ?_⟩
  · intro j table' fd' c' htable' hfd'
    rw [shardOf_afterClose]
    by_cases hj : connection.shard = j
    · subst hj
      cases (List.getElem?_set_self hlt).symm.trans htable'
      by_cases hsame : fd' = connection.fd
      · rw [hsame, AList.lookup_erase] at hfd'
        cases hfd'
      · rw [AList.lookup_erase_ne hsame] at hfd'
        exact hs.held _ table fd' c' htable hfd'
    · exact hs.held j table' fd' c' ((List.getElem?_set_ne hj).symm.trans htable') hfd'
  · intro c' x hx hopen
    rcases getElem?_modify_cases hx with ⟨_, rfl, _, rfl⟩ | ⟨hne, hx⟩
    · cases hopen
    · obtain ⟨table', htable', hfd'⟩ := hs.listed c' x hx hopen
      by_cases hj : connection.shard = x.shard
      · rw [← hj, htable] at htable'
        cases htable'
        -- Another connection under the same descriptor would be this one.
        have hfdne : x.fd ≠ connection.fd := by
          intro heq
          rw [heq, hfd] at hfd'
          exact hne (Option.some.inj hfd')
        refine ⟨table.erase connection.fd, ?_, ?_⟩
        · rw [← hj]
          exact List.getElem?_set_self hlt
        · rw [AList.lookup_erase_ne hfdne, hfd']
      · exact ⟨table', (List.getElem?_set_ne hj).trans htable', hfd'⟩
  · intro i state hstate
    rw [shardOf_afterClose]
    exact hs.homed i state hstate
  · intro c' x requestId i hx hi
    rcases getElem?_modify_cases hx with ⟨_, rfl, _, rfl⟩ | ⟨-, hx⟩
    · cases hi
    · exact hs.mapped c' x requestId i hx hi

theorem held_afterClose (htable : s.tables[connection.shard]? = some table)
    (hfd : table.lookup connection.fd = some c) :
    (s.afterClose connection.shard c connection.fd table).held + 1 = s.held := by
  have hkey : connection.fd ∈ table.keys := AList.lookup_isSome.mp (by rw [hfd]; rfl)
  have hlen := length_erase_of_mem hkey
  have hpos := length_pos_of_mem hkey
  have hsum := sum_map_set_add (fun table : AList (fun _ : Nat => Nat) => table.keys.length)
    (table.erase connection.fd) htable
  simp only [AList.keys_erase] at hsum
  show ((s.tables.set connection.shard (table.erase connection.fd)).map
    fun table => table.keys.length).sum + 1 = s.held
  unfold held
  omega

/-- A shard closes one of its connections: the entry leaves the table with the count. -/
theorem close_turn (hs : s.Linked) (hc : s.connections[c]? = some connection)
    (hk : s.shardOf c = some k) (h : s.close c connection = (s', calls)) :
    Turn limits s k [.close c] rest s' calls := by
  obtain rfl : connection.shard = k := by
    rw [shardOf, hc] at hk
    exact Option.some.inj hk
  cases hopen : connection.closed with
  | true =>
    simp only [close, hopen, if_true] at h
    cases h
    exact .stay hs ⟨rfl, rfl⟩ (by simp)
  | false =>
    obtain ⟨table, htable, hfd⟩ := hs.listed c connection hc hopen
    rw [close_eq hc hopen htable hfd] at h
    cases h
    exact
      { keeps :=
          { threads := rfl
            stopped := id
            shard := fun _ _ hj => shardOf_afterClose.trans hj
            owner := fun _ _ => id
            opened := by
              rintro c' j hj ⟨x, hx, hshard, hclosed⟩
              have hne : c ≠ c' := by
                rintro rfl
                cases hc.symm.trans hx
                exact hj hshard.symm
              exact ⟨x, (getElem?_modify_of_ne hne).trans hx, hshard, hclosed⟩
            mail := fun _ => .inl }
        linked := afterClose_linked hs htable hfd
        owned := by simp [Owned]
        admits := by simp [admits]
        counts := .close rfl (held_afterClose htable hfd) rfl rfl
        watch := fun _ => .inr (.inl ⟨_, mem_singleton.mpr rfl, rfl⟩) }

/-! ### The request path -/

theorem Turn.admitRequest {w w' : Work} (hs : s.Linked) (ha : s.Alike s')
    (hstopped : s.stopped = true → s'.stopped = true)
    (hactive : s'.activeConnections = s.activeConnections) (hmailbox : s'.mailbox = s.mailbox)
    (hsettled : s.Settled → s'.Settled) (hw : w.attaches = false ∧ w.checks = false)
    (hw' : w'.attaches = false) (howned : s'.Owned k w') (hc : w'.admits = some c)
    (hopen : s'.IsOpen k c) : Turn limits s k [w] [] s' [w'] where
  keeps := ha.keeps hstopped fun m hm => .inl (hmailbox ▸ hm)
  linked := ha.linked hs
  owned := forall_mem_singleton.mpr howned
  admits := by
    intro v hv c' hc'
    obtain rfl := mem_singleton.mp hv
    cases hc.symm.trans hc'
    exact ⟨rfl, hopen⟩
  counts := .same hactive ha.held_eq (countP_attaches_eq_zero (forall_mem_singleton.mpr hw.1))
    (countP_attaches_eq_zero (forall_mem_singleton.mpr hw'))
  watch := by
    rintro (h | ⟨_, hmem, hchecks⟩ | ⟨m, hm, hchecks⟩)
    · exact .inl (hsettled h)
    · rw [mem_singleton.mp hmem, hw.2] at hchecks
      cases hchecks
    · exact .inr (.inr ⟨m, hmailbox ▸ hm, hchecks⟩)

theorem onFrame_turn (hs : s.Placed) (hstack : s.threads[k]? = some (.onFrame c requestId :: rest))
    (h : s.onFrame c requestId choice = some (s', calls)) :
    Turn limits s k [.onFrame c requestId] rest s' calls := by
  have hshard : s.shardOf c = some k := hs.work k _ hstack _ mem_cons_self
  obtain ⟨hrest, hopen⟩ := hs.admitted k _ hstack _ mem_cons_self c rfl
  obtain rfl : rest = [] := (cons.inj hrest).2
  cases choice with
  | refuse =>
    cases h
    exact .stay hs.linked ⟨rfl, rfl⟩ (forall_mem_singleton.mpr ⟨hshard, rfl, rfl⟩)
  | admitRequest viewHandler =>
    simp only [onFrame] at h
    split at h
    · cases h
      exact .admitRequest hs.linked (.of_eq rfl rfl rfl rfl) id rfl rfl id ⟨rfl, rfl⟩ rfl hshard rfl
        hopen
    · cases h
      exact .stay hs.linked ⟨rfl, rfl⟩ (forall_mem_singleton.mpr ⟨hshard, rfl, rfl⟩)
  | _ => cases h

theorem acquireInflight_turn (hs : s.Placed) {viewHandler : Bool}
    (hstack : s.threads[k]? = some (.acquireInflight c requestId viewHandler :: rest))
    (h : s.acquireInflight limits c requestId viewHandler = (s', calls)) :
    Turn limits s k [.acquireInflight c requestId viewHandler] rest s' calls := by
  have hshard : s.shardOf c = some k := hs.work k _ hstack _ mem_cons_self
  obtain ⟨hrest, hopen⟩ := hs.admitted k _ hstack _ mem_cons_self c rfl
  obtain rfl : rest = [] := (cons.inj hrest).2
  unfold acquireInflight at h
  split at h
  · cases h
    exact .stay hs.linked ⟨rfl, rfl⟩ (forall_mem_singleton.mpr ⟨hshard, rfl, rfl⟩)
  · have hsettled : Settled { s with inflightCount := s.inflightCount + 1 } :=
      .inr (.inr (.inl (Nat.succ_ne_zero _)))
    have ha : s.Alike { s with inflightCount := s.inflightCount + 1 } := .of_eq rfl rfl rfl rfl
    cases viewHandler with
    | true =>
      cases h
      exact .changed hs.linked ha id rfl rfl (forall_mem_singleton.mpr rfl)
        (forall_mem_singleton.mpr ⟨hshard, rfl, rfl⟩) (.inl hsettled)
    | false =>
      cases h
      exact .admitRequest hs.linked ha id rfl rfl (fun _ => hsettled) ⟨rfl, rfl⟩ rfl hshard rfl
        (ha.isOpen hopen)

/-- The view handler has come back, in its reader or after it was suspended. -/
theorem viewReturned_turn (hs : s.Linked) (hshard : s.shardOf c = some k)
    (hpopped : ∀ w ∈ popped, w.attaches = false) :
    Turn limits s k popped rest (s.viewReturned c).1 (s.viewReturned c).2 := by
  refine .changed hs (.of_eq rfl rfl rfl rfl) id rfl rfl hpopped ?_
    (.inr ⟨.maybeFinishDrain .accepting, by simp [viewReturned], rfl⟩)
  exact forall_mem_cons.mpr ⟨⟨hshard, rfl, rfl⟩, forall_mem_singleton.mpr ⟨trivial, rfl, rfl⟩⟩

theorem view_turn (hs : s.Linked) (hshard : s.shardOf c = some k)
    (h : s.view c choice = some (s', calls)) : Turn limits s k [.view c] rest s' calls := by
  cases choice with
  | handlerReturns =>
    cases h
    exact viewReturned_turn hs hshard (forall_mem_singleton.mpr rfl)
  | handlerSuspends =>
    cases h
    exact .pass hs (.setConnection s c (fun _ => rfl) fun _ _ _ => id) rfl ⟨rfl, rfl⟩ (by simp)
  | _ => cases h

/-- The connection refuses the request, but it is open, so its count remains. -/
theorem refuse_turn (hs : s.Sound limits)
    (hstack : s.threads[k]? = some (.addRequest c requestId :: rest)) :
    Turn limits s k [.addRequest c requestId] rest s.releaseInflight [.queueFrame c] := by
  have hshard : s.shardOf c = some k := hs.placed.work k _ hstack _ mem_cons_self
  obtain ⟨-, hopen⟩ := hs.placed.admitted k _ hstack _ mem_cons_self c rfl
  have hheld := hs.placed.linked.held_pos hopen
  have hactive := hs.active
  refine .changed hs.placed.linked (.of_eq rfl rfl rfl rfl) id rfl rfl
    (forall_mem_singleton.mpr rfl) (forall_mem_singleton.mpr ⟨hshard, rfl, rfl⟩)
    (.inl (.inr (.inr (.inr ?_))))
  show s.activeConnections ≠ 0
  omega

/-- A new request of connection `c`, entered in the connection's map. -/
def afterAdd (s : ShardedServer) (c k : Nat) (requestId : UInt64) : ShardedServer :=
  { s with
    states := s.states ++ [{ connection := c, owner := k, requestId := requestId }]
    connections := s.connections.modify c fun x =>
      { x with requests := x.requests.insert requestId s.states.length } }

theorem shardOf_afterAdd {c' : Nat} : (s.afterAdd c k requestId).shardOf c' = s.shardOf c' := by
  have hmap := congrArg (fun l => l[c']?) (map_modify_eq (l := s.connections) (i := c) (g := shard)
      (f := fun x => { x with requests := x.requests.insert requestId s.states.length })
      fun _ => rfl)
  simpa [shardOf, afterAdd] using hmap

theorem ownerOf_afterAdd (h : s.ownerOf i = some j) :
    (s.afterAdd c k requestId).ownerOf i = some j := by
  obtain ⟨state, hstate, howner⟩ := map_eq_some_iff.mp h
  show ((s.states ++ [_])[i]?).map RequestState.owner = some j
  rw [getElem?_append_of_eq_some hstate, map_some, howner]

theorem ownerOf_afterAdd_new : (s.afterAdd c k requestId).ownerOf s.states.length = some k := by
  show ((s.states ++ [_])[s.states.length]?).map RequestState.owner = some k
  rw [List.getElem?_concat_length]
  rfl

theorem afterAdd_linked (hs : s.Linked) (hshard : s.shardOf c = some k) :
    (s.afterAdd c k requestId).Linked := by
  refine ⟨?_, ?_, ?_, ?_⟩
  · intro j table fd c' htable hfd
    rw [shardOf_afterAdd]
    exact hs.held j table fd c' htable hfd
  · intro c' x hx hopen
    rcases getElem?_modify_cases hx with ⟨y, rfl, hy, rfl⟩ | ⟨-, hx⟩
    · exact hs.listed c y hy hopen
    · exact hs.listed c' x hx hopen
  · intro i state hstate
    rw [shardOf_afterAdd]
    rcases getElem?_snoc hstate with hstate | ⟨-, rfl⟩
    · exact hs.homed i state hstate
    · exact hshard
  · intro c' x id i hx hi
    rcases getElem?_modify_cases hx with ⟨y, rfl, hy, rfl⟩ | ⟨-, hx⟩
    · by_cases hid : id = requestId
      · subst hid
        cases (AList.lookup_insert y.requests).symm.trans hi
        rw [shardOf, hy] at hshard
        rw [ownerOf_afterAdd_new]
        exact hshard.symm
      · have hold : y.requests.lookup id = some i := (AList.lookup_insert_ne hid).symm.trans hi
        exact ownerOf_afterAdd (hs.mapped c y id i hy hold)
    · exact ownerOf_afterAdd (hs.mapped c' x id i hx hi)

theorem addRequest_turn (hs : s.Sound limits)
    (hstack : s.threads[k]? = some (.addRequest c requestId :: rest))
    (hc : s.connections[c]? = some connection)
    (h : s.addRequest limits c connection requestId = (s', calls)) :
    Turn limits s k [.addRequest c requestId] rest s' calls := by
  have hshard : s.shardOf c = some k := hs.placed.work k _ hstack _ mem_cons_self
  obtain rfl : connection.shard = k := by
    rw [shardOf, hc] at hshard
    exact Option.some.inj hshard
  unfold addRequest at h
  split at h
  · cases h
    exact refuse_turn hs hstack
  · cases h
    change Turn limits s _ _ rest (s.afterAdd c connection.shard requestId) _
    exact
      { keeps :=
          { threads := rfl
            stopped := id
            shard := fun _ _ hj => shardOf_afterAdd.trans hj
            owner := fun _ _ => ownerOf_afterAdd
            opened := by
              rintro c' j - ⟨x, hx, hshard', hopen⟩
              by_cases hcc : c = c'
              · subst hcc
                exact ⟨_, getElem?_modify_self hx, hshard', hopen⟩
              · exact ⟨x, (getElem?_modify_of_ne hcc).trans hx, hshard', hopen⟩
            mail := fun _ => .inl }
        linked := afterAdd_linked hs.placed.linked hshard
        owned := forall_mem_singleton.mpr ownerOf_afterAdd_new
        admits := by simp [admits]
        counts := .same rfl rfl rfl rfl
        watch := by
          rintro (hsettled | ⟨w, hw, hchecks⟩ | hmail)
          · exact .inl hsettled
          · rw [mem_singleton.mp hw] at hchecks
            cases hchecks
          · exact .inr (.inr hmail) }

section
variable (hs : s.Linked)
include hs

variable {state : RequestState}

theorem serve_turn (h : s.serve state choice = some (s', calls)) :
    Turn limits s k [.serve i] rest s' calls := by
  cases choice with
  | respond waiters =>
    cases h
    exact .stay hs ⟨rfl, rfl⟩ (forall_mem_singleton.mpr ⟨trivial, rfl, rfl⟩)
  | handlerSuspends =>
    cases h
    exact .pass hs (.setConnection s _ (fun _ => rfl) fun _ _ _ => id) rfl ⟨rfl, rfl⟩ (by simp)
  | _ => cases h

theorem finishWaiters_turn {waiters : List Nat} (h : s.finishWaiters k waiters = some (s', calls)) :
    Turn limits s k [.finishWaiters waiters] rest s' calls := by
  have hmore : ∀ more, s.Follows k (.finishWaiters more) := fun _ => ⟨trivial, rfl, rfl⟩
  cases waiters with
  | nil =>
    cases h
    exact .stay hs ⟨rfl, rfl⟩ (by simp)
  | cons i waiters =>
    cases hi : s.states[i]? with
    | none => simp [finishWaiters, hi] at h
    | some state =>
      simp only [finishWaiters, hi] at h
      split at h
      · next howner =>
        cases h
        have hown : s.ownerOf i = some k := by rw [ownerOf, hi, ← howner]; rfl
        exact .stay hs ⟨rfl, rfl⟩ (forall_mem_cons.mpr
            ⟨⟨hown, rfl, rfl⟩, forall_mem_singleton.mpr (hmore waiters)⟩)
      · cases h
        have hown : s.ownerOf i = some state.owner := by rw [ownerOf, hi]; rfl
        exact .post hs hown rfl (forall_mem_singleton.mpr (hmore waiters)) nofun

theorem complete_turn {w : Work} (hw : w.attaches = false) (hcalls : ∀ w ∈ calls, s.Follows k w)
    (hcheck : ∃ w ∈ calls, w.checks = true) :
    Turn limits s k [w] rest { s.releaseInflight with
      states := s.states.modify i fun state => { state with completed := true } } calls := by
  have ha := Alike.complete s i
  refine .changed hs ha id rfl rfl (forall_mem_singleton.mpr hw) ?_ (.inr hcheck)
  intro v hv
  exact ⟨(ha.keeps id fun _ => .inl : s.Keeps _ k).owned (hcalls v hv).1, (hcalls v hv).2⟩

theorem finish_turn (howner : s.ownerOf i = some k) (h : s.finish i state = (s', calls)) :
    Turn limits s k [.finish i] rest s' calls := by
  unfold finish at h
  split at h
  · cases h
    exact .stay hs ⟨rfl, rfl⟩ (by simp)
  · cases h
    refine complete_turn hs rfl ?_ ⟨.maybeFinishDrain .accepting, by simp, rfl⟩
    exact forall_mem_cons.mpr ⟨⟨howner, rfl, rfl⟩, forall_mem_singleton.mpr ⟨trivial, rfl, rfl⟩⟩

theorem completeRequest_turn (hstate : s.states[i]? = some state) (howner : s.ownerOf i = some k) :
    Turn limits s k [.completeRequest i] rest (s.completeRequest state).1
      (s.completeRequest state).2 := by
  have ha : s.Alike (s.completeRequest state).1 := by
    refine .setConnection s _ (fun _ => rfl) fun x requestId i hi => ?_
    by_cases hid : requestId = state.requestId
    · subst hid
      cases (AList.lookup_erase _ _).symm.trans hi
    · exact (AList.lookup_erase_ne hid).symm.trans hi
  have hshard : (s.completeRequest state).1.shardOf state.connection = some k := by
    rw [ha.shardOf, hs.homed i state hstate]
    rw [ownerOf, hstate] at howner
    exact howner
  exact .pass hs ha rfl ⟨rfl, rfl⟩ (forall_mem_cons.mpr
      ⟨⟨hshard, rfl, rfl⟩, forall_mem_singleton.mpr ⟨hshard, rfl, rfl⟩⟩)

theorem queueFrame_turn (hshard : s.shardOf c = some k)
    (h : s.queueFrame c connection choice = some (s', calls)) :
    Turn limits s k [.queueFrame c] rest s' calls := by
  cases choice with
  | queue closes =>
    cases h
    refine .stay hs ⟨rfl, rfl⟩ ?_
    split
    · exact forall_mem_singleton.mpr ⟨hshard, rfl, rfl⟩
    · simp
  | _ => cases h

theorem maybeCloseAfterDrain_turn (hshard : s.shardOf c = some k)
    (h : s.maybeCloseAfterDrain c connection choice = some (s', calls)) :
    Turn limits s k [.maybeCloseAfterDrain c] rest s' calls := by
  cases choice with
  | outboundEmpty empty =>
    cases h
    refine .stay hs ⟨rfl, rfl⟩ ?_
    split
    · exact forall_mem_singleton.mpr ⟨hshard, rfl, rfl⟩
    · simp
  | _ => cases h

theorem abandonAll_turn {requests : List Nat}
    (h : s.abandonAll requests choice = some (s', calls)) :
    Turn limits s k [.abandonAll requests] rest s' calls := by
  have hpopped : ∀ w ∈ [Work.abandonAll requests], w.attaches = false :=
    forall_mem_singleton.mpr rfl
  have hmore : ∀ more, ∀ w ∈ [Work.abandonAll more], s.Follows k w := fun _ =>
    forall_mem_singleton.mpr ⟨trivial, rfl, rfl⟩
  cases choice with
  | pick n =>
    cases hn : requests[n]? with
    | none =>
      simp only [abandonAll, hn] at h
      split at h
      · cases h
        exact .quiet hs (.of_eq rfl rfl rfl rfl) rfl hpopped
          (forall_mem_singleton.mpr ⟨trivial, rfl, rfl⟩)
          fun _ => .inr ⟨_, mem_singleton.mpr rfl, rfl⟩
      · cases h
    | some i =>
      simp only [abandonAll, hn] at h
      obtain ⟨state, -, h⟩ := map_eq_some_iff.mp h
      cases h
      unfold abandon
      split
      · exact .quiet hs (.of_eq rfl rfl rfl rfl) rfl hpopped (hmore _)
          fun _ => .inr ⟨_, mem_singleton.mpr rfl, rfl⟩
      · exact complete_turn hs rfl (hmore _) ⟨_, mem_singleton.mpr rfl, rfl⟩
  | _ => cases h

end

/-! ### Draining and stopping -/

section
variable (hs : s.Linked)
include hs

/-- A look ends only at a value that leaves nothing to be done now. -/
theorem maybeFinishDrain_turn {next : Load} (h : s.maybeFinishDrain k next = (s', calls)) :
    Turn limits s k [.maybeFinishDrain next] rest s' calls := by
  have hpopped : ∀ w ∈ [Work.maybeFinishDrain next], w.attaches = false :=
    forall_mem_singleton.mpr rfl
  have hends : s.Settled → Turn limits s k [.maybeFinishDrain next] rest s [] := fun hsettled =>
    .quiet hs (.of_eq rfl rfl rfl rfl) rfl hpopped (by simp) fun _ => .inl hsettled
  have hgoes : ∀ w, s.Follows k w → w.checks = true →
      Turn limits s k [.maybeFinishDrain next] rest s [w] := fun w hw hchecks =>
    .quiet hs (.of_eq rfl rfl rfl rfl) rfl hpopped (forall_mem_singleton.mpr hw)
      fun _ => .inr ⟨w, mem_singleton.mpr rfl, hchecks⟩
  cases next with
  | accepting =>
    cases h
    split
    · next haccepting => exact hends (.inl haccepting)
    · exact hgoes _ ⟨trivial, rfl, rfl⟩ rfl
  | stopped =>
    cases h
    split
    · next hstopped => exact hends (.inr (.inl hstopped))
    · exact hgoes _ ⟨trivial, rfl, rfl⟩ rfl
  | inflightCount =>
    cases h
    split
    · next hinflight => exact hends (.inr (.inr (.inl hinflight)))
    · exact hgoes _ ⟨trivial, rfl, rfl⟩ rfl
  | activeConnections =>
    simp only [maybeFinishDrain] at h
    split at h
    · next hactive =>
      cases h
      exact hends (.inr (.inr (.inr hactive)))
    · split at h
      · cases h
        exact hgoes _ ⟨trivial, rfl, rfl⟩ rfl
      · cases h
        exact .post hs trivial rfl (by simp) fun _ => rfl

theorem requestBeginDrain_turn {shards : List Nat} (hk : k = 0)
    (h : s.requestBeginDrain shards = (s', calls)) :
    Turn limits s k [.requestBeginDrain shards] rest s' calls := by
  subst hk
  cases shards with
  | nil =>
    cases h
    exact .stay hs ⟨rfl, rfl⟩ (by simp)
  | cons j shards =>
    have hmore : s.Follows 0 (.requestBeginDrain shards) := ⟨rfl, rfl, rfl⟩
    simp only [requestBeginDrain] at h
    split at h
    · cases h
      exact .stay hs ⟨rfl, rfl⟩ (forall_mem_cons.mpr
          ⟨⟨fun _ => hs.heldBy, rfl, rfl⟩, forall_mem_singleton.mpr hmore⟩)
    · cases h
      exact .post hs trivial rfl (forall_mem_singleton.mpr hmore) nofun

theorem beginDrainAll_turn {connections : List Nat}
    (howned : ∀ c ∈ connections, s.shardOf c = some k)
    (h : s.beginDrainAll connections = (s', calls)) :
    Turn limits s k [.beginDrainAll connections] rest s' calls := by
  cases connections with
  | nil =>
    cases h
    exact .stay hs ⟨rfl, rfl⟩ (by simp)
  | cons c connections =>
    cases h
    obtain ⟨hc, hmore⟩ := forall_mem_cons.mp howned
    have ha : s.Alike (s.setConnection c fun x => { x with draining := true }) :=
      .setConnection s c (fun _ => rfl) fun _ _ _ => id
    exact .pass hs ha rfl ⟨rfl, rfl⟩ (forall_mem_cons.mpr ⟨⟨(ha.shardOf c).trans hc, rfl, rfl⟩,
        forall_mem_singleton.mpr ⟨fun c' hc' => (ha.shardOf c').trans (hmore c' hc'), rfl, rfl⟩⟩)

theorem endBeginDrain_turn : Turn limits s k [.endBeginDrain] rest s
      (if s.stopped then [] else [.maybeFinishDrain .accepting]) := by
  split
  · next hstopped =>
    exact .quiet hs (.of_eq rfl rfl rfl rfl) rfl (forall_mem_singleton.mpr rfl) (by simp)
      fun _ => .inl (.inr (.inl hstopped))
  · exact .quiet hs (.of_eq rfl rfl rfl rfl) rfl (forall_mem_singleton.mpr rfl)
      (forall_mem_singleton.mpr ⟨trivial, rfl, rfl⟩)
      fun _ => .inr ⟨_, mem_singleton.mpr rfl, rfl⟩

theorem stopNow_turn (h : s.stopNow k = (s', calls)) :
    Turn limits s k [.stopNow] rest s' calls := by
  unfold stopNow at h
  split at h
  · cases h
    exact .post hs trivial rfl (by simp) fun _ => rfl
  · next hk =>
    split at h
    · next hstopped =>
      cases h
      exact .quiet hs (.of_eq rfl rfl rfl rfl) rfl (forall_mem_singleton.mpr rfl) (by simp)
        fun _ => .inl (.inr (.inl hstopped))
    · cases h
      exact .changed hs (.of_eq rfl rfl rfl rfl) (fun _ => rfl) rfl rfl
        (forall_mem_singleton.mpr rfl)
        (forall_mem_singleton.mpr ⟨⟨of_not_not hk, rfl⟩, rfl, rfl⟩) (.inl (.inr (.inl rfl)))

theorem stopAccepting_turn (hk : k = 0) (hstopped : s.stopped = true) :
    Turn limits s k [.stopAccepting] rest s.stopAccepting.1 s.stopAccepting.2 :=
  .changed hs (.of_eq rfl rfl rfl rfl) id rfl rfl (forall_mem_singleton.mpr rfl)
    (forall_mem_singleton.mpr ⟨hk, rfl, rfl⟩) (.inl (.inr (.inl hstopped)))

theorem closeShards_turn {shards : List Nat} (hk : k = 0) (h : s.closeShards shards = (s', calls)) :
    Turn limits s k [.closeShards shards] rest s' calls := by
  subst hk
  cases shards with
  | nil =>
    cases h
    exact .stay hs ⟨rfl, rfl⟩ (by simp)
  | cons j shards =>
    have hmore : s.Follows 0 (.closeShards shards) := ⟨rfl, rfl, rfl⟩
    simp only [closeShards] at h
    split at h
    · cases h
      exact .stay hs ⟨rfl, rfl⟩ (forall_mem_cons.mpr
          ⟨⟨fun _ => hs.heldBy, rfl, rfl⟩, forall_mem_singleton.mpr hmore⟩)
    · cases h
      exact .post hs trivial rfl (forall_mem_singleton.mpr hmore) nofun

theorem closeAll_turn {connections : List Nat} (howned : ∀ c ∈ connections, s.shardOf c = some k)
    (h : s.closeAll connections = (s', calls)) :
    Turn limits s k [.closeAll connections] rest s' calls := by
  cases connections with
  | nil =>
    cases h
    exact .stay hs ⟨rfl, rfl⟩ (by simp)
  | cons c connections =>
    cases h
    obtain ⟨hc, hmore⟩ := forall_mem_cons.mp howned
    exact .stay hs ⟨rfl, rfl⟩ (forall_mem_cons.mpr
        ⟨⟨hc, rfl, rfl⟩, forall_mem_singleton.mpr ⟨hmore, rfl, rfl⟩⟩)

end

end

end ShardedServer
end Shutdown
end CoroRpc.Server
