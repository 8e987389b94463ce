import Mathlib.Algebra.GroupWithZero.Nat
import Mathlib.Data.List.Nodup

/-!
# Starting the connections that were attached before `Start`

`NetworkShard::StartConnections` calls `ServerConnection::Start` on each entry of `connections_`
in a range-for over the map itself. `Start` resumes the reader and the writer nested, and either
may `Close` the connection before it first suspends; `OnConnectionClosed` then erases the entry
that the loop stands on. `BeginDrainConnections` and `CloseAllConnections` copy the connections
first.
-/

namespace CoroRpc.Server

open List

namespace Startup

/-- Where a turn of the loops of `ReaderLoop` ends, other than suspended in `Read`. -/
inductive ReaderEvent where
  /-- `PrepareWritable` answers null. -/
  | noBuffer
  /-- End of file or an error. -/
  | nothing
  /-- The decoder refuses the bytes or the next frame. -/
  | protocolError
  | handled (closes : Bool)
  deriving DecidableEq

/-- The calls of `Start` that can throw. -/
inductive Stage where
  | createCo
  | resumeReader
  | resumeWriter
  deriving DecidableEq

/-- What a connection meets during `Start`: the events of its reader and whether its writer
wrote each batch in full, up to the first suspension of each. -/
structure Behaviour where
  throws : Option Stage := none
  reads : List ReaderEvent := []
  writes : List Bool := []
  deriving DecidableEq

/-- Nothing goes wrong before the first suspension. -/
structure Behaviour.Quiet (b : Behaviour) : Prop where
  throws : b.throws = none
  reads : ∀ r ∈ b.reads, r = .handled false
  writes : ∀ w ∈ b.writes, w = true

/-- True where the loop leaves the connection closed. -/
def readerLoop : List ReaderEvent → Bool
  | [] => false
  | .handled closes :: rest => closes || readerLoop rest
  | .noBuffer :: _ | .nothing :: _ | .protocolError :: _ => true

def writerLoop : List Bool → Bool
  | [] => false
  | written :: rest => !written || writerLoop rest

/-- `connections_`, as its keys in the order of traversal, and the calls of `Start`. -/
structure NetworkShard where
  connections : List Nat
  nodup : connections.Nodup
  startCalls : List Nat := []
  deriving DecidableEq

namespace NetworkShard

/-- `Close` of a connection, with `OnConnectionClosed`; nothing where it is closed. -/
def close (s : NetworkShard) (fd : Nat) : NetworkShard :=
  { s with connections := s.connections.erase fd, nodup := s.nodup.erase fd }

def start (s : NetworkShard) (fd : Nat) (b : Behaviour) : NetworkShard × Bool :=
  let s := { s with startCalls := fd :: s.startCalls }
  if b.throws = some .createCo ∨ b.throws = some .resumeReader then (s.close fd, false)
  else
    let s := if readerLoop b.reads then s.close fd else s
    if b.throws = some .resumeWriter then (s.close fd, false)
    else (if writerLoop b.writes then s.close fd else s, true)

inductive Traversal where
  | returned (answer : Bool)
  /-- The iterator is advanced from an entry that has been erased. -/
  | dangling
  deriving DecidableEq

/-- The range-for of `StartConnections`, with the entries that are still ahead. A connection
closes no other one, so these are as they were at entry. -/
def startFrom (env : Nat → Behaviour) : List Nat → NetworkShard → Traversal × NetworkShard
  | [], s => (.returned true, s)
  | fd :: rest, s =>
    let (s', started) := s.start fd (env fd)
    if started = false then (.returned false, s')
    else if fd ∈ s'.connections then startFrom env rest s'
    else (.dangling, s')

def startConnections (s : NetworkShard) (env : Nat → Behaviour) : Traversal × NetworkShard :=
  startFrom env s.connections { s with startCalls := [] }

/-! ## What a connection does to the map -/

theorem readerLoop_eq_false {reads : List ReaderEvent} :
    readerLoop reads = false ↔ ∀ r ∈ reads, r = .handled false := by
  induction reads with
  | nil => simp [readerLoop]
  | cons r rest ih => cases r <;> simp [readerLoop, ih]

theorem writerLoop_eq_false {writes : List Bool} :
    writerLoop writes = false ↔ ∀ w ∈ writes, w = true := by
  induction writes with
  | nil => simp [writerLoop]
  | cons w rest ih => simp [writerLoop, ih]

variable {s : NetworkShard} {fd : Nat} {b : Behaviour} {env : Nat → Behaviour}

theorem start_quiet (hb : b.Quiet) :
    s.start fd b = ({ s with startCalls := fd :: s.startCalls }, true) := by
  simp [start, hb.throws, readerLoop_eq_false.mpr hb.reads, writerLoop_eq_false.mpr hb.writes]

theorem close_close : (s.close fd).connections.erase fd = s.connections.erase fd :=
  erase_of_not_mem (List.Nodup.not_mem_erase s.nodup)

/-- Every other `Start` erases its own entry. -/
theorem start_erases (hb : ¬ b.Quiet) : (s.start fd b).1.connections = s.connections.erase fd := by
  unfold start
  split
  · rfl
  · next hthrows =>
    by_cases hr : readerLoop b.reads
    · simp only [hr, if_true]
      split
      · exact close_close
      · split
        · exact close_close
        · rfl
    · simp only [hr]
      split
      · rfl
      · next hwriter =>
        rw [if_pos]
        · rfl
        · refine Decidable.byContradiction fun hw => hb ⟨?_, ?_, ?_⟩
          · cases ht : b.throws with
            | none => rfl
            | some stage => cases stage <;> simp [ht] at hthrows hwriter
          · exact readerLoop_eq_false.mp (Bool.eq_false_iff.mpr hr)
          · exact writerLoop_eq_false.mp (Bool.eq_false_iff.mpr hw)

/-! ## The traversal -/

theorem startFrom_quiet {ahead : List Nat} (hmem : ∀ fd ∈ ahead, fd ∈ s.connections)
    (hq : ∀ fd ∈ ahead, (env fd).Quiet) : startFrom env ahead s =
      (.returned true, { s with startCalls := ahead.reverse ++ s.startCalls }) := by
  induction ahead generalizing s with
  | nil => rfl
  | cons fd rest ih =>
    rw [forall_mem_cons] at hmem hq
    simp only [startFrom, start_quiet hq.1, Bool.true_eq_false, if_false, if_pos hmem.1]
    rw [reverse_cons, append_assoc]
    exact ih (s := { s with startCalls := fd :: s.startCalls }) hmem.2 hq.2

/-- A `Start` that is not quiet ends the traversal, with fewer connections. -/
theorem startFrom_erases {ahead : List Nat} (hmem : ∀ fd ∈ ahead, fd ∈ s.connections)
    (hq : ¬ ∀ fd ∈ ahead, (env fd).Quiet) :
    (startFrom env ahead s).2.connections.length < s.connections.length := by
  induction ahead generalizing s with
  | nil => exact absurd nofun hq
  | cons fd rest ih =>
    rw [forall_mem_cons] at hmem
    by_cases hfd : (env fd).Quiet
    · simp only [startFrom, start_quiet hfd, Bool.true_eq_false, if_false, if_pos hmem.1]
      exact ih hmem.2 fun hrest => hq (forall_mem_cons.mpr ⟨hfd, hrest⟩)
    · have herase : (s.start fd (env fd)).1.connections = s.connections.erase fd :=
        start_erases hfd
      have hlt : (s.start fd (env fd)).1.connections.length < s.connections.length := by
        rw [herase, length_erase_of_mem hmem.1]
        exact Nat.sub_lt (length_pos_of_mem hmem.1) Nat.one_pos
      have hgone : fd ∉ (s.start fd (env fd)).1.connections := by
        rw [herase]
        exact s.nodup.not_mem_erase
      simp only [startFrom, if_neg hgone]
      split <;> exact hlt

/-- Each connection that was attached is started once and the map is left alone during the
traversal, if and only if every connection is quiet. -/
theorem start_connections_safe_iff (s : NetworkShard) (env : Nat → Behaviour) :
    ((∀ fd ∈ s.connections, (s.startConnections env).2.startCalls.count fd = 1) ∧
        (s.startConnections env).2.connections = s.connections ∧
        (s.startConnections env).1 ≠ .dangling) ↔
      ∀ fd ∈ s.connections, (env fd).Quiet := by
  unfold startConnections
  constructor
  · rintro ⟨-, hsame, -⟩
    by_contra hq
    have hlt := startFrom_erases (s := { s with startCalls := [] }) (fun _ => id) hq
    rw [hsame] at hlt
    exact Nat.lt_irrefl _ hlt
  · intro hq
    rw [startFrom_quiet (s := { s with startCalls := [] }) (fun _ => id) hq]
    refine ⟨fun fd hfd => ?_, rfl, nofun⟩
    rw [append_nil, count_reverse]
    exact count_eq_one_of_mem s.nodup hfd

/-- The peer of the first of two connections has closed it: the loop advances from an entry
that is gone, and the other connection is not started. -/
theorem start_advances_from_erased_entry : (startConnections ⟨[4, 5], by decide, []⟩ fun fd =>
        { reads := if fd = 4 then [.nothing] else [] }) =
      (.dangling, ⟨[5], by decide, [4]⟩) := by
  decide

end NetworkShard
end Startup
end CoroRpc.Server
