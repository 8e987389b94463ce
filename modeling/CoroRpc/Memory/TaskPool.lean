import Mathlib.Logic.Function.Basic
import CoroRpc.Lib.Run

/-!
# The task pool

`TaskPool` and the hazard pointers under it (`rpc_src/memory/task_pool.h`). Each of 64 buckets has
a stack of reusable tasks and a stack of retired ones, and `ReclaimRetired` moves tasks from the
second to the first. A thread takes a task from a stack by a compare-exchange on its head, which
is only right if the head's successor is still the one it read. So it first announces the task in
its hazard record, and a task that is announced is not made reusable.

Every load, store, exchange and compare-exchange is a step of some thread, sequentially
consistent. Threads are started and end, and their number is not bounded; a thread's bucket and
record are assigned at its first `Allocate`, and a record goes to another thread after its owner
ended. What the callers do with tasks is their affair, except that a thread writes and frees only
what it owns; it may hand a task to another thread.

A record is never removed from the list of records. The list is therefore a Lean list in the order
of insertion, a pointer into it is the number of records from there to its end, and the record
before the first is the null pointer, `0`.
-/

namespace CoroRpc.Memory

open Lib Function

def kBucketCount : Nat := 64

def kReclaimBatch : Nat := 32

inductive Stack where
  | reusable
  | retired
  deriving DecidableEq

structure Bucket where
  head : Option Nat := none
  retired : Option Nat := none
  retireSequence : UInt64 := 0
  deriving DecidableEq

def Bucket.top (bucket : Bucket) : Stack → Option Nat
  | .reusable => bucket.head
  | .retired => bucket.retired

def Bucket.setTop (bucket : Bucket) (stack : Stack) (top : Option Nat) : Bucket :=
  match stack with
  | .reusable => { bucket with head := top }
  | .retired => { bucket with retired := top }

/-- `HazardDomain::Record`. An inactive record has no bucket. -/
structure Record where
  protectedNode : Option Nat := none
  bucket : Option Nat
  deriving DecidableEq

/-! ## Where a thread is -/

inductive PushStep where
  | load
  | store (old : Option Nat)
  | exchange (old : Option Nat)
  deriving DecidableEq

inductive AcquireStep where
  | load
  /-- At the `n`th record from the end of the list, or past it. -/
  | tryRecord (n : Nat)
  /-- With a new record, about to load the head of the list. -/
  | reload
  | insert (old : Nat)
  deriving DecidableEq

inductive AllocateStep where
  | loadHead
  | clear
  /-- After `ReclaimRetired`. -/
  | reload
  | create
  | protect (task : Nat)
  | validate (task : Nat)
  | loadNext (task : Nat)
  | exchange (task : Nat) (next : Option Nat)
  | unprotect (task : Nat)
  | unlink (task : Nat)
  deriving DecidableEq

/-- In `ReclaimRetired`, with the `batch` task at hand and the pointer to the rest. -/
inductive ReclaimStep where
  | exchange
  | loadNext (batch : Nat)
  /-- `IsProtected`: the load of the list, the bucket of the `n`th record from its end, and the
      node of the record before which there are `n`. -/
  | scan (batch : Nat) (next : Option Nat)
  | scanBucket (batch : Nat) (next : Option Nat) (n : Nat)
  | scanNode (batch : Nat) (next : Option Nat) (n : Nat)
  | push (batch : Nat) (next : Option Nat) (stack : Stack) (step : PushStep)
  deriving DecidableEq

/-- The caller of `ReclaimRetired`: an `Allocate` with its hazard record, or a `Free`. -/
inductive Caller where
  | allocate (record : Nat)
  | free
  deriving DecidableEq

inductive Pc where
  | idle
  | exited
  | localBucket
  | acquire (bucket : Nat) (step : AcquireStep)
  | allocate (bucket record : Nat) (step : AllocateStep)
  /-- In `Free`, at the store of `Reset`. -/
  | reset (task : Nat)
  /-- In `Free`, pushing to the retired stack. -/
  | retire (bucket task : Nat) (step : PushStep)
  /-- In `Free`, at the `fetch_add`. -/
  | count (bucket : Nat)
  | reclaim (bucket : Nat) (caller : Caller) (step : ReclaimStep)
  /-- In `ReleaseRecord`. -/
  | release (record : Nat)
  | deactivate (record : Nat)
  deriving DecidableEq

/-- A thread, with its `thread_local`s and the tasks it owns. -/
structure Thread where
  bucket : Option Nat := none
  record : Option Nat := none
  pc : Pc := .idle
  owned : List Nat := []
  deriving DecidableEq

structure TaskPool where
  /-- The number of tasks there are; tasks are numbered as they are created. -/
  created : Nat := 0
  next : Nat → Option Nat := fun _ => none
  /-- `pool_bucket` of each task. -/
  poolBucket : Nat → Nat := fun _ => 0
  buckets : Nat → Bucket := fun _ => {}
  records : List Record := []
  nextBucket : Nat := 0
  threads : List Thread := []

inductive PoolLabel where
  | spawn
  | allocate (t : Nat)
  | free (t task : Nat)
  /-- Thread `t` gives a task it owns to thread `u`. -/
  | give (t u task : Nat)
  /-- Thread `t` stores into the `next` of a task it owns. -/
  | write (t task : Nat) (value : Option Nat)
  | exit (t : Nat)
  /-- Thread `t` goes on; a `compare_exchange_weak` may fail for no reason. -/
  | go (t : Nat) (fails : Bool)
  deriving DecidableEq

namespace TaskPool

variable (s : TaskPool)

def setThread (t : Nat) (f : Thread → Thread) : TaskPool :=
  { s with threads := s.threads.modify t f }

def goTo (t : Nat) (pc : Pc) : TaskPool :=
  s.setThread t fun thread => { thread with pc := pc }

def storeNext (task : Nat) (value : Option Nat) : TaskPool :=
  { s with next := update s.next task value }

def setTop (s : TaskPool) (bucket : Nat) (stack : Stack) (top : Option Nat) : TaskPool :=
  { s with buckets := update s.buckets bucket ((s.buckets bucket).setTop stack top) }

def setRecord (r : Nat) (f : Record → Record) : TaskPool :=
  { s with records := s.records.modify r f }

def announce (r : Nat) (node : Option Nat) : TaskPool :=
  s.setRecord r fun record => { record with protectedNode := node }

def pushList (bucket : Nat) (stack : Stack) (task : Nat) (fails : Bool) :
    PushStep → TaskPool × Option PushStep
  | .load => (s, some (.store ((s.buckets bucket).top stack)))
  | .store old => (s.storeNext task old, some (.exchange old))
  | .exchange old =>
    if (s.buckets bucket).top stack = old ∧ fails = false then
      (s.setTop bucket stack (some task), none)
    else (s, some (.store ((s.buckets bucket).top stack)))

/-- A record becomes the thread's. -/
def acquired (t bucket r : Nat) : TaskPool :=
  s.setThread t fun thread =>
    { thread with record := some r, pc := .allocate bucket r .loadHead }

def acquireRecord (t bucket : Nat) (fails : Bool) : AcquireStep → TaskPool
  | .load => s.goTo t (.acquire bucket (.tryRecord s.records.length))
  | .tryRecord 0 => s.goTo t (.acquire bucket .reload)
  | .tryRecord (n + 1) =>
    if s.records[n]?.map Record.bucket = some none then
      (s.setRecord n fun record => { record with bucket := some bucket }).acquired t bucket n
    else s.goTo t (.acquire bucket (.tryRecord n))
  | .reload => s.goTo t (.acquire bucket (.insert s.records.length))
  | .insert old =>
    if s.records.length = old ∧ fails = false then
      { s with records := s.records ++ [Record.mk none (some bucket)] }.acquired t bucket old
    else s.goTo t (.acquire bucket (.insert s.records.length))

/-- `Allocate` returns the task to its caller. -/
def returnTask (t task : Nat) : TaskPool :=
  s.setThread t fun thread => { thread with pc := .idle, owned := task :: thread.owned }

def allocate (s : TaskPool) (t bucket r : Nat) : AllocateStep → TaskPool
  | .loadHead =>
    match (s.buckets bucket).head with
    | none => s.goTo t (.allocate bucket r .clear)
    | some task => s.goTo t (.allocate bucket r (.protect task))
  | .clear => (s.announce r none).goTo t (.reclaim bucket (.allocate r) .exchange)
  | .reload =>
    match (s.buckets bucket).head with
    | none => s.goTo t (.allocate bucket r .create)
    | some task => s.goTo t (.allocate bucket r (.protect task))
  | .create =>
    { s with
      created := s.created + 1
      next := update s.next s.created none
      poolBucket := update s.poolBucket s.created bucket }.returnTask t s.created
  | .protect task => (s.announce r (some task)).goTo t (.allocate bucket r (.validate task))
  | .validate task =>
    if (s.buckets bucket).head = some task then s.goTo t (.allocate bucket r (.loadNext task))
    else s.goTo t (.allocate bucket r .loadHead)
  | .loadNext task => s.goTo t (.allocate bucket r (.exchange task (s.next task)))
  | .exchange task next =>
    if (s.buckets bucket).head = some task then
      (s.setTop bucket .reusable next).goTo t (.allocate bucket r (.unprotect task))
    else s.goTo t (.allocate bucket r .loadHead)
  | .unprotect task => (s.announce r none).goTo t (.allocate bucket r (.unlink task))
  | .unlink task => (s.storeNext task none).returnTask t task

/-- `ReclaimRetired` is at the pointer `batch` of its loop. -/
def nextBatch (bucket : Nat) (caller : Caller) (batch : Option Nat) : Pc :=
  match batch, caller with
  | some task, _ => .reclaim bucket caller (.loadNext task)
  | none, .allocate r => .allocate bucket r .reload
  | none, .free => .idle

def reclaimRetired (t bucket : Nat) (caller : Caller) (fails : Bool) :
    ReclaimStep → TaskPool
  | .exchange =>
    (s.setTop bucket .retired none).goTo t (nextBatch bucket caller (s.buckets bucket).retired)
  | .loadNext batch => s.goTo t (.reclaim bucket caller (.scan batch (s.next batch)))
  | .scan batch next =>
    s.goTo t (.reclaim bucket caller (.scanBucket batch next s.records.length))
  | .scanBucket batch next 0 =>
    s.goTo t (.reclaim bucket caller (.push batch next .reusable .load))
  | .scanBucket batch next (n + 1) =>
    if s.records[n]?.map Record.bucket = some (some bucket) then
      s.goTo t (.reclaim bucket caller (.scanNode batch next n))
    else s.goTo t (.reclaim bucket caller (.scanBucket batch next n))
  | .scanNode batch next n =>
    if s.records[n]?.map Record.protectedNode = some (some batch) then
      s.goTo t (.reclaim bucket caller (.push batch next .retired .load))
    else s.goTo t (.reclaim bucket caller (.scanBucket batch next n))
  | .push batch next stack step =>
    match s.pushList bucket stack batch fails step with
    | (s', some step') => s'.goTo t (.reclaim bucket caller (.push batch next stack step'))
    | (s', none) => s'.goTo t (nextBatch bucket caller next)

/-- `Free` counts the task it has retired. -/
def countRetired (t bucket : Nat) : TaskPool :=
  let sequence := (s.buckets bucket).retireSequence + 1
  let counted := { s with
    buckets := update s.buckets bucket { s.buckets bucket with retireSequence := sequence } }
  if sequence.toNat % kReclaimBatch = 0 then counted.goTo t (.reclaim bucket .free .exchange)
  else counted.goTo t .idle

def go (t : Nat) (fails : Bool) : Pc → Option TaskPool
  | .idle | .exited => none
  | .localBucket =>
    some ({ s with nextBucket := s.nextBucket + 1 }.setThread t fun thread =>
      { thread with
        bucket := some (s.nextBucket % kBucketCount)
        pc := .acquire (s.nextBucket % kBucketCount) .load })
  | .acquire bucket step => some (s.acquireRecord t bucket fails step)
  | .allocate bucket r step => some (s.allocate t bucket r step)
  | .reset task => some ((s.storeNext task none).goTo t (.retire (s.poolBucket task) task .load))
  | .retire bucket task step =>
    match s.pushList bucket .retired task fails step with
    | (s', some step') => some (s'.goTo t (.retire bucket task step'))
    | (s', none) => some (s'.goTo t (.count bucket))
  | .count bucket => some (s.countRetired t bucket)
  | .reclaim bucket caller step => some (s.reclaimRetired t bucket caller fails step)
  | .release r => some ((s.announce r none).goTo t (.deactivate r))
  | .deactivate r =>
    some ((s.setRecord r fun record => { record with bucket := none }).setThread t fun thread =>
      { thread with record := none, pc := .exited })

/-- The first step of `Allocate`, with the `thread_local`s that are already there. -/
def enter (thread : Thread) : Pc :=
  match thread.bucket, thread.record with
  | some bucket, some r => .allocate bucket r .loadHead
  | some bucket, none => .acquire bucket .load
  | none, _ => .localBucket

def step : PoolLabel → Option TaskPool
  | .spawn => some { s with threads := s.threads ++ [{}] }
  | .allocate t =>
    match s.threads[t]? with
    | some thread => if thread.pc = .idle then some (s.goTo t (enter thread)) else none
    | none => none
  | .free t task =>
    match s.threads[t]? with
    | some thread =>
      if thread.pc = .idle ∧ task ∈ thread.owned then
        some (s.setThread t fun thread =>
          { thread with pc := .reset task, owned := thread.owned.erase task })
      else none
    | none => none
  | .give t u task =>
    match s.threads[t]?, s.threads[u]? with
    | some thread, some _ =>
      if task ∈ thread.owned then
        some ((s.setThread t fun thread =>
            { thread with owned := thread.owned.erase task }).setThread u fun other =>
          { other with owned := task :: other.owned })
      else none
    | _, _ => none
  | .write t task value =>
    match s.threads[t]? with
    | some thread => if task ∈ thread.owned then some (s.storeNext task value) else none
    | none => none
  | .exit t =>
    match s.threads[t]? with
    | some thread =>
      if thread.pc = .idle then
        some (s.goTo t (match thread.record with
          | some r => .release r
          | none => .exited))
      else none
    | none => none
  | .go t fails => s.threads[t]?.bind fun thread => s.go t fails thread.pc

end TaskPool

end CoroRpc.Memory
