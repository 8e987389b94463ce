import CoroRpc.Memory.HazardPointers

/-!
# Every task has one owner

The steps of `Allocate`, `Free`, `ReclaimRetired` and the hazard records keep the invariant of
`TaskPlaces` and `HazardPointers`, and so every task is in one place in every run: `Allocate` does
not return a task that somebody owns, and none is lost.
-/

namespace CoroRpc.Memory

open Lib List Option Function TaskPool

/-- The task that a thread has linked to the top of a stack, and what it took for the top. -/
def Pc.linked : Pc → Option (Nat × Option Nat)
  | .retire _ task (.exchange old) => some (task, old)
  | .reclaim _ _ (.push batch _ _ (.exchange old)) => some (batch, old)
  | _ => none

theorem Pc.mem_inHand_of_linked {pc : Pc} {task : Nat} {old : Option Nat}
    (h : pc.linked = some (task, old)) : task ∈ pc.inHand := by
  unfold linked at h
  split at h
  · cases h
    exact mem_cons_self
  · cases h
    exact mem_cons_self
  · cases h

/-- What is known of every state, with the place of each task. -/
structure Inv (s : TaskPool) (place : Nat → Place) : Prop where
  placed : Placed s place
  hazards : Hazards s place
  linked : ∀ (t : Nat) thread n old, s.threads[t]? = some thread →
    thread.pc.linked = some (n, old) → s.next n = old

namespace Inv

variable {s : TaskPool} {place : Nat → Place} {t n : Nat} {thread : Thread}

theorem init : Inv {} fun _ => .owned 0 where
  placed := .init
  hazards := .init
  linked := fun _ _ _ _ h => by cases h

section
variable (h : Inv s place)
include h

theorem linked_setThread (ht : s.threads[t]? = some thread) {f : Thread → Thread}
    (hf : ∀ n old, (f thread).pc.linked = some (n, old) → s.next n = old) :
    ∀ (u : Nat) other n old, (s.setThread t f).threads[u]? = some other →
      other.pc.linked = some (n, old) → (s.setThread t f).next n = old := by
  intro u other n old hu hlinked
  rcases getElem?_modify_cases hu with ⟨x, rfl, hx, rfl⟩ | ⟨-, hu⟩
  · cases ht.symm.trans hx
    exact hf n old hlinked
  · exact h.linked u other n old hu hlinked

theorem linked_storeNext
    (hn : ∀ (u : Nat) other old, s.threads[u]? = some other → other.pc.linked ≠ some (n, old))
    (v : Option Nat) :
    ∀ (u : Nat) other m old, s.threads[u]? = some other → other.pc.linked = some (m, old) →
      (s.storeNext n v).next m = old := by
  intro u other m old hu hlinked
  have hne : m ≠ n := fun heq => hn u other old hu (heq ▸ hlinked)
  change update s.next n v m = old
  rw [update_of_ne hne]
  exact h.linked u other m old hu hlinked

/-- Of a bucket, the invariant reads the two stacks only. -/
theorem congr {s' : TaskPool} (hcreated : s'.created = s.created) (hnext : s'.next = s.next)
    (hpool : s'.poolBucket = s.poolBucket) (hrecords : s'.records = s.records)
    (hthreads : s'.threads = s.threads)
    (htop : ∀ bucket stack, (s'.buckets bucket).top stack = (s.buckets bucket).top stack) :
    Inv s' place where
  placed := h.placed.congr hcreated hnext htop hthreads
  hazards := h.hazards.congr hthreads hrecords hcreated hpool hnext
  linked := by
    rw [hthreads, hnext]
    exact h.linked

/-- A thread may write the `next` of a task in its hands, unless it has linked it to a stack. -/
theorem storeHeld (ht : s.threads[t]? = some thread) (hn : n ∈ thread.pc.inHand)
    (hlinked : thread.pc.linked = none) (v : Option Nat) : Inv (s.storeNext n v) place := by
  obtain ⟨-, hplace⟩ := h.placed.place_inHand ht hn
  refine ⟨h.placed.storeHeld ht hn v, h.hazards.storeNext ?_ v, h.linked_storeNext ?_ v⟩
  · intro bucket stack heq
    cases hplace.symm.trans heq
  · intro u other old hu hlink
    obtain ⟨-, hplace'⟩ := h.placed.place_inHand hu (Pc.mem_inHand_of_linked hlink)
    obtain rfl := Place.held.inj (hplace.symm.trans hplace')
    cases ht.symm.trans hu
    cases hlink.symm.trans hlinked

theorem announce (ht : s.threads[t]? = some thread) (r : Nat) (hr : thread.pc.record = some r)
    (hnone : thread.pc.announced = none) (node : Option Nat) : Inv (s.announce r node) place where
  placed := h.placed.congr rfl rfl (fun _ _ => rfl) rfl
  hazards := h.hazards.announce ht ((h.hazards.threads t thread ht).record r hr) hnone node
  linked := h.linked

theorem not_held (ht : s.threads[t]? = some thread) (hin : thread.pc.inHand = [])
    (hbatch : thread.pc.batch = none) (hn : n < s.created) : place n ≠ .held t := by
  intro hplace
  have hfills := h.placed.hand_of ht hbatch
  rw [hin] at hfills
  exact absurd (hfills.mem_iff.mpr ⟨hn, hplace⟩) not_mem_nil

theorem place_head {bucket : Nat} (hhead : (s.buckets bucket).head = some n) :
    n < s.created ∧ place n = .stack bucket .reusable := by
  obtain ⟨l, hchain, hfills⟩ := h.placed.stackLists bucket .reusable
  rw [Bucket.top, hhead] at hchain
  obtain ⟨rest, rfl, -⟩ := hchain.eq_cons
  exact hfills.mem_iff.mp mem_cons_self

end

/-! ## Allocate -/

section
variable {bucket r : Nat} {step : AllocateStep}

section
variable (h : Inv s place) (ht : s.threads[t]? = some thread)
include h ht

/-- A step of `Allocate` that writes nothing and guards nothing. -/
theorem allocate_goTo (hpc : thread.pc = .allocate bucket r step) {step' : AllocateStep}
    (hin : (Pc.allocate bucket r step').inHand = (Pc.allocate bucket r step).inHand)
    (hannounced : (Pc.allocate bucket r step').announced = none) :
    Inv (s.goTo t (.allocate bucket r step')) place := by
  have hok := h.hazards.threads t thread ht
  refine ⟨h.placed.goTo ht (hpc ▸ hin) (hpc ▸ rfl), ?_, h.linked_setThread ht (by simp [Pc.linked])⟩
  refine h.hazards.goTo_plain ht rfl rfl (by simp [Pc.acquiring]) ?_ ?_ hannounced
    (by simp [Pc.batchBucket]) (by simp [Pc.scanning])
  · intro r' hr'
    exact hok.record r' (hpc ▸ hr')
  · intro bucket' hb
    exact hok.home bucket' (hpc ▸ hb)

theorem reclaim_start {caller : Caller}
    (hin : thread.pc.inHand = []) (hbatch : thread.pc.batch = none)
    (hrecord : ∀ r, caller = .allocate r →
      thread.pc.record = some r ∧ thread.pc.home = some bucket) :
    Inv (s.goTo t (.reclaim bucket caller .exchange)) place := by
  have hok := h.hazards.threads t thread ht
  refine ⟨h.placed.goTo ht hin.symm hbatch.symm, ?_, h.linked_setThread ht (by simp [Pc.linked])⟩
  refine h.hazards.goTo_plain ht rfl rfl (by simp [Pc.acquiring]) ?_ ?_ rfl ?_ (by simp [Pc.scanning])
  · intro r' hr'
    cases caller with
    | allocate r => exact hok.record r' ((hrecord r rfl).1.trans hr')
    | free => exact absurd hr' (by simp [Pc.record])
  · intro bucket' hb
    cases caller with
    | allocate r => exact hok.home bucket' ((hrecord r rfl).2.trans hb)
    | free => exact absurd hb (by simp [Pc.home])
  · intro _ m _ hm hplace
    exact absurd hplace (h.not_held ht hin hbatch hm)

variable {task : Nat}

theorem protect (hpc : thread.pc = .allocate bucket r (.protect task)) :
    Inv ((s.announce r (some task)).goTo t (.allocate bucket r (.validate task))) place := by
  have hannounce := h.announce ht r (hpc ▸ rfl) (hpc ▸ rfl) (some task)
  have hok := hannounce.hazards.threads t thread ht
  refine ⟨hannounce.placed.goTo ht (hpc ▸ rfl) (hpc ▸ rfl), ?_,
    hannounce.linked_setThread ht (by simp [Pc.linked])⟩
  refine hannounce.hazards.setThread ht ⟨by simp [Pc.acquiring], hok.active, ?_, ?_, ?_,
    by simp [Pc.guarded], by simp, by simp [Pc.batchBucket]⟩ rfl (by simp [Pc.guarded])
    (by simp [Pc.scanning])
  · intro r' hr'
    exact hok.record r' (hpc ▸ hr')
  · intro bucket' hb
    exact hok.home bucket' (hpc ▸ hb)
  · intro task' r' htask hr'
    cases htask
    have hr := (h.hazards.threads t thread ht).record r (hpc ▸ rfl)
    cases hr.symm.trans hr'
    obtain ⟨_, -, hrecord⟩ := (h.hazards.threads t thread ht).active r hr
    obtain ⟨record, hrecord, -⟩ := map_eq_some_iff.mp hrecord
    exact map_eq_some_iff.mpr ⟨_, getElem?_modify_self hrecord, rfl⟩

/-- The validation: the task is on the stack, so nobody scans for it. -/
theorem validate (hpc : thread.pc = .allocate bucket r (.validate task))
    (hhead : (s.buckets bucket).head = some task) :
    Inv (s.goTo t (.allocate bucket r (.loadNext task))) place := by
  have hok := h.hazards.threads t thread ht
  obtain ⟨hlive, hplace⟩ := h.place_head hhead
  refine ⟨h.placed.goTo ht (hpc ▸ rfl) (hpc ▸ rfl), ?_, h.linked_setThread ht (by simp [Pc.linked])⟩
  refine h.hazards.setThread ht ⟨by simp [Pc.acquiring], hok.active, ?_, ?_, ?_, ?_, by simp,
    by simp [Pc.batchBucket]⟩ rfl ?_ (by simp [Pc.scanning])
  · intro r' hr'
    exact hok.record r' (hpc ▸ hr')
  · intro bucket' hb
    exact hok.home bucket' (hpc ▸ hb)
  · intro task' r' htask hr'
    exact hok.announced task' r' (hpc ▸ htask) hr'
  · intro task' htask
    cases htask
    refine ⟨hlive, ?_⟩
    rw [h.hazards.homes task bucket .reusable hlive hplace]
    exact hok.home bucket (hpc ▸ rfl)
  · intro task' r' htask _ u other m hu hscan
    cases htask
    obtain ⟨-, hheld⟩ := h.placed.place_inHand hu (Pc.mem_inHand_of_scanning hscan)
    cases hplace.symm.trans hheld

/-- While the task is guarded it does not come back to the stack, so its `next` stays what is
    read. -/
theorem loadNext (hpc : thread.pc = .allocate bucket r (.loadNext task)) :
    Inv (s.goTo t (.allocate bucket r (.exchange task (s.next task)))) place := by
  have hok := h.hazards.threads t thread ht
  refine ⟨h.placed.goTo ht (hpc ▸ rfl) (hpc ▸ rfl), ?_, h.linked_setThread ht (by simp [Pc.linked])⟩
  refine h.hazards.setThread ht ⟨by simp [Pc.acquiring], hok.active, ?_, ?_, ?_, ?_, ?_,
    by simp [Pc.batchBucket]⟩ rfl ?_ (by simp [Pc.scanning])
  · intro r' hr'
    exact hok.record r' (hpc ▸ hr')
  · intro bucket' hb
    exact hok.home bucket' (hpc ▸ hb)
  · intro task' r' htask hr'
    exact hok.announced task' r' (hpc ▸ htask) hr'
  · intro task' htask
    exact hok.guarded task' (hpc ▸ htask)
  · intro bucket' r' task' next heq _
    obtain ⟨-, -, rfl, rfl⟩ := heq
    rfl
  · intro task' r' htask hr' u other m hu hscan
    exact h.hazards.unscanned t u thread other task' r' m ht hu (hpc ▸ htask) hr' hscan

/-- The compare-exchange succeeds, and its `next` is the task's successor. -/
theorem exchange {next : Option Nat} (hpc : thread.pc = .allocate bucket r (.exchange task next))
    (hhead : (s.buckets bucket).head = some task) :
    Inv ((s.setTop bucket .reusable next).goTo t (.allocate bucket r (.unprotect task)))
      (update place task (.held t)) := by
  have hok := h.hazards.threads t thread ht
  obtain ⟨-, hplace⟩ := h.place_head hhead
  obtain rfl := hok.fresh bucket r task next hpc hplace
  have hmoved : Hazards (s.setTop bucket .reusable (s.next task))
      (update place task (.held t)) := by
    refine (h.hazards.move (by simp) (by simp) fun u other bucket' heq hu hb => ?_).congr rfl rfl rfl
      rfl rfl
    obtain rfl := Place.held.inj heq
    cases ht.symm.trans hu
    exact absurd hb (by simp [hpc, Pc.batchBucket])
  refine ⟨h.placed.pop ht hhead (hpc ▸ rfl) (hpc ▸ rfl) rfl rfl, ?_, ?_⟩
  · refine hmoved.goTo_plain ht rfl rfl (by simp [Pc.acquiring]) ?_ ?_ rfl (by simp [Pc.batchBucket])
      (by simp [Pc.scanning])
    · intro r' hr'
      exact hok.record r' (hpc ▸ hr')
    · intro bucket' hb
      exact hok.home bucket' (hpc ▸ hb)
  · exact h.linked_setThread ht (by simp [Pc.linked])

theorem returnTask (hin : thread.pc.inHand = [n]) (hbatch : thread.pc.batch = none) :
    Inv (s.returnTask t n) (update place n (.owned t)) := by
  refine ⟨h.placed.returnTask ht hin hbatch, ?_, h.linked_setThread ht (by simp [Pc.linked])⟩
  refine (h.hazards.move (by simp) (by simp) (by simp)).goTo_plain ht rfl rfl (by simp [Pc.acquiring])
    (by simp [Pc.record]) (by simp [Pc.home]) rfl (by simp [Pc.batchBucket]) (by simp [Pc.scanning])

/-- A new task has no other place. -/
theorem create (hpc : thread.pc = .allocate bucket r .create) :
    Inv (s.allocate t bucket r .create) (update place s.created (.owned t)) := by
  refine ⟨h.placed.create ht (hpc ▸ rfl) (hpc ▸ rfl) bucket, ?_, ?_⟩
  · exact (h.hazards.create t bucket).goTo_plain ht rfl rfl (by simp [Pc.acquiring])
      (by simp [Pc.record]) (by simp [Pc.home]) rfl (by simp [Pc.batchBucket])
      (by simp [Pc.scanning])
  · intro u other m old hu hlinked
    rcases getElem?_modify_cases hu with ⟨x, rfl, hx, rfl⟩ | ⟨-, hu⟩
    · exact absurd hlinked (by simp [Pc.linked])
    · have hlive := (h.placed.place_inHand hu (Pc.mem_inHand_of_linked hlinked)).1
      refine (update_of_ne (Nat.ne_of_lt hlive) ..).trans ?_
      exact h.linked u other m old hu hlinked

theorem allocate (hpc : thread.pc = .allocate bucket r step) :
    ∃ place', Inv (s.allocate t bucket r step) place' := by
  cases step with
  | loadHead | reload =>
    simp only [TaskPool.allocate]
    split
    · exact ⟨place, h.allocate_goTo ht hpc rfl rfl⟩
    · exact ⟨place, h.allocate_goTo ht hpc rfl rfl⟩
  | clear =>
    have hannounce := h.announce ht r (hpc ▸ rfl) (hpc ▸ rfl) none
    refine ⟨place, hannounce.reclaim_start ht (hpc ▸ rfl) (hpc ▸ rfl) fun r' heq => ?_⟩
    obtain rfl := Caller.allocate.inj heq
    exact ⟨hpc ▸ rfl, hpc ▸ rfl⟩
  | create => exact ⟨_, h.create ht hpc⟩
  | protect task => exact ⟨place, h.protect ht hpc⟩
  | validate task =>
    simp only [TaskPool.allocate]
    split
    · next hhead => exact ⟨place, h.validate ht hpc hhead⟩
    · exact ⟨place, h.allocate_goTo ht hpc rfl rfl⟩
  | loadNext task => exact ⟨place, h.loadNext ht hpc⟩
  | exchange task next =>
    simp only [TaskPool.allocate]
    split
    · next hhead => exact ⟨_, h.exchange ht hpc hhead⟩
    · exact ⟨place, h.allocate_goTo ht hpc rfl rfl⟩
  | unprotect task =>
    have hannounce := h.announce ht r (hpc ▸ rfl) (hpc ▸ rfl) none
    exact ⟨place, hannounce.allocate_goTo ht hpc rfl rfl⟩
  | unlink task =>
    have hstore := h.storeHeld ht (n := task) (hpc ▸ mem_cons_self) (hpc ▸ rfl) none
    exact ⟨_, hstore.returnTask ht (hpc ▸ rfl) (hpc ▸ rfl)⟩

end

end

/-! ## ReclaimRetired and Free -/

section
variable {bucket : Nat} {caller : Caller} {step : ReclaimStep}

/-- A step of `ReclaimRetired` that writes to no stack; whoever guards the task at hand is still to
    be scanned. -/
theorem reclaim_goTo (h : Inv s place) (ht : s.threads[t]? = some thread)
    (hpc : thread.pc = .reclaim bucket caller step) {step' : ReclaimStep}
    (hhand : ∀ l, Hand s.next thread.pc l → Hand s.next (.reclaim bucket caller step') l)
    (hlinked : ∀ n old, (Pc.reclaim bucket caller step').linked = some (n, old) → s.next n = old)
    (hscanning : ∀ task n, (Pc.reclaim bucket caller step').scanning = some (task, n) →
      ∀ (u : Nat) other r, s.threads[u]? = some other → other.pc.guarded = some task →
        other.record = some r → r < n) :
    Inv (s.goTo t (.reclaim bucket caller step')) place := by
  have hok := h.hazards.threads t thread ht
  refine ⟨h.placed.setThread ht hhand rfl, ?_, h.linked_setThread ht hlinked⟩
  refine h.hazards.goTo_plain ht rfl rfl (by simp [Pc.acquiring]) ?_ ?_ rfl ?_ hscanning
  · intro r' hr'
    refine hok.record r' ?_
    rw [hpc]
    cases caller <;> exact hr'
  · intro bucket' hb
    refine hok.home bucket' ?_
    rw [hpc]
    cases caller <;> exact hb
  · intro bucket' m hb
    exact hok.batch bucket' m (hpc ▸ hb)

end

/-- A place to go where the thread is not busy with anything but the rest of its batch. -/
structure Settled (bucket : Nat) (caller : Caller) (pc : Pc) : Prop where
  acquiring : pc.acquiring = false
  record : ∀ r, pc.record = some r → caller = .allocate r
  home : ∀ bucket', pc.home = some bucket' → bucket' = bucket ∧ ∃ r, caller = .allocate r
  announced : pc.announced = none
  batchBucket : ∀ bucket', pc.batchBucket = some bucket' → bucket' = bucket
  scanning : pc.scanning = none
  linked : pc.linked = none

section
variable (bucket : Nat) (caller : Caller) (next : Option Nat)
include bucket caller next

theorem settled_nextBatch :
    Settled bucket caller (nextBatch bucket caller next) := by
  cases next <;> cases caller <;>
    exact ⟨rfl, by simp [nextBatch, Pc.record], by simp [nextBatch, Pc.home], rfl,
      by simp [nextBatch, Pc.batchBucket], rfl, rfl⟩

theorem nextBatch_inHand :
    (nextBatch bucket caller next).inHand = [] := by
  cases next <;> cases caller <;> rfl

theorem nextBatch_batch :
    (nextBatch bucket caller next).batch = next := by
  cases next <;> cases caller <;> rfl

end

section
variable {bucket : Nat} {caller : Caller}

/-- The hazard pointers, where a thread that is busy with a bucket goes to such a place. -/
theorem hazards_settle {place' : Nat → Place} (h : Hazards s place')
    (ht : s.threads[t]? = some thread) {pc : Pc} (hpc : Settled bucket caller pc)
    (hcaller : ∀ r, caller = .allocate r → thread.pc.record = some r ∧
      thread.pc.home = some bucket) (hbucket : thread.pc.batchBucket = some bucket) :
    Hazards (s.goTo t pc) place' := by
  have hok := h.threads t thread ht
  refine h.goTo_plain ht rfl rfl (by simp [hpc.acquiring]) ?_ ?_ hpc.announced ?_
    (by simp [hpc.scanning])
  · intro r hr
    exact hok.record r (hcaller r (hpc.record r hr)).1
  · intro bucket' hb
    obtain ⟨rfl, r, hr⟩ := hpc.home bucket' hb
    exact hok.home bucket' (hcaller r hr).2
  · intro bucket' m hb
    obtain rfl := hpc.batchBucket bucket' hb
    exact hok.batch bucket' m hbucket

theorem reclaim_caller {step : ReclaimStep} (hpc : thread.pc = .reclaim bucket caller step)
    (r : Nat) (hcaller : caller = .allocate r) :
    thread.pc.record = some r ∧ thread.pc.home = some bucket := by
  subst hcaller
  rw [hpc]
  exact ⟨rfl, rfl⟩

section
variable (h : Inv s place) (ht : s.threads[t]? = some thread)
include h ht

/-- The exchange takes the whole retired stack into the thread's hands. -/
theorem steal (hpc : thread.pc = .reclaim bucket caller .exchange) (fails : Bool) :
    Inv (s.reclaimRetired t bucket caller fails .exchange)
      (relocate place (.stack bucket .retired) (.held t)) := by
  have hbucket : thread.pc.batchBucket = some bucket := hpc ▸ rfl
  have hsettled := settled_nextBatch bucket caller (s.buckets bucket).retired
  refine ⟨h.placed.steal ht (hpc ▸ rfl) (hpc ▸ rfl) (nextBatch_inHand _ _ _) (nextBatch_batch _ _ _),
    ?_, h.linked_setThread ht (by simp [hsettled.linked])⟩
  refine hazards_settle (s := s.setTop bucket .retired none) ?_ ht hsettled (reclaim_caller hpc) hbucket
  refine (h.hazards.steal fun other hother => ?_).congr rfl rfl rfl rfl rfl
  cases ht.symm.trans hother
  exact hbucket

variable {stack : Stack}

/-- The compare-exchange of a push succeeds. To a reusable stack goes only a task for which the
    records have been looked at, so nobody guards it. -/
theorem pushed (hin : thread.pc.inHand = [n])
    (hlinked : thread.pc.linked = some (n, (s.buckets bucket).top stack))
    (hbucket : thread.pc.batchBucket = some bucket)
    (hscan : stack = .reusable → thread.pc.scanning = some (n, 0))
    (hcaller : ∀ r, caller = .allocate r → thread.pc.record = some r ∧ thread.pc.home = some bucket)
    {pc : Pc} (hpc : Settled bucket caller pc) (hin' : pc.inHand = [])
    (hbatch : pc.batch = thread.pc.batch) :
    Inv ((s.setTop bucket stack (some n)).goTo t pc) (update place n (.stack bucket stack)) := by
  obtain ⟨hlive, hplace⟩ := h.placed.place_inHand ht (hin ▸ mem_cons_self)
  have hnext := h.linked t thread n _ ht hlinked
  refine ⟨h.placed.push ht hin hnext hin' hbatch, ?_, h.linked_setThread ht (by simp [hpc.linked])⟩
  refine hazards_settle (s := s.setTop bucket stack (some n)) ?_ ht hpc hcaller hbucket
  refine (h.hazards.move ?_ ?_ (by simp)).congr rfl rfl rfl rfl rfl
  · intro bucket' stack' heq
    obtain ⟨rfl, rfl⟩ := Place.stack.inj heq
    exact (h.hazards.threads t thread ht).batch bucket n hbucket hlive hplace
  · intro bucket' heq u other hu hguarded
    obtain ⟨rfl, rfl⟩ := Place.stack.inj heq
    obtain ⟨r, hr⟩ := Pc.record_of_guarded hguarded
    have hrecord := (h.hazards.threads u other hu).record r hr
    exact absurd (h.hazards.unscanned u t other thread n r 0 hu ht hguarded hrecord (hscan rfl))
      (Nat.not_lt_zero r)

variable {batch : Nat}

variable {m : Nat}

/-- A guard of the task at hand, in a scan that has not found it at record `m`. -/
theorem scan_past (hscan : thread.pc.scanning = some (batch, m + 1))
    (hnot : ∀ (u : Nat) other, s.threads[u]? = some other → other.pc.guarded = some batch →
      other.record ≠ some m) (u : Nat) (other : Thread) (r : Nat) (hu : s.threads[u]? = some other)
    (hguarded : other.pc.guarded = some batch) (hr : other.record = some r) : r < m := by
  have hlt := h.hazards.unscanned u t other thread batch r (m + 1) hu ht hguarded hr hscan
  have hne : r ≠ m := fun heq => hnot u other hu hguarded (heq ▸ hr)
  omega

variable {next : Option Nat}

/-- A record of another bucket is passed: who guards the task has a record of the task's bucket. -/
theorem scanBucket (hpc : thread.pc = .reclaim bucket caller (.scanBucket batch next (m + 1)))
    (fails : Bool) :
    Inv (s.reclaimRetired t bucket caller fails (.scanBucket batch next (m + 1))) place := by
  have hscan : thread.pc.scanning = some (batch, m + 1) := hpc ▸ rfl
  simp only [reclaimRetired]
  split
  · refine h.reclaim_goTo ht hpc (fun l hand => hand.of_eq (hpc ▸ rfl) (hpc ▸ rfl))
      (by simp [Pc.linked]) fun task n heq u other r hu hguarded hr => ?_
    cases heq
    exact h.hazards.unscanned u t other thread batch r (m + 1) hu ht hguarded hr hscan
  · next hbucket =>
    refine h.reclaim_goTo ht hpc (fun l hand => hand.of_eq (hpc ▸ rfl) (hpc ▸ rfl))
      (by simp [Pc.linked]) fun task n heq => ?_
    cases heq
    -- A guard's record has the bucket of the task, which is the one that is reclaimed.
    refine h.scan_past ht hscan fun u other hu hguarded hr => hbucket ?_
    obtain ⟨bucket', hbucket', hrecord⟩ := (h.hazards.threads u other hu).active _ hr
    obtain ⟨hlive, hhome⟩ := (h.hazards.threads u other hu).guarded batch hguarded
    have hplace := (h.placed.place_inHand ht (Pc.mem_inHand_of_scanning hscan)).2
    have hpool := (h.hazards.threads t thread ht).batch bucket batch (hpc ▸ rfl) hlive hplace
    cases hbucket'.symm.trans hhome
    rw [hrecord, hpool]

/-- A record that protects the task sends it back to the retired stack; else the scan goes on. -/
theorem scanNode (hpc : thread.pc = .reclaim bucket caller (.scanNode batch next m))
    (fails : Bool) :
    Inv (s.reclaimRetired t bucket caller fails (.scanNode batch next m)) place := by
  have hscan : thread.pc.scanning = some (batch, m + 1) := hpc ▸ rfl
  simp only [reclaimRetired]
  split
  · exact h.reclaim_goTo ht hpc (fun l hand => hand.of_eq (hpc ▸ rfl) (hpc ▸ rfl))
      (by simp [Pc.linked]) (by simp [Pc.scanning])
  · next hnode =>
    refine h.reclaim_goTo ht hpc (fun l hand => hand.of_eq (hpc ▸ rfl) (hpc ▸ rfl))
      (by simp [Pc.linked]) fun task n heq => ?_
    cases heq
    refine h.scan_past ht hscan fun u other hu hguarded hr => hnode ?_
    exact (h.hazards.threads u other hu).announced batch m (Pc.announced_of_guarded hguarded) hr

theorem push_goTo {p p' : PushStep}
    (hpc : thread.pc = .reclaim bucket caller (.push batch next stack p))
    (hlinked : ∀ old, p' = .exchange old → s.next batch = old) :
    Inv (s.goTo t (.reclaim bucket caller (.push batch next stack p'))) place := by
  refine h.reclaim_goTo ht hpc (fun l hand => hand.of_eq (hpc ▸ rfl) (hpc ▸ rfl)) ?_ ?_
  · intro n old heq
    cases p' with
    | exchange old' =>
      cases heq
      exact hlinked _ rfl
    | _ => exact absurd heq (by simp [Pc.linked])
  · intro task n heq u other r hu hguarded hr
    refine h.hazards.unscanned u t other thread task r n hu ht hguarded hr ?_
    rw [hpc]
    cases stack <;> exact heq

theorem push {p : PushStep} (hpc : thread.pc = .reclaim bucket caller (.push batch next stack p))
    (fails : Bool) :
    ∃ place', Inv (s.reclaimRetired t bucket caller fails (.push batch next stack p)) place' := by
  cases p with
  | load => exact ⟨place, h.push_goTo ht hpc (by simp)⟩
  | store old =>
    have hstore := h.storeHeld ht (n := batch) (hpc ▸ mem_cons_self) (hpc ▸ rfl) old
    refine ⟨place, hstore.push_goTo ht hpc fun old' heq => ?_⟩
    obtain rfl := PushStep.exchange.inj heq
    exact update_self ..
  | exchange old =>
    simp only [reclaimRetired, pushList]
    split
    · next s' step' heq =>
      split at heq
      · cases heq
      · simp only [Prod.mk.injEq, some.injEq] at heq
        obtain ⟨rfl, rfl⟩ := heq
        exact ⟨place, h.push_goTo ht hpc (by simp)⟩
    · next s' heq =>
      split at heq
      · next hok =>
        obtain ⟨rfl, -⟩ := Prod.mk.inj heq
        refine ⟨_, h.pushed ht (hpc ▸ rfl) ?_ (hpc ▸ rfl) ?_ (reclaim_caller hpc)
          (settled_nextBatch bucket caller next) (nextBatch_inHand _ _ _) ?_⟩
        · rw [hpc, hok.1]
          rfl
        · rintro rfl
          rw [hpc]
          rfl
        · rw [nextBatch_batch, hpc]
          rfl
      · cases heq

theorem reclaimRetired {step : ReclaimStep} (hpc : thread.pc = .reclaim bucket caller step)
    (fails : Bool) : ∃ place', Inv (s.reclaimRetired t bucket caller fails step) place' := by
  cases step with
  | exchange => exact ⟨_, h.steal ht hpc fails⟩
  | loadNext batch =>
    refine ⟨place, h.reclaim_goTo ht hpc (fun l hand => ?_) (by simp [Pc.linked])
      (by simp [Pc.scanning])⟩
    rw [hpc] at hand
    obtain ⟨rest, rfl, hchain⟩ := hand
    obtain ⟨rest', rfl, hrest⟩ := hchain.eq_cons
    exact ⟨rest', rfl, hrest⟩
  | scan batch next =>
    refine ⟨place, h.reclaim_goTo ht hpc (fun l hand => hand.of_eq (hpc ▸ rfl) (hpc ▸ rfl))
      (by simp [Pc.linked]) fun task n heq u other r hu _ hr => ?_⟩
    obtain ⟨-, rfl⟩ := Prod.mk.inj (some.inj heq)
    exact h.hazards.record_lt hu hr
  | scanBucket batch next m =>
    cases m with
    | zero =>
      refine ⟨place, h.reclaim_goTo ht hpc (fun l hand => hand.of_eq (hpc ▸ rfl) (hpc ▸ rfl))
        (by simp [Pc.linked]) fun task n heq u other r hu hguarded hr => ?_⟩
      exact h.hazards.unscanned u t other thread task r n hu ht hguarded hr (hpc ▸ heq)
    | succ m => exact ⟨place, h.scanBucket ht hpc fails⟩
  | scanNode batch next m => exact ⟨place, h.scanNode ht hpc fails⟩
  | push batch next stack p => exact h.push ht hpc fails

end

/-! ## Free -/

theorem retire_goTo (h : Inv s place) (ht : s.threads[t]? = some thread) {task : Nat}
    {p p' : PushStep} (hpc : thread.pc = .retire bucket task p)
    (hlinked : ∀ old, p' = .exchange old → s.next task = old) :
    Inv (s.goTo t (.retire bucket task p')) place := by
  refine ⟨h.placed.goTo ht (hpc ▸ rfl) (hpc ▸ rfl), ?_, h.linked_setThread ht ?_⟩
  · refine h.hazards.goTo_plain ht rfl rfl (by simp [Pc.acquiring]) (by simp [Pc.record])
      (by simp [Pc.home]) rfl ?_ (by simp [Pc.scanning])
    intro bucket' m hb
    exact (h.hazards.threads t thread ht).batch bucket' m (hpc ▸ hb)
  · intro n old heq
    cases p' with
    | exchange old' =>
      cases heq
      exact hlinked _ rfl
    | _ => exact absurd heq (by simp [Pc.linked])

theorem settled_count (bucket : Nat) : Settled bucket .free (.count bucket) :=
  ⟨rfl, by simp [Pc.record], by simp [Pc.home], rfl, by simp [Pc.batchBucket], rfl, rfl⟩

section
variable (h : Inv s place) (ht : s.threads[t]? = some thread)
include h ht

theorem retire {task : Nat} {p : PushStep} (hpc : thread.pc = .retire bucket task p) {fails : Bool}
    {s' : TaskPool} (hs : s.go t fails (.retire bucket task p) = some s') :
    ∃ place', Inv s' place' := by
  cases p with
  | load =>
    cases hs
    exact ⟨place, h.retire_goTo ht hpc (by simp)⟩
  | store old =>
    cases hs
    have hstore := h.storeHeld ht (n := task) (hpc ▸ mem_cons_self) (hpc ▸ rfl) old
    refine ⟨place, hstore.retire_goTo ht hpc fun old' heq => ?_⟩
    obtain rfl := PushStep.exchange.inj heq
    exact update_self ..
  | exchange old =>
    simp only [TaskPool.go, pushList] at hs
    split at hs
    · next s'' step' heq =>
      cases hs
      split at heq
      · cases heq
      · simp only [Prod.mk.injEq, some.injEq] at heq
        obtain ⟨rfl, rfl⟩ := heq
        exact ⟨place, h.retire_goTo ht hpc (by simp)⟩
    · next s'' heq =>
      cases hs
      split at heq
      · next hok =>
        obtain ⟨rfl, -⟩ := Prod.mk.inj heq
        refine ⟨_, h.pushed ht (hpc ▸ rfl) ?_ (hpc ▸ rfl) (by simp) (by simp)
          (settled_count bucket) rfl (hpc ▸ rfl)⟩
        rw [hpc, hok.1]
        rfl
      · cases heq

theorem countRetired (hpc : thread.pc = .count bucket) : Inv (s.countRetired t bucket) place := by
  unfold TaskPool.countRetired
  have hcounted : Inv { s with
      buckets := update s.buckets bucket
        { s.buckets bucket with retireSequence := (s.buckets bucket).retireSequence + 1 } }
      place := by
    refine h.congr rfl rfl rfl rfl rfl fun bucket' stack => ?_
    change (update s.buckets bucket _ bucket').top stack = _
    by_cases hb : bucket' = bucket
    · subst hb
      rw [update_self]
      cases stack <;> rfl
    · rw [update_of_ne hb]
  dsimp only
  split
  · exact hcounted.reclaim_start ht (hpc ▸ rfl) (hpc ▸ rfl) (by simp)
  · refine ⟨hcounted.placed.goTo ht (hpc ▸ rfl) (hpc ▸ rfl), ?_,
      hcounted.linked_setThread ht (by simp [Pc.linked])⟩
    exact hcounted.hazards.goTo_plain ht rfl rfl (by simp [Pc.acquiring]) (by simp [Pc.record])
      (by simp [Pc.home]) rfl (by simp [Pc.batchBucket]) (by simp [Pc.scanning])

theorem reset {task : Nat} (hpc : thread.pc = .reset task) :
    Inv ((s.storeNext task none).goTo t (.retire (s.poolBucket task) task .load)) place := by
  have hstore := h.storeHeld ht (n := task) (hpc ▸ mem_cons_self) (hpc ▸ rfl) none
  refine ⟨hstore.placed.goTo ht (hpc ▸ rfl) (hpc ▸ rfl), ?_,
    hstore.linked_setThread ht (by simp [Pc.linked])⟩
  refine hstore.hazards.goTo_plain ht rfl rfl (by simp [Pc.acquiring]) (by simp [Pc.record])
    (by simp [Pc.home]) rfl ?_ (by simp [Pc.scanning])
  intro bucket' m hb hm hplace
  have hfills := h.placed.hand_of ht (hpc ▸ rfl)
  have hmem := hfills.mem_iff.mpr ⟨hm, hplace⟩
  rw [hpc] at hmem
  obtain rfl := mem_singleton.mp hmem
  exact some.inj hb

end

end

/-! ## Threads and their records -/

section
variable {bucket : Nat}

section
variable (h : Inv s place) (ht : s.threads[t]? = some thread)
include h ht

/-- A thread with empty hands goes where it has nothing to do with any task. -/
theorem goTo_idle {f : Thread → Thread} (hin : thread.pc.inHand = [])
    (hbatch : thread.pc.batch = none) (howned : (f thread).owned = thread.owned)
    (hrecord' : (f thread).record = thread.record) (hin' : (f thread).pc.inHand = [])
    (hbatch' : (f thread).pc.batch = none) (hok : Announces s place t (f thread))
    (hannounced : (f thread).pc.announced = none) (hscanning : (f thread).pc.scanning = none)
    (hlinked : (f thread).pc.linked = none) : Inv (s.setThread t f) place := by
  refine ⟨h.placed.setThread ht (fun l hand => hand.of_eq (hin'.trans hin.symm)
    (hbatch'.trans hbatch.symm)) howned, ?_, h.linked_setThread ht (by simp [hlinked])⟩
  refine h.hazards.setThread ht hok hrecord' ?_ (by simp [hscanning])
  intro task r hguarded
  cases (Pc.announced_of_guarded hguarded).symm.trans hannounced

variable {step : AcquireStep} {r : Nat}

section
variable (hpc : thread.pc = .acquire bucket step)
include hpc

/-- The thread gets a record of its bucket that no thread has. -/
theorem acquired {records : List Record} (hr : records[r]?.map Record.bucket = some (some bucket))
    (hfree : ∀ (u : Nat) other, s.threads[u]? = some other → other.record ≠ some r)
    (hsame : ∀ r', r' ≠ r → r' < s.records.length → records[r']? = s.records[r']?) :
    Inv ({ s with records := records }.acquired t bucket r) place := by
  have hrecords : Placed { s with records := records } place :=
    h.placed.congr rfl rfl (fun _ _ => rfl) rfl
  refine ⟨hrecords.setThread ht (fun l hand => hand.of_eq (hpc ▸ rfl) (hpc ▸ rfl)) rfl,
    h.hazards.acquired ht (hpc ▸ rfl) hr hfree hsame, ?_⟩
  exact h.linked_setThread ht (by simp [Pc.linked])

theorem acquire_goTo {step' : AcquireStep} : Inv (s.goTo t (.acquire bucket step')) place := by
  have hok := h.hazards.threads t thread ht
  refine h.goTo_idle ht (hpc ▸ rfl) (hpc ▸ rfl) rfl rfl rfl rfl (hok.goTo rfl rfl ?_
    (by simp [Pc.record]) ?_ rfl (by simp [Pc.batchBucket])) rfl rfl rfl
  · intro _
    rw [hpc]
    rfl
  · intro bucket' hb
    exact hok.home bucket' (hpc ▸ hb)

theorem acquireRecord (fails : Bool) :
    Inv (s.acquireRecord t bucket fails step) place := by
  cases step with
  | load | reload => exact h.acquire_goTo ht hpc
  | tryRecord m =>
    cases m with
    | zero => exact h.acquire_goTo ht hpc
    | succ m =>
      simp only [acquireRecord]
      split
      · next hinactive =>
        obtain ⟨record, hrecord, hnone⟩ := map_eq_some_iff.mp hinactive
        refine h.acquired ht hpc ?_ ?_ fun r' hne _ => getElem?_modify_of_ne (Ne.symm hne)
        · exact map_eq_some_iff.mpr ⟨_, getElem?_modify_self hrecord, rfl⟩
        · -- A thread's record is active.
          intro u other hu hr
          obtain ⟨bucket', -, hactive⟩ := (h.hazards.threads u other hu).active m hr
          cases hactive.symm.trans hinactive
      · exact h.acquire_goTo ht hpc
  | insert old =>
    simp only [acquireRecord]
    split
    · next hlast =>
      obtain ⟨rfl, -⟩ := hlast
      refine h.acquired ht hpc ?_ ?_ fun r' _ hlt => getElem?_append_left hlt
      · simp
      · intro u other hu hr
        exact Nat.lt_irrefl _ (h.hazards.record_lt hu hr)
    · exact h.acquire_goTo ht hpc

end

variable {fails : Bool} {s' : TaskPool}

theorem localBucket (hpc : thread.pc = .localBucket) (hs : s.go t fails .localBucket = some s') :
    Inv s' place := by
  cases hs
  have hok := h.hazards.threads t thread ht
  have hnone : thread.record = none := hok.unassigned (hpc ▸ rfl)
  have hnext : Inv { s with nextBucket := s.nextBucket + 1 } place :=
    h.congr rfl rfl rfl rfl rfl fun _ _ => rfl
  refine hnext.goTo_idle ht (hpc ▸ rfl) (hpc ▸ rfl) rfl rfl rfl rfl ⟨fun _ => hnone, ?_,
    by simp [Pc.record], ?_, by simp [Pc.announced], by simp [Pc.guarded], by simp,
    by simp [Pc.batchBucket]⟩ rfl rfl rfl
  · intro r hr
    cases hnone.symm.trans hr
  · intro bucket' hb
    exact congrArg some (some.inj hb)

theorem release (hpc : thread.pc = .release r) :
    Inv ((s.announce r none).goTo t (.deactivate r)) place := by
  have hannounce := h.announce ht r (hpc ▸ rfl) (hpc ▸ rfl) none
  have hok := hannounce.hazards.threads t thread ht
  refine hannounce.goTo_idle ht (hpc ▸ rfl) (hpc ▸ rfl) rfl rfl rfl rfl (hok.goTo rfl rfl
    (by simp [Pc.acquiring]) ?_ (by simp [Pc.home]) rfl (by simp [Pc.batchBucket])) rfl rfl rfl
  intro r' hr'
  exact hok.record r' (hpc ▸ hr')

theorem deactivate (hpc : thread.pc = .deactivate r) (hs : s.go t fails (.deactivate r) = some s') :
    Inv s' place := by
  cases hs
  have hr := (h.hazards.threads t thread ht).record r (hpc ▸ rfl)
  have hrecords : Placed (s.setRecord r fun record => { record with bucket := none }) place :=
    h.placed.congr rfl rfl (fun _ _ => rfl) rfl
  refine ⟨hrecords.setThread ht (fun l hand => hand.of_eq (hpc ▸ rfl) (hpc ▸ rfl)) rfl,
    h.hazards.deactivate ht hr, ?_⟩
  exact h.linked_setThread ht (by simp [Pc.linked])

theorem go (hs : s.go t fails thread.pc = some s') : ∃ place', Inv s' place' := by
  generalize hpc : thread.pc = pc at hs
  cases pc with
  | idle | exited => cases hs
  | localBucket => exact ⟨place, h.localBucket ht hpc hs⟩
  | acquire bucket step =>
    cases hs
    exact ⟨place, h.acquireRecord ht hpc fails⟩
  | allocate bucket r step =>
    cases hs
    exact h.allocate ht hpc
  | reset task =>
    cases hs
    exact ⟨place, h.reset ht hpc⟩
  | retire bucket task step => exact h.retire ht hpc hs
  | count bucket =>
    cases hs
    exact ⟨place, h.countRetired ht hpc⟩
  | reclaim bucket caller step =>
    cases hs
    exact h.reclaimRetired ht hpc fails
  | release r =>
    cases hs
    exact ⟨place, h.release ht hpc⟩
  | deactivate r => exact ⟨place, h.deactivate ht hpc hs⟩

end

/-! ## Calls -/

section
variable (h : Inv s place) (ht : s.threads[t]? = some thread) (hpc : thread.pc = .idle)
include h ht hpc

theorem enter : Inv (s.goTo t (TaskPool.enter thread)) place := by
  have hok := h.hazards.threads t thread ht
  unfold TaskPool.enter
  split
  · next bucket r hbucket hr =>
    refine h.goTo_idle ht (hpc ▸ rfl) (hpc ▸ rfl) rfl rfl rfl rfl (hok.goTo rfl rfl
      (by simp [Pc.acquiring]) ?_ ?_ rfl (by simp [Pc.batchBucket])) rfl rfl rfl
    · intro r' hr'
      exact hr.trans (hr' ▸ rfl)
    · intro bucket' hb
      exact hbucket.trans (hb ▸ rfl)
  · next bucket hbucket hr =>
    refine h.goTo_idle ht (hpc ▸ rfl) (hpc ▸ rfl) rfl rfl rfl rfl ⟨fun _ => hr, hok.active,
      by simp [Pc.record], ?_, by simp [Pc.announced], by simp [Pc.guarded], by simp,
      by simp [Pc.batchBucket]⟩ rfl rfl rfl
    intro bucket' hb
    exact hbucket.trans (hb ▸ rfl)
  · next hbucket =>
    refine h.goTo_idle ht (hpc ▸ rfl) (hpc ▸ rfl) rfl rfl rfl rfl ⟨fun _ => ?_, hok.active,
      by simp [Pc.record], by simp [Pc.home], by simp [Pc.announced], by simp [Pc.guarded], by simp,
      by simp [Pc.batchBucket]⟩ rfl rfl rfl
    -- A thread with a record has a bucket.
    cases hr : thread.record with
    | none => rfl
    | some r =>
      obtain ⟨bucket, hsome, -⟩ := hok.active r hr
      cases hbucket.symm.trans hsome

theorem exit : Inv (s.goTo t (match thread.record with
      | some r => .release r
      | none => .exited)) place := by
  have hok := h.hazards.threads t thread ht
  split
  · next r hr =>
    refine h.goTo_idle ht (hpc ▸ rfl) (hpc ▸ rfl) rfl rfl rfl rfl (hok.goTo rfl rfl
      (by simp [Pc.acquiring]) ?_ (by simp [Pc.home]) rfl (by simp [Pc.batchBucket])) rfl rfl rfl
    intro r' hr'
    exact hr.trans (hr' ▸ rfl)
  · exact h.goTo_idle ht (hpc ▸ rfl) (hpc ▸ rfl) rfl rfl rfl rfl (hok.goTo rfl rfl
      (by simp [Pc.acquiring]) (by simp [Pc.record]) (by simp [Pc.home]) rfl
      (by simp [Pc.batchBucket])) rfl rfl rfl

theorem free (hn : n ∈ thread.owned) : Inv (s.setThread t fun thread =>
        { thread with pc := .reset n, owned := thread.owned.erase n })
      (update place n (.held t)) := by
  refine ⟨h.placed.free ht hn (hpc ▸ rfl) (hpc ▸ rfl), ?_,
    h.linked_setThread ht (by simp [Pc.linked])⟩
  have hmoved : Hazards s (update place n (.held t)) := by
    refine h.hazards.move (by simp) (by simp) fun u other bucket' heq hu hb => ?_
    obtain rfl := Place.held.inj heq
    cases ht.symm.trans hu
    exact absurd hb (by simp [hpc, Pc.batchBucket])
  exact hmoved.goTo_plain ht rfl rfl (by simp [Pc.acquiring]) (by simp [Pc.record])
    (by simp [Pc.home]) rfl (by simp [Pc.batchBucket]) (by simp [Pc.scanning])

end

theorem hazards_setOwned {place' : Nat → Place} (h : Hazards s place')
    (ht : s.threads[t]? = some thread) (f : List Nat → List Nat) :
    Hazards (s.setThread t fun thread => { thread with owned := f thread.owned }) place' := by
  have hok := h.threads t thread ht
  refine h.setThread ht { hok with } rfl ?_ ?_
  · intro task r hguarded hr u other m hu hscan
    exact h.unscanned t u thread other task r m ht hu hguarded hr hscan
  · intro task m hscan u other r hu hguarded hr
    exact h.unscanned u t other thread task r m hu ht hguarded hr hscan

/-- An owner may hand its task to another thread. -/
theorem give (h : Inv s place) (ht : s.threads[t]? = some thread) {u : Nat} {other : Thread}
    (hu : s.threads[u]? = some other) (hn : n ∈ thread.owned) :
    Inv ((s.setThread t fun thread =>
        { thread with owned := thread.owned.erase n }).setThread u fun other =>
        { other with owned := n :: other.owned })
      (update place n (.owned u)) := by
  have hfirst : Hazards (s.setThread t fun thread =>
      { thread with owned := thread.owned.erase n }) (update place n (.owned u)) :=
    hazards_setOwned (h.hazards.move (by simp) (by simp) (by simp)) ht (·.erase n)
  obtain ⟨other', hu'⟩ : ∃ other', (s.setThread t fun thread =>
      { thread with owned := thread.owned.erase n }).threads[u]? = some other' :=
    ⟨_, getElem?_modify_iff.mpr ⟨other, hu, rfl⟩⟩
  refine ⟨h.placed.give ht hu hn, hazards_setOwned hfirst hu' (n :: ·), ?_⟩
  intro v thread' m old hv hlinked
  obtain ⟨x, hx, rfl⟩ := getElem?_modify_iff.mp hv
  obtain ⟨y, hy, rfl⟩ := getElem?_modify_iff.mp hx
  refine h.linked v y m old hy ?_
  split at hlinked <;> split at hlinked <;> exact hlinked

/-- An owner may write what it likes where the `next` of its task is. -/
theorem write (h : Inv s place) (ht : s.threads[t]? = some thread) (hn : n ∈ thread.owned)
    (v : Option Nat) : Inv (s.storeNext n v) place := by
  have hplace := (h.placed.owners t thread ht).place_eq hn
  refine ⟨h.placed.storeOwned ht hn v, h.hazards.storeNext ?_ v, h.linked_storeNext ?_ v⟩
  · intro bucket stack heq
    cases hplace.symm.trans heq
  · intro u other old hu hlinked
    obtain ⟨-, hheld⟩ := h.placed.place_inHand hu (Pc.mem_inHand_of_linked hlinked)
    cases hplace.symm.trans hheld

theorem spawn (h : Inv s place) : Inv { s with threads := s.threads ++ [{}] } place := by
  refine ⟨h.placed.spawn, h.hazards.spawn, ?_⟩
  intro t thread n old ht hlinked
  rcases getElem?_snoc ht with ht | ⟨rfl, rfl⟩
  · exact h.linked t thread n old ht hlinked
  · exact absurd hlinked (by simp [Pc.linked])

theorem step (h : Inv s place) {l : PoolLabel} {s' : TaskPool} (hs : s.step l = some s') :
    ∃ place', Inv s' place' := by
  cases l with
  | spawn =>
    cases hs
    exact ⟨place, h.spawn⟩
  | allocate t =>
    simp only [TaskPool.step] at hs
    split at hs
    · next thread ht =>
      split at hs
      · next hpc =>
        cases hs
        exact ⟨place, h.enter ht hpc⟩
      · cases hs
    · cases hs
  | free t task =>
    simp only [TaskPool.step] at hs
    split at hs
    · next thread ht =>
      split at hs
      · next hok =>
        cases hs
        exact ⟨_, h.free ht hok.1 hok.2⟩
      · cases hs
    · cases hs
  | give t u task =>
    simp only [TaskPool.step] at hs
    split at hs
    · next thread other ht hu =>
      split at hs
      · next hn =>
        cases hs
        exact ⟨_, h.give ht hu hn⟩
      · cases hs
    · cases hs
  | write t task value =>
    simp only [TaskPool.step] at hs
    split at hs
    · next thread ht =>
      split at hs
      · next hn =>
        cases hs
        exact ⟨place, h.write ht hn value⟩
      · cases hs
    · cases hs
  | exit t =>
    simp only [TaskPool.step] at hs
    split at hs
    · next thread ht =>
      split at hs
      · next hpc =>
        cases hs
        exact ⟨place, h.exit ht hpc⟩
      · cases hs
    · cases hs
  | go t fails =>
    obtain ⟨thread, ht, hs⟩ := bind_eq_some_iff.mp hs
    exact h.go ht hs

end

end Inv

theorem TaskPool.inv {s : TaskPool} (hr : Reachable TaskPool.step {} s) : ∃ place, Inv s place :=
  hr.invariant (p := fun s => ∃ place, Inv s place) ⟨_, .init⟩ fun _ _ _ ⟨_, h⟩ _ hs => h.step hs

/-- In every run of any number of threads each task has exactly one place: a stack of a bucket, the
    hands of a thread that is reclaiming, pushing or about to return it, or an owner. So no task is
    dropped, and what an `Allocate` is about to return, a popped task or a new one, has no owner. -/
theorem task_has_one_place {s : TaskPool} (hr : Reachable TaskPool.step {} s) :
    ∃ place : Nat → Place, Placed s place ∧
      ∀ (t : Nat) thread bucket r step task, s.threads[t]? = some thread →
        thread.pc = .allocate bucket r step →
        (step = .unprotect task ∨ step = .unlink task ∨ (step = .create ∧ task = s.created)) →
        ∀ (u : Nat) other, s.threads[u]? = some other → task ∉ other.owned := by
  obtain ⟨place, h⟩ := inv hr
  refine ⟨place, h.placed, ?_⟩
  intro t thread bucket r step task ht hpc hstep u other hu howned
  obtain ⟨hlive, hplace⟩ := (h.placed.owners u other hu).mem_iff.mp howned
  have hheld : task ∈ thread.pc.inHand → False := by
    intro hmem
    obtain ⟨-, hheld⟩ := h.placed.place_inHand ht hmem
    cases hplace.symm.trans hheld
  rcases hstep with rfl | rfl | ⟨-, rfl⟩
  · exact hheld (hpc ▸ mem_cons_self)
  · exact hheld (hpc ▸ mem_cons_self)
  · exact Nat.lt_irrefl _ hlive

/-- Threads 0 and 64 have the same bucket. Thread 0 allocates a task, frees it and reclaims it; then
    both threads are about to pop it, and thread 0 is the first one. -/
def contending : List PoolLabel :=
  (List.range 64).flatMap (fun t => [.spawn, .allocate t, .go t false]) ++
  List.replicate 9 (.go 0 false) ++ [.free 0 0] ++ List.replicate 5 (.go 0 false) ++
  [.allocate 0] ++ List.replicate 15 (.go 0 false) ++
  [.spawn, .allocate 64] ++ List.replicate 10 (.go 64 false) ++ [.go 0 false, .go 64 false]

theorem task_has_one_place_contended :
    ∃ s : TaskPool, Reachable TaskPool.step {} s ∧ s.created = 1 ∧
      s.threads[0]?.map Thread.pc = some (.allocate 0 0 (.unprotect 0)) ∧
      s.threads[64]?.map Thread.pc = some (.allocate 0 1 .loadHead) ∧
      ∃ place, Placed s place ∧
        ∀ (u : Nat) other, s.threads[u]? = some other → 0 ∉ other.owned := by
  refine exists_reaches_of_exec (p := fun s => s.created = 1 ∧
      s.threads[0]?.map Thread.pc = some (.allocate 0 0 (.unprotect 0)) ∧
      s.threads[64]?.map Thread.pc = some (.allocate 0 1 .loadHead))
    contending (by decide +kernel) fun s hreach hs => ?_
  obtain ⟨hcreated, hwinner, hloser⟩ := hs
  obtain ⟨thread, ht, hpc⟩ := map_eq_some_iff.mp hwinner
  obtain ⟨place, hplaced, hreturned⟩ := task_has_one_place hreach
  exact ⟨hcreated, hwinner, hloser, place, hplaced,
    hreturned 0 thread 0 0 _ 0 ht hpc (.inl rfl)⟩

end CoroRpc.Memory
