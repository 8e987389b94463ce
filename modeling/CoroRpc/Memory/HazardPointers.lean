import CoroRpc.Memory.TaskPlaces

/-!
# The hazard pointers

Between the validation of `Allocate` and its compare-exchange a task may be popped, used, freed and
retired by others, and if it came back to the stack in that time, the compare-exchange would
succeed with a stale successor. That it does not come back is proved here.

A thread *guards* a task from the validation on. At that moment the task is on the stack, so no
`ReclaimRetired` has it, and the thread's record announces it. A `ReclaimRetired` that comes to the
task later starts to look at the records after that, and the thread's record is among them. The
invariant is `unscanned`: while a scan for a guarded task is under way, the records of its guards
are among those not looked at yet. So the scan cannot end without finding one.

What else is here is bookkeeping for that: a thread's record is its own and has its bucket, and the
tasks on the stacks of a bucket, and in the batches taken from it, are the bucket's tasks.
-/

namespace CoroRpc.Memory

open Lib Option Function Pc

/-! ## What a program counter says -/

namespace Pc

/-- Before the thread has its record. -/
def acquiring : Pc → Bool
  | .localBucket | .acquire _ _ => true
  | _ => false

/-- The hazard record that is being used. -/
def record : Pc → Option Nat
  | .allocate _ r _ | .reclaim _ (.allocate r) _ | .release r | .deactivate r => some r
  | _ => none

/-- The thread's own bucket, where it matters. -/
def home : Pc → Option Nat
  | .acquire bucket _ | .allocate bucket _ _ | .reclaim bucket (.allocate _) _ => some bucket
  | _ => none

def announced : Pc → Option Nat
  | .allocate _ _ (.validate task) | .allocate _ _ (.loadNext task)
  | .allocate _ _ (.exchange task _) => some task
  | _ => none

/-- The task that the thread has validated. -/
def guarded : Pc → Option Nat
  | .allocate _ _ (.loadNext task) | .allocate _ _ (.exchange task _) => some task
  | _ => none

/-- The bucket that the held tasks belong to. -/
def batchBucket : Pc → Option Nat
  | .retire bucket _ _ | .reclaim bucket _ _ => some bucket
  | _ => none

/-- A task for which the records are looked at, or have been, and how many are left. -/
def scanning : Pc → Option (Nat × Nat)
  | .reclaim _ _ (.scanBucket batch _ n) => some (batch, n)
  | .reclaim _ _ (.scanNode batch _ n) => some (batch, n + 1)
  | .reclaim _ _ (.push batch _ .reusable _) => some (batch, 0)
  | _ => none

variable {task : Nat} {pc : Pc}

theorem scanning_eq_none (h : pc.guarded = some task) : pc.scanning = none := by
  cases pc with
  | allocate => rfl
  | _ => exact absurd h (by simp [guarded])

theorem announced_of_guarded (h : pc.guarded = some task) : pc.announced = some task := by
  unfold guarded at h
  split at h
  · exact h
  · exact h
  · cases h

theorem record_of_guarded (h : pc.guarded = some task) : ∃ r, pc.record = some r := by
  cases pc with
  | allocate bucket r step => exact ⟨r, rfl⟩
  | _ => exact absurd h (by simp [guarded])

theorem mem_inHand_of_scanning {n : Nat} (h : pc.scanning = some (task, n)) : task ∈ pc.inHand := by
  unfold scanning at h
  split at h <;> cases h <;> exact List.mem_cons_self

end Pc

/-! ## The invariant -/

structure Announces (s : TaskPool) (place : Nat → Place) (t : Nat) (thread : Thread) : Prop where
  unassigned : thread.pc.acquiring = true → thread.record = none
  active : ∀ r, thread.record = some r → ∃ bucket, thread.bucket = some bucket ∧
    s.records[r]?.map Record.bucket = some (some bucket)
  record : ∀ r, thread.pc.record = some r → thread.record = some r
  home : ∀ bucket, thread.pc.home = some bucket → thread.bucket = some bucket
  announced : ∀ task r, thread.pc.announced = some task → thread.record = some r →
    s.records[r]?.map Record.protectedNode = some (some task)
  guarded : ∀ task, thread.pc.guarded = some task → task < s.created ∧
    thread.bucket = some (s.poolBucket task)
  /-- While the guarded task is on the stack, its successor is the one that was read. -/
  fresh : ∀ bucket r task next, thread.pc = .allocate bucket r (.exchange task next) →
    place task = .stack bucket .reusable → s.next task = next
  batch : ∀ bucket n, thread.pc.batchBucket = some bucket → n < s.created → place n = .held t →
    s.poolBucket n = bucket

structure Hazards (s : TaskPool) (place : Nat → Place) : Prop where
  threads : ∀ (t : Nat) thread, s.threads[t]? = some thread → Announces s place t thread
  homes : ∀ n bucket stack, n < s.created → place n = .stack bucket stack → s.poolBucket n = bucket
  unique : ∀ (t u : Nat) thread other r, s.threads[t]? = some thread → s.threads[u]? = some other →
    thread.record = some r → other.record = some r → t = u
  unscanned : ∀ (t u : Nat) thread other task r n, s.threads[t]? = some thread →
    s.threads[u]? = some other → thread.pc.guarded = some task → thread.record = some r →
    other.pc.scanning = some (task, n) → r < n

namespace Announces

variable {s s' : TaskPool} {place place' : Nat → Place} {t : Nat} {thread : Thread}

/-- What the other threads do to the memory, the places and the records. -/
theorem frame (h : Announces s place t thread)
    (hrecords : ∀ r, thread.record = some r → s'.records[r]? = s.records[r]?)
    (hcreated : s.created ≤ s'.created)
    (hpool : ∀ n, n < s.created → s'.poolBucket n = s.poolBucket n)
    (hfresh : ∀ bucket task, thread.pc.guarded = some task → place' task = .stack bucket .reusable →
      place task = .stack bucket .reusable ∧ s'.next task = s.next task)
    (hbatch : ∀ bucket n, thread.pc.batchBucket = some bucket → n < s'.created →
      place' n = .held t → (n < s.created ∧ place n = .held t) ∨ s'.poolBucket n = bucket) :
    Announces s' place' t thread where
  __ := h
  active := by
    intro r hr
    rw [hrecords r hr]
    exact h.active r hr
  announced := by
    intro task r htask hr
    rw [hrecords r hr]
    exact h.announced task r htask hr
  guarded := by
    intro task htask
    obtain ⟨hlive, hbucket⟩ := h.guarded task htask
    exact ⟨Nat.lt_of_lt_of_le hlive hcreated, by rw [hpool task hlive]; exact hbucket⟩
  fresh := by
    intro bucket r task next hpc hplace
    have hguarded : thread.pc.guarded = some task := by rw [hpc]; rfl
    obtain ⟨hplace, hnext⟩ := hfresh bucket task hguarded hplace
    rw [hnext]
    exact h.fresh bucket r task next hpc hplace
  batch := by
    intro bucket n hb hn hplace
    rcases hbatch bucket n hb hn hplace with ⟨hlive, hheld⟩ | hpool'
    · rw [hpool n hlive]
      exact h.batch bucket n hb hlive hheld
    · exact hpool'

theorem of_setThread (h : Announces s place t thread) (u : Nat) (f : Thread → Thread) :
    Announces (s.setThread u f) place t thread :=
  { h with }

theorem goTo (h : Announces s place t thread) {thread' : Thread}
    (hrecord' : thread'.record = thread.record) (hbucket' : thread'.bucket = thread.bucket)
    (hacquiring : thread'.pc.acquiring = true → thread.pc.acquiring = true)
    (hrecord : ∀ r, thread'.pc.record = some r → thread.record = some r)
    (hhome : ∀ bucket, thread'.pc.home = some bucket → thread.bucket = some bucket)
    (hannounced : thread'.pc.announced = none)
    (hbatch : ∀ bucket n, thread'.pc.batchBucket = some bucket → n < s.created →
      place n = .held t → s.poolBucket n = bucket) : Announces s place t thread' where
  unassigned := fun hpc => hrecord'.trans (h.unassigned (hacquiring hpc))
  active := by
    rw [hrecord', hbucket']
    exact h.active
  record := fun r hr => hrecord'.trans (hrecord r hr)
  home := fun bucket hb => hbucket'.trans (hhome bucket hb)
  announced := fun task r htask => by cases htask.symm.trans hannounced
  guarded := by
    intro task htask
    cases (announced_of_guarded htask).symm.trans hannounced
  fresh := by
    intro bucket r task next hpc
    rw [hpc] at hannounced
    exact absurd hannounced (by simp [Pc.announced])
  batch := hbatch

end Announces

namespace Hazards

variable {s s' : TaskPool} {place place' : Nat → Place} {t n : Nat} {thread : Thread}

theorem init : Hazards {} fun _ => .owned 0 where
  threads := fun _ _ h => by cases h
  homes := fun _ _ _ h => by cases h
  unique := fun _ _ _ _ _ h => by cases h
  unscanned := fun _ _ _ _ _ _ _ h => by cases h

section
variable (h : Hazards s place)
include h

theorem record_lt (ht : s.threads[t]? = some thread) {r : Nat} (hr : thread.record = some r) :
    r < s.records.length := by
  obtain ⟨bucket, -, hrecord⟩ := (h.threads t thread ht).active r hr
  obtain ⟨record, hrecord, -⟩ := map_eq_some_iff.mp hrecord
  exact (List.getElem?_eq_some_iff.mp hrecord).1

theorem frame (hthreads : s'.threads = s.threads) (hrecords : s'.records = s.records)
    (hcreated : s.created ≤ s'.created)
    (hpool : ∀ n, n < s.created → s'.poolBucket n = s.poolBucket n)
    (hhomes : ∀ n bucket stack, n < s'.created → place' n = .stack bucket stack →
      s'.poolBucket n = bucket)
    (hfresh : ∀ (t : Nat) thread bucket task, s.threads[t]? = some thread →
      thread.pc.guarded = some task → place' task = .stack bucket .reusable →
      place task = .stack bucket .reusable ∧ s'.next task = s.next task)
    (hbatch : ∀ (t : Nat) thread bucket n, s.threads[t]? = some thread →
      thread.pc.batchBucket = some bucket → n < s'.created → place' n = .held t →
      (n < s.created ∧ place n = .held t) ∨ s'.poolBucket n = bucket) : Hazards s' place' where
  threads := by
    intro t thread ht
    rw [hthreads] at ht
    exact (h.threads t thread ht).frame (fun _ _ => by rw [hrecords]) hcreated hpool
      (fun bucket task => hfresh t thread bucket task ht)
      fun bucket n => hbatch t thread bucket n ht
  homes := hhomes
  unique := by
    rw [hthreads]
    exact h.unique
  unscanned := by
    rw [hthreads]
    exact h.unscanned

theorem congr (hthreads : s'.threads = s.threads) (hrecords : s'.records = s.records)
    (hcreated : s'.created = s.created) (hpool : s'.poolBucket = s.poolBucket)
    (hnext : s'.next = s.next) : Hazards s' place := by
  refine h.frame hthreads hrecords (Nat.le_of_eq hcreated.symm) (fun _ _ => by rw [hpool]) ?_ ?_ ?_
  · rw [hcreated, hpool]
    exact h.homes
  · intro _ _ _ _ _ _ hplace
    exact ⟨hplace, by rw [hnext]⟩
  · intro _ _ _ _ _ _ hlive hplace
    exact .inl ⟨hcreated ▸ hlive, hplace⟩

theorem storeNext (hstack : ∀ bucket stack, place n ≠ .stack bucket stack) (v : Option Nat) :
    Hazards (s.storeNext n v) place := by
  refine h.frame rfl rfl (Nat.le_refl _) (fun _ _ => rfl) h.homes ?_ ?_
  · intro _ _ bucket task _ _ hplace
    have hne : task ≠ n := fun heq => hstack bucket .reusable (heq ▸ hplace)
    refine ⟨hplace, ?_⟩
    change update s.next n v task = s.next task
    rw [update_of_ne hne]
  · intro _ _ _ _ _ _ hlive hplace
    exact .inl ⟨hlive, hplace⟩

/-- A task changes its place. Where it goes to a stack, or into the hands of a thread that is busy
    with a bucket, it is that bucket's; and no guarded task goes to a reusable stack. -/
theorem move {q : Place}
    (hstack : ∀ bucket stack, q = .stack bucket stack → s.poolBucket n = bucket)
    (hguards : ∀ bucket, q = .stack bucket .reusable → ∀ (t : Nat) thread,
      s.threads[t]? = some thread → thread.pc.guarded ≠ some n)
    (hheld : ∀ (t : Nat) thread bucket, q = .held t → s.threads[t]? = some thread →
      thread.pc.batchBucket = some bucket → s.poolBucket n = bucket) :
    Hazards s (update place n q) := by
  refine h.frame rfl rfl (Nat.le_refl _) (fun _ _ => rfl) ?_ ?_ ?_
  · intro m bucket stack hm hplace
    by_cases hmn : m = n
    · subst hmn
      rw [update_self] at hplace
      exact hstack bucket stack hplace
    · rw [update_of_ne hmn] at hplace
      exact h.homes m bucket stack hm hplace
  · intro t thread bucket task ht hguarded hplace
    by_cases hmn : task = n
    · subst hmn
      rw [update_self] at hplace
      exact absurd hguarded (hguards bucket hplace t thread ht)
    · rw [update_of_ne hmn] at hplace
      exact ⟨hplace, rfl⟩
  · intro t thread bucket m ht hb hm hplace
    by_cases hmn : m = n
    · subst hmn
      rw [update_self] at hplace
      exact .inr (hheld t thread bucket hplace ht hb)
    · rw [update_of_ne hmn] at hplace
      exact .inl ⟨hm, hplace⟩

theorem steal {bucket : Nat}
    (hbatch : ∀ thread, s.threads[t]? = some thread → thread.pc.batchBucket = some bucket) :
    Hazards s (relocate place (.stack bucket .retired) (.held t)) := by
  refine h.frame rfl rfl (Nat.le_refl _) (fun _ _ => rfl) ?_ ?_ ?_
  · intro m bucket' stack hm hplace
    by_cases hm' : place m = .stack bucket .retired
    · rw [relocate_of_eq hm'] at hplace
      cases hplace
    · rw [relocate_of_ne hm'] at hplace
      exact h.homes m bucket' stack hm hplace
  · intro _ _ bucket' task _ _ hplace
    by_cases hm' : place task = .stack bucket .retired
    · rw [relocate_of_eq hm'] at hplace
      cases hplace
    · rw [relocate_of_ne hm'] at hplace
      exact ⟨hplace, rfl⟩
  · intro u thread bucket' m hu hb hm hplace
    by_cases hm' : place m = .stack bucket .retired
    · rw [relocate_of_eq hm'] at hplace
      obtain rfl := Place.held.inj hplace
      rw [hbatch thread hu] at hb
      exact .inr (some.inj hb ▸ h.homes m bucket .retired hm hm')
    · rw [relocate_of_ne hm'] at hplace
      exact .inl ⟨hm, hplace⟩

variable {f : Thread → Thread}

section
variable (ht : s.threads[t]? = some thread)
include ht

/-- Thread `t` goes on, perhaps with a change in the records that the others do not notice. A
    task that it comes to guard is not scanned for, and a scan that it comes to is not past any
    guard. -/
theorem change (records : List Record)
    (hothers : ∀ (u : Nat) other, u ≠ t → s.threads[u]? = some other →
      ∀ r, other.record = some r → records[r]? = s.records[r]?)
    (hok : Announces { s with records := records } place t (f thread))
    (hunique : ∀ (u : Nat) other r, u ≠ t → s.threads[u]? = some other →
      (f thread).record = some r → other.record ≠ some r)
    (hguarded : ∀ task r, (f thread).pc.guarded = some task → (f thread).record = some r →
      ∀ (u : Nat) other n, s.threads[u]? = some other → other.pc.scanning = some (task, n) → r < n)
    (hscanning : ∀ task n, (f thread).pc.scanning = some (task, n) →
      ∀ (u : Nat) other r, s.threads[u]? = some other → other.pc.guarded = some task →
        other.record = some r → r < n) :
    Hazards ({ s with records := records }.setThread t f) place where
  threads := by
    intro u other hu
    rcases getElem?_modify_cases hu with ⟨x, rfl, hx, rfl⟩ | ⟨hne, hu⟩
    · cases ht.symm.trans hx
      exact hok.of_setThread _ _
    · have hother : Announces { s with records := records } place u other :=
        (h.threads u other hu).frame (hothers u other (Ne.symm hne) hu) (Nat.le_refl _)
          (fun _ _ => rfl) (fun _ _ _ hplace => ⟨hplace, rfl⟩)
          fun _ _ _ hlive hplace => .inl ⟨hlive, hplace⟩
      exact hother.of_setThread _ _
  homes := h.homes
  unique := by
    intro u v other other' r hu hv hr hr'
    rcases getElem?_modify_cases hu with ⟨x, rfl, hx, rfl⟩ | ⟨hut, hu⟩
    · cases ht.symm.trans hx
      rcases getElem?_modify_cases hv with ⟨y, rfl, hy, rfl⟩ | ⟨hvt, hv⟩
      · rfl
      · exact absurd hr' (hunique v other' r (Ne.symm hvt) hv hr)
    · rcases getElem?_modify_cases hv with ⟨y, rfl, hy, rfl⟩ | ⟨-, hv⟩
      · cases ht.symm.trans hy
        exact absurd hr (hunique u other r (Ne.symm hut) hu hr')
      · exact h.unique u v other other' r hu hv hr hr'
  unscanned := by
    intro u v other other' task r m hu hv hguard hr hscan
    rcases getElem?_modify_cases hu with ⟨x, rfl, hx, rfl⟩ | ⟨-, hu⟩
    · cases ht.symm.trans hx
      rcases getElem?_modify_cases hv with ⟨y, rfl, hy, rfl⟩ | ⟨-, hv⟩
      · cases ht.symm.trans hy
        cases hscan.symm.trans (scanning_eq_none hguard)
      · exact hguarded task r hguard hr v other' m hv hscan
    · rcases getElem?_modify_cases hv with ⟨y, rfl, hy, rfl⟩ | ⟨-, hv⟩
      · cases ht.symm.trans hy
        exact hscanning task m hscan u other r hu hguard hr
      · exact h.unscanned u v other other' task r m hu hv hguard hr hscan

theorem setThread (hok : Announces s place t (f thread))
    (hrecord : (f thread).record = thread.record)
    (hguarded : ∀ task r, (f thread).pc.guarded = some task → (f thread).record = some r →
      ∀ (u : Nat) other n, s.threads[u]? = some other → other.pc.scanning = some (task, n) → r < n)
    (hscanning : ∀ task n, (f thread).pc.scanning = some (task, n) →
      ∀ (u : Nat) other r, s.threads[u]? = some other → other.pc.guarded = some task →
        other.record = some r → r < n) : Hazards (s.setThread t f) place := by
  refine h.change ht s.records (fun _ _ _ _ _ _ => rfl) hok ?_ hguarded hscanning
  intro u other r hut hu hr hr'
  exact hut (h.unique u t other thread r hu ht hr' (hrecord ▸ hr))

variable {r : Nat}

theorem announce (hr : thread.record = some r) (hnone : thread.pc.announced = none)
    (node : Option Nat) : Hazards (s.announce r node) place where
  __ := h
  threads := by
    intro u other hu
    have hother := h.threads u other hu
    by_cases hrec : other.record = some r
    · obtain rfl := h.unique u t other thread r hu ht hrec hr
      cases ht.symm.trans hu
      refine { hother with active := ?_, announced := ?_ }
      · intro r' hr'
        cases hr.symm.trans hr'
        obtain ⟨bucket, hbucket, hrecord⟩ := hother.active r hr
        obtain ⟨record, hrecord, hb⟩ := map_eq_some_iff.mp hrecord
        refine ⟨bucket, hbucket, map_eq_some_iff.mpr ⟨_, getElem?_modify_self hrecord, hb⟩⟩
      · intro task r' htask
        cases htask.symm.trans hnone
    · refine hother.frame (fun r' hr' => ?_) (Nat.le_refl _) (fun _ _ => rfl)
        (fun _ _ _ hplace => ⟨hplace, rfl⟩) fun _ _ _ hlive hplace => .inl ⟨hlive, hplace⟩
      exact getElem?_modify_of_ne fun heq => hrec (heq ▸ hr')

theorem goTo_plain (hrecord' : (f thread).record = thread.record)
    (hbucket' : (f thread).bucket = thread.bucket)
    (hacquiring : (f thread).pc.acquiring = true → thread.pc.acquiring = true)
    (hrecord : ∀ r, (f thread).pc.record = some r → thread.record = some r)
    (hhome : ∀ bucket, (f thread).pc.home = some bucket → thread.bucket = some bucket)
    (hannounced : (f thread).pc.announced = none)
    (hbatch : ∀ bucket n, (f thread).pc.batchBucket = some bucket → n < s.created →
      place n = .held t → s.poolBucket n = bucket)
    (hscanning : ∀ task n, (f thread).pc.scanning = some (task, n) →
      ∀ (u : Nat) other r, s.threads[u]? = some other → other.pc.guarded = some task →
        other.record = some r → r < n) : Hazards (s.setThread t f) place := by
  refine h.setThread ht ((h.threads t thread ht).goTo hrecord' hbucket' hacquiring hrecord hhome
    hannounced hbatch) hrecord' ?_ hscanning
  intro task r hguarded
  cases (announced_of_guarded hguarded).symm.trans hannounced

theorem acquired {bucket : Nat} {records : List Record} (hhome : thread.pc.home = some bucket)
    (hr : records[r]?.map Record.bucket = some (some bucket))
    (hfree : ∀ (u : Nat) other, s.threads[u]? = some other → other.record ≠ some r)
    (hsame : ∀ r', r' ≠ r → r' < s.records.length → records[r']? = s.records[r']?) :
    Hazards ({ s with records := records }.acquired t bucket r) place := by
  refine h.change ht records ?_ ?_ ?_ ?_ ?_
  · intro u other _ hu r' hr'
    exact hsame r' (fun heq => hfree u other hu (heq ▸ hr')) (h.record_lt hu hr')
  · have hbucket := (h.threads t thread ht).home bucket hhome
    refine ⟨by simp [acquiring], ?_, ?_, ?_, ?_, ?_, ?_, ?_⟩
    · intro r' hr'
      cases hr'
      exact ⟨bucket, hbucket, hr⟩
    · exact fun _ hpc => hpc
    · intro bucket' hpc
      cases hpc
      exact hbucket
    · simp [Pc.announced]
    · simp [guarded]
    · simp
    · simp [batchBucket]
  · intro u other r' _ hu hr' hother
    exact hfree u other hu (hother.trans hr'.symm ▸ rfl)
  · simp [guarded]
  · simp [scanning]

theorem deactivate (hr : thread.record = some r) :
    Hazards ((s.setRecord r fun record => { record with bucket := none }).setThread t fun thread =>
      { thread with record := none, pc := .exited }) place := by
  refine h.change ht _ ?_ ?_ (by simp) (by simp) (by simp [scanning])
  · intro u other hut hu r' hr'
    refine getElem?_modify_of_ne fun heq => hut ?_
    exact h.unique u t other thread r hu ht (heq ▸ hr') hr
  · exact ⟨by simp, by simp, by simp [record], by simp [home], by simp, by simp [guarded],
      by simp, by simp [batchBucket]⟩

end

theorem create (t bucket : Nat) : Hazards { s with
        created := s.created + 1
        next := update s.next s.created none
        poolBucket := update s.poolBucket s.created bucket }
      (update place s.created (.owned t)) := by
  refine h.frame rfl rfl (Nat.le_succ _) ?_ ?_ ?_ ?_
  · intro n hn
    exact update_of_ne (Nat.ne_of_lt hn) ..
  · intro n bucket' stack hn hplace
    by_cases hne : n = s.created
    · subst hne
      rw [update_self] at hplace
      cases hplace
    · rw [update_of_ne hne] at hplace
      refine (update_of_ne hne ..).trans (h.homes n bucket' stack ?_ hplace)
      exact Nat.lt_of_le_of_ne (Nat.le_of_lt_succ hn) hne
  · intro t thread bucket' task ht hguarded hplace
    have hne := Nat.ne_of_lt ((h.threads t thread ht).guarded task hguarded).1
    rw [update_of_ne hne] at hplace
    exact ⟨hplace, update_of_ne hne ..⟩
  · intro t thread bucket' n _ _ hn hplace
    by_cases hne : n = s.created
    · subst hne
      rw [update_self] at hplace
      cases hplace
    · rw [update_of_ne hne] at hplace
      exact .inl ⟨Nat.lt_of_le_of_ne (Nat.le_of_lt_succ hn) hne, hplace⟩

theorem spawn : Hazards { s with threads := s.threads ++ [{}] } place where
  threads := by
    intro t thread ht
    rcases getElem?_snoc ht with ht | ⟨rfl, rfl⟩
    · have hold := h.threads t thread ht
      exact { hold with }
    · exact ⟨by simp, by simp, by simp [record], by simp [home], by simp,
        by simp [guarded], by simp, by simp [batchBucket]⟩
  homes := h.homes
  unique := by
    intro t u thread other r ht hu hr hr'
    rcases getElem?_snoc ht with ht | ⟨rfl, rfl⟩
    · rcases getElem?_snoc hu with hu | ⟨rfl, rfl⟩
      · exact h.unique t u thread other r ht hu hr hr'
      · cases hr'
    · cases hr
  unscanned := by
    intro t u thread other task r n ht hu hguard hr hscan
    rcases getElem?_snoc ht with ht | ⟨rfl, rfl⟩
    · rcases getElem?_snoc hu with hu | ⟨rfl, rfl⟩
      · exact h.unscanned t u thread other task r n ht hu hguard hr hscan
      · exact absurd hscan (by simp [scanning])
    · cases hr

end

end Hazards

end CoroRpc.Memory
