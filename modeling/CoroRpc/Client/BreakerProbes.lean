import CoroRpc.Client.Breaker
import CoroRpc.Lib.Run
import CoroRpc.Lib.Table

/-!
# Probes are accounted for

Runs of a breaker: any sequence of `Allow` and `Record`, at any times, where every permit granted is
recorded at most once. The permits are kept in a table beside the breaker, and so is the number of
times the generation has changed; neither is read by the breaker.

Only the generation tells permits apart. It has 30 bits, so the results are about runs in which it
has changed less often than that: then the generation in the control word *is* the number of changes,
and the permits of the current generation are those granted since the last one.
-/

namespace CoroRpc.Client

open Lib List Breaker Control

structure Permit where
  word : Nat
  recorded : Bool := false
  deriving DecidableEq

structure Probes where
  breaker : Breaker := {}
  permits : List Permit := []
  /-- How often the generation has changed. -/
  changes : Nat := 0
  deriving DecidableEq

inductive ProbeOp where
  | allow (nowMs : Nat)
  /-- `Record` with the permit in this place of the table. -/
  | record (permit : Nat) (result : CallOutcome) (nowMs : Nat)
  deriving DecidableEq

namespace Probes

def moveTo (s : Probes) (breaker : Breaker) : Probes :=
  { s with
    breaker := breaker
    changes := s.changes +
      if generation breaker.control = generation s.breaker.control then 0 else 1 }

def step (options : RpcClientOptions) (s : Probes) : ProbeOp → Option Probes
  | .allow nowMs =>
    match s.breaker.allow options nowMs with
    | none => none
    | some (breaker, permit) =>
      if permit = kDeniedPermit then some (s.moveTo breaker)
      else some { s.moveTo breaker with permits := s.permits ++ [{ word := permit }] }
  | .record i result nowMs =>
    match s.permits[i]? with
    | none => none
    | some permit =>
      if permit.recorded then none
      else
        some { s.moveTo (s.breaker.record options permit.word result nowMs) with
          permits := s.permits.set i { permit with recorded := true } }

/-- How many permits of this generation have not been recorded. -/
def outstanding (s : Probes) (generation : Nat) : Nat :=
  s.permits.countP fun p => !p.recorded && decide (Control.generation p.word = generation)

end Probes

/-! ## What the operations do to the control word -/

namespace Breaker

variable {options : RpcClientOptions} {breaker breaker' : Breaker} {permit nowMs : Nat}
  {result : CallOutcome}

theorem allow_cases (h : breaker.allow options nowMs = some (breaker', permit)) :
    (permit = kDeniedPermit ∧ breaker' = breaker) ∨
    (state breaker.control = kClosed ∧ permit = breaker.control ∧ breaker' = breaker) ∨
    (state breaker.control = kOpen ∧ breaker' = { breaker with control := permit } ∧
      permit = Control.make kHalfOpen (Control.nextGeneration breaker.control) 1 0) ∨
    (state breaker.control ≠ kOpening ∧ state breaker.control ≠ kOpen ∧
      state breaker.control ≠ kClosed ∧
      inflight breaker.control < options.circuitBreaker.halfOpenMaxProbes ∧
      breaker' = { breaker with control := permit } ∧
      permit = Control.make kHalfOpen (generation breaker.control)
        (inflight breaker.control + 1) (Control.successes breaker.control)) := by
  unfold allow at h
  split at h
  · cases h
    exact .inl ⟨rfl, rfl⟩
  split at h
  · rename_i hstate
    cases h
    exact .inr (.inl ⟨hstate, rfl, rfl⟩)
  rename_i hclosed
  split at h
  · rename_i hstate
    split at h
    · cases h
      exact .inl ⟨rfl, rfl⟩
    · cases h
      exact .inr (.inr (.inl ⟨hstate, rfl, rfl⟩))
  rename_i hopen
  split at h
  · cases h
  rename_i hopening
  split at h
  · cases h
    exact .inl ⟨rfl, rfl⟩
  · rename_i hroom
    cases h
    exact .inr (.inr (.inr ⟨hopening, hopen, hclosed, by omega, rfl, rfl⟩))

theorem open_other {expected : Nat} (h : ¬ (state breaker.control = state expected ∧
      generation breaker.control = generation expected)) :
    breaker.open options expected nowMs = breaker := if_neg h

theorem control_open {expected : Nat} (hs : state breaker.control = state expected)
    (hg : generation breaker.control = generation expected) :
    (breaker.open options expected nowMs).control =
      Control.make kOpen (Control.nextGeneration breaker.control) := by
  unfold «open»
  rw [if_pos ⟨hs, hg⟩]

@[simp] theorem control_noteOverload :
    (breaker.noteOverload options result nowMs).control = breaker.control := by
  unfold noteOverload
  split <;> rfl

@[simp] theorem window_noteOverload :
    (breaker.noteOverload options result nowMs).window = breaker.window := by
  unfold noteOverload
  split <;> rfl

theorem record_other (h : ¬ (state breaker.control = state permit ∧
      generation breaker.control = generation permit)) :
    breaker.record options permit result nowMs = breaker.noteOverload options result nowMs := by
  have h' : ¬ (state (breaker.noteOverload options result nowMs).control =
      state permit ∧ generation (breaker.noteOverload options result nowMs).control =
      generation permit) := by simpa using h
  change (if state permit = kHalfOpen then _ else _) = _
  split
  · rename_i hpermit
    split
    · exact open_other h'
    · exact if_neg (hpermit ▸ h')
  · split
    · rfl
    · rename_i hclosed
      have hpermit : state permit = kClosed := by
        by_contra hne
        exact hclosed (.inr (.inr hne))
      refine if_pos ?_
      by_contra hboth
      rw [not_or, not_not, not_not] at hboth
      exact h' ⟨hboth.1.trans hpermit.symm, hboth.2⟩

theorem record_halfOpen (options : RpcClientOptions) (result : CallOutcome) (nowMs : Nat)
    (hs : state breaker.control = kHalfOpen) (hp : state permit = kHalfOpen)
    (hg : generation breaker.control = generation permit) :
    (result.transportFailure = true ∧ (breaker.record options permit result nowMs).control =
        Control.make kOpen (Control.nextGeneration breaker.control)) ∨
    (inflight breaker.control = 1 ∧ (breaker.record options permit result nowMs).control =
        Control.make kClosed (Control.nextGeneration breaker.control)) ∨
    (¬ (inflight breaker.control = 1 ∧ options.circuitBreaker.halfOpenMaxProbes ≤
        Control.successes breaker.control + result.succeeded.toNat) ∧
      (breaker.record options permit result nowMs).control =
        Control.make kHalfOpen (generation breaker.control)
          (inflight breaker.control - 1)
          (Control.successes breaker.control + result.succeeded.toNat)) := by
  have hrecord : breaker.record options permit result nowMs =
      if result.transportFailure then
        (breaker.noteOverload options result nowMs).open options permit nowMs
      else (breaker.noteOverload options result nowMs).recordProbe options permit result :=
    if_pos hp
  rw [hrecord]
  split
  · rename_i hfailure
    left
    rw [control_open (by simp [hs, hp]) (by simpa using hg), control_noteOverload]
    exact ⟨hfailure, rfl⟩
  · right
    unfold recordProbe
    rw [if_pos ⟨by simpa using hs, by simpa using hg⟩]
    dsimp only
    rw [control_noteOverload]
    split
    · rename_i hlast
      exact .inl ⟨hlast.1, rfl⟩
    · rename_i hmore
      have hdown : (if inflight breaker.control = 0 then 0
          else inflight breaker.control - 1) = inflight breaker.control - 1 := by
        split <;> omega
      exact .inr ⟨hmore, by rw [hdown]⟩

theorem record_call (options : RpcClientOptions) (breaker : Breaker) (result : CallOutcome)
    (nowMs : Nat) (hp : state permit ≠ kHalfOpen) :
    (breaker.record options permit result nowMs).control = breaker.control ∨
      (breaker.record options permit result nowMs).control =
        Control.make kOpen (Control.nextGeneration breaker.control) := by
  have hrecord : breaker.record options permit result nowMs =
      if result.localFailure = true ∨ result.overload = true ∨ state permit ≠ kClosed then
        breaker.noteOverload options result nowMs
      else if state (breaker.noteOverload options result nowMs).control ≠ kClosed ∨
          generation (breaker.noteOverload options result nowMs).control ≠
            generation permit then
        breaker.noteOverload options result nowMs
      else (breaker.noteOverload options result nowMs).recordWindow options result nowMs :=
    if_neg hp
  rw [hrecord]
  split
  · exact .inl control_noteOverload
  split
  · exact .inl control_noteOverload
  · unfold recordWindow
    dsimp only
    split
    · right
      rw [control_open rfl rfl]
      exact congrArg (fun control => Control.make kOpen (Control.nextGeneration control))
        control_noteOverload
    · exact .inl control_noteOverload

end Breaker

/-! ## The accounting -/

namespace Probes

variable {options : RpcClientOptions} {s s' : Probes}

/-- While the generation has not wrapped around: it counts its changes, the permits of the current
    generation are of the breaker's current state, and the probes in flight are those of them that
    have not been recorded. -/
structure Accounts (options : RpcClientOptions) (s : Probes) : Prop where
  generation : Control.generation s.breaker.control = s.changes
  state : Control.state s.breaker.control ≠ kOpening
  granted : ∀ p ∈ s.permits, Control.generation p.word ≤ s.changes ∧
    (Control.generation p.word = s.changes → Control.state p.word = Control.state s.breaker.control)
  inflight : Control.state s.breaker.control = kHalfOpen →
    Control.inflight s.breaker.control = s.outstanding s.changes ∧
    Control.inflight s.breaker.control ≤ options.circuitBreaker.halfOpenMaxProbes

theorem accounts_init : Accounts options {} :=
  ⟨by decide, by decide, by simp, fun h => absurd h (by decide)⟩

theorem changes_le_moveTo (s : Probes) (breaker : Breaker) :
    s.changes ≤ (s.moveTo breaker).changes := Nat.le_add_right _ _

variable {breaker : Breaker}

theorem changes_moveTo_same
    (h : generation breaker.control = generation s.breaker.control) :
    (s.moveTo breaker).changes = s.changes := by
  unfold moveTo
  rw [if_pos h]
  rfl

theorem outstanding_snoc (s : Probes) (word g : Nat) :
    outstanding { s with permits := s.permits ++ [{ word := word }] } g =
      s.outstanding g + if generation word = g then 1 else 0 := by
  simp only [outstanding, countP_append, countP_singleton, Bool.not_false, Bool.true_and,
    decide_eq_true_eq]

theorem outstanding_set {i : Nat} {p : Permit} (hp : s.permits[i]? = some p)
    (hnew : p.recorded = false) (g : Nat) :
    outstanding { s with permits := s.permits.set i { p with recorded := true } } g +
      (if generation p.word = g then 1 else 0) = s.outstanding g := by
  have hcount := countP_set_add
    (fun p => !p.recorded && decide (generation p.word = g))
    { p with recorded := true } hp
  simp only [hnew, Bool.not_false, Bool.true_and, Bool.not_true, Bool.false_and, Bool.toNat_false,
    Nat.add_zero] at hcount
  rw [outstanding, outstanding, ← hcount]
  by_cases hg : generation p.word = g <;> simp [hg]

/-- The breaker stays in its state and generation. -/
theorem Accounts.within {permits : List Permit} (h : s.Accounts options)
    (hgen : Control.generation breaker.control = Control.generation s.breaker.control)
    (hstate : Control.state breaker.control = Control.state s.breaker.control)
    (hpermits : ∀ p ∈ permits, (∃ q ∈ s.permits, q.word = p.word) ∨ p.word = breaker.control)
    (hinflight : Control.state breaker.control = kHalfOpen →
      Control.inflight breaker.control = permits.countP (fun p => !p.recorded &&
        decide (Control.generation p.word = s.changes)) ∧
      Control.inflight breaker.control ≤ options.circuitBreaker.halfOpenMaxProbes) :
    Accounts options { s.moveTo breaker with permits := permits } := by
  have hchanges := changes_moveTo_same hgen
  have hgeneration := hgen.trans h.generation
  refine ⟨hgeneration.trans hchanges.symm, fun heq => h.state (hstate.symm.trans heq),
    fun p hp => ?_, fun hhalf => ?_⟩
  · change _ ≤ (s.moveTo breaker).changes ∧
      (_ = (s.moveTo breaker).changes → _ = Control.state breaker.control)
    rw [hchanges, hstate]
    rcases hpermits p hp with ⟨q, hq, hword⟩ | hword
    · rw [← hword]
      exact h.granted q hq
    · rw [hword]
      exact ⟨Nat.le_of_eq hgeneration, fun _ => hstate⟩
  · have hcount := hinflight hhalf
    rw [← hchanges] at hcount
    exact hcount

/-- The breaker goes to a new generation, and with it to another state. The permits of the new
    generation, if any, are those that the step grants. -/
theorem Accounts.advance {permits : List Permit} {state inflight : Nat} (h : s.Accounts options)
    (hstate : state < kOpening)
    (hcontrol : breaker.control =
      Control.make state (Control.nextGeneration s.breaker.control) inflight 0)
    (hlt : (s.moveTo breaker).changes < 2 ^ 30)
    (hpermits : ∀ p ∈ permits, Control.generation p.word ≤ s.changes ∨ p.word = breaker.control)
    (hinflight : state = kHalfOpen → inflight = permits.countP (fun p => !p.recorded &&
        decide (Control.generation p.word = Control.generation breaker.control)) ∧
      inflight ≤ options.circuitBreaker.halfOpenMaxProbes ∧ inflight < 65536) :
    Accounts options { s.moveTo breaker with permits := permits } := by
  have hs : state < 4 := Nat.lt_trans hstate (by decide)
  have hgen := h.generation
  have hmade : Control.generation breaker.control = (s.changes + 1) % 1073741824 := by
    rw [hcontrol, generation_make hs, nextGeneration_eq, hgen, Nat.mod_mod]
  have hchanges : (s.moveTo breaker).changes = s.changes + 1 := by
    simp only [moveTo, hmade, hgen]
    rw [if_neg (by omega)]
  have hgeneration : Control.generation breaker.control = s.changes + 1 := by
    omega
  have hstate' : Control.state breaker.control = state := by
    rw [hcontrol, state_make hs]
  refine ⟨hgeneration.trans hchanges.symm, ?_, fun p hp => ?_, fun hhalf => ?_⟩
  · change Control.state breaker.control ≠ kOpening
    rw [hstate']
    exact Nat.ne_of_lt hstate
  · change _ ≤ (s.moveTo breaker).changes ∧ (_ = (s.moveTo breaker).changes → _)
    rw [hchanges]
    rcases hpermits p hp with hold | hnew
    · exact ⟨by omega, fun heq => by omega⟩
    · rw [hnew, hgeneration]
      exact ⟨Nat.le_refl _, fun _ => rfl⟩
  · obtain ⟨hcount, hmax, h16⟩ := hinflight (hstate'.symm.trans hhalf)
    change Control.inflight breaker.control =
      permits.countP (fun p => !p.recorded && decide (Control.generation p.word =
        (s.moveTo breaker).changes)) ∧ Control.inflight breaker.control ≤ _
    rw [hchanges, ← hgeneration, ← hcount, hcontrol, inflight_make hs, Nat.mod_eq_of_lt h16]
    exact ⟨rfl, hmax⟩

theorem make_ne_denied {state generation inflight successes : Nat} (h : state < kOpening) :
    Control.make state generation inflight successes ≠ kDeniedPermit := by
  intro heq
  have hs := congrArg Control.state heq
  rw [state_make (Nat.lt_trans h (by decide))] at hs
  rw [hs] at h
  exact absurd h (by decide)

theorem Accounts.outstanding_next {g : Nat} (h : s.Accounts options)
    (hg : g = (s.changes + 1) % 1073741824) (hlt : s.changes + 1 < 2 ^ 30) :
    s.outstanding g = 0 := by
  refine countP_eq_zero.mpr fun p hp => ?_
  have := (h.granted p hp).1
  simp only [Bool.and_eq_true, decide_eq_true_eq, not_and]
  omega

/-- What `Allow` can do: deny; grant the word of a closed breaker; begin a generation of probes; or
    grant one more probe. -/
theorem step_allow_cases {nowMs : Nat} (h : s.step options (.allow nowMs) = some s') : s' = s ∨
    (state s.breaker.control = kClosed ∧
      s' = { s with permits := s.permits ++ [{ word := s.breaker.control }] }) ∨
    (∃ permit, state s.breaker.control = kOpen ∧
      permit = Control.make kHalfOpen (Control.nextGeneration s.breaker.control) 1 0 ∧
      s' = { s.moveTo { s.breaker with control := permit } with
        permits := s.permits ++ [{ word := permit }] }) ∨
    (∃ permit, state s.breaker.control = kHalfOpen ∧
      inflight s.breaker.control < options.circuitBreaker.halfOpenMaxProbes ∧
      permit = Control.make kHalfOpen (generation s.breaker.control)
        (inflight s.breaker.control + 1) (Control.successes s.breaker.control) ∧
      s' = { s.moveTo { s.breaker with control := permit } with
        permits := s.permits ++ [{ word := permit }] }) := by
  unfold step at h
  dsimp only at h
  split at h
  · cases h
  rename_i breaker permit hallow
  have hself : s.moveTo s.breaker = s := by
    simp only [moveTo, if_true, Nat.add_zero]
  rcases allow_cases hallow with ⟨rfl, rfl⟩ | ⟨hstate, rfl, rfl⟩ | ⟨hstate, rfl, hpermit⟩ |
    ⟨hopening, hopen, hclosed, hroom, rfl, hpermit⟩
  · rw [if_pos rfl, hself] at h
    cases h
    exact .inl rfl
  · rw [hself] at h
    split at h
    · cases h
      exact .inl rfl
    · cases h
      exact .inr (.inl ⟨hstate, rfl⟩)
  · rw [if_neg (hpermit ▸ make_ne_denied (by decide))] at h
    cases h
    exact .inr (.inr (.inl ⟨permit, hstate, hpermit, rfl⟩))
  · have hhalf : state s.breaker.control = kHalfOpen := by
      have := state_eq s.breaker.control
      simp only [kOpening, kOpen, kClosed, kHalfOpen] at hopening hopen hclosed ⊢
      omega
    rw [if_neg (hpermit ▸ make_ne_denied (by decide))] at h
    cases h
    exact .inr (.inr (.inr ⟨permit, hhalf, hroom, hpermit, rfl⟩))

section
variable (hmin : 1 ≤ options.circuitBreaker.halfOpenMaxProbes)
  (hmax : options.circuitBreaker.halfOpenMaxProbes ≤ 65535)

include hmin hmax in
theorem Accounts.allow {nowMs : Nat} (h : s.Accounts options)
    (hs : s.step options (.allow nowMs) = some s') (hlt : s'.changes < 2 ^ 30) :
    s'.Accounts options := by
  rcases step_allow_cases hs with rfl | ⟨hstate, rfl⟩ | ⟨permit, hstate, hpermit, rfl⟩ |
    ⟨permit, hhalf, hroom, hpermit, rfl⟩
  · exact h
  · -- closed: the permit is the control word
    have hself : s.moveTo s.breaker = s := by
      simp only [moveTo, if_true, Nat.add_zero]
    rw [← hself]
    refine h.within rfl rfl (fun p hp => ?_) fun hhalf => ?_
    · rcases mem_append.mp hp with hp | hp
      · exact .inl ⟨p, hp, rfl⟩
      · rw [mem_singleton.mp hp]
        exact .inr rfl
    · cases hstate.symm.trans hhalf
  · -- open, and the interval has passed: the first probe
    have hgen : Control.generation permit = (s.changes + 1) % 1073741824 := by
      rw [hpermit, generation_make (by decide), nextGeneration_eq, h.generation, Nat.mod_mod]
    have hchanges : s.changes + 1 < 2 ^ 30 := by
      refine Nat.lt_of_le_of_lt ?_ hlt
      change _ ≤ s.changes + _
      have := generation_lt s.breaker.control
      rw [h.generation] at this
      rw [if_neg (by rw [h.generation]; change Control.generation permit ≠ _; omega)]
    refine h.advance (by decide) hpermit hlt (fun p hp => ?_) fun _ => ⟨?_, hmin, by decide⟩
    · rcases mem_append.mp hp with hp | hp
      · exact .inl (h.granted p hp).1
      · rw [mem_singleton.mp hp]
        exact .inr rfl
    · have hsnoc := s.outstanding_snoc permit (Control.generation permit)
      rw [h.outstanding_next hgen hchanges, if_pos rfl] at hsnoc
      exact hsnoc.symm
  · -- half-open with room for a probe
    have hgen : Control.generation permit = Control.generation s.breaker.control := by
      rw [hpermit, generation_make (by decide), Nat.mod_eq_of_lt (generation_lt _)]
    have hinflight : Control.inflight permit = Control.inflight s.breaker.control + 1 := by
      rw [hpermit, inflight_make (by decide), Nat.mod_eq_of_lt (by omega)]
    refine h.within hgen (hpermit ▸ (state_make (by decide)).trans hhalf.symm)
      (fun p hp => ?_) fun _ => ?_
    · rcases mem_append.mp hp with hp | hp
      · exact .inl ⟨p, hp, rfl⟩
      · rw [mem_singleton.mp hp]
        exact .inr rfl
    · have hsnoc := s.outstanding_snoc permit s.changes
      rw [if_pos (hgen.trans h.generation), ← (h.inflight hhalf).1] at hsnoc
      dsimp only
      rw [hinflight]
      exact ⟨hsnoc.symm, hroom⟩

include hmax in
theorem Accounts.record {i nowMs : Nat} {result : CallOutcome} (h : s.Accounts options)
    (hs : s.step options (.record i result nowMs) = some s') (hlt : s'.changes < 2 ^ 30) :
    s'.Accounts options := by
  unfold step at hs
  dsimp only at hs
  split at hs
  · cases hs
  rename_i permit hget
  split at hs
  · cases hs
  rename_i hnew
  cases hs
  have hmem := mem_of_getElem? hget
  have hset := outstanding_set hget (by simpa using hnew)
  have hwords : ∀ p ∈ s.permits.set i { permit with recorded := true },
      ∃ q ∈ s.permits, q.word = p.word := by
    intro p hp
    rcases mem_or_eq_of_mem_set hp with hp | rfl
    · exact ⟨p, hp, rfl⟩
    · exact ⟨permit, hmem, rfl⟩
  have hold : ∀ p ∈ s.permits.set i { permit with recorded := true },
      Control.generation p.word ≤ s.changes ∨
        p.word = (s.breaker.record options permit.word result nowMs).control := by
    intro p hp
    obtain ⟨q, hq, hword⟩ := hwords p hp
    exact .inl (hword ▸ (h.granted q hq).1)
  by_cases hcurrent : Control.state s.breaker.control = Control.state permit.word ∧
      Control.generation s.breaker.control = Control.generation permit.word
  case neg =>
    -- another generation: if it were the current one, so would be the state
    have hcontrol : (s.breaker.record options permit.word result nowMs).control =
        s.breaker.control := by rw [record_other hcurrent, control_noteOverload]
    have hother : Control.generation permit.word ≠ s.changes := fun heq =>
      hcurrent ⟨((h.granted permit hmem).2 heq).symm, h.generation.trans heq.symm⟩
    refine h.within (by rw [hcontrol]) (by rw [hcontrol]) (fun p hp => .inl (hwords p hp))
      fun hhalf => ?_
    rw [hcontrol] at hhalf ⊢
    have hcount := hset s.changes
    rw [if_neg hother, Nat.add_zero, ← (h.inflight hhalf).1] at hcount
    exact ⟨hcount.symm, (h.inflight hhalf).2⟩
  obtain ⟨hstate, hgen⟩ := hcurrent
  by_cases hhalf : Control.state s.breaker.control = kHalfOpen
  · rcases record_halfOpen options result nowMs hhalf
      (hstate.symm.trans hhalf) hgen with ⟨-, hopened⟩ | ⟨-, hclosed⟩ | ⟨-, hback⟩
    · exact h.advance (by decide) hopened hlt hold fun heq => absurd heq (by decide)
    · exact h.advance (by decide) hclosed hlt hold fun heq => absurd heq (by decide)
    · -- the probe comes back, and the breaker stays half-open
      refine h.within ?_ ?_ (fun p hp => .inl (hwords p hp)) fun _ => ?_
      · rw [hback, generation_make (by decide), Nat.mod_eq_of_lt (generation_lt _)]
      · rw [hback, state_make (by decide), hhalf]
      · obtain ⟨hcount, hle⟩ := h.inflight hhalf
        have hafter := hset s.changes
        rw [if_pos (hgen.symm.trans h.generation), ← hcount] at hafter
        rw [hback, inflight_make (by decide), Nat.mod_eq_of_lt (by omega)]
        refine ⟨?_, by omega⟩
        rw [← hafter, Nat.add_sub_cancel]
        rfl
  · rcases record_call options s.breaker result nowMs
      (fun heq => hhalf (hstate.trans heq)) with hsame | hopened
    · refine h.within (by rw [hsame]) (by rw [hsame]) (fun p hp => .inl (hwords p hp)) fun heq => ?_
      rw [hsame] at heq
      exact absurd heq hhalf
    · exact h.advance (by decide) hopened hlt hold fun heq => absurd heq (by decide)

variable {op : ProbeOp}

theorem changes_le_step (hs : s.step options op = some s') : s.changes ≤ s'.changes := by
  cases op with
  | allow nowMs =>
    simp only [step] at hs
    split at hs
    · cases hs
    · split at hs <;> cases hs <;> exact changes_le_moveTo _ _
  | record i result nowMs =>
    simp only [step] at hs
    split at hs
    · cases hs
    · split at hs
      · cases hs
      · cases hs
        exact changes_le_moveTo _ _

theorem changes_step_le (hs : s.step options op = some s') : s'.changes ≤ s.changes + 1 := by
  have hmove : ∀ breaker, (s.moveTo breaker).changes ≤ s.changes + 1 := by
    intro breaker
    unfold moveTo
    dsimp only
    split <;> omega
  cases op with
  | allow nowMs =>
    simp only [step] at hs
    split at hs
    · cases hs
    · split at hs <;> cases hs <;> exact hmove _
  | record i result nowMs =>
    simp only [step] at hs
    split at hs
    · cases hs
    · split at hs
      · cases hs
      · cases hs
        exact hmove _

include hmin hmax in
theorem accounts_of_reachable (h : Reachable (step options) {} s) (hlt : s.changes < 2 ^ 30) :
    s.Accounts options := by
  refine h.invariant (p := fun s => s.changes < 2 ^ 30 → s.Accounts options)
    (fun _ => accounts_init) (fun s op s' hi _ hs hlt => ?_) hlt
  have hbefore := hi (Nat.lt_of_le_of_lt (changes_le_step hs) hlt)
  cases op with
  | allow nowMs => exact hbefore.allow hmin hmax hs hlt
  | record i result nowMs => exact hbefore.record hmax hs hlt

/-- When a step closes the breaker, the probe that comes back is the last one. -/
theorem Accounts.outstanding_of_close (h : s.Accounts options) (hs : s.step options op = some s')
    (hhalf : Control.state s.breaker.control = kHalfOpen)
    (hclosed : Control.state s'.breaker.control = kClosed) :
    s'.outstanding (Control.generation s.breaker.control) = 0 := by
  cases op with
  | allow nowMs =>
    simp only [step] at hs
    split at hs
    · cases hs
    rename_i breaker permit hallow
    -- no permit of a half-open breaker leaves it closed
    have hstays : Control.state breaker.control ≠ kClosed := by
      rcases allow_cases hallow with ⟨-, rfl⟩ | ⟨hstate, -, -⟩ | ⟨hstate, -, -⟩ |
        ⟨-, -, -, -, rfl, hpermit⟩
      · rw [hhalf]
        decide
      · rw [hhalf] at hstate
        cases hstate
      · rw [hhalf] at hstate
        cases hstate
      · dsimp only
        rw [hpermit, state_make (by decide)]
        decide
    split at hs <;> cases hs <;> exact absurd hclosed hstays
  | record i result nowMs =>
    simp only [step] at hs
    split at hs
    · cases hs
    rename_i permit hget
    split at hs
    · cases hs
    rename_i hnew
    cases hs
    have hset := outstanding_set hget (by simpa using hnew) (Control.generation s.breaker.control)
    by_cases hcurrent : Control.state s.breaker.control = Control.state permit.word ∧
        Control.generation s.breaker.control = Control.generation permit.word
    · obtain ⟨hstate, hgen⟩ := hcurrent
      change Control.state (s.breaker.record options permit.word result nowMs).control = _ at hclosed
      rcases record_halfOpen options result nowMs hhalf
        (hstate.symm.trans hhalf) hgen with ⟨-, hopened⟩ | ⟨hlast, -⟩ | ⟨-, hback⟩
      · rw [hopened, state_make (by decide)] at hclosed
        cases hclosed
      · rw [if_pos hgen.symm, h.generation, ← (h.inflight hhalf).1, hlast] at hset
        rw [h.generation]
        exact Nat.succ.inj hset
      · rw [hback, state_make (by decide)] at hclosed
        cases hclosed
    · change Control.state (s.breaker.record options permit.word result nowMs).control = _ at hclosed
      rw [record_other hcurrent, control_noteOverload, hhalf] at hclosed
      cases hclosed

include hmin hmax in
/-- **Probes are accounted for.** In every state that `Allow` and `Record` reach in any order and at
    any times, with fewer than `2 ^ 30` changes of generation: half-open, the word counts the
    permits of its generation that have not been recorded, and they are at most the probes allowed;
    a step that closes the breaker leaves none of them; and recording a permit of another generation
    changes neither the word nor the window. -/
theorem probes_accounted (h : Reachable (step options) {} s) (hlt : s.changes < 2 ^ 30) :
    (state s.breaker.control = kHalfOpen → inflight s.breaker.control =
        s.outstanding (generation s.breaker.control) ∧
      inflight s.breaker.control ≤ options.circuitBreaker.halfOpenMaxProbes) ∧
    (∀ op s', s.step options op = some s' → state s.breaker.control = kHalfOpen →
      state s'.breaker.control = kClosed →
      s'.outstanding (generation s.breaker.control) = 0) ∧
    ∀ p ∈ s.permits, generation p.word ≠ generation s.breaker.control →
      ∀ result nowMs, (s.breaker.record options p.word result nowMs).control = s.breaker.control ∧
        (s.breaker.record options p.word result nowMs).window = s.breaker.window := by
  have haccounts := accounts_of_reachable hmin hmax h hlt
  refine ⟨fun hhalf => ?_, fun op s' hs hhalf hclosed =>
    haccounts.outstanding_of_close hs hhalf hclosed, fun p _ hne result nowMs => ?_⟩
  · rw [haccounts.generation]
    exact haccounts.inflight hhalf
  · rw [record_other fun hboth => hne hboth.2.symm]
    exact ⟨control_noteOverload, window_noteOverload⟩

end

/-- One failing call opens the breaker; after the interval two probes are let through, the third is
    denied, one comes back, and the call from before the opening is recorded without effect. -/
theorem probes_accounted_two_probes :
    ∃ s, Reachable (step { circuitBreaker := ⟨1, 1, 50, 1000, 30000, 2⟩ }) {} s ∧
      state s.breaker.control = kHalfOpen ∧ inflight s.breaker.control = 1 ∧
      s.permits.length = 4 ∧ s.outstanding (generation s.breaker.control) = 1 := by
  refine exists_reaches_of_exec (p := fun s => state s.breaker.control = kHalfOpen ∧
      inflight s.breaker.control = 1 ∧ s.permits.length = 4 ∧ s.changes < 2 ^ 30)
    [.allow 10, .allow 10, .record 0 { status := .timeout } 20, .allow 500, .allow 1020,
      .allow 1030, .allow 1040, .record 2 { status := .ok } 1050,
      .record 1 { status := .timeout } 1060] (by decide +kernel) fun s hreach hs => ?_
  obtain ⟨hhalf, hone, hlen, hlt⟩ := hs
  have hcount := ((probes_accounted (by decide) (by decide) hreach hlt).1 hhalf).1
  exact ⟨hhalf, hone, hlen, hcount ▸ hone⟩

end Probes

end CoroRpc.Client
