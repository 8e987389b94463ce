import CoroRpc.Client.BreakerProbes

/-!
# When a half-open breaker closes

`Record` closes a half-open breaker when a probe comes back with enough successes *and* no other
probe is in flight. `Allow` counts the probes in flight, not those it has admitted: with a probe
that takes long, another is admitted for every one that has come back, and the breaker can stay
half-open with any number of successes.

It closes with the `N`-th success if a probe beyond the `N`-th of a generation is admitted only
while none is in flight (`Patient`). The runs are those of `Probes`, with the results that have been
recorded kept beside them.
-/

namespace CoroRpc.Client

open Lib List Control

structure Recovery where
  probes : Probes := {}
  recorded : List (Nat × CallOutcome) := []
  deriving DecidableEq

namespace Recovery

def step (options : RpcClientOptions) (s : Recovery) (op : ProbeOp) : Option Recovery :=
  match s.probes.step options op with
  | none => none
  | some probes =>
    match op with
    | .allow _ => some { s with probes := probes }
    | .record i result _ =>
      match s.probes.permits[i]? with
      | none => none
      | some permit => some ⟨probes, s.recorded ++ [(permit.word, result)]⟩

/-- How many probes of this generation have recorded success. -/
def successesOf (s : Recovery) (generation : Nat) : Nat :=
  s.recorded.countP fun r => decide (Control.state r.1 = kHalfOpen) &&
    (decide (Control.generation r.1 = generation) && r.2.succeeded)

/-- How many permits of this generation have been granted. -/
def admitted (s : Recovery) (generation : Nat) : Nat :=
  s.probes.permits.countP fun p => decide (Control.generation p.word = generation)

/-- The generation does not wrap around, and a half-open breaker admits a probe only while none is
    in flight or fewer than `half_open_max_probes` of its generation have been admitted. -/
def Patient (options : RpcClientOptions) (s : Recovery) (op : ProbeOp) : Prop :=
  s.probes.changes + 1 < 2 ^ 30 ∧ match op with
    | .allow _ => state s.probes.breaker.control = kHalfOpen →
        s.probes.outstanding (generation s.probes.breaker.control) = 0 ∨
          s.admitted (generation s.probes.breaker.control) <
            options.circuitBreaker.halfOpenMaxProbes
    | .record .. => True

instance (options : RpcClientOptions) (s : Recovery) (op : ProbeOp) :
    Decidable (s.Patient options op) := by
  cases op <;> exact inferInstanceAs (Decidable (_ ∧ _))

variable {options : RpcClientOptions} {s s' : Recovery}

theorem step_allow {nowMs : Nat} (h : s.step options (.allow nowMs) = some s') :
    s.probes.step options (.allow nowMs) = some s'.probes ∧ s'.recorded = s.recorded := by
  unfold step at h
  split at h
  · cases h
  · rename_i hprobes
    cases h
    exact ⟨hprobes, rfl⟩

/-- The permit in place `i` has been recorded, and the breaker is now this one. -/
def afterRecord (s : Recovery) (i : Nat) (permit : Permit) (result : CallOutcome)
    (breaker : Breaker) : Recovery :=
  ⟨{ s.probes.moveTo breaker with
      permits := s.probes.permits.set i { permit with recorded := true } },
    s.recorded ++ [(permit.word, result)]⟩

theorem step_record {i nowMs : Nat} {result : CallOutcome}
    (h : s.step options (.record i result nowMs) = some s') :
    ∃ permit, s.probes.permits[i]? = some permit ∧ permit.recorded = false ∧
      s.probes.step options (.record i result nowMs) = some s'.probes ∧
      s' = s.afterRecord i permit result
        (s.probes.breaker.record options permit.word result nowMs) := by
  unfold step at h
  split at h
  · cases h
  rename_i probes hprobes
  dsimp only at h
  split at h
  · cases h
  rename_i permit hget
  cases h
  have hstep := hprobes
  unfold Probes.step at hstep
  dsimp only at hstep
  rw [hget] at hstep
  dsimp only at hstep
  split at hstep
  · cases hstep
  · rename_i hnew
    cases hstep
    exact ⟨permit, hget, by simpa using hnew, hprobes, rfl⟩

/-! ## Counting -/

theorem admitted_snoc (s : Recovery) (probes : Probes) (word g : Nat)
    (recorded : List (Nat × CallOutcome))
    (hpermits : probes.permits = s.probes.permits ++ [{ word := word }]) :
    admitted ⟨probes, recorded⟩ g =
      s.admitted g + if generation word = g then 1 else 0 := by
  simp only [admitted, hpermits, countP_append, countP_singleton, decide_eq_true_eq]

section
variable {i : Nat} {permit : Permit} (result : CallOutcome) (breaker : Breaker)

theorem successesOf_afterRecord (g : Nat) : (s.afterRecord i permit result breaker).successesOf g =
      s.successesOf g + if state permit.word = kHalfOpen ∧
        generation permit.word = g ∧ result.succeeded = true then 1 else 0 := by
  simp only [successesOf, afterRecord, countP_append, countP_singleton, Bool.and_eq_true,
    decide_eq_true_eq]

section
variable (hget : s.probes.permits[i]? = some permit)
include hget

theorem admitted_afterRecord (g : Nat) :
    (s.afterRecord i permit result breaker).admitted g = s.admitted g := by
  have hcount := countP_set_add (fun p => decide (generation p.word = g))
    { permit with recorded := true } hget
  exact Nat.add_right_cancel hcount

theorem outstanding_afterRecord (hnew : permit.recorded = false) (g : Nat) :
    (s.afterRecord i permit result breaker).probes.outstanding g +
      (if generation permit.word = g then 1 else 0) = s.probes.outstanding g :=
  Probes.outstanding_set hget hnew g

/-- The permit leaves the probes in flight, and at most enters the successes. -/
theorem ledger_afterRecord (hnew : permit.recorded = false) {g : Nat}
    (h : s.successesOf g + s.probes.outstanding g ≤ s.admitted g) :
    (s.afterRecord i permit result breaker).successesOf g +
        (s.afterRecord i permit result breaker).probes.outstanding g ≤
      (s.afterRecord i permit result breaker).admitted g := by
  have hleft := outstanding_afterRecord result breaker hget hnew g
  rw [successesOf_afterRecord, admitted_afterRecord result breaker hget]
  by_cases hg : generation permit.word = g
  · rw [if_pos hg] at hleft
    split <;> omega
  · rw [if_neg hg] at hleft
    rw [if_neg fun hboth => hg hboth.2.1]
    omega

end

end

/-! ## The invariant -/

/-- What a run with patience keeps. Every success and every probe in flight was admitted; half-open,
    the word counts the successes of its generation, which are too few to close it, and more
    than one probe is in flight only among the first `half_open_max_probes`. -/
structure Recovering (options : RpcClientOptions) (s : Recovery) : Prop where
  accounts : s.probes.Accounts options
  ledger : ∀ g, s.successesOf g + s.probes.outstanding g ≤ s.admitted g
  half : state s.probes.breaker.control = kHalfOpen →
    Control.successes s.probes.breaker.control = s.successesOf s.probes.changes ∧
    s.successesOf s.probes.changes < options.circuitBreaker.halfOpenMaxProbes ∧
    (inflight s.probes.breaker.control ≤ 1 ∨
      s.admitted s.probes.changes ≤ options.circuitBreaker.halfOpenMaxProbes)

theorem recovering_init : Recovering options {} :=
  ⟨Probes.accounts_init, fun _ => Nat.le_refl _, fun h => absurd h (by decide)⟩

/-- Nothing of the next generation has been admitted, so none of it has succeeded. -/
theorem Recovering.next {g : Nat} (h : s.Recovering options) (hg : s.probes.changes < g) :
    s.admitted g = 0 ∧ s.successesOf g = 0 := by
  have hnone : s.admitted g = 0 := by
    refine countP_eq_zero.mpr fun p hp => ?_
    have hle := (h.accounts.granted p hp).1
    simp only [decide_eq_true_eq]
    omega
  have hledger := h.ledger g
  omega

section
variable (hmin : 1 ≤ options.circuitBreaker.halfOpenMaxProbes)
  (hmax : options.circuitBreaker.halfOpenMaxProbes ≤ 65535)

include hmin hmax in
theorem Recovering.allow {nowMs : Nat} (h : s.Recovering options)
    (hpatient : s.Patient options (.allow nowMs)) (hs : s.step options (.allow nowMs) = some s') :
    s'.Recovering options := by
  obtain ⟨hprobes, hrecorded⟩ := step_allow hs
  obtain ⟨hwraps, hpatient⟩ := hpatient
  have haccounts : s'.probes.Accounts options := h.accounts.allow hmin hmax hprobes
    (Nat.lt_of_le_of_lt (Probes.changes_step_le hprobes) hwraps)
  obtain ⟨probes', recorded'⟩ := s'
  dsimp only at hprobes hrecorded haccounts
  subst hrecorded
  -- a granted permit enters both sides of the ledger
  have hgrant : ∀ word, probes'.permits = s.probes.permits ++ [{ word := word }] → ∀ g,
      successesOf ⟨probes', s.recorded⟩ g + probes'.outstanding g ≤
        admitted ⟨probes', s.recorded⟩ g := by
    intro word hpermits g
    have hsnoc := s.probes.outstanding_snoc word g
    have hout : probes'.outstanding g = s.probes.outstanding g +
        if generation word = g then 1 else 0 := by
      rw [← hsnoc]
      exact congrArg _ hpermits
    have hledger := h.ledger g
    rw [hout, admitted_snoc s probes' word g _ hpermits]
    change s.successesOf g + _ ≤ _
    omega
  rcases Probes.step_allow_cases hprobes with rfl | ⟨hstate, rfl⟩ | ⟨permit, hstate, hpermit, rfl⟩ |
    ⟨permit, hhalf, hroom, hpermit, rfl⟩
  · exact h
  · exact ⟨haccounts, hgrant _ rfl, fun hhalf => absurd (hstate.symm.trans hhalf) (by decide)⟩
  · -- the first probe of a generation
    refine ⟨haccounts, hgrant _ rfl, fun _ => ?_⟩
    have hgen := haccounts.generation
    change generation permit = _ at hgen
    have hnext : generation permit = s.probes.changes + 1 := by
      rw [hpermit, generation_make (by decide), Control.nextGeneration_eq,
        h.accounts.generation, Nat.mod_mod]
      omega
    rw [← hgen, hnext]
    have hnone := (h.next (Nat.lt_succ_self s.probes.changes)).2
    refine ⟨?_, ?_, .inl ?_⟩
    · change Control.successes permit = s.successesOf _
      rw [hnone, hpermit, Control.successes_make (by decide)]
    · change s.successesOf _ < _
      rw [hnone]
      exact hmin
    · change inflight permit ≤ 1
      rw [hpermit, inflight_make (by decide)]
  · -- one more probe
    refine ⟨haccounts, hgrant _ rfl, fun _ => ?_⟩
    obtain ⟨hsuccesses, hfew, -⟩ := h.half hhalf
    have hgen : generation permit = s.probes.changes := by
      rw [hpermit, generation_make (by decide),
        Nat.mod_eq_of_lt (generation_lt _), h.accounts.generation]
    have hchanges := haccounts.generation
    change generation permit = _ at hchanges
    rw [← hchanges, hgen]
    refine ⟨?_, hfew, ?_⟩
    · change Control.successes permit = s.successesOf _
      rw [hpermit, Control.successes_make (by decide), hsuccesses, Nat.mod_eq_of_lt (by omega)]
    · have hinflight : inflight permit = inflight s.probes.breaker.control + 1 := by
        rw [hpermit, inflight_make (by decide), Nat.mod_eq_of_lt (by omega)]
      change inflight permit ≤ 1 ∨ _
      rw [hinflight, admitted_snoc s _ permit _ _ rfl, if_pos hgen, (h.accounts.inflight hhalf).1]
      have hroomy := hpatient hhalf
      rw [h.accounts.generation] at hroomy
      omega

variable {result : CallOutcome}

theorem succeeded_of_transportFailure (h : result.transportFailure = true) :
    result.succeeded = false := by
  cases hsucceeded : result.succeeded with
  | false => rfl
  | true =>
    simp only [CallOutcome.succeeded, Bool.and_eq_true, decide_eq_true_eq] at hsucceeded
    rw [CallOutcome.transportFailure, hsucceeded.1, hsucceeded.2] at h
    cases h

variable {i : Nat}

/-- A permit of another generation: the word and its counts stay. -/
theorem Recovering.half_of_other {permit : Permit} {breaker : Breaker} (h : s.Recovering options)
    (hget : s.probes.permits[i]? = some permit)
    (hcontrol : breaker.control = s.probes.breaker.control)
    (hother : generation permit.word ≠ s.probes.changes)
    (hhalf : state s.probes.breaker.control = kHalfOpen) :
    Control.successes breaker.control =
      (s.afterRecord i permit result breaker).successesOf s.probes.changes ∧
    (s.afterRecord i permit result breaker).successesOf s.probes.changes <
      options.circuitBreaker.halfOpenMaxProbes ∧
    (inflight breaker.control ≤ 1 ∨
      (s.afterRecord i permit result breaker).admitted s.probes.changes ≤
        options.circuitBreaker.halfOpenMaxProbes) := by
  rw [successesOf_afterRecord, if_neg fun hboth => hother hboth.2.1,
    admitted_afterRecord result breaker hget, hcontrol]
  exact h.half hhalf

include hmax in
/-- A probe of the current generation comes back and leaves the breaker half-open. Were the
    successes enough, this would have been the last probe in flight, and the breaker closed. -/
theorem Recovering.half_of_back {permit : Permit} {breaker : Breaker} (h : s.Recovering options)
    (hget : s.probes.permits[i]? = some permit)
    (hhalf : state s.probes.breaker.control = kHalfOpen)
    (hsucceeds : (s.afterRecord i permit result breaker).successesOf s.probes.changes =
      s.successesOf s.probes.changes + result.succeeded.toNat)
    (hmore : ¬ (inflight s.probes.breaker.control = 1 ∧
      options.circuitBreaker.halfOpenMaxProbes ≤
        Control.successes s.probes.breaker.control + result.succeeded.toNat))
    (hback : breaker.control = Control.make kHalfOpen (generation s.probes.breaker.control)
      (inflight s.probes.breaker.control - 1)
      (Control.successes s.probes.breaker.control + result.succeeded.toNat))
    (hpositive : 1 ≤ inflight s.probes.breaker.control) :
    Control.successes breaker.control =
      (s.afterRecord i permit result breaker).successesOf s.probes.changes ∧
    (s.afterRecord i permit result breaker).successesOf s.probes.changes <
      options.circuitBreaker.halfOpenMaxProbes ∧
    (inflight breaker.control ≤ 1 ∨
      (s.afterRecord i permit result breaker).admitted s.probes.changes ≤
        options.circuitBreaker.halfOpenMaxProbes) := by
  obtain ⟨hsuccesses, hfew, hflight⟩ := h.half hhalf
  obtain ⟨hinflight, hle⟩ := h.accounts.inflight hhalf
  have hledger := h.ledger s.probes.changes
  have hbit : result.succeeded.toNat ≤ 1 := Bool.toNat_le _
  rw [hsuccesses] at hmore hback
  rw [← hinflight] at hledger
  have hstill : s.successesOf s.probes.changes + result.succeeded.toNat <
      options.circuitBreaker.halfOpenMaxProbes := by omega
  rw [hsucceeds, admitted_afterRecord result breaker hget, hback,
    Control.successes_make (by decide), inflight_make (by decide),
    Nat.mod_eq_of_lt (by omega), Nat.mod_eq_of_lt (by omega)]
  exact ⟨rfl, hstill, by omega⟩

include hmax in
/-- Recording a permit keeps the invariant, and from a half-open breaker the last success it takes
    closes it. -/
theorem Recovering.record {nowMs : Nat} (h : s.Recovering options)
    (hwraps : s.probes.changes + 1 < 2 ^ 30)
    (hs : s.step options (.record i result nowMs) = some s') :
    s'.Recovering options ∧ (state s.probes.breaker.control = kHalfOpen →
        options.circuitBreaker.halfOpenMaxProbes ≤ s'.successesOf s.probes.changes →
        state s'.probes.breaker.control = kClosed) := by
  obtain ⟨permit, hget, hnew, hprobes, rfl⟩ := step_record hs
  have haccounts := h.accounts.record hmax hprobes
    (Nat.lt_of_le_of_lt (Probes.changes_step_le hprobes) hwraps)
  have hmem := mem_of_getElem? hget
  generalize hbreaker : s.probes.breaker.record options permit.word result nowMs = breaker'
    at haccounts ⊢
  have hledger : ∀ g, (s.afterRecord i permit result breaker').successesOf g +
      (s.afterRecord i permit result breaker').probes.outstanding g ≤
        (s.afterRecord i permit result breaker').admitted g :=
    fun g => ledger_afterRecord result breaker' hget hnew (h.ledger g)
  -- half-open before and after: the generation is the same, and so are the changes
  have hkeep : generation breaker'.control = generation s.probes.breaker.control →
      (s.afterRecord i permit result breaker').probes.changes = s.probes.changes :=
    Probes.changes_moveTo_same
  by_cases hcurrent : state s.probes.breaker.control = state permit.word ∧
      generation s.probes.breaker.control = generation permit.word
  case neg =>
    have hcontrol : breaker'.control = s.probes.breaker.control := by
      rw [← hbreaker, Breaker.record_other hcurrent, Breaker.control_noteOverload]
    have hother : generation permit.word ≠ s.probes.changes := fun heq =>
      hcurrent ⟨((h.accounts.granted permit hmem).2 heq).symm, h.accounts.generation.trans heq.symm⟩
    refine ⟨⟨haccounts, hledger, fun hhalf => ?_⟩, fun hhalf henough => ?_⟩
    · rw [hkeep (by rw [hcontrol])]
      refine h.half_of_other hget hcontrol hother ?_
      rw [← hcontrol]
      exact hhalf
    · exact absurd henough (Nat.not_le.mpr (h.half_of_other hget hcontrol hother hhalf).2.1)
  obtain ⟨hstate, hgen⟩ := hcurrent
  by_cases hhalf : state s.probes.breaker.control = kHalfOpen
  case neg =>
    refine ⟨⟨haccounts, hledger, fun hafter => ?_⟩, fun hbefore => absurd hbefore hhalf⟩
    change state breaker'.control = kHalfOpen at hafter
    rcases Breaker.record_call options s.probes.breaker result nowMs
      (fun heq => hhalf (hstate.trans heq)) with hsame | hopened
    · rw [← hbreaker, hsame] at hafter
      exact absurd hafter hhalf
    · rw [← hbreaker, hopened, state_make (by decide)] at hafter
      cases hafter
  -- a probe of the current generation comes back
  have hgeneration := hgen.symm.trans h.accounts.generation
  have hsucceeds : (s.afterRecord i permit result breaker').successesOf s.probes.changes =
      s.successesOf s.probes.changes + result.succeeded.toNat := by
    rw [successesOf_afterRecord]
    cases hsucceeded : result.succeeded with
    | false =>
      rw [if_neg fun hboth => by cases hboth.2.2]
      rfl
    | true =>
      rw [if_pos ⟨hstate.symm.trans hhalf, hgeneration, rfl⟩]
      rfl
  rcases Breaker.record_halfOpen options result nowMs hhalf (hstate.symm.trans hhalf) hgen with
    ⟨hfailure, hopened⟩ | ⟨-, hclosed⟩ | ⟨hmore, hback⟩
  · rw [hbreaker] at hopened
    refine ⟨⟨haccounts, hledger, fun hafter => ?_⟩, fun _ henough => ?_⟩
    · change state breaker'.control = kHalfOpen at hafter
      rw [hopened, state_make (by decide)] at hafter
      cases hafter
    · rw [hsucceeds, succeeded_of_transportFailure hfailure] at henough
      exact absurd henough (Nat.not_le.mpr (h.half hhalf).2.1)
  · rw [hbreaker] at hclosed
    have hstate' : state breaker'.control = kClosed := by
      rw [hclosed, state_make (by decide)]
    exact ⟨⟨haccounts, hledger, fun hafter => absurd (hstate'.symm.trans hafter) (by decide)⟩,
      fun _ _ => hstate'⟩
  · rw [hbreaker] at hback
    have hleft := outstanding_afterRecord result breaker' hget hnew s.probes.changes
    rw [if_pos hgeneration, ← (h.accounts.inflight hhalf).1] at hleft
    have hafter := h.half_of_back hmax hget hhalf hsucceeds hmore hback (by omega)
    refine ⟨⟨haccounts, hledger, fun _ => ?_⟩, fun _ henough => ?_⟩
    · rw [hkeep (by rw [hback, generation_make (by decide),
        Nat.mod_eq_of_lt (generation_lt _)])]
      exact hafter
    · exact absurd henough (Nat.not_le.mpr hafter.2.1)

include hmin hmax in
theorem recovering_of_reaches (h : Reaches (step options) (Patient options) {} s) :
    s.Recovering options := by
  refine h.invariant (p := Recovering options) recovering_init fun s op s' hs hpatient hstep => ?_
  cases op with
  | allow nowMs => exact hs.allow hmin hmax hpatient hstep
  | record i result nowMs => exact (hs.record hmax hpatient.1 hstep).1

include hmax in
/-- **Recovery.** In every run of `Allow` and `Record` with patience, a half-open breaker has fewer
    successes of its generation than `half_open_max_probes`, and the step that makes them as many
    closes it. -/
theorem recovers_with_last_success (hvalid : options.validateOptions = true)
    (h : Reaches (step options) (Patient options) {} s) :
    (state s.probes.breaker.control = kHalfOpen →
      s.successesOf (generation s.probes.breaker.control) <
        options.circuitBreaker.halfOpenMaxProbes) ∧
    ∀ op s', s.Patient options op → s.step options op = some s' →
      state s.probes.breaker.control = kHalfOpen →
      options.circuitBreaker.halfOpenMaxProbes ≤
        s'.successesOf (generation s.probes.breaker.control) →
      state s'.probes.breaker.control = kClosed := by
  have hmin : 1 ≤ options.circuitBreaker.halfOpenMaxProbes := by
    simp only [RpcClientOptions.validateOptions, Bool.and_eq_true, decide_eq_true_eq] at hvalid
    exact hvalid.2
  have hrecovering := recovering_of_reaches hmin hmax h
  rw [hrecovering.accounts.generation]
  refine ⟨fun hhalf => (hrecovering.half hhalf).2.1, fun op s' hpatient hstep hhalf henough => ?_⟩
  cases op with
  | allow nowMs =>
    -- no result is recorded
    have hsame : s'.successesOf s.probes.changes = s.successesOf s.probes.changes := by
      unfold successesOf
      rw [(step_allow hstep).2]
    rw [hsame] at henough
    exact absurd henough (Nat.not_le.mpr (hrecovering.half hhalf).2.1)
  | record i result nowMs =>
    exact (hrecovering.record hmax hpatient.1 hstep).2 hhalf henough

end

/-- Two probes at a time: the second success closes the breaker. -/
theorem recovers_with_last_success_two :
    ∃ s s', Reaches (step { circuitBreaker := ⟨1, 1, 50, 1000, 30000, 2⟩ })
        (Patient { circuitBreaker := ⟨1, 1, 50, 1000, 30000, 2⟩ }) {} s ∧
      s.step { circuitBreaker := ⟨1, 1, 50, 1000, 30000, 2⟩ } (.record 2 { status := .ok } 1040) =
        some s' ∧
      state s.probes.breaker.control = kHalfOpen ∧
      state s'.probes.breaker.control = kClosed := by
  obtain ⟨s, hreach, hhalf, hpatient, s', hstep, hs'⟩ : ∃ s,
      Reaches (step { circuitBreaker := ⟨1, 1, 50, 1000, 30000, 2⟩ })
        (Patient { circuitBreaker := ⟨1, 1, 50, 1000, 30000, 2⟩ }) {} s ∧
      state s.probes.breaker.control = kHalfOpen ∧
      s.Patient { circuitBreaker := ⟨1, 1, 50, 1000, 30000, 2⟩ } (.record 2 { status := .ok } 1040) ∧
      ∃ s' ∈ s.step { circuitBreaker := ⟨1, 1, 50, 1000, 30000, 2⟩ }
          (.record 2 { status := .ok } 1040),
      2 ≤ s'.successesOf (generation s.probes.breaker.control) :=
    exists_reaches_of_exec [.allow 10, .record 0 { status := .timeout } 10, .allow 1020,
      .allow 1020, .record 1 { status := .ok } 1030] (by decide +kernel) fun _ _ hs => hs
  exact ⟨s, s', hreach, hstep, hhalf,
    (recovers_with_last_success (by decide) (by decide) hreach).2 _ _ hpatient hstep hhalf hs'⟩

/-- The second probe takes long, so a third is admitted after the first; two of them have succeeded,
    none has failed, and the breaker is still half-open. -/
theorem half_open_after_enough_successes :
    RpcClientOptions.validateOptions { circuitBreaker := ⟨1, 1, 50, 1000, 30000, 2⟩ } = true ∧
    ∃ s, Reachable (step { circuitBreaker := ⟨1, 1, 50, 1000, 30000, 2⟩ }) {} s ∧
      s.successesOf (generation s.probes.breaker.control) = 2 ∧
      (∀ r ∈ s.recorded, generation r.1 = generation s.probes.breaker.control →
        r.2.transportFailure = false) ∧
      state s.probes.breaker.control = kHalfOpen := by
  exact ⟨by decide, exists_reaches_of_exec [.allow 10, .record 0 { status := .timeout } 10, .allow
    1020, .allow 1020, .record 1 { status := .ok } 1030, .allow 1040, .record 2 { status := .ok }
    1050] (by decide +kernel) fun _ _ hs => hs⟩

end Recovery

end CoroRpc.Client
