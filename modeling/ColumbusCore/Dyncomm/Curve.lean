import ColumbusCore.Dyncomm.Keeper

/-!
The dynamic minimum commission as a function of the tokens of a validator
(`CalculateVotingPower` and `CalculateDynCommission` of `x/dyncomm/keeper/dyncomm.go`).

The curve is a product of two linear terms in the share of the voting power. Below `maxZero` the
first of them is negative, and the product may fall there; the staking minimum cuts that part off.

* `curve_nonpos`, `curve_mono`: the product below `maxZero`, and above it;
* `calculateDynCommission_eq_ok_iff`: the result is the curve between its two clamps, wherever nothing
  overflows (`NoOverflow`);
* `calculateDynCommission_curve`: **the dynamic minimum grows with the tokens, and its bounds**.
-/

namespace ColumbusCore.Dyncomm

open Go Rounding

/-! ### The staking module -/

/-- The staking module: its minimum commission is a rate, and there is voting power. -/
structure Staking.Sound (st : Staking) : Prop where
  minimum_nonneg : 0 ≤ st.minCommissionRate.raw
  minimum_le : st.minCommissionRate ≤ Fixed.one
  power_pos : 0 < st.lastTotalPower
  reduction_pos : 0 < st.powerReduction

/-! ### The curve -/

/-- The product of the two terms, at a share of the voting power. -/
def curve (p : Params) (x : ℤ) : ℤ :=
  halfEven ((x - p.maxZero.raw)
    * (Fixed.quoRaw decFormat x p.slopeVpImpact.raw + p.slopeBase.raw)) decFormat.scale

section Curve

variable {p : Params} (hp : p.Valid) {x x' : ℤ}

include hp

/-- The second term is not negative. -/
lemma slope_nonneg (hx : 0 ≤ x) :
    0 ≤ Fixed.quoRaw decFormat x p.slopeVpImpact.raw + p.slopeBase.raw :=
  add_nonneg (Fixed.quoRaw_nonneg hx hp.slopeVpImpact.le) hp.slopeBase

/-- Below `maxZero` the product is not positive. -/
lemma curve_nonpos (hx : 0 ≤ x) (h : x ≤ p.maxZero.raw) : curve p x ≤ 0 := by
  refine (halfEven_monotone decFormat.scale_pos ?_).trans (halfEven_zero _).le
  exact mul_nonpos_of_nonpos_of_nonneg (sub_nonpos.mpr h) (slope_nonneg hp hx)

/-- Above `maxZero` both terms grow, and neither is negative. -/
lemma curve_mono (h : p.maxZero.raw ≤ x) (hxx : x ≤ x') : curve p x ≤ curve p x' := by
  have hx : 0 ≤ x := hp.maxZero.trans h
  refine halfEven_monotone decFormat.scale_pos ?_
  refine mul_le_mul (by omega) ?_ (slope_nonneg hp hx) (by omega)
  exact add_le_add_left (Fixed.quoRaw_mono hp.slopeVpImpact hx hxx) _

end Curve

/-! ### The clamps -/

/-- The curve, no more than the cap and no less than the staking minimum, in percent. -/
def clampedCurve (p : Params) (st : Staking) (x : ℤ) : ℤ :=
  max (min (curve p x) (p.cap.raw * 100)) (st.minCommissionRate.raw * 100)

lemma clampedCurve_mono {p : Params} (hp : p.Valid) {st : Staking} (hst : st.Sound) {x x' : ℤ}
    (hx : 0 ≤ x) (hxx : x ≤ x') : clampedCurve p st x ≤ clampedCurve p st x' := by
  rw [clampedCurve, clampedCurve]
  rcases le_total p.maxZero.raw x with h | h
  · have hle := curve_mono hp h hxx
    omega
  · -- the staking minimum is above the curve
    have hle := curve_nonpos hp hx h
    have hmin := hst.minimum_nonneg
    omega

/-! ### The result -/

/-- The share of a validator of the voting power, in percent. -/
def votingShare (st : Staking) (v : Validator) : ℤ :=
  (v.tokens.tdiv st.powerReduction * decFormat.scale).tdiv st.lastTotalPower * 100

/-- The powers are within the bounds of an `int64`, and the decimals within their bit limit. -/
structure NoOverflow (p : Params) (st : Staking) (v : Validator) : Prop where
  totalPower : -2 ^ 63 ≤ st.lastTotalPower ∧ st.lastTotalPower < 2 ^ 63
  validatorPower : -2 ^ 63 ≤ v.tokens.tdiv st.powerReduction
    ∧ v.tokens.tdiv st.powerReduction < 2 ^ 63
  cap : Fixed.Fits decFormat (p.cap.raw * 100)
  share : Fixed.Fits decFormat (votingShare st v)
  factorA : Fixed.Fits decFormat (votingShare st v - p.maxZero.raw)
  quotient : Fixed.Fits decFormat (Fixed.quoRaw decFormat (votingShare st v) p.slopeVpImpact.raw)
  factorB : Fixed.Fits decFormat
    (Fixed.quoRaw decFormat (votingShare st v) p.slopeVpImpact.raw + p.slopeBase.raw)
  minComm : Fixed.Fits decFormat (st.minCommissionRate.raw * 100)
  product : Fixed.Fits decFormat (curve p (votingShare st v))

section Result

variable {p : Params} (hp : p.Valid) {st : Staking} (hst : st.Sound)

include hst

/-- The share is defined within the bounds of the powers and of the decimals. -/
lemma calculateVotingPower_eq_ok_iff {v : Validator} {x : Dec} :
    calculateVotingPower st v = .ok x
      ↔ (-2 ^ 63 ≤ st.lastTotalPower ∧ st.lastTotalPower < 2 ^ 63)
        ∧ (-2 ^ 63 ≤ v.tokens.tdiv st.powerReduction ∧ v.tokens.tdiv st.powerReduction < 2 ^ 63)
        ∧ Fixed.Fits decFormat (votingShare st v) ∧ x = ⟨votingShare st v⟩ := by
  simp only [calculateVotingPower, tokensToConsensusPower, if_neg hst.reduction_pos.ne', bind_eq_ok,
    int64_eq_ok_iff, and_assoc, exists_and_left, exists_eq_left',
    Fixed.quoInt_eq_ok hst.power_pos.ne', Except.ok.injEq, Fixed.mulInt, Fixed.checked_eq_ok_iff]
  rfl

include hp

/-- The result is the curve between its two clamps. -/
lemma calculateDynCommission_eq_ok_iff {v : Validator} {r : Dec} :
    calculateDynCommission p st v = .ok r
      ↔ NoOverflow p st v ∧ r.raw = (clampedCurve p st (votingShare st v)).tdiv 100 := by
  constructor
  · intro h
    obtain ⟨cap, hcap, h⟩ := bind_eq_ok.mp h
    obtain ⟨x, hx, h⟩ := bind_eq_ok.mp h
    obtain ⟨factorA, hfactorA, h⟩ := bind_eq_ok.mp h
    obtain ⟨quotient, hquotient, h⟩ := bind_eq_ok.mp h
    obtain ⟨factorB, hfactorB, h⟩ := bind_eq_ok.mp h
    obtain ⟨minComm, hminComm, h⟩ := bind_eq_ok.mp h
    obtain ⟨y, hy, h⟩ := bind_eq_ok.mp h
    obtain ⟨fcap, rfl⟩ := Fixed.checked_eq_ok_iff.mp hcap
    obtain ⟨ftotal, fpower, fshare, rfl⟩ := (calculateVotingPower_eq_ok_iff hst).mp hx
    obtain ⟨ffactorA, rfl⟩ := Fixed.checked_eq_ok_iff.mp hfactorA
    obtain ⟨-, fquotient, rfl⟩ := Fixed.quo_eq_ok_iff.mp hquotient
    obtain ⟨ffactorB, rfl⟩ := Fixed.checked_eq_ok_iff.mp hfactorB
    obtain ⟨fminComm, rfl⟩ := Fixed.checked_eq_ok_iff.mp hminComm
    obtain ⟨fproduct, rfl⟩ := Fixed.checked_eq_ok_iff.mp hy
    rw [Fixed.quoInt_eq_ok (by decide), clamp_raw] at h
    refine ⟨⟨ftotal, fpower, fcap, fshare, ffactorA, fquotient, ffactorB, fminComm, fproduct⟩, ?_⟩
    rw [← Except.ok.inj h]
    rfl
  · rintro ⟨h, hr⟩
    refine bind_eq_ok.mpr ⟨_, Fixed.checked_eq_ok_iff.mpr ⟨h.cap, rfl⟩, ?_⟩
    refine bind_eq_ok.mpr ⟨_, (calculateVotingPower_eq_ok_iff hst).mpr
      ⟨h.totalPower, h.validatorPower, h.share, rfl⟩, ?_⟩
    refine bind_eq_ok.mpr ⟨_, Fixed.checked_eq_ok_iff.mpr ⟨h.factorA, rfl⟩, ?_⟩
    refine bind_eq_ok.mpr ⟨_, Fixed.quo_eq_ok_iff.mpr
      ⟨hp.slopeVpImpact.ne', h.quotient, rfl⟩, ?_⟩
    refine bind_eq_ok.mpr ⟨_, Fixed.checked_eq_ok_iff.mpr ⟨h.factorB, rfl⟩, ?_⟩
    refine bind_eq_ok.mpr ⟨_, Fixed.checked_eq_ok_iff.mpr ⟨h.minComm, rfl⟩, ?_⟩
    refine bind_eq_ok.mpr ⟨_, Fixed.checked_eq_ok_iff.mpr ⟨h.product, rfl⟩, ?_⟩
    rw [Fixed.quoInt_eq_ok (by decide), clamp_raw]
    exact congrArg Except.ok (Fixed.ext hr.symm)

omit hp

/-- The share grows with the tokens. -/
lemma votingShare_mono (v v' : Validator) (h0 : 0 ≤ v.tokens) (h : v.tokens ≤ v'.tokens) :
    0 ≤ votingShare st v ∧ votingShare st v ≤ votingShare st v' := by
  have hreduction := hst.reduction_pos
  have hpower := hst.power_pos
  have hscale : (0 : ℤ) ≤ decFormat.scale := Int.natCast_nonneg _
  have hunits : 0 ≤ v.tokens.tdiv st.powerReduction := Int.tdiv_nonneg h0 hreduction.le
  have hle : v.tokens.tdiv st.powerReduction ≤ v'.tokens.tdiv st.powerReduction := by
    rw [Int.tdiv_eq_ediv_of_nonneg h0, Int.tdiv_eq_ediv_of_nonneg (h0.trans h)]
    exact Int.ediv_le_ediv hreduction h
  rw [votingShare, votingShare, Int.tdiv_eq_ediv_of_nonneg (mul_nonneg hunits hscale),
    Int.tdiv_eq_ediv_of_nonneg (mul_nonneg (hunits.trans hle) hscale)]
  refine ⟨mul_nonneg (Int.ediv_nonneg (mul_nonneg hunits hscale) hpower.le) (by decide), ?_⟩
  exact mul_le_mul_of_nonneg_right
    (Int.ediv_le_ediv hpower (mul_le_mul_of_nonneg_right hle hscale)) (by decide)

lemma clampedCurve_nonneg (x : ℤ) : 0 ≤ clampedCurve p st x := by
  have hmin := hst.minimum_nonneg
  rw [clampedCurve]
  omega

end Result

/-- **The dynamic minimum.** For valid parameters and a fixed total power it is defined wherever
nothing overflows, it grows with the tokens of the validator, and it lies between the staking minimum
and the larger of the cap and the staking minimum. -/
theorem calculateDynCommission_curve {p : Params} (hp : p.validate = .ok ()) {st : Staking}
    (hst : st.Sound) :
    (∀ v, NoOverflow p st v ↔ ∃ r, calculateDynCommission p st v = .ok r)
    ∧ (∀ (v : Validator) (tokens tokens' : ℕ), tokens ≤ tokens' → ∀ r r',
      calculateDynCommission p st { v with tokens := tokens } = .ok r →
      calculateDynCommission p st { v with tokens := tokens' } = .ok r' → r ≤ r')
    ∧ ∀ v r, calculateDynCommission p st v = .ok r →
      st.minCommissionRate ≤ r ∧ r ≤ max p.cap st.minCommissionRate := by
  have hvalid := Params.validate_eq_ok hp
  refine ⟨fun v => ?_, fun v tokens tokens' h r r' hr hr' => ?_, fun v r hr => ?_⟩
  · constructor
    · intro h
      exact ⟨_, (calculateDynCommission_eq_ok_iff hvalid hst).mpr ⟨h, rfl⟩⟩
    · rintro ⟨r, hr⟩
      exact ((calculateDynCommission_eq_ok_iff hvalid hst).mp hr).1
  · obtain ⟨-, hraw⟩ := (calculateDynCommission_eq_ok_iff hvalid hst).mp hr
    obtain ⟨-, hraw'⟩ := (calculateDynCommission_eq_ok_iff hvalid hst).mp hr'
    obtain ⟨hx0, hxx⟩ := votingShare_mono hst { v with tokens := tokens }
      { v with tokens := tokens' } (Int.natCast_nonneg tokens) (Int.ofNat_le.mpr h)
    rw [Fixed.le_def, hraw, hraw', Int.tdiv_eq_ediv_of_nonneg (clampedCurve_nonneg hst _),
      Int.tdiv_eq_ediv_of_nonneg (clampedCurve_nonneg hst _)]
    exact Int.ediv_le_ediv (by decide) (clampedCurve_mono hvalid hst hx0 hxx)
  · obtain ⟨-, hraw⟩ := (calculateDynCommission_eq_ok_iff hvalid hst).mp hr
    rw [Int.tdiv_eq_ediv_of_nonneg (clampedCurve_nonneg hst _), clampedCurve] at hraw
    rw [le_max_iff, Fixed.le_def, Fixed.le_def, Fixed.le_def]
    omega

/-- The staking module of a chain with a thousand units of voting power. -/
def thousandPowers : Staking where
  minCommissionRate := newDecWithPrec 5 2
  lastTotalPower := 1000
  powerReduction := 1000000
  validators := ∅
  keyed := keyed_empty

/-- A validator with one percent of the power pays the staking minimum, and one with five more than
that. -/
theorem thousandPowers_curve :
    ∃ r r', calculateDynCommission defaultParams thousandPowers
        ⟨"small", true, (10000000 : ℕ), ⟨0, 0, 0, 0⟩⟩ = .ok r
      ∧ calculateDynCommission defaultParams thousandPowers
        ⟨"small", true, (50000000 : ℕ), ⟨0, 0, 0, 0⟩⟩ = .ok r'
      ∧ r ≤ r' ∧ thousandPowers.minCommissionRate ≤ r
      ∧ r = newDecWithPrec 5 2 ∧ r' = newDecWithPrec 1125 4 := by
  obtain ⟨r, hr, hvalue⟩ := exists_of_returns (p := fun r : Dec => r = newDecWithPrec 5 2)
    (x := calculateDynCommission defaultParams thousandPowers
      ⟨"small", true, (10000000 : ℕ), ⟨0, 0, 0, 0⟩⟩) (by decide +kernel)
  obtain ⟨r', hr', hvalue'⟩ := exists_of_returns (p := fun r : Dec => r = newDecWithPrec 1125 4)
    (x := calculateDynCommission defaultParams thousandPowers
      ⟨"small", true, (50000000 : ℕ), ⟨0, 0, 0, 0⟩⟩) (by decide +kernel)
  have hst : thousandPowers.Sound := ⟨by decide, by decide, by decide, by decide⟩
  obtain ⟨-, hmono, hbounds⟩ := calculateDynCommission_curve defaultParams_validate hst
  exact ⟨r, r', hr, hr', hmono ⟨"small", true, 0, ⟨0, 0, 0, 0⟩⟩ 10000000 50000000 (by decide) r r' hr
    hr', (hbounds _ r hr).1, of_decide_eq_true hvalue, of_decide_eq_true hvalue'⟩

end ColumbusCore.Dyncomm
