import ColumbusCore.Sdk

/-!
The parameters of the treasury module (`x/treasury/types/params.go`) and the part of its store
the tax is computed from (`x/treasury/keeper/keeper.go`).

`Params.validate` is the check of a genesis; a parameter change runs the check of the one field
it sets. The burn tax split is not among the former, and the latter has no upper bound for it.
-/

namespace ColumbusCore.Treasury

open Go
open Std (ExtTreeMap)

/-! ### Parameters -/

/-- `PolicyConstraints`. -/
structure PolicyConstraints where
  rateMin : Dec
  rateMax : Dec
  cap : Coin
  changeRateMax : Dec

/-- `types.Params`. -/
structure Params where
  taxPolicy : PolicyConstraints
  rewardPolicy : PolicyConstraints
  seigniorageBurdenTarget : Dec
  miningIncrement : Dec
  windowShort : UInt64
  windowLong : UInt64
  windowProbation : UInt64
  burnTaxSplit : Dec
  minInitialDepositRatio : Dec
  oracleSplit : Dec

/-- `DefaultParams`. -/
def defaultParams : Params where
  taxPolicy :=
    { rateMin := newDecWithPrec 5 4
      rateMax := newDecWithPrec 1 2
      cap := ("usdr", 1000000)
      changeRateMax := newDecWithPrec 25 5 }
  rewardPolicy :=
    { rateMin := newDecWithPrec 5 2
      rateMax := newDecWithPrec 50 2
      cap := ("unused", 0)
      changeRateMax := newDecWithPrec 25 3 }
  seigniorageBurdenTarget := newDecWithPrec 67 2
  miningIncrement := newDecWithPrec 107 2
  windowShort := 4
  windowLong := 52
  windowProbation := 12
  burnTaxSplit := newDecWithPrec 1 1
  minInitialDepositRatio := 0
  oracleSplit := Fixed.one

/-- `Params.Validate`. -/
def Params.validate (p : Params) : Outcome Unit := do
  failIf (p.taxPolicy.rateMax < p.taxPolicy.rateMin)
    ("treasury TaxPolicy.RateMax " ++ decString p.taxPolicy.rateMax
      ++ " must be greater than TaxPolicy.RateMin " ++ decString p.taxPolicy.rateMin)
  failIf (p.taxPolicy.rateMin.raw < 0)
    ("treasury parameter TaxPolicy.RateMin must be zero or positive: "
      ++ decString p.taxPolicy.rateMin)
  failIf (¬ p.taxPolicy.cap.isValid) "treasury parameter TaxPolicy.Cap is invalid"
  failIf (p.taxPolicy.changeRateMax.raw < 0)
    ("treasury parameter TaxPolicy.ChangeRateMax must be positive: "
      ++ decString p.taxPolicy.changeRateMax)
  failIf (p.rewardPolicy.rateMax < p.rewardPolicy.rateMin)
    ("treasury RewardPolicy.RateMax " ++ decString p.rewardPolicy.rateMax
      ++ " must be greater than RewardPolicy.RateMin " ++ decString p.rewardPolicy.rateMin)
  failIf (p.rewardPolicy.rateMin.raw < 0)
    ("treasury parameter RewardPolicy.RateMin must be positive: "
      ++ decString p.rewardPolicy.rateMin)
  failIf (p.rewardPolicy.changeRateMax.raw < 0)
    ("treasury parameter RewardPolicy.ChangeRateMax must be positive: "
      ++ decString p.rewardPolicy.changeRateMax)
  failIf (p.seigniorageBurdenTarget.raw < 0)
    ("treasury parameter SeigniorageBurdenTarget must be positive: "
      ++ decString p.seigniorageBurdenTarget)
  failIf (p.miningIncrement.raw < 0)
    ("treasury parameter MiningIncrement must be positive: " ++ decString p.miningIncrement)
  failIf (p.windowLong ≤ p.windowShort)
    ("treasury parameter WindowLong must be bigger than WindowShort: (" ++ toString p.windowLong
      ++ ", " ++ toString p.windowShort ++ ")")
  failIf (p.oracleSplit.raw < 0)
    ("treasury parameter OracleSplit must be positive: " ++ decString p.oracleSplit)
  failIf (Fixed.one < p.oracleSplit)
    ("treasury parameter OracleSplit must be less than or equal to 1.0: "
      ++ decString p.oracleSplit)

/-- The default parameters pass their own validation. -/
lemma defaultParams_validate : defaultParams.validate = .ok () := by decide +kernel

/-- `validateBurnTaxSplit`, the check of a change of the parameter. -/
def validateBurnTaxSplit (v : Dec) : Outcome Unit :=
  failIf (v.raw < 0) ("burn tax split must be positive: " ++ decString v)

/-- `validateOraceSplit`. -/
def validateOraceSplit (v : Dec) : Outcome Unit := do
  failIf (v.raw < 0) ("oracle split must be positive: " ++ decString v)
  failIf (Fixed.one < v) ("oracle split must be less than or equal to 1.0: " ++ decString v)

/-- An accepted oracle split lies in the unit interval. -/
lemma validateOraceSplit_eq_ok {v : Dec} (h : validateOraceSplit v = .ok ()) :
    0 ≤ v.raw ∧ v.raw ≤ decFormat.scale := by
  obtain ⟨⟨⟩, hneg, h⟩ := bind_eq_ok.mp h
  exact ⟨not_lt.mp (failIf_eq_ok.mp hneg), not_lt.mp (failIf_eq_ok.mp h)⟩

/-! ### The store -/

/-- The tax caps by denom and the tax proceeds of the running epoch. -/
structure Store where
  params : Params
  taxCaps : ExtTreeMap Denom ℤ
  epochTaxProceeds : Coins

/-- `GetTaxCap`: the cap of the tax policy where none is registered. -/
def Store.getTaxCap (s : Store) (d : Denom) : ℤ := s.taxCaps.getD d s.params.taxPolicy.cap.2

/-- `RecordEpochTaxProceeds`. -/
def Store.recordEpochTaxProceeds (s : Store) (delta : Coins) : Store :=
  if delta.IsZero then s else { s with epochTaxProceeds := s.epochTaxProceeds.add delta }

/-- The proceeds grow by what is recorded. -/
lemma Store.amountOf_recordEpochTaxProceeds (s : Store) (delta : Coins) (d : Denom) :
    (s.recordEpochTaxProceeds delta).epochTaxProceeds.amountOf d
      = s.epochTaxProceeds.amountOf d + delta.amountOf d := by
  rw [recordEpochTaxProceeds]
  split_ifs with h
  · rw [Amounts.isZero_iff.mp h, add_zero]
  · exact CoinSet.amountOf_add _ _ _

end ColumbusCore.Treasury
