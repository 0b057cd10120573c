import ColumbusCore.Oracle.EndBlocker

/-!
The dynamic commission (`x/dyncomm/keeper/dyncomm.go`, `x/dyncomm/types/params.go`,
`x/dyncomm/abci.go`).

For every validator the module stores a minimum and a target rate, under the text of its operator
address. At the end of a week the commission of every bonded validator is set to the larger of its
target and of the dynamic minimum, which grows with the validator's share of the voting power.

* `setDynCommissionRate`, `setTargetCommissionRate`: one of the two rates set, the other kept;
* `calculateDynCommission`: the dynamic minimum;
* `updateValidatorMinRates`, `updateAllBondedValidatorRates`, `endBlocker`: the weekly update;
* `updateAllBondedValidatorRates_entry`: **what the weekly update leaves under every address**;
* `updateAllBondedValidatorRates_eq_ok`: **the weekly update sets the commission of every bonded
  validator to the larger of its target and of its minimum**, and keeps the targets.
-/

namespace ColumbusCore.Dyncomm

open Go
open Std (ExtTreeMap)

/-! ### Parameters -/

/-- `types.Params`. -/
structure Params where
  maxZero : Dec
  slopeBase : Dec
  slopeVpImpact : Dec
  cap : Dec

/-- `Params.Validate`. -/
def Params.validate (p : Params) : Outcome Unit := do
  failIf (p.slopeBase.raw < 0)
    ("slope base must be positive or zero, is " ++ decString p.slopeBase)
  failIf (¬ p.slopeVpImpact.IsPositive)
    ("solpe vp impact should be positive, is " ++ decString p.slopeVpImpact)
  failIf (p.cap.raw < 0) ("cap shall be 0 or positive: " ++ decString p.cap)
  failIf (Fixed.one < p.cap) ("cap shall be less than 1.0: " ++ decString p.cap)
  failIf (p.maxZero.raw < 0) ("max zero shall be 0 or positive: " ++ decString p.maxZero)
  failIf (Fixed.one < p.maxZero) ("max zero shall be less than 1.0: " ++ decString p.maxZero)

/-- `DefaultParams`. -/
def defaultParams : Params where
  maxZero := newDecWithPrec 5 1
  slopeBase := newDecWithPrec 2 0
  slopeVpImpact := newDecWithPrec 10 0
  cap := newDecWithPrec 2 1

/-- The default parameters pass their own validation. -/
lemma defaultParams_validate : defaultParams.validate = .ok () := rfl

/-- What the validation of the parameters guarantees. -/
structure Params.Valid (p : Params) : Prop where
  slopeBase : 0 ≤ p.slopeBase.raw
  slopeVpImpact : 0 < p.slopeVpImpact.raw
  cap : 0 ≤ p.cap.raw
  cap_le : p.cap ≤ Fixed.one
  maxZero : 0 ≤ p.maxZero.raw

lemma Params.validate_eq_ok {p : Params} (h : p.validate = .ok ()) : p.Valid := by
  simp only [Params.validate, failIf_bind_eq_ok, failIf_eq_ok, not_lt, not_not] at h
  obtain ⟨hbase, himpact, hcap, hcap_le, hzero, -⟩ := h
  exact ⟨hbase, himpact, hcap, hcap_le, hzero⟩

/-! ### The state -/

/-- `ValidatorCommissionRate`. -/
structure ValidatorCommissionRate where
  validatorAddress : String
  minCommissionRate : Dec
  targetCommissionRate : Dec
deriving DecidableEq, Repr

/-- The store of the module, by the text of the operator address. -/
abbrev RateStore := ExtTreeMap String ValidatorCommissionRate

/-- `stakingtypes.Commission`. -/
structure Commission where
  rate : Dec
  maxRate : Dec
  maxChangeRate : Dec
  updateTime : ℤ
deriving DecidableEq, Repr

/-- What is used of a `stakingtypes.Validator`. -/
structure Validator where
  operatorAddress : String
  bonded : Bool
  tokens : ℤ
  commission : Commission
deriving DecidableEq, Repr

/-- What is used of the staking module. -/
structure Staking where
  minCommissionRate : Dec
  lastTotalPower : ℤ
  powerReduction : ℤ
  validators : ExtTreeMap String Validator
  /-- A validator is listed under its operator address. -/
  keyed : ∀ (a : String) (v : Validator), validators[a]? = some v → v.operatorAddress = a

lemma keyed_empty (a : String) (v : Validator)
    (h : (∅ : ExtTreeMap String Validator)[a]? = some v) : v.operatorAddress = a := by
  rw [ExtTreeMap.getElem?_empty] at h
  exact absurd h (by simp)

/-- `SetValidator` of the staking keeper. -/
def Staking.setValidator (st : Staking) (validator : Validator) : Staking :=
  { st with
    validators := st.validators.insert validator.operatorAddress validator
    keyed := fun a v h => by
      rw [getElem?_insert_ite] at h
      split_ifs at h with ha
      · rw [← Option.some.inj h, ha]
      · exact st.keyed a v h }

/-- The module and the staking module. -/
structure State where
  params : Params
  rates : RateStore
  staking : Staking

namespace RateStore

/-- `GetDynCommissionRate`. -/
def getDynCommissionRate (s : RateStore) (validator : String) : Dec :=
  match s[validator]? with
  | none => 0
  | some rate => rate.minCommissionRate

/-- `GetTargetCommissionRate`. -/
def getTargetCommissionRate (s : RateStore) (validator : String) : Dec :=
  match s[validator]? with
  | none => 0
  | some rate => rate.targetCommissionRate

/-- `SetDynCommissionRate`. -/
def setDynCommissionRate (s : RateStore) (validator : String) (rate : Dec) : RateStore :=
  s.insert validator ⟨validator, rate, getTargetCommissionRate s validator⟩

/-- `SetTargetCommissionRate`. -/
def setTargetCommissionRate (s : RateStore) (validator : String) (rate : Dec) : RateStore :=
  s.insert validator ⟨validator, getDynCommissionRate s validator, rate⟩

lemma getTargetCommissionRate_setTargetCommissionRate (s : RateStore) (v a : String) (rate : Dec) :
    getTargetCommissionRate (setTargetCommissionRate s v rate) a
      = if v = a then rate else getTargetCommissionRate s a := by
  rw [getTargetCommissionRate, setTargetCommissionRate, getElem?_insert_ite]
  split_ifs with h
  · rfl
  · rfl

lemma getDynCommissionRate_setTargetCommissionRate (s : RateStore) (v a : String)
    (rate : Dec) : getDynCommissionRate (setTargetCommissionRate s v rate) a
      = getDynCommissionRate s a := by
  rw [getDynCommissionRate, setTargetCommissionRate, getElem?_insert_ite]
  split_ifs with h
  · rw [h]
  · rfl

lemma getDynCommissionRate_setDynCommissionRate (s : RateStore) (v a : String) (rate : Dec) :
    getDynCommissionRate (setDynCommissionRate s v rate) a
      = if v = a then rate else getDynCommissionRate s a := by
  rw [getDynCommissionRate, setDynCommissionRate, getElem?_insert_ite]
  split_ifs with h
  · rfl
  · rfl

lemma getTargetCommissionRate_setDynCommissionRate (s : RateStore) (v a : String)
    (rate : Dec) : getTargetCommissionRate (setDynCommissionRate s v rate) a
      = getTargetCommissionRate s a := by
  rw [getTargetCommissionRate, setDynCommissionRate, getElem?_insert_ite]
  split_ifs with h
  · rw [h]
  · rfl

end RateStore

/-! ### The dynamic minimum -/

/-- `CalculateVotingPower`: the share of the voting power, in percent. -/
def calculateVotingPower (st : Staking) (validator : Validator) : Outcome Dec := do
  let totalPower ← int64 st.lastTotalPower
  let validatorPower ← tokensToConsensusPower validator.tokens st.powerReduction
  let share ← (Fixed.ofInt validatorPower : Dec).quoInt totalPower
  share.mulInt 100

/-- `CalculateDynCommission`. -/
def calculateDynCommission (p : Params) (st : Staking) (validator : Validator) : Outcome Dec := do
  let cap ← p.cap.mulInt 100
  let x ← calculateVotingPower st validator
  let factorA ← x.sub p.maxZero
  let quotient ← x.quo p.slopeVpImpact
  let factorB ← quotient.add p.slopeBase
  let minComm ← st.minCommissionRate.mulInt 100
  let y ← factorA.mul factorB
  let y := if cap < y then cap else y
  let y := if y < minComm then minComm else y
  y.quoInt 100

/-- The two clamps. -/
lemma clamp_raw (y cap minComm : Dec) :
    (if (if cap < y then cap else y) < minComm then minComm else if cap < y then cap else y).raw
      = max (min y.raw cap.raw) minComm.raw := by
  split_ifs with h₁ h₂ h₂ <;> rw [Fixed.lt_def] at h₁ h₂ <;> omega

/-! ### The weekly update -/

/-- The validator with the rates the update sets: the target, and no less than the minimum. -/
def withRates (validator : Validator) (minRate targetRate : Dec) : Validator :=
  let newRate := if targetRate < minRate then minRate else targetRate
  let newMaxRate := if validator.commission.maxRate < minRate then minRate
    else validator.commission.maxRate
  { validator with commission := { validator.commission with rate := newRate, maxRate := newMaxRate } }

/-- `UpdateValidatorMinRates`. -/
def updateValidatorMinRates (st : State) (validator : Validator) : Outcome State := do
  let minRate ← calculateDynCommission st.params st.staking validator
  let targetRate := st.rates.getTargetCommissionRate validator.operatorAddress
  pure { st with
    rates := st.rates.setDynCommissionRate validator.operatorAddress minRate
    staking := st.staking.setValidator (withRates validator minRate targetRate) }

/-- One round of `UpdateAllBondedValidatorRates`. -/
def updateIfBonded (st : State) (validator : String × Validator) : Outcome State :=
  if validator.2.bonded then updateValidatorMinRates st validator.2 else pure st

/-- `UpdateAllBondedValidatorRates`: the validators as they were before the loop. -/
def updateAllBondedValidatorRates (st : State) : Outcome State :=
  st.staking.validators.toList.foldlM updateIfBonded st

/-- `core.BlocksPerWeek`. -/
def blocksPerWeek : ℕ := 10 * 60 * 24 * 7

/-- `EndBlocker`. -/
def endBlocker (st : State) (height : ℕ) : Outcome State := do
  let last ← Oracle.isPeriodLastBlock height blocksPerWeek
  if last then updateAllBondedValidatorRates st else pure st

/-! ### What the update sets -/

lemma updateValidatorMinRates_eq_ok {st st' : State} {validator : Validator}
    (h : updateValidatorMinRates st validator = .ok st') :
    ∃ minRate, calculateDynCommission st.params st.staking validator = .ok minRate
      ∧ st' = { st with
        rates := st.rates.setDynCommissionRate validator.operatorAddress minRate
        staking := st.staking.setValidator (withRates validator minRate
          (st.rates.getTargetCommissionRate validator.operatorAddress)) } := by
  obtain ⟨minRate, hmin, h⟩ := bind_eq_ok.mp h
  exact ⟨minRate, hmin, (Except.ok.inj h).symm⟩

lemma withRates_rate (validator : Validator) (minRate targetRate : Dec) :
    (withRates validator minRate targetRate).commission.rate = max targetRate minRate := by
  rw [max_def_lt]
  rfl

/-- From `st` to `st'` the commission of a validator was set to the larger of its target and of its
dynamic minimum, and the minimum was stored. -/
def Updated (st st' : State) (operatorAddress : String) (validator : Validator) : Prop :=
  ∃ minRate updated, calculateDynCommission st.params st.staking validator = .ok minRate
    ∧ st'.staking.validators[operatorAddress]? = some updated
    ∧ updated.commission.rate
      = max (st.rates.getTargetCommissionRate operatorAddress) minRate
    ∧ st'.rates.getDynCommissionRate operatorAddress = minRate

/-- What the update leaves alone: the parameters, what the minima are computed from, and the
targets. -/
structure SameTerms (st st' : State) : Prop where
  params : st'.params = st.params
  minCommissionRate : st'.staking.minCommissionRate = st.staking.minCommissionRate
  minimum : ∀ v, calculateDynCommission st'.params st'.staking v
    = calculateDynCommission st.params st.staking v
  targets : ∀ a, st'.rates.getTargetCommissionRate a = st.rates.getTargetCommissionRate a

/-- What is stored about a validator and changed by the update. -/
def State.entry (st : State) (operatorAddress : String) : Option Validator × Dec :=
  (st.staking.validators[operatorAddress]?, st.rates.getDynCommissionRate operatorAddress)

/-- One round keeps the terms and writes under the address of its validator only. -/
lemma SameTerms.round {st cur cur' : State} (h : SameTerms st cur) {e : String × Validator}
    (hkey : e.2.operatorAddress = e.1) (hround : updateIfBonded cur e = .ok cur') :
    SameTerms st cur' ∧ ∀ a, a ≠ e.1 → cur'.entry a = cur.entry a := by
  rw [updateIfBonded] at hround
  split_ifs at hround with hbonded
  · obtain ⟨minRate, hmin, rfl⟩ := updateValidatorMinRates_eq_ok hround
    refine ⟨⟨h.params, h.minCommissionRate, h.minimum, fun a => ?_⟩, fun a ha => ?_⟩
    · rw [RateStore.getTargetCommissionRate_setDynCommissionRate, h.targets]
    · have hne : ¬ e.2.operatorAddress = a := fun heq => ha (hkey ▸ heq.symm)
      rw [State.entry, RateStore.getDynCommissionRate_setDynCommissionRate, if_neg hne]
      exact congrArg₂ Prod.mk ((getElem?_insert_ite _ _ _ _).trans (if_neg hne)) rfl
  · obtain rfl := Except.ok.inj hround
    exact ⟨h, fun _ _ => rfl⟩

/-- What a round leaves under the address of its validator. -/
lemma entry_of_updateIfBonded {st cur cur' : State} (h : SameTerms st cur)
    {e : String × Validator} (hkey : e.2.operatorAddress = e.1) (hbonded : e.2.bonded = true)
    (hround : updateIfBonded cur e = .ok cur') :
    ∃ minRate, calculateDynCommission st.params st.staking e.2 = .ok minRate
      ∧ cur'.entry e.1
        = (some (withRates e.2 minRate (st.rates.getTargetCommissionRate e.1)), minRate) := by
  rw [updateIfBonded, if_pos hbonded] at hround
  obtain ⟨minRate, hmin, rfl⟩ := updateValidatorMinRates_eq_ok hround
  refine ⟨minRate, (h.minimum e.2).symm.trans hmin, ?_⟩
  rw [State.entry, RateStore.getDynCommissionRate_setDynCommissionRate, if_pos hkey, hkey,
    h.targets]
  exact congrArg₂ Prod.mk ((getElem?_insert_ite _ _ _ _).trans (if_pos hkey)) rfl

/-- **The weekly update**, address by address: a bonded validator gets its rates and its minimum,
and everything else stays. -/
theorem updateAllBondedValidatorRates_entry {st st' : State}
    (h : updateAllBondedValidatorRates st = .ok st') :
    SameTerms st st'
    ∧ (∀ (a : String) (v : Validator), st.staking.validators[a]? = some v → v.bonded = true →
      ∃ minRate, calculateDynCommission st.params st.staking v = .ok minRate
        ∧ st'.entry a = (some (withRates v minRate (st.rates.getTargetCommissionRate a)), minRate))
    ∧ ∀ a : String, (∀ v : Validator, st.staking.validators[a]? = some v → v.bonded = false) →
      st'.entry a = st.entry a := by
  have hentry : ∀ {a : String} {v : Validator},
      (a, v) ∈ st.staking.validators.toList ↔ st.staking.validators[a]? = some v :=
    ExtTreeMap.mem_toList_iff_getElem?_eq_some
  have hkeyed : ∀ e ∈ st.staking.validators.toList, e.2.operatorAddress = e.1 :=
    fun e he => st.staking.keyed e.1 e.2 (hentry.mp he)
  obtain ⟨hterms, hvisited, hother⟩ := foldlM_own_key State.entry (SameTerms st)
    (nodup_keys_toList _) h ⟨rfl, rfl, fun _ => rfl, fun _ => rfl⟩
    fun e he _ _ hcur hround => hcur.round (hkeyed e he) hround
  refine ⟨hterms, fun a v hv hbonded => ?_, fun a ha => ?_⟩
  · obtain ⟨c, c', hc, hround, -, hafter⟩ := hvisited (a, v) (hentry.mpr hv)
    obtain ⟨minRate, hmin, hset⟩ :=
      entry_of_updateIfBonded hc (hkeyed _ (hentry.mpr hv)) hbonded hround
    exact ⟨minRate, hmin, hafter.trans hset⟩
  · cases hv : st.staking.validators[a]? with
    | none =>
        refine hother a fun hmem => ?_
        obtain ⟨e, he, rfl⟩ := List.mem_map.mp hmem
        exact absurd ((hentry.mp he).symm.trans hv) (by simp)
    | some v =>
        obtain ⟨c, c', -, hround, hbefore, hafter⟩ := hvisited (a, v) (hentry.mpr hv)
        have hidle : updateIfBonded c (a, v) = .ok c :=
          if_neg (Bool.eq_false_iff.mp (ha v hv))
        rw [hafter, ← Except.ok.inj (hidle.symm.trans hround), hbefore]

/-- **The weekly update** sets the commission of every bonded validator to the larger of the target
stored for its operator address and of the dynamic minimum, stores the minimum, and keeps every
target. -/
theorem updateAllBondedValidatorRates_eq_ok {st st' : State}
    (h : updateAllBondedValidatorRates st = .ok st') :
    (∀ a, st'.rates.getTargetCommissionRate a = st.rates.getTargetCommissionRate a)
      ∧ ∀ (a : String) (v : Validator), st.staking.validators[a]? = some v → v.bonded = true →
        Updated st st' a v := by
  obtain ⟨hterms, hbonded, -⟩ := updateAllBondedValidatorRates_entry h
  refine ⟨hterms.targets, fun a v hv hv' => ?_⟩
  obtain ⟨minRate, hmin, hset⟩ := hbonded a v hv hv'
  exact ⟨minRate, _, hmin, congrArg Prod.fst hset, withRates_rate _ _ _, congrArg Prod.snd hset⟩

/-- The address of an operator. -/
def operatorText : String := "terravaloper1weskc6tyv96x7u3dvykk7e3dw3jhyunpwz6935"

end ColumbusCore.Dyncomm
