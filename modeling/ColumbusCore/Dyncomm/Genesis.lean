import ColumbusCore.Dyncomm.Keeper

/-!
The genesis of the dynamic commission (`x/dyncomm/genesis.go`).

The export lists the rates that are stored. The import does not read them: it takes the commission
of every validator of the staking module as its target and runs the weekly update.

* `initGenesis`, `exportGenesis`: the code;
* `updateAllBondedValidatorRates_isOk_iff`: the update completes when the minimum of every bonded
  validator can be computed;
* `initGenesis_eq_ok`: **what the import stores**;
* `restored_iff`: **which states an export and an import restore**;
* `lifted_not_restored`: a validator lifted to its minimum does not fall back to its target.
-/

namespace ColumbusCore.Dyncomm

open Go
open Std (ExtTreeMap)

/-! ### The code -/

/-- The checks of `ParamSetPairs`, in its order. -/
def Params.validatePairs (p : Params) : Outcome Unit := do
  failIf (p.maxZero.raw < 0) ("max zero shall be 0 or positive: " ++ decString p.maxZero)
  failIf (Fixed.one < p.maxZero) ("max zero shall be less than 1.0: " ++ decString p.maxZero)
  failIf (p.slopeBase.raw < 0) ("slope base must be positive or Zero: " ++ decString p.slopeBase)
  failIf (¬ p.slopeVpImpact.IsPositive)
    ("slope vp impact must be positive: " ++ decString p.slopeVpImpact)
  failIf (p.cap.raw < 0) ("cap shall be 0 or positive: " ++ decString p.cap)
  failIf (Fixed.one < p.cap) ("cap shall be less than 1.0: " ++ decString p.cap)

/-- `SetParams`: a value that is refused is a panic. -/
def setParams (p : Params) : Outcome Params := do
  panicOnError "value from ParamSetPair is invalid: " p.validatePairs
  pure p

/-- `GenesisState`. -/
structure GenesisState where
  params : Params
  validatorCommissionRates : List ValidatorCommissionRate

/-- The loop of the import: the commission of every validator becomes its target. -/
def setTargets (rates : RateStore) (staking : Staking) : RateStore :=
  staking.validators.toList.foldl (fun rates e =>
    rates.setTargetCommissionRate e.2.operatorAddress e.2.commission.rate) rates

/-- `InitGenesis`, into an empty store and next to a staking module. -/
def initGenesis (staking : Staking) (data : GenesisState) : Outcome State := do
  let params ← setParams data.params
  updateAllBondedValidatorRates ⟨params, setTargets ∅ staking, staking⟩

/-- `ExportGenesis`. -/
def exportGenesis (st : State) : GenesisState where
  params := st.params
  validatorCommissionRates := st.rates.toList.map Prod.snd

/-! ### The parameters -/

/-- The two validations accept the same parameters. -/
lemma validatePairs_eq_ok_iff {p : Params} : p.validatePairs = .ok () ↔ p.validate = .ok () := by
  simp only [Params.validatePairs, Params.validate, failIf_bind_eq_ok, failIf_eq_ok]
  tauto

lemma setParams_eq_ok_iff {p p' : Params} :
    setParams p = .ok p' ↔ p.validate = .ok () ∧ p' = p := by
  rw [setParams, unit_bind_eq_ok, panicOnError_eq_ok, validatePairs_eq_ok_iff, pure_eq_ok,
    Except.ok.injEq, eq_comm (a := p)]

/-! ### The import -/

/-- The targets are the commissions of the validators. -/
lemma getTargetCommissionRate_setTargets {staking : Staking} {a : String} {v : Validator}
    (hv : staking.validators[a]? = some v) (rates : RateStore) :
    (setTargets rates staking).getTargetCommissionRate a = v.commission.rate := by
  have hmem : (a, v) ∈ staking.validators.toList :=
    ExtTreeMap.mem_toList_iff_getElem?_eq_some.mpr hv
  have hloop := foldl_induction
    (f := fun rates (e : String × Validator) =>
      RateStore.setTargetCommissionRate rates e.2.operatorAddress e.2.commission.rate)
    (fun pre cur => (a, v) ∈ pre → RateStore.getTargetCommissionRate cur a = v.commission.rate)
    (l := staking.validators.toList) (b := rates) (fun h => absurd h List.not_mem_nil) ?_
  · exact hloop hmem
  · intro pre e post cur hl hcur hin
    have he : staking.validators[e.1]? = some e.2 := by
      refine ExtTreeMap.mem_toList_iff_getElem?_eq_some.mp ?_
      rw [hl]
      simp
    rw [RateStore.getTargetCommissionRate_setTargetCommissionRate, staking.keyed e.1 e.2 he]
    split_ifs with ha
    · rw [ha, hv] at he
      rw [Option.some.inj he]
    · refine hcur ((List.mem_append.mp hin).resolve_right fun h => ha ?_)
      rw [← List.mem_singleton.mp h]

/-- Nothing is stored under other texts. -/
lemma getTargetCommissionRate_setTargets_of_none {staking : Staking} {a : String}
    (ha : staking.validators[a]? = none) (rates : RateStore) :
    (setTargets rates staking).getTargetCommissionRate a = rates.getTargetCommissionRate a := by
  refine List.foldlRecOn (motive := fun cur => RateStore.getTargetCommissionRate cur a
    = rates.getTargetCommissionRate a) staking.validators.toList _ rfl fun cur hcur e he => ?_
  have hentry : staking.validators[e.1]? = some e.2 :=
    ExtTreeMap.mem_toList_iff_getElem?_eq_some.mp he
  rw [RateStore.getTargetCommissionRate_setTargetCommissionRate, staking.keyed e.1 e.2 hentry,
    if_neg, hcur]
  rintro rfl
  exact absurd (hentry.symm.trans ha) (by simp)

/-- No minimum is stored by this loop. -/
lemma getDynCommissionRate_setTargets (staking : Staking) (rates : RateStore) (a : String) :
    (setTargets rates staking).getDynCommissionRate a = rates.getDynCommissionRate a :=
  List.foldlRecOn (motive := fun cur => RateStore.getDynCommissionRate cur a
    = rates.getDynCommissionRate a) staking.validators.toList _ rfl fun cur hcur e _ => by
      rw [RateStore.getDynCommissionRate_setTargetCommissionRate, hcur]

/-- The update completes exactly when the minimum of every bonded validator can be computed. -/
lemma updateAllBondedValidatorRates_isOk_iff {st : State} :
    (∃ st', updateAllBondedValidatorRates st = .ok st')
      ↔ ∀ (a : String) (v : Validator), st.staking.validators[a]? = some v → v.bonded = true →
        ∃ minRate, calculateDynCommission st.params st.staking v = .ok minRate := by
  constructor
  · rintro ⟨st', h⟩ a v hv hbonded
    obtain ⟨minRate, hmin, -⟩ := (updateAllBondedValidatorRates_entry h).2.1 a v hv hbonded
    exact ⟨minRate, hmin⟩
  · intro hmin
    cases hrun : updateAllBondedValidatorRates st with
    | ok st' => exact ⟨st', rfl⟩
    | error err =>
        have hentry : ∀ e ∈ st.staking.validators.toList, st.staking.validators[e.1]? = some e.2 :=
          fun e he => ExtTreeMap.mem_toList_iff_getElem?_eq_some.mp he
        refine absurd hrun (foldlM_ne_error (SameTerms st)
          ⟨rfl, rfl, fun _ => rfl, fun _ => rfl⟩ ?_ ?_)
        · intro e he cur cur' hcur hround
          exact (hcur.round (st.staking.keyed e.1 e.2 (hentry e he)) hround).1
        · intro e he cur hcur hround
          rw [updateIfBonded] at hround
          split_ifs at hround with hbonded
          · obtain ⟨minRate, hrate⟩ := hmin e.1 e.2 (hentry e he) hbonded
            rw [updateValidatorMinRates, hcur.minimum, hrate] at hround
            exact absurd hround (by simp)
          · exact absurd hround (by simp)

/-- **The import**, next to a staking module and with parameters that are valid: it completes when
every minimum can be computed, the targets are the commissions the validators have, and a minimum
is stored for the bonded ones. -/
theorem initGenesis_eq_ok {staking : Staking} {data : GenesisState} {st : State}
    (h : initGenesis staking data = .ok st) :
    data.params.validate = .ok ()
    ∧ updateAllBondedValidatorRates ⟨data.params, setTargets ∅ staking, staking⟩ = .ok st
    ∧ ∀ (a : String) (v : Validator), staking.validators[a]? = some v →
      st.rates.getTargetCommissionRate a = v.commission.rate
      ∧ (v.bonded = true →
        calculateDynCommission data.params staking v = .ok (st.rates.getDynCommissionRate a))
      ∧ (v.bonded = false → st.rates.getDynCommissionRate a = 0) := by
  obtain ⟨params, hparams, h⟩ := bind_eq_ok.mp h
  obtain ⟨hvalid, rfl⟩ := setParams_eq_ok_iff.mp hparams
  obtain ⟨hterms, hset, hkept⟩ := updateAllBondedValidatorRates_entry h
  refine ⟨hvalid, h, fun a v hv => ⟨?_, fun hbonded => ?_, fun hidle => ?_⟩⟩
  · rw [hterms.targets, getTargetCommissionRate_setTargets hv]
  · obtain ⟨minRate, hmin, hentry⟩ := hset a v hv hbonded
    rw [show st.rates.getDynCommissionRate a = minRate from congrArg Prod.snd hentry]
    exact hmin
  · have hentry := hkept a fun w hw => Option.some.inj (hv.symm.trans hw) ▸ hidle
    calc st.rates.getDynCommissionRate a
        = (setTargets ∅ staking).getDynCommissionRate a := congrArg Prod.snd hentry
      _ = (∅ : RateStore).getDynCommissionRate a := getDynCommissionRate_setTargets _ _ _
      _ = 0 := by simp [RateStore.getDynCommissionRate]

/-! ### The round trip -/

/-- The target and the minimum of every validator are those of the state `st`. -/
def Restored (st st' : State) : Prop :=
  ∀ (a : String) (v : Validator), st.staking.validators[a]? = some v →
    st'.rates.getTargetCommissionRate a = st.rates.getTargetCommissionRate a
    ∧ st'.rates.getDynCommissionRate a = st.rates.getDynCommissionRate a

/-- **The round trip.** The import of what was exported, next to the same staking module, completes
and restores the rates exactly when the target of every validator is the commission it has, the
minimum stored for a bonded validator is that of its present share of the power, and none is stored
for the others. -/
theorem restored_iff (st : State) (hvalid : st.params.validate = .ok ()) :
    (∃ st', initGenesis st.staking (exportGenesis st) = .ok st' ∧ Restored st st')
      ↔ ∀ (a : String) (v : Validator), st.staking.validators[a]? = some v →
        st.rates.getTargetCommissionRate a = v.commission.rate
        ∧ (v.bonded = true →
          calculateDynCommission st.params st.staking v = .ok (st.rates.getDynCommissionRate a))
        ∧ (v.bonded = false → st.rates.getDynCommissionRate a = 0) := by
  constructor
  · rintro ⟨st', himport, hrestored⟩ a v hv
    obtain ⟨-, -, hstored⟩ := initGenesis_eq_ok himport
    obtain ⟨htarget, hmin⟩ := hrestored a v hv
    rw [← htarget, ← hmin]
    exact hstored a v hv
  · intro hst
    have hruns : ∃ st', initGenesis st.staking (exportGenesis st) = .ok st' := by
      obtain ⟨st', hupdate⟩ : ∃ st', updateAllBondedValidatorRates
          ⟨st.params, setTargets ∅ st.staking, st.staking⟩ = .ok st' :=
        updateAllBondedValidatorRates_isOk_iff.mpr
          fun a v hv hbonded => ⟨_, (hst a v hv).2.1 hbonded⟩
      exact ⟨st', bind_eq_ok.mpr ⟨_, setParams_eq_ok_iff.mpr ⟨hvalid, rfl⟩, hupdate⟩⟩
    obtain ⟨st', himport⟩ := hruns
    refine ⟨st', himport, fun a v hv => ?_⟩
    obtain ⟨htarget, hbonded, hidle⟩ := (initGenesis_eq_ok himport).2.2 a v hv
    refine ⟨htarget.trans (hst a v hv).1.symm, ?_⟩
    cases hb : v.bonded with
    | true => exact Except.ok.inj ((hbonded hb).symm.trans ((hst a v hv).2.1 hb))
    | false => exact (hidle hb).trans ((hst a v hv).2.2 hb).symm

/-! ### A validator lifted to its minimum -/

/-- A validator with four percent of the voting power and a commission of five percent. -/
def fourPercentValidator : Validator where
  operatorAddress := operatorText
  bonded := true
  tokens := 4000000
  commission := ⟨newDecWithPrec 5 2, newDecWithPrec 50 2, newDecWithPrec 50 2, 0⟩

/-- The staking module of one validator, where the total power is a hundred. -/
def soleStaking (validator : Validator) : Staking :=
  Staking.setValidator ⟨0, 100, 1000000, ∅, keyed_empty⟩ validator

/-- The state with other tokens of a validator. -/
def State.withTokens (st : State) (operatorAddress : String) (tokens : ℤ) : State :=
  match st.staking.validators[operatorAddress]? with
  | none => st
  | some v => { st with staking := st.staking.setValidator { v with tokens := tokens } }

/-- The commission of a validator. -/
def State.commissionRate (st : State) (operatorAddress : String) : Option Dec :=
  st.staking.validators[operatorAddress]?.map fun v => v.commission.rate

/-- The genesis lifts the validator from five to 8.4 percent, its minimum. Exported and imported
again, this is its target, and when the share of the validator drops to one percent the commission
stays there, where without the export it returns to five percent. -/
theorem lifted_not_restored :
    ∃ st st', initGenesis (soleStaking fourPercentValidator) ⟨defaultParams, []⟩ = .ok st
      ∧ initGenesis st.staking (exportGenesis st) = .ok st'
      ∧ st.rates.getTargetCommissionRate operatorText = newDecWithPrec 5 2
      ∧ st'.rates.getTargetCommissionRate operatorText = newDecWithPrec 84 3
      ∧ ¬ Restored st st'
      ∧ ∃ later later',
        updateAllBondedValidatorRates (st.withTokens operatorText 1000000) = .ok later
        ∧ updateAllBondedValidatorRates (st'.withTokens operatorText 1000000) = .ok later'
        ∧ later.commissionRate operatorText = some (newDecWithPrec 5 2)
        ∧ later'.commissionRate operatorText = some (newDecWithPrec 84 3) := by
  obtain ⟨st, hst, h⟩ := exists_of_returns
    (p := fun st : State => returns (fun st' : State =>
      decide (st.rates.getTargetCommissionRate operatorText = newDecWithPrec 5 2)
      && decide (st'.rates.getTargetCommissionRate operatorText = newDecWithPrec 84 3)
      && st.staking.validators[operatorText]?.isSome
      && returns (fun later => later.commissionRate operatorText = some (newDecWithPrec 5 2))
        (updateAllBondedValidatorRates (st.withTokens operatorText 1000000))
      && returns (fun later => later.commissionRate operatorText = some (newDecWithPrec 84 3))
        (updateAllBondedValidatorRates (st'.withTokens operatorText 1000000)))
      (initGenesis st.staking (exportGenesis st)))
    (x := initGenesis (soleStaking fourPercentValidator) ⟨defaultParams, []⟩) (by decide +kernel)
  obtain ⟨st', hst', h⟩ := exists_of_returns h
  simp only [Bool.and_eq_true, decide_eq_true_eq] at h
  obtain ⟨⟨⟨⟨htarget, htarget'⟩, hvalidator⟩, hlater⟩, hlater'⟩ := h
  obtain ⟨later, hrun, hrate⟩ := exists_of_returns hlater
  obtain ⟨later', hrun', hrate'⟩ := exists_of_returns hlater'
  refine ⟨st, st', hst, hst', htarget, htarget', fun hrestored => ?_, later, later', hrun, hrun',
    of_decide_eq_true hrate, of_decide_eq_true hrate'⟩
  obtain ⟨v, hv⟩ := Option.isSome_iff_exists.mp hvalidator
  have hsame := (hrestored _ v hv).1
  rw [htarget, htarget'] at hsame
  exact absurd hsame (by decide)

/-- The validator with one percent of the voting power, below which its commission is not lifted. -/
def unliftedState : State where
  params := defaultParams
  rates := (∅ : RateStore).insert operatorText
    ⟨operatorText, newDecWithPrec 105 4, newDecWithPrec 5 2⟩
  staking := soleStaking { fourPercentValidator with tokens := 1000000 }

/-- It is restored. -/
theorem unliftedState_restored :
    ∃ st', initGenesis unliftedState.staking (exportGenesis unliftedState) = .ok st'
      ∧ Restored unliftedState st' := by
  refine (restored_iff unliftedState rfl).mpr fun a v hv => ?_
  rw [unliftedState, soleStaking, Staking.setValidator, getElem?_insert_ite] at hv
  split_ifs at hv with ha
  · obtain rfl := ha
    obtain rfl := Option.some.inj hv
    exact ⟨by decide +kernel, fun _ => by decide +kernel, fun h => absurd h (by decide)⟩
  · exact absurd hv (by simp)

end ColumbusCore.Dyncomm
