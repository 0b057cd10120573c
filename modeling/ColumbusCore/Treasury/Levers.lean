import ColumbusCore.Treasury.EndBlocker
import ColumbusCore.Market.Ledger

/-!
The two levers of the treasury, the tax rate and the reward weight, over whole runs: a genesis
(`x/treasury/types/genesis.go`, `x/treasury/genesis.go`) and blocks, with parameters that do not
change.

Within a block the levers are written by the end of an epoch only. The one other writer in the
application is the upgrade `v10_1`, which sets the tax rate and both ends of its range to zero.

* `PolicyConstraints.Admits`, `PolicyConstraints.clamp_spec`: a clamped rate stays in the range of
  its policy and moves by no more than the largest change;
* `validateGenesis`, `initGenesis`: the check and the loading of a genesis;
* `Transacts`, `Block`, `Reached`: the runs;
* `levers_of_reached`: **in every run the levers stay in range**, the end of an epoch moves them
  within the largest change, and no other block moves them.
-/

namespace ColumbusCore.Treasury

open Go
open Std (ExtTreeMap)

variable {σ : Type}

/-! ### Constraints -/

/-- A rate in the range of its policy. -/
def PolicyConstraints.Admits (pc : PolicyConstraints) (rate : Dec) : Prop :=
  pc.rateMin ≤ rate ∧ rate ≤ pc.rateMax

/-- A move of a rate by no more than the largest change. -/
def PolicyConstraints.AdmitsMove (pc : PolicyConstraints) (prevRate rate : Dec) : Prop :=
  |rate.raw - prevRate.raw| ≤ pc.changeRateMax.raw

lemma PolicyConstraints.AdmitsMove.refl {pc : PolicyConstraints} (h : 0 ≤ pc.changeRateMax.raw)
    (rate : Dec) : pc.AdmitsMove rate rate := by
  rw [AdmitsMove, sub_self, abs_zero]
  exact h

/-- The cut of a move stays within the largest change. -/
lemma PolicyConstraints.cutMove_spec {pc : PolicyConstraints} {prevRate newRate cut : Dec}
    (hmax : 0 ≤ pc.changeRateMax.raw)
    (h : pc.cutMove prevRate newRate ⟨newRate.raw - prevRate.raw⟩ = .ok cut) :
    pc.AdmitsMove prevRate cut := by
  rw [cutMove] at h
  rw [AdmitsMove, abs_le]
  split_ifs at h with hup hfar hfar
  · obtain ⟨-, rfl⟩ := Fixed.checked_eq_ok_iff.mp h
    dsimp only
    omega
  · obtain rfl := Except.ok.inj h
    rw [Fixed.lt_def] at hup hfar
    dsimp only at hfar
    omega
  · obtain ⟨-, rfl⟩ := Fixed.checked_eq_ok_iff.mp h
    dsimp only
    omega
  · obtain rfl := Except.ok.inj h
    exact abs_le.mp (not_lt.mp hfar)

/-- **A clamped rate** is in range, and no further from an admitted rate than the largest
change. -/
lemma PolicyConstraints.clamp_spec {pc : PolicyConstraints} {prevRate newRate rate : Dec}
    (hmax : 0 ≤ pc.changeRateMax.raw) (hprev : pc.Admits prevRate)
    (h : pc.clamp prevRate newRate = .ok rate) : pc.Admits rate ∧ pc.AdmitsMove prevRate rate := by
  obtain ⟨delta, hdelta, h⟩ := bind_eq_ok.mp h
  obtain ⟨-, rfl⟩ := Fixed.checked_eq_ok_iff.mp hdelta
  obtain ⟨cut, hcut, h⟩ := bind_eq_ok.mp h
  obtain rfl := Except.ok.inj h
  have hmove := cutMove_spec hmax hcut
  obtain ⟨hlo, hhi⟩ := hprev
  simp only [Admits, AdmitsMove, abs_le, Fixed.le_def, Fixed.lt_def] at hlo hhi hmove ⊢
  split_ifs <;> omega

/-! ### Parameters -/

/-- What the validation of the parameters admits of the policies. -/
lemma Params.changeRateMax_nonneg {p : Params} (h : p.validate = .ok ()) :
    0 ≤ p.taxPolicy.changeRateMax.raw ∧ 0 ≤ p.rewardPolicy.changeRateMax.raw := by
  simp only [validate, failIf_bind_eq_ok, not_lt] at h
  obtain ⟨-, -, -, htax, -, -, hreward, -⟩ := h
  exact ⟨htax, hreward⟩

/-- `PolicyConstraints.String`, in YAML. -/
def PolicyConstraints.string (pc : PolicyConstraints) : String :=
  "rate_min: \"" ++ decString pc.rateMin ++ "\"\nrate_max: \"" ++ decString pc.rateMax
    ++ "\"\ncap:\n  denom: " ++ pc.cap.1 ++ "\n  amount: \"" ++ toString pc.cap.2
    ++ "\"\nchange_rate_max: \"" ++ decString pc.changeRateMax ++ "\"\n"

/-- `validateTaxPolicy`. -/
def validateTaxPolicy (v : PolicyConstraints) : Outcome Unit := do
  failIf (v.rateMin.raw < 0) ("rate min must be positive: " ++ v.string)
  failIf (v.rateMax < v.rateMin) ("rate max must be bigger than rate min: " ++ v.string)
  failIf (¬ v.cap.isValid) ("cap is invalid: " ++ v.string)
  failIf (v.changeRateMax.raw < 0) ("max change rate must be positive: " ++ v.string)

/-- `validateRewardPolicy`, which does not look at the cap. -/
def validateRewardPolicy (v : PolicyConstraints) : Outcome Unit := do
  failIf (v.rateMin.raw < 0) ("rate min must be positive: " ++ v.string)
  failIf (v.rateMax < v.rateMin) ("rate max must be bigger than rate min: " ++ v.string)
  failIf (v.changeRateMax.raw < 0) ("max change rate must be positive: " ++ v.string)

/-- `validateMinInitialDepositRatio`. -/
def validateMinInitialDepositRatio (v : Dec) : Outcome Unit := do
  failIf (v.raw < 0) ("min initial deposit ratio must be positive: " ++ decString v)
  failIf (Fixed.one < v)
    ("min initial deposit ratio must less than or equal 1.0: " ++ decString v)

/-- The checks of the fields, in the order of `ParamSetPairs`; any window passes. -/
def Params.validatePairs (p : Params) : Outcome Unit := do
  validateTaxPolicy p.taxPolicy
  validateRewardPolicy p.rewardPolicy
  failIf (p.seigniorageBurdenTarget.raw < 0)
    ("seigniorage burden target must be positive: " ++ decString p.seigniorageBurdenTarget)
  failIf (p.miningIncrement.raw < 0)
    ("mining increment must be positive: " ++ decString p.miningIncrement)
  validateBurnTaxSplit p.burnTaxSplit
  validateMinInitialDepositRatio p.minInitialDepositRatio
  validateOraceSplit p.oracleSplit

/-- `SetParams`: a value that is refused is a panic. -/
def setParams (st : State σ) (p : Params) : Outcome (State σ) := do
  panicOnError "value from ParamSetPair is invalid: " p.validatePairs
  pure { st with store := { st.store with params := p } }

lemma setParams_eq_ok_iff {st st' : State σ} {p : Params} :
    setParams st p = .ok st' ↔ p.validatePairs = .ok ()
      ∧ st' = { st with store := { st.store with params := p } } := by
  rw [setParams, unit_bind_eq_ok, panicOnError_eq_ok, pure_eq_ok, Except.ok.injEq, @eq_comm _ st']

/-! ### Genesis -/

/-- `EpochState`. -/
structure EpochState where
  epoch : UInt64
  taxReward : Dec
  seigniorageReward : Dec
  totalStakedLuna : ℤ

/-- `GenesisState`. -/
structure GenesisState where
  params : Params
  taxRate : Dec
  rewardWeight : Dec
  taxCaps : List (Denom × ℤ)
  taxProceeds : Coins
  epochInitialIssuance : Coins
  epochStates : List EpochState

/-- `DefaultGenesisState`. -/
def defaultGenesisState : GenesisState where
  params := defaultParams
  taxRate := defaultTaxRate
  rewardWeight := defaultRewardWeight
  taxCaps := []
  taxProceeds := ∅
  epochInitialIssuance := ∅
  epochStates := []

/-- `ValidateGenesis`. -/
def validateGenesis (data : GenesisState) : Outcome Unit := do
  failIf (data.taxRate < data.params.taxPolicy.rateMin
      ∨ data.params.taxPolicy.rateMax < data.taxRate)
    ("tax_rate must less than RateMax(" ++ decString data.params.taxPolicy.rateMax
      ++ ") and bigger than RateMin(" ++ decString data.params.taxPolicy.rateMin ++ ")")
  failIf (data.rewardWeight < data.params.rewardPolicy.rateMin
      ∨ data.params.rewardPolicy.rateMax < data.rewardWeight)
    ("reward_weight must less than WeightMax(" ++ decString data.params.rewardPolicy.rateMax
      ++ ") and bigger than RateMin(" ++ decString data.params.rewardPolicy.rateMin ++ ")")
  data.params.validate

/-- The indicators of one epoch of a genesis. -/
def State.setEpochState (st : State σ) (e : EpochState) : State σ :=
  { st with
    tr := st.tr.insert e.epoch.toNat e.taxReward
    sr := st.sr.insert e.epoch.toNat e.seigniorageReward
    tsl := st.tsl.insert e.epoch.toNat e.totalStakedLuna }

/-- `InitGenesis`, into an empty store and next to the other modules. -/
def initGenesis (K : Keepers σ) (oracle : Oracle.Store) (ext : σ) (data : GenesisState) :
    Outcome (State σ) := do
  let st ← setParams ⟨⟨data.params, ∅, ∅⟩, none, none, ∅, ∅, ∅, ∅, oracle, ext⟩ data.params
  let st := { st with
    taxRate := some data.taxRate
    rewardWeight := some data.rewardWeight
    store := { st.store with epochTaxProceeds := data.taxProceeds } }
  let st := if data.epochInitialIssuance.IsZero then recordEpochInitialIssuance K st
    else { st with epochInitialIssuance := data.epochInitialIssuance }
  let taxCaps := data.taxCaps.foldl (fun taxCaps c => taxCaps.insert c.1 c.2) st.store.taxCaps
  let st := { st with store := { st.store with taxCaps := taxCaps } }
  pure (data.epochStates.foldl State.setEpochState st)

/-- The issuance that the supply gives: luna and the denoms of the whitelist. -/
def supplyIssuance (K : Keepers σ) (oracle : Oracle.Store) (ext : σ) : Coins :=
  (Market.microLunaDenom :: oracle.params.whitelist.map (·.name)).foldl
    (fun issuance denom => issuance.setAmount denom (K.getSupply ext denom)) ∅

/-- The state of a genesis before its epochs. -/
def GenesisState.loaded (data : GenesisState) (K : Keepers σ) (oracle : Oracle.Store) (ext : σ) :
    State σ where
  store := ⟨data.params, storeEntries data.taxCaps, data.taxProceeds⟩
  taxRate := some data.taxRate
  rewardWeight := some data.rewardWeight
  epochInitialIssuance := if data.epochInitialIssuance.IsZero then supplyIssuance K oracle ext
    else data.epochInitialIssuance
  tr := ∅
  sr := ∅
  tsl := ∅
  oracle := oracle
  ext := ext

lemma initGenesis_eq_ok_iff {K : Keepers σ} {oracle : Oracle.Store} {ext : σ} {data : GenesisState}
    {st : State σ} : initGenesis K oracle ext data = .ok st
      ↔ data.params.validatePairs = .ok ()
        ∧ st = data.epochStates.foldl State.setEpochState (data.loaded K oracle ext) := by
  simp only [initGenesis, bind_eq_ok, setParams_eq_ok_iff, pure_eq_ok, Except.ok.injEq]
  constructor
  · rintro ⟨_, ⟨hvalid, rfl⟩, rfl⟩
    refine ⟨hvalid, ?_⟩
    rw [GenesisState.loaded]
    split_ifs <;> rfl
  · rintro ⟨hvalid, rfl⟩
    refine ⟨_, ⟨hvalid, rfl⟩, ?_⟩
    rw [GenesisState.loaded]
    split_ifs <;> rfl

/-! ### Runs -/

/-- What changes the state between two ends of blocks: taxes are recorded, the other modules
move, and a node may run the upgrade `v10_1`. -/
inductive Op (σ : Type) where
  | recordEpochTaxProceeds (delta : Coins)
  | outside (oracle : Oracle.Store) (ext : σ)
  | upgrade

/-- The treasury part of `CreateV101UpgradeHandler`. -/
def upgradeV101 (st : State σ) : Outcome (State σ) :=
  let params := st.store.params
  setParams { st with taxRate := some 0 }
    { params with taxPolicy := { params.taxPolicy with rateMax := 0, rateMin := 0 } }

/-- The state after a change. -/
def Op.apply (st : State σ) : Op σ → Outcome (State σ)
  | .recordEpochTaxProceeds delta =>
      pure { st with store := st.store.recordEpochTaxProceeds delta }
  | .outside oracle ext => pure { st with oracle := oracle, ext := ext }
  | .upgrade => upgradeV101 st

/-- Changes one after the other, none of which changes the parameters. -/
inductive Transacts (p : Params) (st : State σ) : State σ → Prop where
  | refl : Transacts p st st
  | op {mid st' : State σ} (op : Op σ) : Transacts p st mid → op.apply mid = .ok st' →
      st'.store.params = p → Transacts p st st'

/-- A block that completes. -/
def Block (K : Keepers σ) (p : Params) (height : ℕ) (st st' : State σ) : Prop :=
  ∃ mid, Transacts p st mid ∧ endBlocker K height mid = .ok st'

/-- The states between the blocks of a run with the parameters `p`. -/
inductive Reached (K : Keepers σ) (p : Params) : State σ → Prop where
  | genesis {oracle : Oracle.Store} {ext : σ} {data : GenesisState} {st : State σ} :
      data.params = p → validateGenesis data = .ok () → initGenesis K oracle ext data = .ok st →
      Reached K p st
  | block {height : ℕ} {st st' : State σ} : Reached K p st → Block K p height st st' →
      Reached K p st'

/-- The parameters are `p`, and the levers are in the ranges of their policies. -/
structure InRange (p : Params) (st : State σ) : Prop where
  params : st.store.params = p
  taxRate : p.taxPolicy.Admits st.getTaxRate
  rewardWeight : p.rewardPolicy.Admits st.getRewardWeight

/-- Both levers are where they were. -/
def SameLevers (st st' : State σ) : Prop :=
  st'.getTaxRate = st.getTaxRate ∧ st'.getRewardWeight = st.getRewardWeight

/-- Both levers moved by no more than the largest change. -/
def LeversWithin (p : Params) (st st' : State σ) : Prop :=
  p.taxPolicy.AdmitsMove st.getTaxRate st'.getTaxRate
    ∧ p.rewardPolicy.AdmitsMove st.getRewardWeight st'.getRewardWeight

section Levers

variable {K : Keepers σ} {p : Params} {st st' mid : State σ} {height : ℕ}

lemma InRange.of_same (h : InRange p st) (hparams : st'.store.params = p)
    (hsame : SameLevers st st') : InRange p st' where
  params := hparams
  taxRate := hsame.1 ▸ h.taxRate
  rewardWeight := hsame.2 ▸ h.rewardWeight

/-- A change that leaves the parameters leaves the levers. The upgrade empties the range of the
tax rate: where that changes nothing, the rate was zero before. -/
lemma Op.sameLevers (hst : InRange p st) {op : Op σ} (h : op.apply st = .ok st')
    (hparams : st'.store.params = p) : SameLevers st st' := by
  cases op with
  | recordEpochTaxProceeds delta =>
      obtain rfl := Except.ok.inj h
      exact ⟨rfl, rfl⟩
  | outside oracle ext =>
      obtain rfl := Except.ok.inj h
      exact ⟨rfl, rfl⟩
  | upgrade =>
      obtain ⟨-, rfl⟩ := setParams_eq_ok_iff.mp h
      refine ⟨?_, rfl⟩
      have hmin : p.taxPolicy.rateMin = 0 := by rw [← hparams]
      have hmax : p.taxPolicy.rateMax = 0 := by rw [← hparams]
      obtain ⟨hlo, hhi⟩ := hst.taxRate
      rw [hmin] at hlo
      rw [hmax] at hhi
      exact le_antisymm hlo hhi

lemma Transacts.inRange (hst : InRange p st) (h : Transacts p st mid) :
    InRange p mid ∧ SameLevers st mid := by
  induction h with
  | refl => exact ⟨hst, rfl, rfl⟩
  | op op _ hop hparams ih =>
      obtain ⟨hmid, hsame⟩ := ih
      have hstep := op.sameLevers hmid hop hparams
      exact ⟨hmid.of_same hparams hstep, hstep.1.trans hsame.1, hstep.2.trans hsame.2⟩

/-- The updates of the policies keep the levers in range and move them within the largest
change. -/
lemma updatePolicies_levers (hp : p.validate = .ok ()) (hst : InRange p st)
    (h : updatePolicies height st = .ok st') : InRange p st' ∧ LeversWithin p st st' := by
  obtain ⟨htax, hreward⟩ := p.changeRateMax_nonneg hp
  obtain ⟨rfl, hrate, hweight⟩ := hst
  rw [updatePolicies] at h
  split_ifs at h
  · obtain rfl := Except.ok.inj h
    exact ⟨⟨rfl, hrate, hweight⟩, .refl htax _, .refl hreward _⟩
  · obtain ⟨st₁, h₁, h⟩ := bind_eq_ok.mp h
    obtain ⟨st₂, h₂, h₃⟩ := bind_eq_ok.mp h
    obtain ⟨_, rate, hclamp, rfl⟩ := updateTaxPolicy_eq_ok h₁
    obtain ⟨_, weight, hclamp', rfl⟩ := updateRewardPolicy_eq_ok h₂
    obtain ⟨taxCaps, rfl⟩ := updateTaxCap_eq_ok h₃
    obtain ⟨hrate', hmove⟩ := PolicyConstraints.clamp_spec htax hrate hclamp
    obtain ⟨hweight', hmove'⟩ := PolicyConstraints.clamp_spec hreward hweight hclamp'
    exact ⟨⟨rfl, hrate', hweight'⟩, hmove, hmove'⟩

/-- The end of an epoch. -/
lemma closeEpoch_levers (hp : p.validate = .ok ()) (hst : InRange p st)
    (h : closeEpoch K height st = .ok st') : InRange p st' ∧ LeversWithin p st st' := by
  obtain ⟨st₁, h₁, h⟩ := bind_eq_ok.mp h
  obtain ⟨st₂, h₂, h⟩ := bind_eq_ok.mp h
  obtain rfl := Except.ok.inj h
  obtain ⟨tr, sr, -, -, rfl⟩ := updateIndicators_eq_ok h₁
  have hst₁ : InRange p (withIndicators K height st tr sr) :=
    ⟨hst.params, hst.taxRate, hst.rewardWeight⟩
  obtain ⟨⟨hparams, hrate, hweight⟩, hmoves⟩ := updatePolicies_levers hp hst₁ h₂
  exact ⟨⟨hparams, hrate, hweight⟩, hmoves⟩

/-- **The end of a block** keeps the levers in range; the last block of an epoch moves them within
the largest change, another block leaves them. -/
lemma endBlocker_levers (hp : p.validate = .ok ()) (hst : InRange p st)
    (h : endBlocker K height st = .ok st') :
    InRange p st' ∧ (Oracle.IsPeriodLast height blocksPerWeek → LeversWithin p st st')
      ∧ (¬ Oracle.IsPeriodLast height blocksPerWeek → SameLevers st st') := by
  by_cases hlast : Oracle.IsPeriodLast height blocksPerWeek
  · rw [endBlocker_of_last hlast] at h
    obtain ⟨st₁, h₁, h⟩ := bind_eq_ok.mp h
    obtain ⟨ext, rfl⟩ := burnCoinsFromBurnAccount_eq_ok h₁
    have hst₁ : InRange p { st with ext := ext } := ⟨hst.params, hst.taxRate, hst.rewardWeight⟩
    obtain ⟨hst', hmoves⟩ := closeEpoch_levers hp hst₁ h
    exact ⟨hst', fun _ => hmoves, fun hno => absurd hlast hno⟩
  · rw [endBlocker_of_not_last hlast] at h
    obtain ⟨ext, rfl⟩ := burnCoinsFromBurnAccount_eq_ok h
    exact ⟨⟨hst.params, hst.taxRate, hst.rewardWeight⟩, fun hyes => absurd hyes hlast,
      fun _ => ⟨rfl, rfl⟩⟩

/-- The epochs of a genesis are no part of the store, the levers or the issuance. -/
lemma foldl_setEpochState (epochStates : List EpochState) (st : State σ) :
    (epochStates.foldl State.setEpochState st).store = st.store
      ∧ SameLevers st (epochStates.foldl State.setEpochState st)
      ∧ (epochStates.foldl State.setEpochState st).epochInitialIssuance
          = st.epochInitialIssuance := by
  induction epochStates generalizing st with
  | nil => exact ⟨rfl, ⟨rfl, rfl⟩, rfl⟩
  | cons e epochStates ih => exact ih (st.setEpochState e)

/-- A genesis that passes its validation starts with the levers in range. -/
lemma inRange_of_initGenesis {oracle : Oracle.Store} {ext : σ} {data : GenesisState}
    (hvalid : validateGenesis data = .ok ()) (h : initGenesis K oracle ext data = .ok st) :
    InRange data.params st ∧ data.params.validate = .ok () := by
  simp only [validateGenesis, failIf_bind_eq_ok, not_or, not_lt] at hvalid
  obtain ⟨hrate, hweight, hparams⟩ := hvalid
  obtain ⟨-, rfl⟩ := initGenesis_eq_ok_iff.mp h
  obtain ⟨hstore, hsame, -⟩ := foldl_setEpochState data.epochStates (data.loaded K oracle ext)
  have hloaded : InRange data.params (data.loaded K oracle ext) := ⟨rfl, hrate, hweight⟩
  exact ⟨hloaded.of_same (by rw [hstore, hloaded.params]) hsame, hparams⟩

/-- Between blocks the levers are in range, and the parameters are those a genesis was validated
with. -/
lemma Reached.inRange (h : Reached K p st) : InRange p st ∧ p.validate = .ok () := by
  induction h with
  | genesis hparams hvalid hinit => exact hparams ▸ inRange_of_initGenesis hvalid hinit
  | block _ hblock ih =>
      obtain ⟨hst, hp⟩ := ih
      obtain ⟨mid, hmid, hend⟩ := hblock
      exact ⟨(endBlocker_levers hp (hmid.inRange hst).1 hend).1, hp⟩

/-- **The levers stay in bounds**: in every run from a validated genesis with fixed parameters, the
tax rate and the reward weight lie in the ranges of their policies, the block that ends an epoch
moves each by no more than its largest change, and no other block moves them. -/
theorem levers_of_reached (h : Reached K p st) :
    p.taxPolicy.Admits st.getTaxRate ∧ p.rewardPolicy.Admits st.getRewardWeight
      ∧ ∀ height st', Block K p height st st' →
        (Oracle.IsPeriodLast height blocksPerWeek → LeversWithin p st st')
          ∧ (¬ Oracle.IsPeriodLast height blocksPerWeek → SameLevers st st') := by
  obtain ⟨hst, hp⟩ := h.inRange
  refine ⟨hst.taxRate, hst.rewardWeight, fun height st' hblock => ?_⟩
  obtain ⟨mid, hmid, hend⟩ := hblock
  obtain ⟨hrange, hsame⟩ := hmid.inRange hst
  obtain ⟨-, hmove, hstay⟩ := endBlocker_levers hp hrange hend
  refine ⟨fun hlast => ?_, fun hno => ?_⟩
  · have hmoved := hmove hlast
    rw [LeversWithin, hsame.1, hsame.2] at hmoved
    exact hmoved
  · exact ⟨(hstay hno).1.trans hsame.1, (hstay hno).2.trans hsame.2⟩

/-- Modules that hold and move nothing. -/
def Keepers.idle : Keepers Unit where
  burnAccountBalances _ := ∅
  burnCoins s _ _ := .ok s
  getSupply _ _ := 0
  totalBondedTokens _ := 0

/-- From the default genesis, the first end of an epoch after the probation finds no revenues and
moves both levers up by their largest changes. -/
theorem levers_of_default_genesis :
    ∃ st st', Reached Keepers.idle defaultParams st
      ∧ Block Keepers.idle defaultParams 1310399 st st'
      ∧ Oracle.IsPeriodLast 1310399 blocksPerWeek ∧ ¬ OnProbation 1310399 defaultParams
      ∧ st'.getTaxRate = newDecWithPrec 125 5 ∧ st'.getRewardWeight = newDecWithPrec 75 3
      ∧ defaultParams.taxPolicy.Admits st.getTaxRate ∧ LeversWithin defaultParams st st' := by
  obtain ⟨st, hst, hnext⟩ := exists_of_returns
    (p := fun st : State Unit => returns (fun st' => decide (st'.getTaxRate = newDecWithPrec 125 5
      ∧ st'.getRewardWeight = newDecWithPrec 75 3)) (endBlocker Keepers.idle 1310399 st))
    (x := initGenesis Keepers.idle (Market.ratesStore ∅) () defaultGenesisState)
    (by decide +kernel)
  obtain ⟨st', hst', hlevers⟩ := exists_of_returns hnext
  obtain ⟨hrate, hweight⟩ := of_decide_eq_true hlevers
  have hreached : Reached Keepers.idle defaultParams st := .genesis rfl (by decide +kernel) hst
  have hblock : Block Keepers.idle defaultParams 1310399 st st' := ⟨st, .refl, hst'⟩
  have hlast : Oracle.IsPeriodLast 1310399 blocksPerWeek := by decide
  obtain ⟨hadmits, -, hblocks⟩ := levers_of_reached hreached
  exact ⟨st, st', hreached, hblock, hlast, by decide, hrate, hweight, hadmits,
    (hblocks _ _ hblock).1 hlast⟩

end Levers

end ColumbusCore.Treasury
