import ColumbusCore.Sdk

/-!
The voting-power limit (`custom/staking/hook.go`): on `columbus-5` a staking hook refuses a
modified delegation to a validator with more than a fifth of the total power.

The hook looks at the tokens the validator has at the time of the call and at nothing else. The
staking keeper calls it when a delegation was raised, with the tokens raised, and when a delegation
was lowered but not emptied, with the tokens not lowered yet. The keeper is modelled as far as the
hook sees it: delegations and their shares, and the tokens of the validators; pools, queues and
the checks on them are left out.

* `afterDelegationModified`: the hook;
* `delegate`, `unbond`, `Op.run`: the operations, with the hook as a parameter;
* `WithinLimit`, `afterDelegationModified_eq_ok_iff`: when the hook passes;
* `unbond_at_eq_ok_iff`: what the hook adds to an unbonding;
* `spared_iff`: **an operation that does not raise the tokens of a validator** is left alone by the
  hook at that validator exactly when it is no partial unbonding from it, or the validator is
  within the limit.
-/

namespace ColumbusCore.Staking

open Go Rounding

/-! ### The state -/

/-- What the hook and the arithmetic of shares read of a validator. -/
structure Validator where
  tokens : ℕ
  delegatorShares : Dec

/-- The staking state. The power reduction is a constant of the application. -/
structure State where
  validators : ValAddress → Option Validator
  delegations : AccAddress → ValAddress → Option Dec
  lastTotalPower : ℕ
  powerReduction : ℕ
  powerReduction_pos : 0 < powerReduction

namespace State

/-- `SetValidator`. -/
def setValidator (st : State) (valAddr : ValAddress) (validator : Validator) : State :=
  { st with validators := Function.update st.validators valAddr (some validator) }

/-- `SetDelegation`, or `RemoveDelegation` for no shares. -/
def setDelegation (st : State) (delAddr : AccAddress) (valAddr : ValAddress)
    (shares : Option Dec) : State :=
  { st with
    delegations := Function.update st.delegations delAddr
      (Function.update (st.delegations delAddr) valAddr shares) }

/-- The tokens of a validator. -/
def tokensOf (st : State) (valAddr : ValAddress) : ℕ :=
  ((st.validators valAddr).map (·.tokens)).getD 0

end State

/-! ### The hook -/

/-- `ColumbusChainID`. -/
def columbusChainID : String := "columbus-5"

/-- `AfterDelegationModified` of a hook. -/
abbrev Hook := State → AccAddress → ValAddress → Outcome Unit

/-- The check of a power against the total. -/
def checkPower (st : State) (validatorPower : ℤ) : Outcome Unit :=
  if st.lastTotalPower = 0 then pure ()
  else do
    let totalPower ← int64 st.lastTotalPower
    let validatorDelegationPercent ← (Fixed.ofInt validatorPower : Dec).quoInt totalPower
    failIf (newDecWithPrec 20 2 < validatorDelegationPercent)
      "validator power is over the allowed limit"

/-- `TerraStakingHooks.AfterDelegationModified`. -/
def afterDelegationModified (chainID : String) : Hook := fun st _ valAddr =>
  if chainID ≠ columbusChainID then pure ()
  else
    match st.validators valAddr with
    | none => pure ()
    | some validator => do
        let validatorPower ← tokensToConsensusPower validator.tokens st.powerReduction
        checkPower st validatorPower

/-- No hook. -/
def noHook : Hook := fun _ _ _ => pure ()

/-- A hook at one validator only. -/
def Hook.at (hook : Hook) (valAddr : ValAddress) : Hook := fun st delAddr valAddr' =>
  if valAddr' = valAddr then hook st delAddr valAddr' else pure ()

/-! ### The operations -/

/-- `Validator.SharesFromTokens`. -/
def Validator.sharesFromTokens (v : Validator) (amount : ℕ) : Outcome Dec :=
  if v.tokens = 0 then panicked (.raised "insufficient delegation shares")
  else do
    let product ← v.delegatorShares.mulInt amount
    product.quoInt v.tokens

/-- The shares issued for an amount: the first delegation sets the exchange rate to one. -/
def Validator.issuedShares (v : Validator) (amount : ℕ) : Outcome Dec :=
  if v.delegatorShares = 0 then pure (Fixed.ofInt amount) else v.sharesFromTokens amount

/-- `Validator.AddTokensFromDel`. -/
def Validator.addTokensFromDel (v : Validator) (amount : ℕ) : Outcome (Validator × Dec) := do
  let issuedShares ← v.issuedShares amount
  let delegatorShares ← v.delegatorShares.add issuedShares
  pure (⟨v.tokens + amount, delegatorShares⟩, issuedShares)

/-- The tokens of some of the shares. -/
def Validator.tokensFromShares (v : Validator) (delShares : Dec) : Outcome ℤ := do
  let product ← delShares.mulInt v.tokens
  let tokens ← product.quo v.delegatorShares
  tokens.truncateInt

/-- `Validator.RemoveDelShares`: the last shares take all tokens. -/
def Validator.removeDelShares (v : Validator) (delShares : Dec) : Outcome (Validator × ℕ) := do
  let remainingShares ← v.delegatorShares.sub delShares
  if remainingShares = 0 then pure (⟨0, remainingShares⟩, v.tokens)
  else do
    let issuedTokens ← v.tokensFromShares delShares
    if v.tokens < issuedTokens then
      panicked (.raised "attempting to remove more tokens than available in validator")
    else pure (⟨v.tokens - issuedTokens.toNat, remainingShares⟩, issuedTokens.toNat)

/-- A validator of the store. -/
def getValidator (st : State) (valAddr : ValAddress) : Outcome Validator :=
  match st.validators valAddr with
  | none => failed "validator does not exist"
  | some validator => pure validator

/-- A delegation of the store. -/
def getDelegation (st : State) (delAddr : AccAddress) (valAddr : ValAddress) : Outcome Dec :=
  match st.delegations delAddr valAddr with
  | none => failed "no delegation for (address, validator) tuple"
  | some shares => pure shares

/-- `Delegate`: the hook runs once the tokens and the delegation are raised. -/
def delegate (hook : Hook) (st : State) (delAddr : AccAddress) (valAddr : ValAddress)
    (bondAmt : ℕ) : Outcome State := do
  let validator ← getValidator st valAddr
  failIf (validator.tokens = 0 ∧ validator.delegatorShares.IsPositive)
    "cannot delegate to validators with invalid (zero) ex-rate"
  let (validator, newShares) ← validator.addTokensFromDel bondAmt
  let shares ← ((st.delegations delAddr valAddr).getD 0).add newShares
  let st := (st.setValidator valAddr validator).setDelegation delAddr valAddr (some shares)
  hook st delAddr valAddr
  pure st

/-- A delegation lowered: an empty one is removed, without the hook. -/
def lowerDelegation (hook : Hook) (st : State) (delAddr : AccAddress) (valAddr : ValAddress)
    (shares : Dec) : Outcome State :=
  if shares = 0 then pure (st.setDelegation delAddr valAddr none)
  else do
    let st := st.setDelegation delAddr valAddr (some shares)
    hook st delAddr valAddr
    pure st

/-- The checks of an unbonding: the validator, and what is left of the delegation. -/
def checkUnbond (st : State) (delAddr : AccAddress) (valAddr : ValAddress) (shares : Dec) :
    Outcome (Validator × Dec) := do
  let delegation ← getDelegation st delAddr valAddr
  failIf (delegation < shares) "not enough delegation shares"
  let validator ← getValidator st valAddr
  let remaining ← delegation.sub shares
  pure (validator, remaining)

/-- `RemoveValidatorTokensAndShares`. -/
def removeTokensAndShares (st : State) (valAddr : ValAddress) (validator : Validator)
    (shares : Dec) : Outcome (State × ℕ) := do
  let (validator, amount) ← validator.removeDelShares shares
  pure (st.setValidator valAddr validator, amount)

/-- `Unbond`: the delegation is lowered first, the tokens of the validator after the hook. -/
def unbond (hook : Hook) (st : State) (delAddr : AccAddress) (valAddr : ValAddress)
    (shares : Dec) : Outcome (State × ℕ) := do
  let (validator, remaining) ← checkUnbond st delAddr valAddr shares
  let st ← lowerDelegation hook st delAddr valAddr remaining
  removeTokensAndShares st valAddr validator shares

/-- The operations on delegations. -/
inductive Op where
  | delegate (delAddr : AccAddress) (valAddr : ValAddress) (amount : ℕ)
  | undelegate (delAddr : AccAddress) (valAddr : ValAddress) (shares : Dec)
  | redelegate (delAddr : AccAddress) (valSrcAddr valDstAddr : ValAddress) (shares : Dec)

/-- The state after an operation; a delegation of nothing is refused by its message. -/
def Op.run (hook : Hook) (st : State) : Op → Outcome State
  | .delegate delAddr valAddr amount => do
      failIf (amount = 0) "invalid delegation amount"
      Staking.delegate hook st delAddr valAddr amount
  | .undelegate delAddr valAddr shares => do
      let (st, _) ← unbond hook st delAddr valAddr shares
      pure st
  | .redelegate delAddr valSrcAddr valDstAddr shares => do
      failIf (valSrcAddr = valDstAddr) "cannot redelegate to the same validator"
      let (st, returnAmount) ← unbond hook st delAddr valSrcAddr shares
      failIf (returnAmount = 0) "too few tokens to redelegate (truncates to zero tokens)"
      Staking.delegate hook st delAddr valDstAddr returnAmount

/-! ### When the hook passes -/

/-- The power of the validator is an `int64`, and no more than a fifth of the total power, up to
the truncation at eighteen decimals. -/
def WithinLimit (st : State) (valAddr : ValAddress) : Prop :=
  ∀ validator, st.validators valAddr = some validator →
    validator.tokens / st.powerReduction < 2 ^ 63
      ∧ (st.lastTotalPower = 0 ∨ (st.lastTotalPower < 2 ^ 63
        ∧ validator.tokens / st.powerReduction * 10 ^ 18
          < (2 * 10 ^ 17 + 1) * st.lastTotalPower))

section Hooks

variable {st st' : State} {delAddr : AccAddress} {valAddr : ValAddress}

lemma int64_natCast_eq_ok_iff {n : ℕ} {x : ℤ} : int64 n = .ok x ↔ n < 2 ^ 63 ∧ x = n := by
  rw [int64_eq_ok_iff]
  omega

lemma checkPower_eq_ok_iff {power : ℕ} : checkPower st power = .ok ()
    ↔ st.lastTotalPower = 0 ∨ (st.lastTotalPower < 2 ^ 63
      ∧ power * 10 ^ 18 < (2 * 10 ^ 17 + 1) * st.lastTotalPower) := by
  rw [checkPower]
  split_ifs with hzero
  · simp [hzero]
  have hpos : 0 < st.lastTotalPower := Nat.pos_of_ne_zero hzero
  have hlimit : ((power : ℤ) * decFormat.scale).tdiv st.lastTotalPower ≤ 2 * 10 ^ 17
      ↔ power * 10 ^ 18 < (2 * 10 ^ 17 + 1) * st.lastTotalPower := by
    rw [tdiv_le_iff hpos (by norm_num)]
    simp only [decFormat]
    push_cast
    exact_mod_cast Iff.rfl
  simp only [hzero, false_or, ← hlimit]
  constructor
  · intro h
    obtain ⟨total, htotal, h⟩ := bind_eq_ok.mp h
    obtain ⟨hfit, rfl⟩ := int64_natCast_eq_ok_iff.mp htotal
    obtain ⟨percent, hpercent, h⟩ := bind_eq_ok.mp h
    rw [Fixed.quoInt_eq_ok (by exact_mod_cast hzero)] at hpercent
    obtain rfl := Except.ok.inj hpercent
    exact ⟨hfit, not_lt.mp (failIf_eq_ok.mp h)⟩
  · rintro ⟨hfit, hle⟩
    rw [int64_natCast_eq_ok_iff.mpr ⟨hfit, rfl⟩, ok_bind,
      Fixed.quoInt_eq_ok (by exact_mod_cast hzero), ok_bind]
    exact failIf_eq_ok.mpr (not_lt.mpr hle)

/-- **When the hook passes** on `columbus-5`. -/
lemma afterDelegationModified_eq_ok_iff :
    afterDelegationModified columbusChainID st delAddr valAddr = .ok () ↔ WithinLimit st valAddr := by
  rw [afterDelegationModified, if_neg (not_not.mpr rfl), WithinLimit]
  cases hval : st.validators valAddr with
  | none => simp
  | some validator =>
      have hreduction : (st.powerReduction : ℤ) ≠ 0 := by
        exact_mod_cast st.powerReduction_pos.ne'
      have hpower : tokensToConsensusPower validator.tokens st.powerReduction
          = int64 (validator.tokens / st.powerReduction : ℕ) := by
        rw [tokensToConsensusPower, if_neg hreduction, Int.tdiv_eq_ediv_of_nonneg (by positivity)]
        rfl
      simp only [hpower, Option.some.injEq, forall_eq']
      constructor
      · intro h
        obtain ⟨power, hint, h⟩ := bind_eq_ok.mp h
        obtain ⟨hfit, rfl⟩ := int64_natCast_eq_ok_iff.mp hint
        exact ⟨hfit, checkPower_eq_ok_iff.mp h⟩
      · rintro ⟨hfit, h⟩
        rw [int64_natCast_eq_ok_iff.mpr ⟨hfit, rfl⟩, ok_bind]
        exact checkPower_eq_ok_iff.mpr h

/-! ### What the hook adds to an operation -/

lemma delegate_eq_ok_iff {hook : Hook} {bondAmt : ℕ} :
    delegate hook st delAddr valAddr bondAmt = .ok st'
      ↔ delegate noHook st delAddr valAddr bondAmt = .ok st' ∧ hook st' delAddr valAddr = .ok () := by
  constructor
  · intro h
    obtain ⟨validator, hval, h⟩ := bind_eq_ok.mp h
    obtain ⟨hrate, h⟩ := unit_bind_eq_ok.mp h
    obtain ⟨⟨raised, newShares⟩, hadd, h⟩ := bind_eq_ok.mp h
    obtain ⟨shares, hshares, h⟩ := bind_eq_ok.mp h
    obtain ⟨hhook, h⟩ := unit_bind_eq_ok.mp h
    obtain rfl := Except.ok.inj h
    refine ⟨bind_eq_ok.mpr ⟨validator, hval, unit_bind_eq_ok.mpr ⟨hrate, bind_eq_ok.mpr
      ⟨(raised, newShares), hadd, bind_eq_ok.mpr ⟨shares, hshares, rfl⟩⟩⟩⟩, hhook⟩
  · rintro ⟨h, hhook⟩
    obtain ⟨validator, hval, h⟩ := bind_eq_ok.mp h
    obtain ⟨hrate, h⟩ := unit_bind_eq_ok.mp h
    obtain ⟨⟨raised, newShares⟩, hadd, h⟩ := bind_eq_ok.mp h
    obtain ⟨shares, hshares, h⟩ := bind_eq_ok.mp h
    obtain rfl := Except.ok.inj h
    exact bind_eq_ok.mpr ⟨validator, hval, unit_bind_eq_ok.mpr ⟨hrate, bind_eq_ok.mpr
      ⟨(raised, newShares), hadd, bind_eq_ok.mpr ⟨shares, hshares,
        unit_bind_eq_ok.mpr ⟨hhook, rfl⟩⟩⟩⟩⟩

/-- The tokens of a delegation are those of its validator. -/
lemma tokensOf_delegate {bondAmt : ℕ} (h : delegate noHook st delAddr valAddr bondAmt = .ok st')
    (a : ValAddress) :
    st'.tokensOf a = st.tokensOf a + if a = valAddr then bondAmt else 0 := by
  obtain ⟨validator, hval, h⟩ := bind_eq_ok.mp h
  obtain ⟨-, h⟩ := unit_bind_eq_ok.mp h
  obtain ⟨⟨raised, newShares⟩, hadd, h⟩ := bind_eq_ok.mp h
  obtain ⟨shares, -, h⟩ := bind_eq_ok.mp h
  obtain rfl := Except.ok.inj h
  obtain ⟨issued, -, hadd⟩ := bind_eq_ok.mp hadd
  obtain ⟨total, -, hadd⟩ := bind_eq_ok.mp hadd
  obtain ⟨rfl, -⟩ := Prod.ext_iff.mp (Except.ok.inj hadd)
  rw [getValidator] at hval
  simp only [State.tokensOf, State.setDelegation, State.setValidator, Function.update_apply]
  split_ifs with ha
  · cases hv : st.validators valAddr with
    | none => simp [hv] at hval
    | some v =>
        rw [hv] at hval
        obtain rfl := Except.ok.inj hval
        simp [ha, hv]
  · rfl

lemma checkUnbond_eq_ok {shares remaining : Dec} {validator : Validator}
    (h : checkUnbond st delAddr valAddr shares = .ok (validator, remaining)) :
    remaining = 0 ↔ st.delegations delAddr valAddr = some shares := by
  obtain ⟨delegation, hdel, h⟩ := bind_eq_ok.mp h
  obtain ⟨-, h⟩ := unit_bind_eq_ok.mp h
  obtain ⟨v, -, h⟩ := bind_eq_ok.mp h
  obtain ⟨r, hsub, h⟩ := bind_eq_ok.mp h
  obtain ⟨-, rfl⟩ := Prod.ext_iff.mp (Except.ok.inj h)
  obtain ⟨-, rfl⟩ := Fixed.checked_eq_ok_iff.mp hsub
  rw [getDelegation] at hdel
  cases hd : st.delegations delAddr valAddr with
  | none => simp [hd] at hdel
  | some d =>
      rw [hd] at hdel
      obtain rfl := Except.ok.inj hdel
      simp only [Fixed.ext_iff, Fixed.zero_raw, Option.some.injEq]
      exact sub_eq_zero

lemma lowerDelegation_eq_ok_iff {hook : Hook} {shares : Dec} :
    lowerDelegation hook st delAddr valAddr shares = .ok st'
      ↔ lowerDelegation noHook st delAddr valAddr shares = .ok st'
        ∧ (shares ≠ 0 → hook st' delAddr valAddr = .ok ()) := by
  rw [lowerDelegation, lowerDelegation]
  split_ifs with hzero
  · simp [hzero]
  · rw [unit_bind_eq_ok, unit_bind_eq_ok]
    constructor
    · rintro ⟨hhook, h⟩
      obtain rfl := Except.ok.inj h
      exact ⟨⟨rfl, rfl⟩, fun _ => hhook⟩
    · rintro ⟨⟨-, h⟩, hhook⟩
      obtain rfl := Except.ok.inj h
      exact ⟨hhook hzero, rfl⟩

/-- A lowered delegation changes nothing the hook reads. -/
lemma lowerDelegation_validators {hook : Hook} {shares : Dec}
    (h : lowerDelegation hook st delAddr valAddr shares = .ok st') :
    st'.validators = st.validators ∧ ∀ a, WithinLimit st' a ↔ WithinLimit st a := by
  rw [lowerDelegation] at h
  split_ifs at h
  · obtain rfl := Except.ok.inj h
    exact ⟨rfl, fun _ => Iff.rfl⟩
  · obtain ⟨-, h⟩ := unit_bind_eq_ok.mp h
    obtain rfl := Except.ok.inj h
    exact ⟨rfl, fun _ => Iff.rfl⟩

lemma at_eq_ok_iff {a : ValAddress} :
    Hook.at (afterDelegationModified columbusChainID) a st delAddr valAddr = .ok ()
      ↔ (valAddr = a → WithinLimit st a) := by
  rw [Hook.at]
  split_ifs with ha
  · rw [afterDelegationModified_eq_ok_iff, ha]
    simp
  · simp [ha]

/-- **What the hook adds to an unbonding**: one that is not of the whole delegation asks for the
validator to be within the limit before its tokens are lowered. -/
lemma unbond_at_eq_ok_iff {a : ValAddress} {shares : Dec} {r : State × ℕ} :
    unbond (Hook.at (afterDelegationModified columbusChainID) a) st delAddr valAddr shares = .ok r
      ↔ unbond noHook st delAddr valAddr shares = .ok r
        ∧ (valAddr = a → st.delegations delAddr valAddr ≠ some shares → WithinLimit st a) := by
  constructor
  · intro h
    obtain ⟨⟨validator, remaining⟩, hcheck, h⟩ := bind_eq_ok.mp h
    obtain ⟨st₁, hlower, h⟩ := bind_eq_ok.mp h
    obtain ⟨hplain, hhook⟩ := lowerDelegation_eq_ok_iff.mp hlower
    refine ⟨bind_eq_ok.mpr ⟨_, hcheck, bind_eq_ok.mpr ⟨st₁, hplain, h⟩⟩, fun ha hpart => ?_⟩
    have hne : remaining ≠ 0 := fun hzero => hpart ((checkUnbond_eq_ok hcheck).mp hzero)
    exact ((lowerDelegation_validators hplain).2 a).mp (at_eq_ok_iff.mp (hhook hne) ha)
  · rintro ⟨h, hlimit⟩
    obtain ⟨⟨validator, remaining⟩, hcheck, h⟩ := bind_eq_ok.mp h
    obtain ⟨st₁, hplain, h⟩ := bind_eq_ok.mp h
    refine bind_eq_ok.mpr ⟨_, hcheck, bind_eq_ok.mpr ⟨st₁, ?_, h⟩⟩
    refine lowerDelegation_eq_ok_iff.mpr ⟨hplain, fun hne => at_eq_ok_iff.mpr fun ha => ?_⟩
    have hpart : st.delegations delAddr valAddr ≠ some shares := fun hall =>
      hne ((checkUnbond_eq_ok hcheck).mpr hall)
    exact ((lowerDelegation_validators hplain).2 a).mpr (hlimit ha hpart)

/-- An unbonding leaves the tokens of the other validators. -/
lemma tokensOf_unbond {a : ValAddress} {shares : Dec} {amount : ℕ} (ha : a ≠ valAddr)
    (h : unbond noHook st delAddr valAddr shares = .ok (st', amount)) :
    st'.tokensOf a = st.tokensOf a := by
  obtain ⟨⟨validator, remaining⟩, -, h⟩ := bind_eq_ok.mp h
  obtain ⟨st₁, hlower, h⟩ := bind_eq_ok.mp h
  obtain ⟨⟨lowered, n⟩, -, h⟩ := bind_eq_ok.mp h
  obtain ⟨rfl, -⟩ := Prod.ext_iff.mp (Except.ok.inj h)
  simp only [State.tokensOf, State.setValidator, Function.update_of_ne ha,
    (lowerDelegation_validators hlower).1]

/-- The operation lowers a delegation to the validator and does not empty it. -/
def Op.UnbondsPartly (st : State) (a : ValAddress) : Op → Prop
  | .delegate _ _ _ => False
  | .undelegate delAddr valAddr shares => valAddr = a ∧ st.delegations delAddr valAddr ≠ some shares
  | .redelegate delAddr valSrcAddr _ shares =>
      valSrcAddr = a ∧ st.delegations delAddr valSrcAddr ≠ some shares

/-- A validator whose tokens a delegation did not raise is not the one it went to. -/
lemma ne_of_delegate {a : ValAddress} {bondAmt : ℕ} (hpos : bondAmt ≠ 0)
    (h : delegate noHook st delAddr valAddr bondAmt = .ok st')
    (htokens : st'.tokensOf a ≤ st.tokensOf a) : valAddr ≠ a := by
  rintro rfl
  have hraised := tokensOf_delegate h valAddr
  rw [if_pos rfl] at hraised
  omega

/-- The hook at one validator leaves the delegations to others alone. -/
lemma delegate_at_of_ne {a : ValAddress} {bondAmt : ℕ} (hne : valAddr ≠ a)
    (h : delegate noHook st delAddr valAddr bondAmt = .ok st') :
    delegate (Hook.at (afterDelegationModified columbusChainID) a) st delAddr valAddr bondAmt
      = .ok st' :=
  delegate_eq_ok_iff.mpr ⟨h, at_eq_ok_iff.mpr fun ha => absurd ha hne⟩

/-- **Whom the hook spares**: take an operation that succeeds without hooks and does not raise the
tokens of a validator. The hook at that validator does not make it fail exactly when it is no
partial unbonding from the validator, or the validator is within the limit. -/
theorem spared_iff {op : Op} {a : ValAddress} (hrun : op.run noHook st = .ok st')
    (htokens : st'.tokensOf a ≤ st.tokensOf a) :
    op.run (Hook.at (afterDelegationModified columbusChainID) a) st = .ok st'
      ↔ (op.UnbondsPartly st a → WithinLimit st a) := by
  cases op with
  | delegate delAddr valAddr amount =>
      obtain ⟨hamount, hdel⟩ := failIf_bind_eq_ok.mp hrun
      have hne := ne_of_delegate hamount hdel htokens
      refine iff_of_true ?_ fun h => h.elim
      exact failIf_bind_eq_ok.mpr ⟨hamount, delegate_at_of_ne hne hdel⟩
  | undelegate delAddr valAddr shares =>
      obtain ⟨⟨st₁, amount⟩, hunbond, h⟩ := bind_eq_ok.mp hrun
      obtain rfl := Except.ok.inj h
      constructor
      · rintro h ⟨ha, hpart⟩
        obtain ⟨r, hr, -⟩ := bind_eq_ok.mp h
        exact (unbond_at_eq_ok_iff.mp hr).2 ha hpart
      · intro h
        exact bind_eq_ok.mpr ⟨(st₁, amount), unbond_at_eq_ok_iff.mpr
          ⟨hunbond, fun ha hpart => h ⟨ha, hpart⟩⟩, rfl⟩
  | redelegate delAddr valSrcAddr valDstAddr shares =>
      obtain ⟨hself, h⟩ := failIf_bind_eq_ok.mp hrun
      obtain ⟨⟨st₁, amount⟩, hunbond, h⟩ := bind_eq_ok.mp h
      obtain ⟨htiny, hdel⟩ := failIf_bind_eq_ok.mp h
      -- the destination is raised by the tokens the source gives
      have hne : valDstAddr ≠ a := by
        rintro rfl
        rw [← tokensOf_unbond (Ne.symm hself) hunbond] at htokens
        exact ne_of_delegate htiny hdel htokens rfl
      constructor
      · rintro h ⟨ha, hpart⟩
        obtain ⟨-, h⟩ := failIf_bind_eq_ok.mp h
        obtain ⟨r, hr, -⟩ := bind_eq_ok.mp h
        exact (unbond_at_eq_ok_iff.mp hr).2 ha hpart
      · intro h
        refine failIf_bind_eq_ok.mpr ⟨hself, bind_eq_ok.mpr ⟨(st₁, amount),
          unbond_at_eq_ok_iff.mpr ⟨hunbond, fun ha hpart => h ⟨ha, hpart⟩⟩, ?_⟩⟩
        exact failIf_bind_eq_ok.mpr ⟨htiny, delegate_at_of_ne hne hdel⟩

end Hooks

/-! ### A validator over the limit -/

/-- Two validators, one with the given tokens and one with a million luna less that; one delegator
holds all shares of the first. The total power is a million. -/
def twoValidators (tokens : ℕ) : State where
  validators valAddr :=
    if valAddr = "large" then some ⟨tokens, Fixed.ofInt tokens⟩
    else if valAddr = "small" then
      some ⟨1000000000000 - tokens, Fixed.ofInt (1000000000000 - tokens)⟩
    else none
  delegations delAddr valAddr :=
    if delAddr = "delegator" ∧ valAddr = "large" then some (Fixed.ofInt tokens) else none
  lastTotalPower := 1000000
  powerReduction := 1000000
  powerReduction_pos := by norm_num

/-- **A delegator held back**: from a validator with 30 percent of the power nobody can undelegate
or redelegate a part of the delegation, although the tokens of the validator would fall. -/
theorem partial_unbonding_refused :
    (∃ st', (Op.undelegate "delegator" "large" (Fixed.ofInt 1000000)).run noHook
        (twoValidators 300000000000) = .ok st'
      ∧ st'.tokensOf "large" = 299999000000)
    ∧ (Op.undelegate "delegator" "large" (Fixed.ofInt 1000000)).run
        (afterDelegationModified columbusChainID) (twoValidators 300000000000)
      = .error (.error "validator power is over the allowed limit")
    ∧ (Op.redelegate "delegator" "large" "small" (Fixed.ofInt 1000000)).run
        (Hook.at (afterDelegationModified columbusChainID) "large") (twoValidators 300000000000)
      = .error (.error "validator power is over the allowed limit") := by
  refine ⟨?_, ?_, ?_⟩
  · obtain ⟨st', h, htokens⟩ := exists_of_returns
      (p := fun st' : State => decide (st'.tokensOf "large" = 299999000000))
      (x := (Op.undelegate "delegator" "large" (Fixed.ofInt 1000000)).run noHook
        (twoValidators 300000000000)) (by decide +kernel)
    exact ⟨st', h, of_decide_eq_true htokens⟩
  · exact eq_of_failsWith (by decide +kernel)
  · exact eq_of_failsWith (by decide +kernel)

/-- From a validator with 10 percent of the power a part of the delegation can be taken. -/
theorem spared_within_limit : ∃ st', (Op.undelegate "delegator" "large" (Fixed.ofInt 1000000)).run
    (Hook.at (afterDelegationModified columbusChainID) "large") (twoValidators 100000000000)
      = .ok st' := by
  obtain ⟨st', h, htokens⟩ := exists_of_returns
    (p := fun st' : State => decide (st'.tokensOf "large" ≤ 100000000000))
    (x := (Op.undelegate "delegator" "large" (Fixed.ofInt 1000000)).run noHook
      (twoValidators 100000000000)) (by decide +kernel)
  refine ⟨st', (spared_iff h (of_decide_eq_true htokens)).mpr fun _ validator hval => ?_⟩
  obtain rfl := Option.some.inj hval
  decide

end ColumbusCore.Staking
