import ColumbusCore.Treasury.Types
import ColumbusCore.Market.Swap
import ColumbusCore.Oracle.EndBlocker

/-!
The end of a block in the treasury module (`x/treasury/abci.go`, `x/treasury/keeper/indicator.go`,
`x/treasury/keeper/policy.go`).

Every block burns what is in the burn account. The last block of an epoch, a week of blocks, also
records the indicators of the epoch and, once the probation is over, sets the tax rate, the reward
weight and the tax caps.

* `State`: the store of the module, the oracle store it reads, and the modules behind the keepers;
* `updateIndicators`: the tax rewards, the seigniorage rewards and the staked luna of the epoch;
* `sumIndicator`, `rollingAverageIndicator`: an indicator over the last epochs;
* `PolicyConstraints.clamp`: a move of a rate within the constraints of its policy;
* `updateTaxPolicy`, `updateRewardPolicy`, `updateTaxCap`: the three updates;
* `endBlocker_of_last`, `endBlocker_of_not_last`: a block at the end of an epoch, and another one.
-/

namespace ColumbusCore.Treasury

open Go
open Std (ExtTreeMap)
open Market (microLunaDenom microSDRDenom computeInternalSwap)

variable {σ : Type}

/-- `core.BlocksPerWeek`. -/
def blocksPerWeek : ℕ := 10 * 60 * 24 * 7

/-- `types.BurnModuleName`. -/
def burnModuleName : String := "burn"

/-- `DefaultTaxRate`. -/
def defaultTaxRate : Dec := newDecWithPrec 1 3

/-- `DefaultRewardWeight`. -/
def defaultRewardWeight : Dec := newDecWithPrec 5 2

/-! ### The state -/

/-- What the end of a block reads and writes: the two levers, the luna and terra issued at the
start of the epoch, and the tax rewards, seigniorage rewards and staked luna by epoch. -/
structure State (σ : Type) where
  store : Store
  taxRate : Option Dec
  rewardWeight : Option Dec
  epochInitialIssuance : Coins
  tr : ExtTreeMap ℕ Dec
  sr : ExtTreeMap ℕ Dec
  tsl : ExtTreeMap ℕ ℤ
  oracle : Oracle.Store
  ext : σ

/-- The bank and the staking keeper over their state `σ`. -/
structure Keepers (σ : Type) where
  burnAccountBalances : σ → Coins
  burnCoins : σ → String → Coins → Outcome σ
  getSupply : σ → Denom → ℤ
  totalBondedTokens : σ → ℤ

namespace State

/-- `GetTaxRate`. -/
def getTaxRate (st : State σ) : Dec := st.taxRate.getD defaultTaxRate

/-- `GetRewardWeight`. -/
def getRewardWeight (st : State σ) : Dec := st.rewardWeight.getD defaultRewardWeight

/-- `GetTR`. -/
def getTR (st : State σ) (epoch : ℕ) : Dec := st.tr.getD epoch 0

/-- `GetSR`. -/
def getSR (st : State σ) (epoch : ℕ) : Dec := st.sr.getD epoch 0

/-- `GetTSL`. -/
def getTSL (st : State σ) (epoch : ℕ) : ℤ := st.tsl.getD epoch 0

end State

/-- `BurnCoinsFromBurnAccount`. -/
def burnCoinsFromBurnAccount (K : Keepers σ) (st : State σ) : Outcome (State σ) :=
  let coins := K.burnAccountBalances st.ext
  if coins.IsZero then pure st
  else do
    let ext ← panicOnError "" (K.burnCoins st.ext burnModuleName coins)
    pure { st with ext := ext }

/-- `RecordEpochInitialIssuance`. -/
def recordEpochInitialIssuance (K : Keepers σ) (st : State σ) : State σ :=
  { st with
    epochInitialIssuance := (microLunaDenom :: st.oracle.params.whitelist.map (·.name)).foldl
      (fun issuance denom => issuance.setAmount denom (K.getSupply st.ext denom)) ∅ }

/-! ### Indicators -/

/-- `GetEpoch`. -/
def getEpoch (height : ℕ) : ℕ := height / blocksPerWeek

/-- One coin of `alignCoins`. -/
def alignCoin (s : Oracle.Store) (denom : Denom) (alignedAmt : Dec) (coinReward : DecCoin) :
    Outcome Dec :=
  if coinReward.1 ≠ denom then do
    match ← attempt (computeInternalSwap s coinReward denom) with
    | none => pure alignedAmt
    | some swappedReward => alignedAmt.add swappedReward.2
  else alignedAmt.add coinReward.2

/-- `alignCoins`: the coins in one denom; a coin without a price is left out. -/
def alignCoins (s : Oracle.Store) (coins : List DecCoin) (denom : Denom) : Outcome Dec :=
  coins.foldlM (alignCoin s denom) 0

/-- `PeekEpochSeigniorage`: the luna that disappeared since the start of the epoch. -/
def peekEpochSeigniorage (K : Keepers σ) (st : State σ) : ℤ :=
  let epochIssuance := K.getSupply st.ext microLunaDenom
  let preEpochIssuance := st.epochInitialIssuance.amountOf microLunaDenom
  let epochSeigniorage := preEpochIssuance - epochIssuance
  if epochSeigniorage < 0 then 0 else epochSeigniorage

/-- The tax rewards of the epoch, from the tax proceeds. -/
def taxRewards (st : State σ) : Outcome Dec := do
  let taxRewards ← st.store.epochTaxProceeds.entries.mapM DecCoin.ofCoin
  alignCoins st.oracle taxRewards microSDRDenom

/-- The seigniorage rewards of the epoch: the share of the reward weight. -/
def seigniorageRewards (K : Keepers σ) (st : State σ) : Outcome Dec := do
  let seigniorageRewardsAmt ← st.getRewardWeight.mulInt (peekEpochSeigniorage K st)
  let seigniorageRewards ← DecCoin.ofDec microLunaDenom seigniorageRewardsAmt
  alignCoins st.oracle [seigniorageRewards] microSDRDenom

/-- `UpdateIndicators`. -/
def updateIndicators (K : Keepers σ) (height : ℕ) (st : State σ) : Outcome (State σ) := do
  let epoch := getEpoch height
  let st := { st with tsl := st.tsl.insert epoch (K.totalBondedTokens st.ext) }
  let tr ← taxRewards st
  let st := { st with
    tr := st.tr.insert epoch tr
    store := { st.store with epochTaxProceeds := ∅ } }
  let sr ← seigniorageRewards K st
  pure { st with sr := st.sr.insert epoch sr }

/-- `TRL`: the tax rewards per unit of staked luna. -/
def State.trl (st : State σ) (epoch : ℕ) : Outcome Dec :=
  if st.getTR epoch = 0 ∨ st.getTSL epoch = 0 then pure 0
  else (st.getTR epoch).quoInt (st.getTSL epoch)

/-- `MR`: the mining rewards. -/
def State.mr (st : State σ) (epoch : ℕ) : Outcome Dec := (st.getTR epoch).add (st.getSR epoch)

/-- The loop of both functions from `i` down, with `i + 1` as its argument: the sum, and the loop
variable where it stops. -/
def indicatorLoop (curEpoch : ℕ) (epochs : ℤ) (indicator : ℕ → Outcome Dec) :
    ℕ → Dec → Outcome (Dec × ℤ)
  | 0, sum => pure (sum, -1)
  | i + 1, sum =>
      if addInt64 curEpoch (-epochs) < i then do
        let val ← indicator i
        let sum ← sum.add val
        indicatorLoop curEpoch epochs indicator i sum
      else pure (sum, i)

/-- `sumIndicator`. -/
def sumIndicator (height : ℕ) (epochs : ℤ) (indicator : ℕ → Outcome Dec) : Outcome Dec := do
  let curEpoch := getEpoch height
  let (sum, _) ← indicatorLoop curEpoch epochs indicator (curEpoch + 1) 0
  pure sum

/-- `rollingAverageIndicator`: the number of epochs is read off the loop variable. -/
def rollingAverageIndicator (height : ℕ) (epochs : ℤ) (indicator : ℕ → Outcome Dec) :
    Outcome Dec := do
  let curEpoch := getEpoch height
  let (sum, i) ← indicatorLoop curEpoch epochs indicator (curEpoch + 1) 0
  let computedEpochs := (curEpoch : ℤ) - i
  if computedEpochs = 0 then pure sum else sum.quoInt computedEpochs

/-! ### The epochs of a window -/

/-- The epochs from `i` down, up to the end of the window. -/
def epochsFrom (curEpoch : ℕ) (epochs : ℤ) (i : ℕ) : List ℕ :=
  (List.range i).reverse.takeWhile fun i => decide (addInt64 curEpoch (-epochs) < i)

lemma epochsFrom_succ (curEpoch : ℕ) (epochs : ℤ) (i : ℕ) :
    epochsFrom curEpoch epochs (i + 1) = if addInt64 curEpoch (-epochs) < i
      then i :: epochsFrom curEpoch epochs i else [] := by
  rw [epochsFrom, List.range_succ, List.reverse_append, List.reverse_singleton,
    List.singleton_append, List.takeWhile_cons]
  split_ifs with h h' h'
  · rfl
  · exact absurd (of_decide_eq_true h) h'
  · exact absurd (decide_eq_true h') h
  · rfl

/-- The loop visits the epochs from `i` down, and stops below the last of them. -/
lemma indicatorLoop_eq (curEpoch : ℕ) (epochs : ℤ) (indicator : ℕ → Outcome Dec) (i : ℕ)
    (sum : Dec) : indicatorLoop curEpoch epochs indicator i sum
      = ((epochsFrom curEpoch epochs i).foldlM (fun sum i => indicator i >>= sum.add) sum).map
        fun sum => (sum, (i : ℤ) - 1 - (epochsFrom curEpoch epochs i).length) := by
  induction i generalizing sum with
  | zero => rfl
  | succ i ih =>
      rw [indicatorLoop, epochsFrom_succ]
      split_ifs with h
      · simp only [List.foldlM_cons, List.length_cons, ih, bind_assoc]
        cases indicator i with
        | error e => rfl
        | ok val =>
            rw [ok_bind, ok_bind]
            cases sum.add val with
            | error e => rfl
            | ok sum =>
                rw [ok_bind, ok_bind]
                refine congrArg (fun n : ℤ => Except.map (fun s => (s, n)) _) ?_
                push_cast
                ring
      · simp [Except.map, pure, Except.pure]

/-- The epochs a window of `epochs` goes through, from the current one down. The bound is an
`int64` and wraps. -/
def windowEpochs (height : ℕ) (epochs : ℤ) : List ℕ :=
  epochsFrom (getEpoch height) epochs (getEpoch height + 1)

/-- The loop from the current epoch. -/
lemma indicatorLoop_current (height : ℕ) (epochs : ℤ) (indicator : ℕ → Outcome Dec) :
    indicatorLoop (getEpoch height) epochs indicator (getEpoch height + 1) 0
      = ((windowEpochs height epochs).foldlM (fun sum i => indicator i >>= sum.add) 0).map
        fun sum => (sum, (getEpoch height : ℤ) - (windowEpochs height epochs).length) := by
  have hstop : ((getEpoch height + 1 : ℕ) : ℤ) - 1 = getEpoch height := by omega
  rw [indicatorLoop_eq, hstop, windowEpochs]

/-- The sum is over the epochs of the window. -/
lemma sumIndicator_eq (height : ℕ) (epochs : ℤ) (indicator : ℕ → Outcome Dec) :
    sumIndicator height epochs indicator
      = (windowEpochs height epochs).foldlM (fun sum i => indicator i >>= sum.add) 0 := by
  simp only [sumIndicator, indicatorLoop_current]
  cases (windowEpochs height epochs).foldlM (fun sum i => indicator i >>= sum.add) (0 : Dec) <;> rfl

/-- The average divides it by their number. -/
lemma rollingAverageIndicator_eq (height : ℕ) (epochs : ℤ) (indicator : ℕ → Outcome Dec) :
    rollingAverageIndicator height epochs indicator = (do
      let sum ← sumIndicator height epochs indicator
      let computedEpochs := (windowEpochs height epochs).length
      if computedEpochs = 0 then pure sum else sum.quoInt computedEpochs) := by
  simp only [rollingAverageIndicator, indicatorLoop_current, sumIndicator_eq]
  cases (windowEpochs height epochs).foldlM (fun sum i => indicator i >>= sum.add) (0 : Dec) with
  | error e => rfl
  | ok sum => simp only [Except.map, ok_bind, sub_sub_cancel, Int.natCast_eq_zero]

/-! ### Policies -/

/-- The move of a rate by `delta`, cut to the largest change. -/
def PolicyConstraints.cutMove (pc : PolicyConstraints) (prevRate newRate delta : Dec) :
    Outcome Dec :=
  if prevRate < newRate then
    if pc.changeRateMax < delta then prevRate.add pc.changeRateMax else pure newRate
  else if pc.changeRateMax < delta.abs then prevRate.sub pc.changeRateMax else pure newRate

/-- `PolicyConstraints.Clamp`: the move is cut to the largest change, then the rate to its
range. -/
def PolicyConstraints.clamp (pc : PolicyConstraints) (prevRate newRate : Dec) : Outcome Dec := do
  let delta ← newRate.sub prevRate
  let newRate ← pc.cutMove prevRate newRate delta
  pure (if newRate < pc.rateMin then pc.rateMin
    else if pc.rateMax < newRate then pc.rateMax else newRate)

/-- The tax rate the revenues call for: without any, the largest one. -/
def proposedTaxRate (p : Params) (oldTaxRate tlYear tlMonth : Dec) : Outcome Dec :=
  if tlMonth = 0 then pure p.taxPolicy.rateMax
  else do
    let target ← tlYear.mul p.miningIncrement
    let product ← oldTaxRate.mul target
    product.quo tlMonth

/-- `UpdateTaxPolicy`. -/
def updateTaxPolicy (height : ℕ) (st : State σ) : Outcome (State σ) := do
  let params := st.store.params
  let oldTaxRate := st.getTaxRate
  let tlYear ← rollingAverageIndicator height (toInt64 params.windowLong.toNat) st.trl
  let tlMonth ← rollingAverageIndicator height (toInt64 params.windowShort.toNat) st.trl
  let newTaxRate ← proposedTaxRate params oldTaxRate tlYear tlMonth
  let newTaxRate ← params.taxPolicy.clamp oldTaxRate newTaxRate
  pure { st with taxRate := some newTaxRate }

/-- The reward weight the seigniorage burden calls for: without revenues, the largest one. -/
def proposedRewardWeight (p : Params) (oldWeight seigniorageSum totalSum : Dec) : Outcome Dec :=
  if totalSum = 0 ∨ seigniorageSum = 0 then pure p.rewardPolicy.rateMax
  else do
    let sb ← seigniorageSum.quo totalSum
    let ratio ← p.seigniorageBurdenTarget.quo sb
    oldWeight.mul ratio

/-- `UpdateRewardPolicy`. -/
def updateRewardPolicy (height : ℕ) (st : State σ) : Outcome (State σ) := do
  let params := st.store.params
  let oldWeight := st.getRewardWeight
  let epochs := toInt64 params.windowShort.toNat
  let seigniorageSum ← sumIndicator height epochs fun epoch => pure (st.getSR epoch)
  let totalSum ← sumIndicator height epochs st.mr
  let newRewardWeight ← proposedRewardWeight params oldWeight seigniorageSum totalSum
  let newRewardWeight ← params.rewardPolicy.clamp oldWeight newRewardWeight
  pure { st with rewardWeight := some newRewardWeight }

/-- One denom of `UpdateTaxCap`: without a price its cap is kept. -/
def updateTaxCapOf (s : Oracle.Store) (taxPolicyCap : DecCoin) (taxCaps : ExtTreeMap Denom ℤ)
    (denom : Denom) : Outcome (ExtTreeMap Denom ℤ) :=
  if denom = taxPolicyCap.1 then pure taxCaps
  else do
    match ← attempt (computeInternalSwap s taxPolicyCap denom) with
    | none => pure taxCaps
    | some newDecCap =>
        let (newCap, _) ← newDecCap.truncateDecimal
        pure (taxCaps.insert newCap.1 newCap.2)

/-- `UpdateTaxCap`. -/
def updateTaxCap (st : State σ) : Outcome (State σ) := do
  let taxPolicyCap ← DecCoin.ofCoin st.store.params.taxPolicy.cap
  let taxCaps ← (st.oracle.params.whitelist.map (·.name)).foldlM
    (updateTaxCapOf st.oracle taxPolicyCap) st.store.taxCaps
  pure { st with store := { st.store with taxCaps := taxCaps } }

/-- The probation is not over. The height it ends at is a `uint64` product that wraps, read as an
`int64`. -/
def OnProbation (height : ℕ) (p : Params) : Prop :=
  (height : ℤ) < toInt64 (blocksPerWeek * p.windowProbation.toNat)

instance (height : ℕ) (p : Params) : Decidable (OnProbation height p) :=
  inferInstanceAs (Decidable ((height : ℤ) < _))

/-- The updates of the policies. -/
def updatePolicies (height : ℕ) (st : State σ) : Outcome (State σ) :=
  if OnProbation height st.store.params then pure st
  else do
    let st ← updateTaxPolicy height st
    let st ← updateRewardPolicy height st
    updateTaxCap st

/-- The end of an epoch. -/
def closeEpoch (K : Keepers σ) (height : ℕ) (st : State σ) : Outcome (State σ) := do
  let st ← updateIndicators K height st
  let st ← updatePolicies height st
  pure (recordEpochInitialIssuance K st)

/-- `EndBlocker`. -/
def endBlocker (K : Keepers σ) (height : ℕ) (st : State σ) : Outcome (State σ) := do
  let st ← burnCoinsFromBurnAccount K st
  let last ← Oracle.isPeriodLastBlock height blocksPerWeek
  if last then closeEpoch K height st else pure st

/-! ### What the steps change -/

section Frame

variable {K : Keepers σ} {height : ℕ} {st st' : State σ}

lemma burnCoinsFromBurnAccount_eq_ok (h : burnCoinsFromBurnAccount K st = .ok st') :
    ∃ ext, st' = { st with ext := ext } := by
  rw [burnCoinsFromBurnAccount] at h
  split_ifs at h
  · exact ⟨st.ext, (Except.ok.inj h).symm⟩
  · obtain ⟨ext, -, h⟩ := bind_eq_ok.mp h
    exact ⟨ext, (Except.ok.inj h).symm⟩

/-- The state with the indicators of the epoch. -/
def withIndicators (K : Keepers σ) (height : ℕ) (st : State σ) (tr sr : Dec) : State σ :=
  { st with
    tsl := st.tsl.insert (getEpoch height) (K.totalBondedTokens st.ext)
    tr := st.tr.insert (getEpoch height) tr
    sr := st.sr.insert (getEpoch height) sr
    store := { st.store with epochTaxProceeds := ∅ } }

lemma updateIndicators_eq : updateIndicators K height st = (do
    let tr ← taxRewards st
    let sr ← seigniorageRewards K st
    pure (withIndicators K height st tr sr)) := rfl

lemma updateIndicators_eq_ok (h : updateIndicators K height st = .ok st') :
    ∃ tr sr, taxRewards st = .ok tr ∧ seigniorageRewards K st = .ok sr
      ∧ st' = withIndicators K height st tr sr := by
  rw [updateIndicators_eq] at h
  obtain ⟨tr, htr, h⟩ := bind_eq_ok.mp h
  obtain ⟨sr, hsr, h⟩ := bind_eq_ok.mp h
  exact ⟨tr, sr, htr, hsr, (Except.ok.inj h).symm⟩

lemma updateTaxPolicy_eq_ok (h : updateTaxPolicy height st = .ok st') :
    ∃ proposed rate, st.store.params.taxPolicy.clamp st.getTaxRate proposed = .ok rate
      ∧ st' = { st with taxRate := some rate } := by
  obtain ⟨tlYear, -, h⟩ := bind_eq_ok.mp h
  obtain ⟨tlMonth, -, h⟩ := bind_eq_ok.mp h
  obtain ⟨proposed, -, h⟩ := bind_eq_ok.mp h
  obtain ⟨rate, hrate, h⟩ := bind_eq_ok.mp h
  exact ⟨proposed, rate, hrate, (Except.ok.inj h).symm⟩

lemma updateRewardPolicy_eq_ok (h : updateRewardPolicy height st = .ok st') :
    ∃ proposed weight, st.store.params.rewardPolicy.clamp st.getRewardWeight proposed = .ok weight
      ∧ st' = { st with rewardWeight := some weight } := by
  obtain ⟨seigniorageSum, -, h⟩ := bind_eq_ok.mp h
  obtain ⟨totalSum, -, h⟩ := bind_eq_ok.mp h
  obtain ⟨proposed, -, h⟩ := bind_eq_ok.mp h
  obtain ⟨weight, hweight, h⟩ := bind_eq_ok.mp h
  exact ⟨proposed, weight, hweight, (Except.ok.inj h).symm⟩

lemma updateTaxCap_eq_ok (h : updateTaxCap st = .ok st') :
    ∃ taxCaps, st' = { st with store := { st.store with taxCaps := taxCaps } } := by
  obtain ⟨taxPolicyCap, -, h⟩ := bind_eq_ok.mp h
  obtain ⟨taxCaps, -, h⟩ := bind_eq_ok.mp h
  exact ⟨taxCaps, (Except.ok.inj h).symm⟩

/-- A block that is not the last of an epoch only burns. -/
lemma endBlocker_of_not_last (hlast : ¬ Oracle.IsPeriodLast height blocksPerWeek) :
    endBlocker K height st = burnCoinsFromBurnAccount K st := by
  have hno : Oracle.isPeriodLastBlock height blocksPerWeek = .ok false :=
    Oracle.isPeriodLastBlock_eq_ok.mpr ⟨by decide, by simp [hlast]⟩
  simp only [endBlocker, hno, ok_bind]
  exact bind_pure _

/-- The last block of an epoch closes it after the burn. -/
lemma endBlocker_of_last (hlast : Oracle.IsPeriodLast height blocksPerWeek) :
    endBlocker K height st = burnCoinsFromBurnAccount K st >>= closeEpoch K height := by
  simp only [endBlocker, Oracle.isPeriodLastBlock_of_last hlast, ok_bind]
  rfl

end Frame

end ColumbusCore.Treasury
