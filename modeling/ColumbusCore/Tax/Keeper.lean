import ColumbusCore.Tax.Exemption

/-!
The tax keeper (`x/tax/keeper/keeper.go`, `x/tax/keeper/tax_split.go`).

* `computeTax`, `computeTax_eq_ok_iff`: the burn tax, truncated coin by coin;
* `processTaxSplits`: the tax split into what is distributed to the community pool and to the
  oracle, what stays with the fee collector and what is burned;
* `deductTax`: the tax taken from a sender under reverse charge.

Events and log lines are left out: nothing reads them.
-/

namespace ColumbusCore.Tax

open Go Rounding

variable {β : Type}

/-! ### Gas prices -/

/-- `DecCoins.IsZero`. -/
def pricesIsZero (prices : List (Denom × Dec)) : Bool := prices.all fun p => p.2 = 0

/-- `GetGasPrices`. -/
def Params.getGasPrices (p : Params) : List (Denom × Dec) :=
  p.gasPrices.mergeSort fun a b => decide (a.1 ≤ b.1)

/-- `GetEffectiveGasPrices`. -/
def getEffectiveGasPrices (ctx : Context) (c : Chain β) : List (Denom × Dec) :=
  if pricesIsZero c.params.getGasPrices then ctx.minGasPrices.entries
  else c.params.getGasPrices.map fun p => (p.1, max (ctx.minGasPrices.amountOf p.1) p.2)

/-! ### The burn tax -/

/-- The tax on an amount: its product with the rate, truncated. -/
def taxAmount (rate : Dec) (amount : ℤ) : Outcome ℤ := do
  let due ← (Fixed.ofInt amount : Dec).mul rate
  due.truncateInt

/-- One round of `ComputeTax`. -/
def addTax (rate : Dec) (taxes : Coins) (coin : Coin) : Outcome Coins := do
  let amount ← taxAmount rate coin.2
  if 0 < amount then do
    let tax ← newCoin coin.1 amount
    pure (taxes.addCoin tax)
  else pure taxes

/-- `ComputeTax`. -/
def computeTax (c : Chain β) (amount : Coins) : Outcome Coins :=
  amount.entries.foldlM (addTax c.params.burnTaxRate) ∅

/-- `IsReverseCharge`. The assertion on the value of the context is unchecked. -/
def isReverseCharge (ctx : Context) : Outcome Bool :=
  match ctx.value contextKeyTaxReverseCharge with
  | some (.bool b) => .ok b
  | _ => panicked .typeAssertion

/-! ### Tax splits -/

/-- One coin of a share. -/
def addShare (rate : Dec) (shares : Coins) (coin : Coin) : Outcome Coins := do
  let part ← rate.mulInt coin.2
  let amount ← part.roundInt
  let share ← newCoin coin.1 amount
  pure (shares.addCoin share)

/-- The share of coins at a rate, coin by coin: the loop of each split. -/
def shareOf (rate : Dec) (coins : Coins) : Outcome Coins := coins.entries.foldlM (addShare rate) ∅

/-- What is distributed of the taxes, and the rest, which is burned. -/
def burnSplit (burnSplitRate : Dec) (taxes : Coins) : Outcome (Coins × Coins) :=
  if burnSplitRate.IsPositive then do
    let delta ← shareOf burnSplitRate taxes
    let burned ← taxes.sub delta
    pure (delta, burned)
  else pure (∅, taxes)

/-- The community tax adjusted to what the distribution module takes later. -/
def applyCommunityTax (communityTax oracleSplitRate : Dec) : Outcome Dec := do
  let product ← communityTax.mul oracleSplitRate
  let sum ← product.add Fixed.one
  let divisor ← sum.sub communityTax
  let quotient ← oracleSplitRate.quo divisor
  communityTax.mul quotient

/-- The community tax of what is distributed, and what remains of it. -/
def communitySplit (communityTax oracleSplitRate : Dec) (delta : Coins) :
    Outcome (Coins × Coins) :=
  if communityTax.IsPositive then do
    let rate ← applyCommunityTax communityTax oracleSplitRate
    let community ← shareOf rate delta
    let remaining ← delta.sub community
    pure (community, remaining)
  else pure (∅, delta)

/-- The part of the oracle. -/
def oracleSplitCoins (oracleSplitRate : Dec) (delta : Coins) : Outcome Coins :=
  if oracleSplitRate.IsPositive then shareOf oracleSplitRate delta else pure ∅

/-- The three shares that leave the fee collector. -/
structure TaxSplit where
  community : Coins
  oracle : Coins
  burned : Coins

/-- The computation of the shares in `ProcessTaxSplits`. -/
def splitTaxes (burnSplitRate oracleSplitRate communityTax : Dec) (taxes : Coins) :
    Outcome TaxSplit := do
  let (delta, burned) ← burnSplit burnSplitRate taxes
  let (community, remaining) ← communitySplit communityTax oracleSplitRate delta
  let oracle ← oracleSplitCoins oracleSplitRate remaining
  pure ⟨community, oracle, burned⟩

/-- A share sent from the fee collector to a module, if there is one. -/
def sendShare (K : Keepers β) (s : β) (module : String) (coins : Coins) : Outcome β :=
  if coins.IsZero then pure s
  else K.sendCoinsFromModuleToModule s feeCollectorName module coins

/-- The community tax is sent to the distribution module and added to the community pool. -/
def fundCommunityPool (K : Keepers β) (s : β) (coins : Coins) : Outcome β :=
  if coins.IsZero then pure s
  else do
    let s ← K.sendCoinsFromModuleToModule s feeCollectorName distributionModuleName coins
    let pool ← (K.communityPool s).add (DecCoins.ofCoins coins)
    pure (K.setCommunityPool s pool)

/-- `ProcessTaxSplits`. -/
def processTaxSplits (K : Keepers β) (c : Chain β) (taxes : Coins) : Outcome (Chain β) := do
  let split ← splitTaxes c.treasury.params.burnTaxSplit c.treasury.params.oracleSplit
    (K.getCommunityTax c.rest) taxes
  let s ← fundCommunityPool K c.rest split.community
  let s ← sendShare K s oracleModuleName split.oracle
  let s ← sendShare K s burnModuleName split.burned
  pure { c with rest := s }

/-! ### Deduction -/

/-- The tax is sent to the fee collector, split and recorded. -/
def collectTax (K : Keepers β) (c : Chain β) (sender : AccAddress) (taxes : Coins) :
    Outcome (Chain β) := do
  let s ← K.sendCoinsFromAccountToModule c.rest sender feeCollectorName taxes
  let c ← processTaxSplits K { c with rest := s } taxes
  pure { c with treasury := c.treasury.recordEpochTaxProceeds taxes }

/-- The tax is collected, unless there is none or the deduction is skipped. -/
def chargeTax (K : Keepers β) (c : Chain β) (sender : AccAddress) (taxes : Coins)
    (skipDeduct : Bool) : Outcome (Chain β) :=
  if ¬ taxes.IsZero ∧ ¬ skipDeduct then collectTax K c sender taxes else pure c

/-- `DeductTax`: the net amount, and the chain after the deduction. -/
def deductTax (K : Keepers β) (ctx : Context) (c : Chain β) (sender : AccAddress)
    (amount : Coins) (skipDeduct : Bool) : Outcome (Coins × Chain β) := do
  let reverse ← isReverseCharge ctx
  if ¬ reverse then pure (amount, c)
  else do
    let taxes ← computeTax c amount
    let netAmount ← amount.sub taxes
    let c ← chargeTax K c sender taxes skipDeduct
    pure (netAmount, c)

/-! ### The amounts -/

lemma taxAmount_eq (rate : Dec) (amount : ℤ) :
    taxAmount rate amount = if Fixed.Fits decFormat (amount * rate.raw)
      then .ok ((amount * rate.raw).tdiv decFormat.scale) else panicked .overflow := by
  rw [taxAmount, Fixed.ofInt_mul, Fixed.checked]
  split_ifs with h
  · rw [ok_bind, truncateInt_eq_ok h]
  · rfl

/-- The body of the loop of `ComputeTax`. -/
lemma addTax_eq (rate : Dec) (taxes : Coins) (coin : Coin) :
    addTax rate taxes coin = (taxAmount rate coin.2).map (max · 0) >>= fun y =>
      .ok (taxes.addCoin (coin.1, y)) := by
  rw [addTax]
  cases taxAmount rate coin.2 with
  | error e => rfl
  | ok x =>
      simp only [ok_bind, Except.map]
      split_ifs with h
      · rw [newCoin_eq_ok_iff.mpr ⟨h.le, rfl⟩, ok_bind, max_eq_left h.le]
        rfl
      · rw [max_eq_right (not_lt.mp h), CoinSet.addCoin_zero]
        rfl

/-- **The burn tax.** At every denom, the truncated product with the rate, if it is positive. -/
theorem computeTax_eq_ok_iff {c : Chain β} {amount taxes : Coins} :
    computeTax c amount = .ok taxes ↔ ∀ d,
      Fixed.Fits decFormat (amount.amountOf d * c.params.burnTaxRate.raw)
        ∧ taxes.amountOf d
          = max ((amount.amountOf d * c.params.burnTaxRate.raw).tdiv decFormat.scale) 0 := by
  rw [computeTax, CoinSet.coinwise_eq_ok_iff (fun acc e _ => addTax_eq c.params.burnTaxRate acc e) (fun d => by
    simp [taxAmount_eq, Fixed.Fits, Except.map])]
  refine forall_congr' fun d => ?_
  rw [taxAmount_eq]
  split_ifs with h
  · simp [Except.map, h, eq_comm]
  · simp [Except.map, h, panicked]

/-- The burn tax is defined where the products fit. -/
lemma exists_computeTax {c : Chain β} {amount : Coins}
    (h : ∀ d, Fixed.Fits decFormat (amount.amountOf d * c.params.burnTaxRate.raw)) :
    ∃ taxes, computeTax c amount = .ok taxes := by
  cases ht : computeTax c amount with
  | ok taxes => exact ⟨taxes, rfl⟩
  | error x =>
      obtain ⟨e, he, herr⟩ := CoinSet.coinwise_eq_error
        (fun acc e _ => addTax_eq c.params.burnTaxRate acc e) ht
      obtain ⟨h1, -⟩ := Amounts.mem_entries_iff.mp (show (e.1, e.2) ∈ amount.entries from he)
      have hfit := h e.1
      rw [h1] at hfit
      rw [taxAmount_eq, if_pos hfit] at herr
      exact absurd herr (by simp [Except.map])

/-- The body of the loop of a split. -/
def shareBody (rate : Dec) (coin : Coin) : Outcome ℤ :=
  if Fixed.Fits decFormat (rate.raw * coin.2) then
    (newCoin coin.1 (halfEven (rate.raw * coin.2) decFormat.scale)).map Prod.snd
  else panicked .overflow

lemma addShare_eq (rate : Dec) (shares : Coins) (coin : Coin) :
    addShare rate shares coin = shareBody rate coin >>= fun y =>
      .ok (shares.addCoin (coin.1, y)) := by
  rw [addShare, shareBody, Fixed.mulInt, Fixed.checked]
  split_ifs with h
  · rw [ok_bind, roundInt_eq_ok h, ok_bind, newCoin]
    split_ifs <;> rfl
  · rfl

lemma shareBody_eq_ok_iff {rate : Dec} {coin : Coin} {y : ℤ} :
    shareBody rate coin = .ok y ↔ Fixed.Fits decFormat (rate.raw * coin.2)
      ∧ 0 ≤ y ∧ y = halfEven (rate.raw * coin.2) decFormat.scale := by
  rw [shareBody, newCoin]
  split_ifs with h hneg
  · simp only [panicked, Except.map, reduceCtorEq, false_iff]
    omega
  · simp only [Except.map, Except.ok.injEq, h, true_and]
    omega
  · simp [panicked, h]

/-- **A share.** At every denom, the product with the rate rounded half to even. -/
theorem shareOf_eq_ok_iff {rate : Dec} {coins shares : Coins} :
    shareOf rate coins = .ok shares ↔ ∀ d, Fixed.Fits decFormat (rate.raw * coins.amountOf d)
      ∧ 0 ≤ shares.amountOf d
      ∧ shares.amountOf d = halfEven (rate.raw * coins.amountOf d) decFormat.scale := by
  rw [shareOf, CoinSet.coinwise_eq_ok_iff (fun acc e _ => addShare_eq rate acc e) (fun d =>
    shareBody_eq_ok_iff.mpr (by simp [Fixed.Fits, halfEven, roundNat]))]
  exact forall_congr' fun d => shareBody_eq_ok_iff

/-! ### What is left as it is -/

lemma processTaxSplits_eq_ok {K : Keepers β} {c c' : Chain β} {taxes : Coins}
    (h : processTaxSplits K c taxes = .ok c') : ∃ s, c' = { c with rest := s } := by
  obtain ⟨_, -, h⟩ := bind_eq_ok.mp h
  obtain ⟨_, -, h⟩ := bind_eq_ok.mp h
  obtain ⟨_, -, h⟩ := bind_eq_ok.mp h
  obtain ⟨s, -, h⟩ := bind_eq_ok.mp h
  exact ⟨s, (Except.ok.inj h).symm⟩

/-- Charging a tax changes the recorded proceeds and the state behind the keepers only. -/
lemma chargeTax_eq_ok {K : Keepers β} {c c' : Chain β} {sender : AccAddress} {taxes : Coins}
    {skipDeduct : Bool} (h : chargeTax K c sender taxes skipDeduct = .ok c') :
    ∃ s, c' = { c with
      treasury := if skipDeduct then c.treasury else c.treasury.recordEpochTaxProceeds taxes
      rest := s } := by
  rw [chargeTax] at h
  split_ifs at h with hcond
  · obtain ⟨s, -, h⟩ := bind_eq_ok.mp h
    obtain ⟨c₁, hsplit, h⟩ := bind_eq_ok.mp h
    obtain ⟨s', rfl⟩ := processTaxSplits_eq_ok hsplit
    obtain rfl := Except.ok.inj h
    exact ⟨s', by simp [hcond.2]⟩
  · obtain rfl := Except.ok.inj h
    refine ⟨c.rest, ?_⟩
    by_cases hskip : skipDeduct
    · simp [hskip]
    · have hzero : taxes.IsZero := not_not.mp fun hne => hcond ⟨hne, hskip⟩
      simp [hskip, Treasury.Store.recordEpochTaxProceeds, hzero]

/-- A deduction under reverse charge. -/
lemma deductTax_eq_ok {K : Keepers β} {ctx : Context} {c c' : Chain β} {sender : AccAddress}
    {amount net : Coins} {skipDeduct : Bool} (hrev : isReverseCharge ctx = .ok true)
    (h : deductTax K ctx c sender amount skipDeduct = .ok (net, c')) :
    ∃ taxes, computeTax c amount = .ok taxes ∧ net = CoinSet.safeSub amount taxes
      ∧ chargeTax K c sender taxes skipDeduct = .ok c' := by
  rw [deductTax, hrev, ok_bind] at h
  simp only [not_true_eq_false, if_false] at h
  obtain ⟨taxes, htaxes, h⟩ := bind_eq_ok.mp h
  obtain ⟨net', hnet, h⟩ := bind_eq_ok.mp h
  obtain ⟨c₁, hc₁, h⟩ := bind_eq_ok.mp h
  obtain ⟨rfl, rfl⟩ := Prod.ext_iff.mp (Except.ok.inj h)
  exact ⟨taxes, htaxes, (CoinSet.sub_eq_ok_iff.mp hnet).2, hc₁⟩

/-- Without reverse charge nothing is deducted. -/
lemma deductTax_of_not_reverse (K : Keepers β) {ctx : Context} (c : Chain β)
    (sender : AccAddress) (amount : Coins) (skipDeduct : Bool)
    (hrev : isReverseCharge ctx = .ok false) :
    deductTax K ctx c sender amount skipDeduct = .ok (amount, c) := by
  rw [deductTax, hrev, ok_bind]
  rfl

/-! ### What is assumed of the bank -/

/-- The modules a tax is split between. -/
def splitModules : List String := [distributionModuleName, oracleModuleName, burnModuleName]

/-- The bank and the distribution keeper do what they document: a transfer from the fee collector
to a module either moves the coins or returns an error, a module account being there, and the
community pool is a record of its own. -/
structure BankLawful (K : Keepers β) : Prop where
  send_ne_panic : ∀ s, ∀ m ∈ splitModules, ∀ coins p,
    K.sendCoinsFromModuleToModule s feeCollectorName m coins ≠ .error (.panic p)
  send_balance : ∀ s s' m coins,
    K.sendCoinsFromModuleToModule s feeCollectorName m coins = .ok s' → ∀ a d,
      K.getBalance s' a d = K.getBalance s a d
        - (if K.getModuleAddress feeCollectorName = some a then coins.amountOf d else 0)
        + (if K.getModuleAddress m = some a then coins.amountOf d else 0)
  send_pool : ∀ s s' m coins,
    K.sendCoinsFromModuleToModule s feeCollectorName m coins = .ok s' →
      K.communityPool s' = K.communityPool s
  set_balance : ∀ s pool, K.getBalance (K.setCommunityPool s pool) = K.getBalance s
  set_pool : ∀ s pool, K.communityPool (K.setCommunityPool s pool) = pool

end ColumbusCore.Tax
