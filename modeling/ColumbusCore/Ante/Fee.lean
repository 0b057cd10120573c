import ColumbusCore.Ante.FeeTax

/-!
The fee decorator (`custom/auth/ante/fee.go`).

`checkTxFee` decides over several fallbacks how much of the fee is left for gas and returns flags;
`checkDeductFee` computes the amounts again from the flags.

* `checkFees_eq_ok`: what is left of the fee after the taxes and the refund, and that it covers
  the gas;
* `exists_refundAll`, `refundAll_eq`: the refund of the second computation, and that it is complete
  where the check found it covered;
* `anteHandle_fee_accounted`: **the declared fee is the fee deducted, the tax due and the tax
  refunded**, and no subtraction panics.
-/

namespace ColumbusCore.Ante

open Go
open Tax (Chain Keepers Context)

variable {β : Type}

/-! ### Transactions -/

/-- What the decorator reads of a `sdk.FeeTx`. -/
structure FeeTx where
  fee : Coins
  gas : UInt64
  feePayer : AccAddress
  feeGranter : Option AccAddress
  msgs : List Msg

/-- A message of the oracle. -/
def Msg.isOracle : Msg → Bool
  | .oracle => true
  | _ => false

/-- `helper.IsOracleTx`. -/
def isOracleTx (msgs : List Msg) : Bool := !msgs.isEmpty && msgs.all Msg.isOracle

/-! ### Gas -/

/-- `Coins.AmountOf` in a list of coins. -/
def amountIn (l : List Coin) (d : Denom) : ℤ := (l.find? fun e => e.1 = d).elim 0 Prod.snd

/-- `Coins.IsZero` of a list of coins. -/
def allZero (l : List Coin) : Bool := l.all fun e => e.2 = 0

/-- `Coins.IsAnyGTE`. -/
def isAnyGTE (coins : Coins) (required : List Coin) : Bool :=
  !required.isEmpty && coins.entries.any fun e =>
    decide (amountIn required e.1 ≤ e.2) && decide (amountIn required e.1 ≠ 0)

/-- `Coins.String`. -/
def coinsString (l : List Coin) : String :=
  String.intercalate "," (l.map fun e => toString e.2 ++ e.1)

/-- The gas limit at one gas price, rounded up. -/
def gasFee (gas : UInt64) (price : Denom × Dec) : Outcome Coin := do
  let fee ← price.2.mul (Fixed.ofInt (toInt64 gas.toNat))
  let amount ← fee.ceil.roundInt
  newCoin price.1 amount

/-- The gas fees a transaction has to cover one of. -/
def minRequiredGasFees (ctx : Context) (c : Chain β) (gas : UInt64) : Outcome (List Coin) :=
  if Tax.pricesIsZero (Tax.getEffectiveGasPrices ctx c) then pure []
  else (Tax.getEffectiveGasPrices ctx c).mapM (gasFee gas)

/-- The coins cover the gas. -/
def coversGas (coins : Coins) (required : List Coin) : Bool :=
  allZero required || isAnyGTE coins required

/-! ### The check of the fee -/

/-- The taxes are covered by the fee, or charged in reverse; and what is left of the fee. -/
def coverTaxes (fee taxes : Coins) (required : List Coin) : Outcome (Bool × Coins) :=
  if taxes.IsZero then pure (false, fee)
  else if ¬ fee.IsAllGTE taxes then pure (true, fee)
  else do
    let remaining ← fee.sub taxes
    if ¬ coversGas remaining required then pure (true, fee) else pure (false, remaining)

/-- The refundable taxes are refunded, or not; and what is left of the fee. -/
def refundTaxes (remaining nonTaxable : Coins) (required : List Coin) : Outcome (Bool × Coins) :=
  if ¬ nonTaxable.IsZero ∧ remaining.IsAllGTE nonTaxable then do
    let after ← remaining.sub nonTaxable
    if ¬ coversGas after required then pure (false, remaining) else pure (true, after)
  else pure (false, remaining)

/-- The result of the check: the flags, and the fees that remain. -/
structure FeeCheck where
  reverseCharge : Bool
  refundNonTaxableTaxes : Bool
  remainingFees : Coins

/-- The check of the fees of a transaction that is not one of the oracle. -/
def checkFees (ctx : Context) (c : Chain β) (tx : FeeTx) (taxes nonTaxable : Coins) :
    Outcome FeeCheck := do
  let required ← minRequiredGasFees ctx c tx.gas
  let (reverseCharge, remaining) ← coverTaxes tx.fee taxes required
  let (refund, remaining) ← refundTaxes remaining nonTaxable required
  failIf (¬ coversGas remaining required)
    ("insufficient fees; got: \"" ++ coinsString tx.fee.entries ++ "\", required: \""
      ++ coinsString required ++ "\"(gas) [+ \"" ++ coinsString taxes.entries
      ++ "\"(tax)]: insufficient fee")
  pure ⟨reverseCharge, refund, remaining⟩

/-- One round of `getTxPriority`. -/
def priorityRound (gas : ℤ) (priority : ℤ) (coin : Coin) : Outcome ℤ :=
  if gas = 0 then panicked .divisionByZero
  else
    let price := coin.2.tdiv gas
    let p := if -2 ^ 63 ≤ price ∧ price < 2 ^ 63 then price else 2 ^ 63 - 1
    pure (if priority = 0 ∨ p < priority then p else priority)

/-- `getTxPriority`. -/
def getTxPriority (fee : Coins) (gas : ℤ) : Outcome ℤ := fee.entries.foldlM (priorityRound gas) 0

/-- `checkTxFee`: the priority and the check of the fees. -/
def checkTxFee (ctx : Context) (c : Chain β) (tx : FeeTx) (taxes nonTaxable : Coins) :
    Outcome (ℤ × FeeCheck) :=
  if isOracleTx tx.msgs then pure (2 ^ 63 - 1, ⟨false, false, tx.fee⟩)
  else do
    let check ← checkFees ctx c tx taxes nonTaxable
    let priority ← getTxPriority tx.fee (toInt64 tx.gas.toNat)
    pure (priority, check)

/-! ### The deduction of the fee -/

/-- The account the fee is deducted from, after the use of a fee grant. -/
def deductFeesFrom (K : Keepers β) (s : β) (tx : FeeTx) : Outcome (AccAddress × β) :=
  match tx.feeGranter with
  | none => pure (tx.feePayer, s)
  | some granter =>
      match K.useGrantedFees with
      | none => failed "fee grants are not enabled: invalid request"
      | some useGrantedFees =>
          if granter = tx.feePayer then pure (granter, s)
          else do
            let s ← useGrantedFees s granter tx.feePayer tx.fee
            pure (granter, s)

/-- One round of the simulated fee: a tax above the fee is added. -/
def raiseToTax (feesOrTax : Coins) (tax : Coin) : Outcome Coins :=
  if feesOrTax.amountOf tax.1 = 0 then pure (feesOrTax.addCoin tax)
  else if feesOrTax.amountOf tax.1 < tax.2 then do
    let missing ← newCoin tax.1 (tax.2 - feesOrTax.amountOf tax.1)
    pure (feesOrTax.addCoin missing)
  else pure feesOrTax

/-- The fee of a simulation, raised to the taxes. -/
def simulatedFee (fee taxes : Coins) : Outcome Coins :=
  taxes.entries.foldlM raiseToTax (if fee.IsZero then taxes else fee)

/-- In a simulation, what is added to the fee is minted to the payer. -/
def mintMissing (K : Keepers β) (s : β) (payer : AccAddress) (feesOrTax fee : Coins) :
    Outcome β :=
  if feesOrTax.IsZero then pure s
  else do
    let needMint ← feesOrTax.sub fee
    if needMint.IsZero then pure s
    else do
      let s ← K.mintCoins s Tax.mintModuleName needMint
      K.sendCoinsFromModuleToAccount s Tax.mintModuleName payer needMint

/-- The fee that is deducted, raised and minted in a simulation. -/
def feesOrTax (K : Keepers β) (s : β) (payer : AccAddress) (fee taxes : Coins)
    (simulate : Bool) : Outcome (Coins × β) :=
  if simulate then do
    let raised ← simulatedFee fee taxes
    let s ← mintMissing K s payer raised fee
    pure (raised, s)
  else pure (fee, s)

/-- One round of the refund: a coin is taken off the fee if the fee has it. -/
def refundCoin (deductFees : Coins) (coin : Coin) : Outcome Coins :=
  if coin.2 ≤ deductFees.amountOf coin.1 then deductFees.sub (CoinSet.ofList [coin])
  else pure deductFees

/-- The refund of the refundable taxes. -/
def refundAll (deductFees nonTaxable : Coins) : Outcome Coins :=
  if nonTaxable.IsZero then pure deductFees else nonTaxable.entries.foldlM refundCoin deductFees

/-- `DeductFees`. -/
def deductFees (K : Keepers β) (s : β) (payer : AccAddress) (fees : Coins) : Outcome β := do
  failIf (¬ fees.IsValid)
    ("invalid fee amount: " ++ coinsString fees.entries ++ ": insufficient fee")
  match K.sendCoinsFromAccountToModule s payer Tax.feeCollectorName fees with
  | .error (.error msg) => failed (msg ++ ": insufficient funds")
  | r => r

/-- The values of the tax due and of its payer. -/
def withTaxDue (K : Keepers β) (ctx : Context) (taxes : Coins) (payer : AccAddress) : Context :=
  (ctx.withValue Tax.contextKeyTaxDue (.coins taxes)).withValue Tax.contextKeyTaxPayer
    (.str (K.accString payer))

/-- The fee without the tax and without the refund is deducted. -/
def payFee (K : Keepers β) (ctx : Context) (s : β) (payer : AccAddress)
    (fees taxes nonTaxable : Coins) : Outcome (Context × β) :=
  if fees.IsZero then pure (ctx, s)
  else do
    let rest ← fees.sub taxes
    let rest ← refundAll rest nonTaxable
    if rest.IsZero then pure (withTaxDue K ctx taxes payer, s)
    else do
      let s ← deductFees K s payer rest
      pure (withTaxDue K ctx taxes payer, s)

/-- `checkDeductFee`. -/
def checkDeductFee (K : Keepers β) (ctx : Context) (c : Chain β) (tx : FeeTx)
    (taxes nonTaxable : Coins) (simulate : Bool) : Outcome (Context × Chain β) := do
  failIf (K.getModuleAddress Tax.feeCollectorName = none)
    "fee collector module account (fee_collector) has not been set"
  let (payer, s) ← deductFeesFrom K c.rest tx
  failIf (¬ K.hasAccount s payer)
    ("fee payer address: " ++ K.accString payer ++ " does not exist: unknown address")
  let (fees, s) ← feesOrTax K s payer tx.fee taxes simulate
  let (ctx, s) ← payFee K ctx s payer fees taxes nonTaxable
  pure (ctx, { c with rest := s })

/-- The flags of the transaction, which a simulation does not check. -/
def feeFlags (ctx : Context) (c : Chain β) (tx : FeeTx) (taxes nonTaxable : Coins)
    (simulate : Bool) : Outcome (ℤ × Bool × Coins) :=
  if simulate then pure (0, false, nonTaxable)
  else do
    let (priority, check) ← checkTxFee ctx c tx taxes nonTaxable
    pure (priority, check.reverseCharge, if check.refundNonTaxableTaxes then nonTaxable else ∅)

/-- `FeeDecorator.AnteHandle`, up to the next decorator. -/
def anteHandle (K : Keepers β) (ctx : Context) (c : Chain β) (tx : FeeTx) (simulate : Bool) :
    Outcome (Context × Chain β) := do
  failIf (¬ simulate ∧ 0 < ctx.blockHeight ∧ tx.gas = 0)
    "must provide positive gas: invalid gas limit"
  let (taxes, nonTaxable) ← filterMsgAndComputeTax c simulate tx.msgs
  let (priority, reverseCharge, nonTaxable) ← feeFlags ctx c tx taxes nonTaxable simulate
  let (ctx, c) ← checkDeductFee K ctx c tx (if reverseCharge then ∅ else taxes) nonTaxable
    simulate
  pure (({ ctx with priority := priority }).withValue Tax.contextKeyTaxReverseCharge
    (.bool reverseCharge), c)

/-! ### The check -/

/-- A part of the fee taken off it. -/
lemma sub_eq_ok_of_le {a b : Coins} (h : ∀ d, b.amountOf d ≤ a.amountOf d) :
    a.sub b = .ok (CoinSet.safeSub a b) :=
  CoinSet.sub_eq_ok_iff.mpr ⟨h, rfl⟩

lemma isValid_safeSub {a b : Coins} (h : ∀ d, b.amountOf d ≤ a.amountOf d) :
    (CoinSet.safeSub a b).IsValid :=
  CoinSet.isValid_iff.mpr fun d => by
    rw [CoinSet.amountOf_safeSub]
    exact sub_nonneg.mpr (h d)

lemma safeSub_empty (a : Coins) : CoinSet.safeSub a ∅ = a :=
  Amounts.ext_amountOf fun d => by simp

/-- The coins, if the flag is set. -/
def when (flag : Bool) (coins : Coins) : Coins := if flag then coins else ∅

/-- The taxes are always settled: without reverse charge they are taken off the fee, which has
them. -/
lemma exists_coverTaxes {fee taxes : Coins} (hfee : fee.IsValid) (htaxes : taxes.IsValid)
    (required : List Coin) :
    ∃ reverse, (∀ d, (when (!reverse) taxes).amountOf d ≤ fee.amountOf d)
      ∧ coverTaxes fee taxes required
        = .ok (reverse, CoinSet.safeSub fee (when (!reverse) taxes)) := by
  have hnn := CoinSet.isValid_iff.mp hfee
  have hreverse : (∀ d, (when (!true) taxes).amountOf d ≤ fee.amountOf d)
      ∧ CoinSet.safeSub fee (when (!true) taxes) = fee :=
    ⟨fun d => by simpa [when] using hnn d, safeSub_empty fee⟩
  rw [coverTaxes]
  split_ifs with hzero hgte
  · refine ⟨false, fun d => ?_, ?_⟩
    · simpa [when, Amounts.isZero_iff.mp hzero d] using hnn d
    · rw [show CoinSet.safeSub fee (when (!false) taxes) = fee from
        Amounts.ext_amountOf fun d => by simp [when, Amounts.isZero_iff.mp hzero d]]
      rfl
  · have hle := (CoinSet.isAllGTE_iff hfee htaxes).mp hgte
    rw [sub_eq_ok_of_le hle, ok_bind]
    split_ifs
    · exact ⟨false, hle, rfl⟩
    · exact ⟨true, hreverse.1, by rw [hreverse.2]; rfl⟩
  · exact ⟨true, hreverse.1, by rw [hreverse.2]; rfl⟩

/-- The refundable taxes are always settled as well. -/
lemma exists_refundTaxes {remaining nonTaxable : Coins} (hrem : remaining.IsValid)
    (hnon : nonTaxable.IsValid) (required : List Coin) :
    ∃ refund, (∀ d, (when refund nonTaxable).amountOf d ≤ remaining.amountOf d)
      ∧ refundTaxes remaining nonTaxable required
        = .ok (refund, CoinSet.safeSub remaining (when refund nonTaxable)) := by
  have hnone : (∀ d, (when false nonTaxable).amountOf d ≤ remaining.amountOf d)
      ∧ CoinSet.safeSub remaining (when false nonTaxable) = remaining :=
    ⟨fun d => by simpa [when] using CoinSet.isValid_iff.mp hrem d, safeSub_empty remaining⟩
  rw [refundTaxes]
  split_ifs with hcond
  · have hle := (CoinSet.isAllGTE_iff hrem hnon).mp hcond.2
    rw [sub_eq_ok_of_le hle, ok_bind]
    split_ifs
    · exact ⟨true, hle, rfl⟩
    · exact ⟨false, hnone.1, by rw [hnone.2]; rfl⟩
  · exact ⟨false, hnone.1, by rw [hnone.2]; rfl⟩

/-- The coins the check leaves of the fee. -/
def feeRest (fee taxes nonTaxable : Coins) : Coins :=
  CoinSet.safeSub (CoinSet.safeSub fee taxes) nonTaxable

/-- The fee has the tax that is due and the tax that is refunded. -/
def Covers (fee taxes nonTaxable : Coins) : Prop :=
  ∀ d, taxes.amountOf d ≤ fee.amountOf d
    ∧ nonTaxable.amountOf d ≤ (CoinSet.safeSub fee taxes).amountOf d

section Check

variable {ctx : Context} {c : Chain β} {tx : FeeTx} {taxes nonTaxable : Coins}

/-- **The check of the fees.** What it leaves is the fee without the tax that is due and without
the tax that is refunded, and it covers the gas. -/
theorem checkFees_eq_ok (hfee : tx.fee.IsValid) (htaxes : taxes.IsValid)
    (hnon : nonTaxable.IsValid) {check : FeeCheck}
    (h : checkFees ctx c tx taxes nonTaxable = .ok check) :
    ∃ required, minRequiredGasFees ctx c tx.gas = .ok required
      ∧ Covers tx.fee (when (!check.reverseCharge) taxes)
        (when check.refundNonTaxableTaxes nonTaxable)
      ∧ check.remainingFees = feeRest tx.fee (when (!check.reverseCharge) taxes)
        (when check.refundNonTaxableTaxes nonTaxable)
      ∧ coversGas check.remainingFees required = true := by
  obtain ⟨required, hrequired, h⟩ := bind_eq_ok.mp h
  obtain ⟨reverse, hle, hcover⟩ := exists_coverTaxes hfee htaxes required
  obtain ⟨refund, hle', hrefund⟩ := exists_refundTaxes (isValid_safeSub hle) hnon required
  rw [hcover, ok_bind] at h
  dsimp only at h
  rw [hrefund, ok_bind] at h
  obtain ⟨⟨⟩, hgas, h⟩ := bind_eq_ok.mp h
  obtain rfl := Except.ok.inj h
  exact ⟨required, hrequired, fun d => ⟨hle d, hle' d⟩, rfl, not_not.mp (failIf_eq_ok.mp hgas)⟩

/-- No subtraction of the check panics. -/
lemma checkFees_ne (hfee : tx.fee.IsValid) (htaxes : taxes.IsValid) (hnon : nonTaxable.IsValid) :
    checkFees ctx c tx taxes nonTaxable ≠ .error (.panic .negativeDifference) := by
  refine bind_ne_error ?_ fun required _ => ?_
  · rw [minRequiredGasFees]
    split_ifs
    · simp
    · intro hmap
      obtain ⟨price, -, hprice⟩ := exists_of_mapM_error hmap
      rcases bind_eq_error.mp hprice with he | ⟨fee, -, he⟩
      · exact absurd (Fixed.checked_eq_error_iff.mp he).2 (by simp)
      · rcases bind_eq_error.mp he with he | ⟨amount, -, he⟩
        · exact absurd (Fixed.checkedInt_eq_error_iff.mp he).2 (by simp)
        · rw [newCoin] at he
          split_ifs at he
          exact absurd (Except.error.inj he) (by simp)
  · obtain ⟨reverse, hle, hcover⟩ := exists_coverTaxes hfee htaxes required
    obtain ⟨refund, -, hrefund⟩ := exists_refundTaxes (isValid_safeSub hle) hnon required
    rw [hcover, ok_bind]
    dsimp only
    rw [hrefund, ok_bind]
    exact bind_ne_error failIf_ne_panic fun _ _ => by simp

end Check

/-! ### The deduction -/

lemma refundCoin_eq {fees : Coins} (hv : fees.IsValid) (coin : Coin) :
    refundCoin fees coin = .ok (fees.addCoin
      (coin.1, if coin.2 ≤ fees.amountOf coin.1 then -coin.2 else 0)) := by
  rw [refundCoin]
  split_ifs with h
  · have hle : ∀ d, (CoinSet.ofList [coin] : Coins).amountOf d ≤ fees.amountOf d := fun d => by
      rw [CoinSet.amountOf_single]
      split_ifs with hd
      · rwa [← hd]
      · exact CoinSet.isValid_iff.mp hv d
    rw [sub_eq_ok_of_le hle]
    refine congrArg Except.ok (Amounts.ext_amountOf fun d => ?_)
    rw [CoinSet.amountOf_safeSub, CoinSet.amountOf_single, CoinSet.amountOf_addCoin]
    split_ifs <;> ring
  · rw [CoinSet.addCoin_zero]
    rfl

/-- **The refund**: every coin that the fee has is refunded whole, and the others not at all. -/
theorem exists_refundAll {fees : Coins} (hv : fees.IsValid) (nonTaxable : Coins) :
    ∃ r, refundAll fees nonTaxable = .ok r ∧ r.IsValid ∧ ∀ d, r.amountOf d = fees.amountOf d
      - if nonTaxable.amountOf d ≤ fees.amountOf d then nonTaxable.amountOf d else 0 := by
  rw [refundAll]
  split_ifs with hzero
  · exact ⟨fees, rfl, hv, fun d => by simp [Amounts.isZero_iff.mp hzero d]⟩
  · obtain ⟨r, hr, hvalid, hsum⟩ := CoinSet.exists_foldlM_entries
      (g := fun e y => if e.2 ≤ y then -e.2 else 0) (x := nonTaxable) (fun d y _ => by simp)
      (fun e _ y hy => by split_ifs <;> omega)
      (fun c hc e _ => refundCoin_eq hc e) hv
    refine ⟨r, hr, hvalid, fun d => ?_⟩
    rw [hsum]
    dsimp only
    split_ifs <;> ring

/-- The refund is complete where the check found it covered. -/
lemma refundAll_eq {fees nonTaxable : Coins} (hv : fees.IsValid)
    (hle : ∀ d, nonTaxable.amountOf d ≤ fees.amountOf d) :
    refundAll fees nonTaxable = .ok (CoinSet.safeSub fees nonTaxable) := by
  obtain ⟨r, hr, -, hsum⟩ := exists_refundAll hv nonTaxable
  rw [hr]
  refine congrArg Except.ok (Amounts.ext_amountOf fun d => ?_)
  rw [hsum, if_pos (hle d), CoinSet.amountOf_safeSub]

/-- The fee is deducted up to the tax that is due and the tax that is refunded. -/
lemma payFee_eq (K : Keepers β) (ctx : Context) (s : β) (payer : AccAddress)
    {fee taxes nonTaxable : Coins} (h : Covers fee taxes nonTaxable) :
    payFee K ctx s payer fee taxes nonTaxable =
      if fee.IsZero then pure (ctx, s)
      else if (feeRest fee taxes nonTaxable).IsZero then pure (withTaxDue K ctx taxes payer, s)
      else deductFees K s payer (feeRest fee taxes nonTaxable) >>= fun s =>
        pure (withTaxDue K ctx taxes payer, s) := by
  rw [payFee, sub_eq_ok_of_le fun d => (h d).1, ok_bind,
    refundAll_eq (isValid_safeSub fun d => (h d).1) fun d => (h d).2]
  rfl

lemma deductFees_eq_ok {K : Keepers β} {s s' : β} {payer : AccAddress} {fees : Coins}
    (h : deductFees K s payer fees = .ok s') :
    K.sendCoinsFromAccountToModule s payer Tax.feeCollectorName fees = .ok s' := by
  obtain ⟨⟨⟩, -, h⟩ := bind_eq_ok.mp h
  split at h
  · exact absurd h (by simp [failed])
  · exact h

/-- The coins are deducted from the payer, where there are any. -/
def Deducted (K : Keepers β) (s : β) (payer : AccAddress) (coins : Coins) (s' : β) : Prop :=
  if coins.IsZero then s' = s
  else K.sendCoinsFromAccountToModule s payer Tax.feeCollectorName coins = .ok s'

lemma taxDue_withTaxDue (K : Keepers β) (ctx : Context) (taxes : Coins) (payer : AccAddress) :
    (withTaxDue K ctx taxes payer).taxDue = taxes := by
  have hkey : Tax.contextKeyTaxDue ≠ Tax.contextKeyTaxPayer := by decide
  rw [withTaxDue, Context.taxDue, Context.value_withValue_of_ne _ _ hkey,
    Context.value_withValue_self]

/-- The flag and the priority leave the tax due as it is. -/
lemma taxDue_flagged (ctx : Context) (priority : ℤ) (reverse : Bool) :
    (({ ctx with priority := priority }).withValue Tax.contextKeyTaxReverseCharge
      (.bool reverse)).taxDue = ctx.taxDue := by
  have hkey : Tax.contextKeyTaxDue ≠ Tax.contextKeyTaxReverseCharge := by decide
  rw [Context.taxDue, Context.value_withValue_of_ne _ _ hkey]
  rfl

/-- A payment deducts the rest of the fee and leaves the tax for the post handler; also where the
fee is zero, since it covers no tax then. -/
lemma payFee_eq_ok {K : Keepers β} {ctx ctx' : Context} {s s' : β} {payer : AccAddress}
    {fee taxes nonTaxable : Coins} (htaxes : taxes.IsValid) (hnon : nonTaxable.IsValid)
    (hcov : Covers fee taxes nonTaxable) (hctx : ctx.value Tax.contextKeyTaxDue = none)
    (h : payFee K ctx s payer fee taxes nonTaxable = .ok (ctx', s')) :
    ctx'.taxDue = taxes ∧ Deducted K s payer (feeRest fee taxes nonTaxable) s' := by
  rw [payFee_eq K ctx s payer hcov] at h
  rw [Deducted]
  split_ifs at h with hfee hrest
  · obtain ⟨rfl, rfl⟩ := Prod.mk.inj (Except.ok.inj h)
    have htax : ∀ d, taxes.amountOf d = 0 := fun d =>
      le_antisymm ((hcov d).1.trans_eq (Amounts.isZero_iff.mp hfee d))
        (CoinSet.isValid_iff.mp htaxes d)
    have hnon0 : ∀ d, nonTaxable.amountOf d = 0 := fun d => by
      have hle := (hcov d).2
      rw [CoinSet.amountOf_safeSub, Amounts.isZero_iff.mp hfee d, htax d, sub_zero] at hle
      exact le_antisymm hle (CoinSet.isValid_iff.mp hnon d)
    have hrest : (feeRest fee taxes nonTaxable).IsZero := Amounts.isZero_iff.mpr fun d => by
      simp [feeRest, htax d, hnon0 d, Amounts.isZero_iff.mp hfee d]
    refine ⟨?_, if_pos hrest ▸ rfl⟩
    rw [Context.taxDue, hctx]
    exact Amounts.ext_amountOf fun d => by simp [htax d]
  · obtain ⟨rfl, rfl⟩ := Prod.mk.inj (Except.ok.inj h)
    exact ⟨taxDue_withTaxDue .., if_pos hrest ▸ rfl⟩
  · obtain ⟨s₁, hs, h⟩ := bind_eq_ok.mp h
    obtain ⟨rfl, rfl⟩ := Prod.mk.inj (Except.ok.inj h)
    refine ⟨taxDue_withTaxDue .., ?_⟩
    rw [if_neg hrest]
    exact deductFees_eq_ok hs

/-! ### The decorator -/

section Decorator

variable {K : Keepers β} {ctx ctx' : Context} {c c' : Chain β} {tx : FeeTx}

lemma checkDeductFee_eq_ok {taxes nonTaxable : Coins}
    (h : checkDeductFee K ctx c tx taxes nonTaxable false = .ok (ctx', c')) :
    ∃ payer s s', deductFeesFrom K c.rest tx = .ok (payer, s)
      ∧ payFee K ctx s payer tx.fee taxes nonTaxable = .ok (ctx', s')
      ∧ c' = { c with rest := s' } := by
  obtain ⟨⟨⟩, -, h⟩ := bind_eq_ok.mp h
  obtain ⟨⟨payer, s⟩, hpayer, h⟩ := bind_eq_ok.mp h
  obtain ⟨⟨⟩, -, h⟩ := bind_eq_ok.mp h
  obtain ⟨⟨fees, s₁⟩, hfees, h⟩ := bind_eq_ok.mp h
  obtain ⟨rfl, rfl⟩ := Prod.mk.inj (Except.ok.inj hfees)
  obtain ⟨⟨ctx₁, s'⟩, hpay, h⟩ := bind_eq_ok.mp h
  obtain ⟨rfl, rfl⟩ := Prod.mk.inj (Except.ok.inj h)
  exact ⟨payer, s, s', hpayer, hpay, rfl⟩

/-- What an accepted transaction went through. -/
lemma anteHandle_eq_ok (h : anteHandle K ctx c tx false = .ok (ctx', c')) :
    ∃ taxes nonTaxable priority check ctx₁,
      filterMsgAndComputeTax c false tx.msgs = .ok (taxes, nonTaxable)
      ∧ checkTxFee ctx c tx taxes nonTaxable = .ok (priority, check)
      ∧ checkDeductFee K ctx c tx (when (!check.reverseCharge) taxes)
          (when check.refundNonTaxableTaxes nonTaxable) false = .ok (ctx₁, c')
      ∧ ctx' = ({ ctx₁ with priority := priority }).withValue Tax.contextKeyTaxReverseCharge
          (.bool check.reverseCharge) := by
  obtain ⟨⟨⟩, -, h⟩ := bind_eq_ok.mp h
  obtain ⟨⟨taxes, nonTaxable⟩, hfilter, h⟩ := bind_eq_ok.mp h
  obtain ⟨flags, hflags, h⟩ := bind_eq_ok.mp h
  obtain ⟨⟨priority, check⟩, hcheck, hflags⟩ := bind_eq_ok.mp
    (show (checkTxFee ctx c tx taxes nonTaxable >>= fun r => pure (r.1, r.2.reverseCharge,
      if r.2.refundNonTaxableTaxes then nonTaxable else ∅)) = .ok flags from hflags)
  obtain rfl := Except.ok.inj hflags
  obtain ⟨⟨ctx₁, c₁⟩, hdeduct, h⟩ := bind_eq_ok.mp h
  obtain ⟨rfl, rfl⟩ := Prod.mk.inj (Except.ok.inj h)
  refine ⟨taxes, nonTaxable, priority, check, ctx₁, hfilter, hcheck, ?_, rfl⟩
  rw [← hdeduct]
  cases check.reverseCharge <;> rfl

lemma checkTxFee_eq_ok (horacle : isOracleTx tx.msgs = false) {taxes nonTaxable : Coins}
    {priority : ℤ} {check : FeeCheck}
    (h : checkTxFee ctx c tx taxes nonTaxable = .ok (priority, check)) :
    checkFees ctx c tx taxes nonTaxable = .ok check := by
  rw [checkTxFee, horacle] at h
  obtain ⟨check', hcheck, h⟩ := bind_eq_ok.mp
    (show (checkFees ctx c tx taxes nonTaxable >>= fun check =>
      getTxPriority tx.fee (toInt64 tx.gas.toNat) >>= fun priority => pure (priority, check))
        = .ok (priority, check) from h)
  obtain ⟨priority', -, h⟩ := bind_eq_ok.mp h
  obtain ⟨-, rfl⟩ := Prod.mk.inj (Except.ok.inj h)
  exact hcheck

end Decorator

/-! ### No subtraction panics -/

/-- The keepers check a balance or an allowance before they subtract from it. -/
structure SubtractionFree (K : Keepers β) : Prop where
  send_ne : ∀ s payer module coins,
    K.sendCoinsFromAccountToModule s payer module coins ≠ .error (.panic .negativeDifference)
  useGrantedFees_ne : ∀ useGrantedFees, K.useGrantedFees = some useGrantedFees →
    ∀ s granter grantee fee,
      useGrantedFees s granter grantee fee ≠ .error (.panic .negativeDifference)

lemma subtractionFree_ledger : SubtractionFree Tax.ledgerKeepers where
  send_ne s _ _ _ := s.transfer_ne_panic _ _ _ _
  useGrantedFees_ne _ h := by simp [Tax.ledgerKeepers] at h

lemma getTxPriority_ne (fee : Coins) (gas : ℤ) :
    getTxPriority fee gas ≠ .error (.panic .negativeDifference) :=
  foldlM_ne_error (fun _ => True) trivial (fun _ _ _ _ _ _ => trivial) fun coin _ p _ => by
    rw [priorityRound]
    split_ifs <;> simp [panicked]

section NoPanic

variable {K : Keepers β} {ctx : Context} {c : Chain β} {tx : FeeTx}

lemma deductFeesFrom_ne (hK : SubtractionFree K) (s : β) :
    deductFeesFrom K s tx ≠ .error (.panic .negativeDifference) := by
  rw [deductFeesFrom]
  cases tx.feeGranter with
  | none => simp
  | some granter =>
      cases hgrant : K.useGrantedFees with
      | none => simp [failed]
      | some useGrantedFees =>
          dsimp only
          split_ifs
          · simp
          · exact bind_ne_error (hK.useGrantedFees_ne _ hgrant _ _ _ _) fun _ _ => by simp

lemma deductFees_ne (hK : SubtractionFree K) (s : β) (payer : AccAddress) (fees : Coins) :
    deductFees K s payer fees ≠ .error (.panic .negativeDifference) := by
  refine bind_ne_error failIf_ne_panic fun _ _ => ?_
  split
  · simp [failed]
  · exact hK.send_ne _ _ _ _

lemma payFee_ne (hK : SubtractionFree K) {s : β} {payer : AccAddress}
    {fee taxes nonTaxable : Coins} (hcov : Covers fee taxes nonTaxable) :
    payFee K ctx s payer fee taxes nonTaxable ≠ .error (.panic .negativeDifference) := by
  rw [payFee_eq K ctx s payer hcov]
  split_ifs
  · simp
  · simp
  · exact bind_ne_error (deductFees_ne hK _ _ _) fun _ _ => by simp

/-- No subtraction of the decorator panics. -/
lemma anteHandle_ne (hK : SubtractionFree K) (hfee : tx.fee.IsValid)
    (horacle : isOracleTx tx.msgs = false) :
    anteHandle K ctx c tx false ≠ .error (.panic .negativeDifference) := by
  refine bind_ne_error failIf_ne_panic fun _ _ => bind_ne_error
    (filterMsgs_ne (by simp) (by simp) _ _) fun taxed hfilter => ?_
  obtain ⟨htaxes, hnon⟩ := validPair_filterMsgs
    ⟨CoinSet.isValid_empty, CoinSet.isValid_empty⟩ tx.msgs hfilter
  have hcheck : checkTxFee ctx c tx taxed.1 taxed.2 ≠ .error (.panic .negativeDifference) := by
    rw [checkTxFee, horacle]
    exact bind_ne_error (checkFees_ne hfee htaxes hnon) fun _ _ =>
      bind_ne_error (getTxPriority_ne _ _) fun _ _ => by simp
  refine bind_ne_error (bind_ne_error hcheck fun _ _ => by simp) fun flags hflags => ?_
  obtain ⟨⟨priority, check⟩, hrun, hflags⟩ := bind_eq_ok.mp hflags
  obtain ⟨-, -, hcov, -⟩ := checkFees_eq_ok hfee htaxes hnon (checkTxFee_eq_ok horacle hrun)
  obtain rfl := Except.ok.inj hflags
  refine bind_ne_error (bind_ne_error failIf_ne_panic fun _ _ => bind_ne_error
    (deductFeesFrom_ne hK _) fun paid _ => bind_ne_error failIf_ne_panic fun _ _ => bind_ne_error
    (by simp [feesOrTax]) fun fees hfees => bind_ne_error ?_ fun _ _ => by simp) fun _ _ => by simp
  obtain rfl := Except.ok.inj hfees
  have hpay : payFee K ctx paid.2 paid.1 tx.fee (when (!check.reverseCharge) taxed.1)
      (when check.refundNonTaxableTaxes taxed.2) ≠ .error (.panic .negativeDifference) :=
    payFee_ne hK hcov
  cases hreverse : check.reverseCharge <;> rw [hreverse] at hpay <;> exact hpay

end NoPanic

/-! ### The fee, accounted for -/

/-- A fee in three valid parts: what is deducted for gas, the tax left for the post handler, and
the tax that is refunded. -/
structure FeeSplit (fee : Coins) where
  deducted : Coins
  due : Coins
  refunded : Coins
  valid : deducted.IsValid ∧ due.IsValid ∧ refunded.IsValid
  total : ∀ d, fee.amountOf d = deducted.amountOf d + due.amountOf d + refunded.amountOf d

lemma isValid_when {flag : Bool} {coins : Coins} (h : coins.IsValid) :
    (when flag coins).IsValid := by
  cases flag with
  | false => exact CoinSet.isValid_empty
  | true => exact h

/-- A fee that has the tax and the refund splits into them and the rest. -/
def FeeSplit.ofCovers {fee taxes nonTaxable : Coins} (htaxes : taxes.IsValid)
    (hnon : nonTaxable.IsValid) (h : Covers fee taxes nonTaxable) : FeeSplit fee where
  deducted := feeRest fee taxes nonTaxable
  due := taxes
  refunded := nonTaxable
  valid := ⟨isValid_safeSub fun d => (h d).2, htaxes, hnon⟩
  total d := by
    rw [feeRest, CoinSet.amountOf_safeSub, CoinSet.amountOf_safeSub]
    ring

/-- **The fee of an accepted transaction is accounted for.** In every denom the declared fee is
the amount deducted, the tax due and the tax refunded. The tax due is all of the computed tax, or
nothing under reverse charge; the amount deducted is what the check left of the fee, which covers
the gas, and it is what the payer is charged. No subtraction panics on the way. -/
theorem anteHandle_fee_accounted {K : Keepers β} (hK : SubtractionFree K) {ctx : Context}
    (hctx : ctx.value Tax.contextKeyTaxDue = none) {c : Chain β} {tx : FeeTx}
    (hfee : tx.fee.IsValid) (horacle : isOracleTx tx.msgs = false) :
    anteHandle K ctx c tx false ≠ .error (.panic .negativeDifference)
    ∧ ∀ ctx' c', anteHandle K ctx c tx false = .ok (ctx', c') →
      ∃ taxes nonTaxable required priority check payer s, ∃ split : FeeSplit tx.fee,
        filterMsgAndComputeTax c false tx.msgs = .ok (taxes, nonTaxable)
        ∧ minRequiredGasFees ctx c tx.gas = .ok required
        ∧ checkTxFee ctx c tx taxes nonTaxable = .ok (priority, check)
        ∧ deductFeesFrom K c.rest tx = .ok (payer, s)
        ∧ ctx'.value Tax.contextKeyTaxReverseCharge = some (.bool check.reverseCharge)
        ∧ split.due = (if check.reverseCharge then ∅ else taxes)
        ∧ ctx'.taxDue = split.due
        ∧ split.refunded = (if check.refundNonTaxableTaxes then nonTaxable else ∅)
        ∧ split.deducted = check.remainingFees
        ∧ coversGas split.deducted required = true
        ∧ Deducted K s payer split.deducted c'.rest := by
  refine ⟨anteHandle_ne hK hfee horacle, fun ctx' c' h => ?_⟩
  obtain ⟨taxes, nonTaxable, priority, check, ctx₁, hfilter, hcheck, hdeduct, rfl⟩ :=
    anteHandle_eq_ok h
  obtain ⟨htaxes, hnon⟩ := validPair_filterMsgs
    ⟨CoinSet.isValid_empty, CoinSet.isValid_empty⟩ tx.msgs hfilter
  obtain ⟨required, hrequired, hcov, hrest, hgas⟩ :=
    checkFees_eq_ok hfee htaxes hnon (checkTxFee_eq_ok horacle hcheck)
  obtain ⟨payer, s, s', hpayer, hpay, rfl⟩ := checkDeductFee_eq_ok hdeduct
  obtain ⟨hdue, hdeducted⟩ := payFee_eq_ok (isValid_when htaxes) (isValid_when hnon) hcov hctx hpay
  rw [hrest] at hgas
  refine ⟨taxes, nonTaxable, required, priority, check, payer, s,
    FeeSplit.ofCovers (isValid_when htaxes) (isValid_when hnon) hcov, hfilter, hrequired, hcheck,
    hpayer, Context.value_withValue_self .., ?_, (taxDue_flagged ..).trans hdue, rfl, hrest.symm,
    hgas, hdeducted⟩
  show when (!check.reverseCharge) taxes = _
  cases check.reverseCharge <;> rfl

/-- A fee of 3 dollars for a transfer of 100 dollars: half a dollar is due as tax. -/
def taxedTransfer : FeeTx where
  fee := CoinSet.ofList [("uusd", 3000000)]
  gas := 100000
  feePayer := "alice"
  feeGranter := none
  msgs := [.taxed (.send
    { fromAddress := "alice", toAddress := "bob", amount := CoinSet.ofList [("uusd", 100000000)] })]

theorem taxedTransfer_fee_accounted :
    ∃ ctx' c', anteHandle Tax.ledgerKeepers (Tax.contextWith [])
        (Tax.ledgerChain [("alice", "uusd", 200000000)]) taxedTransfer false = .ok (ctx', c')
      ∧ ∃ split : FeeSplit taxedTransfer.fee, split.due = ctx'.taxDue
        ∧ split.due.amountOf "uusd" = 500000
        ∧ split.deducted.amountOf "uusd" + split.refunded.amountOf "uusd" = 2500000 := by
  obtain ⟨⟨ctx', c'⟩, hrun, htest⟩ := exists_of_returns
    (p := fun r : Context × Chain Tax.Ledger => decide (r.1.taxDue.amountOf "uusd" = 500000))
    (x := anteHandle Tax.ledgerKeepers (Tax.contextWith [])
      (Tax.ledgerChain [("alice", "uusd", 200000000)]) taxedTransfer false) (by decide +kernel)
  obtain ⟨-, -, -, -, -, -, -, split, -, -, -, -, -, -, hdue, -⟩ :=
    (anteHandle_fee_accounted subtractionFree_ledger (by decide) (by decide +kernel)
      (by decide)).2 ctx' c' hrun
  have htest : ctx'.taxDue.amountOf "uusd" = 500000 := of_decide_eq_true htest
  rw [hdue] at htest
  have hfee : taxedTransfer.fee.amountOf "uusd" = 3000000 := by decide +kernel
  have htotal := split.total "uusd"
  exact ⟨ctx', c', hrun, split, hdue.symm, htest, by omega⟩

end ColumbusCore.Ante
