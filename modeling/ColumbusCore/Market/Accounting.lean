import ColumbusCore.Market.Ledger

/-!
The accounts of a swap (`handleSwapRequest` of `x/market/keeper/msg_server.go`).

A swap moves the offer to the market account, burns it, mints the asked coins and pays them out of
the market account. Trader, receiver and module accounts may coincide, so that the effect on an
account is the sum of the effects of its roles.

* `Books`, `Books.Lawful`: balances and supply behind the bank keeper, and what its operations do
  to them;
* `paid_add_fee`: the two truncations of a swap lose nothing of the integer part;
* `handleSwapRequest_accounts`: **the accounts after a swap**.
-/

namespace ColumbusCore.Market

open Go Rounding

variable {σ : Type}

/-- The books of a bank with states `σ`. -/
structure Books (σ : Type) where
  balance : σ → AccAddress → Denom → ℤ
  supply : σ → Denom → ℤ
  moduleAddress : String → AccAddress

namespace Books

/-- Coins were moved between two accounts, which may be the same. -/
def Moved (B : Books σ) (s s' : σ) (sender recipient : AccAddress) (coins : Coins) : Prop :=
  (∀ a d, B.balance s' a d = B.balance s a d - (if a = sender then coins.amountOf d else 0)
    + if a = recipient then coins.amountOf d else 0)
  ∧ ∀ d, B.supply s' d = B.supply s d

/-- Coins were created in an account. -/
def Minted (B : Books σ) (s s' : σ) (account : AccAddress) (coins : Coins) : Prop :=
  (∀ a d, B.balance s' a d = B.balance s a d + if a = account then coins.amountOf d else 0)
  ∧ ∀ d, B.supply s' d = B.supply s d + coins.amountOf d

/-- Coins of an account were destroyed. -/
def Burned (B : Books σ) (s s' : σ) (account : AccAddress) (coins : Coins) : Prop :=
  (∀ a d, B.balance s' a d = B.balance s a d - if a = account then coins.amountOf d else 0)
  ∧ ∀ d, B.supply s' d = B.supply s d - coins.amountOf d

/-- What the operations of the bank keeper do to the books where they succeed. -/
structure Lawful (B : Books σ) (K : Keepers σ) : Prop where
  accountToModule : ∀ s s' account module coins,
    K.sendCoinsFromAccountToModule s account module coins = .ok s' →
    B.Moved s s' account (B.moduleAddress module) coins
  moduleToAccount : ∀ s s' module account coins,
    K.sendCoinsFromModuleToAccount s module account coins = .ok s' →
    B.Moved s s' (B.moduleAddress module) account coins
  moduleToModule : ∀ s s' module module' coins,
    K.sendCoinsFromModuleToModule s module module' coins = .ok s' →
    B.Moved s s' (B.moduleAddress module) (B.moduleAddress module') coins
  mint : ∀ s s' module coins, K.mintCoins s module coins = .ok s' →
    B.Minted s s' (B.moduleAddress module) coins
  burn : ∀ s s' module coins, K.burnCoins s module coins = .ok s' →
    B.Burned s s' (B.moduleAddress module) coins

end Books

/-- The integer part of a decimal. -/
def integerPart (x : Dec) : ℤ := x.raw / decFormat.scale

/-- The integer part of the fee and of what is cut off the swap coin makes up the integer part of
the whole, together with the swap coin. -/
lemma paid_add_fee (swap fee : ℤ) {d : ℕ} (hd : 0 < d) :
    swap / d + (fee + (swap - swap / d * d)) / d = (swap + fee) / d := by
  have hd' : (d : ℤ) ≠ 0 := by exact_mod_cast hd.ne'
  have hsplit : swap + fee = (fee + (swap - swap / d * d)) + swap / d * d := by ring
  rw [hsplit, Int.add_mul_ediv_right _ _ hd', add_comm]

section Settle

variable {K : Keepers σ} {B : Books σ} {s s' : σ} {trader receiver : AccAddress}
  {offerCoin : Coin} {swapDecCoin feeDecCoin : DecCoin} {res : MsgSwapResponse}

/-- A fee that is not sent is zero. -/
lemma sendFee_moved (hB : B.Lawful K) {feeCoin : Coin} (h0 : 0 ≤ feeCoin.2)
    (h : sendFee K s feeCoin = .ok s') :
    B.Moved s s' (B.moduleAddress moduleName) (B.moduleAddress oracleModuleName)
      (CoinSet.ofList [feeCoin]) := by
  rw [sendFee] at h
  split_ifs at h with hpos
  · exact hB.moduleToModule _ _ _ _ _ h
  · obtain rfl := Except.ok.inj h
    have hzero : feeCoin.2 = 0 := le_antisymm (not_lt.mp hpos) h0
    refine ⟨fun a d => ?_, fun d => rfl⟩
    simp [CoinSet.amountOf_single, hzero]

/-- The accounts after the bank operations of a swap. -/
lemma settleSwap_accounts (hB : B.Lawful K) (hdenom : feeDecCoin.1 = swapDecCoin.1)
    (h : settleSwap K s trader receiver offerCoin swapDecCoin feeDecCoin = .ok (s', res)) :
    (∀ d, B.supply s' d = B.supply s d - (if offerCoin.1 = d then offerCoin.2 else 0)
      + if swapDecCoin.1 = d then res.swapCoin.2 + res.swapFee.2 else 0)
    ∧ ∀ a d, B.balance s' a d = B.balance s a d
      - (if a = trader then if offerCoin.1 = d then offerCoin.2 else 0 else 0)
      + (if a = receiver then if swapDecCoin.1 = d then res.swapCoin.2 else 0 else 0)
      + if a = B.moduleAddress oracleModuleName then
          if swapDecCoin.1 = d then res.swapFee.2 else 0 else 0 := by
  obtain ⟨⟨s₁, s₂, s₃, s₄, hsend, hburn, hmint, hpay, hfee⟩, hcoin, -, hfeeCoin, hfee0⟩ :=
    settleSwap_eq_ok h
  obtain ⟨hsendB, hsendS⟩ := hB.accountToModule _ _ _ _ _ hsend
  obtain ⟨hburnB, hburnS⟩ := hB.burn _ _ _ _ hburn
  obtain ⟨hmintB, hmintS⟩ := hB.mint _ _ _ _ hmint
  obtain ⟨hpayB, hpayS⟩ := hB.moduleToAccount _ _ _ _ _ hpay
  obtain ⟨hfeeB, hfeeS⟩ := sendFee_moved hB hfee0 hfee
  have hswapDenom : res.swapCoin.1 = swapDecCoin.1 := by rw [hcoin]
  have hfeeDenom : res.swapFee.1 = swapDecCoin.1 := by rw [hfeeCoin]; exact hdenom
  constructor
  · intro d
    rw [hfeeS, hpayS, hmintS, hburnS, hsendS, CoinSet.amountOf_single,
      CoinSet.amountOf_single, hswapDenom]
  · intro a d
    rw [hfeeB, hpayB, hmintB, hburnB, hsendB]
    simp only [CoinSet.amountOf_single, hswapDenom, hfeeDenom]
    -- the market account gets the offer and loses it, and pays all it mints
    by_cases hmarket : a = B.moduleAddress moduleName
    · simp only [if_pos hmarket]
      split_ifs <;> ring
    · simp only [if_neg hmarket]
      ring

/-- The amounts of the response: the swap coin is cut to its integer part, and the fee gets what is
left of the integer part of both. -/
lemma settleSwap_amounts (hfee : 0 ≤ feeDecCoin.2.raw)
    (h : settleSwap K s trader receiver offerCoin swapDecCoin feeDecCoin = .ok (s', res)) :
    res.swapCoin.2 = integerPart swapDecCoin.2
      ∧ res.swapFee.2 = integerPart ⟨swapDecCoin.2.raw + feeDecCoin.2.raw⟩
        - integerPart swapDecCoin.2 := by
  obtain ⟨-, hcoin, -, hfeeCoin, -⟩ := settleSwap_eq_ok h
  have hpaid : res.swapCoin.2 = swapDecCoin.2.raw / decFormat.scale := by
    rw [hcoin, Int.tdiv_eq_ediv_of_nonneg (settleSwap_pos h).le]
  have hcut : 0 ≤ swapDecCoin.2.raw - res.swapCoin.2 * decFormat.scale := by
    rw [hpaid]
    exact sub_nonneg.mpr (Int.ediv_mul_le _ (by exact_mod_cast decFormat.scale_pos.ne'))
  have hfeePaid : res.swapFee.2 = (feeDecCoin.2.raw + (swapDecCoin.2.raw
      - res.swapCoin.2 * decFormat.scale)) / decFormat.scale := by
    rw [hfeeCoin, Int.tdiv_eq_ediv_of_nonneg (add_nonneg hfee hcut)]
  refine ⟨hpaid, ?_⟩
  rw [integerPart, integerPart, ← paid_add_fee _ _ decFormat.scale_pos, add_sub_cancel_left,
    hfeePaid, hpaid]

end Settle

/-- **The accounts after a swap.** The supply of the offered denom falls by the offer, and that of
the asked denom rises by the integer part of the amount at the oracle price. The trader loses the
offer, the receiver gets the integer part of that amount without the spread fee, and the oracle
account the rest of what was minted; every other account, the market account among them, keeps its
balances. An account in several roles is affected by each of them. -/
theorem handleSwapRequest_accounts {K : Keepers σ} {B : Books σ} (hB : B.Lawful K)
    {st st' : State σ} {trader receiver : AccAddress} {offerCoin : Coin} {askDenom : Denom}
    {res : MsgSwapResponse} {priced fee : DecCoin} {spread : Dec}
    (hcompute : computeSwap st offerCoin askDenom = .ok (priced, spread))
    (hfee : spreadFee priced spread = .ok fee)
    (h : handleSwapRequest K st trader receiver offerCoin askDenom = .ok (st', res)) :
    (∀ d, B.supply st'.bank d = B.supply st.bank d
      - (if offerCoin.1 = d then offerCoin.2 else 0)
      + if askDenom = d then integerPart priced.2 else 0)
    ∧ (∀ a d, B.balance st'.bank a d = B.balance st.bank a d
      - (if a = trader then if offerCoin.1 = d then offerCoin.2 else 0 else 0)
      + (if a = receiver then
          if askDenom = d then integerPart ⟨priced.2.raw - fee.2.raw⟩ else 0 else 0)
      + if a = B.moduleAddress oracleModuleName then if askDenom = d then
          integerPart priced.2 - integerPart ⟨priced.2.raw - fee.2.raw⟩ else 0 else 0)
    ∧ ∀ a, a ≠ trader → a ≠ receiver → a ≠ B.moduleAddress oracleModuleName →
      ∀ d, B.balance st'.bank a d = B.balance st.bank a d := by
  obtain ⟨priced', spread', fee', swapAmount, st₁, bank, hcompute', hfee', hsub, hpool, hsettle,
    rfl⟩ := handleSwapRequest_eq_ok h
  obtain ⟨rfl, rfl⟩ := Prod.ext_iff.mp (Except.ok.inj (hcompute.symm.trans hcompute'))
  obtain rfl := Except.ok.inj (hfee.symm.trans hfee')
  obtain ⟨delta, rfl, -⟩ := applySwapToPool_eq_ok hpool
  obtain ⟨hdenom, -⟩ := computeSwap_pos hcompute
  obtain ⟨hfeeDenom, hfee0⟩ := spreadFee_nonneg hfee
  obtain ⟨-, rfl⟩ := Fixed.checked_eq_ok_iff.mp hsub
  obtain ⟨hsupply, hbalance⟩ := settleSwap_accounts hB (by exact hfeeDenom) hsettle
  obtain ⟨hpaid, hfeePaid⟩ := settleSwap_amounts hfee0 hsettle
  rw [sub_add_cancel] at hfeePaid
  refine ⟨fun d => ?_, fun a d => ?_, fun a htrader hreceiver horacle d => ?_⟩
  · rw [hsupply, hfeePaid, hpaid, add_sub_cancel, hdenom]
  · rw [hbalance, hfeePaid, hpaid, hdenom]
  · rw [hbalance, if_neg htrader, if_neg hreceiver, if_neg horacle]
    ring

/-! ### The accounts of a ledger -/

/-- The books of a ledger. -/
def ledgerBooks : Books Ledger where
  balance := Ledger.balance
  supply := Ledger.supply
  moduleAddress name := name

lemma debit_eq_ok {s s' : Ledger} {account : AccAddress} {coins : Coins}
    (h : s.debit account coins = .ok s') :
    s' = { s with
      balance := fun a d => s.balance a d - if account = a then coins.amountOf d else 0 } := by
  rw [Ledger.debit] at h
  split_ifs at h
  · exact (Except.ok.inj h).symm
  · exact absurd h failed_ne_ok

lemma transfer_moved {s s' : Ledger} {sender recipient : AccAddress} {coins : Coins}
    (h : s.transfer sender recipient coins = .ok s') :
    ledgerBooks.Moved s s' sender recipient coins := by
  obtain ⟨s₁, hdebit, h⟩ := bind_eq_ok.mp h
  obtain rfl := Except.ok.inj h
  obtain rfl := debit_eq_ok hdebit
  refine ⟨fun a d => ?_, fun d => rfl⟩
  simp only [ledgerBooks, Ledger.credit, eq_comm (a := a)]

lemma ledgerBooks_lawful : ledgerBooks.Lawful ledgerKeepers where
  accountToModule _ _ _ _ _ h := transfer_moved h
  moduleToAccount _ _ _ _ _ h := transfer_moved h
  moduleToModule _ _ _ _ _ h := transfer_moved h
  mint s s' module coins h := by
    obtain rfl := Except.ok.inj h
    refine ⟨fun a d => ?_, fun d => rfl⟩
    simp only [ledgerBooks, Ledger.mint, Ledger.credit, eq_comm (a := a)]
  burn s s' module coins h := by
    obtain ⟨s₁, hdebit, h⟩ := bind_eq_ok.mp h
    obtain rfl := Except.ok.inj h
    obtain rfl := debit_eq_ok hdebit
    refine ⟨fun a d => ?_, fun d => rfl⟩
    simp only [ledgerBooks, eq_comm (a := a)]

/-- A swap of a million luna whose proceeds go to the oracle account itself. -/
theorem handleSwapRequest_accounts_usdMarket : ∃ priced spread fee st' res,
    computeSwap usdMarket ("uluna", 1000000) "uusd" = .ok (priced, spread)
    ∧ 0 ≤ spread ∧ spread ≤ Fixed.one ∧ spreadFee priced spread = .ok fee
    ∧ handleSwapRequest ledgerKeepers usdMarket "trader" "oracle" ("uluna", 1000000) "uusd"
      = .ok (st', res)
    ∧ st'.bank.supply "uluna" = 0 ∧ st'.bank.supply "uusd" = integerPart priced.2
    ∧ st'.bank.balance "oracle" "uusd" = integerPart priced.2 := by
  obtain ⟨⟨priced, spread⟩, hcompute, hp⟩ := exists_of_returns
    (p := fun r : DecCoin × Dec => decide (0 ≤ r.2) && decide (r.2 ≤ Fixed.one)
      && returns (fun _ => true) (spreadFee r.1 r.2))
    (x := computeSwap usdMarket ("uluna", 1000000) "uusd") (by decide +kernel)
  obtain ⟨⟨st', res⟩, h, -⟩ := exists_of_returns (p := fun _ => true)
    (x := handleSwapRequest ledgerKeepers usdMarket "trader" "oracle" ("uluna", 1000000) "uusd")
    (by decide +kernel)
  simp only [Bool.and_eq_true, decide_eq_true_eq] at hp
  obtain ⟨⟨h0, h1⟩, hp⟩ := hp
  obtain ⟨fee, hfee, -⟩ := exists_of_returns hp
  obtain ⟨hsupply, hbalance, -⟩ := handleSwapRequest_accounts ledgerBooks_lawful hcompute hfee h
  refine ⟨priced, spread, fee, st', res, hcompute, h0, h1, hfee, h, ?_, ?_, ?_⟩
  · refine (hsupply "uluna").trans ?_
    simp [ledgerBooks, usdMarket, lunaLedger, microLunaDenom]
  · refine (hsupply "uusd").trans ?_
    simp [ledgerBooks, usdMarket, lunaLedger, microLunaDenom]
  · refine (hbalance "oracle" "uusd").trans ?_
    simp [ledgerBooks, usdMarket, lunaLedger, microLunaDenom, oracleModuleName]

end ColumbusCore.Market
