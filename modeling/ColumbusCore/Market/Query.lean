import ColumbusCore.Market.Spread

/-!
The swap query (`x/market/keeper/swap.go`) and what it says about a swap.

`simulateSwap` computes the coin a swap would pay. Query and handler take the fee in different ways:
the handler subtracts any fee, the query a positive one only, and panics where the handler would go
on with a negative amount.

* `simulateSwap`: the code;
* `quotedCoin_eq_ok_iff`: the two subtractions agree;
* `settleSwap_eq`: a settlement is its bank operations, `moveCoins`;
* `PoolFault`: a failure of the pool update;
* `simulateSwap_predicts`: **the query predicts the execution**.
-/

namespace ColumbusCore.Market

open Go Rounding

variable {σ : Type}

/-! ### The query -/

/-- An error of `ComputeSwap` as the query reports it. -/
def reportError {α : Type} : Outcome α → Outcome α
  | .ok a => .ok a
  | .error (.error msg) => failed (msg ++ ": panic")
  | .error (.panic p) => panicked p

lemma reportError_eq_ok_iff {α : Type} {x : Outcome α} {a : α} :
    reportError x = .ok a ↔ x = .ok a := by
  cases x with
  | ok a' => rfl
  | error e => cases e <;> simp [reportError, failed, panicked]

/-- The proceeds less the fee, where there is one. -/
def quotedCoin (swapCoin : DecCoin) (spread : Dec) : Outcome DecCoin :=
  if spread.IsPositive then do
    let swapFeeAmt ← spread.mul swapCoin.2
    if swapFeeAmt.IsPositive then do
      let swapFee ← DecCoin.ofDec swapCoin.1 swapFeeAmt
      swapCoin.sub swapFee
    else pure swapCoin
  else pure swapCoin

/-- `simulateSwap`. -/
def simulateSwap (st : State σ) (offerCoin : Coin) (askDenom : Denom) : Outcome Coin := do
  failIf (askDenom = offerCoin.1) (askDenom ++ ": recursive swap")
  failIf (2 ^ 100 ≤ offerCoin.2.natAbs) (toString offerCoin.2 ++ offerCoin.1 ++ ": invalid coins")
  let (swapCoin, spread) ← reportError (computeSwap st offerCoin askDenom)
  let swapCoin ← quotedCoin swapCoin spread
  let (retCoin, _) ← swapCoin.truncateDecimal
  pure retCoin

/-- What a quote that was given is. -/
lemma simulateSwap_eq_ok_iff {st : State σ} {offerCoin coin : Coin} {askDenom : Denom}
    (hbits : offerCoin.2.natAbs < 2 ^ 100) :
    simulateSwap st offerCoin askDenom = .ok coin
      ↔ ∃ priced spread quoted rest, computeSwap st offerCoin askDenom = .ok (priced, spread)
        ∧ quotedCoin priced spread = .ok quoted
        ∧ quoted.truncateDecimal = .ok (coin, rest) := by
  constructor
  · intro h
    obtain ⟨-, h⟩ := failIf_bind_eq_ok.mp h
    obtain ⟨-, h⟩ := failIf_bind_eq_ok.mp h
    obtain ⟨⟨priced, spread⟩, hcompute, h⟩ := bind_eq_ok.mp h
    obtain ⟨quoted, hquoted, h⟩ := bind_eq_ok.mp h
    obtain ⟨⟨coin', rest⟩, htrunc, h⟩ := bind_eq_ok.mp h
    obtain rfl := Except.ok.inj h
    exact ⟨priced, spread, quoted, rest, reportError_eq_ok_iff.mp hcompute, hquoted, htrunc⟩
  · rintro ⟨priced, spread, quoted, rest, hcompute, hquoted, htrunc⟩
    obtain ⟨hne, -⟩ := computeSwap_eq_ok hcompute
    rw [simulateSwap, failIf_eq_ok.mpr hne.symm, ok_bind, failIf_eq_ok.mpr (not_le.mpr hbits),
      ok_bind, reportError_eq_ok_iff.mpr hcompute, ok_bind]
    refine bind_eq_ok.mpr ⟨quoted, hquoted, bind_eq_ok.mpr ⟨_, htrunc, rfl⟩⟩

/-! ### The two subtractions -/

section Fee

variable {priced : DecCoin} {spread : Dec}

/-- The product of a positive spread with the proceeds is not negative. -/
lemma spread_mul_nonneg {fee : Dec} (hpos : 0 < priced.2.raw) (hspread : spread.IsPositive)
    (h : spread.mul priced.2 = .ok fee) : 0 ≤ fee.raw := by
  obtain ⟨-, rfl⟩ := Fixed.checked_eq_ok_iff.mp h
  exact halfEven_nonneg (mul_nonneg hspread.le hpos.le)

/-- A subtraction of nothing. -/
lemma sub_zero_eq_ok {x zero : Dec} (hfit : Fixed.Fits decFormat x.raw) (hzero : zero.raw = 0) :
    x.sub zero = .ok x :=
  Fixed.checked_eq_ok_iff.mpr ⟨by rw [hzero, sub_zero]; exact hfit, by rw [hzero, sub_zero]⟩

/-- **The query takes the fee the handler takes**, and gives a quote exactly where the handler is
left with an amount that is not negative. -/
lemma quotedCoin_eq_ok_iff (hvalid : validDenom priced.1 = true) (hpos : 0 < priced.2.raw)
    (hfit : Fixed.Fits decFormat priced.2.raw) {quoted : DecCoin} :
    quotedCoin priced spread = .ok quoted
      ↔ ∃ fee amount, spreadFee priced spread = .ok fee ∧ priced.2.sub fee.2 = .ok amount
        ∧ 0 ≤ amount.raw ∧ quoted = (priced.1, amount) := by
  -- without a fee both keep the proceeds
  have hfree : ∀ zero : Dec, zero.raw = 0 → (priced = quoted
      ↔ ∃ fee amount, (priced.1, zero) = fee ∧ priced.2.sub fee.2 = .ok amount
        ∧ 0 ≤ amount.raw ∧ quoted = (priced.1, amount)) := by
    intro zero hzero
    constructor
    · rintro rfl
      exact ⟨_, priced.2, rfl, sub_zero_eq_ok hfit hzero, hpos.le, rfl⟩
    · rintro ⟨fee, amount, rfl, hsub, -, rfl⟩
      obtain rfl := Except.ok.inj (hsub.symm.trans (sub_zero_eq_ok hfit hzero))
      rfl
  rw [quotedCoin, spreadFee]
  by_cases hspread : spread.IsPositive
  · simp only [if_pos hspread]
    cases hmul : spread.mul priced.2 with
    | error e => simp [error_bind]
    | ok amt =>
        have hamt := spread_mul_nonneg hpos hspread hmul
        simp only [ok_bind, DecCoin.ofDec_eq_ok_iff.mpr ⟨hvalid, hamt, rfl⟩]
        by_cases hpositive : amt.IsPositive
        · rw [if_pos hpositive, DecCoin.sub_eq_ok_iff]
          simp
        · rw [if_neg hpositive, pure_eq_ok, Except.ok.injEq]
          simp only [Except.ok.injEq]
          exact hfree amt (le_antisymm (not_lt.mp hpositive) hamt)
  · simp only [if_neg hspread, pure_eq_ok, Except.ok.injEq]
    exact hfree _ (zero_mul _)

end Fee

/-! ### The bank operations of a swap -/

/-- The bank operations of a swap whose coins are known: the offer is taken and burned, the swap
coin and the fee are minted and paid. -/
def moveCoins (K : Keepers σ) (s : σ) (trader receiver : AccAddress)
    (offerCoin swapCoin feeCoin : Coin) : Outcome σ := do
  let s ← K.sendCoinsFromAccountToModule s trader moduleName (CoinSet.ofList [offerCoin])
  let s ← K.burnCoins s moduleName (CoinSet.ofList [offerCoin])
  let s ← K.mintCoins s moduleName (CoinSet.ofList [(swapCoin.1, swapCoin.2 + feeCoin.2)])
  let s ← K.sendCoinsFromModuleToAccount s moduleName receiver (CoinSet.ofList [swapCoin])
  sendFee K s feeCoin

/-- **A settlement is its bank operations**: where the swap coin is positive and the proceeds are a
decimal, nothing else can fail. -/
lemma settleSwap_eq {K : Keepers σ} {s : σ} {trader receiver : AccAddress} {offerCoin : Coin}
    {swapDecCoin feeDecCoin : DecCoin}
    (hpos : 0 < swapDecCoin.2.raw.tdiv decFormat.scale) (h0 : 0 ≤ swapDecCoin.2.raw)
    (hfee : 0 ≤ feeDecCoin.2.raw)
    (hfit : Fixed.Fits decFormat (feeDecCoin.2.raw + swapDecCoin.2.raw)) :
    ∃ feeCoin, settleSwap K s trader receiver offerCoin swapDecCoin feeDecCoin
      = moveCoins K s trader receiver offerCoin
          (swapDecCoin.1, swapDecCoin.2.raw.tdiv decFormat.scale) feeCoin >>= fun s' =>
        pure (s', ⟨(swapDecCoin.1, swapDecCoin.2.raw.tdiv decFormat.scale), feeCoin⟩) := by
  have hS : (0 : ℤ) < decFormat.scale := by exact_mod_cast decFormat.scale_pos
  obtain ⟨rest, htrunc⟩ := DecCoin.exists_truncateDecimal h0
    (hfit.of_le h0 (le_add_of_nonneg_left hfee))
  have hrest := DecCoin.truncateDecimal_snd htrunc
  have hrest0 : 0 ≤ rest.2.raw := by
    rw [hrest, sub_nonneg, Int.tdiv_eq_ediv_of_nonneg h0]
    exact Int.ediv_mul_le _ hS.ne'
  have hsum0 : 0 ≤ feeDecCoin.2.raw + rest.2.raw := add_nonneg hfee hrest0
  have hsumFit : Fixed.Fits decFormat (feeDecCoin.2.raw + rest.2.raw) := by
    refine hfit.of_le hsum0 (add_le_add_right ?_ _)
    rw [hrest]
    exact sub_le_self _ (mul_nonneg hpos.le hS.le)
  obtain ⟨change, hfeeTrunc⟩ :=
    @DecCoin.exists_truncateDecimal (feeDecCoin.1, ⟨feeDecCoin.2.raw + rest.2.raw⟩) hsum0 hsumFit
  refine ⟨(feeDecCoin.1, (feeDecCoin.2.raw + rest.2.raw).tdiv decFormat.scale), ?_⟩
  rw [settleSwap, moveCoins]
  cases K.sendCoinsFromAccountToModule s trader moduleName (CoinSet.ofList [offerCoin]) with
  | error e => rfl
  | ok s₁ =>
      simp only [ok_bind]
      cases K.burnCoins s₁ moduleName (CoinSet.ofList [offerCoin]) with
      | error e => rfl
      | ok s₂ =>
          simp only [ok_bind, htrunc, failIf_eq_ok.mpr (not_not.mpr hpos), Fixed.add,
            Fixed.checked_eq_ok_iff.mpr ⟨hsumFit, rfl⟩, hfeeTrunc, bind_assoc]

/-- The pool update of a swap that was quoted fails with `e`: on the amount that `ComputeSwap`
returns, less the fee of its spread, which is `coin` without its decimals. -/
def PoolFault (st : State σ) (offerCoin : Coin) (askDenom : Denom) (coin : Coin) (e : Fault) :
    Prop :=
  ∃ priced spread fee amount rest, computeSwap st offerCoin askDenom = .ok (priced, spread)
    ∧ spreadFee priced spread = .ok fee ∧ priced.2.sub fee.2 = .ok amount
    ∧ DecCoin.truncateDecimal (priced.1, amount) = .ok (coin, rest)
    ∧ applySwapToPool st offerCoin (priced.1, amount) = .error e

lemma applySwapToPool_bank {st st' : State σ} {offerCoin : Coin} {askCoin : DecCoin}
    (h : applySwapToPool st offerCoin askCoin = .ok st') : st'.bank = st.bank := by
  rw [applySwapToPool] at h
  split_ifs at h
  · obtain rfl := Except.ok.inj h
    rfl
  · obtain ⟨delta, -, h⟩ := bind_eq_ok.mp h
    obtain rfl := Except.ok.inj h
    rfl

/-- The coins of a settlement were moved. -/
lemma settleSwap_moves {K : Keepers σ} {s s' : σ} {trader receiver : AccAddress}
    {offerCoin : Coin} {swapDecCoin feeDecCoin : DecCoin} {res : MsgSwapResponse}
    (h : settleSwap K s trader receiver offerCoin swapDecCoin feeDecCoin = .ok (s', res)) :
    moveCoins K s trader receiver offerCoin res.swapCoin res.swapFee = .ok s' := by
  obtain ⟨⟨s₁, s₂, s₃, s₄, hsend, hburn, hmint, hpay, hfee⟩, -⟩ := settleSwap_eq_ok h
  rw [moveCoins, hsend, ok_bind, hburn, ok_bind, hmint, ok_bind, hpay, ok_bind, hfee]

/-! ### The prediction -/

section Prediction

variable {K : Keepers σ} {st : State σ} {trader receiver : AccAddress} {offerCoin : Coin}
  {askDenom : Denom}

/-- A swap that succeeds was quoted. -/
lemma simulateSwap_of_handleSwapRequest {st' : State σ} {res : MsgSwapResponse}
    (hbits : offerCoin.2.natAbs < 2 ^ 100)
    (h : handleSwapRequest K st trader receiver offerCoin askDenom = .ok (st', res)) :
    simulateSwap st offerCoin askDenom = .ok res.swapCoin
      ∧ moveCoins K st.bank trader receiver offerCoin res.swapCoin res.swapFee = .ok st'.bank := by
  obtain ⟨priced, spread, fee, amount, st₁, bank, hcompute, hfee, hsub, hpool, hsettle, rfl⟩ :=
    handleSwapRequest_eq_ok h
  rw [← applySwapToPool_bank hpool]
  refine ⟨?_, settleSwap_moves hsettle⟩
  obtain ⟨hvalid, hpos, hfit⟩ := computeSwap_priced hcompute
  have hamount := settleSwap_pos hsettle
  obtain ⟨-, hcoin, -⟩ := settleSwap_eq_ok hsettle
  have hamountFit : Fixed.Fits decFormat amount.raw := by
    obtain ⟨hamountFit, rfl⟩ := Fixed.checked_eq_ok_iff.mp hsub
    exact hamountFit
  have hquoted := (quotedCoin_eq_ok_iff hvalid hpos hfit).mpr
    ⟨fee, amount, hfee, hsub, hamount.le, rfl⟩
  obtain ⟨rest, htrunc⟩ :=
    @DecCoin.exists_truncateDecimal (priced.1, amount) hamount.le hamountFit
  rw [hcoin]
  exact (simulateSwap_eq_ok_iff hbits).mpr
    ⟨priced, spread, (priced.1, amount), rest, hcompute, hquoted, htrunc⟩

/-- A swap that was quoted pays the quote, unless the pool update or the bank fails. -/
lemma handleSwapRequest_of_simulateSwap {coin : Coin} (hbits : offerCoin.2.natAbs < 2 ^ 100)
    (h : simulateSwap st offerCoin askDenom = .ok coin) (hcoin : 0 < coin.2) :
    (∃ e, handleSwapRequest K st trader receiver offerCoin askDenom = .error e
        ∧ PoolFault st offerCoin askDenom coin e)
      ∨ ∃ feeCoin, (∃ st', handleSwapRequest K st trader receiver offerCoin askDenom
            = .ok (st', ⟨coin, feeCoin⟩))
        ∨ ∃ e, handleSwapRequest K st trader receiver offerCoin askDenom = .error e
          ∧ moveCoins K st.bank trader receiver offerCoin coin feeCoin = .error e := by
  obtain ⟨priced, spread, quoted, rest, hcompute, hquoted, htrunc⟩ :=
    (simulateSwap_eq_ok_iff hbits).mp h
  obtain ⟨hvalid, hpos, hfit⟩ := computeSwap_priced hcompute
  obtain ⟨fee, amount, hfee, hsub, hamount, rfl⟩ :=
    (quotedCoin_eq_ok_iff hvalid hpos hfit).mp hquoted
  have hhandle : handleSwapRequest K st trader receiver offerCoin askDenom
      = applySwapToPool st offerCoin (priced.1, amount) >>= fun st₁ =>
        settleSwap K st₁.bank trader receiver offerCoin (priced.1, amount) fee >>= fun r =>
          pure ({ st₁ with bank := r.1 }, r.2) := by
    rw [handleSwapRequest, hcompute, ok_bind]
    simp only [hfee, ok_bind, hsub]
  rw [hhandle]
  cases hpool : applySwapToPool st offerCoin (priced.1, amount) with
  | error e =>
      exact Or.inl
        ⟨e, rfl, priced, spread, fee, amount, rest, hcompute, hfee, hsub, htrunc, hpool⟩
  | ok st₁ =>
      right
      obtain ⟨rfl, -⟩ := DecCoin.truncateDecimal_fst htrunc
      have hsum : fee.2.raw + amount.raw = priced.2.raw := by
        obtain ⟨-, rfl⟩ := Fixed.checked_eq_ok_iff.mp hsub
        exact add_sub_cancel _ _
      obtain ⟨feeCoin, hsettle⟩ := @settleSwap_eq _ K st₁.bank trader receiver offerCoin
        (priced.1, amount) fee hcoin hamount (spreadFee_nonneg hfee).2 (hsum ▸ hfit)
      refine ⟨feeCoin, ?_⟩
      rw [ok_bind, hsettle, applySwapToPool_bank hpool]
      cases moveCoins K st.bank trader receiver offerCoin _ feeCoin with
      | error e => exact Or.inr ⟨e, rfl, rfl⟩
      | ok s' => exact Or.inl ⟨_, rfl⟩

/-- **The swap query predicts the execution.** A swap that succeeds pays exactly the coin that was
quoted before it. A positive quote is paid, unless the pool update fails or one of the bank
operations that move the offer, the quoted coin and the fee does. -/
theorem simulateSwap_predicts (hbits : offerCoin.2.natAbs < 2 ^ 100) :
    (∀ st' res, handleSwapRequest K st trader receiver offerCoin askDenom = .ok (st', res) →
      simulateSwap st offerCoin askDenom = .ok res.swapCoin
        ∧ moveCoins K st.bank trader receiver offerCoin res.swapCoin res.swapFee
          = .ok st'.bank)
    ∧ ∀ coin, simulateSwap st offerCoin askDenom = .ok coin → 0 < coin.2 →
      (∃ e, handleSwapRequest K st trader receiver offerCoin askDenom = .error e
          ∧ PoolFault st offerCoin askDenom coin e)
        ∨ ∃ feeCoin, (∃ st', handleSwapRequest K st trader receiver offerCoin askDenom
              = .ok (st', ⟨coin, feeCoin⟩))
          ∨ ∃ e, handleSwapRequest K st trader receiver offerCoin askDenom = .error e
            ∧ moveCoins K st.bank trader receiver offerCoin coin feeCoin = .error e :=
  ⟨fun _ _ h => simulateSwap_of_handleSwapRequest hbits h,
    fun _ h hcoin => handleSwapRequest_of_simulateSwap hbits h hcoin⟩

end Prediction

/-- A million luna for dollars: the swap succeeds, so it was quoted. -/
theorem simulateSwap_usdMarket : ∃ st' res,
    handleSwapRequest ledgerKeepers usdMarket "trader" "trader" ("uluna", 1000000) "uusd"
        = .ok (st', res)
      ∧ simulateSwap usdMarket ("uluna", 1000000) "uusd" = .ok res.swapCoin
      ∧ 0 < res.swapCoin.2 := by
  obtain ⟨⟨st', res⟩, h, hpos⟩ := exists_of_returns
    (p := fun r : State Ledger × MsgSwapResponse => decide (0 < r.2.swapCoin.2))
    (x := handleSwapRequest ledgerKeepers usdMarket "trader" "trader" ("uluna", 1000000) "uusd")
    (by decide +kernel)
  obtain ⟨hquote, -⟩ := (simulateSwap_predicts (by decide)).1 st' res h
  exact ⟨st', res, h, hquote, of_decide_eq_true hpos⟩

end ColumbusCore.Market
