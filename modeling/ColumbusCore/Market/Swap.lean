import ColumbusCore.Market.Types

/-!
Swaps (`x/market/keeper/swap.go`, `x/market/keeper/msg_server.go`) and the replenishment of the
pools at the end of a block (`x/market/keeper/keeper.go`, `x/market/abci.go`).

The oracle price of a swap goes through the SDR and is rounded at every step. A swap with luna on
one side is charged the spread of a constant product, which is itself rounded, and moves the
terra pool delta by what is left of the priced amount, converted back.

* `computeInternalSwap`, `computeSwap`, `applySwapToPool`, `handleSwapRequest`, `replenishPools`:
  the code;
* `computeInternalSwap_eq_ok`: a conversion without rounding;
* `computeSwap_pos`, `swapSpread_of_luna`: a priced amount is positive, and with luna on one side
  the spread is at least the minimum; `poolSpread_eq_ok` is the spread that was computed;
* `handleSwapRequest_eq_ok`, `handleSwapRequest_frame`: what a swap that succeeds has done, and
  what it leaves;
* `handleSwapRequest_of_luna`: **where a swap with luna can succeed at all**.
-/

namespace ColumbusCore.Market

open Go Rounding

variable {σ : Type}

/-! ### Prices -/

/-- `GetLunaExchangeRate` of the oracle. -/
def getLunaExchangeRate (s : Oracle.Store) (denom : Denom) : Outcome Dec :=
  if denom = microLunaDenom then .ok Fixed.one
  else
    match s.exchangeRates[denom]? with
    | none => failed (denom ++ ": unknown denom")
    | some rate => .ok rate

/-- `GetTobinTax` of the oracle. -/
def getTobinTax (s : Oracle.Store) (denom : Denom) : Outcome Dec :=
  match s.tobinTaxes[denom]? with
  | none => failed (denom ++ ": no tobin tax")
  | some tax => .ok tax

/-- An exchange rate; a missing one is an error of the market. -/
def effectivePrice (s : Oracle.Store) (denom : Denom) : Outcome Dec :=
  match getLunaExchangeRate s denom with
  | .ok rate => .ok rate
  | .error _ => failed (denom ++ ": no price registered with oracle")

/-- `ComputeInternalSwap`. -/
def computeInternalSwap (s : Oracle.Store) (offerCoin : DecCoin) (askDenom : Denom) :
    Outcome DecCoin :=
  if offerCoin.1 = askDenom then .ok offerCoin
  else do
    let offerRate ← effectivePrice s offerCoin.1
    let askRate ← effectivePrice s askDenom
    let amount ← offerCoin.2.mul askRate
    let retAmount ← amount.quo offerRate
    failIf (retAmount ≤ 0) (decString offerCoin.2 ++ offerCoin.1 ++ ": invalid coins")
    DecCoin.ofDec askDenom retAmount

/-- The spread of a swap between terra denoms: the larger tobin tax. -/
def tobinSpread (s : Oracle.Store) (offerDenom askDenom : Denom) : Outcome Dec := do
  let offerTobinTax ← getTobinTax s offerDenom
  let askTobinTax ← getTobinTax s askDenom
  pure (if offerTobinTax < askTobinTax then askTobinTax else offerTobinTax)

/-- The spread of a swap with luna on one side: that of the constant product, and no less than
the minimum. -/
def poolSpread (p : Params) (terraPoolDelta : Dec) (lunaOffered : Bool)
    (baseOfferAmount : Dec) : Outcome Dec := do
  let cp ← p.basePool.mul p.basePool
  let terraPool ← p.basePool.add terraPoolDelta
  let lunaPool ← cp.quo terraPool
  let offerPool := if lunaOffered then lunaPool else terraPool
  let askPool := if lunaOffered then terraPool else lunaPool
  let filledPool ← offerPool.add baseOfferAmount
  let remaining ← cp.quo filledPool
  let askBaseAmount ← askPool.sub remaining
  let lost ← baseOfferAmount.sub askBaseAmount
  let spread ← lost.quo baseOfferAmount
  pure (if spread < p.minStabilitySpread then p.minStabilitySpread else spread)

/-- The spread of a swap. -/
def swapSpread (st : State σ) (offerDenom askDenom : Denom) (baseOfferAmount : Dec) :
    Outcome Dec :=
  if offerDenom ≠ microLunaDenom ∧ askDenom ≠ microLunaDenom then
    tobinSpread st.oracle offerDenom askDenom
  else poolSpread st.params st.terraPoolDelta (decide (offerDenom = microLunaDenom)) baseOfferAmount

/-- `ComputeSwap`: the amount at the oracle price, and the spread. -/
def computeSwap (st : State σ) (offerCoin : Coin) (askDenom : Denom) : Outcome (DecCoin × Dec) := do
  failIf (offerCoin.1 = askDenom) (askDenom ++ ": recursive swap")
  let offerDecCoin ← DecCoin.ofCoin offerCoin
  let baseOfferDecCoin ← computeInternalSwap st.oracle offerDecCoin microSDRDenom
  let retDecCoin ← computeInternalSwap st.oracle baseOfferDecCoin askDenom
  let spread ← swapSpread st offerCoin.1 askDenom baseOfferDecCoin.2
  pure (retDecCoin, spread)

/-! ### Pools -/

/-- The terra pool delta after a swap of `offerCoin` for `askCoin`. -/
def movedDelta (st : State σ) (offerCoin : Coin) (askCoin : DecCoin) : Outcome Dec :=
  if offerCoin.1 ≠ microLunaDenom ∧ askCoin.1 = microLunaDenom then do
    let offerDecCoin ← DecCoin.ofCoin offerCoin
    let offerBaseCoin ← computeInternalSwap st.oracle offerDecCoin microSDRDenom
    st.terraPoolDelta.add offerBaseCoin.2
  else if offerCoin.1 = microLunaDenom ∧ askCoin.1 ≠ microLunaDenom then do
    let askBaseCoin ← computeInternalSwap st.oracle askCoin microSDRDenom
    st.terraPoolDelta.sub askBaseCoin.2
  else pure st.terraPoolDelta

/-- `ApplySwapToPool`. -/
def applySwapToPool (st : State σ) (offerCoin : Coin) (askCoin : DecCoin) : Outcome (State σ) :=
  if offerCoin.1 ≠ microLunaDenom ∧ askCoin.1 ≠ microLunaDenom then pure st
  else do
    let delta ← movedDelta st offerCoin askCoin
    pure { st with terraPoolDelta := delta }

/-- `ReplenishPools`, which is all of the module's `EndBlocker`. -/
def replenishPools (st : State σ) : Outcome (State σ) := do
  let poolRegressionAmt ←
    st.terraPoolDelta.quoInt (toInt64 st.params.poolRecoveryPeriod.toNat)
  let poolDelta ← st.terraPoolDelta.sub poolRegressionAmt
  pure { st with terraPoolDelta := poolDelta }

/-! ### Requests -/

/-- The fee of a spread on the priced amount: none where the spread is not positive. -/
def spreadFee (swapDecCoin : DecCoin) (spread : Dec) : Outcome DecCoin :=
  if spread.IsPositive then do
    let fee ← spread.mul swapDecCoin.2
    DecCoin.ofDec swapDecCoin.1 fee
  else pure (swapDecCoin.1, Fixed.ofInt 0)

/-- A positive fee goes to the oracle account. -/
def sendFee (K : Keepers σ) (s : σ) (feeCoin : Coin) : Outcome σ :=
  if 0 < feeCoin.2 then
    K.sendCoinsFromModuleToModule s moduleName oracleModuleName (CoinSet.ofList [feeCoin])
  else pure s

/-- The bank operations of a swap: the offer is taken and burned, the asked coins and the fee are
minted and paid. What the swap coin loses to truncation is added to the fee. -/
def settleSwap (K : Keepers σ) (s : σ) (trader receiver : AccAddress) (offerCoin : Coin)
    (swapDecCoin feeDecCoin : DecCoin) : Outcome (σ × MsgSwapResponse) := do
  let offerCoins := CoinSet.ofList [offerCoin]
  let s ← K.sendCoinsFromAccountToModule s trader moduleName offerCoins
  let s ← K.burnCoins s moduleName offerCoins
  let (swapCoin, decimalCoin) ← swapDecCoin.truncateDecimal
  failIf (¬ 0 < swapCoin.2) "zero swap coin"
  let feeAmount ← feeDecCoin.2.add decimalCoin.2
  let (feeCoin, _) ← DecCoin.truncateDecimal (feeDecCoin.1, feeAmount)
  let s ← K.mintCoins s moduleName (CoinSet.ofList [(swapCoin.1, swapCoin.2 + feeCoin.2)])
  let s ← K.sendCoinsFromModuleToAccount s moduleName receiver (CoinSet.ofList [swapCoin])
  let s ← sendFee K s feeCoin
  pure (s, ⟨swapCoin, feeCoin⟩)

/-- `handleSwapRequest`. -/
def handleSwapRequest (K : Keepers σ) (st : State σ) (trader receiver : AccAddress)
    (offerCoin : Coin) (askDenom : Denom) : Outcome (State σ × MsgSwapResponse) := do
  let (pricedCoin, spread) ← computeSwap st offerCoin askDenom
  let feeDecCoin ← spreadFee pricedCoin spread
  let swapAmount ← pricedCoin.2.sub feeDecCoin.2
  let st ← applySwapToPool st offerCoin (pricedCoin.1, swapAmount)
  let (bank, response) ←
    settleSwap K st.bank trader receiver offerCoin (pricedCoin.1, swapAmount) feeDecCoin
  pure ({ st with bank := bank }, response)

/-- `msgServer.Swap`. -/
def swap (K : Keepers σ) (st : State σ) (msg : MsgSwap) :
    Outcome (State σ × MsgSwapResponse) := do
  let addr ← accAddress K.accAddressFromBech32 msg.trader "decoding bech32 failed"
  handleSwapRequest K st addr addr msg.offerCoin msg.askDenom

/-- `msgServer.SwapSend`. -/
def swapSend (K : Keepers σ) (st : State σ) (msg : MsgSwapSend) :
    Outcome (State σ × MsgSwapSendResponse) := do
  let fromAddr ← accAddress K.accAddressFromBech32 msg.fromAddress "decoding bech32 failed"
  let toAddr ← accAddress K.accAddressFromBech32 msg.toAddress "decoding bech32 failed"
  let (st, res) ← handleSwapRequest K st fromAddr toAddr msg.offerCoin msg.askDenom
  pure (st, ⟨res.swapCoin, res.swapFee⟩)

/-- The state after a message. -/
def SwapMsg.handle (K : Keepers σ) (st : State σ) : SwapMsg → Outcome (State σ)
  | .swap msg => (Market.swap K st msg).map Prod.fst
  | .swapSend msg => (Market.swapSend K st msg).map Prod.fst

/-! ### Conversions -/

section Price

variable {s : Oracle.Store} {denom : Denom}

lemma effectivePrice_eq_ok_iff {rate : Dec} :
    effectivePrice s denom = .ok rate ↔ getLunaExchangeRate s denom = .ok rate := by
  rw [effectivePrice]
  cases getLunaExchangeRate s denom <;> simp

lemma effectivePrice_eq_ok {rate : Dec} (h : getLunaExchangeRate s denom = .ok rate) :
    effectivePrice s denom = .ok rate :=
  effectivePrice_eq_ok_iff.mpr h

lemma effectivePrice_ne_panic {p : Panic} : effectivePrice s denom ≠ .error (.panic p) := by
  rw [effectivePrice]
  cases getLunaExchangeRate s denom <;> simp [failed]

end Price

/-- A conversion that is not rounded. -/
lemma computeInternalSwap_eq_ok {s : Oracle.Store} {offerDenom askDenom : Denom}
    {x offerRate askRate : Dec} {y z : ℤ} (hne : offerDenom ≠ askDenom)
    (hvalid : validDenom askDenom = true)
    (hoffer : getLunaExchangeRate s offerDenom = .ok offerRate)
    (hask : getLunaExchangeRate s askDenom = .ok askRate) (hrate : offerRate.raw ≠ 0)
    (hmul : x.raw * askRate.raw = y * decFormat.scale) (hy : Fixed.Fits decFormat y)
    (hquo : y * decFormat.scale = z * offerRate.raw) (hz : Fixed.Fits decFormat z)
    (hpos : 0 < z) :
    computeInternalSwap s (offerDenom, x) askDenom = .ok (askDenom, ⟨z⟩) := by
  have hproduct : x.mul askRate = .ok ⟨y⟩ := by
    rw [Fixed.mul_eq_of_eq_mul hmul]
    exact Fixed.checked_eq_ok_iff.mpr ⟨hy, rfl⟩
  have hquotient : (⟨y⟩ : Dec).quo offerRate = .ok ⟨z⟩ :=
    Fixed.mk_quo hrate (Fixed.quoRaw_eq_of_eq_mul hrate hquo) hz
  have hfail : ¬ (⟨z⟩ : Dec) ≤ 0 := not_le.mpr hpos
  rw [computeInternalSwap, if_neg hne, effectivePrice_eq_ok hoffer, ok_bind,
    effectivePrice_eq_ok hask, ok_bind, hproduct, ok_bind, hquotient, ok_bind,
    failIf_eq_ok.mpr hfail, ok_bind]
  exact DecCoin.ofDec_eq_ok_iff.mpr ⟨hvalid, hpos.le, rfl⟩

/-- A conversion leaves the coin as it is, in its own denom, or gives a positive amount. -/
lemma computeInternalSwap_spec {s : Oracle.Store} {offerCoin c : DecCoin} {askDenom : Denom}
    (h : computeInternalSwap s offerCoin askDenom = .ok c) :
    c.1 = askDenom ∧ (c = offerCoin ∨ 0 < c.2.raw) := by
  rw [computeInternalSwap] at h
  split_ifs at h with heq
  · obtain rfl := Except.ok.inj h
    exact ⟨heq, .inl rfl⟩
  · obtain ⟨_, -, h⟩ := bind_eq_ok.mp h
    obtain ⟨_, -, h⟩ := bind_eq_ok.mp h
    obtain ⟨_, -, h⟩ := bind_eq_ok.mp h
    obtain ⟨retAmount, -, h⟩ := bind_eq_ok.mp h
    obtain ⟨hpos, h⟩ := failIf_bind_eq_ok.mp h
    obtain ⟨-, -, rfl⟩ := DecCoin.ofDec_eq_ok_iff.mp h
    exact ⟨rfl, .inr (not_le.mp hpos)⟩

/-- What a conversion gives at most: the exact amount, and half a unit of the product and of the
quotient. -/
lemma computeInternalSwap_le {s : Oracle.Store} {offerCoin c : DecCoin} {askDenom : Denom}
    {offerRate askRate : Dec} (h0 : 0 ≤ offerCoin.2.raw)
    (hoffer : getLunaExchangeRate s offerCoin.1 = .ok offerRate)
    (hask : getLunaExchangeRate s askDenom = .ok askRate)
    (hoffer0 : 0 < offerRate.raw) (hask0 : 0 < askRate.raw)
    (h : computeInternalSwap s offerCoin askDenom = .ok c) :
    0 ≤ c.2.raw ∧ 2 * (c.2.raw * offerRate.raw)
      ≤ 2 * (offerCoin.2.raw * askRate.raw) + decFormat.scale + offerRate.raw := by
  rw [computeInternalSwap] at h
  split_ifs at h with heq
  · -- the coin is in the denom asked for
    obtain rfl := Except.ok.inj h
    rw [heq, hask] at hoffer
    obtain rfl := Except.ok.inj hoffer
    exact ⟨h0, by omega⟩
  · rw [effectivePrice_eq_ok hoffer, ok_bind, effectivePrice_eq_ok hask, ok_bind] at h
    obtain ⟨amount, hmul, h⟩ := bind_eq_ok.mp h
    obtain ⟨retAmount, hquo, h⟩ := bind_eq_ok.mp h
    obtain ⟨-, h⟩ := failIf_bind_eq_ok.mp h
    obtain ⟨-, -, rfl⟩ := DecCoin.ofDec_eq_ok_iff.mp h
    obtain ⟨-, rfl⟩ := Fixed.checked_eq_ok_iff.mp hmul
    obtain ⟨-, -, rfl⟩ := Fixed.quo_eq_ok_iff.mp hquo
    have hproduct : 0 ≤ offerCoin.2.raw * askRate.raw := mul_nonneg h0 hask0.le
    have hround := (halfEven_bounds decFormat.scale_pos hproduct).2
    have hamount := halfEven_nonneg (d := decFormat.scale) hproduct
    have hquotient := Fixed.quoRaw_mul_le (F := decFormat) hamount hoffer0
    exact ⟨Fixed.quoRaw_nonneg hamount hoffer0.le, by linarith⟩

/-- A conversion between two denoms takes a positive amount and gives a positive decimal. -/
lemma computeInternalSwap_of_ne {s : Oracle.Store} {offerCoin c : DecCoin} {askDenom : Denom}
    (hne : offerCoin.1 ≠ askDenom) (h0 : 0 ≤ offerCoin.2.raw)
    (h : computeInternalSwap s offerCoin askDenom = .ok c) :
    0 < offerCoin.2.raw ∧ validDenom c.1 = true ∧ Fixed.Fits decFormat c.2.raw := by
  rw [computeInternalSwap, if_neg hne] at h
  obtain ⟨offerRate, -, h⟩ := bind_eq_ok.mp h
  obtain ⟨askRate, -, h⟩ := bind_eq_ok.mp h
  obtain ⟨amount, hmul, h⟩ := bind_eq_ok.mp h
  obtain ⟨retAmount, hquo, h⟩ := bind_eq_ok.mp h
  obtain ⟨hpos, h⟩ := failIf_bind_eq_ok.mp h
  obtain ⟨hvalid, -, rfl⟩ := DecCoin.ofDec_eq_ok_iff.mp h
  obtain ⟨-, rfl⟩ := Fixed.checked_eq_ok_iff.mp hmul
  obtain ⟨-, hfit, rfl⟩ := Fixed.quo_eq_ok_iff.mp hquo
  refine ⟨lt_of_le_of_ne h0 fun hzero => hpos ?_, hvalid, hfit⟩
  show Fixed.quoRaw decFormat (halfEven (offerCoin.2.raw * askRate.raw) decFormat.scale)
    offerRate.raw ≤ 0
  rw [← hzero, zero_mul]
  simp [Fixed.quoRaw, halfEven, roundNat]

/-- What a swap that could be computed has computed. -/
lemma computeSwap_eq_ok {st : State σ} {offerCoin : Coin} {askDenom : Denom} {ret : DecCoin}
    {spread : Dec} (h : computeSwap st offerCoin askDenom = .ok (ret, spread)) :
    offerCoin.1 ≠ askDenom ∧ ∃ base,
      computeInternalSwap st.oracle (offerCoin.1, Fixed.ofInt offerCoin.2) microSDRDenom = .ok base
        ∧ computeInternalSwap st.oracle base askDenom = .ok ret
        ∧ swapSpread st offerCoin.1 askDenom base.2 = .ok spread := by
  obtain ⟨hne, h⟩ := failIf_bind_eq_ok.mp h
  obtain ⟨offer, hoffer, h⟩ := bind_eq_ok.mp h
  obtain ⟨-, rfl⟩ := DecCoin.ofCoin_eq_ok_iff.mp hoffer
  obtain ⟨base, hbase, h⟩ := bind_eq_ok.mp h
  obtain ⟨ret', hret, h⟩ := bind_eq_ok.mp h
  obtain ⟨spread', hspread, h⟩ := bind_eq_ok.mp h
  obtain ⟨rfl, rfl⟩ := Prod.ext_iff.mp (Except.ok.inj h)
  exact ⟨hne, base, hbase, hret, hspread⟩

/-- The offer of a swap that could be computed is not negative. -/
lemma computeSwap_offer_nonneg {st : State σ} {offerCoin : Coin} {askDenom : Denom}
    {r : DecCoin × Dec} (h : computeSwap st offerCoin askDenom = .ok r) : 0 ≤ offerCoin.2 := by
  obtain ⟨-, h⟩ := failIf_bind_eq_ok.mp h
  obtain ⟨offer, hoffer, -⟩ := bind_eq_ok.mp h
  obtain ⟨hvalid, -⟩ := DecCoin.ofCoin_eq_ok_iff.mp hoffer
  exact of_decide_eq_true (Bool.and_eq_true_iff.mp hvalid).2

/-- The amount at the oracle price is positive, and in the denom asked for. -/
lemma computeSwap_pos {st : State σ} {offerCoin : Coin} {askDenom : Denom} {ret : DecCoin}
    {spread : Dec} (h : computeSwap st offerCoin askDenom = .ok (ret, spread)) :
    ret.1 = askDenom ∧ 0 < ret.2.raw := by
  obtain ⟨hne, base, hbase, hret, -⟩ := computeSwap_eq_ok h
  obtain ⟨hbase1, hbase2⟩ := computeInternalSwap_spec hbase
  obtain ⟨hret1, hret2⟩ := computeInternalSwap_spec hret
  refine ⟨hret1, ?_⟩
  rcases hret2 with rfl | hpos
  · -- the offer is not converted twice into its own denom
    rcases hbase2 with rfl | hpos
    · exact absurd hret1 hne
    · exact hpos
  · exact hpos

/-- The spread that was computed: the larger of the minimum and the part of the offer that the
constant product takes, with the luna pool and what is left of the pool asked for rounded. -/
lemma poolSpread_eq_ok {p : Params} {delta x spread : Dec} {lunaOffered : Bool}
    (h : poolSpread p delta lunaOffered x = .ok spread) :
    ∃ (cp : Dec) (terra luna remaining : ℤ), p.basePool.mul p.basePool = .ok cp
      ∧ terra = p.basePool.raw + delta.raw ∧ luna = Fixed.quoRaw decFormat cp.raw terra
      ∧ remaining = Fixed.quoRaw decFormat cp.raw ((if lunaOffered then luna else terra) + x.raw)
      ∧ spread.raw = max p.minStabilitySpread.raw (Fixed.quoRaw decFormat
        (x.raw - ((if lunaOffered then terra else luna) - remaining)) x.raw) := by
  obtain ⟨cp, hcp, h⟩ := bind_eq_ok.mp h
  obtain ⟨terra, hterra, h⟩ := bind_eq_ok.mp h
  obtain ⟨luna, hluna, h⟩ := bind_eq_ok.mp h
  obtain ⟨filled, hfilled, h⟩ := bind_eq_ok.mp h
  obtain ⟨remaining, hremaining, h⟩ := bind_eq_ok.mp h
  obtain ⟨asked, hasked, h⟩ := bind_eq_ok.mp h
  obtain ⟨lost, hlost, h⟩ := bind_eq_ok.mp h
  obtain ⟨computed, hcomputed, hresult⟩ := bind_eq_ok.mp h
  have hraw : computed.raw = Fixed.quoRaw decFormat
      (x.raw - ((if lunaOffered then terra else luna).raw - remaining.raw)) x.raw := by
    obtain ⟨-, rfl⟩ := Fixed.checked_eq_ok_iff.mp hasked
    obtain ⟨-, rfl⟩ := Fixed.checked_eq_ok_iff.mp hlost
    obtain ⟨-, -, rfl⟩ := Fixed.quo_eq_ok_iff.mp hcomputed
    rfl
  obtain ⟨-, rfl⟩ := Fixed.checked_eq_ok_iff.mp hterra
  obtain ⟨-, -, rfl⟩ := Fixed.quo_eq_ok_iff.mp hluna
  obtain ⟨-, rfl⟩ := Fixed.checked_eq_ok_iff.mp hfilled
  obtain ⟨-, -, rfl⟩ := Fixed.quo_eq_ok_iff.mp hremaining
  obtain rfl := Except.ok.inj hresult
  simp only [apply_ite Fixed.raw] at hraw
  refine ⟨cp, _, _, _, hcp, rfl, rfl, rfl, ?_⟩
  rw [← hraw]
  by_cases hlow : computed < p.minStabilitySpread
  · have hle : computed.raw ≤ p.minStabilitySpread.raw := le_of_lt hlow
    rw [if_pos hlow, max_eq_left hle]
  · have hle : p.minStabilitySpread.raw ≤ computed.raw := not_lt.mp hlow
    rw [if_neg hlow, max_eq_right hle]

/-- With luna on one side the square of the base pool is defined, and the spread is at least the
minimum. -/
lemma swapSpread_of_luna {st : State σ} {offerDenom askDenom : Denom} {x spread : Dec}
    (hluna : offerDenom = microLunaDenom ∨ askDenom = microLunaDenom)
    (h : swapSpread st offerDenom askDenom x = .ok spread) :
    (∃ cp, st.params.basePool.mul st.params.basePool = .ok cp)
      ∧ st.params.minStabilitySpread ≤ spread := by
  rw [swapSpread, if_neg (by tauto)] at h
  obtain ⟨cp, _, _, _, hcp, -, -, -, hspread⟩ := poolSpread_eq_ok h
  refine ⟨⟨cp, hcp⟩, ?_⟩
  show st.params.minStabilitySpread.raw ≤ spread.raw
  rw [hspread]
  exact le_max_left _ _

/-! ### What a request has done -/

/-- A pool update changes nothing but the delta, which a swap between terra denoms keeps. -/
lemma applySwapToPool_eq_ok {st st' : State σ} {offerCoin : Coin} {askCoin : DecCoin}
    (h : applySwapToPool st offerCoin askCoin = .ok st') :
    ∃ delta, st' = { st with terraPoolDelta := delta }
      ∧ (offerCoin.1 ≠ microLunaDenom → askCoin.1 ≠ microLunaDenom → delta = st.terraPoolDelta) := by
  rw [applySwapToPool] at h
  split_ifs at h with hterra
  · exact ⟨st.terraPoolDelta, (Except.ok.inj h).symm, fun _ _ => rfl⟩
  · obtain ⟨delta, -, h⟩ := bind_eq_ok.mp h
    exact ⟨delta, (Except.ok.inj h).symm, fun h1 h2 => absurd ⟨h1, h2⟩ hterra⟩

/-- The bank operations of a swap that is settled, and the coins it pays: what is cut off the swap
coin is added to the fee before the fee is cut. -/
lemma settleSwap_eq_ok {K : Keepers σ} {s s' : σ} {trader receiver : AccAddress}
    {offerCoin : Coin} {swapDecCoin feeDecCoin : DecCoin} {res : MsgSwapResponse}
    (h : settleSwap K s trader receiver offerCoin swapDecCoin feeDecCoin = .ok (s', res)) :
    (∃ s₁ s₂ s₃ s₄,
      K.sendCoinsFromAccountToModule s trader moduleName (CoinSet.ofList [offerCoin]) = .ok s₁
        ∧ K.burnCoins s₁ moduleName (CoinSet.ofList [offerCoin]) = .ok s₂
        ∧ K.mintCoins s₂ moduleName
          (CoinSet.ofList [(res.swapCoin.1, res.swapCoin.2 + res.swapFee.2)]) = .ok s₃
        ∧ K.sendCoinsFromModuleToAccount s₃ moduleName receiver (CoinSet.ofList [res.swapCoin])
          = .ok s₄
        ∧ sendFee K s₄ res.swapFee = .ok s')
      ∧ res.swapCoin = (swapDecCoin.1, swapDecCoin.2.raw.tdiv decFormat.scale)
      ∧ 0 < res.swapCoin.2
      ∧ res.swapFee = (feeDecCoin.1,
        (feeDecCoin.2.raw + (swapDecCoin.2.raw - res.swapCoin.2 * decFormat.scale)).tdiv
          decFormat.scale)
      ∧ 0 ≤ res.swapFee.2 := by
  obtain ⟨s₁, hsend, h⟩ := bind_eq_ok.mp h
  obtain ⟨s₂, hburn, h⟩ := bind_eq_ok.mp h
  obtain ⟨⟨swapCoin, decimalCoin⟩, hswap, h⟩ := bind_eq_ok.mp h
  obtain ⟨hpos, h⟩ := failIf_bind_eq_ok.mp h
  obtain ⟨feeAmount, hadd, h⟩ := bind_eq_ok.mp h
  obtain ⟨⟨feeCoin, rest⟩, hfee, h⟩ := bind_eq_ok.mp h
  obtain ⟨s₃, hmint, h⟩ := bind_eq_ok.mp h
  obtain ⟨s₄, hpay, h⟩ := bind_eq_ok.mp h
  obtain ⟨s₅, hsendFee, h⟩ := bind_eq_ok.mp h
  obtain ⟨rfl, rfl⟩ := Prod.ext_iff.mp (Except.ok.inj h)
  obtain ⟨hcoin, -⟩ := DecCoin.truncateDecimal_fst hswap
  obtain ⟨hfeeCoin, hfee0⟩ := DecCoin.truncateDecimal_fst hfee
  obtain ⟨-, rfl⟩ := Fixed.checked_eq_ok_iff.mp hadd
  refine ⟨⟨s₁, s₂, s₃, s₄, hsend, hburn, hmint, hpay, hsendFee⟩, hcoin, not_not.mp hpos, ?_, hfee0⟩
  rw [hfeeCoin, DecCoin.truncateDecimal_snd hswap]

/-- A swap that is settled pays a positive coin. -/
lemma settleSwap_pos {K : Keepers σ} {s s' : σ} {trader receiver : AccAddress}
    {offerCoin : Coin} {swapDecCoin feeDecCoin : DecCoin} {res : MsgSwapResponse}
    (h : settleSwap K s trader receiver offerCoin swapDecCoin feeDecCoin = .ok (s', res)) :
    0 < swapDecCoin.2.raw := by
  obtain ⟨-, hcoin, hpos, -⟩ := settleSwap_eq_ok h
  rw [hcoin] at hpos
  by_contra hneg
  exact absurd hpos (not_lt.mpr ((tdiv_le_iff decFormat.scale_pos le_rfl).mpr (by
    have hscale : (0 : ℤ) < decFormat.scale := by exact_mod_cast decFormat.scale_pos
    show swapDecCoin.2.raw < _
    omega)))

/-- The parts of a request that succeeds. -/
lemma handleSwapRequest_eq_ok {K : Keepers σ} {st st' : State σ} {trader receiver : AccAddress}
    {offerCoin : Coin} {askDenom : Denom} {res : MsgSwapResponse}
    (h : handleSwapRequest K st trader receiver offerCoin askDenom = .ok (st', res)) :
    ∃ priced spread fee swapAmount st₁ bank,
      computeSwap st offerCoin askDenom = .ok (priced, spread)
        ∧ spreadFee priced spread = .ok fee ∧ priced.2.sub fee.2 = .ok swapAmount
        ∧ applySwapToPool st offerCoin (priced.1, swapAmount) = .ok st₁
        ∧ settleSwap K st₁.bank trader receiver offerCoin (priced.1, swapAmount) fee
          = .ok (bank, res)
        ∧ st' = { st₁ with bank := bank } := by
  obtain ⟨⟨priced, spread⟩, hcompute, h⟩ := bind_eq_ok.mp h
  obtain ⟨fee, hfee, h⟩ := bind_eq_ok.mp h
  obtain ⟨swapAmount, hsub, h⟩ := bind_eq_ok.mp h
  obtain ⟨st₁, hpool, h⟩ := bind_eq_ok.mp h
  obtain ⟨⟨bank, res'⟩, hsettle, h⟩ := bind_eq_ok.mp h
  obtain ⟨rfl, rfl⟩ := Prod.ext_iff.mp (Except.ok.inj h)
  exact ⟨priced, spread, fee, swapAmount, st₁, bank, hcompute, hfee, hsub, hpool, hsettle, rfl⟩

/-- A fee is not negative, and in the denom asked for. -/
lemma spreadFee_nonneg {priced fee : DecCoin} {spread : Dec}
    (h : spreadFee priced spread = .ok fee) : fee.1 = priced.1 ∧ 0 ≤ fee.2.raw := by
  rw [spreadFee] at h
  split_ifs at h
  · obtain ⟨amount, -, h⟩ := bind_eq_ok.mp h
    obtain ⟨-, h0, rfl⟩ := DecCoin.ofDec_eq_ok_iff.mp h
    exact ⟨rfl, h0⟩
  · obtain rfl := Except.ok.inj h
    exact ⟨rfl, (zero_mul _).ge⟩

/-- A spread of one or more takes the whole amount as fee. -/
lemma le_spreadFee {priced fee : DecCoin} {spread : Dec} (h0 : 0 ≤ priced.2.raw)
    (hone : (decFormat.scale : ℤ) ≤ spread.raw) (h : spreadFee priced spread = .ok fee) :
    priced.2.raw ≤ fee.2.raw := by
  have hscale : (0 : ℤ) < decFormat.scale := by exact_mod_cast decFormat.scale_pos
  rw [spreadFee, if_pos (show spread.IsPositive from hscale.trans_le hone)] at h
  obtain ⟨amount, hmul, h⟩ := bind_eq_ok.mp h
  obtain ⟨-, rfl⟩ := Fixed.checked_eq_ok_iff.mp hmul
  obtain ⟨-, -, rfl⟩ := DecCoin.ofDec_eq_ok_iff.mp h
  have hprod : priced.2.raw * decFormat.scale ≤ spread.raw * priced.2.raw := by
    rw [mul_comm]
    exact mul_le_mul_of_nonneg_right hone h0
  exact le_halfEven_of_mul_le decFormat.scale_pos ((by positivity : (0 : ℤ) ≤ _).trans hprod) hprod

/-- **A request with luna on one side succeeds only where the square of the base pool is a
decimal and the minimum spread is less than one.** -/
theorem handleSwapRequest_of_luna {K : Keepers σ} {st st' : State σ}
    {trader receiver : AccAddress} {offerCoin : Coin} {askDenom : Denom} {res : MsgSwapResponse}
    (hluna : offerCoin.1 = microLunaDenom ∨ askDenom = microLunaDenom)
    (h : handleSwapRequest K st trader receiver offerCoin askDenom = .ok (st', res)) :
    (∃ cp, st.params.basePool.mul st.params.basePool = .ok cp)
      ∧ st.params.minStabilitySpread.raw < decFormat.scale := by
  obtain ⟨priced, spread, fee, swapAmount, st₁, bank, hcompute, hfee, hsub, -, hsettle, -⟩ :=
    handleSwapRequest_eq_ok h
  obtain ⟨-, hpriced⟩ := computeSwap_pos hcompute
  obtain ⟨-, base, -, -, hspread⟩ := computeSwap_eq_ok hcompute
  obtain ⟨hcp, hmin⟩ := swapSpread_of_luna hluna hspread
  refine ⟨hcp, not_le.mp fun hone => ?_⟩
  have hle := le_spreadFee hpriced.le (hone.trans hmin) hfee
  obtain ⟨-, rfl⟩ := Fixed.checked_eq_ok_iff.mp hsub
  have hswap : 0 < priced.2.raw - fee.2.raw := settleSwap_pos hsettle
  omega

/-- A request keeps the parameters and the oracle, and between terra denoms the delta. -/
lemma handleSwapRequest_frame {K : Keepers σ} {st st' : State σ} {trader receiver : AccAddress}
    {offerCoin : Coin} {askDenom : Denom} {res : MsgSwapResponse}
    (h : handleSwapRequest K st trader receiver offerCoin askDenom = .ok (st', res)) :
    st'.params = st.params ∧ st'.oracle = st.oracle
      ∧ (offerCoin.1 ≠ microLunaDenom → askDenom ≠ microLunaDenom →
        st'.terraPoolDelta = st.terraPoolDelta) := by
  obtain ⟨priced, spread, fee, swapAmount, st₁, bank, hcompute, -, -, hpool, -, rfl⟩ :=
    handleSwapRequest_eq_ok h
  obtain ⟨delta, rfl, hdelta⟩ := applySwapToPool_eq_ok hpool
  obtain ⟨hask, -⟩ := computeSwap_pos hcompute
  exact ⟨rfl, rfl, fun h1 h2 => hdelta h1 (hask ▸ h2)⟩

/-- A message that succeeds has made a request. -/
lemma SwapMsg.handle_eq_ok {K : Keepers σ} {st st' : State σ} {msg : SwapMsg}
    (h : msg.handle K st = .ok st') :
    ∃ trader receiver res,
      handleSwapRequest K st trader receiver msg.offerCoin msg.askDenom = .ok (st', res) := by
  cases msg with
  | swap msg =>
      obtain ⟨⟨st₁, res⟩, hswap, rfl⟩ := map_eq_ok_iff.mp h
      obtain ⟨addr, -, hreq⟩ := bind_eq_ok.mp hswap
      exact ⟨addr, addr, res, hreq⟩
  | swapSend msg =>
      obtain ⟨⟨st₁, res⟩, hsend, rfl⟩ := map_eq_ok_iff.mp h
      obtain ⟨fromAddr, -, hsend⟩ := bind_eq_ok.mp hsend
      obtain ⟨toAddr, -, hsend⟩ := bind_eq_ok.mp hsend
      obtain ⟨⟨st₂, res'⟩, hreq, hsend⟩ := bind_eq_ok.mp hsend
      obtain ⟨rfl, -⟩ := Prod.ext_iff.mp (Except.ok.inj hsend)
      exact ⟨fromAddr, toAddr, res', hreq⟩

end ColumbusCore.Market
