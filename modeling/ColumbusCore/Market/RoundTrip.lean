import ColumbusCore.Market.Ledger

/-!
Swaps there and back (`x/market/keeper/swap.go`, `x/market/keeper/msg_server.go`).

A conversion at the oracle price is a product and a quotient, each rounded to the nearest unit of
the eighteenth decimal. What a conversion gains by rounding is a number of units that depends on
the rates and not on the amount; with rates between a thousandth and a thousand the gains of the
four conversions of a round trip do not make up one coin. Fees only lower what is paid.

* `handleSwapRequest_le`: what a swap pays at most;
* `roundTrip_le`: **a round trip never returns more than was offered**.
-/

namespace ColumbusCore.Market

open Go Rounding

variable {σ : Type}

section Leg

variable {K : Keepers σ} {st st' : State σ} {trader receiver : AccAddress} {offerCoin : Coin}
  {askDenom : Denom} {res : MsgSwapResponse} {offerRate askRate sdrRate : Dec}

/-- What a request that succeeds pays is at most the amount at the oracle price, in the denom
asked for. -/
lemma handleSwapRequest_le_priced
    (h : handleSwapRequest K st trader receiver offerCoin askDenom = .ok (st', res)) :
    ∃ priced spread, computeSwap st offerCoin askDenom = .ok (priced, spread)
      ∧ res.swapCoin.1 = askDenom ∧ res.swapCoin.2 * decFormat.scale ≤ priced.2.raw := by
  obtain ⟨priced, spread, fee, swapAmount, st₁, bank, hcompute, hfee, hsub, -, hsettle, -⟩ :=
    handleSwapRequest_eq_ok h
  obtain ⟨hdenom, -⟩ := computeSwap_pos hcompute
  obtain ⟨-, hfee0⟩ := spreadFee_nonneg hfee
  obtain ⟨-, rfl⟩ := Fixed.checked_eq_ok_iff.mp hsub
  have hpos := settleSwap_pos hsettle
  obtain ⟨-, hcoin, -⟩ := settleSwap_eq_ok hsettle
  refine ⟨priced, spread, hcompute, by rw [hcoin]; exact hdenom, ?_⟩
  rw [hcoin, Int.tdiv_eq_ediv_of_nonneg hpos.le]
  calc (priced.2.raw - fee.2.raw) / decFormat.scale * decFormat.scale
      ≤ priced.2.raw - fee.2.raw :=
        Int.ediv_mul_le _ (by exact_mod_cast decFormat.scale_pos.ne')
    _ ≤ priced.2.raw := by linarith

/-- **What a swap pays at most**, cleared of denominators: the exact amount, and the units gained
by rounding into the SDR and out of it. -/
theorem handleSwapRequest_le
    (hoffer : getLunaExchangeRate st.oracle offerCoin.1 = .ok offerRate)
    (hask : getLunaExchangeRate st.oracle askDenom = .ok askRate)
    (hsdr : getLunaExchangeRate st.oracle microSDRDenom = .ok sdrRate)
    (hoffer0 : 0 < offerRate.raw) (hask0 : 0 < askRate.raw) (hsdr0 : 0 < sdrRate.raw)
    (h : handleSwapRequest K st trader receiver offerCoin askDenom = .ok (st', res)) :
    res.swapCoin.2 * decFormat.scale * sdrRate.raw * offerRate.raw
      ≤ offerCoin.2 * decFormat.scale * sdrRate.raw * askRate.raw
        + (decFormat.scale + offerRate.raw) * askRate.raw
        + (decFormat.scale + sdrRate.raw) * offerRate.raw := by
  obtain ⟨priced, spread, hcompute, -, hpaid⟩ := handleSwapRequest_le_priced h
  have hx : 0 ≤ (Fixed.ofInt offerCoin.2 : Dec).raw :=
    mul_nonneg (computeSwap_offer_nonneg hcompute) (by positivity)
  obtain ⟨-, base, hbase, hret, -⟩ := computeSwap_eq_ok hcompute
  obtain ⟨hbase0, hbaseLe⟩ := computeInternalSwap_le hx hoffer hsdr hoffer0 hsdr0 hbase
  obtain ⟨hbaseDenom, -⟩ := computeInternalSwap_spec hbase
  obtain ⟨-, hretLe⟩ := computeInternalSwap_le hbase0 (hbaseDenom ▸ hsdr) hask hsdr0 hask0 hret
  have hofInt : (Fixed.ofInt offerCoin.2 : Dec).raw = offerCoin.2 * decFormat.scale := rfl
  rw [hofInt] at hbaseLe
  have hS : (0 : ℤ) < decFormat.scale := by exact_mod_cast decFormat.scale_pos
  have hbaseLe' : base.2.raw * offerRate.raw
      ≤ offerCoin.2 * decFormat.scale * sdrRate.raw + decFormat.scale + offerRate.raw := by linarith
  have hretLe' : priced.2.raw * sdrRate.raw
      ≤ base.2.raw * askRate.raw + decFormat.scale + sdrRate.raw := by linarith
  calc res.swapCoin.2 * decFormat.scale * sdrRate.raw * offerRate.raw
      ≤ priced.2.raw * sdrRate.raw * offerRate.raw := by gcongr
    _ ≤ (base.2.raw * askRate.raw + decFormat.scale + sdrRate.raw) * offerRate.raw := by gcongr
    _ = base.2.raw * offerRate.raw * askRate.raw
        + (decFormat.scale + sdrRate.raw) * offerRate.raw := by ring
    _ ≤ (offerCoin.2 * decFormat.scale * sdrRate.raw + decFormat.scale + offerRate.raw)
        * askRate.raw + (decFormat.scale + sdrRate.raw) * offerRate.raw := by gcongr
    _ = _ := by ring

end Leg

/-- A rate between a thousandth and a thousand luna. -/
def ModerateRate (rate : Dec) : Prop := newDecWithPrec 1 3 ≤ rate ∧ rate ≤ Fixed.ofInt 1000

instance (rate : Dec) : Decidable (ModerateRate rate) := inferInstanceAs (Decidable (_ ∧ _))

lemma ModerateRate.raw {rate : Dec} (h : ModerateRate rate) :
    10 ^ 15 ≤ rate.raw ∧ rate.raw ≤ 10 ^ 21 := h

/-- The units gained by rounding on a round trip do not make up one coin. -/
lemma roundTrip_gain_lt {a b s : ℤ} (ha : 10 ^ 15 ≤ a ∧ a ≤ 10 ^ 21)
    (hb : 10 ^ 15 ≤ b ∧ b ≤ 10 ^ 21) (hs : 10 ^ 15 ≤ s ∧ s ≤ 10 ^ 21) :
    (10 ^ 18 + a) * b + (10 ^ 18 + s) * a + ((10 ^ 18 + b) * a + (10 ^ 18 + s) * b)
      < 10 ^ 18 * s * b := by
  have hgain : ∀ {x y : ℤ}, x ≤ 10 ^ 21 → 0 ≤ y → y ≤ 10 ^ 21 →
      (10 ^ 18 + x) * y ≤ (10 ^ 18 + 10 ^ 21) * 10 ^ 21 := by
    intro x y hx hy0 hy
    calc (10 ^ 18 + x) * y ≤ (10 ^ 18 + 10 ^ 21) * y := by gcongr
      _ ≤ (10 ^ 18 + 10 ^ 21) * 10 ^ 21 := by gcongr
  have h1 := hgain ha.2 (by linarith) hb.2
  have h2 := hgain hs.2 (by linarith) ha.2
  have h3 := hgain hb.2 (by linarith) ha.2
  have h4 := hgain hs.2 (by linarith) hb.2
  calc _ ≤ (4 * ((10 ^ 18 + 10 ^ 21) * 10 ^ 21) : ℤ) := by linarith
    _ < 10 ^ 18 * 10 ^ 15 * 10 ^ 15 := by norm_num
    _ ≤ 10 ^ 18 * s * b := by
        have hsb : (10 : ℤ) ^ 15 * 10 ^ 15 ≤ s * b :=
          mul_le_mul hs.1 hb.1 (by norm_num) (by linarith)
        nlinarith

/-- **No profit on a round trip.** Where the rates of the two denoms and of the SDR are moderate
and the same for both swaps, swapping an offer and swapping the whole proceeds back, in any state
of the pools, never returns more than was offered. -/
theorem roundTrip_le {K : Keepers σ} {st st₁ st₂ st₃ : State σ}
    {trader receiver trader' receiver' : AccAddress} {offerCoin : Coin} {askDenom : Denom}
    {res res' : MsgSwapResponse} {offerRate askRate sdrRate : Dec}
    (hoffer : getLunaExchangeRate st.oracle offerCoin.1 = .ok offerRate)
    (hask : getLunaExchangeRate st.oracle askDenom = .ok askRate)
    (hsdr : getLunaExchangeRate st.oracle microSDRDenom = .ok sdrRate)
    (hoffer' : getLunaExchangeRate st₂.oracle offerCoin.1 = .ok offerRate)
    (hask' : getLunaExchangeRate st₂.oracle askDenom = .ok askRate)
    (hsdr' : getLunaExchangeRate st₂.oracle microSDRDenom = .ok sdrRate)
    (hofferRate : ModerateRate offerRate) (haskRate : ModerateRate askRate)
    (hsdrRate : ModerateRate sdrRate)
    (h : handleSwapRequest K st trader receiver offerCoin askDenom = .ok (st₁, res))
    (h' : handleSwapRequest K st₂ trader' receiver' res.swapCoin offerCoin.1 = .ok (st₃, res')) :
    res'.swapCoin.1 = offerCoin.1 ∧ res'.swapCoin.2 ≤ offerCoin.2 := by
  have ha := hofferRate.raw
  have hb := haskRate.raw
  have hs := hsdrRate.raw
  obtain ⟨-, -, -, hdenom, -⟩ := handleSwapRequest_le_priced h
  obtain ⟨-, -, -, hdenom', -⟩ := handleSwapRequest_le_priced h'
  refine ⟨hdenom', ?_⟩
  have hleg := handleSwapRequest_le hoffer hask hsdr (by linarith) (by linarith) (by linarith) h
  have hleg' := handleSwapRequest_le (hdenom ▸ hask') hoffer' hsdr' (by linarith) (by linarith)
    (by linarith) h'
  have hgain := roundTrip_gain_lt ha hb hs
  have hscale : (decFormat.scale : ℤ) = 10 ^ 18 := rfl
  rw [hscale] at hleg hleg'
  -- more than the offer would be worth a coin more than the gains
  by_contra hmore
  have hcoin : (offerCoin.2 + 1) * (10 ^ 18 * sdrRate.raw * askRate.raw)
      ≤ res'.swapCoin.2 * (10 ^ 18 * sdrRate.raw * askRate.raw) := by
    have hpos : 0 ≤ 10 ^ 18 * sdrRate.raw * askRate.raw := by
      have hs0 : 0 ≤ sdrRate.raw := by linarith
      have hb0 : 0 ≤ askRate.raw := by linarith
      positivity
    exact mul_le_mul_of_nonneg_right (by linarith) hpos
  linarith

/-- A million luna to terra and back: both swaps succeed. -/
theorem roundTrip_usdMarket : ∃ st₁ res st₃ res',
    handleSwapRequest ledgerKeepers usdMarket "trader" "trader" ("uluna", 1000000) "uusd"
      = .ok (st₁, res)
    ∧ handleSwapRequest ledgerKeepers st₁ "trader" "trader" res.swapCoin "uluna"
      = .ok (st₃, res')
    ∧ res'.swapCoin.2 ≤ 1000000 := by
  obtain ⟨⟨st₁, res⟩, h, hback⟩ := exists_of_returns
    (p := fun r : State Ledger × MsgSwapResponse => returns (fun _ => true)
      (handleSwapRequest ledgerKeepers r.1 "trader" "trader" r.2.swapCoin "uluna"))
    (x := handleSwapRequest ledgerKeepers usdMarket "trader" "trader" ("uluna", 1000000) "uusd")
    (by decide +kernel)
  obtain ⟨⟨st₃, res'⟩, h', -⟩ := exists_of_returns hback
  obtain ⟨-, horacle, -⟩ := handleSwapRequest_frame h
  refine ⟨st₁, res, st₃, res', h, h', ?_⟩
  have hluna : getLunaExchangeRate usdMarket.oracle "uluna" = .ok Fixed.one := rfl
  have husd : getLunaExchangeRate usdMarket.oracle "uusd" = .ok (newDecWithPrec 93 2) := rfl
  have hsdr : getLunaExchangeRate usdMarket.oracle microSDRDenom = .ok (newDecWithPrec 7 1) := rfl
  exact (roundTrip_le hluna husd hsdr (horacle ▸ hluna) (horacle ▸ husd) (horacle ▸ hsdr)
    (by decide) (by decide) (by decide) h h').2

end ColumbusCore.Market
