import ColumbusCore.Market.Spread

/-!
The terra pool over runs whose luna offers are bounded.

Every rounding of a swap is of half a unit or so, but the spread is rounded to eighteen decimals
before it is taken from the whole offer, so that `10 ^ -18` of the offer may be paid too much, and
each conversion adds a unit at the rates it goes through. An offer is within the pool when the
constant product leaves more than that in the terra pool.

* `OfferWithin`: the bound on an offer, on raw amounts and rates;
* `ask_lt_pool`: the amounts of one swap, for any numbers that round as the code does;
* `handleSwapRequest_pool_pos`, `replenishPools_pool_pos`: what one step keeps;
* `terraPool_pos`: **the terra pool stays positive on every run of offers within the pool**, and
  without the bound only where no swap with luna can succeed.
-/

namespace ColumbusCore.Market

open Go Rounding

variable {σ : Type}

/-! ### The bound -/

/-- An offer of luna worth `x` is within the terra pool `pool` over the base pool `base`, at the
rates of the SDR and of the denom asked for. With `S = 10 ^ 18` and up to the rounding of the
square, this is `(base² / pool + x) * (x / S + (S + sdrRate) / askRate + 2) ≤ base²`: the filled
luna pool, times what the roundings may pay too much, is no more than the constant product. -/
def OfferWithin (base pool x sdrRate askRate : ℤ) : Prop :=
  (base * base + decFormat.scale + pool * (x + 1))
      * (x * askRate + decFormat.scale * (decFormat.scale + sdrRate + 2 * askRate))
    ≤ pool * (base * base - decFormat.scale) * decFormat.scale * askRate

/-- A message offers no luna, or luna within the pool. The worth of the offer is its amount at the
rate of the SDR. -/
def WithinPool (st : State σ) (msg : SwapMsg) : Prop :=
  msg.offerCoin.1 = microLunaDenom → ∀ sdrRate askRate : Dec,
    getLunaExchangeRate st.oracle microSDRDenom = .ok sdrRate →
    getLunaExchangeRate st.oracle msg.askDenom = .ok askRate →
    OfferWithin st.params.basePool.raw (st.params.basePool.raw + st.terraPoolDelta.raw)
      (msg.offerCoin.2 * sdrRate.raw) sdrRate.raw askRate.raw

/-! ### The amounts of a swap -/

section Amounts

variable {base pool cp luna x rem spread S R A : ℤ}

/-- The luna pool filled with an offer, in terms of the base pool. -/
lemma filled_mul_pool_le (hpool : 0 < pool) (hcp : 2 * (S * cp) ≤ 2 * (base * base) + S)
    (hS : 0 < S) (hluna : 2 * (luna * pool) ≤ 2 * (cp * S) + pool) :
    (luna + x) * pool ≤ base * base + S + pool * (x + 1) := by
  linarith

/-- What the constant product leaves in the terra pool covers what the roundings pay too much. -/
lemma slack_lt_remaining (hS : 2 ≤ S) (hpool : 0 < pool) (hx : 0 < x) (hR : 0 < R) (hA : 0 < A)
    (hluna0 : 0 ≤ luna) (hcp₁ : 2 * (base * base) ≤ 2 * (S * cp) + S)
    (hcp₂ : 2 * (S * cp) ≤ 2 * (base * base) + S)
    (hluna : 2 * (luna * pool) ≤ 2 * (cp * S) + pool)
    (hrem : 2 * (cp * S ^ 2) < (2 * (S * rem) + S + 2) * (luna + x))
    (hwithin : (base * base + S + pool * (x + 1)) * (x * A + S * (S + R + 2 * A))
      ≤ pool * (base * base - S) * S * A) :
    (S + 2) * (x * A) + 2 * S ^ 2 * (S + R) + S ^ 2 * A < 2 * S ^ 2 * rem * A := by
  have hD : 0 < luna + x := by omega
  have hE : 0 < x * A + S * (S + R + 2 * A) := by positivity
  -- the filled luna pool times the slack is below the constant product
  have hcover : (luna + x) * (x * A + S * (S + R + 2 * A)) ≤ cp * S ^ 2 * A := by
    refine le_of_mul_le_mul_left ?_ hpool
    calc pool * ((luna + x) * (x * A + S * (S + R + 2 * A)))
        = (luna + x) * pool * (x * A + S * (S + R + 2 * A)) := by ring
      _ ≤ (base * base + S + pool * (x + 1)) * (x * A + S * (S + R + 2 * A)) :=
          mul_le_mul_of_nonneg_right (filled_mul_pool_le hpool hcp₂ (by omega) hluna) hE.le
      _ ≤ pool * (base * base - S) * S * A := hwithin
      _ = pool * S * A * (base * base - S) := by ring
      _ ≤ pool * S * A * (S * cp) := mul_le_mul_of_nonneg_left (by linarith) (by positivity)
      _ = pool * (cp * S ^ 2 * A) := by ring
  refine lt_of_mul_lt_mul_right ?_ hD.le
  have hSA : 0 < S * A := by positivity
  calc ((S + 2) * (x * A) + 2 * S ^ 2 * (S + R) + S ^ 2 * A) * (luna + x)
      = ((S + 2) * (x * A) + 2 * S ^ 2 * (S + R) + (2 * S ^ 2 + 2 * S) * A) * (luna + x)
        - S * (S + 2) * A * (luna + x) := by ring
    _ ≤ 2 * S * ((luna + x) * (x * A + S * (S + R + 2 * A)))
        - S * (S + 2) * A * (luna + x) := by
        have hxA : 0 ≤ x * A := by positivity
        have hSx : (S + 2) * (x * A) ≤ 2 * S * (x * A) :=
          mul_le_mul_of_nonneg_right (by omega) hxA
        have hSS : (2 * S ^ 2 + 2 * S) * A ≤ 4 * S ^ 2 * A :=
          mul_le_mul_of_nonneg_right (by nlinarith) hA.le
        have := mul_le_mul_of_nonneg_right (add_le_add hSx hSS) hD.le
        linarith
    _ ≤ S * A * (2 * (cp * S ^ 2)) - S * (S + 2) * A * (luna + x) := by
        have := mul_le_mul_of_nonneg_left hcover (by positivity : 0 ≤ 2 * S)
        linarith
    _ < S * A * ((2 * (S * rem) + S + 2) * (luna + x)) - S * (S + 2) * A * (luna + x) := by
        have := mul_lt_mul_of_pos_left hrem hSA
        linarith
    _ = 2 * S ^ 2 * rem * A * (luna + x) := by ring

/-- **The pool is not emptied.** The amount `z` of the SDR that is taken from the terra pool is what
the spread leaves of the offer `x`, up to the rounding of the conversions, and the spread is
rounded. -/
lemma ask_lt_pool {z : ℤ} (hS : 0 < S) (hA : 0 < A)
    (hspread : 2 * ((x - (pool - rem)) * S ^ 2) < (2 * (S * spread) + S + 2) * x)
    (hz : 2 * (S * (z * A)) ≤ 2 * ((S - spread) * (x * A)) + 2 * (S * (S + R)) + S * A)
    (hslack : (S + 2) * (x * A) + 2 * S ^ 2 * (S + R) + S ^ 2 * A < 2 * S ^ 2 * rem * A) :
    z < pool := by
  have hSA : 0 < 2 * S ^ 2 * A := by positivity
  refine lt_of_mul_lt_mul_left ?_ hSA.le
  have hkept : 2 * S * ((S - spread) * (x * A))
      ≤ 2 * S ^ 2 * (pool - rem) * A + (S + 2) * (x * A) := by
    have := mul_le_mul_of_nonneg_right hspread.le hA.le
    linarith
  calc 2 * S ^ 2 * A * z = S * (2 * (S * (z * A))) := by ring
    _ ≤ S * (2 * ((S - spread) * (x * A)) + 2 * (S * (S + R)) + S * A) :=
        mul_le_mul_of_nonneg_left hz hS.le
    _ = 2 * S * ((S - spread) * (x * A)) + 2 * S ^ 2 * (S + R) + S ^ 2 * A := by ring
    _ ≤ 2 * S ^ 2 * (pool - rem) * A + (S + 2) * (x * A) + 2 * S ^ 2 * (S + R) + S ^ 2 * A := by
        linarith
    _ < 2 * S ^ 2 * (pool - rem) * A + 2 * S ^ 2 * rem * A := by linarith
    _ = 2 * S ^ 2 * A * pool := by ring

end Amounts

/-! ### Conversions -/

section Conversions

variable {s : Oracle.Store}

/-- An offer of luna is worth its amount at the rate of the SDR, without rounding. -/
lemma worth_of_lunaOffer {n : ℤ} {base : DecCoin}
    (h : computeInternalSwap s (microLunaDenom, Fixed.ofInt n) microSDRDenom = .ok base) :
    base.1 = microSDRDenom ∧ ∃ rate : Dec, getLunaExchangeRate s microSDRDenom = .ok rate
      ∧ base.2.raw = n * rate.raw := by
  have hluna : effectivePrice s microLunaDenom = .ok Fixed.one := rfl
  rw [computeInternalSwap, if_neg (show microLunaDenom ≠ microSDRDenom by decide)] at h
  dsimp only at h
  rw [hluna, ok_bind] at h
  obtain ⟨rate, hrate, h⟩ := bind_eq_ok.mp h
  obtain ⟨amount, hmul, h⟩ := bind_eq_ok.mp h
  obtain ⟨ret, hquo, h⟩ := bind_eq_ok.mp h
  obtain ⟨-, h⟩ := failIf_bind_eq_ok.mp h
  obtain ⟨-, -, rfl⟩ := DecCoin.ofDec_eq_ok_iff.mp h
  rw [Fixed.ofInt_mul] at hmul
  obtain ⟨-, rfl⟩ := Fixed.checked_eq_ok_iff.mp hmul
  obtain ⟨hne, -, rfl⟩ := Fixed.quo_eq_ok_iff.mp hquo
  exact ⟨rfl, rate, effectivePrice_eq_ok_iff.mp hrate, Fixed.quoRaw_eq_of_eq_mul hne rfl⟩

/-- A conversion from the SDR has a rate of the denom asked for, where the SDR has one. -/
lemma exists_askRate {coin c : DecCoin} {denom : Denom} {sdrRate : Dec}
    (hcoin : coin.1 = microSDRDenom) (hsdr : getLunaExchangeRate s microSDRDenom = .ok sdrRate)
    (h : computeInternalSwap s coin denom = .ok c) :
    ∃ askRate, getLunaExchangeRate s denom = .ok askRate := by
  rw [computeInternalSwap] at h
  split_ifs at h with heq
  · exact ⟨sdrRate, by rw [← heq, hcoin, hsdr]⟩
  · obtain ⟨_, -, h⟩ := bind_eq_ok.mp h
    obtain ⟨askRate, hask, -⟩ := bind_eq_ok.mp h
    exact ⟨askRate, effectivePrice_eq_ok_iff.mp hask⟩

/-- The fee of a spread is rounded down by half a unit at most. -/
lemma spreadFee_lower {priced fee : DecCoin} {spread : Dec} (h0 : 0 ≤ priced.2.raw)
    (h : spreadFee priced spread = .ok fee) :
    2 * (spread.raw * priced.2.raw) ≤ 2 * (decFormat.scale * fee.2.raw) + decFormat.scale := by
  rw [spreadFee] at h
  split_ifs at h with hpos
  · obtain ⟨amount, hmul, h⟩ := bind_eq_ok.mp h
    obtain ⟨-, rfl⟩ := Fixed.checked_eq_ok_iff.mp hmul
    obtain ⟨-, -, rfl⟩ := DecCoin.ofDec_eq_ok_iff.mp h
    exact (halfEven_bounds decFormat.scale_pos (mul_nonneg (le_of_lt hpos) h0)).1
  · obtain rfl := Except.ok.inj h
    have hspread : spread.raw ≤ 0 := not_lt.mp hpos
    have hproduct : spread.raw * priced.2.raw ≤ 0 := mul_nonpos_of_nonpos_of_nonneg hspread h0
    have hscale := decFormat.scale_pos
    show 2 * (spread.raw * priced.2.raw) ≤ 2 * (decFormat.scale * (0 * decFormat.scale))
      + (decFormat.scale : ℤ)
    omega

end Conversions

/-! ### Steps -/

section Steps

variable {K : Keepers σ} {st st' : State σ} {offerCoin : Coin}

/-- The delta after a pool update: kept between terra denoms, raised by an offer for luna, and
lowered by what an offer of luna is paid. -/
lemma applySwapToPool_delta {askCoin : DecCoin} (hne : offerCoin.1 ≠ askCoin.1)
    (h : applySwapToPool st offerCoin askCoin = .ok st') :
    st'.terraPoolDelta = st.terraPoolDelta
      ∨ (∃ base, computeInternalSwap st.oracle (offerCoin.1, Fixed.ofInt offerCoin.2) microSDRDenom
          = .ok base ∧ 0 ≤ offerCoin.2
          ∧ st'.terraPoolDelta.raw = st.terraPoolDelta.raw + base.2.raw)
      ∨ offerCoin.1 = microLunaDenom ∧ ∃ base,
        computeInternalSwap st.oracle askCoin microSDRDenom = .ok base
          ∧ st'.terraPoolDelta.raw = st.terraPoolDelta.raw - base.2.raw := by
  rw [applySwapToPool] at h
  split_ifs at h with hterra
  · obtain rfl := Except.ok.inj h
    exact .inl rfl
  · obtain ⟨delta, hmoved, h⟩ := bind_eq_ok.mp h
    obtain rfl := Except.ok.inj h
    rw [movedDelta] at hmoved
    split_ifs at hmoved with hask hoffer
    · obtain ⟨offer, hcoin, hmoved⟩ := bind_eq_ok.mp hmoved
      obtain ⟨hvalid, rfl⟩ := DecCoin.ofCoin_eq_ok_iff.mp hcoin
      obtain ⟨base, hbase, hmoved⟩ := bind_eq_ok.mp hmoved
      obtain ⟨-, rfl⟩ := Fixed.checked_eq_ok_iff.mp hmoved
      exact .inr (.inl
        ⟨base, hbase, of_decide_eq_true (Bool.and_eq_true_iff.mp hvalid).2, rfl⟩)
    · obtain ⟨base, hbase, hmoved⟩ := bind_eq_ok.mp hmoved
      obtain ⟨-, rfl⟩ := Fixed.checked_eq_ok_iff.mp hmoved
      exact .inr (.inr ⟨hoffer.1, base, hbase, rfl⟩)
    · -- luna on one side, and not on both
      by_cases hluna : offerCoin.1 = microLunaDenom
      · exact absurd ⟨hluna, fun h => hne (hluna.trans h.symm)⟩ hoffer
      · exact absurd ⟨hluna, by_contra fun h => hterra ⟨hluna, h⟩⟩ hask

/-- The spread of an offer of luna, from below. -/
lemma poolSpread_lower {p : Params} {delta x spread : Dec} (hx : 0 < x.raw)
    (hpool : 0 < p.basePool.raw + delta.raw) (hmin : 0 ≤ p.minStabilitySpread.raw)
    (h : poolSpread p delta true x = .ok spread) :
    0 ≤ spread.raw ∧ ∃ cp luna rem : ℤ, 0 ≤ luna
      ∧ 2 * (p.basePool.raw * p.basePool.raw) ≤ 2 * (decFormat.scale * cp) + decFormat.scale
      ∧ 2 * (decFormat.scale * cp) ≤ 2 * (p.basePool.raw * p.basePool.raw) + decFormat.scale
      ∧ 2 * (luna * (p.basePool.raw + delta.raw))
        ≤ 2 * (cp * decFormat.scale) + (p.basePool.raw + delta.raw)
      ∧ 2 * (cp * (decFormat.scale : ℤ) ^ 2)
        < (2 * (decFormat.scale * rem) + decFormat.scale + 2) * (luna + x.raw)
      ∧ 2 * ((x.raw - (p.basePool.raw + delta.raw - rem)) * (decFormat.scale : ℤ) ^ 2)
        < (2 * (decFormat.scale * spread.raw) + decFormat.scale + 2) * x.raw := by
  obtain ⟨cp, terra, luna, rem, hcp, rfl, hluna, hrem, hspread⟩ := poolSpread_eq_ok h
  obtain ⟨-, rfl⟩ := Fixed.checked_eq_ok_iff.mp hcp
  have hsquare := mul_self_nonneg p.basePool.raw
  have hcp0 := halfEven_nonneg (d := decFormat.scale) hsquare
  have hbounds := halfEven_bounds decFormat.scale_pos hsquare
  have hluna0 : 0 ≤ luna := hluna ▸ Fixed.quoRaw_nonneg hcp0 hpool.le
  have hspread0 : 0 ≤ spread.raw := hspread ▸ hmin.trans (le_max_left _ _)
  refine ⟨hspread0, _, luna, rem, hluna0, hbounds.1, hbounds.2, ?_, ?_, ?_⟩
  · rw [hluna]
    exact Fixed.quoRaw_mul_le hcp0 hpool
  · rw [hrem]
    exact Fixed.lt_quoRaw_mul hcp0 (add_pos_of_nonneg_of_pos hluna0 hx)
  · simp only [if_true] at hspread
    have hscale : (0 : ℤ) < decFormat.scale := by exact_mod_cast decFormat.scale_pos
    rcases le_or_gt 0 (x.raw - (p.basePool.raw + delta.raw - rem)) with hlost | hgain
    · refine (Fixed.lt_quoRaw_mul hlost hx).trans_le (mul_le_mul_of_nonneg_right ?_ hx.le)
      have hle := hspread ▸ le_max_right p.minStabilitySpread.raw _
      have := mul_le_mul_of_nonneg_left hle hscale.le
      omega
    · -- an offer that is paid more than its worth: the spread is not negative
      have hneg := mul_neg_of_neg_of_pos hgain (pow_pos hscale 2)
      have hpos : 0 < (2 * (decFormat.scale * spread.raw) + decFormat.scale + 2) * x.raw := by
        positivity
      omega

/-- What a swap of luna takes from the terra pool: what the spread leaves of the offer, and a unit
at each rate for the conversions. -/
lemma askBase_le {priced fee base : DecCoin} {spread sdrRate askRate : Dec} {x z : ℤ}
    (hrates : RatesPositive st.oracle)
    (hsdr : getLunaExchangeRate st.oracle microSDRDenom = .ok sdrRate)
    (hask : getLunaExchangeRate st.oracle priced.1 = .ok askRate)
    (hpriced : 0 ≤ priced.2.raw) (hspread0 : 0 ≤ spread.raw) (hspread1 : spread.raw ≤ decFormat.scale)
    (hprice : 2 * (priced.2.raw * sdrRate.raw)
      ≤ 2 * (x * askRate.raw) + decFormat.scale + sdrRate.raw)
    (hfee : spreadFee priced spread = .ok fee) (hpos : 0 ≤ priced.2.raw - fee.2.raw)
    (hback : computeInternalSwap st.oracle (priced.1, ⟨priced.2.raw - fee.2.raw⟩) microSDRDenom
      = .ok base) (hz : base.2.raw = z) :
    2 * (decFormat.scale * (z * askRate.raw))
      ≤ 2 * ((decFormat.scale - spread.raw) * (x * askRate.raw))
        + 2 * (decFormat.scale * (decFormat.scale + sdrRate.raw))
        + decFormat.scale * askRate.raw := by
  have hscale : (0 : ℤ) < decFormat.scale := by exact_mod_cast decFormat.scale_pos
  have hsdr0 := hrates.rate_pos hsdr
  have hask0 := hrates.rate_pos hask
  have hlower := mul_le_mul_of_nonneg_right (spreadFee_lower hpriced hfee) hsdr0.le
  have hconv : 2 * (base.2.raw * askRate.raw)
      ≤ 2 * ((priced.2.raw - fee.2.raw) * sdrRate.raw) + decFormat.scale + askRate.raw := by
    refine (computeInternalSwap_le ?_ ?_ hsdr hask0 hsdr0 hback).2
    · exact hpos
    · exact hask
  have hkept := mul_le_mul_of_nonneg_left hprice (sub_nonneg.mpr hspread1)
  have hunits : (decFormat.scale - spread.raw) * (decFormat.scale + sdrRate.raw)
      ≤ decFormat.scale * (decFormat.scale + sdrRate.raw) :=
    mul_le_mul_of_nonneg_right (by omega) (by positivity)
  rw [← hz]
  generalize (decFormat.scale : ℤ) = S at *
  calc 2 * (S * (base.2.raw * askRate.raw))
      = S * (2 * (base.2.raw * askRate.raw)) := by ring
    _ ≤ S * (2 * ((priced.2.raw - fee.2.raw) * sdrRate.raw) + S + askRate.raw) :=
        mul_le_mul_of_nonneg_left hconv hscale.le
    _ ≤ (S - spread.raw) * (2 * (priced.2.raw * sdrRate.raw)) + S * sdrRate.raw + S * S
        + S * askRate.raw := by linarith
    _ ≤ _ := by linarith

/-- **A swap within the pool leaves a positive terra pool.** -/
lemma handleSwapRequest_pool_pos {trader receiver : AccAddress} {askDenom : Denom}
    {res : MsgSwapResponse} (hvalid : st.params.validate = .ok ())
    (hrates : RatesPositive st.oracle)
    (hpool : 0 < st.params.basePool.raw + st.terraPoolDelta.raw)
    (hwithin : offerCoin.1 = microLunaDenom → ∀ sdrRate askRate : Dec,
      getLunaExchangeRate st.oracle microSDRDenom = .ok sdrRate →
      getLunaExchangeRate st.oracle askDenom = .ok askRate →
      OfferWithin st.params.basePool.raw (st.params.basePool.raw + st.terraPoolDelta.raw)
        (offerCoin.2 * sdrRate.raw) sdrRate.raw askRate.raw)
    (h : handleSwapRequest K st trader receiver offerCoin askDenom = .ok (st', res)) :
    0 < st.params.basePool.raw + st'.terraPoolDelta.raw := by
  obtain ⟨-, -, hmin0, hmin1⟩ := Params.validate_eq_ok_iff.mp hvalid
  obtain ⟨priced, spread, fee, amount, st₁, bank, hcompute, hfee, hsub, happly, hsettle, rfl⟩ :=
    handleSwapRequest_eq_ok h
  obtain ⟨hdenom, hpriced⟩ := computeSwap_pos hcompute
  obtain ⟨hne, base, hbase, hret, hspread⟩ := computeSwap_eq_ok hcompute
  have h0 := computeSwap_offer_nonneg hcompute
  obtain ⟨hx, -, -⟩ := base_pos_of_conversions hne h0 hbase hret
  show 0 < st.params.basePool.raw + st₁.terraPoolDelta.raw
  rcases applySwapToPool_delta (hdenom ▸ hne) happly with
    hkeep | ⟨offerBase, hoffer, -, hraise⟩ | ⟨hluna, askBase, hback, hlower⟩
  · rwa [hkeep]
  · -- the base amount of the offer is that of the price
    rw [hbase] at hoffer
    rw [hraise, ← Except.ok.inj hoffer]
    omega
  · rw [hluna] at hbase
    obtain ⟨hbase1, sdrRate, hsdr, hworth⟩ := worth_of_lunaOffer hbase
    obtain ⟨askRate, hask⟩ := exists_askRate hbase1 hsdr hret
    have hamount := settleSwap_pos hsettle
    obtain ⟨-, rfl⟩ := Fixed.checked_eq_ok_iff.mp hsub
    rw [swapSpread, if_neg (by tauto), decide_eq_true hluna] at hspread
    have hone : spread.raw ≤ decFormat.scale := poolSpread_le_one hpool hx hmin1 hspread
    obtain ⟨hspread0, cp, luna, rem, hluna0, hcp₁, hcp₂, hlunaPool, hrem, hlost⟩ :=
      poolSpread_lower hx hpool hmin0 hspread
    have hslack := slack_lt_remaining (by decide) hpool hx (hrates.rate_pos hsdr)
      (hrates.rate_pos hask) hluna0 hcp₁ hcp₂ hlunaPool hrem
      (hworth ▸ hwithin hluna sdrRate askRate hsdr hask)
    have hprice := (computeInternalSwap_le hx.le (hbase1 ▸ hsdr) hask (hrates.rate_pos hsdr)
      (hrates.rate_pos hask) hret).2
    have hz := askBase_le hrates hsdr (hdenom ▸ hask) hpriced.le hspread0 hone hprice hfee
      (le_of_lt hamount) hback rfl
    have hlt := ask_lt_pool (by exact_mod_cast decFormat.scale_pos) (hrates.rate_pos hask) hlost hz
      hslack
    rw [hlower]
    omega

/-- Replenishing moves the delta towards zero, over a period that is an `int64`. -/
lemma replenishPools_pool_pos (hbase : 0 < st.params.basePool.raw)
    (hzero : st.params.poolRecoveryPeriod ≠ 0)
    (hperiod : st.params.poolRecoveryPeriod.toNat < 2 ^ 63)
    (hpool : 0 < st.params.basePool.raw + st.terraPoolDelta.raw)
    (h : replenishPools st = .ok st') :
    st'.params = st.params ∧ 0 < st.params.basePool.raw + st'.terraPoolDelta.raw := by
  obtain ⟨regression, hquo, h⟩ := bind_eq_ok.mp h
  obtain ⟨delta, hsub, h⟩ := bind_eq_ok.mp h
  obtain rfl := Except.ok.inj h
  refine ⟨rfl, ?_⟩
  obtain ⟨-, rfl⟩ := Fixed.checked_eq_ok_iff.mp hsub
  rw [Fixed.quoInt] at hquo
  split_ifs at hquo
  · simp at hquo
  · obtain rfl := Except.ok.inj hquo
    have hn : 0 < toInt64 st.params.poolRecoveryPeriod.toNat := by
      rw [toInt64_of_lt hperiod]
      exact_mod_cast Nat.pos_of_ne_zero fun h => hzero (UInt64.toNat_inj.mp h)
    show 0 < st.params.basePool.raw + (st.terraPoolDelta.raw
      - st.terraPoolDelta.raw.tdiv (toInt64 st.params.poolRecoveryPeriod.toNat))
    generalize toInt64 st.params.poolRecoveryPeriod.toNat = n at *
    rcases le_or_gt 0 st.terraPoolDelta.raw with hdelta | hdelta
    · have := Int.tdiv_le_self n hdelta
      omega
    · have hregression : st.terraPoolDelta.raw.tdiv n ≤ 0 := by
        have := Int.tdiv_nonneg (neg_nonneg.mpr hdelta.le) hn.le
        rw [Int.neg_tdiv] at this
        omega
      omega

end Steps

/-! ### Runs -/

/-- **What a run of offers within the pool keeps.** -/
lemma PoolRun.pool_pos {K : Keepers σ} {p : Params} (hvalid : p.validate = .ok ())
    (hbase : 0 < p.basePool.raw) (hperiod : p.poolRecoveryPeriod.toNat < 2 ^ 63) {st : State σ}
    (hrun : PoolRun K p WithinPool st) :
    st.params = p ∧ RatesPositive st.oracle ∧ 0 < p.basePool.raw + st.terraPoolDelta.raw := by
  induction hrun with
  | start hparams hdelta hrates =>
      refine ⟨hparams, hrates, ?_⟩
      rwa [hdelta, Fixed.zero_raw, add_zero]
  | swap _ msg hwithin _ h ih =>
      obtain ⟨rfl, hrates, hpool⟩ := ih
      obtain ⟨trader, receiver, res, hreq⟩ := SwapMsg.handle_eq_ok h
      obtain ⟨hparams, horacle, -⟩ := handleSwapRequest_frame hreq
      exact ⟨hparams, horacle ▸ hrates,
        handleSwapRequest_pool_pos hvalid hrates hpool hwithin hreq⟩
  | others _ _ ih => exact ih
  | endBlock _ h _ hrates ih =>
      obtain ⟨rfl, -, hpool⟩ := ih
      obtain ⟨-, hzero, -⟩ := Params.validate_eq_ok_iff.mp hvalid
      obtain ⟨hparams, hpos⟩ := replenishPools_pool_pos hbase hzero hperiod hpool h
      exact ⟨hparams, hrates, hpos⟩

/-- **The terra pool over runs.** With admitted parameters, a positive base pool and a recovery
period that is an `int64`, the terra pool is positive in every state of every run whose luna offers
are within the pool. Without that bound it is so only where no swap with luna can succeed: the
minimum spread takes the whole amount, or the square of the base pool overflows. -/
theorem terraPool_pos {p : Params} (hvalid : p.validate = .ok ()) (hbase : 0 < p.basePool.raw)
    (hperiod : p.poolRecoveryPeriod.toNat < 2 ^ 63) :
    (∀ (σ : Type) (K : Keepers σ) (st : State σ), PoolRun K p WithinPool st →
      0 < p.basePool.raw + st.terraPoolDelta.raw)
    ∧ (PoolsStayPositive p ↔ p.minStabilitySpread = Fixed.one
      ∨ ¬ Fixed.Fits decFormat (halfEven (p.basePool.raw * p.basePool.raw) decFormat.scale)) :=
  ⟨fun _ _ _ hrun => (hrun.pool_pos hvalid hbase hperiod).2.2,
    poolsStayPositive_iff hvalid hbase⟩

/-- An offer of a million times the base pool of the default parameters is within the pool, moves
it, and leaves it positive. -/
theorem terraPool_pos_parity : ∃ st, PoolRun ledgerKeepers defaultParams WithinPool st
    ∧ st.terraPoolDelta.raw < 0 ∧ 0 < defaultParams.basePool.raw + st.terraPoolDelta.raw := by
  obtain ⟨st, hst, hmoved⟩ := exists_of_returns
    (p := fun st : State Ledger => decide (st.terraPoolDelta.raw < 0))
    (x := SwapMsg.handle ledgerKeepers parityState (.swap ⟨"trader", ("uluna", 10 ^ 18), "usdr"⟩))
    (by decide +kernel)
  have hwithin : WithinPool parityState (.swap ⟨"trader", ("uluna", 10 ^ 18), "usdr"⟩) := by
    intro _ sdrRate askRate hsdr hask
    obtain rfl := Except.ok.inj (hsdr.symm.trans (show _ = Except.ok Fixed.one from rfl))
    obtain rfl := Except.ok.inj (hask.symm.trans (show _ = Except.ok Fixed.one from rfl))
    unfold OfferWithin
    decide +kernel
  have hrun : PoolRun ledgerKeepers defaultParams WithinPool st :=
    (PoolRun.start rfl rfl ratesPositive_parityRates).swap _ hwithin rfl hst
  exact ⟨st, hrun, of_decide_eq_true hmoved,
    (terraPool_pos rfl (by decide) (by decide)).1 Ledger ledgerKeepers st hrun⟩

end ColumbusCore.Market
