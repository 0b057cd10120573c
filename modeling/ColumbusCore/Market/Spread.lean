import ColumbusCore.Market.PoolRuns

/-!
The spread of a swap with luna on one side (`x/market/keeper/swap.go`).

The spread is what the constant product takes from the offer, so it is at most one as long as the
pool asked for does not grow. For luna asked for this is the order of two quotients. For terra asked
for it has to survive that the luna pool is a rounded quotient itself, which may be rounded down, even
to zero: the positive offer makes up for it (`remaining_le_terraPool`).

* `remaining_le_askPool`: the pool asked for does not grow;
* `faultsIn_poolSpread`: nothing is divided by zero;
* `computeSwap_spread_bounds`: **the spread lies between the minimum and one**, and the fee between
  zero and the proceeds.
-/

namespace ColumbusCore.Market

open Go Rounding

variable {σ : Type}

/-! ### The constant product -/

section Product

variable {cp terra offer : ℤ}

/-- Where luna is offered, what the constant product leaves in the terra pool is no more than what
is in it. -/
lemma remaining_le_terraPool (hcp : 0 ≤ cp) (hterra : 0 < terra) (hoffer : 0 < offer) :
    Fixed.quoRaw decFormat cp (Fixed.quoRaw decFormat cp terra + offer) ≤ terra := by
  have hS : (2 : ℤ) ≤ decFormat.scale := by decide
  have hluna : 0 ≤ Fixed.quoRaw decFormat cp terra := Fixed.quoRaw_nonneg hcp hterra.le
  have hshort := Fixed.lt_quoRaw_mul (F := decFormat) hcp hterra
  refine Fixed.quoRaw_le_of_lt (by omega) hterra.le ?_
  generalize Fixed.quoRaw decFormat cp terra = luna at *
  generalize (decFormat.scale : ℤ) = S at *
  -- the offer is worth more than what was rounded off the luna pool
  have hrounded : (S + 2) * terra ≤ 2 * (S * terra * offer) := by
    have hpos : 0 ≤ S * terra := mul_nonneg (by omega) hterra.le
    calc (S + 2) * terra ≤ 2 * S * terra := mul_le_mul_of_nonneg_right (by omega) hterra.le
      _ = 2 * (S * terra) := by ring
      _ ≤ 2 * (S * terra * offer) := by
        have := le_mul_of_one_le_right hpos (show 1 ≤ offer by omega)
        omega
  linarith

/-- The pool asked for does not grow, on either side. -/
lemma remaining_le_askPool (hcp : 0 ≤ cp) (hterra : 0 < terra) (hoffer : 0 < offer)
    (lunaOffered : Bool) :
    Fixed.quoRaw decFormat cp
        ((if lunaOffered then Fixed.quoRaw decFormat cp terra else terra) + offer)
      ≤ if lunaOffered then terra else Fixed.quoRaw decFormat cp terra := by
  cases lunaOffered with
  | true => exact remaining_le_terraPool hcp hterra hoffer
  | false => exact Fixed.quoRaw_antitone hcp hterra (show terra ≤ terra + offer by omega)

end Product

/-! ### The spread -/

section Spread

variable {p : Params} {delta x spread : Dec} {lunaOffered : Bool}

/-- **The spread is at most one**, with a positive terra pool and a positive offer. -/
lemma poolSpread_le_one (hterra : 0 < p.basePool.raw + delta.raw) (hoffer : 0 < x.raw)
    (hmin : p.minStabilitySpread ≤ Fixed.one) (h : poolSpread p delta lunaOffered x = .ok spread) :
    spread ≤ Fixed.one := by
  obtain ⟨cp, terra, luna, remaining, hcp, rfl, rfl, rfl, hspread⟩ := poolSpread_eq_ok h
  have hcp0 : 0 ≤ cp.raw := by
    obtain ⟨-, rfl⟩ := Fixed.checked_eq_ok_iff.mp hcp
    exact halfEven_nonneg (mul_self_nonneg p.basePool.raw)
  have hask := remaining_le_askPool hcp0 hterra hoffer lunaOffered
  show spread.raw ≤ decFormat.scale
  rw [hspread]
  refine max_le hmin (Fixed.quoRaw_le_of_le_mul hoffer (by positivity) ?_)
  rw [mul_comm]
  exact mul_le_mul_of_nonneg_left (by omega) (by positivity)

/-- **No division by zero**: the decimals of the spread can only leave their bit limit. -/
lemma faultsIn_poolSpread (hterra : 0 < p.basePool.raw + delta.raw) (hoffer : 0 < x.raw) :
    FaultsIn (· = .panic .overflow) (poolSpread p delta lunaOffered x) := by
  have hne : ∀ {a : Dec}, 0 < a.raw → a ≠ 0 := fun ha h0 => by
    rw [h0] at ha
    exact absurd ha (by decide)
  refine (Fixed.faultsIn_checked _).bind fun cp hcp => ?_
  obtain ⟨-, rfl⟩ := Fixed.checked_eq_ok_iff.mp hcp
  refine (Fixed.faultsIn_checked _).bind fun terra hterra' => ?_
  obtain ⟨-, rfl⟩ := Fixed.checked_eq_ok_iff.mp hterra'
  refine (Fixed.faultsIn_quo (hne hterra)).bind fun luna hluna => ?_
  obtain ⟨-, -, rfl⟩ := Fixed.quo_eq_ok_iff.mp hluna
  have hluna0 := Fixed.quoRaw_nonneg (F := decFormat)
    (halfEven_nonneg (d := decFormat.scale) (mul_self_nonneg p.basePool.raw)) hterra.le
  refine (Fixed.faultsIn_checked _).bind fun filled hfilled => ?_
  obtain ⟨-, rfl⟩ := Fixed.checked_eq_ok_iff.mp hfilled
  have hfilled0 : 0 < (if lunaOffered then (⟨Fixed.quoRaw decFormat
      (halfEven (p.basePool.raw * p.basePool.raw) decFormat.scale)
      (p.basePool.raw + delta.raw)⟩ : Dec) else ⟨p.basePool.raw + delta.raw⟩).raw + x.raw := by
    cases lunaOffered with
    | true => exact add_pos_of_nonneg_of_pos hluna0 hoffer
    | false => exact add_pos hterra hoffer
  refine (Fixed.faultsIn_quo (hne hfilled0)).bind fun remaining _ => ?_
  refine (Fixed.faultsIn_checked _).bind fun asked _ => ?_
  refine (Fixed.faultsIn_checked _).bind fun lost _ => ?_
  exact (Fixed.faultsIn_quo (hne hoffer)).bind fun computed _ => faultsIn_ok _

end Spread

/-! ### Swaps -/

section Swap

variable {st : State σ} {offerCoin : Coin} {askDenom : Denom}

/-- Rates of the oracle that are positive, as prices. -/
lemma RatesPositive.rate_pos {s : Oracle.Store} (hrates : RatesPositive s) {denom : Denom}
    {rate : Dec} (h : getLunaExchangeRate s denom = .ok rate) : 0 < rate.raw := by
  rw [getLunaExchangeRate] at h
  split_ifs at h
  · rw [← Except.ok.inj h]
    decide
  · cases hrate : s.exchangeRates[denom]? with
    | none => simp [hrate] at h
    | some rate' =>
        simp only [hrate] at h
        rw [← Except.ok.inj h]
        exact hrates denom rate' hrate

/-- A conversion at positive rates does not divide by zero. -/
lemma computeInternalSwap_ne_divisionByZero {s : Oracle.Store} (hrates : RatesPositive s)
    (coin : DecCoin) (denom : Denom) :
    computeInternalSwap s coin denom ≠ .error (.panic .divisionByZero) := by
  rw [computeInternalSwap]
  split_ifs
  · simp
  · refine bind_ne_error effectivePrice_ne_panic fun offerRate hoffer => ?_
    refine bind_ne_error effectivePrice_ne_panic fun askRate _ => ?_
    refine bind_ne_error (fun h => absurd (Fixed.faultsIn_checked _ _ h) (by simp)) fun amount _ => ?_
    have hrate : offerRate ≠ 0 := fun h0 => by
      have hpos := hrates.rate_pos (effectivePrice_eq_ok_iff.mp hoffer)
      rw [h0] at hpos
      exact absurd hpos (by decide)
    refine bind_ne_error (fun h => absurd (Fixed.faultsIn_quo hrate _ h) (by simp)) fun ret _ => ?_
    refine bind_ne_error failIf_ne_panic fun _ _ => ?_
    rw [DecCoin.ofDec, DecCoins.newDecCoin]
    split_ifs <;> simp [panicked]

/-- The amount a spread is computed on is positive, and the proceeds are a decimal. -/
lemma base_pos_of_conversions (hne : offerCoin.1 ≠ askDenom) (h0 : 0 ≤ offerCoin.2)
    {base ret : DecCoin}
    (hbase : computeInternalSwap st.oracle (offerCoin.1, Fixed.ofInt offerCoin.2) microSDRDenom
      = .ok base)
    (hret : computeInternalSwap st.oracle base askDenom = .ok ret) :
    0 < base.2.raw ∧ validDenom ret.1 = true ∧ Fixed.Fits decFormat ret.2.raw := by
  have hoffer : 0 ≤ (Fixed.ofInt offerCoin.2 : Dec).raw := mul_nonneg h0 (by positivity)
  obtain ⟨hdenom, hsame⟩ := computeInternalSwap_spec hbase
  by_cases hask : microSDRDenom = askDenom
  · -- the proceeds are the base amount
    have hdiff : offerCoin.1 ≠ microSDRDenom := hask ▸ hne
    obtain ⟨-, hvalid, hfit⟩ := computeInternalSwap_of_ne hdiff hoffer hbase
    rw [computeInternalSwap, if_pos (hdenom.trans hask)] at hret
    obtain rfl := Except.ok.inj hret
    refine ⟨?_, hvalid, hfit⟩
    rcases hsame with rfl | hpos
    · exact absurd hdenom hdiff
    · exact hpos
  · have hbase0 : 0 ≤ base.2.raw := by
      rcases hsame with rfl | hpos
      · exact hoffer
      · exact hpos.le
    exact computeInternalSwap_of_ne (hdenom ▸ hask) hbase0 hret

/-- The proceeds of a swap are a positive decimal of a valid denom. -/
lemma computeSwap_priced {priced : DecCoin} {spread : Dec}
    (h : computeSwap st offerCoin askDenom = .ok (priced, spread)) :
    validDenom priced.1 = true ∧ 0 < priced.2.raw ∧ Fixed.Fits decFormat priced.2.raw := by
  obtain ⟨hne, base, hbase, hret, -⟩ := computeSwap_eq_ok h
  obtain ⟨-, hvalid, hfit⟩ :=
    base_pos_of_conversions hne (computeSwap_offer_nonneg h) hbase hret
  exact ⟨hvalid, (computeSwap_pos h).2, hfit⟩

/-- The fee of a spread of the unit interval. -/
lemma exists_spreadFee {priced : DecCoin} {spread : Dec} (hvalid : validDenom priced.1 = true)
    (h0 : 0 ≤ priced.2.raw) (hfit : Fixed.Fits decFormat priced.2.raw) (hone : spread ≤ Fixed.one) :
    ∃ fee, spreadFee priced spread = .ok fee ∧ 0 ≤ fee.2.raw ∧ fee.2.raw ≤ priced.2.raw := by
  rw [spreadFee]
  split_ifs with hpos
  · obtain ⟨fee, hfee, hfee0, hle⟩ := Fixed.exists_mul_unit h0 hfit hpos.le hone
    rw [Fixed.mul, mul_comm, ← Fixed.mul, hfee, ok_bind]
    exact ⟨_, DecCoin.ofDec_eq_ok_iff.mpr ⟨hvalid, hfee0, rfl⟩, hfee0, hle⟩
  · have hzero : (Fixed.ofInt 0 : Dec).raw = 0 := zero_mul _
    exact ⟨_, rfl, hzero.ge, by rw [hzero]; exact h0⟩

/-- **The bounds of the spread.** With a positive terra pool, positive oracle rates and a minimum
spread of the unit interval, a swap with luna on one side does not divide by zero. Where it is
computed, its spread lies between the minimum and one, and the fee that is taken from the proceeds
lies between zero and the proceeds. -/
theorem computeSwap_spread_bounds (hterra : 0 < st.params.basePool.raw + st.terraPoolDelta.raw)
    (hrates : RatesPositive st.oracle) (hmin : st.params.minStabilitySpread ≤ Fixed.one)
    (hluna : offerCoin.1 = microLunaDenom ∨ askDenom = microLunaDenom) :
    computeSwap st offerCoin askDenom ≠ .error (.panic .divisionByZero)
      ∧ ∀ ret spread, computeSwap st offerCoin askDenom = .ok (ret, spread) →
        st.params.minStabilitySpread ≤ spread ∧ spread ≤ Fixed.one
          ∧ ∃ fee, spreadFee ret spread = .ok fee ∧ 0 ≤ fee.2.raw ∧ fee.2.raw ≤ ret.2.raw := by
  have hpool : ∀ x, swapSpread st offerCoin.1 askDenom x = poolSpread st.params st.terraPoolDelta
      (decide (offerCoin.1 = microLunaDenom)) x := fun x => by
    rw [swapSpread, if_neg (by tauto)]
  constructor
  · refine bind_ne_error failIf_ne_panic fun _ hfresh => ?_
    have hne : offerCoin.1 ≠ askDenom := failIf_eq_ok.mp hfresh
    refine bind_ne_error ?_ fun offer hoffer => ?_
    · rw [DecCoin.ofCoin]
      split_ifs <;> simp [panicked]
    obtain ⟨hvalid, rfl⟩ := DecCoin.ofCoin_eq_ok_iff.mp hoffer
    have h0 : 0 ≤ offerCoin.2 := of_decide_eq_true (Bool.and_eq_true_iff.mp hvalid).2
    refine bind_ne_error (computeInternalSwap_ne_divisionByZero hrates _ _) fun base hbase => ?_
    refine bind_ne_error (computeInternalSwap_ne_divisionByZero hrates _ _) fun ret hret => ?_
    obtain ⟨hpos, -, -⟩ := base_pos_of_conversions hne h0 hbase hret
    refine bind_ne_error (fun h => ?_) fun _ _ => by simp
    rw [hpool] at h
    exact absurd (faultsIn_poolSpread hterra hpos _ h) (by simp)
  · intro ret spread h
    obtain ⟨hne, base, hbase, hret, hspread⟩ := computeSwap_eq_ok h
    obtain ⟨hpos, -, -⟩ := base_pos_of_conversions hne (computeSwap_offer_nonneg h) hbase hret
    have hone : spread ≤ Fixed.one :=
      poolSpread_le_one hterra hpos hmin ((hpool _).symm.trans hspread)
    obtain ⟨hvalid, hpriced, hfit⟩ := computeSwap_priced h
    exact ⟨(swapSpread_of_luna hluna hspread).2, hone,
      exists_spreadFee hvalid hpriced.le hfit hone⟩

end Swap

lemma ratesPositive_usdMarket : RatesPositive usdMarket.oracle := by
  intro denom rate h
  rw [usdMarket, ratesStore, getElem?_insert_ite, getElem?_insert_ite] at h
  split_ifs at h
  · rw [← Option.some.inj h]
    decide
  · rw [← Option.some.inj h]
    decide
  · simp at h

/-- A swap of a million luna. -/
theorem computeSwap_spread_usdMarket : ∃ ret spread,
    computeSwap usdMarket ("uluna", 1000000) "uusd" = .ok (ret, spread)
      ∧ newDecWithPrec 2 2 ≤ spread ∧ spread ≤ Fixed.one := by
  obtain ⟨⟨ret, spread⟩, h, -⟩ := exists_of_returns (p := fun _ => true)
    (x := computeSwap usdMarket ("uluna", 1000000) "uusd") (by decide +kernel)
  obtain ⟨hmin, hone, -⟩ := (computeSwap_spread_bounds (by decide) ratesPositive_usdMarket
    (by decide) (Or.inl rfl)).2 ret spread h
  exact ⟨ret, spread, h, hmin, hone⟩

end ColumbusCore.Market
