import ColumbusCore.Tax.Split

/-!
The community tax on a split, and the one that the distribution module takes later.

The distribution module takes the community tax `γ` of whatever is in the fee collector. A split
that sent `γ` of its amount to the community pool and left the rest would be taxed twice, so
`ProcessTaxSplits` sends the adjusted share `γω / (1 - γ + γω)`, where `ω` is the oracle split:
what the pool gets now and what it will get of the rest are then `γ` of the amount. The code rounds
six times on the way.

* `community_excess`: the difference to the exact tax, in terms of the rounding errors;
* `applyCommunityTax_error`: the error of the adjusted rate;
* `communitySplit_error`, `oracleSplit_error`: the errors of the two shares;
* `processTaxSplits_taxes_once`: **the community tax is taken once, up to one base unit**.
-/

namespace ColumbusCore.Tax

open Go Rounding

variable {β : Type}

/-! ### Errors -/

section Errors

lemma abs_mul_le_of_le_one {a x e : ℚ} (ha0 : 0 ≤ a) (ha1 : a ≤ 1) (hx : |x| ≤ e) :
    |a * x| ≤ e := by
  rw [abs_mul, abs_of_nonneg ha0]
  exact (mul_le_of_le_one_left (abs_nonneg x) ha1).trans hx

variable {γ ω : ℚ}

/-- The exact divisor of the adjusted rate. -/
def exactDivisor (γ ω : ℚ) : ℚ := 1 - γ + γ * ω

lemma exactDivisor_unit (hγ0 : 0 ≤ γ) (hγ : γ ≤ 1) (hω0 : 0 ≤ ω) (hω : ω ≤ 1) :
    0 ≤ exactDivisor γ ω ∧ exactDivisor γ ω ≤ 1 := by
  have hle : γ * ω ≤ γ := mul_le_of_le_one_right hγ0 hω
  have h0 : 0 ≤ γ * ω := mul_nonneg hγ0 hω0
  rw [exactDivisor]
  constructor <;> linarith

/-- The pool gets `C` of `D` now and the tax of the rest later. What it gets too much or too little
is the error of the two shares. -/
lemma community_excess (C D O : ℚ) :
    C + γ * (D - C - O) - γ * D
      = (exactDivisor γ ω * C - γ * ω * D) - γ * (O - ω * (D - C)) := by
  rw [exactDivisor]
  ring

/-- The error of the adjusted rate `p`, which is computed from the rounded product `m` and the
rounded quotient `q`. -/
lemma adjusted_error {m q p u : ℚ} (hγ0 : 0 ≤ γ) (hγ : γ ≤ 1 / 2) (hω0 : 0 ≤ ω) (hω : ω ≤ 1)
    (hu : u ≤ 1 / 2) (hm0 : 0 ≤ m) (hm : |m - γ * ω| ≤ u / 2)
    (hq : |q - ω / (m + 1 - γ)| ≤ (1 / 2 + u) * u) (hp : |p - γ * q| ≤ u / 2) :
    |exactDivisor γ ω * p - γ * ω| ≤ 3 / 2 * u := by
  have hu0 : 0 ≤ u := by linarith [(abs_nonneg _).trans hm]
  have hd : 1 / 2 ≤ m + 1 - γ := by linarith
  have hd0 : 0 < m + 1 - γ := by linarith
  obtain ⟨hW0, hW1⟩ := exactDivisor_unit hγ0 (by linarith) hω0 hω
  have hsum : exactDivisor γ ω * p - γ * ω
      = exactDivisor γ ω * (p - γ * q) + γ * (exactDivisor γ ω * (q - ω / (m + 1 - γ))
        + ω * ((γ * ω - m) / (m + 1 - γ))) := by
    rw [exactDivisor]
    field_simp
    ring
  have hproduct : |exactDivisor γ ω * (p - γ * q)| ≤ u / 2 := abs_mul_le_of_le_one hW0 hW1 hp
  have hquotient : |exactDivisor γ ω * (q - ω / (m + 1 - γ))| ≤ u :=
    abs_mul_le_of_le_one hW0 hW1 (hq.trans (mul_le_of_le_one_left hu0 (by linarith)))
  have hdivisor : |ω * ((γ * ω - m) / (m + 1 - γ))| ≤ u := by
    refine abs_mul_le_of_le_one hω0 hω ?_
    rw [abs_div, abs_of_pos hd0, div_le_iff₀ hd0, abs_sub_comm]
    calc |m - γ * ω| ≤ u / 2 := hm
      _ = u * (1 / 2) := by ring
      _ ≤ u * (m + 1 - γ) := mul_le_mul_of_nonneg_left hd hu0
  rw [hsum]
  calc |exactDivisor γ ω * (p - γ * q) + γ * (exactDivisor γ ω * (q - ω / (m + 1 - γ))
        + ω * ((γ * ω - m) / (m + 1 - γ)))|
      ≤ u / 2 + γ * (u + u) := by
        refine (abs_add_le _ _).trans (add_le_add hproduct ?_)
        rw [abs_mul, abs_of_nonneg hγ0]
        exact mul_le_mul_of_nonneg_left
          ((abs_add_le _ _).trans (add_le_add hquotient hdivisor)) hγ0
    _ ≤ u / 2 + 1 / 2 * (u + u) := by
        linarith [mul_le_mul_of_nonneg_right hγ (add_nonneg hu0 hu0)]
    _ = 3 / 2 * u := by ring

end Errors

/-! ### The shares -/

section Shares

variable {ct os : Dec}

lemma toRat_nonneg {x : Dec} (h : 0 ≤ x.raw) : 0 ≤ x.toRat :=
  div_nonneg (by exact_mod_cast h) (Nat.cast_nonneg _)

lemma toRat_le_one {x : Dec} (h : x.raw ≤ decFormat.scale) : x.toRat ≤ 1 :=
  div_le_one_of_le₀ (by exact_mod_cast h) (Nat.cast_nonneg _)

lemma toRat_le_half {x : Dec} (h : x ≤ newDecWithPrec 5 1) : x.toRat ≤ 1 / 2 := by
  have hraw : (x.raw : ℚ) ≤ 5 * 10 ^ 17 := by exact_mod_cast (h : x.raw ≤ 5 * 10 ^ 17)
  have hS : (decFormat.scale : ℚ) = 10 ^ 18 := by norm_num [decFormat]
  rw [Fixed.toRat, hS, div_le_iff₀ (by norm_num)]
  linarith

/-- The error of the adjusted community tax. -/
lemma applyCommunityTax_error {rate : Dec} (hct0 : 0 ≤ ct.raw) (hct : ct.toRat ≤ 1 / 2)
    (hos0 : 0 ≤ os.raw) (hos : os.raw ≤ decFormat.scale)
    (h : applyCommunityTax ct os = .ok rate) :
    0 ≤ rate.raw ∧ |exactDivisor ct.toRat os.toRat * rate.toRat - ct.toRat * os.toRat|
      ≤ 3 / 2 * (1 / decFormat.scale) := by
  have hS : (0 : ℚ) < decFormat.scale := by exact_mod_cast decFormat.scale_pos
  obtain ⟨product, hproduct, h⟩ := bind_eq_ok.mp h
  obtain ⟨sum, hsum, h⟩ := bind_eq_ok.mp h
  obtain ⟨divisor, hdivisor, h⟩ := bind_eq_ok.mp h
  obtain ⟨quotient, hquotient, h⟩ := bind_eq_ok.mp h
  have hproduct0 : 0 ≤ product.raw := by
    obtain ⟨-, rfl⟩ := Fixed.checked_eq_ok_iff.mp hproduct
    exact halfEven_nonneg (mul_nonneg hct0 hos0)
  have hdiv : divisor.toRat = product.toRat + 1 - ct.toRat := by
    obtain ⟨-, rfl⟩ := Fixed.checked_eq_ok_iff.mp hsum
    obtain ⟨-, rfl⟩ := Fixed.checked_eq_ok_iff.mp hdivisor
    simp only [Fixed.toRat, Fixed.one]
    push_cast
    field_simp
  have hdiv0 : 0 < divisor.raw := by
    have hpos : 0 < divisor.toRat := by
      rw [hdiv]
      linarith [toRat_nonneg hproduct0]
    rw [Fixed.toRat, div_pos_iff_of_pos_right hS] at hpos
    exact_mod_cast hpos
  have hquotient0 : 0 ≤ quotient.raw := by
    obtain ⟨-, -, rfl⟩ := Fixed.quo_eq_ok_iff.mp hquotient
    exact Fixed.quoRaw_nonneg hos0 hdiv0.le
  have hm := Fixed.abs_mul_sub_le (mul_nonneg hct0 hos0) hproduct
  have hq := Fixed.abs_quo_sub_le hos0 hdiv0 hquotient
  have hp := Fixed.abs_mul_sub_le (mul_nonneg hct0 hquotient0) h
  have hhalf : (1 : ℚ) / (2 * decFormat.scale) = 1 / decFormat.scale / 2 := by ring
  constructor
  · obtain ⟨-, rfl⟩ := Fixed.checked_eq_ok_iff.mp h
    exact halfEven_nonneg (mul_nonneg hct0 hquotient0)
  · rw [hhalf] at hm hp
    rw [hdiv, div_eq_mul_one_div (1 / 2 + 1 / (decFormat.scale : ℚ))] at hq
    exact adjusted_error (toRat_nonneg hct0) hct (toRat_nonneg hos0) (toRat_le_one hos)
      (by norm_num [decFormat]) (toRat_nonneg hproduct0) hm hq hp

/-- The error of a share. -/
lemma shareOf_sub_le {rate : Dec} {coins shares : Coins} {d : Denom} (hrate : 0 ≤ rate.raw)
    (hcoins : 0 ≤ coins.amountOf d) (h : shareOf rate coins = .ok shares) :
    |(shares.amountOf d : ℚ) - rate.toRat * coins.amountOf d| ≤ 1 / 2 := by
  obtain ⟨-, -, hshare⟩ := shareOf_eq_ok_iff.mp h d
  have herror := abs_halfEven_sub_le decFormat.scale_pos (mul_nonneg hrate hcoins)
  rw [hshare, Fixed.toRat, div_mul_eq_mul_div]
  exact_mod_cast herror

/-- The error of the community tax: half a unit for the share, and the error of the rate. -/
lemma communitySplit_error {delta community remaining : Coins} {d : Denom} (hct0 : 0 ≤ ct.raw)
    (hct : ct.toRat ≤ 1 / 2) (hos0 : 0 ≤ os.raw) (hos : os.raw ≤ decFormat.scale)
    (hdelta : 0 ≤ delta.amountOf d) (h : communitySplit ct os delta = .ok (community, remaining)) :
    |exactDivisor ct.toRat os.toRat * community.amountOf d
        - ct.toRat * os.toRat * delta.amountOf d|
      ≤ 1 / 2 + 3 / 2 * (1 / decFormat.scale) * delta.amountOf d := by
  have hdelta' : (0 : ℚ) ≤ delta.amountOf d := by exact_mod_cast hdelta
  have hct1 : ct.toRat ≤ 1 := by linarith
  obtain ⟨hW0, hW1⟩ :=
    exactDivisor_unit (toRat_nonneg hct0) hct1 (toRat_nonneg hos0) (toRat_le_one hos)
  rcases communitySplit_cases h with ⟨rate, hrate, hcommunity, -⟩ | ⟨hnone, rfl, -⟩
  · obtain ⟨hrate0, herror⟩ := applyCommunityTax_error hct0 hct hos0 hos hrate
    have hshare := shareOf_sub_le hrate0 hdelta hcommunity
    have hsum : exactDivisor ct.toRat os.toRat * community.amountOf d
          - ct.toRat * os.toRat * delta.amountOf d
        = exactDivisor ct.toRat os.toRat * (community.amountOf d - rate.toRat * delta.amountOf d)
          + (exactDivisor ct.toRat os.toRat * rate.toRat - ct.toRat * os.toRat)
            * delta.amountOf d := by ring
    rw [hsum]
    refine (abs_add_le _ _).trans (add_le_add (abs_mul_le_of_le_one hW0 hW1 hshare) ?_)
    rw [abs_mul, abs_of_nonneg hdelta']
    exact mul_le_mul_of_nonneg_right herror hdelta'
  · have hzero : ct.toRat = 0 := by
      rw [Fixed.toRat, le_antisymm hnone hct0]
      simp
    rw [hzero]
    simp
    positivity

/-- The error of the oracle's share. -/
lemma oracleSplit_error {delta oracle : Coins} {d : Denom} (hos0 : 0 ≤ os.raw)
    (hdelta : 0 ≤ delta.amountOf d) (h : oracleSplitCoins os delta = .ok oracle) :
    |(oracle.amountOf d : ℚ) - os.toRat * delta.amountOf d| ≤ 1 / 2 := by
  rw [oracleSplitCoins] at h
  split_ifs at h with hpos
  · exact shareOf_sub_le hos0 hdelta h
  · obtain rfl := Except.ok.inj h
    rw [Fixed.toRat, le_antisymm (not_lt.mp hpos) hos0]
    simp

end Shares

/-! ### The tax -/

/-- What is distributed is not negative, and the rest of the taxes is burned. -/
lemma burnSplit_eq_ok {b : Dec} {taxes delta burned : Coins}
    (h : burnSplit b taxes = .ok (delta, burned)) :
    delta.IsValid ∧ ∀ d, burned.amountOf d = taxes.amountOf d - delta.amountOf d := by
  rcases burnSplit_cases h with ⟨hdelta, hburned⟩ | ⟨rfl, rfl⟩
  · obtain ⟨-, rfl⟩ := CoinSet.sub_eq_ok_iff.mp hburned
    exact ⟨isValid_shareOf hdelta, fun d => CoinSet.amountOf_safeSub _ _ d⟩
  · exact ⟨CoinSet.isValid_empty, fun d => by simp⟩

/-- The errors of the shares do not add up to one unit. -/
lemma abs_excess_lt_one {γ ω C D O u : ℚ} (hγ0 : 0 ≤ γ) (hγ : γ ≤ 1 / 2) (hD : u * D ≤ 1 / 10)
    (hC : |exactDivisor γ ω * C - γ * ω * D| ≤ 1 / 2 + 3 / 2 * u * D)
    (hO : |O - ω * (D - C)| ≤ 1 / 2) : |C + γ * (D - C - O) - γ * D| < 1 := by
  have horacle : |γ * (O - ω * (D - C))| ≤ 1 / 4 := by
    rw [abs_mul, abs_of_nonneg hγ0]
    calc γ * |O - ω * (D - C)| ≤ 1 / 2 * (1 / 2) := mul_le_mul hγ hO (abs_nonneg _) (by norm_num)
      _ = 1 / 4 := by norm_num
  rw [@community_excess γ ω]
  calc |(exactDivisor γ ω * C - γ * ω * D) - γ * (O - ω * (D - C))|
      ≤ |exactDivisor γ ω * C - γ * ω * D| + |γ * (O - ω * (D - C))| := abs_sub _ _
    _ ≤ 1 / 2 + 3 / 2 * u * D + 1 / 4 := add_le_add hC horacle
    _ < 1 := by linarith

/-- **No double community tax.** With a community tax of at most one half and an oracle split of the
unit interval, a split sends to the community pool what the distribution module will not take of
the part that stays in the fee collector: the two together are the community tax of the amount that
is split, up to less than one base unit, for amounts of up to `10 ^ 17`. -/
theorem processTaxSplits_taxes_once {K : Keepers β} (hK : BankLawful K) {c c' : Chain β}
    {taxes : Coins} (h : processTaxSplits K c taxes = .ok c')
    (hct0 : 0 ≤ K.getCommunityTax c.rest) (hct : K.getCommunityTax c.rest ≤ newDecWithPrec 5 1)
    (hos0 : 0 ≤ c.treasury.params.oracleSplit) (hos : c.treasury.params.oracleSplit ≤ Fixed.one) :
    ∃ delta burned community left : Coins,
      burnSplit c.treasury.params.burnTaxSplit taxes = .ok (delta, burned)
      ∧ (∀ d, ((K.communityPool c'.rest).amountOf d).raw
        = ((K.communityPool c.rest).amountOf d).raw + community.amountOf d * decFormat.scale)
      ∧ (∀ a d, K.getModuleAddress feeCollectorName = some a →
        K.getModuleAddress distributionModuleName ≠ some a →
        K.getModuleAddress oracleModuleName ≠ some a →
        K.getModuleAddress burnModuleName ≠ some a →
        K.getBalance c'.rest a d
          = K.getBalance c.rest a d - taxes.amountOf d + left.amountOf d)
      ∧ ∀ d, delta.amountOf d ≤ 10 ^ 17 →
        |(community.amountOf d : ℚ) + (K.getCommunityTax c.rest).toRat * left.amountOf d
          - (K.getCommunityTax c.rest).toRat * delta.amountOf d| < 1 := by
  obtain ⟨split, hsplit, hbal, hpool⟩ := processTaxSplits_moves hK h
  obtain ⟨⟨delta, burned⟩, hburn, hsplit⟩ := bind_eq_ok.mp hsplit
  obtain ⟨⟨community, remaining⟩, hcommunity, hsplit⟩ := bind_eq_ok.mp hsplit
  obtain ⟨oracle, horacle, hsplit⟩ := bind_eq_ok.mp hsplit
  obtain rfl := Except.ok.inj hsplit
  obtain ⟨hdelta, hburned⟩ := burnSplit_eq_ok hburn
  have hparts := communitySplit_parts hdelta hcommunity
  refine ⟨delta, burned, community, CoinSet.safeSub remaining oracle, hburn, hpool,
    fun a d hcollector hdistribution hmodule hburner => ?_, fun d hD => ?_⟩
  · have hsum := hparts.sum d
    have hrest := hburned d
    rw [hbal, if_pos hcollector, if_neg hdistribution, if_neg hmodule, if_neg hburner,
      CoinSet.amountOf_safeSub]
    dsimp only
    omega
  · have hD0 := CoinSet.isValid_iff.mp hdelta d
    have hhalf : (K.getCommunityTax c.rest).toRat ≤ 1 / 2 := toRat_le_half hct
    have hremaining : (remaining.amountOf d : ℚ) = delta.amountOf d - community.amountOf d := by
      rw [← hparts.sum d]
      push_cast
      ring
    have hshare := oracleSplit_error hos0 (hparts.rest_nonneg d) horacle
    rw [hremaining] at hshare
    rw [CoinSet.amountOf_safeSub, Int.cast_sub, hremaining]
    refine abs_excess_lt_one (toRat_nonneg hct0) hhalf ?_
      (communitySplit_error hct0 hhalf hos0 hos hD0 hcommunity) hshare
    have hD' : (delta.amountOf d : ℚ) ≤ 10 ^ 17 := by exact_mod_cast hD
    have hS : (decFormat.scale : ℚ) = 10 ^ 18 := by norm_num [decFormat]
    rw [hS]
    linarith

/-- A tax of a million dollars, at a community tax of two percent. -/
theorem taxed_once_million :
    ∃ c', processTaxSplits ledgerKeepers (ledgerChain [("fee_collector", "uusd", 1000000)])
        (CoinSet.ofList [("uusd", 1000000)]) = .ok c'
      ∧ ∃ delta burned community left : Coins,
        burnSplit Treasury.defaultParams.burnTaxSplit (CoinSet.ofList [("uusd", 1000000)])
          = .ok (delta, burned)
        ∧ (c'.rest.pool.amountOf "uusd").raw = 0 + community.amountOf "uusd" * decFormat.scale
        ∧ |(community.amountOf "uusd" : ℚ) + (newDecWithPrec 2 2).toRat * left.amountOf "uusd"
          - (newDecWithPrec 2 2).toRat * delta.amountOf "uusd"| < 1 := by
  obtain ⟨c', hc', -⟩ := exists_of_returns (p := fun _ : Chain Ledger => true)
    (x := processTaxSplits ledgerKeepers (ledgerChain [("fee_collector", "uusd", 1000000)])
      (CoinSet.ofList [("uusd", 1000000)])) (by decide +kernel)
  obtain ⟨delta, burned, community, left, hburn, hpool, -, htax⟩ :=
    processTaxSplits_taxes_once bankLawful_ledger hc' (by decide +kernel) (by decide +kernel)
      (by decide +kernel) (by decide +kernel)
  have hD : delta.amountOf "uusd" ≤ 1000000 := by
    refine ((burnSplit_parts (by decide +kernel) hburn).part_le "uusd").trans ?_
    decide +kernel
  exact ⟨c', hc', delta, burned, community, left, hburn, hpool "uusd",
    htax "uusd" (hD.trans (by norm_num))⟩

end ColumbusCore.Tax
