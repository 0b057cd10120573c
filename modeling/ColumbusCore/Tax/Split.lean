import ColumbusCore.Tax.Ledger

/-!
The splits of a tax: when they are computed at all, and where the coins go.

* `exists_applyCommunityTax`: the adjusted community tax lies in the unit interval, unless the
  community tax is one and the oracle split zero, where it divides by zero;
* `SharesWithin`: the burn split takes no more of a coin than there is, rounding included;
* `processTaxSplits_panic_free_iff`: **the splits of a tax do not panic exactly when every coin
  is within its share and the adjusted community tax is defined**;
* `processTaxSplits_conserves`: **the coins moved and the coins left are the tax**.
-/

namespace ColumbusCore.Tax

open Go Rounding

variable {β : Type}

/-! ### The adjusted community tax -/

/-- Small numbers are within the bit limit. -/
lemma fits_of_le {x : ℤ} (h0 : 0 ≤ x) (h : x ≤ 10 ^ 54) : Fixed.Fits decFormat x := by
  have hbits : decFormat.decBits = 180 + 135 := rfl
  have hpow : (2 : ℕ) ^ 180 ≤ 2 ^ decFormat.decBits :=
    Nat.pow_le_pow_right (by norm_num) (by rw [hbits]; omega)
  refine lt_of_lt_of_le (b := 2 ^ 180) ?_ hpow
  have hlt : (10 : ℤ) ^ 54 < 2 ^ 180 := by norm_num
  omega

/-- The product with the quotient stays below one: the numerator of the quotient was rounded by at
most half a unit, and the divisor exceeds it by a whole one. -/
lemma mul_quotient_le {S ct os P D T Q : ℤ} (hS : 0 < S) (hct0 : 0 ≤ ct) (hct : ct < S)
    (hP : 2 * (ct * os) ≤ 2 * (S * P) + S) (hD : D = P + S - ct) (hD0 : 0 < D) (hDS : D ≤ S)
    (hT : T * D ≤ os * S ^ 2) (hQ : 2 * (S * Q) ≤ 2 * T + S) : ct * Q ≤ S * S := by
  have hQD : 2 * (Q * D) ≤ 2 * (os * S) + D := by
    refine le_of_mul_le_mul_left ?_ hS
    calc S * (2 * (Q * D)) = 2 * (S * Q) * D := by ring
      _ ≤ (2 * T + S) * D := mul_le_mul_of_nonneg_right hQ hD0.le
      _ = 2 * (T * D) + S * D := by ring
      _ ≤ 2 * (os * S ^ 2) + S * D := by linarith
      _ = S * (2 * (os * S) + D) := by ring
  refine le_of_mul_le_mul_right ?_ (show 0 < 2 * D by linarith)
  calc ct * Q * (2 * D) = ct * (2 * (Q * D)) := by ring
    _ ≤ ct * (2 * (os * S) + D) := mul_le_mul_of_nonneg_left hQD hct0
    _ = S * (2 * (ct * os)) + ct * D := by ring
    _ ≤ S * (2 * (S * P) + S) + S * S :=
        add_le_add (mul_le_mul_of_nonneg_left hP hS.le) (mul_le_mul hct.le hDS hD0.le hS.le)
    _ = S * S * (2 * (P + 1)) := by ring
    _ ≤ S * S * (2 * D) := mul_le_mul_of_nonneg_left (by omega) (by positivity)

section Adjusted

variable {ct os : Dec}

/-- The divisor of the adjusted community tax. -/
def communityDivisor (ct os : Dec) : ℤ :=
  halfEven (ct.raw * os.raw) decFormat.scale + decFormat.scale - ct.raw

/-- The product of two decimals of the unit interval. -/
lemma halfEven_unit (hct0 : 0 ≤ ct.raw) (hos0 : 0 ≤ os.raw) (hos : os.raw ≤ decFormat.scale) :
    0 ≤ halfEven (ct.raw * os.raw) decFormat.scale
      ∧ halfEven (ct.raw * os.raw) decFormat.scale ≤ ct.raw :=
  ⟨halfEven_nonneg (mul_nonneg hct0 hos0), halfEven_le_of_le_mul decFormat.scale_pos
    (mul_nonneg hct0 hos0) (mul_le_mul_of_nonneg_left hos hct0)⟩

/-- The adjusted community tax, up to its quotient. -/
lemma applyCommunityTax_eq (hct0 : 0 ≤ ct.raw) (hct : ct.raw ≤ decFormat.scale)
    (hos0 : 0 ≤ os.raw) (hos : os.raw ≤ decFormat.scale) :
    applyCommunityTax ct os = os.quo ⟨communityDivisor ct os⟩ >>= ct.mul := by
  obtain ⟨hP0, hP⟩ := halfEven_unit hct0 hos0 hos
  have hS : (decFormat.scale : ℤ) = 10 ^ 18 := rfl
  rw [applyCommunityTax, Fixed.mul, Fixed.checked_eq_ok_iff.mpr ⟨fits_of_le hP0 (by omega), rfl⟩,
    ok_bind, Fixed.add, Fixed.checked_eq_ok_iff.mpr ⟨fits_of_le (x := _ + _) ?_ ?_, rfl⟩, ok_bind,
    Fixed.sub, Fixed.checked_eq_ok_iff.mpr ⟨fits_of_le (x := _ - _) ?_ ?_, rfl⟩, ok_bind]
  · rfl
  all_goals
    simp only [Fixed.one]
    omega

/-- The divisor vanishes only for a community tax of one and an oracle split of zero. -/
lemma communityDivisor_eq_zero_iff (hct0 : 0 ≤ ct.raw) (hct : ct.raw ≤ decFormat.scale)
    (hos0 : 0 ≤ os.raw) (hos : os.raw ≤ decFormat.scale) :
    communityDivisor ct os = 0 ↔ ct = Fixed.one ∧ os = 0 := by
  obtain ⟨hP0, -⟩ := halfEven_unit hct0 hos0 hos
  have hone : (decFormat.scale : ℤ) * os.raw = os.raw * decFormat.scale := mul_comm _ _
  rw [communityDivisor]
  constructor
  · intro h
    have hraw : ct.raw = decFormat.scale := by omega
    rw [hraw, hone, halfEven_mul _ decFormat.scale_pos] at h
    exact ⟨Fixed.ext hraw, Fixed.ext (by simp only [Fixed.zero_raw]; omega)⟩
  · rintro ⟨rfl, rfl⟩
    simp [Fixed.one, halfEven, roundNat]

/-- With a community tax of one the quotient is one. -/
lemma quoRaw_communityDivisor_one (hos0 : 0 ≤ os.raw) (hos : os.raw ≠ 0)
    (hct : ct.raw = decFormat.scale) :
    Fixed.quoRaw decFormat os.raw (communityDivisor ct os) = decFormat.scale := by
  have hdiv : communityDivisor ct os = os.raw := by
    rw [communityDivisor, hct, mul_comm, halfEven_mul _ decFormat.scale_pos]
    ring
  have hpos : (0 : ℤ) ≤ os.raw * (decFormat.scale : ℤ) ^ 2 := by positivity
  rw [hdiv, Fixed.quoRaw, Int.tdiv_eq_ediv_of_nonneg hpos, Int.mul_ediv_cancel_left _ hos, pow_two,
    halfEven_mul _ decFormat.scale_pos]

/-- The product of the community tax with the quotient is at most one. -/
lemma mul_quoRaw_le (hct0 : 0 ≤ ct.raw) (hct : ct.raw ≤ decFormat.scale) (hos0 : 0 ≤ os.raw)
    (hos : os.raw ≤ decFormat.scale) (hD : communityDivisor ct os ≠ 0) :
    ct.raw * Fixed.quoRaw decFormat os.raw (communityDivisor ct os)
      ≤ decFormat.scale * decFormat.scale := by
  obtain ⟨hP0, hP⟩ := halfEven_unit hct0 hos0 hos
  have hSpos : (0 : ℤ) < decFormat.scale := by exact_mod_cast decFormat.scale_pos
  have hD' : communityDivisor ct os
      = halfEven (ct.raw * os.raw) decFormat.scale + decFormat.scale - ct.raw := rfl
  rcases eq_or_lt_of_le hct with heq | hlt
  · have hos' : os.raw ≠ 0 := by
      intro h0
      refine hD ((communityDivisor_eq_zero_iff hct0 hct hos0 hos).mpr ?_)
      exact ⟨Fixed.ext heq, Fixed.ext h0⟩
    rw [quoRaw_communityDivisor_one hos0 hos' heq, heq]
  · have hD0 : 0 < communityDivisor ct os := by omega
    have hnum : (0 : ℤ) ≤ os.raw * (decFormat.scale : ℤ) ^ 2 := by positivity
    refine mul_quotient_le hSpos hct0 hlt
      (halfEven_bounds decFormat.scale_pos (mul_nonneg hct0 hos0)).1 hD' hD0 (by omega)
      (T := (os.raw * (decFormat.scale : ℤ) ^ 2).tdiv (communityDivisor ct os)) ?_ ?_
    · rw [Int.tdiv_eq_ediv_of_nonneg hnum]
      exact Int.ediv_mul_le _ hD0.ne'
    · exact (halfEven_bounds decFormat.scale_pos (Int.tdiv_nonneg hnum hD0.le)).2

/-- **The adjusted community tax** lies in the unit interval where its divisor does not
vanish. -/
theorem exists_applyCommunityTax (hct0 : 0 ≤ ct.raw) (hct : ct.raw ≤ decFormat.scale)
    (hos0 : 0 ≤ os.raw) (hos : os.raw ≤ decFormat.scale) (hD : communityDivisor ct os ≠ 0) :
    ∃ a, applyCommunityTax ct os = .ok a ∧ 0 ≤ a.raw ∧ a.raw ≤ decFormat.scale := by
  obtain ⟨hP0, hP⟩ := halfEven_unit hct0 hos0 hos
  have hD0 : 0 < communityDivisor ct os := by
    have hD' : communityDivisor ct os
        = halfEven (ct.raw * os.raw) decFormat.scale + decFormat.scale - ct.raw := rfl
    omega
  have hnum : (0 : ℤ) ≤ os.raw * (decFormat.scale : ℤ) ^ 2 := by positivity
  have hQ0 : 0 ≤ Fixed.quoRaw decFormat os.raw (communityDivisor ct os) :=
    Fixed.quoRaw_nonneg hos0 hD0.le
  have hQfit : Fixed.Fits decFormat (Fixed.quoRaw decFormat os.raw (communityDivisor ct os)) := by
    refine fits_of_le hQ0 (halfEven_le_of_le_mul decFormat.scale_pos
      (Int.tdiv_nonneg hnum hD0.le) ?_)
    calc (os.raw * (decFormat.scale : ℤ) ^ 2).tdiv (communityDivisor ct os)
        ≤ os.raw * (decFormat.scale : ℤ) ^ 2 := by
          rw [Int.tdiv_eq_ediv_of_nonneg hnum]
          exact Int.ediv_le_self _ hnum
      _ ≤ decFormat.scale * (decFormat.scale : ℤ) ^ 2 :=
          mul_le_mul_of_nonneg_right hos (by positivity)
      _ ≤ 10 ^ 54 * (decFormat.scale : ℤ) := by norm_num [decFormat]
  have hle := mul_quoRaw_le hct0 hct hos0 hos hD
  have hA0 := mul_nonneg hct0 hQ0
  have hA := halfEven_le_of_le_mul decFormat.scale_pos hA0 hle
  refine ⟨⟨halfEven (ct.raw * Fixed.quoRaw decFormat os.raw (communityDivisor ct os))
    decFormat.scale⟩, ?_, halfEven_nonneg hA0, hA⟩
  have hquo : os.quo ⟨communityDivisor ct os⟩
      = .ok ⟨Fixed.quoRaw decFormat os.raw (communityDivisor ct os)⟩ :=
    Fixed.quo_eq_ok_iff.mpr ⟨hD, hQfit, rfl⟩
  rw [applyCommunityTax_eq hct0 hct hos0 hos, hquo, ok_bind, Fixed.mul,
    Fixed.checked_eq_ok_iff.mpr ⟨fits_of_le (halfEven_nonneg hA0) ?_, rfl⟩]
  exact hA.trans (by norm_num [decFormat])

end Adjusted

/-! ### Shares -/

/-- A share is defined where its product fits and is not rounded below zero. -/
lemma exists_shareOf {rate : Dec} {coins : Coins}
    (h : ∀ d, Fixed.Fits decFormat (rate.raw * coins.amountOf d)
      ∧ 0 ≤ halfEven (rate.raw * coins.amountOf d) decFormat.scale) :
    ∃ shares, shareOf rate coins = .ok shares := by
  cases hs : shareOf rate coins with
  | ok shares => exact ⟨shares, rfl⟩
  | error x =>
      obtain ⟨e, he, herr⟩ := CoinSet.coinwise_eq_error (fun acc e _ => addShare_eq rate acc e) hs
      obtain ⟨h1, -⟩ := Amounts.mem_entries_iff.mp (show (e.1, e.2) ∈ coins.entries from he)
      obtain ⟨hfit, h0⟩ := h e.1
      rw [h1] at hfit h0
      rw [shareBody_eq_ok_iff.mpr ⟨hfit, h0, rfl⟩] at herr
      exact absurd herr (by simp)

/-- A share at a rate of the unit interval is at most the coins. -/
lemma shareOf_le {rate : Dec} {coins shares : Coins} (hc : coins.IsValid) (h0 : 0 ≤ rate.raw)
    (h1 : rate.raw ≤ decFormat.scale) (h : shareOf rate coins = .ok shares) (d : Denom) :
    shares.amountOf d ≤ coins.amountOf d := by
  have hx := CoinSet.isValid_iff.mp hc d
  rw [(shareOf_eq_ok_iff.mp h d).2.2]
  refine halfEven_le_of_le_mul decFormat.scale_pos (mul_nonneg h0 hx) ?_
  calc rate.raw * coins.amountOf d ≤ decFormat.scale * coins.amountOf d :=
        mul_le_mul_of_nonneg_right h1 hx
    _ = coins.amountOf d * decFormat.scale := mul_comm _ _

lemma isValid_shareOf {rate : Dec} {coins shares : Coins} (h : shareOf rate coins = .ok shares) :
    shares.IsValid :=
  CoinSet.isValid_iff.mpr fun d => (shareOf_eq_ok_iff.mp h d).2.1

/-- A fault of a share is a panic. -/
lemma shareOf_error {rate : Dec} {coins : Coins} {x : Fault}
    (h : shareOf rate coins = .error x) : ∃ p, x = .panic p := by
  obtain ⟨e, -, he⟩ := CoinSet.coinwise_eq_error (fun acc e _ => addShare_eq rate acc e) h
  rw [shareBody, newCoin] at he
  split_ifs at he
  · exact ⟨_, (Except.error.inj he).symm⟩
  · exact absurd he (by simp [Except.map])
  · exact ⟨_, (Except.error.inj he).symm⟩

/-! ### What the splits compute -/

/-- The coins are below `2 ^ 254`. -/
def Bounded (coins : Coins) : Prop := ∀ d, coins.amountOf d < 2 ^ 254

/-- A bounded share fits. -/
lemma fits_mul {r x : ℤ} (h0 : 0 ≤ r * x) (h : r * x ≤ (x + 1) * decFormat.scale)
    (hx : x < 2 ^ 254) : Fixed.Fits decFormat (r * x) := by
  have hbits : decFormat.decBits = 254 + 61 := rfl
  have hS : (decFormat.scale : ℤ) < 2 ^ 60 := by norm_num [decFormat]
  have hlt : r * x < 2 ^ 254 * 2 ^ 61 := by
    calc r * x ≤ (x + 1) * decFormat.scale := h
      _ ≤ 2 ^ 254 * decFormat.scale := mul_le_mul_of_nonneg_right (by omega) (by positivity)
      _ < 2 ^ 254 * 2 ^ 61 := mul_lt_mul_of_pos_left (by omega) (by positivity)
  rw [Fixed.Fits, hbits, pow_add]
  zify
  rwa [abs_of_nonneg h0]

/-- A share of bounded coins at a rate of the unit interval is defined. -/
lemma exists_shareOf_unit {rate : Dec} {coins : Coins} (hc : coins.IsValid) (hb : Bounded coins)
    (h0 : 0 ≤ rate.raw) (h1 : rate.raw ≤ decFormat.scale) :
    ∃ shares, shareOf rate coins = .ok shares := by
  refine exists_shareOf fun d => ?_
  have hx := CoinSet.isValid_iff.mp hc d
  have hS : (0 : ℤ) ≤ decFormat.scale := by positivity
  have hle : rate.raw * coins.amountOf d ≤ (coins.amountOf d + 1) * decFormat.scale := by
    calc rate.raw * coins.amountOf d ≤ decFormat.scale * coins.amountOf d :=
          mul_le_mul_of_nonneg_right h1 hx
      _ ≤ (coins.amountOf d + 1) * decFormat.scale := by linarith
  exact ⟨fits_mul (mul_nonneg h0 hx) hle (hb d), halfEven_nonneg (mul_nonneg h0 hx)⟩

/-- A set of coins parted in two, neither of them negative. -/
structure Parts (whole part rest : Coins) : Prop where
  part_nonneg : ∀ d, 0 ≤ part.amountOf d
  rest_nonneg : ∀ d, 0 ≤ rest.amountOf d
  sum : ∀ d, part.amountOf d + rest.amountOf d = whole.amountOf d

lemma Parts.valid {whole part rest : Coins} (h : Parts whole part rest) :
    part.IsValid ∧ rest.IsValid :=
  ⟨CoinSet.isValid_iff.mpr h.part_nonneg, CoinSet.isValid_iff.mpr h.rest_nonneg⟩

lemma Parts.part_le {whole part rest : Coins} (h : Parts whole part rest) (d : Denom) :
    part.amountOf d ≤ whole.amountOf d := by
  have h1 := h.sum d
  have h2 := h.rest_nonneg d
  omega

/-- Nothing taken. -/
lemma parts_empty {whole : Coins} (h : whole.IsValid) : Parts whole ∅ whole :=
  ⟨by simp, CoinSet.isValid_iff.mp h, by simp⟩

/-- A share subtracted. -/
lemma parts_of_sub {rate : Dec} {whole part rest : Coins} (hpart : shareOf rate whole = .ok part)
    (hsub : whole.sub part = .ok rest) : Parts whole part rest := by
  obtain ⟨hle, rfl⟩ := CoinSet.sub_eq_ok_iff.mp hsub
  refine ⟨fun d => (shareOf_eq_ok_iff.mp hpart d).2.1, fun d => ?_, fun d => ?_⟩
  · have := hle d
    rw [CoinSet.amountOf_safeSub]
    omega
  · rw [CoinSet.amountOf_safeSub]
    ring

/-- What a burn split has computed. -/
lemma burnSplit_cases {b : Dec} {taxes delta burned : Coins}
    (h : burnSplit b taxes = .ok (delta, burned)) :
    shareOf b taxes = .ok delta ∧ taxes.sub delta = .ok burned ∨ delta = ∅ ∧ burned = taxes := by
  rw [burnSplit] at h
  split_ifs at h
  · obtain ⟨delta', hdelta, h⟩ := bind_eq_ok.mp h
    obtain ⟨burned', hburned, h⟩ := bind_eq_ok.mp h
    obtain ⟨rfl, rfl⟩ := Prod.ext_iff.mp (Except.ok.inj h)
    exact .inl ⟨hdelta, hburned⟩
  · obtain ⟨rfl, rfl⟩ := Prod.ext_iff.mp (Except.ok.inj h)
    exact .inr ⟨rfl, rfl⟩

/-- What a community split has computed. -/
lemma communitySplit_cases {ct os : Dec} {delta community remaining : Coins}
    (h : communitySplit ct os delta = .ok (community, remaining)) :
    (∃ rate, applyCommunityTax ct os = .ok rate ∧ shareOf rate delta = .ok community
        ∧ delta.sub community = .ok remaining)
      ∨ ct.raw ≤ 0 ∧ community = ∅ ∧ remaining = delta := by
  rw [communitySplit] at h
  split_ifs at h with hpos
  · obtain ⟨rate, hrate, h⟩ := bind_eq_ok.mp h
    obtain ⟨community', hcommunity, h⟩ := bind_eq_ok.mp h
    obtain ⟨remaining', hremaining, h⟩ := bind_eq_ok.mp h
    obtain ⟨rfl, rfl⟩ := Prod.ext_iff.mp (Except.ok.inj h)
    exact .inl ⟨rate, hrate, hcommunity, hremaining⟩
  · obtain ⟨rfl, rfl⟩ := Prod.ext_iff.mp (Except.ok.inj h)
    exact .inr ⟨not_lt.mp hpos, rfl, rfl⟩

lemma burnSplit_parts {b : Dec} {taxes delta burned : Coins} (hv : taxes.IsValid)
    (h : burnSplit b taxes = .ok (delta, burned)) : Parts taxes delta burned := by
  rcases burnSplit_cases h with ⟨hdelta, hburned⟩ | ⟨rfl, rfl⟩
  · exact parts_of_sub hdelta hburned
  · exact parts_empty hv

lemma communitySplit_parts {ct os : Dec} {delta community remaining : Coins}
    (hv : delta.IsValid) (h : communitySplit ct os delta = .ok (community, remaining)) :
    Parts delta community remaining := by
  rcases communitySplit_cases h with ⟨rate, -, hcommunity, hremaining⟩ | ⟨-, rfl, rfl⟩
  · exact parts_of_sub hcommunity hremaining
  · exact parts_empty hv

lemma isValid_oracleSplit {os : Dec} {delta oracle : Coins}
    (h : oracleSplitCoins os delta = .ok oracle) : oracle.IsValid := by
  rw [oracleSplitCoins] at h
  split_ifs at h
  · exact isValid_shareOf h
  · obtain rfl := Except.ok.inj h
    exact CoinSet.isValid_empty

/-- An oracle split of at most one takes a part of the coins. -/
lemma oracleSplit_le {os : Dec} {delta oracle : Coins} (hv : delta.IsValid)
    (hos : os.raw ≤ decFormat.scale) (h : oracleSplitCoins os delta = .ok oracle) (d : Denom) :
    oracle.amountOf d ≤ delta.amountOf d := by
  rw [oracleSplitCoins] at h
  split_ifs at h with hpos
  · exact shareOf_le hv (le_of_lt hpos) hos h d
  · obtain rfl := Except.ok.inj h
    simpa using CoinSet.isValid_iff.mp hv d

/-- **The shares of a tax.** None is negative, and with what is left they are the tax; what is
left is not negative where the oracle split is at most one. -/
theorem splitTaxes_parts {b os ct : Dec} {taxes : Coins} {split : TaxSplit} (hv : taxes.IsValid)
    (h : splitTaxes b os ct taxes = .ok split) :
    ∃ left : Coins, split.community.IsValid ∧ split.oracle.IsValid ∧ split.burned.IsValid
      ∧ (os.raw ≤ decFormat.scale → left.IsValid)
      ∧ ∀ d, split.community.amountOf d + split.oracle.amountOf d
        + split.burned.amountOf d + left.amountOf d = taxes.amountOf d := by
  obtain ⟨⟨delta, burned⟩, hburn, h⟩ := bind_eq_ok.mp h
  obtain ⟨⟨community, remaining⟩, hcommunity, h⟩ := bind_eq_ok.mp h
  obtain ⟨oracle, horacle, h⟩ := bind_eq_ok.mp h
  obtain rfl := Except.ok.inj h
  have h1 := burnSplit_parts hv hburn
  have h2 := communitySplit_parts h1.valid.1 hcommunity
  refine ⟨CoinSet.safeSub remaining oracle, h2.valid.1, isValid_oracleSplit horacle, h1.valid.2,
    fun hos => CoinSet.isValid_iff.mpr fun d => ?_, fun d => ?_⟩
  · rw [CoinSet.amountOf_safeSub]
    exact sub_nonneg.mpr (oracleSplit_le h2.valid.2 hos horacle d)
  · have e1 := h1.sum d
    have e2 := h2.sum d
    rw [CoinSet.amountOf_safeSub]
    dsimp only
    omega

/-! ### Transfers -/

section Transfers

variable {K : Keepers β} {s s' : β} {coins : Coins}

/-- A share sent to a module, in terms of balances. -/
lemma sendShare_balance (hK : BankLawful K) {m : String} (h : sendShare K s m coins = .ok s')
    (a : AccAddress) (d : Denom) :
    K.getBalance s' a d = K.getBalance s a d
      - (if K.getModuleAddress feeCollectorName = some a then coins.amountOf d else 0)
      + (if K.getModuleAddress m = some a then coins.amountOf d else 0) := by
  rw [sendShare] at h
  split_ifs at h with hz
  · obtain rfl := Except.ok.inj h
    simp [Amounts.isZero_iff.mp hz d]
  · exact hK.send_balance _ _ _ _ h a d

lemma sendShare_pool (hK : BankLawful K) {m : String} (h : sendShare K s m coins = .ok s') :
    K.communityPool s' = K.communityPool s := by
  rw [sendShare] at h
  split_ifs at h
  · rw [← Except.ok.inj h]
  · exact hK.send_pool _ _ _ _ h

/-- The community pool funded, in terms of balances and of the pool. -/
lemma fundCommunityPool_eq_ok (hK : BankLawful K) (h : fundCommunityPool K s coins = .ok s') :
    (∀ a d, K.getBalance s' a d = K.getBalance s a d
      - (if K.getModuleAddress feeCollectorName = some a then coins.amountOf d else 0)
      + (if K.getModuleAddress distributionModuleName = some a then coins.amountOf d else 0))
    ∧ ∀ d, ((K.communityPool s').amountOf d).raw
      = ((K.communityPool s).amountOf d).raw + coins.amountOf d * decFormat.scale := by
  rw [fundCommunityPool] at h
  split_ifs at h with hz
  · obtain rfl := Except.ok.inj h
    simp [Amounts.isZero_iff.mp hz]
  · obtain ⟨s₁, hsend, h⟩ := bind_eq_ok.mp h
    obtain ⟨pool, hpool, h⟩ := bind_eq_ok.mp h
    obtain rfl := Except.ok.inj h
    refine ⟨fun a d => ?_, fun d => ?_⟩
    · rw [hK.set_balance, hK.send_balance _ _ _ _ hsend]
    · rw [hK.set_pool, DecCoins.amountOf_add hpool, hK.send_pool _ _ _ _ hsend,
        DecCoins.amountOf_ofCoins]
      rfl

/-- **What a split that succeeds moves.** The three shares leave the fee collector for their
modules, and the community pool grows by the community tax. -/
lemma processTaxSplits_moves (hK : BankLawful K) {c c' : Chain β} {taxes : Coins}
    (h : processTaxSplits K c taxes = .ok c') :
    ∃ split, splitTaxes c.treasury.params.burnTaxSplit c.treasury.params.oracleSplit
        (K.getCommunityTax c.rest) taxes = .ok split
      ∧ (∀ a d, K.getBalance c'.rest a d = K.getBalance c.rest a d
        - (if K.getModuleAddress feeCollectorName = some a
            then split.community.amountOf d + split.oracle.amountOf d + split.burned.amountOf d
            else 0)
        + (if K.getModuleAddress distributionModuleName = some a
            then split.community.amountOf d else 0)
        + (if K.getModuleAddress oracleModuleName = some a then split.oracle.amountOf d else 0)
        + (if K.getModuleAddress burnModuleName = some a then split.burned.amountOf d else 0))
      ∧ ∀ d, ((K.communityPool c'.rest).amountOf d).raw
        = ((K.communityPool c.rest).amountOf d).raw
          + split.community.amountOf d * decFormat.scale := by
  obtain ⟨split, hsplit, h⟩ := bind_eq_ok.mp h
  obtain ⟨s₁, hfund, h⟩ := bind_eq_ok.mp h
  obtain ⟨s₂, horacle, h⟩ := bind_eq_ok.mp h
  obtain ⟨s₃, hburn, h⟩ := bind_eq_ok.mp h
  obtain rfl := Except.ok.inj h
  obtain ⟨hbal, hpool⟩ := fundCommunityPool_eq_ok hK hfund
  refine ⟨split, hsplit, fun a d => ?_, fun d => ?_⟩
  · rw [sendShare_balance hK hburn, sendShare_balance hK horacle, hbal]
    split_ifs <;> omega
  · rw [sendShare_pool hK hburn, sendShare_pool hK horacle, hpool]

end Transfers

/-- **Conservation.** The coins a split moves to the distribution module, to the oracle and to
the burn module and the coins it leaves with the fee collector are the tax; none of the four is
negative, for any oracle split the parameters accept, the community pool grows by the coins of the
distribution module, and no other balance changes. -/
theorem processTaxSplits_conserves {K : Keepers β} (hK : BankLawful K) {c c' : Chain β}
    {taxes : Coins} (hv : taxes.IsValid) (h : processTaxSplits K c taxes = .ok c') :
    ∃ community oracle burned left : Coins,
      community.IsValid ∧ oracle.IsValid ∧ burned.IsValid
      ∧ (Treasury.validateOraceSplit c.treasury.params.oracleSplit = .ok () → left.IsValid)
      ∧ (∀ d, community.amountOf d + oracle.amountOf d + burned.amountOf d + left.amountOf d
        = taxes.amountOf d)
      ∧ (∀ a d, K.getBalance c'.rest a d = K.getBalance c.rest a d
        - (if K.getModuleAddress feeCollectorName = some a
            then taxes.amountOf d - left.amountOf d else 0)
        + (if K.getModuleAddress distributionModuleName = some a then community.amountOf d else 0)
        + (if K.getModuleAddress oracleModuleName = some a then oracle.amountOf d else 0)
        + (if K.getModuleAddress burnModuleName = some a then burned.amountOf d else 0))
      ∧ ∀ d, ((K.communityPool c'.rest).amountOf d).raw
        = ((K.communityPool c.rest).amountOf d).raw + community.amountOf d * decFormat.scale := by
  obtain ⟨split, hsplit, hbal, hpool⟩ := processTaxSplits_moves hK h
  obtain ⟨left, hc, ho, hb, hl, hsum⟩ := splitTaxes_parts hv hsplit
  refine ⟨split.community, split.oracle, split.burned, left, hc, ho, hb,
    fun hos => hl (Treasury.validateOraceSplit_eq_ok hos).2, hsum, fun a d => ?_, hpool⟩
  rw [hbal, ← hsum d, add_sub_cancel_right]

/-- A tax of one hundred dollars and seven won, split. -/
theorem conserved_split_of_two_coins :
    ∃ c', processTaxSplits ledgerKeepers
        (ledgerChain [("fee_collector", "uusd", 100), ("fee_collector", "ukrw", 7)])
        (CoinSet.ofList [("uusd", 100), ("ukrw", 7)]) = .ok c'
      ∧ ∃ left : Coins, left.IsValid
        ∧ c'.rest.balance "fee_collector" "uusd" = left.amountOf "uusd" := by
  obtain ⟨c', hc', -⟩ := exists_of_returns (p := fun _ : Chain Ledger => true)
    (x := processTaxSplits ledgerKeepers
      (ledgerChain [("fee_collector", "uusd", 100), ("fee_collector", "ukrw", 7)])
      (CoinSet.ofList [("uusd", 100), ("ukrw", 7)])) (by decide +kernel)
  refine ⟨c', hc', ?_⟩
  obtain ⟨community, oracle, burned, left, -, -, -, hleft, -, hbal, -⟩ :=
    processTaxSplits_conserves bankLawful_ledger (by decide +kernel) hc'
  refine ⟨left, hleft (by decide +kernel), ?_⟩
  have h := hbal "fee_collector" "uusd"
  have hbefore : (ledgerChain [("fee_collector", "uusd", 100),
      ("fee_collector", "ukrw", 7)]).rest.balance "fee_collector" "uusd" = 100 := by decide +kernel
  have htax : (CoinSet.ofList [("uusd", 100), ("ukrw", 7)] : Coins).amountOf "uusd" = 100 := by
    decide +kernel
  simp [ledgerKeepers, feeCollectorName, distributionModuleName, oracleModuleName,
    burnModuleName, hbefore, htax] at h
  exact h

/-- A chain whose oracle split of two no validation accepts, as `SetOracleSplitRate` may store it,
with a burn split of one, no community tax and a thousand dollars in the fee collector. -/
def overSplitChain : Chain Ledger :=
  { ledgerChain [("fee_collector", "uusd", 1000)] with
    treasury :=
      { params := { Treasury.defaultParams with
          burnTaxSplit := Fixed.one, oracleSplit := Fixed.ofInt 2 }
        taxCaps := ∅
        epochTaxProceeds := ∅ }
    rest := { (ledgerChain [("fee_collector", "uusd", 1000)]).rest with communityTax := 0 } }

/-- A tax of one hundred dollars under an oracle split of two: the split returns, moves two hundred
to the oracle and nothing to the other two modules, and what is left of the tax is minus one
hundred. -/
theorem processTaxSplits_overdrawn :
    Treasury.validateOraceSplit overSplitChain.treasury.params.oracleSplit ≠ .ok ()
      ∧ ∃ c', processTaxSplits ledgerKeepers overSplitChain (CoinSet.ofList [("uusd", 100)])
          = .ok c'
        ∧ c'.rest.balance "distribution" "uusd" = 0 ∧ c'.rest.balance "oracle" "uusd" = 200
        ∧ c'.rest.balance "burn" "uusd" = 0
        ∧ c'.rest.balance "fee_collector" "uusd" = (1000 - 100) + (100 - 200) := by
  obtain ⟨c', hc', hcheck⟩ := exists_of_returns
    (p := fun c' : Chain Ledger => decide (c'.rest.balance "distribution" "uusd" = 0
      ∧ c'.rest.balance "oracle" "uusd" = 200 ∧ c'.rest.balance "burn" "uusd" = 0
      ∧ c'.rest.balance "fee_collector" "uusd" = (1000 - 100) + (100 - 200)))
    (x := processTaxSplits ledgerKeepers overSplitChain (CoinSet.ofList [("uusd", 100)]))
    (by decide +kernel)
  exact ⟨by decide +kernel, c', hc', of_decide_eq_true hcheck⟩

/-! ### Panics -/

/-- The community pool has room for the coins: both are below `2 ^ 254`. -/
def RoomFor (K : Keepers β) (s : β) (coins : Coins) : Prop :=
  Bounded coins ∧ ∀ d, 0 ≤ ((K.communityPool s).amountOf d).raw
    ∧ ((K.communityPool s).amountOf d).raw < 2 ^ 254 * decFormat.scale

/-- The pool can take a part of coins it has room for. -/
lemma fits_pool {x y z : ℤ} (hx0 : 0 ≤ x) (hx : x < 2 ^ 254 * decFormat.scale) (hy0 : 0 ≤ y)
    (hyz : y ≤ z) (hz : z < 2 ^ 254) : Fixed.Fits decFormat (x + y * decFormat.scale) := by
  have hbits : decFormat.decBits = 255 + 60 := rfl
  have hS : (decFormat.scale : ℤ) ≤ 2 ^ 60 := by norm_num [decFormat]
  have hy : y * decFormat.scale ≤ 2 ^ 254 * decFormat.scale :=
    mul_le_mul_of_nonneg_right (by omega) (by positivity)
  have hsum : x + y * decFormat.scale < 2 ^ 255 * 2 ^ 60 := by
    calc x + y * decFormat.scale < 2 ^ 254 * decFormat.scale + 2 ^ 254 * decFormat.scale := by
          linarith
      _ = 2 ^ 255 * decFormat.scale := by ring
      _ ≤ 2 ^ 255 * 2 ^ 60 := mul_le_mul_of_nonneg_left hS (by positivity)
  have h0 : 0 ≤ x + y * decFormat.scale := by positivity
  rw [Fixed.Fits, hbits, pow_add]
  zify
  rwa [abs_of_nonneg h0]

lemma burnSplit_error {b : Dec} {taxes : Coins} {x : Fault} (h : burnSplit b taxes = .error x) :
    ∃ p, x = .panic p := by
  rw [burnSplit] at h
  split_ifs at h
  · rcases bind_eq_error.mp h with h | ⟨delta, -, h⟩
    · exact shareOf_error h
    · rcases bind_eq_error.mp h with h | ⟨burned, -, h⟩
      · exact ⟨_, (CoinSet.sub_eq_error_iff.mp h).2⟩
      · exact absurd h (by simp)
  · exact absurd h (by simp)

/-- The burn split is defined exactly when every coin is within its share. -/
lemma burnSplit_eq_ok_iff {b : Dec} {taxes : Coins} (hv : taxes.IsValid) (hb : Bounded taxes) :
    (∃ r, burnSplit b taxes = .ok r) ↔ ∀ d, SharesWithin b (taxes.amountOf d) := by
  have hx := CoinSet.isValid_iff.mp hv
  rw [burnSplit]
  split_ifs with hpos
  · constructor
    · rintro ⟨r, h⟩ d
      obtain ⟨delta, hdelta, h⟩ := bind_eq_ok.mp h
      obtain ⟨burned, hburned, -⟩ := bind_eq_ok.mp h
      rw [← halfEven_le_iff_sharesWithin (hx d), ← (shareOf_eq_ok_iff.mp hdelta d).2.2]
      exact (CoinSet.sub_eq_ok_iff.mp hburned).1 d
    · intro h
      have hle : ∀ d, halfEven (b.raw * taxes.amountOf d) decFormat.scale ≤ taxes.amountOf d :=
        fun d => (halfEven_le_iff_sharesWithin (hx d)).mpr (h d)
      have hprod : ∀ d, 0 ≤ b.raw * taxes.amountOf d := fun d =>
        mul_nonneg (le_of_lt hpos) (hx d)
      have hshare : ∃ delta, shareOf b taxes = .ok delta := by
        refine exists_shareOf fun d => ⟨fits_mul (hprod d) ?_ (hb d), halfEven_nonneg (hprod d)⟩
        have h2 := (halfEven_bounds decFormat.scale_pos (hprod d)).1
        have h3 : (decFormat.scale : ℤ) * halfEven (b.raw * taxes.amountOf d) decFormat.scale
            ≤ decFormat.scale * taxes.amountOf d :=
          mul_le_mul_of_nonneg_left (hle d) (by positivity)
        have hS : (0 : ℤ) ≤ decFormat.scale := by positivity
        linarith
      obtain ⟨delta, hdelta⟩ := hshare
      refine ⟨(delta, CoinSet.safeSub taxes delta), bind_eq_ok.mpr ⟨delta, hdelta,
        bind_eq_ok.mpr ⟨_, CoinSet.sub_eq_ok_iff.mpr ⟨fun d => ?_, rfl⟩, rfl⟩⟩⟩
      rw [(shareOf_eq_ok_iff.mp hdelta d).2.2]
      exact hle d
  · refine iff_of_true ⟨_, rfl⟩ fun d => ?_
    rw [← halfEven_le_iff_sharesWithin (hx d), halfEven_le_iff decFormat.scale_pos (hx d)]
    left
    have hle : b.raw * taxes.amountOf d ≤ 0 :=
      mul_nonpos_of_nonpos_of_nonneg (not_lt.mp hpos) (hx d)
    have hS : (0 : ℤ) < (2 * taxes.amountOf d + 1) * decFormat.scale :=
      mul_pos (by linarith [hx d]) (by exact_mod_cast decFormat.scale_pos)
    linarith

section CommunitySplit

variable {ct os : Dec} {delta : Coins}

/-- A share at a rate of the unit interval can be subtracted. -/
lemma exists_share_sub {rate : Dec} (hv : delta.IsValid) (hb : Bounded delta)
    (h0 : 0 ≤ rate.raw) (h1 : rate.raw ≤ decFormat.scale) :
    ∃ part rest, shareOf rate delta = .ok part ∧ delta.sub part = .ok rest := by
  obtain ⟨part, hpart⟩ := exists_shareOf_unit hv hb h0 h1
  exact ⟨part, _, hpart, CoinSet.sub_eq_ok_iff.mpr ⟨shareOf_le hv h0 h1 hpart, rfl⟩⟩

lemma exists_communitySplit (hv : delta.IsValid) (hb : Bounded delta) (hct0 : 0 ≤ ct.raw)
    (hct : ct.raw ≤ decFormat.scale) (hos0 : 0 ≤ os.raw) (hos : os.raw ≤ decFormat.scale)
    (hne : ¬ (ct = Fixed.one ∧ os = 0)) : ∃ r, communitySplit ct os delta = .ok r := by
  rw [communitySplit]
  split_ifs
  · obtain ⟨a, ha, ha0, ha1⟩ := exists_applyCommunityTax hct0 hct hos0 hos
      (mt (communityDivisor_eq_zero_iff hct0 hct hos0 hos).mp hne)
    obtain ⟨part, rest, hpart, hrest⟩ := exists_share_sub hv hb ha0 ha1
    exact ⟨(part, rest), by rw [ha, ok_bind, hpart, ok_bind, hrest, ok_bind]; rfl⟩
  · exact ⟨_, rfl⟩

lemma communitySplit_divisionByZero (delta : Coins) :
    communitySplit Fixed.one 0 delta = .error (.panic .divisionByZero) := by
  have hS : (0 : ℤ) ≤ decFormat.scale := by positivity
  have hzero : communityDivisor Fixed.one 0 = 0 :=
    (communityDivisor_eq_zero_iff hS le_rfl le_rfl hS).mpr ⟨rfl, rfl⟩
  have happly : applyCommunityTax Fixed.one 0 = .error (.panic .divisionByZero) := by
    have heq : applyCommunityTax Fixed.one 0
        = (0 : Dec).quo ⟨communityDivisor Fixed.one 0⟩ >>= Fixed.one.mul :=
      applyCommunityTax_eq hS le_rfl le_rfl hS
    rw [heq, Fixed.quo, if_pos hzero]
    rfl
  rw [communitySplit, if_pos (by decide), happly, error_bind]

lemma exists_oracleSplit (hv : delta.IsValid) (hb : Bounded delta)
    (hos : os.raw ≤ decFormat.scale) : ∃ r, oracleSplitCoins os delta = .ok r := by
  rw [oracleSplitCoins]
  split_ifs with hpos
  · exact exists_shareOf_unit hv hb (le_of_lt hpos) hos
  · exact ⟨_, rfl⟩

end CommunitySplit

lemma Bounded.mono {a b : Coins} (h : Bounded b) (hle : ∀ d, a.amountOf d ≤ b.amountOf d) :
    Bounded a := fun d => lt_of_le_of_lt (hle d) (h d)

lemma Parts.rest_le {whole part rest : Coins} (h : Parts whole part rest) (d : Denom) :
    rest.amountOf d ≤ whole.amountOf d := by
  have h1 := h.sum d
  have h2 := h.part_nonneg d
  omega

section Panic

variable {K : Keepers β} {s : β} {coins : Coins}

lemma sendShare_ne_panic (hK : BankLawful K) {m : String} (hm : m ∈ splitModules) (s : β)
    (coins : Coins) (p : Panic) : sendShare K s m coins ≠ .error (.panic p) := by
  rw [sendShare]
  split_ifs
  · simp
  · exact hK.send_ne_panic s m hm coins p

lemma fundCommunityPool_ne_panic (hK : BankLawful K) {whole : Coins} (hroom : RoomFor K s whole)
    (hv : coins.IsValid) (hle : ∀ d, coins.amountOf d ≤ whole.amountOf d) (p : Panic) :
    fundCommunityPool K s coins ≠ .error (.panic p) := by
  rw [fundCommunityPool]
  split_ifs
  · simp
  · refine bind_ne_error (hK.send_ne_panic s _ (by simp [splitModules]) coins p) fun s' hs' => ?_
    have hadd : ∃ pool, (K.communityPool s').add (DecCoins.ofCoins coins) = .ok pool := by
      refine DecCoins.exists_add fun d => ?_
      obtain ⟨h0, h1⟩ := hroom.2 d
      rw [hK.send_pool _ _ _ _ hs', DecCoins.amountOf_ofCoins]
      exact fits_pool h0 h1 (CoinSet.isValid_iff.mp hv d) (hle d) (hroom.1 d)
    obtain ⟨pool, hpool⟩ := hadd
    rw [hpool, ok_bind]
    simp

/-- **Panic freedom.** For valid coins and rates of the unit interval, the splits of a tax do not
panic exactly when the burn split is within every coin and the community tax is not one with an
oracle split of zero. -/
theorem processTaxSplits_panic_free_iff (hK : BankLawful K) {c : Chain β} {taxes : Coins}
    (hv : taxes.IsValid) (hroom : RoomFor K c.rest taxes)
    (hos : Treasury.validateOraceSplit c.treasury.params.oracleSplit = .ok ())
    (hct0 : 0 ≤ (K.getCommunityTax c.rest).raw)
    (hct : (K.getCommunityTax c.rest).raw ≤ decFormat.scale) :
    ¬ Panics (processTaxSplits K c taxes)
      ↔ (∀ d, SharesWithin c.treasury.params.burnTaxSplit (taxes.amountOf d))
        ∧ ¬ (K.getCommunityTax c.rest = Fixed.one ∧ c.treasury.params.oracleSplit = 0) := by
  obtain ⟨hos0, hos1⟩ := Treasury.validateOraceSplit_eq_ok hos
  rw [← burnSplit_eq_ok_iff hv hroom.1]
  constructor
  · intro hno
    cases hburn : burnSplit c.treasury.params.burnTaxSplit taxes with
    | error x =>
        obtain ⟨p, rfl⟩ := burnSplit_error hburn
        refine absurd ⟨p, ?_⟩ hno
        rw [processTaxSplits, splitTaxes, hburn, error_bind, error_bind]
    | ok r =>
        refine ⟨⟨r, rfl⟩, fun ⟨h1, h0⟩ => hno ⟨.divisionByZero, ?_⟩⟩
        rw [processTaxSplits, splitTaxes, hburn, ok_bind, h1, h0]
        dsimp only
        rw [communitySplit_divisionByZero, error_bind, error_bind]
  · rintro ⟨⟨⟨delta, burned⟩, hburn⟩, hne⟩ ⟨p, hp⟩
    have h1 := burnSplit_parts hv hburn
    obtain ⟨⟨community, remaining⟩, hcommunity⟩ := exists_communitySplit h1.valid.1
      (hroom.1.mono h1.part_le) hct0 hct hos0 hos1 hne
    have h2 := communitySplit_parts h1.valid.1 hcommunity
    obtain ⟨oracle, horacle⟩ := exists_oracleSplit h2.valid.2
      (hroom.1.mono fun d => (h2.rest_le d).trans (h1.part_le d)) hos1
    have hsplit : splitTaxes c.treasury.params.burnTaxSplit c.treasury.params.oracleSplit
        (K.getCommunityTax c.rest) taxes = .ok ⟨community, oracle, burned⟩ := by
      rw [splitTaxes, hburn, ok_bind]
      dsimp only
      rw [hcommunity, ok_bind]
      dsimp only
      rw [horacle, ok_bind]
      rfl
    rw [processTaxSplits, hsplit, ok_bind] at hp
    revert hp
    refine bind_ne_error (fundCommunityPool_ne_panic hK hroom h2.valid.1
        (fun d => (h2.part_le d).trans (h1.part_le d)) p) fun s₁ _ =>
      bind_ne_error (sendShare_ne_panic hK (by simp [splitModules]) _ _ _) fun s₂ _ =>
      bind_ne_error (sendShare_ne_panic hK (by simp [splitModules]) _ _ _) fun s₃ _ => ?_
    simp

end Panic

/-- A chain whose fee collector holds one hundred dollars, with the given splits. -/
def splitChain (burnTaxSplit oracleSplit communityTax : Dec) : Chain Ledger :=
  { ledgerChain [("fee_collector", "uusd", 100)] with
    treasury :=
      { params := { Treasury.defaultParams with
          burnTaxSplit := burnTaxSplit, oracleSplit := oracleSplit }
        taxCaps := ∅
        epochTaxProceeds := ∅ }
    rest := { (ledgerChain [("fee_collector", "uusd", 100)]).rest with
      communityTax := communityTax } }

/-- Both validations accept a burn split of one and a half, and it takes more from a tax than
there is. They also accept an oracle split of zero, which divides by zero under a community tax
of one. -/
theorem processTaxSplits_panics_of_accepted_params :
    (Treasury.validateBurnTaxSplit (newDecWithPrec 15 1) = .ok ()
      ∧ (splitChain (newDecWithPrec 15 1) Fixed.one 0).treasury.params.validate = .ok ()
      ∧ processTaxSplits ledgerKeepers (splitChain (newDecWithPrec 15 1) Fixed.one 0)
        (CoinSet.ofList [("uusd", 100)]) = .error (.panic .negativeDifference))
    ∧ Treasury.validateOraceSplit 0 = .ok ()
      ∧ (splitChain (newDecWithPrec 1 1) 0 Fixed.one).treasury.params.validate = .ok ()
      ∧ processTaxSplits ledgerKeepers (splitChain (newDecWithPrec 1 1) 0 Fixed.one)
        (CoinSet.ofList [("uusd", 100)]) = .error (.panic .divisionByZero) := by
  refine ⟨⟨by decide +kernel, by decide +kernel, eq_of_panicsWith (by decide +kernel)⟩,
    by decide +kernel, by decide +kernel, eq_of_panicsWith (by decide +kernel)⟩

/-- The default splits do not panic on a tax of one hundred dollars. -/
theorem not_panics_of_default_splits :
    ¬ Panics (processTaxSplits ledgerKeepers
      (splitChain (newDecWithPrec 1 1) Fixed.one (newDecWithPrec 2 2))
      (CoinSet.ofList [("uusd", 100)])) := by
  have hv : (CoinSet.ofList [("uusd", 100)] : Coins).IsValid := by decide +kernel
  have hb : Bounded (CoinSet.ofList [("uusd", 100)]) := by
    intro d
    rw [CoinSet.amountOf_ofList]
    simp only [List.map_cons, List.map_nil, List.sum_cons, List.sum_nil]
    split_ifs <;> norm_num
  have hpool : ∀ d, 0 ≤ ((ledgerKeepers.communityPool (splitChain (newDecWithPrec 1 1) Fixed.one
        (newDecWithPrec 2 2)).rest).amountOf d).raw
      ∧ ((ledgerKeepers.communityPool (splitChain (newDecWithPrec 1 1) Fixed.one
        (newDecWithPrec 2 2)).rest).amountOf d).raw < 2 ^ 254 * decFormat.scale := by
    intro d
    show 0 ≤ ((∅ : DecCoins).amountOf d).raw ∧ ((∅ : DecCoins).amountOf d).raw < _
    rw [Amounts.amountOf_empty]
    norm_num [decFormat]
  refine (processTaxSplits_panic_free_iff bankLawful_ledger hv ⟨hb, hpool⟩ (by decide +kernel)
    (by decide +kernel) (by decide +kernel)).mpr ⟨fun d => ?_, by decide +kernel⟩
  exact sharesWithin_of_le_one (by decide +kernel) (CoinSet.isValid_iff.mp hv d)

end ColumbusCore.Tax
