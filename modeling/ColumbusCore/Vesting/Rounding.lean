import ColumbusCore.Vesting.Account

/-!
What the tolerance of the ratios does to the vested amounts.

The ratios of a denom are accepted when they sum to one at nine decimals, while the vested amount is
the amount times the exact sum, rounded.

* `vestsWithin_iff`: **no more than the original amount vests, and the vesting coins are defined at
  every time, exactly when** the original amounts are within what their ratios round to;
* `vestsFully_iff`: **after the end of its schedules everything has vested exactly when** each amount
  times the sum of its ratios rounds to the amount;
* `getVestingCoins_thirdsAbove`, `lockedCoins_thirdsBelow`: three thirds, rounded up or down at ten
  decimals, are accepted and break the one and the other.
-/

namespace ColumbusCore.Vesting

open Go Rounding

/-! ### Shares -/

/-- The ratio takes exactly `x` of `x`, rounding included: it differs from one by no more than half a
unit of `x`. -/
def SharesExactly (ratio : Dec) (x : ℤ) : Prop :=
  |2 * (x * ratio.raw - x * decFormat.scale)| < decFormat.scale
    ∨ (|2 * (x * ratio.raw - x * decFormat.scale)| = decFormat.scale ∧ x % 2 = 0)

instance (ratio : Dec) (x : ℤ) : Decidable (SharesExactly ratio x) :=
  inferInstanceAs (Decidable (_ ∨ _))

/-- A ratio takes no more of an amount than a larger one. -/
lemma halfEven_le_of_sharesWithin {x r : ℤ} {total : Dec} (hx : 0 ≤ x) (hr : r ≤ total.raw)
    (h : SharesWithin total x) : halfEven (x * r) decFormat.scale ≤ x := by
  have hle : x * r ≤ total.raw * x := by
    rw [mul_comm total.raw]
    exact mul_le_mul_of_nonneg_left hr hx
  have htotal := (halfEven_le_iff decFormat.scale_pos hx).mp ((halfEven_le_iff_sharesWithin hx).mpr h)
  refine (halfEven_le_iff decFormat.scale_pos hx).mpr ?_
  omega

/-! ### The vested coins of an account -/

/-- The sum of the ratios of the schedules of a denom. -/
def VestingSchedule.total (vs : VestingSchedule) : Dec := ⟨vs.totalRatio⟩

section Account

variable {lgva : LazyGradedVestingAccount} (hv : lgva.Valid)

include hv

/-- The vested coins where every schedule has ended. -/
lemma vestedOf_of_ended {blockTime : Int64}
    (hend : ∀ vs ∈ lgva.vestingSchedules, ∀ s ∈ vs.schedules, s.endTime ≤ blockTime)
    {c : Coins} (hc : lgva.getVestedCoins blockTime = .ok c) (d : Denom) :
    0 ≤ c.amountOf d
      ∧ (lgva.getVestingSchedule d = none → c.amountOf d = lgva.originalVesting.amountOf d)
      ∧ ∀ vs, lgva.getVestingSchedule d = some vs →
        Fixed.Fits decFormat (lgva.originalVesting.amountOf d * vs.totalRatio)
          ∧ c.amountOf d
            = halfEven (lgva.originalVesting.amountOf d * vs.totalRatio) decFormat.scale := by
  obtain ⟨h0, hnone, hsome⟩ := (vestedOf_eq_ok_iff hv blockTime).mp
    ((getVestedCoins_eq_ok_iff hv blockTime).mp hc d)
  refine ⟨h0, hnone, fun vs hvs => ?_⟩
  have hmem := List.mem_of_find?_eq_some hvs
  rw [← sum_vestedRaw_of_ended (hv vs hmem) blockTime (hend vs hmem)]
  exact hsome vs hvs

/-- Before time zero only what has no schedule has vested. -/
lemma vestedOf_of_neg {blockTime : Int64} (hneg : blockTime < 0) {c : Coins}
    (hc : lgva.getVestedCoins blockTime = .ok c) {d : Denom} {vs : VestingSchedule}
    (hvs : lgva.getVestingSchedule d = some vs) : c.amountOf d = 0 := by
  obtain ⟨-, -, hsome⟩ := (vestedOf_eq_ok_iff hv blockTime).mp
    ((getVestedCoins_eq_ok_iff hv blockTime).mp hc d)
  rw [(hsome vs hvs).2, sum_vestedRaw_of_neg (getVestingSchedule_valid hv hvs) blockTime hneg,
    mul_zero]
  rfl

/-- An amount within what its ratios round to has a vested part. -/
lemma exists_vestedOf {d : Denom} (hnn : 0 ≤ lgva.originalVesting.amountOf d)
    (hshares : ∀ vs, lgva.getVestingSchedule d = some vs →
      Fixed.Fits decFormat (lgva.originalVesting.amountOf d * vs.totalRatio)
        ∧ SharesWithin vs.total (lgva.originalVesting.amountOf d))
    (blockTime : Int64) :
    ∃ y, vestedOf lgva blockTime (d, lgva.originalVesting.amountOf d) = .ok y
      ∧ y ≤ lgva.originalVesting.amountOf d := by
  cases hvs : lgva.getVestingSchedule d with
  | none =>
      refine ⟨lgva.originalVesting.amountOf d, (vestedOf_eq_ok_iff hv blockTime).mpr
        ⟨hnn, fun _ => rfl, fun vs h => ?_⟩, le_rfl⟩
      rw [hvs] at h
      exact absurd h (by simp)
  | some vs =>
      obtain ⟨hfit, hwithin⟩ := hshares vs hvs
      obtain ⟨hr0, hr⟩ := sum_vestedRaw_bounds (getVestingSchedule_valid hv hvs) blockTime
      have hprod := mul_nonneg hnn hr0
      refine ⟨_, (vestedOf_eq_ok_iff hv blockTime).mpr ⟨halfEven_nonneg hprod, fun h => ?_,
        fun vs' hvs' => ⟨?_, ?_⟩⟩, halfEven_le_of_sharesWithin hnn hr hwithin⟩
      · rw [hvs] at h
        exact absurd h (by simp)
      · obtain rfl := Option.some.inj (hvs.symm.trans hvs')
        exact hfit.of_le hprod (mul_le_mul_of_nonneg_left hr hnn)
      · obtain rfl := Option.some.inj (hvs.symm.trans hvs')
        rfl

/-- Amounts within what their ratios round to vest within themselves. -/
lemma exists_getVestedCoins (hvalid : lgva.originalVesting.IsValid)
    (hshares : ∀ d vs, lgva.getVestingSchedule d = some vs →
      Fixed.Fits decFormat (lgva.originalVesting.amountOf d * vs.totalRatio)
        ∧ SharesWithin vs.total (lgva.originalVesting.amountOf d))
    (blockTime : Int64) :
    ∃ c, lgva.getVestedCoins blockTime = .ok c
      ∧ (∀ d, 0 ≤ c.amountOf d ∧ c.amountOf d ≤ lgva.originalVesting.amountOf d)
      ∧ ∀ d, lgva.getVestingSchedule d = none →
        c.amountOf d = lgva.originalVesting.amountOf d := by
  have hpart := fun d => exists_vestedOf hv (CoinSet.isValid_iff.mp hvalid d) (hshares d) blockTime
  cases hc : lgva.getVestedCoins blockTime with
  | error f =>
      obtain ⟨e, he, herror⟩ := CoinSet.coinwise_eq_error
        (fun acc e _ => addVestedCoin_eq blockTime acc e) hc
      obtain ⟨y, hy, -⟩ := hpart e.1
      rw [(Amounts.mem_entries_iff.mp (show (e.1, e.2) ∈ lgva.originalVesting.entries from he)).1]
        at hy
      exact absurd (hy.symm.trans herror) (by simp)
  | ok c =>
      have hamount := (getVestedCoins_eq_ok_iff hv blockTime).mp hc
      refine ⟨c, rfl, fun d => ?_, fun d hd => ?_⟩
      · obtain ⟨y, hy, hle⟩ := hpart d
        obtain rfl := Except.ok.inj (hy.symm.trans (hamount d))
        exact ⟨((vestedOf_eq_ok_iff hv blockTime).mp hy).1, hle⟩
      · exact ((vestedOf_eq_ok_iff hv blockTime).mp (hamount d)).2.1 hd

end Account

/-- The vesting coins, denom by denom. -/
lemma getVestingCoins_eq_ok {lgva : LazyGradedVestingAccount} {blockTime : Int64} {c : Coins}
    (hc : lgva.getVestedCoins blockTime = .ok c)
    (hle : ∀ d, c.amountOf d ≤ lgva.originalVesting.amountOf d) :
    lgva.getVestingCoins blockTime = .ok (lgva.originalVesting.safeSub c) := by
  rw [LazyGradedVestingAccount.getVestingCoins, hc, ok_bind]
  exact CoinSet.sub_eq_ok_iff.mpr ⟨hle, rfl⟩

/-- The locked coins are defined where the delegated vesting coins of what still vests are not
negative. -/
lemma lockedCoins_eq_ok_iff {lgva : LazyGradedVestingAccount} {blockTime : Int64} {vesting : Coins}
    (hvesting : lgva.getVestingCoins blockTime = .ok vesting)
    (hnn : ∀ d, 0 ≤ vesting.amountOf d) :
    (∃ locked, lgva.lockedCoins blockTime = .ok locked)
      ↔ ∀ d, vesting.amountOf d ≠ 0 → 0 ≤ lgva.delegatedVesting.amountOf d := by
  rw [LazyGradedVestingAccount.lockedCoins, hvesting, ok_bind]
  constructor
  · rintro ⟨locked, h⟩ d hd
    obtain ⟨delegated, hmin, -⟩ := bind_eq_ok.mp h
    have h0 := (CoinSet.min_eq_ok_iff.mp hmin).1 d
    rw [CoinSet.amountOf_pairMin] at h0
    split_ifs at h0 with hzero
    · exact (hzero.resolve_left hd).ge
    · exact h0.trans (min_le_right _ _)
  · intro hdelegated
    have hmin : vesting.min lgva.delegatedVesting
        = .ok (vesting.pairMin lgva.delegatedVesting) := by
      refine CoinSet.min_eq_ok_iff.mpr ⟨fun d => ?_, rfl⟩
      rw [CoinSet.amountOf_pairMin]
      split_ifs with hzero
      · exact le_rfl
      · exact le_min (hnn d) (hdelegated d (not_or.mp hzero).1)
    rw [hmin, ok_bind]
    refine ⟨_, CoinSet.sub_eq_ok_iff.mpr ⟨fun d => ?_, rfl⟩⟩
    rw [CoinSet.amountOf_pairMin]
    split_ifs
    · exact hnn d
    · exact min_le_left _ _

/-! ### The whole account -/

/-- **The vested amounts stay within the original ones.** A validated account has, at every block
time, vested coins of at most the original amount in each denom, defined vesting and locked coins,
and delegations that are tracked unless they are not covered, if and only if the original coins are
not negative and, for each denom with schedules, the amount times the sum of the ratios is a decimal, it
rounds to no more than the amount, and the delegated vesting coins are not negative. -/
theorem vestsWithin_iff {B : String → Option AccAddress} {lgva : LazyGradedVestingAccount}
    (hvalid : lgva.validate B = .ok ()) :
    (∀ blockTime : Int64,
        (∃ vested, lgva.getVestedCoins blockTime = .ok vested
          ∧ ∀ d, vested.amountOf d ≤ lgva.originalVesting.amountOf d)
        ∧ (∃ vesting, lgva.getVestingCoins blockTime = .ok vesting)
        ∧ (∃ locked, lgva.lockedCoins blockTime = .ok locked)
        ∧ ∀ (balance amount : Coins) (e : Fault), amount.IsValid →
          lgva.trackDelegation blockTime balance amount = .error e → e = insufficientFunds)
      ↔ lgva.originalVesting.IsValid
        ∧ ∀ d vs, lgva.getVestingSchedule d = some vs →
          Fixed.Fits decFormat (lgva.originalVesting.amountOf d * vs.totalRatio)
            ∧ SharesWithin vs.total (lgva.originalVesting.amountOf d)
            ∧ (lgva.originalVesting.amountOf d ≠ 0 → 0 ≤ lgva.delegatedVesting.amountOf d) := by
  have hv := LazyGradedVestingAccount.validate_eq_ok hvalid
  constructor
  · intro h
    -- at the end of time every schedule has ended
    obtain ⟨⟨vested, hvested, hle⟩, -⟩ := h Int64.maxValue
    have hended := vestedOf_of_ended hv (fun vs _ s _ => Int64.le_maxValue s.endTime) hvested
    have hnn : ∀ d, 0 ≤ lgva.originalVesting.amountOf d := fun d => (hended d).1.trans (hle d)
    refine ⟨CoinSet.isValid_iff.mpr hnn, fun d vs hvs => ?_⟩
    obtain ⟨hfit, hamount⟩ := (hended d).2.2 vs hvs
    refine ⟨hfit, (halfEven_le_iff_sharesWithin (hnn d)).mp ?_, fun hd => ?_⟩
    · have hled := hle d
      rw [hamount, mul_comm] at hled
      exact hled
    · -- before time zero the whole amount is vesting
      obtain ⟨⟨vested', hvested', hle'⟩, -, hlocked, -⟩ := h (-1)
      have hsub := getVestingCoins_eq_ok hvested' hle'
      refine (lockedCoins_eq_ok_iff hsub fun d' => ?_).mp hlocked d ?_
      · rw [CoinSet.amountOf_safeSub]
        exact sub_nonneg.mpr (hle' d')
      · rw [CoinSet.amountOf_safeSub, vestedOf_of_neg hv (by decide) hvested' hvs, sub_zero]
        exact hd
  · rintro ⟨hval, hshares⟩ blockTime
    obtain ⟨vested, hvested, hbounds, hnone⟩ := exists_getVestedCoins hv hval
      (fun d vs hvs => ⟨(hshares d vs hvs).1, (hshares d vs hvs).2.1⟩) blockTime
    have hsub := getVestingCoins_eq_ok hvested fun d => (hbounds d).2
    refine ⟨⟨vested, hvested, fun d => (hbounds d).2⟩, ⟨_, hsub⟩,
      (lockedCoins_eq_ok_iff hsub fun d => ?_).mpr fun d hd => ?_,
      fun balance amount e hamount => trackDelegation_eq_error hsub hamount⟩
    · rw [CoinSet.amountOf_safeSub]
      exact sub_nonneg.mpr (hbounds d).2
    · rw [CoinSet.amountOf_safeSub] at hd
      cases hvs : lgva.getVestingSchedule d with
      | none => exact absurd (sub_eq_zero.mpr (hnone d hvs).symm) hd
      | some vs =>
          refine (hshares d vs hvs).2.2 fun hzero => hd ?_
          have hb := hbounds d
          omega

/-- **Everything vests.** At a block time after the end of every schedule of a validated account the
vested coins are the original ones and no coin is vesting or locked, if and only if the original
coins are not negative and, for each denom with schedules, the amount times the sum of the ratios is
a decimal that rounds to the amount. -/
theorem vestsFully_iff {B : String → Option AccAddress} {lgva : LazyGradedVestingAccount}
    (hvalid : lgva.validate B = .ok ()) {blockTime : Int64}
    (hend : ∀ vs ∈ lgva.vestingSchedules, ∀ s ∈ vs.schedules, s.endTime ≤ blockTime) :
    (lgva.getVestedCoins blockTime = .ok lgva.originalVesting
        ∧ lgva.getVestingCoins blockTime = .ok ∅ ∧ lgva.lockedCoins blockTime = .ok ∅)
      ↔ lgva.originalVesting.IsValid
        ∧ ∀ d vs, lgva.getVestingSchedule d = some vs →
          Fixed.Fits decFormat (lgva.originalVesting.amountOf d * vs.totalRatio)
            ∧ SharesExactly vs.total (lgva.originalVesting.amountOf d) := by
  have hv := LazyGradedVestingAccount.validate_eq_ok hvalid
  have hexact : ∀ {d vs}, lgva.getVestingSchedule d = some vs →
      0 ≤ lgva.originalVesting.amountOf d →
      (halfEven (lgva.originalVesting.amountOf d * vs.totalRatio) decFormat.scale
          = lgva.originalVesting.amountOf d
        ↔ SharesExactly vs.total (lgva.originalVesting.amountOf d)) := by
    intro d vs hvs h0
    have htotal := (getVestingSchedule_valid hv hvs).total_ge
    exact halfEven_eq_iff decFormat.scale_pos (mul_nonneg h0 (by omega)) h0
  constructor
  · rintro ⟨hvested, -⟩
    have hended := vestedOf_of_ended hv hend hvested
    refine ⟨CoinSet.isValid_iff.mpr fun d => (hended d).1, fun d vs hvs => ?_⟩
    obtain ⟨hfit, hamount⟩ := (hended d).2.2 vs hvs
    exact ⟨hfit, (hexact hvs (hended d).1).mp hamount.symm⟩
  · rintro ⟨hval, hshares⟩
    have hnn := CoinSet.isValid_iff.mp hval
    have hvested : lgva.getVestedCoins blockTime = .ok lgva.originalVesting := by
      refine (getVestedCoins_eq_ok_iff hv blockTime).mpr fun d => ?_
      refine (vestedOf_eq_ok_iff hv blockTime).mpr ⟨hnn d, fun _ => rfl, fun vs hvs => ?_⟩
      have hmem := List.mem_of_find?_eq_some hvs
      rw [sum_vestedRaw_of_ended (hv vs hmem) blockTime (hend vs hmem)]
      exact ⟨(hshares d vs hvs).1, ((hexact hvs (hnn d)).mpr (hshares d vs hvs).2).symm⟩
    have hnothing : lgva.originalVesting.safeSub lgva.originalVesting = ∅ :=
      Amounts.ext_amountOf fun d => by simp
    have hvesting : lgva.getVestingCoins blockTime = .ok ∅ := by
      rw [getVestingCoins_eq_ok hvested fun d => le_rfl, hnothing]
    refine ⟨hvested, hvesting, ?_⟩
    rw [LazyGradedVestingAccount.lockedCoins, hvesting, ok_bind]
    rfl

/-! ### Thirds -/

/-- An account that vests an amount of Luna in three schedules of one day with the same ratio. -/
def thirds (amount : ℤ) (ratio : Dec) : LazyGradedVestingAccount where
  baseAccount := ⟨"", none⟩
  originalVesting := CoinSet.ofList [("uluna", amount)]
  delegatedFree := ∅
  delegatedVesting := ∅
  vestingSchedules := [⟨"uluna", [⟨0, 86400, ratio⟩, ⟨86400, 172800, ratio⟩, ⟨172800, 259200, ratio⟩]⟩]

lemma validate_thirds {amount : ℤ} {ratio : Dec}
    (h : returns (fun _ => true) ((thirds amount ratio).validate fun _ => none) = true) :
    ((thirds amount ratio).validate fun _ => none) = .ok () := by
  obtain ⟨_, hok, -⟩ := exists_of_returns h
  exact hok

/-- Thirds rounded up at ten decimals are accepted, and of `10 ^ 10` coins two more vest than there
are: the vesting coins, the locked coins and every delegation panic on a negative coin. -/
theorem getVestingCoins_thirdsAbove :
    ((thirds (10 ^ 10) (newDecWithPrec 3333333334 10)).validate fun _ => none) = .ok ()
      ∧ (∃ vested, (thirds (10 ^ 10) (newDecWithPrec 3333333334 10)).getVestedCoins 259200
          = .ok vested ∧ vested.amountOf "uluna" = 10000000002)
      ∧ (thirds (10 ^ 10) (newDecWithPrec 3333333334 10)).getVestingCoins 259200
        = .error (.panic .negativeDifference)
      ∧ (thirds (10 ^ 10) (newDecWithPrec 3333333334 10)).lockedCoins 259200
        = .error (.panic .negativeDifference)
      ∧ ∀ balance amount,
        (thirds (10 ^ 10) (newDecWithPrec 3333333334 10)).trackDelegation 259200 balance amount
          = .error (.panic .negativeDifference) := by
  have hvesting : (thirds (10 ^ 10) (newDecWithPrec 3333333334 10)).getVestingCoins 259200
      = .error (.panic .negativeDifference) := eq_of_panicsWith (by decide +kernel)
  obtain ⟨vested, hvested, hamount⟩ := exists_of_returns
    (p := fun c : Coins => decide (c.amountOf "uluna" = 10000000002))
    (x := (thirds (10 ^ 10) (newDecWithPrec 3333333334 10)).getVestedCoins 259200)
    (by decide +kernel)
  refine ⟨validate_thirds (by decide +kernel), ⟨vested, hvested, of_decide_eq_true hamount⟩,
    hvesting, ?_, fun balance amount => ?_⟩
  · rw [LazyGradedVestingAccount.lockedCoins, hvesting, error_bind]
  · rw [LazyGradedVestingAccount.trackDelegation, hvesting, error_bind]

/-- The only denom with schedules is Luna. -/
lemma getVestingSchedule_thirds {amount : ℤ} {ratio : Dec} {d : Denom} {vs : VestingSchedule}
    (h : (thirds amount ratio).getVestingSchedule d = some vs) :
    d = "uluna" ∧ vs.totalRatio = ratio.raw + (ratio.raw + (ratio.raw + 0)) := by
  have hmem := List.mem_of_find?_eq_some h
  obtain rfl := List.mem_singleton.mp hmem
  have hd := List.find?_some h
  exact ⟨(of_decide_eq_true hd).symm, rfl⟩

/-- With `10 ^ 9` coins the same ratios do no harm: the excess is lost in the rounding. -/
theorem vestsWithin_thirdsAbove :
    ∃ vesting, (thirds (10 ^ 9) (newDecWithPrec 3333333334 10)).getVestingCoins 259200
      = .ok vesting := by
  have hamount : ∀ d, d = "uluna" →
      (thirds (10 ^ 9) (newDecWithPrec 3333333334 10)).originalVesting.amountOf d = 10 ^ 9 := by
    rintro d rfl
    decide +kernel
  refine ((vestsWithin_iff (validate_thirds (by decide +kernel))).mpr
    ⟨by decide +kernel, fun d vs hvs => ?_⟩ 259200).2.1
  obtain ⟨rfl, htotal⟩ := getVestingSchedule_thirds hvs
  rw [VestingSchedule.total, hamount _ rfl, htotal]
  exact ⟨by decide +kernel, by decide +kernel, fun _ => by decide +kernel⟩

/-- Thirds rounded down at ten decimals are accepted, and of `10 ^ 10` coins one never vests. -/
theorem lockedCoins_thirdsBelow :
    ((thirds (10 ^ 10) (newDecWithPrec 3333333333 10)).validate fun _ => none) = .ok ()
      ∧ (∃ vested, (thirds (10 ^ 10) (newDecWithPrec 3333333333 10)).getVestedCoins 259200
          = .ok vested ∧ vested.amountOf "uluna" = 9999999999)
      ∧ ∃ locked, (thirds (10 ^ 10) (newDecWithPrec 3333333333 10)).lockedCoins 259200
          = .ok locked ∧ locked.amountOf "uluna" = 1 := by
  obtain ⟨vested, hvested, hamount⟩ := exists_of_returns
    (p := fun c : Coins => decide (c.amountOf "uluna" = 9999999999))
    (x := (thirds (10 ^ 10) (newDecWithPrec 3333333333 10)).getVestedCoins 259200)
    (by decide +kernel)
  obtain ⟨locked, hlocked, hamount'⟩ := exists_of_returns
    (p := fun c : Coins => decide (c.amountOf "uluna" = 1))
    (x := (thirds (10 ^ 10) (newDecWithPrec 3333333333 10)).lockedCoins 259200)
    (by decide +kernel)
  exact ⟨validate_thirds (by decide +kernel), ⟨vested, hvested, of_decide_eq_true hamount⟩,
    ⟨locked, hlocked, of_decide_eq_true hamount'⟩⟩

/-- With `10 ^ 9` coins the same ratios vest all of them. -/
theorem vestsFully_thirdsBelow :
    (thirds (10 ^ 9) (newDecWithPrec 3333333333 10)).lockedCoins 259200 = .ok ∅ := by
  have hamount : ∀ d, d = "uluna" →
      (thirds (10 ^ 9) (newDecWithPrec 3333333333 10)).originalVesting.amountOf d = 10 ^ 9 := by
    rintro d rfl
    decide +kernel
  refine ((vestsFully_iff (validate_thirds (by decide +kernel)) (by decide +kernel)).mpr
    ⟨by decide +kernel, fun d vs hvs => ?_⟩).2.2
  obtain ⟨rfl, htotal⟩ := getVestingSchedule_thirds hvs
  rw [VestingSchedule.total, hamount _ rfl, htotal]
  exact ⟨by decide +kernel, by decide +kernel⟩

end ColumbusCore.Vesting
