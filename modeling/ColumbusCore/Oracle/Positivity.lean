import ColumbusCore.Oracle.Rates
import ColumbusCore.Oracle.StaticChain

/-!
When the rates of a block are positive, and no rate is a division by zero.

The power of a ballot is counted before it is converted to cross rates. Under the conversion a
voter without a reference rate keeps its vote but loses its power and its rate, so the converted
ballot can have less power than the one that passed, down to none, and its median can be zero.

* `medianOf_pos_iff`: the median of a collected ballot is positive when the ballot has power two
  or no abstain vote;
* `CrossMajority`, `medianOf_crossed_pos_iff`: the median of the cross rates is positive exactly
  when the votes left without a cross rate carry less than half of the shared power, or there
  are none;
* `SoundCross`, `rateOf_cross`: the rate of a denom is positive exactly when, moreover, the
  reference median is not too small against the cross median;
* `endBlocker_rates_positive_iff`: **a block neither divides by zero nor writes a rate that is
  not positive exactly when every passing ballot converts soundly**.
-/

namespace ColumbusCore.Oracle

open Go WeightedMedian
open Std (ExtTreeMap)

variable {σ : Type}

/-! ### Medians at zero -/

/-- A median is positive exactly when the votes at or below zero do not carry half of the
power. -/
lemma medianOf_pos_iff_not_reaches {b : ExchangeRateBallot} (hn : NonnegPowers b) (hne : b ≠ []) :
    (medianOf b).IsPositive ↔ ¬ Reaches (pivot b) (weights b) 0 := by
  rw [← IsMedian.le_iff (weights_nonneg hn) (isBallotMedian_medianOf hn hne), not_le]
  rfl

lemma weightUpTo_weights (b : ExchangeRateBallot) (t : Dec) :
    weightUpTo t (weights b) = (b.map fun v => if v.exchangeRate ≤ t then v.power else 0).sum := by
  rw [weightUpTo, weights, List.map_map]
  rfl

lemma exists_weights_le {b : ExchangeRateBallot} {t : Dec} :
    (∃ u ∈ weights b, u.1 ≤ t) ↔ ∃ v ∈ b, v.exchangeRate ≤ t := by
  simp [weights]

/-- The median of a collected ballot is positive when its power is at least two, or nobody
abstained: abstain votes have no power, and the median is taken at half of the power. -/
lemma medianOf_pos_iff {b : ExchangeRateBallot} (hb : GoodBallot b) :
    (medianOf b).IsPositive ↔ 2 ≤ power b ∨ ∀ v ∈ b, v.exchangeRate.IsPositive := by
  have hzero : weightUpTo 0 (weights b) = 0 := by
    rw [weightUpTo_weights]
    refine List.sum_eq_zero fun x hx => ?_
    obtain ⟨v, hv, rfl⟩ := List.mem_map.mp hx
    split_ifs with hle
    · exact hb.abstain v hv (not_lt.mpr hle)
    · rfl
  have hpow := power_nonneg hb.powers
  have hpivot : pivot b ≤ 0 ↔ ¬ 2 ≤ power b := by
    rw [pivot, Int.tdiv_eq_ediv_of_nonneg hpow]
    omega
  have hex : (∃ u ∈ weights b, u.1 ≤ 0) ↔ ¬ ∀ v ∈ b, v.exchangeRate.IsPositive := by
    rw [exists_weights_le]
    push Not
    exact exists_congr fun v => and_congr_right fun _ => not_lt.symm
  rw [medianOf_pos_iff_not_reaches hb.powers hb.ne_nil, Reaches, hzero, hpivot, hex]
  tauto

/-! ### Cross rates that vanish -/

/-- The voter has a cross rate: a positive rate for both denoms, with a quotient that does not
round to zero. -/
def HasCrossRate (ref : ExchangeRateBallot) (v : VoteForTally) : Prop :=
  Shared ref v ∧
    (5 * 10 ^ 17 + 1) * v.exchangeRate.raw ≤ ((toMap ref).getD v.voter 0).raw * 10 ^ 36

instance (ref : ExchangeRateBallot) (v : VoteForTally) : Decidable (HasCrossRate ref v) :=
  inferInstanceAs (Decidable (_ ∧ _))

/-- The quotient of two decimals rounds to a positive one exactly above half of the last
digit. -/
lemma quoRaw_dec_pos_iff {a b : ℤ} (ha : 0 ≤ a) (hb : 0 < b) :
    0 < Fixed.quoRaw decFormat a b ↔ (5 * 10 ^ 17 + 1) * b ≤ a * 10 ^ 36 := by
  rw [Fixed.quoRaw_pos_iff ha hb]
  norm_num [decFormat]

lemma crossRaw_pos_iff {ref : ExchangeRateBallot} {v : VoteForTally} :
    0 < crossRaw ref v ↔ HasCrossRate ref v := by
  rw [crossRaw, HasCrossRate]
  split_ifs with h
  · obtain ⟨r, hr⟩ := Option.isSome_iff_exists.mp (ExtTreeMap.mem_iff_isSome_getElem?.mp h.1)
    have hpos : 0 < r.raw := isPositive_of_toMap hr
    have hget : (toMap ref).getD v.voter 0 = r := by
      rw [ExtTreeMap.getD_eq_getD_getElem?, hr]
      rfl
    rw [hget, quoRaw_dec_pos_iff hpos.le h.2]
    simp [h]
  · simp [h]

/-- The power of the voters of a ballot that gave a rate for both denoms. -/
def sharedPower (ref b : ExchangeRateBallot) : ℤ := (b.map (crossPower ref)).sum

/-- The part of it whose cross rate vanishes. -/
def lostPower (ref b : ExchangeRateBallot) : ℤ :=
  (b.map fun v => if HasCrossRate ref v then 0 else crossPower ref v).sum

/-- Every vote has a cross rate, or those without one carry less than half of the shared
power. -/
def CrossMajority (ref b : ExchangeRateBallot) : Prop :=
  (∀ v ∈ b, HasCrossRate ref v) ∨ lostPower ref b < sharedPower ref b / 2

instance (ref b : ExchangeRateBallot) : Decidable (CrossMajority ref b) :=
  inferInstanceAs (Decidable (_ ∨ _))

/-- **The median of the cross rates** is positive exactly under `CrossMajority`. -/
theorem medianOf_crossed_pos_iff (ref : ExchangeRateBallot) {b : ExchangeRateBallot} (hb : GoodBallot b) :
    (medianOf (b.map (crossed ref))).IsPositive ↔ CrossMajority ref b := by
  have hn : NonnegPowers (b.map (crossed ref)) := nonnegPowers_crossed hb.powers
  have hne : b.map (crossed ref) ≠ [] := by simpa using hb.ne_nil
  have hle : ∀ v, (crossed ref v).exchangeRate ≤ 0 ↔ ¬ HasCrossRate ref v := fun v => by
    rw [← crossRaw_pos_iff, not_lt]
    rfl
  have hlost : weightUpTo 0 (weights (b.map (crossed ref))) = lostPower ref b := by
    rw [weightUpTo_weights, lostPower, List.map_map]
    refine congrArg List.sum (List.map_congr_left fun v _ => ?_)
    simp only [Function.comp, hle, ite_not]
    rfl
  have hshared : pivot (b.map (crossed ref)) = sharedPower ref b / 2 := by
    rw [pivot, Int.tdiv_eq_ediv_of_nonneg (power_nonneg hn), power, sharedPower, List.map_map]
    rfl
  have hex : (∃ u ∈ weights (b.map (crossed ref)), u.1 ≤ 0)
      ↔ ¬ ∀ v ∈ b, HasCrossRate ref v := by
    rw [exists_weights_le]
    simp [hle]
  rw [medianOf_pos_iff_not_reaches hn hne, Reaches, hlost, hshared, hex, CrossMajority]
  rw [not_and_or, not_not, not_le]

/-! ### The rate of a denom -/

/-- A ballot that converts to a positive rate: its cross rates have a positive median, and the
quotient of the two medians does not round to zero. -/
structure SoundCross (ref b : ExchangeRateBallot) : Prop where
  majority : CrossMajority ref b
  quotient : ∀ R m, IsBallotMedian ref R → IsBallotMedian (b.map (crossed ref)) m →
    (5 * 10 ^ 17 + 1) * m.raw ≤ R.raw * 10 ^ 36

/-- The median of the cross rates is a cross rate, so it is not negative. -/
lemma medianOf_crossed_nonneg (ref : ExchangeRateBallot) {b : ExchangeRateBallot} (hb : GoodBallot b) :
    0 ≤ (medianOf (b.map (crossed ref))).raw := by
  have hn : NonnegPowers (b.map (crossed ref)) := nonnegPowers_crossed hb.powers
  have hne : b.map (crossed ref) ≠ [] := by simpa using hb.ne_nil
  obtain ⟨w, hw, hm⟩ := exists_vote_weightedMedian_sort Schedule.listed hn hne
  obtain ⟨v, -, rfl⟩ := List.mem_map.mp hw
  rw [medianOf, ← hm]
  exact crossRaw_nonneg ref v

/-- The outcome of the rate of a denom other than the reference, for a positive reference
median: a rate that is there is positive exactly when the ballot converts soundly, and a fault
is an overflow unless the ballot does not convert soundly. -/
lemma rateOf_cross {H : Host} {rewardBand : Dec} {r d : Denom} {ref b : ExchangeRateBallot}
    (href : GoodBallot ref) (hb : GoodBallot b) (hd : d ≠ r) (hR : (medianOf ref).IsPositive) :
    (∀ x, rateOf H rewardBand r ref d b = .ok x → (x.IsPositive ↔ SoundCross ref b))
      ∧ ∀ e, rateOf H rewardBand r ref d b = .error e →
        e = .panic .overflow ∨ (e = .panic .divisionByZero ∧ ¬ SoundCross ref b) := by
  have hmed := href.isBallotMedian
  have hmed' := hb.isBallotMedian_crossed ref
  have hm0 := medianOf_crossed_nonneg ref hb
  have hmajority := medianOf_crossed_pos_iff ref hb
  have hR' : 0 < (medianOf ref).raw := hR
  rw [rateOf, if_neg hd]
  by_cases hfits : CrossFits ref b
  · rw [if_pos hfits, talliedMedian]
    split_ifs with hband
    · rw [ok_bind]
      refine ⟨fun x hx => ?_, fun e he => ?_⟩
      · obtain ⟨hne0, -, rfl⟩ := Fixed.quo_eq_ok_iff.mp hx
        have hpos : 0 < (medianOf (b.map (crossed ref))).raw := by omega
        have hquo := quoRaw_dec_pos_iff hR'.le hpos
        refine hquo.trans ⟨fun hle => ⟨hmajority.mp hpos, ?_⟩, fun hs => hs.quotient _ _ hmed hmed'⟩
        intro R m hRm hm
        rwa [IsLeast.unique hRm hmed, IsLeast.unique hm hmed']
      · rcases Fixed.quo_eq_error_iff.mp he with ⟨hzero, rfl⟩ | ⟨-, -, rfl⟩
        · refine Or.inr ⟨rfl, fun hs => ?_⟩
          have hpos : 0 < (medianOf (b.map (crossed ref))).raw := hmajority.mpr hs.majority
          omega
        · exact Or.inl rfl
    · refine ⟨fun x hx => absurd hx (by simp), fun e he => Or.inl ?_⟩
      exact (Except.error.inj he).symm
  · rw [if_neg hfits]
    refine ⟨fun x hx => absurd hx (by simp), fun e he => Or.inl ?_⟩
    exact (Except.error.inj he).symm

lemma talliedMedian_eq_ok {H : Host} {rewardBand x : Dec} {b : ExchangeRateBallot}
    (h : talliedMedian H rewardBand b = .ok x) : x = medianOf b := by
  rw [talliedMedian] at h
  split_ifs at h
  exact (Except.ok.inj h).symm

lemma talliedMedian_eq_error {H : Host} {rewardBand : Dec} {b : ExchangeRateBallot} {e : Fault}
    (h : talliedMedian H rewardBand b = .error e) : e = .panic .overflow := by
  rw [talliedMedian] at h
  split_ifs at h
  exact (Except.error.inj h).symm

/-- The rate of a denom can only overflow or divide by zero. -/
lemma rateOf_eq_error {H : Host} {rewardBand : Dec} {r d : Denom} {ref b : ExchangeRateBallot}
    {e : Fault} (h : rateOf H rewardBand r ref d b = .error e) :
    e = .panic .overflow ∨ e = .panic .divisionByZero := by
  rw [rateOf] at h
  split_ifs at h
  · exact Or.inl (talliedMedian_eq_error h)
  · rcases bind_eq_error.mp h with h | ⟨m, -, h⟩
    · exact Or.inl (talliedMedian_eq_error h)
    · rcases Fixed.quo_eq_error_iff.mp h with ⟨-, rfl⟩ | ⟨-, -, rfl⟩
      · exact Or.inr rfl
      · exact Or.inl rfl
  · exact Or.inl (Except.error.inj h).symm

/-! ### Blocks -/

/-- Every passing ballot of the block converts to a positive rate: the reference ballot has
power two or no abstain vote, and every other passing ballot converts soundly against it. -/
def ConvertsSoundly (K : Keepers σ) (H : Host) (w : World σ) : Prop :=
  ∀ ballots threshold r ref, BlockBallots K H w ballots threshold → r ≠ "" →
    IsReference w.store.tobinTaxes ballots threshold r ref →
    (2 ≤ power ref ∨ ∀ v ∈ ref, v.exchangeRate.IsPositive)
      ∧ ∀ d b, d ≠ r → Passing w.store.tobinTaxes ballots threshold d b → SoundCross ref b

section Block

variable {K : Keepers σ} {H : Host} {S : Schedule} {height : ℕ} {w : World σ}

/-- Where every passing ballot converts soundly, the tally does not divide by zero, -/
lemma tallyVotes_ne_divisionByZero (hH : H.SqrtBounded) (hs : StakingLawful K w.ext)
    (hw : w.store.Sound H) (hc : ConvertsSoundly K H w) :
    tallyVotes K H S w ≠ .error (.panic .divisionByZero) := by
  have hb := (validParams_of_validate hw.params).rewardBand
  intro h
  rcases tallyVotes_eq_error hH hs hw hb h with
    h | ⟨ballots, θ, r, ref, d, b, hblock, hr, href, hpass, h⟩
  · simpa using thresholdVotes_error hs h
  have hgood := hblock.good hs hw
  obtain ⟨hmed, hcross⟩ := hc ballots θ r ref hblock hr href
  by_cases hd : d = r
  · rw [rateOf, if_pos hd] at h
    simpa using talliedMedian_eq_error h
  · have hR := (medianOf_pos_iff (hgood r ref href.1.2.1)).mpr hmed
    rcases (rateOf_cross (hgood r ref href.1.2.1) (hgood d b hpass.2.1) hd hR).2 _ h with h | h
    · simp at h
    · exact h.2 (hcross d b hd hpass)

/-- and all its rates are positive. -/
lemma tallyVotes_rates_positive (hH : H.SqrtBounded) (hs : StakingLawful K w.ext)
    (hw : w.store.Sound H) (hc : ConvertsSoundly K H w) {t : Tallied}
    (h : tallyVotes K H S w = .ok t) {d : Denom} {x : Dec} (hx : t.rates[d]? = some x) :
    x.IsPositive := by
  have hb := (validParams_of_validate hw.params).rewardBand
  obtain ⟨ballots, θ, hblock, ⟨h0, -⟩ | ⟨r, ref, hr, href, hrates, -⟩⟩ :=
    tallyVotes_eq_ok hH hs hw hb h
  · simp [h0] at hx
  have hgood := hblock.good hs hw
  obtain ⟨hmed, hcross⟩ := hc ballots θ r ref hblock hr href
  have hR := (medianOf_pos_iff (hgood r ref href.1.2.1)).mpr hmed
  obtain ⟨b, hpass, hrate⟩ := (hrates d x).mp hx
  by_cases hd : d = r
  · rw [rateOf, if_pos hd] at hrate
    rw [talliedMedian_eq_ok hrate]
    exact hR
  · exact ((rateOf_cross (hgood r ref href.1.2.1) (hgood d b hpass.2.1) hd hR).1 x hrate).mpr
      (hcross d b hd hpass)

/-- Positive rates for all passing denoms make every ballot convert soundly. -/
lemma convertsSoundly_of_rates (hH : H.SqrtBounded) (hs : StakingLawful K w.ext)
    (hw : w.store.Sound H) {t : Tallied} (h : tallyVotes K H S w = .ok t)
    (hpos : ∀ (d : Denom) (x : Dec), t.rates[d]? = some x → x.IsPositive) :
    ConvertsSoundly K H w := by
  have hb := (validParams_of_validate hw.params).rewardBand
  intro ballots θ r ref hblock hr href
  obtain ⟨ballots', θ', hblock', hcases⟩ := tallyVotes_eq_ok hH hs hw hb h
  obtain ⟨rfl, rfl⟩ := hblock'.unique hblock
  rcases hcases with ⟨-, hno⟩ | ⟨r', ref', -, href', hrates, hall⟩
  · exact absurd (hno r ref href) hr
  obtain ⟨rfl, rfl⟩ := href'.unique href
  have hgood := hblock.good hs hw
  have hR : (medianOf ref').IsPositive := by
    obtain ⟨x, hx⟩ := hall r' ref' href.1
    have hxr := hpos r' x ((hrates r' x).mpr ⟨ref', href.1, hx⟩)
    rw [rateOf, if_pos rfl] at hx
    exact talliedMedian_eq_ok hx ▸ hxr
  refine ⟨(medianOf_pos_iff (hgood r' ref' href.1.2.1)).mp hR, fun d b hd hpass => ?_⟩
  obtain ⟨x, hx⟩ := hall d b hpass
  exact ((rateOf_cross (hgood r' ref' href.1.2.1) (hgood d b hpass.2.1) hd hR).1 x hx).mp
    (hpos d x ((hrates d x).mpr ⟨b, hpass, hx⟩))

/-- A block whose tally does not divide by zero does not divide by zero. -/
lemma endBlocker_ne_divisionByZero (hK : KeepersLawful K H S height w)
    (hp : ValidParams w.store.params)
    (hlast : IsPeriodLast height w.store.params.votePeriod.toNat) (hh : height + 1 < 2 ^ 63)
    (ht : tallyVotes K H S w ≠ .error (.panic .divisionByZero)) :
    endBlocker K H S height w ≠ .error (.panic .divisionByZero) := by
  rw [endBlocker_of_last hlast]
  exact bind_ne_error ht fun t ht => bind_ne_error (settlePeriod_ne_divisionByZero hK hp ht)
    fun w' hw' => closeSlashWindow_settled_ne_arithmetic (Or.inl rfl) hK hh hp ht hw'

/-- The rates of the tally are the rates the block stores. -/
lemma endBlocker_stored_rates_positive (hH : H.SqrtBounded) (hs : StakingLawful K w.ext)
    (hw : w.store.Sound H) (hlast : IsPeriodLast height w.store.params.votePeriod.toNat)
    (hc : ConvertsSoundly K H w) {w' : World σ} (h : endBlocker K H S height w = .ok w')
    {d : Denom} {x : Dec} (hx : w'.store.exchangeRates[d]? = some x) : x.IsPositive := by
  obtain ⟨t, _, _, _, _, ht, -, hstore⟩ := endBlocker_store_of_last hlast h
  rw [hstore] at hx
  exact tallyVotes_rates_positive hH hs hw hc ht hx

/-- **Rates of a reachable block.** At the last block of a vote period, and as long as no decimal
overflows, the block neither divides by zero nor writes a rate that is not positive exactly when
every passing ballot converts soundly. -/
theorem endBlocker_rates_positive_iff (hK : KeepersLawful K H S height w) (hH : H.SqrtBounded)
    (hparse : H.ParsesNonneg) (hreach : Reachable K H (height, w)) (hs : StakingLawful K w.ext)
    (hlast : IsPeriodLast height w.store.params.votePeriod.toNat) (hh : height + 1 < 2 ^ 63)
    (hno : endBlocker K H S height w ≠ .error (.panic .overflow)) :
    (endBlocker K H S height w ≠ .error (.panic .divisionByZero)
        ∧ ∀ t, tallyVotes K H S w = .ok t →
          ∀ (d : Denom) (x : Dec), t.rates[d]? = some x → x.IsPositive)
      ↔ ConvertsSoundly K H w := by
  have hw : w.store.Sound H := sound_of_reachable hparse hreach
  have hp := validParams_of_validate hw.params
  constructor
  · rintro ⟨hdiv, hpos⟩
    cases ht : tallyVotes K H S w with
    | ok t => exact convertsSoundly_of_rates hH hs hw ht (hpos t ht)
    | error e =>
        -- the fault of the tally is the fault of the block
        have hblock : endBlocker K H S height w = .error e := by
          rw [endBlocker_of_last hlast, ht, error_bind]
        rcases tallyVotes_eq_error hH hs hw hp.rewardBand ht with
          he | ⟨_, _, _, _, _, _, -, -, -, -, he⟩
        · exact absurd (thresholdVotes_error hs he ▸ hblock) hno
        · rcases rateOf_eq_error he with he | he
          · exact absurd (he ▸ hblock) hno
          · exact absurd (he ▸ hblock) hdiv
  · intro hc
    refine ⟨endBlocker_ne_divisionByZero hK hp hlast hh
      (tallyVotes_ne_divisionByZero hH hs hw hc), fun t ht d x hx => ?_⟩
    exact tallyVotes_rates_positive hH hs hw hc ht hx

end Block

/-! ### Two validators -/

/-- The texts of two validators, of which one votes for the dollar and one for the won. -/
def disjointTables : Tables where
  accounts := twoAccounts
  hashes :=
    [("1:1.0uusd:terravaloper1weskc6tyv96x7u3dvykk7e3dw3jhyunpwz6935",
        "79853d131af1b28df84cfd8bb0156f43b74297da"),
      ("1:1200.0ukrw:terravaloper1weskc6tyv96x7u3dvgkk7e3dw3jhyunpdv73a5",
        "7be7b29b719ff64acef40d29921cfef62467568c")]
  coins := [("1.0uusd", "uusd", 10 ^ 18), ("1200.0ukrw", "ukrw", 1200 * 10 ^ 18)]

/-- Two validators with half of the power each, voting for one denom each, halt the chain: both
ballots pass with exactly the threshold, and the dollar ballot has no power left against the won,
so its cross median is zero and the won rate is divided by it. -/
theorem endBlocker_division_by_zero_of_disjoint_votes :
    ∃ w, Reachable staticKeepers (tableHost disjointTables) (2, w)
      ∧ w.store.params.validate = .ok () ∧ StakingLawful staticKeepers w.ext
      ∧ IsPeriodLast 2 w.store.params.votePeriod.toNat
      ∧ endBlocker staticKeepers (tableHost disjointTables) Schedule.listed 2 w
        = .error (.panic .divisionByZero) := by
  obtain ⟨w, hw, htest⟩ := exists_of_returns
    (p := fun w => decide (StaticLawful w.ext ∧ IsPeriodLast 2 w.store.params.votePeriod.toNat)
      && panicsWith .divisionByZero
        (endBlocker staticKeepers (tableHost disjointTables) Schedule.listed 2 w))
    (x := afterVotes disjointTables blockParams twoValidators (twoVotes "1.0uusd" "1200.0ukrw"))
    (by decide +kernel)
  rw [Bool.and_eq_true, decide_eq_true_eq] at htest
  have hreach := reachable_afterVotes rfl hw
  exact ⟨w, hreach, (sound_of_reachable (parsesNonneg_tableHost _) hreach).params,
    stakingLawful_static htest.1.1, htest.1.2, eq_of_panicsWith htest.2⟩

/-- The texts of two validators that both vote for both denoms. -/
def jointTables : Tables where
  accounts := twoAccounts
  hashes :=
    [("1:1.0uusd,1200.0ukrw:terravaloper1weskc6tyv96x7u3dvykk7e3dw3jhyunpwz6935",
        "65c2478021ddfb5bc4f303330045d92004f079a1"),
      ("1:1.0uusd,1200.0ukrw:terravaloper1weskc6tyv96x7u3dvgkk7e3dw3jhyunpdv73a5",
        "31125a92b54ce6065e3685b068c5a6b8ab6ed8c0")]
  coins := [("1.0uusd", "uusd", 10 ^ 18), ("1200.0ukrw", "ukrw", 1200 * 10 ^ 18)]

/-- Where both vote for both denoms the block ends, its rates are positive, and its ballots
convert soundly. -/
theorem convertsSoundly_of_joint_votes :
    ∃ w w', Reachable staticKeepers (tableHost jointTables) (2, w)
      ∧ endBlocker staticKeepers (tableHost jointTables) Schedule.listed 2 w = .ok w'
      ∧ ConvertsSoundly staticKeepers (tableHost jointTables) w := by
  obtain ⟨w, hw, htest⟩ := exists_of_returns
    (p := fun w => decide (StaticLawful w.ext ∧ IsPeriodLast 2 w.store.params.votePeriod.toNat)
      && returns (fun _ => true)
        (endBlocker staticKeepers (tableHost jointTables) Schedule.listed 2 w)
      && returns (fun t => t.rates.toList.all fun e => decide e.2.IsPositive)
        (tallyVotes staticKeepers (tableHost jointTables) Schedule.listed w))
    (x := afterVotes jointTables blockParams twoValidators
      (twoVotes "1.0uusd,1200.0ukrw" "1.0uusd,1200.0ukrw"))
    (by decide +kernel)
  rw [Bool.and_eq_true, Bool.and_eq_true, decide_eq_true_eq] at htest
  obtain ⟨⟨⟨hlawful, hlast⟩, hrun⟩, hrates⟩ := htest
  obtain ⟨w', hw', -⟩ := exists_of_returns hrun
  obtain ⟨t, ht, hall⟩ := exists_of_returns hrates
  have hreach := reachable_afterVotes rfl hw
  refine ⟨w, w', hreach, hw', (endBlocker_rates_positive_iff (keepersLawful_static _ _ _ _)
    (sqrtBounded_tableHost _) (parsesNonneg_tableHost _) hreach (stakingLawful_static hlawful)
    hlast (by norm_num) (by rw [hw']; simp)).mp ⟨by rw [hw']; simp, ?_⟩⟩
  intro t' ht' d x hx
  obtain rfl := Except.ok.inj (ht.symm.trans ht')
  exact of_decide_eq_true (List.all_eq_true.mp hall (d, x)
    (ExtTreeMap.mem_toList_iff_getElem?_eq_some.mpr hx))

end ColumbusCore.Oracle
