import ColumbusCore.Oracle.Positivity

/-!
When the votes of a block keep its arithmetic within the bit limit.

A message is checked rate by rate, but the tally divides two rates of the same voter by each
other, and the quotient of two admitted rates can have up to 375 bits. The rate of a denom
overflows in one of three places: a cross rate, the upper end of the reward band, the final
quotient.

* `rateOf_overflow_iff`, `VotesFit`: the three places, in terms of the ballots;
* `tallyVotes_eq_overflow`: a block may visit the overflowing denom first;
* `endBlocker_overflow_free_iff`: a block overflows in no order of its loops exactly when its
  votes fit;
* `QuotientWithin`, `BandWithin`, `VotesWithin`: inequalities between the rates of the votes and
  between the medians of the ballots;
* `endBlocker_overflow_free`: **votes within these bounds overflow in no order of the loops, and for
  a reward band of two units or more no others do**.
-/

namespace ColumbusCore.Oracle

open Go WeightedMedian
open Std (ExtTreeMap)

variable {σ : Type}

/-! ### The places of overflow -/

/-- A ballot whose conversion stays within the bit limit: every cross rate does, the band around
their median, and the quotient of the medians. -/
structure ConversionFits (H : Host) (rewardBand : Dec) (ref b : ExchangeRateBallot) : Prop where
  votes : CrossFits ref b
  band : ∀ m, IsBallotMedian (b.map (crossed ref)) m → BandFits H rewardBand (b.map (crossed ref)) m
  quotient : ∀ R m, IsBallotMedian ref R → IsBallotMedian (b.map (crossed ref)) m → m.raw ≠ 0 →
    Fixed.Fits decFormat (Fixed.quoRaw decFormat R.raw m.raw)

lemma talliedMedian_eq_overflow_iff {H : Host} {rewardBand : Dec} {b : ExchangeRateBallot} :
    talliedMedian H rewardBand b = .error (.panic .overflow)
      ↔ ¬ BandFits H rewardBand b (medianOf b) := by
  rw [talliedMedian]
  split_ifs with h <;> simp [h]

/-- The rate of a denom other than the reference overflows exactly when its ballot does not
stay within the bit limit. -/
lemma rateOf_overflow_iff {H : Host} {rewardBand : Dec} {r d : Denom} {ref b : ExchangeRateBallot}
    (href : GoodBallot ref) (hb : GoodBallot b) (hd : d ≠ r) :
    rateOf H rewardBand r ref d b = .error (.panic .overflow)
      ↔ ¬ ConversionFits H rewardBand ref b := by
  have hmed := href.isBallotMedian
  have hmed' := hb.isBallotMedian_crossed ref
  rw [rateOf, if_neg hd]
  by_cases hfits : CrossFits ref b
  · rw [if_pos hfits, talliedMedian]
    by_cases hband : BandFits H rewardBand (b.map (crossed ref)) (medianOf (b.map (crossed ref)))
    · rw [if_pos hband, ok_bind, Fixed.quo_eq_error_iff]
      constructor
      · rintro (⟨-, he⟩ | ⟨hm0, hquo, -⟩)
        · simp at he
        · exact fun hw => hquo (hw.quotient _ _ hmed hmed' hm0)
      · intro hw
        by_contra hno
        push Not at hno
        refine hw ⟨hfits, fun m hm => ?_, fun R m hR hm hm0 => ?_⟩
        · rwa [IsLeast.unique hm hmed']
        · rw [IsLeast.unique hm hmed'] at hm0 ⊢
          rw [IsLeast.unique hR hmed]
          by_contra hquo
          exact hno.2 hm0 hquo rfl
    · rw [if_neg hband, error_bind]
      simp only [true_iff]
      exact fun hw => hband (hw.band _ hmed')
  · rw [if_neg hfits]
    simp only [true_iff]
    exact fun hw => hfits hw.votes

/-- The votes of the block keep its tally within the bit limit: the band around the reference
median does, and every other passing ballot in its conversion. -/
def VotesFit (K : Keepers σ) (H : Host) (w : World σ) : Prop :=
  ∀ ballots threshold r ref, BlockBallots K H w ballots threshold → r ≠ "" →
    IsReference w.store.tobinTaxes ballots threshold r ref →
    (∀ R, IsBallotMedian ref R → BandFits H w.store.params.rewardBand ref R)
      ∧ ∀ d b, d ≠ r → Passing w.store.tobinTaxes ballots threshold d b →
        ConversionFits H w.store.params.rewardBand ref b

section Block

variable {K : Keepers σ} {H : Host} {S : Schedule} {height : ℕ} {w : World σ}

/-- Votes that fit are those for which no rate of the block overflows. -/
lemma votesFit_iff (hs : StakingLawful K w.ext) (hw : w.store.Sound H) :
    VotesFit K H w ↔ ∀ ballots threshold r ref d b, BlockBallots K H w ballots threshold →
      r ≠ "" → IsReference w.store.tobinTaxes ballots threshold r ref →
      Passing w.store.tobinTaxes ballots threshold d b →
      rateOf H w.store.params.rewardBand r ref d b ≠ .error (.panic .overflow) := by
  constructor
  · intro hfit ballots θ r ref d b hblock hr href hpass h
    have hgood := hblock.good hs hw
    obtain ⟨hband, hcross⟩ := hfit ballots θ r ref hblock hr href
    have hgref := hgood r ref href.1.2.1
    by_cases hd : d = r
    · rw [rateOf, if_pos hd, talliedMedian_eq_overflow_iff] at h
      exact h (hband _ (isBallotMedian_medianOf hgref.powers hgref.ne_nil))
    · exact (rateOf_overflow_iff hgref (hgood d b hpass.2.1) hd).mp h (hcross d b hd hpass)
  · intro hall ballots θ r ref hblock hr href
    have hgood := hblock.good hs hw
    have hgref := hgood r ref href.1.2.1
    refine ⟨fun R hR => ?_, fun d b hd hpass => ?_⟩
    · have h := hall ballots θ r ref r ref hblock hr href href.1
      rw [rateOf, if_pos rfl, Ne, talliedMedian_eq_overflow_iff, not_not] at h
      rwa [IsLeast.unique hR (isBallotMedian_medianOf hgref.powers hgref.ne_nil)]
    · by_contra hno
      exact hall ballots θ r ref d b hblock hr href hpass
        ((rateOf_overflow_iff hgref (hgood d b hpass.2.1) hd).mpr hno)

/-- Where the rate of a passing denom overflows, the block that visits it first overflows. -/
lemma tallyVotes_eq_overflow (hH : H.SqrtBounded) (hs : StakingLawful K w.ext)
    (hw : w.store.Sound H) (hb : outOfUnit w.store.params.rewardBand = false) {ballots : BallotMap}
    {threshold : ℤ} {r d : Denom} {ref b : ExchangeRateBallot}
    (hblock : BlockBallots K H w ballots threshold) (hr : r ≠ "")
    (href : IsReference w.store.tobinTaxes ballots threshold r ref)
    (hpass : Passing w.store.tobinTaxes ballots threshold d b)
    (h : rateOf H w.store.params.rewardBand r ref d b = .error (.panic .overflow)) :
    tallyVotes K H { Schedule.listed with rangeTally := .first d } w
      = .error (.panic .overflow) := by
  obtain ⟨claims₀, hc₀, rfl, ht⟩ := hblock
  obtain ⟨ballots, claims, p, hblock, hp, heq⟩ :=
    tallyVotes_eq { Schedule.listed with rangeTally := .first d } hs ht
  obtain ⟨rfl, -⟩ := hblock.unique ⟨claims₀, hc₀, rfl, ht⟩
  have hpr : p.referenceTerra = r := by
    rcases hp.reference with ⟨-, hno⟩ | ⟨ref', href'⟩
    · exact absurd hpass (hno d b)
    · exact (href'.unique href).1
  rw [← hpr] at href h hr
  rw [heq, map_eq_error_iff, updateRates, if_neg hr, hp.getD_reference href]
  -- the first entry visited is the ballot of `d`
  have hmem : p.voteMap[d]? = some (Schedule.listed.sort b) :=
    (hp.ballots_iff d _).mpr ⟨b, hpass, rfl⟩
  obtain ⟨e, rest, hvisit, he⟩ :=
    RangeOrder.visit_first (ExtTreeMap.mem_toList_iff_getElem?_eq_some.mpr hmem)
  have hentry : (e.1, e.2) ∈ (RangeOrder.first d).visit p.voteMap.toList := by
    rw [hvisit]
    simp
  have he2 : e = (d, Schedule.listed.sort b) := by
    rw [RangeOrder.mem_visit_toList, he, hmem] at hentry
    exact Prod.ext he (Option.some.inj hentry).symm
  show ((RangeOrder.first d).visit p.voteMap.toList).foldlM _ _ = _
  rw [hvisit, List.foldlM_cons, he2]
  have hround := updateRate_passing (S := { Schedule.listed with rangeTally := .first d }) hH hb
    (hblock.good hs hw) href hpass ⟨∅, claims⟩
  rw [h] at hround
  rw [map_eq_error_iff.mp hround, error_bind]

/-! ### Weights -/

lemma nonnegWeights_tally {pb : ExchangeRateBallot} (hpb : NonnegPowers pb) {rewardBand : Dec}
    {claims : ClaimMap} (hc : NonnegWeights claims) {t : Dec × ClaimMap}
    (h : tally H pb rewardBand claims = .ok t) : NonnegWeights t.2 := by
  obtain ⟨-, s, hloop⟩ := tally_eq_ok h
  refine foldlM_invariant NonnegWeights hloop hc fun v hv acc acc' hacc hround => ?_
  obtain ⟨within, -, hround⟩ := bind_eq_ok.mp hround
  split_ifs at hround
  · obtain rfl := Except.ok.inj hround
    intro k x hx
    rw [ExtTreeMap.getElem?_insert] at hx
    split_ifs at hx with hk
    · obtain rfl := Option.some.inj hx
      have hpow := hpb v hv
      have hold : 0 ≤ (acc.getD (H.valString v.voter) default).weight := by
        rw [ExtTreeMap.getD_eq_getD_getElem?]
        cases hg : acc[H.valString v.voter]? with
        | none => exact le_rfl
        | some x => exact hacc _ x hg
      show 0 ≤ (acc.getD (H.valString v.voter) default).weight + v.power
      omega
    · exact hacc k x hx
  · obtain rfl := Except.ok.inj hround
    exact hacc

/-- The claims a tally hands on have nonnegative weights. -/
lemma nonnegWeights_tallyVotes (hs : StakingLawful K w.ext) (hw : w.store.Sound H) {t : Tallied}
    (h : tallyVotes K H S w = .ok t) : NonnegWeights t.claims := by
  obtain ⟨claims, hc, hfresh⟩ := activeClaims_eq_ok H hs
  have hgood : ∀ (d : Denom) b, (collectBallots w.store claims)[d]? = some b → GoodBallot b :=
    fun d b hb => goodBallot_of_collectBallots hw.votes hfresh hb
  rw [tallyVotes, hc, ok_bind] at h
  obtain ⟨p, hp, h⟩ := bind_eq_ok.mp h
  obtain ⟨s, hs', h⟩ := bind_eq_ok.mp h
  obtain rfl := Except.ok.inj h
  obtain ⟨θ, -, hspec⟩ := pickReferenceTerra_spec hp
  have hweights : NonnegWeights claims := fun k c hk => (hfresh k c hk).2.1.ge
  show NonnegWeights s.claims
  rw [updateRates] at hs'
  split_ifs at hs'
  · obtain rfl := Except.ok.inj hs'
    exact hweights
  · refine foldlM_invariant (fun s : RateState => NonnegWeights s.claims) hs' hweights ?_
    rintro ⟨d, b'⟩ hmem c c' hc' hround
    obtain ⟨b, hpass, rfl⟩ := hspec.mem_visit.mp hmem
    have hpow : NonnegPowers (S.sort b) := (hgood d b hpass.2.1).powers.perm (S.sort_perm b).symm
    rw [updateRate] at hround
    split_ifs at hround
    · obtain ⟨t, ht, hround⟩ := bind_eq_ok.mp hround
      obtain rfl := Except.ok.inj hround
      exact nonnegWeights_tally hpow hc' ht
    · obtain ⟨cb, hcb, hround⟩ := bind_eq_ok.mp hround
      obtain ⟨t, ht, hround⟩ := bind_eq_ok.mp hround
      obtain ⟨_, -, hround⟩ := bind_eq_ok.mp hround
      obtain rfl := Except.ok.inj hround
      exact nonnegWeights_tally (nonnegPowers_toCrossRateWithSort hpow hcb) hc' ht

/-- Votes that fit. At the last block of a vote period with admitted votes, a bounded reward pool and
a threshold that is a number, the block overflows in no order of its loops exactly when its votes
fit. -/
lemma endBlocker_overflow_free_iff (hK : ∀ S, KeepersLawful K H S height w) (hH : H.SqrtBounded)
    (hw : w.store.Sound H) (hs : StakingLawful K w.ext)
    (hlast : IsPeriodLast height w.store.params.votePeriod.toNat) (hh : height + 1 < 2 ^ 63)
    (hwindow : w.store.params.rewardDistributionWindow.toNat < 2 ^ 63)
    (hpool : PoolBounded K w.ext)
    (hthreshold : ∃ n, thresholdVotes K w.ext w.store.params.voteThreshold = .ok n) :
    (∀ S, endBlocker K H S height w ≠ .error (.panic .overflow)) ↔ VotesFit K H w := by
  have hp := validParams_of_validate hw.params
  rw [votesFit_iff hs hw]
  constructor
  · intro hall ballots θ r ref d b hblock hr href hpass h
    have ht := tallyVotes_eq_overflow hH hs hw hp.rewardBand hblock hr href hpass h
    refine hall { Schedule.listed with rangeTally := .first d } ?_
    rw [endBlocker_of_last hlast, ht, error_bind]
  · intro hfit S
    rw [endBlocker_of_last hlast]
    refine bind_ne_error (fun h => ?_) fun t ht => bind_ne_error
      (settlePeriod_ne_overflow (hK S) hp hwindow hpool ht (nonnegWeights_tallyVotes hs hw ht))
      fun w' hw' => closeSlashWindow_settled_ne_arithmetic (Or.inr rfl) (hK S) hh hp ht hw'
    rcases tallyVotes_eq_error hH hs hw hp.rewardBand h with
      h | ⟨ballots, θ, r, ref, d, b, hblock, hr, href, hpass, h⟩
    · obtain ⟨n, hn⟩ := hthreshold
      exact absurd (hn.symm.trans h) (by simp)
    · exact hfit ballots θ r ref d b hblock hr href hpass h

end Block

/-! ### Bounds on rates and medians -/

/-- The quotient of two rates is at least half a unit below the bit limit. -/
def QuotientWithin (x y : Dec) : Prop := 2 * 10 ^ 18 * x.raw < (2 ^ 316 - 1) * y.raw

/-- A median and half of the reward band around it are below the bit limit, and so are the median
and `2 ^ 189`, which no standard deviation reaches. -/
def BandWithin (rewardBand m : Dec) : Prop :=
  m.raw + max (Rounding.halfEven (m.raw * (rewardBand.raw / 2)) (10 ^ 18)) (2 ^ 189) < 2 ^ 315

/-- The bounds on a ballot next to the reference ballot: the rates of a voter on both, the median of
their quotients, and the two medians. -/
structure CrossWithin (rewardBand : Dec) (ref b : ExchangeRateBallot) : Prop where
  votes : ∀ v ∈ b, ∀ rate, (toMap ref)[v.voter]? = some rate → 0 < v.exchangeRate.raw →
    QuotientWithin rate v.exchangeRate
  band : ∀ m, IsBallotMedian (b.map (crossed ref)) m → BandWithin rewardBand m
  quotient : ∀ R m, IsBallotMedian ref R → IsBallotMedian (b.map (crossed ref)) m → m.raw ≠ 0 →
    QuotientWithin R m

/-- The bounds on the votes of a block. -/
def VotesWithin (K : Keepers σ) (H : Host) (w : World σ) : Prop :=
  ∀ ballots threshold r ref, BlockBallots K H w ballots threshold → r ≠ "" →
    IsReference w.store.tobinTaxes ballots threshold r ref →
    (∀ R, IsBallotMedian ref R → BandWithin w.store.params.rewardBand R)
      ∧ ∀ d b, d ≠ r → Passing w.store.tobinTaxes ballots threshold d b →
        CrossWithin w.store.params.rewardBand ref b

/-- The square root of a decimal in floating point, printed with six decimals, is at most twice the
exact one and a unit. -/
def Host.SqrtNear (H : Host) : Prop :=
  ∀ v : Dec, 0 ≤ v.raw → (H.floatSqrt v).raw ^ 2 ≤ 4 * v.raw * 10 ^ 18 + 10 ^ 36

lemma quotientWithin_iff {x y : Dec} (hx : 0 ≤ x.raw) (hy : 0 < y.raw) :
    QuotientWithin x y ↔ Fixed.Fits decFormat (Fixed.quoRaw decFormat x.raw y.raw) :=
  (Fixed.fits_quoRaw_iff (F := decFormat) hx hy (by decide) (by decide)).symm

/-- The bit limit of a raw result that is not negative. -/
lemma fits_iff {x : ℤ} (hx : 0 ≤ x) : Fixed.Fits decFormat x ↔ x < 2 ^ 315 := by
  have hlimit : (2 : ℤ) ^ 315 = ((2 ^ decFormat.decBits : ℕ) : ℤ) := by
    rw [Nat.cast_pow]
    rfl
  rw [hlimit, Fixed.Fits, ← Int.ofNat_lt, Int.natCast_natAbs, abs_of_nonneg hx]

/-- The median of a ballot is the rate of a vote. -/
lemma IsBallotMedian.exists_vote {b : ExchangeRateBallot} (hpow : NonnegPowers b) (hne : b ≠ [])
    {m : Dec} (hm : IsBallotMedian b m) : ∃ v ∈ b, m = v.exchangeRate := by
  have hsorted : Schedule.listed.sort b ≠ [] := fun h =>
    hne (List.perm_nil.mp (h ▸ (Schedule.listed.sort_perm b).symm))
  obtain ⟨v, hv, -, hmedian⟩ :=
    exists_weightedMedian (hpow.perm (Schedule.listed.sort_perm b).symm) hsorted
  refine ⟨v, (Schedule.listed.sort_perm b).mem_iff.mp hv, ?_⟩
  rw [← hmedian, ← (weightedMedian_sort Schedule.listed hpow hne).mp hm]

section Band

variable {H : Host} {rewardBand m : Dec} {b : ExchangeRateBallot}

/-- A variance is a decimal that is not negative. -/
lemma variance_bounds {v : Dec} (h : variance b m = .ok v) : 0 ≤ v.raw ∧ v.raw < 2 ^ 315 := by
  obtain ⟨sum, hsum, hquo⟩ := bind_eq_ok.mp h
  obtain ⟨hsum0, hsum1⟩ : 0 ≤ sum.raw ∧ sum.raw < 2 ^ 315 := by
    refine foldlM_invariant (fun s : Dec => 0 ≤ s.raw ∧ s.raw < 2 ^ 315) hsum
      ⟨le_rfl, by positivity⟩ ?_
    rintro v - s s' ⟨hs0, -⟩ hround
    obtain ⟨square, hsquare, hadd⟩ := bind_eq_ok.mp hround
    obtain ⟨hfit, rfl⟩ := Fixed.checked_eq_ok_iff.mp hadd
    have hnonneg := add_nonneg hs0 (squaredDeviation_nonneg hsquare)
    exact ⟨hnonneg, (fits_iff hnonneg).mp hfit⟩
  rw [Fixed.quoInt] at hquo
  split_ifs at hquo with hlen
  · simp [panicked] at hquo
  · obtain rfl := Except.ok.inj hquo
    rw [Int.tdiv_eq_ediv_of_nonneg hsum0]
    exact ⟨Int.ediv_nonneg hsum0 (by positivity),
      (Int.ediv_le_self _ hsum0).trans_lt hsum1⟩

/-- No standard deviation reaches `2 ^ 189`. -/
lemma standardDeviation_lt (hH : H.SqrtNear) : (standardDeviation H b m).raw < 2 ^ 189 := by
  rw [standardDeviation]
  split_ifs
  · exact pow_pos (by norm_num) _
  · cases hv : variance b m with
    | error e => exact pow_pos (by norm_num) _
    | ok v =>
        obtain ⟨hv0, hv1⟩ := variance_bounds hv
        have hsq := hH v hv0
        have hlimit : ((2 : ℤ) ^ 189) ^ 2 = 2 ^ 315 * 2 ^ 63 := by rw [← pow_mul, ← pow_add]
        have hlarge : (10 : ℤ) ^ 36 ≤ 2 ^ 315 :=
          (show (10 : ℤ) ^ 36 ≤ 2 ^ 120 by norm_num).trans
            (pow_le_pow_right₀ (by norm_num) (by norm_num))
        refine lt_of_pow_lt_pow_left₀ 2 (by positivity) ?_
        rw [hlimit]
        show (H.floatSqrt v).raw ^ 2 < 2 ^ 315 * 2 ^ 63
        generalize (2 : ℤ) ^ 315 = limit at hv1 hlarge ⊢
        linarith

/-- The reward spread is half of the band around the median, or the standard deviation. -/
lemma rewardSpread_raw {s : Dec} (hb : outOfUnit rewardBand = false)
    (h : rewardSpread H b m rewardBand = .ok s) :
    s.raw = max (Rounding.halfEven (m.raw * (rewardBand.raw / 2)) (10 ^ 18))
      (standardDeviation H b m).raw := by
  rw [rewardSpread, Fixed.quoInt_eq_ok (by norm_num), ok_bind,
    Int.tdiv_eq_ediv_of_nonneg (outOfUnit_eq_false.mp hb).1] at h
  obtain ⟨spread, hspread, h⟩ := bind_eq_ok.mp h
  obtain ⟨-, rfl⟩ := Fixed.checked_eq_ok_iff.mp hspread
  obtain rfl := Except.ok.inj h
  split_ifs with hlt
  · exact (max_eq_right (Fixed.lt_def.mp hlt).le).symm
  · exact (max_eq_left (Fixed.le_def.mp (not_lt.mp hlt))).symm

/-- A median within the bound has its band in the bit limit. -/
lemma BandWithin.bandFits (hH : H.SqrtNear) (hb : outOfUnit rewardBand = false) (hm : 0 ≤ m.raw)
    (h : BandWithin rewardBand m) : BandFits H rewardBand b m := by
  intro s hs
  have hsd := standardDeviation_lt (b := b) (m := m) hH
  have hhalf : 0 ≤ Rounding.halfEven (m.raw * (rewardBand.raw / 2)) (10 ^ 18) :=
    Rounding.halfEven_nonneg (mul_nonneg hm
      (Int.ediv_nonneg (outOfUnit_eq_false.mp hb).1 (by norm_num)))
  rw [rewardSpread_raw hb hs]
  refine (fits_iff (add_nonneg hm (le_max_of_le_left hhalf))).mpr (lt_of_le_of_lt ?_ h)
  exact add_le_add_right (max_le_max_left _ hsd.le) _

/-- And for a band of two units or more only such medians have: a median that the standard
deviation could push past the limit has a wider band itself. -/
lemma bandWithin_of_bandFits (hH : H.SqrtBounded) (hb : outOfUnit rewardBand = false)
    (hwide : 2 ≤ rewardBand.raw) (hm : 0 ≤ m.raw) (hfit : Fixed.Fits decFormat m.raw)
    (h : BandFits H rewardBand b m) : BandWithin rewardBand m := by
  obtain ⟨s, hs, hs0, -⟩ := exists_rewardSpread hH hb hm hfit b
  have hband := (fits_iff (add_nonneg hm hs0)).mp (h s hs)
  rw [rewardSpread_raw hb hs] at hband
  have hsplit : (2 : ℤ) ^ 315 = 2 ^ 189 * 2 ^ 126 := by rw [← pow_add]
  have hpos : (0 : ℤ) < 2 ^ 189 := by positivity
  have hlow : m.raw + Rounding.halfEven (m.raw * (rewardBand.raw / 2)) (10 ^ 18) < 2 ^ 315 :=
    lt_of_le_of_lt (add_le_add_right (le_max_left _ _) _) hband
  rw [hsplit] at hlow
  rw [BandWithin, hsplit]
  generalize (2 : ℤ) ^ 189 = reach at hpos hlow ⊢
  rcases le_total reach (Rounding.halfEven (m.raw * (rewardBand.raw / 2)) (10 ^ 18))
    with hle | hle
  · rwa [max_eq_left hle]
  · rw [max_eq_right hle]
    by_contra hno
    have hmul : m.raw ≤ m.raw * (rewardBand.raw / 2) :=
      le_mul_of_one_le_right hm (by omega)
    have hhalf : reach ≤ Rounding.halfEven (m.raw * (rewardBand.raw / 2)) (10 ^ 18) :=
      Rounding.le_halfEven_of_mul_le (by norm_num) (hm.trans hmul)
        (le_trans (by push_cast; linarith) hmul)
    exact hno (by rwa [le_antisymm hle hhalf] at hlow)

end Band

section Votes

variable {H : Host} {rewardBand : Dec} {ref b : ExchangeRateBallot}

/-- The bound on the rates of a voter is the bit limit of the cross rate. -/
lemma crossFits_iff :
    CrossFits ref b ↔ ∀ v ∈ b, ∀ rate, (toMap ref)[v.voter]? = some rate →
      0 < v.exchangeRate.raw → QuotientWithin rate v.exchangeRate := by
  refine forall₂_congr fun v hv => ?_
  by_cases hshared : Shared ref v
  · obtain ⟨rate, hrate⟩ :=
      Option.isSome_iff_exists.mp (ExtTreeMap.mem_iff_isSome_getElem?.mp hshared.1)
    have hraw : crossRaw ref v = Fixed.quoRaw decFormat rate.raw v.exchangeRate.raw := by
      rw [crossRaw, if_pos hshared, ExtTreeMap.getD_eq_getD_getElem?, hrate]
      rfl
    have hpos : 0 < rate.raw := isPositive_of_toMap hrate
    rw [hraw, ← quotientWithin_iff hpos.le hshared.2]
    refine ⟨fun h rate' hrate' _ => ?_, fun h => h rate hrate hshared.2⟩
    rwa [← Option.some.inj (hrate.symm.trans hrate')]
  · rw [crossRaw, if_neg hshared]
    refine iff_of_true ((fits_iff le_rfl).mpr (by positivity)) fun rate hrate hpos => ?_
    exact absurd ⟨mem_of_getElem?_eq_some hrate, hpos⟩ hshared

/-- The median of a ballot of admitted votes is one of their rates. -/
lemma GoodBallot.median_fits (hb : GoodBallot b) {m : Dec} (hm : IsBallotMedian b m) :
    0 ≤ m.raw ∧ Fixed.Fits decFormat m.raw := by
  obtain ⟨v, hv, rfl⟩ := hm.exists_vote hb.powers hb.ne_nil
  exact hb.rates v hv

lemma GoodBallot.crossed_median_fits (hb : GoodBallot b) (hcross : CrossFits ref b) {m : Dec}
    (hm : IsBallotMedian (b.map (crossed ref)) m) : 0 ≤ m.raw ∧ Fixed.Fits decFormat m.raw := by
  obtain ⟨v, hv, rfl⟩ := hm.exists_vote (nonnegPowers_crossed hb.powers) (by simpa using hb.ne_nil)
  exact ratesFit_crossed hcross v hv

/-- A ballot within the bounds is converted within the bit limit. -/
lemma CrossWithin.fits (hH : H.SqrtNear) (hband : outOfUnit rewardBand = false)
    (href : GoodBallot ref) (hb : GoodBallot b) (h : CrossWithin rewardBand ref b) :
    ConversionFits H rewardBand ref b := by
  have hcross : CrossFits ref b := crossFits_iff.mpr h.votes
  refine ⟨hcross, fun m hm => (h.band m hm).bandFits hH hband (hb.crossed_median_fits hcross hm).1,
    fun R m hR hm hm0 => ?_⟩
  have hm' := lt_of_le_of_ne (hb.crossed_median_fits hcross hm).1 hm0.symm
  exact (quotientWithin_iff (href.median_fits hR).1 hm').mp (h.quotient R m hR hm hm0)

/-- And for a band of two units or more no other ballot is. -/
lemma ConversionFits.within (hH : H.SqrtBounded) (hband : outOfUnit rewardBand = false)
    (hwide : 2 ≤ rewardBand.raw) (href : GoodBallot ref) (hb : GoodBallot b)
    (h : ConversionFits H rewardBand ref b) : CrossWithin rewardBand ref b := by
  refine ⟨crossFits_iff.mp h.votes, fun m hm => ?_, fun R m hR hm hm0 => ?_⟩
  · obtain ⟨hm0, hfit⟩ := hb.crossed_median_fits h.votes hm
    exact bandWithin_of_bandFits hH hband hwide hm0 hfit (h.band m hm)
  · have hm' := lt_of_le_of_ne (hb.crossed_median_fits h.votes hm).1 hm0.symm
    exact (quotientWithin_iff (href.median_fits hR).1 hm').mpr (h.quotient R m hR hm hm0)

variable {K : Keepers σ} {w : World σ}

lemma VotesWithin.fit (hH : H.SqrtNear) (hs : StakingLawful K w.ext) (hw : w.store.Sound H)
    (h : VotesWithin K H w) : VotesFit K H w := by
  intro ballots θ r ref hblock hr href
  have hband := (validParams_of_validate hw.params).rewardBand
  have hgood := hblock.good hs hw
  have hgref := hgood r ref href.1.2.1
  obtain ⟨hmedian, hcross⟩ := h ballots θ r ref hblock hr href
  refine ⟨fun R hR => ?_, fun d b hd hpass => ?_⟩
  · exact (hmedian R hR).bandFits hH hband (hgref.median_fits hR).1
  · exact (hcross d b hd hpass).fits hH hband hgref (hgood d b hpass.2.1)

lemma VotesFit.within (hH : H.SqrtBounded) (hs : StakingLawful K w.ext) (hw : w.store.Sound H)
    (hwide : 2 ≤ w.store.params.rewardBand.raw) (h : VotesFit K H w) : VotesWithin K H w := by
  intro ballots θ r ref hblock hr href
  have hband := (validParams_of_validate hw.params).rewardBand
  have hgood := hblock.good hs hw
  have hgref := hgood r ref href.1.2.1
  obtain ⟨hmedian, hcross⟩ := h ballots θ r ref hblock hr href
  refine ⟨fun R hR => ?_, fun d b hd hpass => ?_⟩
  · obtain ⟨hR0, hfit⟩ := hgref.median_fits hR
    exact bandWithin_of_bandFits hH hband hwide hR0 hfit (hmedian R hR)
  · exact (hcross d b hd hpass).within hH hband hwide hgref (hgood d b hpass.2.1)

/-- **Votes within the bounds.** At the last block of a vote period with admitted votes, a bounded
reward pool and a threshold that is a number, votes within the bounds overflow in no order of the
loops. For a reward band of two units or more these are the only ones. -/
theorem endBlocker_overflow_free {height : ℕ} (hK : ∀ S, KeepersLawful K H S height w)
    (hH : H.SqrtBounded) (hsqrt : H.SqrtNear) (hw : w.store.Sound H) (hs : StakingLawful K w.ext)
    (hlast : IsPeriodLast height w.store.params.votePeriod.toNat) (hh : height + 1 < 2 ^ 63)
    (hwindow : w.store.params.rewardDistributionWindow.toNat < 2 ^ 63)
    (hpool : PoolBounded K w.ext)
    (hthreshold : ∃ n, thresholdVotes K w.ext w.store.params.voteThreshold = .ok n) :
    (VotesWithin K H w → ∀ S, endBlocker K H S height w ≠ .error (.panic .overflow))
      ∧ (2 ≤ w.store.params.rewardBand.raw →
        (∀ S, endBlocker K H S height w ≠ .error (.panic .overflow)) → VotesWithin K H w) := by
  have hiff := endBlocker_overflow_free_iff hK hH hw hs hlast hh hwindow hpool hthreshold
  exact ⟨fun hfit => hiff.mpr (hfit.fit hsqrt hs hw),
    fun hwide hfree => (hiff.mp hfree).within hH hs hw hwide⟩

end Votes

/-! ### One small validator -/

/-- The texts of a validator that gives the won a huge rate and the dollar the smallest one, and
of a validator with ordinary rates. -/
def extremeTables : Tables where
  accounts := twoAccounts
  hashes :=
    [("1:0.000000000000000001uusd,1000000000000000000000000000000000000000000000000000000000000ukrw:terravaloper1weskc6tyv96x7u3dvykk7e3dw3jhyunpwz6935",
        "3a5fd594bcf556af00468283fc8b0f7da21cbe9f"),
      ("1:1.0uusd,1200.0ukrw:terravaloper1weskc6tyv96x7u3dvgkk7e3dw3jhyunpdv73a5",
        "31125a92b54ce6065e3685b068c5a6b8ab6ed8c0")]
  coins :=
    [("0.000000000000000001uusd", "uusd", 1),
      ("1000000000000000000000000000000000000000000000000000000000000ukrw", "ukrw", 10 ^ 78),
      ("1.0uusd", "uusd", 10 ^ 18), ("1200.0ukrw", "ukrw", 1200 * 10 ^ 18)]

/-- The validator with the extreme rates has one percent of the power. -/
def lopsidedValidators : List Validator :=
  [⟨"validator-b-of-terra", 99 * 10 ^ 6, true, false, some "b"⟩,
    ⟨"validator-a-of-terra", 1 * 10 ^ 6, true, false, some "a"⟩]

/-- The chain after their votes. -/
def afterExtremeVotes : Outcome (World (List Validator)) :=
  afterVotes extremeTables blockParams lopsidedValidators
    (twoVotes "0.000000000000000001uusd,1000000000000000000000000000000000000000000000000000000000000ukrw" "1.0uusd,1200.0ukrw")

/-- What the run shows: the chain comes to these votes, and its end blocker overflows. -/
lemma exists_afterExtremeVotes :
    ∃ w, Reachable staticKeepers (tableHost extremeTables) (2, w)
      ∧ StakingLawful staticKeepers w.ext ∧ IsPeriodLast 2 w.store.params.votePeriod.toNat
      ∧ w.store.params.rewardDistributionWindow.toNat < 2 ^ 63
      ∧ (∃ n, thresholdVotes staticKeepers w.ext w.store.params.voteThreshold = .ok n)
      ∧ endBlocker staticKeepers (tableHost extremeTables) Schedule.listed 2 w
        = .error (.panic .overflow) := by
  obtain ⟨w, hw, htest⟩ := exists_of_returns
    (p := fun w : World (List Validator) => decide (StaticLawful w.ext
        ∧ IsPeriodLast 2 w.store.params.votePeriod.toNat
        ∧ w.store.params.rewardDistributionWindow.toNat < 2 ^ 63)
      && returns (fun _ => true)
        (thresholdVotes staticKeepers w.ext w.store.params.voteThreshold)
      && panicsWith .overflow
        (endBlocker staticKeepers (tableHost extremeTables) Schedule.listed 2 w))
    (x := afterExtremeVotes) (by decide +kernel)
  rw [Bool.and_eq_true, Bool.and_eq_true, decide_eq_true_eq] at htest
  obtain ⟨⟨⟨hlawful, hlast, hwindow⟩, hthreshold⟩, hrun⟩ := htest
  obtain ⟨n, hn, -⟩ := exists_of_returns hthreshold
  exact ⟨w, reachable_afterVotes rfl hw, stakingLawful_static hlawful, hlast, hwindow, ⟨n, hn⟩,
    eq_of_panicsWith hrun⟩

/-- The votes of one validator with one percent of the power halt the chain: each of its rates
has at most 260 bits, their quotient has more than 315. -/
theorem endBlocker_overflow_of_one_validator :
    ∃ w, Reachable staticKeepers (tableHost extremeTables) (2, w)
      ∧ StakingLawful staticKeepers w.ext ∧ IsPeriodLast 2 w.store.params.votePeriod.toNat
      ∧ endBlocker staticKeepers (tableHost extremeTables) Schedule.listed 2 w
        = .error (.panic .overflow) := by
  obtain ⟨w, hreach, hlawful, hlast, -, -, hrun⟩ := exists_afterExtremeVotes
  exact ⟨w, hreach, hlawful, hlast, hrun⟩

lemma sqrtNear_tableHost (T : Tables) : (tableHost T).SqrtNear := by
  intro v hv
  show (0 : ℤ) ^ 2 ≤ _
  positivity

/-- So the votes of that state are not within the bounds. -/
theorem not_votesWithin_of_one_validator :
    ∃ w, Reachable staticKeepers (tableHost extremeTables) (2, w)
      ∧ ¬ VotesWithin staticKeepers (tableHost extremeTables) w := by
  obtain ⟨w, hreach, hlawful, hlast, hwindow, hthreshold, hrun⟩ := exists_afterExtremeVotes
  refine ⟨w, hreach, fun hfit => ?_⟩
  exact (endBlocker_overflow_free (fun _ => keepersLawful_static _ _ _ _) (sqrtBounded_tableHost _)
    (sqrtNear_tableHost _) (sound_of_reachable (parsesNonneg_tableHost _) hreach) hlawful hlast
    (by norm_num) hwindow (poolBounded_static _) hthreshold).1 hfit Schedule.listed hrun

end ColumbusCore.Oracle
