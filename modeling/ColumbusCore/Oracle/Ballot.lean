import ColumbusCore.Lib.WeightedMedian
import ColumbusCore.Oracle.Types

/-!
Ballots and their tally (`types/ballot.go`, `tally.go`).

* `toMap`, `toCrossRate`, `toCrossRateWithSort`, `power`, `weightedMedian`,
  `standardDeviation`: the methods of `ExchangeRateBallot`;
* `tally`: the median of a ballot, and the claims of the voters near it;
* `isMedian_weightedMedian`: the median of a sorted ballot is the least rate whose votes carry
  half of the power;
* `standardDeviation_perm`: the standard deviation does not see the order of the ballot;
* `tally_eq_error_iff`: the tally of a ballot can only overflow, and does so exactly at the
  upper end of the reward band.
-/

namespace ColumbusCore.Oracle

open Go WeightedMedian
open Std (ExtTreeMap)

/-! ### Methods of a ballot -/

/-- `ToMap`: the rate of each voter that did not abstain. -/
def toMap (pb : ExchangeRateBallot) : ExtTreeMap ValAddress Dec :=
  pb.foldl (fun m v => if v.exchangeRate.IsPositive then m.insert v.voter v.exchangeRate else m) ∅

/-- A vote without a usable rate. -/
def VoteForTally.abstained (v : VoteForTally) : VoteForTally :=
  { v with exchangeRate := 0, power := 0 }

/-- One round of `ToCrossRate`: the rate against the voter's own reference rate. -/
def crossVote (bases : ExtTreeMap ValAddress Dec) (v : VoteForTally) : Outcome VoteForTally :=
  match bases[v.voter]? with
  | some exchangeRateRT =>
      if v.exchangeRate.IsPositive then do
        let rate ← exchangeRateRT.quo v.exchangeRate
        pure { v with exchangeRate := rate }
      else pure v.abstained
  | none => pure v.abstained

/-- `ToCrossRate`. -/
def toCrossRate (pb : ExchangeRateBallot) (bases : ExtTreeMap ValAddress Dec) :
    Outcome ExchangeRateBallot :=
  pb.mapM (crossVote bases)

/-- `ToCrossRateWithSort`. -/
def toCrossRateWithSort (S : Schedule) (pb : ExchangeRateBallot)
    (bases : ExtTreeMap ValAddress Dec) : Outcome ExchangeRateBallot := do
  let cb ← toCrossRate pb bases
  pure (S.sort cb)

/-- `Power`. -/
def power (pb : ExchangeRateBallot) : ℤ := (pb.map VoteForTally.power).sum

/-- The rates of a ballot with the power behind them. -/
def weights (pb : ExchangeRateBallot) : List (Dec × ℤ) :=
  pb.map fun v => (v.exchangeRate, v.power)

/-- Half of the power of a ballot, in integer division. -/
def pivot (pb : ExchangeRateBallot) : ℤ := (power pb).tdiv 2

/-- `WeightedMedian`. -/
def weightedMedian (pb : ExchangeRateBallot) : Dec :=
  (firstReaching (pivot pb) 0 (weights pb)).getD 0

/-- The squared deviation of one vote. -/
def squaredDeviation (median : Dec) (v : VoteForTally) : Outcome Dec := do
  let deviation ← v.exchangeRate.sub median
  deviation.mul deviation

/-- The mean of the squared deviations. -/
def variance (pb : ExchangeRateBallot) (median : Dec) : Outcome Dec := do
  let sum ← pb.foldlM (fun s v => squaredDeviation median v >>= s.add) (0 : Dec)
  sum.quoInt pb.length

/-- `StandardDeviation`. -/
def standardDeviation (H : Host) (pb : ExchangeRateBallot) (median : Dec) : Dec :=
  if pb.length = 0 then 0
  else
    match variance pb median with
    | .ok v => H.floatSqrt v
    | .error _ => 0 -- the deferred `recover`

/-! ### The tally (`tally.go`) -/

/-- The distance from the median up to which a vote wins. -/
def rewardSpread (H : Host) (pb : ExchangeRateBallot) (median rewardBand : Dec) : Outcome Dec := do
  let half ← rewardBand.quoInt 2
  let spread ← median.mul half
  let deviation := standardDeviation H pb median
  pure (if spread < deviation then deviation else spread)

/-- The two comparisons of a vote with the band; the upper end is only computed for a vote at
or above the lower one. -/
def inBand (median spread rate : Dec) : Outcome Bool := do
  let low ← median.sub spread
  if low ≤ rate then do
    let high ← median.add spread
    pure (decide (rate ≤ high))
  else pure false

/-- One round of `Tally`: winners and abstainers are credited. A voter without a claim gets a
fresh one. -/
def creditVote (H : Host) (median spread : Dec) (claims : ClaimMap) (v : VoteForTally) :
    Outcome ClaimMap := do
  let within ← inBand median spread v.exchangeRate
  if within ∨ ¬ v.exchangeRate.IsPositive then
    let key := H.valString v.voter
    let claim := claims.getD key default
    pure (claims.insert key
      { claim with weight := claim.weight + v.power, winCount := claim.winCount + 1 })
  else pure claims

/-- `Tally`. -/
def tally (H : Host) (pb : ExchangeRateBallot) (rewardBand : Dec) (claims : ClaimMap) :
    Outcome (Dec × ClaimMap) := do
  let median := weightedMedian pb
  let spread ← rewardSpread H pb median rewardBand
  let claims' ← pb.foldlM (creditVote H median spread) claims
  pure (median, claims')

/-- `ballotIsPassing`. -/
def ballotIsPassing (ballot : ExchangeRateBallot) (thresholdVotes : ℤ) : Prop :=
  power ballot ≠ 0 ∧ thresholdVotes ≤ power ballot

instance (b : ExchangeRateBallot) (t : ℤ) : Decidable (ballotIsPassing b t) :=
  inferInstanceAs (Decidable (_ ∧ _))

/-! ### Sorting -/

instance : DecidableRel VoteForTally.le := fun v w =>
  inferInstanceAs (Decidable (v.exchangeRate ≤ w.exchangeRate))

instance : Std.Total VoteForTally.le := ⟨fun v w => le_total v.exchangeRate w.exchangeRate⟩

instance : IsTrans VoteForTally VoteForTally.le := ⟨fun _ _ _ h h' => le_trans h h'⟩

/-- One schedule: insertion sort, and every map in the order of its keys. -/
def Schedule.listed : Schedule where
  sort := List.insertionSort VoteForTally.le
  sort_perm := List.perm_insertionSort VoteForTally.le
  sort_sorted := List.pairwise_insertionSort VoteForTally.le
  rangePick := .listed _
  rangeTally := .listed _
  rangeMiss := .listed _
  rangeTargets := .listed _
  rangeWeights := .listed _
  rangeWinners := .listed _

/-! ### Power and median -/

/-- No vote of the ballot has negative power. -/
def NonnegPowers (pb : ExchangeRateBallot) : Prop := ∀ v ∈ pb, 0 ≤ v.power

lemma weights_nonneg {pb : ExchangeRateBallot} (h : NonnegPowers pb) :
    ∀ u ∈ weights pb, 0 ≤ u.2 := by
  intro u hu
  obtain ⟨v, hv, rfl⟩ := List.mem_map.mp hu
  exact h v hv

lemma weight_weights (pb : ExchangeRateBallot) : weight (weights pb) = power pb := by
  rw [weight, weights, power, List.map_map]
  rfl

lemma power_nonneg {pb : ExchangeRateBallot} (h : NonnegPowers pb) : 0 ≤ power pb := by
  rw [← weight_weights]
  exact weight_nonneg (weights_nonneg h)

lemma power_perm {pb pb' : ExchangeRateBallot} (h : pb.Perm pb') : power pb = power pb' :=
  (h.map _).sum_eq

lemma pivot_perm {pb pb' : ExchangeRateBallot} (h : pb.Perm pb') : pivot pb = pivot pb' := by
  rw [pivot, pivot, power_perm h]

lemma NonnegPowers.perm {pb pb' : ExchangeRateBallot} (h : NonnegPowers pb) (hp : pb.Perm pb') :
    NonnegPowers pb' :=
  fun v hv => h v (hp.mem_iff.mpr hv)

lemma pivot_le_power {pb : ExchangeRateBallot} (h : NonnegPowers pb) : pivot pb ≤ power pb := by
  have h0 := power_nonneg h
  rw [pivot, Int.tdiv_eq_ediv_of_nonneg h0]
  omega

/-- The median of a ballot with votes is the rate of one of them. -/
lemma exists_weightedMedian {pb : ExchangeRateBallot} (h : NonnegPowers pb) (hne : pb ≠ []) :
    ∃ v ∈ pb, firstReaching (pivot pb) 0 (weights pb) = some v.exchangeRate
      ∧ weightedMedian pb = v.exchangeRate := by
  have hw : weights pb ≠ [] := by simpa [weights] using hne
  have hreach : pivot pb ≤ 0 + weight (weights pb) := by
    rw [weight_weights, zero_add]
    exact pivot_le_power h
  obtain ⟨u, hu, hx⟩ := exists_firstReaching hw hreach
  obtain ⟨v, hv, rfl⟩ := List.mem_map.mp hu
  exact ⟨v, hv, hx, by rw [weightedMedian, hx]; rfl⟩

/-- The median of a ballot, as the least rate whose votes carry half of the power. -/
def IsBallotMedian (pb : ExchangeRateBallot) (m : Dec) : Prop :=
  IsMedian (pivot pb) (weights pb) m

lemma isBallotMedian_perm {pb pb' : ExchangeRateBallot} (h : pb.Perm pb') {m : Dec} :
    IsBallotMedian pb m ↔ IsBallotMedian pb' m := by
  rw [IsBallotMedian, IsBallotMedian, pivot_perm h]
  exact isMedian_perm (h.map _)

/-- **The median of a sorted ballot.** -/
theorem isMedian_weightedMedian {pb : ExchangeRateBallot} (h : NonnegPowers pb) (hne : pb ≠ [])
    (hs : pb.Pairwise VoteForTally.le) : IsBallotMedian pb (weightedMedian pb) := by
  obtain ⟨v, -, hx, hm⟩ := exists_weightedMedian h hne
  rw [hm]
  exact isMedian_of_firstReaching (List.pairwise_map.mpr hs) (weights_nonneg h) hx

/-- Whatever the order it was sorted into, the ballot has one median. -/
lemma weightedMedian_sort (S : Schedule) {pb : ExchangeRateBallot} (h : NonnegPowers pb)
    (hne : pb ≠ []) {m : Dec} : IsBallotMedian pb m ↔ weightedMedian (S.sort pb) = m := by
  have hp := S.sort_perm pb
  have hne' : S.sort pb ≠ [] := fun h0 => hne (List.Perm.nil_eq (h0 ▸ hp)).symm
  have hmed := isMedian_weightedMedian (h.perm hp.symm) hne' (S.sort_sorted pb)
  rw [isBallotMedian_perm hp] at hmed
  exact ⟨fun hm => IsLeast.unique hmed hm, fun hm => hm ▸ hmed⟩

/-! ### Cross rates -/

/-- A vote against a reference rate the voter gave, both positive. -/
lemma crossVote_of_positive {bases : ExtTreeMap ValAddress Dec} {v : VoteForTally} {r : Dec}
    (hr : bases[v.voter]? = some r) (hv : v.exchangeRate.IsPositive) :
    crossVote bases v = (r.quo v.exchangeRate).map fun q => { v with exchangeRate := q } := by
  rw [crossVote, hr]
  simp only [if_pos hv]
  cases r.quo v.exchangeRate with
  | ok q => rfl
  | error e => rfl

/-- A vote without a reference rate, or an abstain vote, loses its power. -/
lemma crossVote_of_not_shared {bases : ExtTreeMap ValAddress Dec} {v : VoteForTally}
    (h : ¬ (v.voter ∈ bases ∧ v.exchangeRate.IsPositive)) :
    crossVote bases v = .ok v.abstained := by
  rw [crossVote]
  cases hr : bases[v.voter]? with
  | none => rfl
  | some r =>
      have hv : ¬ v.exchangeRate.IsPositive := fun hv => h ⟨mem_of_getElem?_eq_some hr, hv⟩
      simp only [if_neg hv, pure_eq_ok]

/-- The reference rates are positive. -/
lemma isPositive_of_toMap {pb : ExchangeRateBallot} {a : ValAddress} {r : Dec}
    (h : (toMap pb)[a]? = some r) : r.IsPositive := by
  refine List.foldlRecOn (motive := fun m : ExtTreeMap ValAddress Dec =>
    ∀ a r, m[a]? = some r → Fixed.IsPositive r) pb _ ?_ ?_ a r h
  · intro a r har
    simp at har
  intro m hm v _ a r har
  by_cases hv : v.exchangeRate.IsPositive
  · rw [if_pos hv, ExtTreeMap.getElem?_insert] at har
    split_ifs at har with hav
    · exact Option.some.inj har ▸ hv
    · exact hm a r har
  · rw [if_neg hv] at har
    exact hm a r har

/-! ### The standard deviation -/

lemma squaredDeviation_nonneg {median x : Dec} {v : VoteForTally}
    (h : squaredDeviation median v = .ok x) : 0 ≤ x.raw := by
  obtain ⟨d, -, hmul⟩ := bind_eq_ok.mp h
  obtain ⟨-, rfl⟩ := Fixed.checked_eq_ok_iff.mp hmul
  exact Rounding.halfEven_nonneg (mul_self_nonneg d.raw)

lemma variance_perm {pb pb' : ExchangeRateBallot} (hp : pb.Perm pb') {median x : Dec}
    (h : variance pb median = .ok x) : variance pb' median = .ok x := by
  obtain ⟨s, hs, hq⟩ := bind_eq_ok.mp h
  refine bind_eq_ok.mpr ⟨s, Fixed.foldlM_add_perm (fun v y => squaredDeviation_nonneg) hp hs, ?_⟩
  rw [← hp.length_eq]
  exact hq

/-- The standard deviation does not see the order of the ballot. -/
lemma standardDeviation_perm (H : Host) {pb pb' : ExchangeRateBallot} (hp : pb.Perm pb')
    (median : Dec) : standardDeviation H pb median = standardDeviation H pb' median := by
  rw [standardDeviation, standardDeviation, hp.length_eq]
  cases hv : variance pb median with
  | ok x => rw [variance_perm hp hv]
  | error e =>
      cases hv' : variance pb' median with
      | ok x =>
          rw [variance_perm hp.symm hv'] at hv
          exact absurd hv (by simp)
      | error e' => rfl

lemma rewardSpread_perm (H : Host) {pb pb' : ExchangeRateBallot} (hp : pb.Perm pb')
    (median rewardBand : Dec) :
    rewardSpread H pb median rewardBand = rewardSpread H pb' median rewardBand := by
  rw [rewardSpread, rewardSpread, standardDeviation_perm H hp]

/-! ### Faults of the tally -/

/-- The band of the parameters lies in the unit interval. -/
lemma outOfUnit_eq_false {x : Dec} : outOfUnit x = false ↔ 0 ≤ x.raw ∧ x.raw ≤ 10 ^ 18 := by
  have hone : (Fixed.one : Dec).raw = 10 ^ 18 := rfl
  rw [outOfUnit, Bool.or_eq_false_iff, decide_eq_false_iff_not, decide_eq_false_iff_not,
    Fixed.lt_def, hone]
  omega

/-- The square roots that come back from floating point are nonnegative decimals in the bit
limit. -/
def Host.SqrtBounded (H : Host) : Prop :=
  ∀ v, 0 ≤ (H.floatSqrt v).raw ∧ Fixed.Fits decFormat (H.floatSqrt v).raw

lemma standardDeviation_bounded {H : Host} (hH : H.SqrtBounded) (pb : ExchangeRateBallot)
    (median : Dec) : 0 ≤ (standardDeviation H pb median).raw
      ∧ Fixed.Fits decFormat (standardDeviation H pb median).raw := by
  have hzero : 0 ≤ (0 : Dec).raw ∧ Fixed.Fits decFormat (0 : Dec).raw :=
    ⟨le_rfl, by show (0 : ℤ).natAbs < _; simp⟩
  rw [standardDeviation]
  split_ifs
  · exact hzero
  · cases variance pb median with
    | ok v => exact hH v
    | error e => exact hzero

/-- Half of the band is at most one, so the spread of a decimal median is a decimal. -/
lemma exists_rewardSpread {H : Host} (hH : H.SqrtBounded) {rewardBand median : Dec}
    (hb : outOfUnit rewardBand = false) (h0 : 0 ≤ median.raw)
    (hfit : Fixed.Fits decFormat median.raw) (pb : ExchangeRateBallot) :
    ∃ s, rewardSpread H pb median rewardBand = .ok s ∧ 0 ≤ s.raw
      ∧ Fixed.Fits decFormat s.raw := by
  obtain ⟨hb0, hb1⟩ := outOfUnit_eq_false.mp hb
  have hhalf : 0 ≤ rewardBand.raw.tdiv 2 ∧ rewardBand.raw.tdiv 2 ≤ 10 ^ 18 := by
    rw [Int.tdiv_eq_ediv_of_nonneg hb0]
    omega
  obtain ⟨x, hmul, hx0, hxle⟩ := Fixed.exists_mul_unit (u := ⟨rewardBand.raw.tdiv 2⟩) h0 hfit
    hhalf.1 hhalf.2
  obtain ⟨hsd0, hsdf⟩ := standardDeviation_bounded hH pb median
  rw [rewardSpread, Fixed.quoInt_eq_ok (by norm_num), ok_bind, hmul, ok_bind]
  refine ⟨_, rfl, ?_⟩
  split_ifs
  · exact ⟨hsd0, hsdf⟩
  · exact ⟨hx0, hfit.of_le hx0 hxle⟩

/-- The tally of a ballot has no fault but an overflow. -/
lemma tally_error_eq_overflow {H : Host} {pb : ExchangeRateBallot} {rewardBand : Dec}
    {claims : ClaimMap} {e : Fault} (h : tally H pb rewardBand claims = .error e) :
    e = .panic .overflow := by
  rcases bind_eq_error.mp h with hs | ⟨s, -, h⟩
  · rw [rewardSpread, Fixed.quoInt_eq_ok (by norm_num), ok_bind] at hs
    rcases bind_eq_error.mp hs with hmul | ⟨x, -, hx⟩
    · exact (Fixed.checked_eq_error_iff.mp hmul).2
    · simp at hx
  · rcases bind_eq_error.mp h with hloop | ⟨c, -, hc⟩
    · obtain ⟨-, v, -, c, -, -, hv⟩ :=
        exists_of_foldlM_error (fun _ _ => True) hloop trivial (fun _ _ _ _ _ _ _ _ => trivial)
      rcases bind_eq_error.mp hv with hband | ⟨b, -, hb⟩
      · rcases bind_eq_error.mp hband with hsub | ⟨low, -, hlow⟩
        · exact (Fixed.checked_eq_error_iff.mp hsub).2
        · split_ifs at hlow
          · rcases bind_eq_error.mp hlow with hadd | ⟨hi, -, hhi⟩
            · exact (Fixed.checked_eq_error_iff.mp hadd).2
            · simp at hhi
          · simp at hlow
      · split_ifs at hb <;> simp at hb
    · simp at hc

lemma tally_eq_ok {H : Host} {pb : ExchangeRateBallot} {rewardBand : Dec} {claims : ClaimMap}
    {r : Dec × ClaimMap} (h : tally H pb rewardBand claims = .ok r) :
    r.1 = weightedMedian pb
      ∧ ∃ s, pb.foldlM (creditVote H (weightedMedian pb) s) claims = .ok r.2 := by
  obtain ⟨s, -, h⟩ := bind_eq_ok.mp h
  obtain ⟨c, hc, hr⟩ := bind_eq_ok.mp h
  obtain rfl := Except.ok.inj hr
  exact ⟨rfl, s, hc⟩

/-- The rates of a ballot are nonnegative decimals in the bit limit. -/
def RatesFit (pb : ExchangeRateBallot) : Prop :=
  ∀ v ∈ pb, 0 ≤ v.exchangeRate.raw ∧ Fixed.Fits decFormat v.exchangeRate.raw

/-- The upper end of the reward band around `median` is within the bit limit. -/
def BandFits (H : Host) (rewardBand : Dec) (pb : ExchangeRateBallot) (median : Dec) : Prop :=
  ∀ s, rewardSpread H pb median rewardBand = .ok s →
    Fixed.Fits decFormat (median.raw + s.raw)

/-- A vote is credited or not where both ends of the band can be computed. -/
lemma exists_creditVote (H : Host) {median spread low high : Dec} (hlow : median.sub spread = .ok low)
    (hhigh : median.add spread = .ok high) (claims : ClaimMap) (v : VoteForTally) :
    ∃ claims', creditVote H median spread claims v = .ok claims' := by
  rw [creditVote, inBand, hlow, ok_bind, hhigh, ok_bind]
  split_ifs
  · rw [pure_eq_ok, ok_bind]
    split_ifs <;> exact ⟨_, rfl⟩
  · rw [pure_eq_ok, ok_bind]
    split_ifs <;> exact ⟨_, rfl⟩

/-- **Faults of the tally.** The tally of a ballot overflows exactly when the upper end of the
reward band around its median does: the lower end cannot, and the vote that gives the median
makes the tally compute the upper one. -/
theorem tally_eq_error_iff {H : Host} (hH : H.SqrtBounded) {pb : ExchangeRateBallot}
    {rewardBand : Dec} {claims : ClaimMap} {e : Fault} (hb : outOfUnit rewardBand = false)
    (hne : pb ≠ []) (hpow : NonnegPowers pb) (hrates : RatesFit pb) :
    tally H pb rewardBand claims = .error e
      ↔ e = .panic .overflow ∧ ¬ BandFits H rewardBand pb (weightedMedian pb) := by
  obtain ⟨v, hv, -, hm⟩ := exists_weightedMedian hpow hne
  obtain ⟨h0, hfit⟩ := hrates v hv
  rw [← hm] at h0 hfit
  obtain ⟨s, hs, hs0, hsfit⟩ := exists_rewardSpread hH hb h0 hfit pb
  have hlow : (weightedMedian pb).sub s = .ok ⟨(weightedMedian pb).raw - s.raw⟩ := by
    refine Fixed.checked_eq_ok_iff.mpr ⟨?_, rfl⟩
    have h1 : (weightedMedian pb).raw.natAbs < 2 ^ decFormat.decBits := hfit
    have h2 : s.raw.natAbs < 2 ^ decFormat.decBits := hsfit
    show ((weightedMedian pb).raw - s.raw).natAbs < 2 ^ decFormat.decBits
    omega
  have hband : BandFits H rewardBand pb (weightedMedian pb)
      ↔ Fixed.Fits decFormat ((weightedMedian pb).raw + s.raw) :=
    ⟨fun h => h s hs, fun h s' hs' => Except.ok.inj (hs ▸ hs') ▸ h⟩
  rw [hband]
  constructor
  · intro he
    refine ⟨tally_error_eq_overflow he, fun hhigh => ?_⟩
    have hadd : (weightedMedian pb).add s = .ok ⟨(weightedMedian pb).raw + s.raw⟩ :=
      Fixed.checked_eq_ok_iff.mpr ⟨hhigh, rfl⟩
    rw [tally, hs, ok_bind] at he
    rcases bind_eq_error.mp he with hloop | ⟨c, -, hc⟩
    · obtain ⟨-, u, -, c, -, -, hu⟩ :=
        exists_of_foldlM_error (fun _ _ => True) hloop trivial (fun _ _ _ _ _ _ _ _ => trivial)
      obtain ⟨c', hc'⟩ := exists_creditVote H hlow hadd c u
      rw [hc'] at hu
      exact absurd hu (by simp)
    · simp at hc
  · rintro ⟨rfl, hhigh⟩
    cases hr : tally H pb rewardBand claims with
    | error e => rw [tally_error_eq_overflow hr]
    | ok r =>
        -- the round of the median's own vote has computed the upper end
        rw [tally, hs, ok_bind] at hr
        obtain ⟨c, hc, -⟩ := bind_eq_ok.mp hr
        obtain ⟨c₁, c₂, hround⟩ := exists_round_of_foldlM hc v hv
        obtain ⟨w, hw, -⟩ := bind_eq_ok.mp hround
        have hle : (⟨(weightedMedian pb).raw - s.raw⟩ : Dec) ≤ v.exchangeRate := by
          rw [← hm, Fixed.le_def]
          show (weightedMedian pb).raw - s.raw ≤ (weightedMedian pb).raw
          omega
        rw [inBand, hlow, ok_bind, if_pos hle] at hw
        obtain ⟨hi, hhi, -⟩ := bind_eq_ok.mp hw
        exact absurd (Fixed.checked_eq_ok_iff.mp hhi).1 hhigh

end ColumbusCore.Oracle
