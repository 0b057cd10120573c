import ColumbusCore.Oracle.Ballot

/-!
How far a minority can move the price.

The source sums the powers in 64-bit integers; `weightedMedianInt64` is that loop, and it is
the loop over integers while the total power is a 64-bit integer (`weightedMedianInt64_eq`).

The median of a ballot is compared with the truncated half of the total power. Where more than
half of the power reported rates of an interval, the median leaves the interval in one case: the
votes below it are there and their power is one unit short of half
(`weightedMedian_mem_iff`, **robustness of the median**). The median is one rate for all orders of
the votes, and splits the power in half (`weightedMedian_halves`, **the weighted median**).
-/

namespace ColumbusCore.Oracle

open Go WeightedMedian

/-! ### Sums of 64-bit integers -/

/-- `Power`, in the arithmetic of the machine. -/
def powerInt64 (pb : ExchangeRateBallot) : ℤ :=
  pb.foldl (fun total v => addInt64 total v.power) 0

/-- The loop of `WeightedMedian`, in the arithmetic of the machine. -/
def medianLoopInt64 (half : ℤ) : ℤ → ExchangeRateBallot → Dec
  | _, [] => 0
  | pivot, v :: pb =>
      if half ≤ addInt64 pivot v.power then v.exchangeRate
      else medianLoopInt64 half (addInt64 pivot v.power) pb

/-- `WeightedMedian`, in the arithmetic of the machine. -/
def weightedMedianInt64 (pb : ExchangeRateBallot) : Dec :=
  medianLoopInt64 ((powerInt64 pb).tdiv 2) 0 pb

lemma power_cons (v : VoteForTally) (pb : ExchangeRateBallot) :
    power (v :: pb) = v.power + power pb := by
  rw [power, List.map_cons, List.sum_cons, power]

lemma medianLoopInt64_eq {half : ℤ} {pb : ExchangeRateBallot} (h : NonnegPowers pb) {acc : ℤ}
    (h0 : 0 ≤ acc) (hfit : acc + power pb < 2 ^ 63) :
    medianLoopInt64 half acc pb = (firstReaching half acc (weights pb)).getD 0 := by
  induction pb generalizing acc with
  | nil => rfl
  | cons v pb ih =>
      obtain ⟨hv, hpb⟩ := List.forall_mem_cons.mp h
      have hrest := power_nonneg hpb
      rw [power_cons] at hfit
      rw [medianLoopInt64, addInt64_eq (by omega) (by omega), weights, List.map_cons,
        firstReaching, ← weights]
      split_ifs
      · rfl
      · exact ih hpb (by omega) (by omega)

/-- **The median in the arithmetic of the machine** is the median, while the total power is a
64-bit integer. -/
theorem weightedMedianInt64_eq {pb : ExchangeRateBallot} (h : NonnegPowers pb)
    (hfit : power pb < 2 ^ 63) : weightedMedianInt64 pb = weightedMedian pb := by
  have htotal : powerInt64 pb = power pb := by
    have hnn : ∀ x ∈ pb.map VoteForTally.power, 0 ≤ x := List.forall_mem_map.mpr h
    rw [powerInt64, ← List.foldl_map, foldl_addInt64 hnn le_rfl (by rw [zero_add]; exact hfit),
      zero_add]
    rfl
  rw [weightedMedianInt64, htotal, medianLoopInt64_eq h le_rfl (by omega)]
  rfl

/-! ### Power in and below an interval -/

/-- The power of the votes with a rate in `I`. -/
def powerIn (I : Set Dec) [DecidablePred (· ∈ I)] (pb : ExchangeRateBallot) : ℤ :=
  power (pb.filter fun v => v.exchangeRate ∈ I)

/-- The rate lies below every rate of the ballot in `I`. -/
def BelowInterval (I : Set Dec) (pb : ExchangeRateBallot) (rate : Dec) : Prop :=
  ∀ u ∈ pb, u.exchangeRate ∈ I → rate < u.exchangeRate

instance (I : Set Dec) [DecidablePred (· ∈ I)] (pb : ExchangeRateBallot) :
    DecidablePred (BelowInterval I pb) :=
  fun rate => inferInstanceAs (Decidable (∀ u ∈ pb, u.exchangeRate ∈ I → rate < u.exchangeRate))

/-- The power of the votes below `I`. -/
def powerBelow (I : Set Dec) [DecidablePred (· ∈ I)] (pb : ExchangeRateBallot) : ℤ :=
  power (pb.filter fun v => BelowInterval I pb v.exchangeRate)

/-- The power of the votes whose rate has a property. -/
lemma power_filter (p : Dec → Prop) [DecidablePred p] (pb : ExchangeRateBallot) :
    power (pb.filter fun v => p v.exchangeRate) = weightOf p (weights pb) := by
  induction pb with
  | nil => rfl
  | cons v pb ih =>
      rw [weights, List.map_cons, weightOf_cons, ← weights, ← ih]
      by_cases hv : p v.exchangeRate
      · rw [List.filter_cons_of_pos (by simpa using hv), if_pos hv]
        rfl
      · rw [List.filter_cons_of_neg (by simpa using hv), if_neg hv, zero_add]

lemma isBelow_weights {I : Set Dec} {pb : ExchangeRateBallot} {rate : Dec} :
    IsBelow I (weights pb) rate ↔ BelowInterval I pb rate := by
  rw [IsBelow, BelowInterval, weights]
  simp only [List.forall_mem_map]

lemma powerBelow_eq (I : Set Dec) [DecidablePred (· ∈ I)] (pb : ExchangeRateBallot) :
    powerBelow I pb = weightOf (IsBelow I (weights pb)) (weights pb) := by
  rw [powerBelow, power_filter]
  simp only [weightOf, isBelow_weights]

/-- The votes in an interval and those below it share the power of the ballot. -/
lemma powerIn_add_powerBelow_le (I : Set Dec) [DecidablePred (· ∈ I)] {pb : ExchangeRateBallot}
    (h : NonnegPowers pb) : powerIn I pb + powerBelow I pb ≤ power pb := by
  rw [powerIn, power_filter, powerBelow_eq, ← weight_weights]
  exact weightOf_add_le (weights_nonneg h) fun v hv hvI hbelow => lt_irrefl _ (hbelow v hv hvI)

/-! ### Robustness -/

/-- Robustness of the median over the integers, whatever the total power. -/
lemma weightedMedian_mem_interval_iff {pb : ExchangeRateBallot} (hs : pb.Pairwise VoteForTally.le)
    (h : NonnegPowers pb) {I : Set Dec} [DecidablePred (· ∈ I)] (hI : I.OrdConnected)
    (hmaj : power pb < 2 * powerIn I pb) :
    weightedMedian pb ∈ I
      ↔ ¬ ((∃ v ∈ pb, BelowInterval I pb v.exchangeRate)
        ∧ 2 * powerBelow I pb + 1 = power pb) := by
  have h0 := power_nonneg h
  have hpivot : pivot pb = power pb / 2 := Int.tdiv_eq_ediv_of_nonneg h0
  -- a majority has votes
  have hin : ∃ v ∈ pb, v.exchangeRate ∈ I := by
    by_contra hnone
    push Not at hnone
    have hnil : pb.filter (fun v => decide (v.exchangeRate ∈ I)) = [] :=
      List.filter_eq_nil_iff.mpr fun v hv => by simpa using hnone v hv
    rw [powerIn, hnil] at hmaj
    exact absurd hmaj (by simpa [power] using h0)
  obtain ⟨v, hv, hvI⟩ := hin
  obtain ⟨m, hm, hx, hmedian⟩ := exists_weightedMedian h (List.ne_nil_of_mem hv)
  have hreach : pivot pb ≤ weightOf (· ∈ I) (weights pb) := by
    rw [← power_filter, ← powerIn]
    omega
  have hmem : m.exchangeRate ∈ I ↔ ¬ ((∃ v ∈ weights pb, IsBelow I (weights pb) v.1)
      ∧ pivot pb ≤ weightOf (IsBelow I (weights pb)) (weights pb)) :=
    firstReaching_mem_iff (List.pairwise_map.mpr hs) (weights_nonneg h) hx
      ⟨_, List.mem_map_of_mem hm, rfl⟩ hI ⟨_, List.mem_map_of_mem hv, hvI⟩ hreach
  have hex : (∃ v ∈ weights pb, IsBelow I (weights pb) v.1)
      ↔ ∃ v ∈ pb, BelowInterval I pb v.exchangeRate := by
    simp only [isBelow_weights]
    simp [weights]
  -- the majority leaves less than half to the votes below
  have hshare := powerIn_add_powerBelow_le I h
  have hhalf : pivot pb ≤ powerBelow I pb ↔ 2 * powerBelow I pb + 1 = power pb := by omega
  rw [hmedian, hmem, hex, ← powerBelow_eq, hhalf]

/-- **Robustness of the median.** Let the total power of a sorted ballot be a 64-bit integer, and
let more than half of it report rates of the interval `I`. What `WeightedMedian` returns is one of
them, except where there are votes below the interval that hold one unit of power less than half. -/
theorem weightedMedian_mem_iff {pb : ExchangeRateBallot} (hs : pb.Pairwise VoteForTally.le)
    (h : NonnegPowers pb) (hfit : power pb < 2 ^ 63) {I : Set Dec} [DecidablePred (· ∈ I)]
    (hI : I.OrdConnected) (hmaj : power pb < 2 * powerIn I pb) :
    weightedMedianInt64 pb ∈ I
      ↔ ¬ ((∃ v ∈ pb, BelowInterval I pb v.exchangeRate)
        ∧ 2 * powerBelow I pb + 1 = power pb) := by
  rw [weightedMedianInt64_eq h hfit]
  exact weightedMedian_mem_interval_iff hs h hI hmaj

/-- Two votes, at the rates one and ten. -/
def lowAndHigh (low high : ℤ) : ExchangeRateBallot :=
  [⟨"uusd", ⟨10 ^ 18⟩, "minority", low⟩, ⟨"uusd", ⟨10 ^ 19⟩, "majority", high⟩]

lemma nonnegPowers_lowAndHigh {low high : ℤ} (hl : 0 ≤ low) (hh : 0 ≤ high) :
    NonnegPowers (lowAndHigh low high) := by
  intro v hv
  rcases List.mem_cons.mp hv with rfl | hv
  · exact hl
  · rw [List.mem_singleton.mp hv]
    exact hh

/-- A third of the power moves the median out of the interval of the other two thirds. -/
theorem weightedMedian_minority : (lowAndHigh 1 2).Pairwise VoteForTally.le
    ∧ NonnegPowers (lowAndHigh 1 2)
    ∧ power (lowAndHigh 1 2) < 2 * powerIn (Set.Icc ⟨10 ^ 19⟩ ⟨10 ^ 19⟩) (lowAndHigh 1 2)
    ∧ power (lowAndHigh 1 2) < 2 ^ 63
    ∧ weightedMedianInt64 (lowAndHigh 1 2) = ⟨10 ^ 18⟩
    ∧ weightedMedianInt64 (lowAndHigh 1 2) ∉ Set.Icc (⟨10 ^ 19⟩ : Dec) ⟨10 ^ 19⟩ := by
  exact ⟨by decide, nonnegPowers_lowAndHigh (by decide) (by decide), by decide, by decide,
    by decide, by decide⟩

theorem weightedMedian_majority :
    power (lowAndHigh 1 3) < 2 * powerIn (Set.Icc ⟨10 ^ 19⟩ ⟨10 ^ 19⟩) (lowAndHigh 1 3)
      ∧ weightedMedianInt64 (lowAndHigh 1 3) ∈ Set.Icc (⟨10 ^ 19⟩ : Dec) ⟨10 ^ 19⟩ :=
  ⟨by decide, (weightedMedian_mem_iff (by decide) (nonnegPowers_lowAndHigh (by decide) (by decide))
    (by decide) Set.ordConnected_Icc (by decide)).mpr (by decide)⟩

/-! ### The median of the machine -/

/-- A ballot has one median, however it was sorted. -/
lemma weightedMedian_eq_of_sorted {pb sorted sorted' : ExchangeRateBallot} (h : NonnegPowers pb)
    (hne : pb ≠ []) (hp : sorted.Perm pb) (hs : sorted.Pairwise VoteForTally.le)
    (hp' : sorted'.Perm pb) (hs' : sorted'.Pairwise VoteForTally.le) :
    weightedMedian sorted = weightedMedian sorted' := by
  have hmedian : ∀ l : ExchangeRateBallot, l.Perm pb → l.Pairwise VoteForTally.le →
      IsBallotMedian pb (weightedMedian l) := by
    intro l hl hsorted
    have hne' : l ≠ [] := fun h0 => hne (List.Perm.nil_eq (h0 ▸ hl)).symm
    exact (isBallotMedian_perm hl).mp (isMedian_weightedMedian (h.perm hl.symm) hne' hsorted)
  exact (hmedian sorted hp hs).unique (hmedian sorted' hp' hs')

/-- The median of a sorted ballot with two units of power splits it in half. -/
lemma weightedMedian_splits {pb : ExchangeRateBallot} (h : NonnegPowers pb)
    (htwo : 2 ≤ power pb) (hs : pb.Pairwise VoteForTally.le) :
    power (pb.filter fun v => v.exchangeRate < weightedMedian pb) < power pb / 2
      ∧ power pb / 2 ≤ power (pb.filter fun v => v.exchangeRate ≤ weightedMedian pb)
      ∧ ∃ v ∈ pb, v.exchangeRate = weightedMedian pb ∧ 0 < v.power := by
  have hne : pb ≠ [] := by
    rintro rfl
    exact absurd htwo (by decide)
  have hpivot : pivot pb = power pb / 2 := Int.tdiv_eq_ediv_of_nonneg (by omega)
  obtain ⟨m, -, hx, hm⟩ := exists_weightedMedian h hne
  obtain ⟨hbelow, hupto, u, hu, hum, hu0⟩ := firstReaching_splits (by omega)
    (List.pairwise_map.mpr hs) (weights_nonneg h) hx
  rw [power_filter (· < weightedMedian pb), power_filter (· ≤ weightedMedian pb), hm, ← hpivot]
  obtain ⟨v, hv, rfl⟩ := List.mem_map.mp hu
  exact ⟨hbelow, hupto, v, hv, hum, hu0⟩

/-- **The weighted median.** Let a ballot have nonnegative powers with a total of at least two that
is a 64-bit integer. However its votes are permuted and sorted, `WeightedMedian` returns one rate:
that of a vote with power, with less than half of the power, rounded down, strictly below it and at
least that half at or below it. -/
theorem weightedMedian_halves {pb : ExchangeRateBallot} (h : NonnegPowers pb) (htwo : 2 ≤ power pb)
    (hfit : power pb < 2 ^ 63) :
    ∃ m, (∀ sorted : ExchangeRateBallot, sorted.Perm pb → sorted.Pairwise VoteForTally.le →
        weightedMedianInt64 sorted = m)
      ∧ (∃ v ∈ pb, v.exchangeRate = m ∧ 0 < v.power)
      ∧ power (pb.filter fun v => v.exchangeRate < m) < power pb / 2
      ∧ power pb / 2 ≤ power (pb.filter fun v => v.exchangeRate ≤ m) := by
  have hne : pb ≠ [] := by
    rintro rfl
    exact absurd htwo (by decide)
  have hp := Schedule.listed.sort_perm pb
  have hs := Schedule.listed.sort_sorted pb
  obtain ⟨hbelow, hupto, v, hv, hvm, hv0⟩ := weightedMedian_splits (h.perm hp.symm)
    (by rw [power_perm hp]; exact htwo) hs
  rw [power_perm hp, power_perm (hp.filter _)] at hbelow hupto
  refine ⟨_, fun sorted hperm hsorted => ?_, ⟨v, hp.mem_iff.mp hv, hvm, hv0⟩, hbelow, hupto⟩
  rw [weightedMedianInt64_eq (h.perm hperm.symm) (by rw [power_perm hperm]; exact hfit)]
  exact weightedMedian_eq_of_sorted h hne hperm hsorted hp hs

/-- Three units of power in two votes, the larger one at the rate ten. -/
theorem weightedMedian_halves_lowAndHigh : ∃ m,
    (∀ sorted : ExchangeRateBallot, sorted.Perm (lowAndHigh 1 2) →
      sorted.Pairwise VoteForTally.le → weightedMedianInt64 sorted = m)
      ∧ (∃ v ∈ lowAndHigh 1 2, v.exchangeRate = m ∧ 0 < v.power)
      ∧ power ((lowAndHigh 1 2).filter fun v => v.exchangeRate < m) < power (lowAndHigh 1 2) / 2
      ∧ power (lowAndHigh 1 2) / 2
        ≤ power ((lowAndHigh 1 2).filter fun v => v.exchangeRate ≤ m) :=
  weightedMedian_halves (nonnegPowers_lowAndHigh (by decide) (by decide)) (by decide) (by decide)

/-- A vote at the rate one, next to three votes whose power is close to the limit of 64 bits; the
first of them has the rate one too. -/
def smallVote : VoteForTally := ⟨"uusd", ⟨10 ^ 18⟩, "small", 2⟩

def largeVotes : ExchangeRateBallot :=
  [⟨"uusd", ⟨2 * 10 ^ 18⟩, "second", 2 ^ 63 - 1⟩, ⟨"uusd", ⟨3 * 10 ^ 18⟩, "third", 2 ^ 62⟩]

def firstVote : VoteForTally := ⟨"uusd", ⟨10 ^ 18⟩, "first", 2 ^ 63 - 1⟩

/-- Beyond 64 bits the running sum wraps, and the median depends on the order of two equal rates:
both ballots are sorted and hold the same votes, and `Power` is `2 ^ 62` for both. -/
theorem weightedMedian_wrapped :
    (smallVote :: firstVote :: largeVotes).Perm (firstVote :: smallVote :: largeVotes)
      ∧ (smallVote :: firstVote :: largeVotes).Pairwise VoteForTally.le
      ∧ (firstVote :: smallVote :: largeVotes).Pairwise VoteForTally.le
      ∧ powerInt64 (smallVote :: firstVote :: largeVotes) = 2 ^ 62
      ∧ 2 ≤ power (smallVote :: firstVote :: largeVotes)
      ∧ weightedMedianInt64 (smallVote :: firstVote :: largeVotes) = ⟨3 * 10 ^ 18⟩
      ∧ weightedMedianInt64 (firstVote :: smallVote :: largeVotes) = ⟨10 ^ 18⟩ :=
  ⟨List.Perm.swap _ _ _, by decide, by decide, by decide, by decide, by decide, by decide⟩

end ColumbusCore.Oracle
