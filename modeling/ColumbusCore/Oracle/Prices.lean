import ColumbusCore.Oracle.StaticChain

/-!
The denoms that get a price at the end of a vote period.

* `pickReferenceTerra_eq_selection`: **what `PickReferenceTerra` selects**, for every vote map, every
  map of vote targets and every order of its loop;
* `ballotPower`: the power behind a denom, read off the stored votes and the claims; it is the power
  of the ballot that `OrganizeBallotByDenom` builds (`power_collectBallots`);
* `exchangeRates_of_endBlocker`: **no stale prices**. After the last block of a vote period the
  denoms with a rate are the vote targets whose power is not zero and reaches the threshold, which
  is rounded to whole power. Whatever was stored before is gone.
-/

namespace ColumbusCore.Oracle

open Go
open Std (ExtTreeMap)

variable {σ : Type}

/-! ### The selection -/

/-- **The selection of the reference denom.** For every vote map, every map of vote targets and
every order of the loop `PickReferenceTerra` answers, once the power to reach is computed: the
votes left are those of the passing targets, as they were; the targets left are those without a
failing ballot; and the reference is the first denom in the alphabet among the passing targets of
largest power, the empty text if nothing passes. -/
theorem pickReferenceTerra_eq_selection {K : Keepers σ} {S : Schedule} {s : σ} {voteThreshold : Dec}
    {targets : TargetMap} {ballots : BallotMap} {threshold : ℤ}
    (hthreshold : thresholdVotes K s voteThreshold = .ok threshold) :
    ∃ p, pickReferenceTerra K S s voteThreshold targets ballots = .ok p
      ∧ (∀ (d : Denom) (b : ExchangeRateBallot), p.voteMap[d]? = some b
        ↔ d ∈ targets ∧ ballots[d]? = some b ∧ ballotIsPassing b threshold)
      ∧ (∀ (d : Denom) (x : Dec), p.voteTargets[d]? = some x
        ↔ targets[d]? = some x ∧ ¬ ∃ b, ballots[d]? = some b ∧ ¬ ballotIsPassing b threshold)
      ∧ ((∀ d b, ¬ Passing targets ballots threshold d b) → p.referenceTerra = "")
      ∧ ((∃ d b, Passing targets ballots threshold d b) →
        ∃ ref, IsReference targets ballots threshold p.referenceTerra ref) := by
  have hspec := selects_of_foldl S targets ballots threshold
  refine ⟨_, by rw [pickReferenceTerra, hthreshold]; rfl, hspec.ballots_iff, fun d x => ?_,
    fun hnone => ?_, fun hsome => ?_⟩
  · rw [hspec.targets_iff]
    refine and_congr_right fun _ => ?_
    push Not
    rfl
  · rcases hspec.reference with ⟨he, -⟩ | ⟨ref, href⟩
    · exact he
    · exact absurd href.1 (hnone _ ref)
  · rcases hspec.reference with ⟨-, hno⟩ | href
    · obtain ⟨d, b, hb⟩ := hsome
      exact absurd hb (hno d b)
    · exact href

/-- A ballot of half of the power for the dollar. -/
def halfForDollar : BallotMap :=
  (∅ : BallotMap).insert "uusd" [⟨"uusd", ⟨10 ^ 18⟩, "validator-a-of-terra", 50⟩]

/-- With the dollar and the won as targets the dollar is the reference. -/
theorem selection_halfForDollar :
    ∃ p, pickReferenceTerra staticKeepers Schedule.listed twoValidators ⟨5 * 10 ^ 17⟩
        (whitelistTargets [⟨"ukrw", 0⟩, ⟨"uusd", 0⟩]) halfForDollar = .ok p
      ∧ ∃ ref, IsReference (whitelistTargets [⟨"ukrw", 0⟩, ⟨"uusd", 0⟩]) halfForDollar 50
        p.referenceTerra ref := by
  obtain ⟨p, hp, -, -, -, href⟩ := @pickReferenceTerra_eq_selection _ staticKeepers
    Schedule.listed twoValidators ⟨5 * 10 ^ 17⟩ (whitelistTargets [⟨"ukrw", 0⟩, ⟨"uusd", 0⟩])
    halfForDollar 50 rfl
  exact ⟨p, hp, href ⟨"uusd", _, by decide, ExtTreeMap.getElem?_insert_self, by decide⟩⟩

/-! ### The power behind a denom -/

/-- What the rates of one vote add to a denom: the power of the voter for a positive rate, nothing
for an abstain vote. -/
def ratesPower (power : ℤ) (d : Denom) (tuples : List ExchangeRateTuple) : ℤ :=
  (tuples.map fun t => if t.denom = d ∧ t.exchangeRate.IsPositive then power else 0).sum

/-- What a stored vote adds to a denom, where the voter is an active validator. -/
def votePower (claims : ClaimMap) (d : Denom) (v : AggregateExchangeRateVote) : ℤ :=
  match claims[v.voter]? with
  | none => 0
  | some claim => ratesPower claim.power d v.exchangeRateTuples

/-- The power behind a denom in the stored votes. -/
def ballotPower (s : Store) (claims : ClaimMap) (d : Denom) : ℤ :=
  (s.votes.toList.map fun e => votePower claims d e.2).sum

lemma power_append (b b' : ExchangeRateBallot) : power (b ++ b') = power b + power b' := by
  rw [power, List.map_append, List.sum_append, power, power]

lemma power_appendVote (a : ValAddress) (p : ℤ) (m : BallotMap) (t : ExchangeRateTuple)
    (d : Denom) :
    power ((appendVote a p m t).getD d []) = power (m.getD d []) + ratesPower p d [t] := by
  rw [appendVote, ExtTreeMap.getD_insert, ratesPower]
  by_cases hd : t.denom = d
  · subst hd
    rw [if_pos (by simp), power_append]
    simp [power, ballotEntry]
  · rw [if_neg (by simpa using hd)]
    simp [hd]

lemma power_foldl_appendVote (a : ValAddress) (p : ℤ) (d : Denom)
    (tuples : List ExchangeRateTuple) (m : BallotMap) :
    power ((tuples.foldl (appendVote a p) m).getD d [])
      = power (m.getD d []) + ratesPower p d tuples := by
  induction tuples generalizing m with
  | nil => simp [ratesPower]
  | cons t tuples ih =>
      rw [List.foldl_cons, ih, power_appendVote, add_assoc]
      simp [ratesPower]

lemma power_organizeVote (claims : ClaimMap) (d : Denom) (m : BallotMap)
    (e : ValAddress × AggregateExchangeRateVote) :
    power ((organizeVote claims m e).getD d []) = power (m.getD d []) + votePower claims d e.2 := by
  rw [organizeVote, votePower]
  cases claims[e.2.voter]? with
  | none => simp
  | some claim => exact power_foldl_appendVote e.1 claim.power d e.2.exchangeRateTuples m

/-- **The power of a ballot** is what the votes of the active validators add to its denom. -/
lemma power_collectBallots (s : Store) (claims : ClaimMap) (d : Denom) :
    power ((collectBallots s claims).getD d []) = ballotPower s claims d := by
  have key : ∀ (l : List (ValAddress × AggregateExchangeRateVote)) (m : BallotMap),
      power ((l.foldl (organizeVote claims) m).getD d [])
        = power (m.getD d []) + (l.map fun e => votePower claims d e.2).sum := by
    intro l
    induction l with
    | nil => simp
    | cons e l ih =>
        intro m
        rw [List.foldl_cons, ih, power_organizeVote, List.map_cons, List.sum_cons, add_assoc]
  rw [collectBallots, key, ballotPower]
  simp [power]

/-- A target passes exactly when the power behind it is there and reaches the threshold. -/
lemma exists_passing_iff {targets : TargetMap} {s : Store} {claims : ClaimMap} {threshold : ℤ}
    {d : Denom} :
    (∃ b, Passing targets (collectBallots s claims) threshold d b)
      ↔ d ∈ targets ∧ ballotPower s claims d ≠ 0 ∧ threshold ≤ ballotPower s claims d := by
  rw [← power_collectBallots, ExtTreeMap.getD_eq_getD_getElem?]
  cases hb : (collectBallots s claims)[d]? with
  | none => simp [Passing, hb, power]
  | some b => simp [Passing, hb, ballotIsPassing]

/-! ### The denoms with a rate -/

/-- A round of the tally writes the rate of its denom. -/
lemma mem_rates_of_updateRate {H : Host} {S : Schedule} {rewardBand : Dec} {r : Denom}
    {ballotRT : ExchangeRateBallot} {s s' : RateState} {e : Denom × ExchangeRateBallot}
    (h : updateRate H S rewardBand r ballotRT s e = .ok s') (d : Denom) :
    d ∈ s'.rates ↔ d = e.1 ∨ d ∈ s.rates := by
  have hinsert : ∀ x : Dec, d ∈ s.rates.insert e.1 x ↔ d = e.1 ∨ d ∈ s.rates := fun x => by
    rw [ExtTreeMap.mem_insert, Std.compare_eq_iff_eq, eq_comm]
  obtain ⟨denom, ballot⟩ := e
  rw [updateRate] at h
  split_ifs at h
  · obtain ⟨⟨rate, claims⟩, -, h⟩ := bind_eq_ok.mp h
    obtain rfl := Except.ok.inj h
    exact hinsert rate
  · obtain ⟨cross, -, h⟩ := bind_eq_ok.mp h
    obtain ⟨⟨crossRate, claims⟩, -, h⟩ := bind_eq_ok.mp h
    obtain ⟨rate, -, h⟩ := bind_eq_ok.mp h
    obtain rfl := Except.ok.inj h
    exact hinsert rate

/-- The tally writes the rates of the ballots that are left, where there is a reference. -/
lemma mem_rates_of_updateRates {H : Host} {S : Schedule} {rewardBand : Dec} {pick : PickState}
    {claims : ClaimMap} {s : RateState} (h : updateRates H S rewardBand pick claims = .ok s)
    (d : Denom) : d ∈ s.rates ↔ pick.referenceTerra ≠ "" ∧ d ∈ pick.voteMap := by
  rw [updateRates] at h
  split_ifs at h with hne
  · obtain rfl := Except.ok.inj h
    simp [hne]
  · have hvisited : d ∈ s.rates
        ↔ d ∈ (S.rangeTally.visit pick.voteMap.toList).map Prod.fst := by
      refine foldlM_induction (fun pre c => d ∈ c.rates ↔ d ∈ pre.map Prod.fst) h (by simp)
        fun pre e post c c' _ hc hround => ?_
      rw [mem_rates_of_updateRate hround, hc]
      simp [or_comm]
    rw [hvisited, List.mem_map]
    constructor
    · rintro ⟨⟨d', b⟩, hmem, rfl⟩
      exact ⟨hne, mem_of_getElem?_eq_some ((RangeOrder.mem_visit_toList _ _).mp hmem)⟩
    · rintro ⟨-, hmem⟩
      obtain ⟨b, hb⟩ := Option.isSome_iff_exists.mp (ExtTreeMap.mem_iff_isSome_getElem?.mp hmem)
      exact ⟨(d, b), (RangeOrder.mem_visit_toList _ _).mpr hb, rfl⟩

/-- A ballot is left exactly where it passes. -/
lemma PickSpec.mem_voteMap_iff {S : Schedule} {targets : TargetMap} {ballots : BallotMap}
    {threshold : ℤ} {p : PickState} (h : PickSpec S targets ballots threshold p) (d : Denom) :
    d ∈ p.voteMap ↔ ∃ b, Passing targets ballots threshold d b := by
  rw [ExtTreeMap.mem_iff_isSome_getElem?, Option.isSome_iff_exists]
  constructor
  · rintro ⟨b', hb'⟩
    obtain ⟨b, hb, -⟩ := (h.ballots_iff d b').mp hb'
    exact ⟨b, hb⟩
  · rintro ⟨b, hb⟩
    exact ⟨_, (h.ballots_iff d _).mpr ⟨b, hb, rfl⟩⟩

/-- Where no target is without a name, the reference has one as soon as a ballot passes. -/
lemma PickSpec.reference_ne_empty {S : Schedule} {targets : TargetMap} {ballots : BallotMap}
    {threshold : ℤ} {p : PickState} (h : PickSpec S targets ballots threshold p)
    (hname : "" ∉ targets) {d : Denom} {b : ExchangeRateBallot}
    (hb : Passing targets ballots threshold d b) : p.referenceTerra ≠ "" := by
  rcases h.reference with ⟨-, hno⟩ | ⟨ref, href⟩
  · exact absurd hb (hno d b)
  · intro he
    exact hname (he ▸ href.1.1)

/-- The threshold, rounded to whole power. -/
lemma thresholdVotes_eq_ok {K : Keepers σ} {s : σ} {voteThreshold : Dec} {threshold : ℤ}
    (h : thresholdVotes K s voteThreshold = .ok threshold) :
    ∃ total, tokensToConsensusPower (K.totalBondedTokens s) (K.powerReduction s) = .ok total
      ∧ threshold = Rounding.halfEven (voteThreshold.raw * total) (10 ^ 18) := by
  obtain ⟨total, htotal, h⟩ := bind_eq_ok.mp h
  obtain ⟨votes, hvotes, h⟩ := bind_eq_ok.mp h
  obtain ⟨-, rfl⟩ := Fixed.checked_eq_ok_iff.mp hvotes
  obtain ⟨-, rfl⟩ := Fixed.checkedInt_eq_ok_iff.mp h
  exact ⟨total, htotal, rfl⟩

/-- **No stale prices.** When the end blocker completes at the last block of a vote period, and no
vote target is the empty text, the denoms with a rate afterwards are the vote targets behind which
there is power of active validators, not zero and at least the vote threshold of the bonded power
rounded to whole power. -/
theorem exchangeRates_of_endBlocker {K : Keepers σ} {H : Host} {S : Schedule} {height : ℕ}
    {w w' : World σ} (hlast : IsPeriodLast height w.store.params.votePeriod.toNat)
    (hname : "" ∉ w.store.tobinTaxes) (h : endBlocker K H S height w = .ok w') :
    ∃ claims total, activeClaims K H w.ext = .ok claims
      ∧ tokensToConsensusPower (K.totalBondedTokens w.ext) (K.powerReduction w.ext) = .ok total
      ∧ ∀ d, d ∈ w'.store.exchangeRates ↔ d ∈ w.store.tobinTaxes
        ∧ ballotPower w.store claims d ≠ 0
        ∧ Rounding.halfEven (w.store.params.voteThreshold.raw * total) (10 ^ 18)
          ≤ ballotPower w.store claims d := by
  obtain ⟨t, _, _, _, _, ht, -, hstore⟩ := endBlocker_store_of_last hlast h
  obtain ⟨claims, hclaims, ht⟩ := bind_eq_ok.mp ht
  obtain ⟨pick, hpick, ht⟩ := bind_eq_ok.mp ht
  obtain ⟨s, hrates, ht⟩ := bind_eq_ok.mp ht
  obtain rfl := Except.ok.inj ht
  obtain ⟨threshold, hthreshold, hspec⟩ := pickReferenceTerra_spec hpick
  obtain ⟨total, htotal, rfl⟩ := thresholdVotes_eq_ok hthreshold
  refine ⟨claims, total, hclaims, htotal, fun d => ?_⟩
  rw [hstore, mem_rates_of_updateRates hrates, hspec.mem_voteMap_iff, ← exists_passing_iff]
  exact ⟨fun hd => hd.2, fun hd => ⟨hspec.reference_ne_empty hname hd.choose_spec, hd⟩⟩

/-! ### A ballot below half of the power -/

/-- A validator of power two and one of power three. -/
def fiveUnits : List Validator :=
  [⟨"validator-a-of-terra", 2 * 10 ^ 6, true, false, some "a"⟩,
    ⟨"validator-b-of-terra", 3 * 10 ^ 6, true, false, some "b"⟩]

/-- The first of them voted for the dollar, the only vote target. -/
def twoOfFive : World (List Validator) where
  store := { emptyStore { blockParams with whitelist := [⟨"uusd", 0⟩] } with
    votes := (∅ : ExtTreeMap ValAddress AggregateExchangeRateVote).insert "validator-a-of-terra"
      ⟨[⟨"uusd", ⟨10 ^ 18⟩⟩], "terravaloper1weskc6tyv96x7u3dvykk7e3dw3jhyunpwz6935"⟩ }
  ext := fiveUnits

/-- Half of five units of power is rounded to two: a ballot of two fifths of the power passes the
threshold of one half, and the dollar has a price. -/
theorem endBlocker_prices_twoOfFive :
    IsPeriodLast 1 twoOfFive.store.params.votePeriod.toNat
      ∧ twoOfFive.store.params.voteThreshold = ⟨5 * 10 ^ 17⟩
      ∧ tokensToConsensusPower (staticKeepers.totalBondedTokens twoOfFive.ext)
          (staticKeepers.powerReduction twoOfFive.ext) = .ok 5
      ∧ (∃ claims, activeClaims staticKeepers (tableHost ⟨twoAccounts, [], []⟩) twoOfFive.ext
          = .ok claims ∧ ballotPower twoOfFive.store claims "uusd" = 2)
      ∧ ∃ w', endBlocker staticKeepers (tableHost ⟨twoAccounts, [], []⟩) Schedule.listed 1 twoOfFive
          = .ok w' ∧ "uusd" ∈ w'.store.exchangeRates := by
  refine ⟨by decide +kernel, rfl, rfl, ?_, ?_⟩
  · obtain ⟨claims, hclaims, hpower⟩ := exists_of_returns
      (p := fun claims : ClaimMap => decide (ballotPower twoOfFive.store claims "uusd" = 2))
      (x := activeClaims staticKeepers (tableHost ⟨twoAccounts, [], []⟩) twoOfFive.ext)
      (by decide +kernel)
    exact ⟨claims, hclaims, of_decide_eq_true hpower⟩
  · obtain ⟨w', hrun, hmem⟩ := exists_of_returns
      (p := fun w' : World (List Validator) => decide ("uusd" ∈ w'.store.exchangeRates))
      (x := endBlocker staticKeepers (tableHost ⟨twoAccounts, [], []⟩) Schedule.listed 1 twoOfFive)
      (by decide +kernel)
    exact ⟨w', hrun, of_decide_eq_true hmem⟩

/-- A vote target without a name, as the tobin taxes of a genesis file may have one, with the same
votes. -/
def namelessTarget : World (List Validator) where
  store := { emptyStore { blockParams with whitelist := [⟨"uusd", 0⟩] } with
    tobinTaxes := (∅ : TargetMap).insert "" 0
    votes := (∅ : ExtTreeMap ValAddress AggregateExchangeRateVote).insert "validator-a-of-terra"
      ⟨[⟨"", ⟨10 ^ 18⟩⟩], "terravaloper1weskc6tyv96x7u3dvykk7e3dw3jhyunpwz6935"⟩ }
  ext := fiveUnits

/-- The ballot of that target passes and is the reference, whose name is what the end blocker takes
for no reference at all: there is no tally, and the target has no price. -/
theorem endBlocker_noPrice_namelessTarget :
    IsPeriodLast 1 namelessTarget.store.params.votePeriod.toNat
      ∧ "" ∈ namelessTarget.store.tobinTaxes
      ∧ thresholdVotes staticKeepers namelessTarget.ext namelessTarget.store.params.voteThreshold
          = .ok 2
      ∧ (∃ claims, activeClaims staticKeepers (tableHost ⟨twoAccounts, [], []⟩) namelessTarget.ext
          = .ok claims ∧ ballotPower namelessTarget.store claims "" = 2)
      ∧ ∃ w', endBlocker staticKeepers (tableHost ⟨twoAccounts, [], []⟩) Schedule.listed 1
          namelessTarget = .ok w' ∧ "" ∉ w'.store.exchangeRates := by
  refine ⟨by decide +kernel, by decide +kernel, by decide +kernel, ?_, ?_⟩
  · obtain ⟨claims, hclaims, hpower⟩ := exists_of_returns
      (p := fun claims : ClaimMap => decide (ballotPower namelessTarget.store claims "" = 2))
      (x := activeClaims staticKeepers (tableHost ⟨twoAccounts, [], []⟩) namelessTarget.ext)
      (by decide +kernel)
    exact ⟨claims, hclaims, of_decide_eq_true hpower⟩
  · obtain ⟨w', hrun, hnot⟩ := exists_of_returns
      (p := fun w' : World (List Validator) => decide ("" ∉ w'.store.exchangeRates))
      (x := endBlocker staticKeepers (tableHost ⟨twoAccounts, [], []⟩) Schedule.listed 1
        namelessTarget)
      (by decide +kernel)
    exact ⟨w', hrun, of_decide_eq_true hnot⟩

/-- The denoms with a price, in the block of two fifths. -/
theorem exchangeRates_twoOfFive : ∃ w' claims,
    endBlocker staticKeepers (tableHost ⟨twoAccounts, [], []⟩) Schedule.listed 1 twoOfFive = .ok w'
      ∧ ∀ d, d ∈ w'.store.exchangeRates ↔ d ∈ twoOfFive.store.tobinTaxes
        ∧ ballotPower twoOfFive.store claims d ≠ 0 ∧ 2 ≤ ballotPower twoOfFive.store claims d := by
  obtain ⟨w', hrun, -⟩ := exists_of_returns (p := fun _ => true)
    (x := endBlocker staticKeepers (tableHost ⟨twoAccounts, [], []⟩) Schedule.listed 1 twoOfFive)
    (by decide +kernel)
  obtain ⟨claims, total, -, htotal, hmem⟩ :=
    exchangeRates_of_endBlocker (by decide +kernel) (by decide +kernel) hrun
  have hfive : total = 5 := (Except.ok.inj htotal).symm
  subst hfive
  exact ⟨w', claims, hrun, hmem⟩

end ColumbusCore.Oracle
