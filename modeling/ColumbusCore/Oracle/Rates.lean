import ColumbusCore.Oracle.Reference

/-!
The rate of one denom, whatever the order of votes and ballots.

* `GoodBallot`: what every ballot of admitted votes satisfies (`goodBallot_of_collectBallots`);
* `toMap_perm`, `toCrossRate_toMap`: the reference rates and the cross rates of a ballot do not
  depend on its order;
* `rateOf`: the rate of a denom, in terms of the medians of the ballots;
* `updateRate_map_rates`: **one round of the tally adds that rate**;
* `updateRates_eq_error`, `updateRates_eq_ok`: and so does the whole loop, `tallyVotes_eq_error`
  and `tallyVotes_eq_ok` for a block.
-/

namespace ColumbusCore.Oracle

open Go WeightedMedian
open Std (ExtTreeMap)

variable {σ : Type}

/-! ### Ballots of admitted votes -/

/-- A ballot collected from admitted votes. -/
structure GoodBallot (b : ExchangeRateBallot) : Prop where
  ne_nil : b ≠ []
  powers : NonnegPowers b
  abstain : ∀ v ∈ b, ¬ v.exchangeRate.IsPositive → v.power = 0
  rates : RatesFit b
  voters : (b.map VoteForTally.voter).Nodup

lemma goodBallot_of_collectBallots {H : Host} {s : Store} (hs : VotesAdmitted H s)
    {claims : ClaimMap} (hc : FreshClaims claims) {d : Denom} {b : ExchangeRateBallot}
    (hb : (collectBallots s claims)[d]? = some b) : GoodBallot b := by
  obtain ⟨hne, hall⟩ := collectBallots_forall (fun v =>
      (¬ v.exchangeRate.IsPositive → v.power = 0)
        ∧ 0 ≤ v.exchangeRate.raw ∧ Fixed.Fits decFormat v.exchangeRate.raw)
    (fun a v hv c hcv t ht => by
      refine ⟨fun hneg => ?_, (hs a v hv).rates t ht⟩
      rw [ballotEntry]
      exact if_neg hneg) hb
  exact ⟨hne, nonnegPowers_collectBallots (fun k c hk => (hc k c hk).1) hb,
    fun v hv => (hall v hv).1, fun v hv => (hall v hv).2, collectBallots_voters_nodup hs hb⟩

/-- The median of a ballot is the rate of one of its votes. -/
lemma exists_vote_weightedMedian_sort (S : Schedule) {b : ExchangeRateBallot} (hn : NonnegPowers b)
    (hne : b ≠ []) : ∃ v ∈ b, v.exchangeRate = weightedMedian (S.sort b) := by
  have hp := S.sort_perm b
  have hne' : S.sort b ≠ [] := fun h => hne (List.nil_perm.mp (h ▸ hp))
  obtain ⟨v, hv, -, hvm⟩ := exists_weightedMedian (hn.perm hp.symm) hne'
  exact ⟨v, hp.mem_iff.mp hv, hvm.symm⟩

/-! ### Reference rates -/

/-- With one vote for each voter, the reference rates are the positive votes. -/
lemma getElem?_toMap {b : ExchangeRateBallot} (hn : (b.map VoteForTally.voter).Nodup)
    {a : ValAddress} {r : Dec} :
    (toMap b)[a]? = some r ↔ ∃ v ∈ b, v.voter = a ∧ v.exchangeRate = r ∧ r.IsPositive := by
  suffices key : ∀ (a : ValAddress) (r : Dec), (toMap b)[a]? = some r
      ↔ ∃ v ∈ b, v.voter = a ∧ v.exchangeRate = r ∧ r.IsPositive from key a r
  refine foldl_induction (fun (pre : List VoteForTally) (m : ExtTreeMap ValAddress Dec) =>
    ∀ (a : ValAddress) (r : Dec), m[a]? = some r
      ↔ ∃ v ∈ pre, v.voter = a ∧ v.exchangeRate = r ∧ r.IsPositive) ?_ ?_
  · intro a r
    simp
  intro pre v post m hl hm a r
  have hfresh : ∀ u ∈ pre, u.voter ≠ v.voter := by
    rw [hl, List.map_append, List.nodup_append] at hn
    exact fun u hu => hn.2.2 _ (List.mem_map.mpr ⟨u, hu, rfl⟩) _ (by simp)
  have hsplit : (∃ u ∈ pre ++ [v], u.voter = a ∧ u.exchangeRate = r ∧ r.IsPositive)
      ↔ (∃ u ∈ pre, u.voter = a ∧ u.exchangeRate = r ∧ r.IsPositive)
        ∨ (v.voter = a ∧ v.exchangeRate = r ∧ r.IsPositive) := by
    simp [or_and_right, exists_or]
  rw [hsplit]
  by_cases hv : v.exchangeRate.IsPositive
  · rw [if_pos hv, getElem?_insert_ite]
    by_cases hva : v.voter = a
    · have hno : ¬ ∃ u ∈ pre, u.voter = a ∧ u.exchangeRate = r ∧ r.IsPositive := by
        rintro ⟨u, hu, hua, -⟩
        exact hfresh u hu (hua.trans hva.symm)
      rw [if_pos hva, Option.some.injEq]
      constructor
      · rintro rfl
        exact Or.inr ⟨hva, rfl, hv⟩
      · exact fun h => (h.resolve_left hno).2.1
    · rw [if_neg hva, hm]
      simp [hva]
  · rw [if_neg hv, hm]
    constructor
    · exact Or.inl
    · rintro (h | ⟨-, rfl, hpos⟩)
      · exact h
      · exact absurd hpos hv

lemma toMap_perm {b b' : ExchangeRateBallot} (hn : (b.map VoteForTally.voter).Nodup)
    (hp : b.Perm b') : toMap b = toMap b' := by
  refine ExtTreeMap.ext_getElem? fun a => Option.ext fun r => ?_
  rw [getElem?_toMap hn, getElem?_toMap ((hp.map _).nodup_iff.mp hn)]
  simp only [hp.mem_iff]

/-! ### Cross rates -/

/-- The voter gave a rate for both denoms. -/
def Shared (ref : ExchangeRateBallot) (v : VoteForTally) : Prop :=
  v.voter ∈ toMap ref ∧ v.exchangeRate.IsPositive

instance (ref : ExchangeRateBallot) (v : VoteForTally) : Decidable (Shared ref v) :=
  inferInstanceAs (Decidable (_ ∧ _))

/-- The raw cross rate of a voter, zero without a rate for both denoms. -/
def crossRaw (ref : ExchangeRateBallot) (v : VoteForTally) : ℤ :=
  if Shared ref v then
    Fixed.quoRaw decFormat ((toMap ref).getD v.voter 0).raw v.exchangeRate.raw
  else 0

/-- The power a vote keeps under conversion. -/
def crossPower (ref : ExchangeRateBallot) (v : VoteForTally) : ℤ :=
  if Shared ref v then v.power else 0

lemma crossRaw_nonneg (ref : ExchangeRateBallot) (v : VoteForTally) : 0 ≤ crossRaw ref v := by
  rw [crossRaw]
  split_ifs with h
  · obtain ⟨r, hr⟩ := Option.isSome_iff_exists.mp (ExtTreeMap.mem_iff_isSome_getElem?.mp h.1)
    have hpos : 0 < r.raw := isPositive_of_toMap hr
    have hv : 0 < v.exchangeRate.raw := h.2
    rw [ExtTreeMap.getD_eq_getD_getElem?, hr]
    exact Fixed.quoRaw_nonneg hpos.le hv.le
  · exact le_rfl

/-- The converted vote: its cross rate, with the power it keeps. -/
def crossed (ref : ExchangeRateBallot) (v : VoteForTally) : VoteForTally :=
  { v with exchangeRate := ⟨crossRaw ref v⟩, power := crossPower ref v }

/-- A vote is converted unless its cross rate leaves the bit limit. -/
lemma crossVote_toMap (ref : ExchangeRateBallot) (v : VoteForTally) :
    crossVote (toMap ref) v
      = if Fixed.Fits decFormat (crossRaw ref v) then .ok (crossed ref v)
        else .error (.panic .overflow) := by
  by_cases h : Shared ref v
  · obtain ⟨r, hr⟩ := Option.isSome_iff_exists.mp (ExtTreeMap.mem_iff_isSome_getElem?.mp h.1)
    have hv : v.exchangeRate.raw ≠ 0 := ne_of_gt h.2
    have hraw : crossRaw ref v = Fixed.quoRaw decFormat r.raw v.exchangeRate.raw := by
      rw [crossRaw, if_pos h, ExtTreeMap.getD_eq_getD_getElem?, hr]
      rfl
    rw [crossVote_of_positive hr h.2, Fixed.quo, if_neg hv, Fixed.checked, ← hraw, crossed,
      crossPower, if_pos h]
    split_ifs <;> rfl
  · have hfit : Fixed.Fits decFormat 0 := by show (0 : ℤ).natAbs < _; simp
    rw [crossVote_of_not_shared h, crossed, crossRaw, if_neg h, if_pos hfit, crossPower, if_neg h]
    rfl

/-- A converted vote keeps its power or loses it. -/
lemma crossVote_power {bases : ExtTreeMap ValAddress Dec} {v v' : VoteForTally}
    (h : crossVote bases v = .ok v') (hv : 0 ≤ v.power) : 0 ≤ v'.power := by
  by_cases hshared : v.voter ∈ bases ∧ v.exchangeRate.IsPositive
  · obtain ⟨r, hr⟩ := Option.isSome_iff_exists.mp (ExtTreeMap.mem_iff_isSome_getElem?.mp hshared.1)
    rw [crossVote_of_positive hr hshared.2] at h
    obtain ⟨q, -, rfl⟩ := map_eq_ok_iff.mp h
    exact hv
  · rw [crossVote_of_not_shared hshared] at h
    obtain rfl := Except.ok.inj h
    exact le_rfl

/-- So do the votes of a converted ballot. -/
lemma nonnegPowers_toCrossRateWithSort {S : Schedule} {pb : ExchangeRateBallot}
    (hn : NonnegPowers pb) {bases : ExtTreeMap ValAddress Dec} {cb : ExchangeRateBallot}
    (h : toCrossRateWithSort S pb bases = .ok cb) : NonnegPowers cb := by
  obtain ⟨c, hc, h⟩ := bind_eq_ok.mp h
  obtain rfl := Except.ok.inj h
  have hcross : NonnegPowers c := by
    intro v hv
    obtain ⟨u, hu, huv⟩ := exists_of_mem_mapM hc v hv
    exact crossVote_power huv (hn u hu)
  exact hcross.perm (S.sort_perm c).symm

/-- Every cross rate of the ballot is within the bit limit. -/
def CrossFits (ref b : ExchangeRateBallot) : Prop :=
  ∀ v ∈ b, Fixed.Fits decFormat (crossRaw ref v)

instance (ref b : ExchangeRateBallot) : Decidable (CrossFits ref b) :=
  inferInstanceAs (Decidable (∀ v ∈ b, Fixed.Fits decFormat (crossRaw ref v)))

/-- **The conversion of a ballot** converts its votes, unless a cross rate leaves the bit
limit. -/
theorem toCrossRate_toMap (ref b : ExchangeRateBallot) :
    toCrossRate b (toMap ref)
      = if CrossFits ref b then .ok (b.map (crossed ref)) else .error (.panic .overflow) :=
  mapM_of_ite (crossVote_toMap ref) b

lemma crossPower_nonneg {ref : ExchangeRateBallot} {v : VoteForTally} (hv : 0 ≤ v.power) :
    0 ≤ crossPower ref v := by
  rw [crossPower]
  split_ifs
  · exact hv
  · exact le_rfl

lemma nonnegPowers_crossed {ref b : ExchangeRateBallot} (h : NonnegPowers b) :
    NonnegPowers (b.map (crossed ref)) := by
  intro w hw
  obtain ⟨v, hv, rfl⟩ := List.mem_map.mp hw
  exact crossPower_nonneg (h v hv)

lemma ratesFit_crossed {ref b : ExchangeRateBallot} (h : CrossFits ref b) :
    RatesFit (b.map (crossed ref)) := by
  intro w hw
  obtain ⟨v, hv, rfl⟩ := List.mem_map.mp hw
  exact ⟨crossRaw_nonneg ref v, h v hv⟩

lemma CrossFits.perm {ref b b' : ExchangeRateBallot} (hp : b.Perm b') :
    CrossFits ref b ↔ CrossFits ref b' := by
  simp only [CrossFits, hp.mem_iff]

lemma bandFits_perm {H : Host} {rewardBand m : Dec} {b b' : ExchangeRateBallot} (hp : b.Perm b') :
    BandFits H rewardBand b m ↔ BandFits H rewardBand b' m := by
  rw [BandFits, BandFits, rewardSpread_perm H hp]

/-! ### The rate of a denom -/

/-- The median of a ballot in any order. -/
def medianOf (b : ExchangeRateBallot) : Dec := weightedMedian (Schedule.listed.sort b)

lemma isBallotMedian_medianOf {b : ExchangeRateBallot} (hn : NonnegPowers b) (hne : b ≠ []) :
    IsBallotMedian b (medianOf b) :=
  (weightedMedian_sort Schedule.listed hn hne).mpr rfl

lemma GoodBallot.isBallotMedian {b : ExchangeRateBallot} (hb : GoodBallot b) :
    IsBallotMedian b (medianOf b) :=
  isBallotMedian_medianOf hb.powers hb.ne_nil

lemma GoodBallot.isBallotMedian_crossed {b : ExchangeRateBallot} (hb : GoodBallot b)
    (ref : ExchangeRateBallot) :
    IsBallotMedian (b.map (crossed ref)) (medianOf (b.map (crossed ref))) :=
  isBallotMedian_medianOf (nonnegPowers_crossed hb.powers) (by simpa using hb.ne_nil)

/-- Every sort of a ballot gives the same median. -/
lemma weightedMedian_sort_eq (S : Schedule) {b : ExchangeRateBallot} (hn : NonnegPowers b)
    (hne : b ≠ []) : weightedMedian (S.sort b) = medianOf b :=
  (weightedMedian_sort S hn hne).mp (isBallotMedian_medianOf hn hne)

instance (H : Host) (rewardBand : Dec) (b : ExchangeRateBallot) (m : Dec) :
    Decidable (BandFits H rewardBand b m) :=
  match h : rewardSpread H b m rewardBand with
  | .ok s => decidable_of_iff (Fixed.Fits decFormat (m.raw + s.raw))
      ⟨fun hfit s' hs' => Except.ok.inj (h.symm.trans hs') ▸ hfit, fun hall => hall s h⟩
  | .error _ => isTrue fun s' hs' => absurd (h.symm.trans hs') (by simp)

/-- The median of a ballot, unless the reward band around it leaves the bit limit. -/
def talliedMedian (H : Host) (rewardBand : Dec) (b : ExchangeRateBallot) : Outcome Dec :=
  if BandFits H rewardBand b (medianOf b) then .ok (medianOf b) else .error (.panic .overflow)

/-- **The rate of a denom**, as a function of its ballot and of the reference ballot: the median
of the reference ballot itself, or that median divided by the median of the cross rates. -/
def rateOf (H : Host) (rewardBand : Dec) (r : Denom) (ref : ExchangeRateBallot) (d : Denom)
    (b : ExchangeRateBallot) : Outcome Dec :=
  if d = r then talliedMedian H rewardBand ref
  else if CrossFits ref b then do
    let m ← talliedMedian H rewardBand (b.map (crossed ref))
    (medianOf ref).quo m
  else .error (.panic .overflow)

/-- The tally of a sorted ballot, up to the claims. -/
lemma tally_map_fst {H : Host} (hH : H.SqrtBounded) (S : Schedule) {b b' : ExchangeRateBallot}
    {rewardBand : Dec} (hb : outOfUnit rewardBand = false) (hp : b'.Perm b) (hne : b ≠ [])
    (hpow : NonnegPowers b) (hrates : RatesFit b) (claims : ClaimMap) :
    (tally H (S.sort b') rewardBand claims).map Prod.fst = talliedMedian H rewardBand b := by
  have hp' : (S.sort b').Perm b := (S.sort_perm b').trans hp
  have hne' : S.sort b' ≠ [] := fun h => hne (List.nil_perm.mp (h ▸ hp'))
  have hmed : weightedMedian (S.sort b') = medianOf b := by
    have hn' := hpow.perm hp.symm
    have hne'' : b' ≠ [] := fun h => hne (List.nil_perm.mp (h ▸ hp))
    rw [← weightedMedian_sort S hn' hne'', isBallotMedian_perm hp]
    exact isBallotMedian_medianOf hpow hne
  have herr : ∀ e, tally H (S.sort b') rewardBand claims = .error e
      ↔ e = .panic .overflow ∧ ¬ BandFits H rewardBand b (medianOf b) := fun e => by
    rw [← hmed, ← bandFits_perm hp']
    exact tally_eq_error_iff hH hb hne' (hpow.perm hp'.symm)
      fun v hv => hrates v (hp'.mem_iff.mp hv)
  rw [talliedMedian]
  cases ht : tally H (S.sort b') rewardBand claims with
  | ok t =>
      have hfit : BandFits H rewardBand b (medianOf b) := by
        by_contra hno
        exact absurd ((herr _).mpr ⟨rfl, hno⟩) (by simp [ht])
      rw [if_pos hfit, Except.map, (tally_eq_ok ht).1, hmed]
  | error e =>
      obtain ⟨rfl, hno⟩ := (herr e).mp ht
      rw [if_neg hno, Except.map]

/-- **One round of the tally computes the rate of its denom**, whatever the sort. -/
theorem updateRate_map_rates {H : Host} (hH : H.SqrtBounded) (S : Schedule) {rewardBand : Dec}
    (hb : outOfUnit rewardBand = false) {r d : Denom} {ref b : ExchangeRateBallot}
    (href : GoodBallot ref) (hgood : GoodBallot b) (hr : d = r → b = ref) (s : RateState) :
    (updateRate H S rewardBand r (S.sort ref) s (d, S.sort b)).map RateState.rates
      = (rateOf H rewardBand r ref d b).map fun x => s.rates.insert d x := by
  rw [updateRate, rateOf]
  by_cases hd : d = r
  · obtain rfl := hr hd
    simp only [if_pos hd]
    rw [← tally_map_fst hH S hb (List.Perm.refl b) href.ne_nil href.powers href.rates s.claims]
    cases tally H (S.sort b) rewardBand s.claims with
    | ok t => rfl
    | error e => rfl
  · simp only [if_neg hd]
    have hperm := S.sort_perm b
    have hbases : toMap (S.sort ref) = toMap ref :=
      (toMap_perm href.voters (S.sort_perm ref).symm).symm
    rw [toCrossRateWithSort, hbases, toCrossRate_toMap]
    by_cases hfits : CrossFits ref b
    · have hne : b.map (crossed ref) ≠ [] := by simpa using hgood.ne_nil
      rw [if_pos hfits, if_pos ((CrossFits.perm hperm).mpr hfits), ok_bind, pure_eq_ok, ok_bind,
        ← tally_map_fst hH S hb (hperm.map (crossed ref)) hne (nonnegPowers_crossed hgood.powers)
          (ratesFit_crossed hfits) s.claims, weightedMedian_sort_eq S href.powers href.ne_nil]
      cases tally H (S.sort ((S.sort b).map (crossed ref))) rewardBand s.claims with
      | error e => rfl
      | ok t =>
          show ((medianOf ref).quo t.1 >>= fun x =>
              (.ok ⟨s.rates.insert d x, t.2⟩ : Outcome RateState)).map RateState.rates
            = ((medianOf ref).quo t.1).map fun x => s.rates.insert d x
          cases (medianOf ref).quo t.1 with
          | ok x => rfl
          | error e => rfl
    · rw [if_neg hfits, if_neg (fun h => hfits ((CrossFits.perm hperm).mp h)), error_bind,
        error_bind]
      rfl

/-! ### The loop over the ballots -/

section Loop

variable {H : Host} {S : Schedule} {rewardBand : Dec} {targets : TargetMap} {ballots : BallotMap}
  {threshold : ℤ} {p : PickState} {ref : ExchangeRateBallot} {claims : ClaimMap}

lemma IsReference.eq_ref {r : Denom} {b : ExchangeRateBallot}
    (h : IsReference targets ballots threshold r ref)
    (hb : Passing targets ballots threshold r b) : b = ref :=
  Option.some.inj (hb.2.1.symm.trans h.1.2.1)

/-- A round of the loop, for a passing ballot. -/
lemma updateRate_passing (hH : H.SqrtBounded) (hb : outOfUnit rewardBand = false)
    (hgood : ∀ (d : Denom) b, ballots[d]? = some b → GoodBallot b) {r d : Denom}
    (href : IsReference targets ballots threshold r ref) {b : ExchangeRateBallot}
    (hd : Passing targets ballots threshold d b) (s : RateState) :
    (updateRate H S rewardBand r (S.sort ref) s (d, S.sort b)).map RateState.rates
      = (rateOf H rewardBand r ref d b).map fun x => s.rates.insert d x := by
  refine updateRate_map_rates hH S hb (hgood r ref href.1.2.1) (hgood d b hd.2.1) ?_ s
  rintro rfl
  exact href.eq_ref hd

/-- The entries the loop visits are the passing ballots, sorted. -/
lemma PickSpec.mem_visit (hp : PickSpec S targets ballots threshold p) {d : Denom}
    {b' : ExchangeRateBallot} :
    (d, b') ∈ S.rangeTally.visit p.voteMap.toList
      ↔ ∃ b, Passing targets ballots threshold d b ∧ b' = S.sort b := by
  rw [RangeOrder.mem_visit_toList, hp.ballots_iff]

lemma PickSpec.getD_reference (hp : PickSpec S targets ballots threshold p)
    (href : IsReference targets ballots threshold p.referenceTerra ref) :
    p.voteMap.getD p.referenceTerra [] = S.sort ref := by
  rw [ExtTreeMap.getD_eq_getD_getElem?, (hp.ballots_iff _ _).mpr ⟨ref, href.1, rfl⟩]
  rfl

/-- **A fault of the tally is a fault of the rate of some passing denom.** -/
theorem updateRates_eq_error (hH : H.SqrtBounded) (hb : outOfUnit rewardBand = false)
    (hgood : ∀ (d : Denom) b, ballots[d]? = some b → GoodBallot b)
    (hp : PickSpec S targets ballots threshold p)
    (href : IsReference targets ballots threshold p.referenceTerra ref) {e : Fault}
    (h : updateRates H S rewardBand p claims = .error e) :
    ∃ d b, Passing targets ballots threshold d b
      ∧ rateOf H rewardBand p.referenceTerra ref d b = .error e := by
  rw [updateRates, hp.getD_reference href] at h
  split_ifs at h
  · exact absurd h (by simp)
  obtain ⟨pre, x, post, s, hl, -, hx⟩ :=
    exists_of_foldlM_error (fun _ _ => True) h trivial fun _ _ _ _ _ _ _ _ => trivial
  obtain ⟨b, hpass, hxb⟩ := hp.mem_visit.mp (show (x.1, x.2) ∈ _ by rw [hl]; simp)
  refine ⟨x.1, b, hpass, ?_⟩
  have hround := updateRate_passing (S := S) hH hb hgood href hpass s
  rw [← hxb, hx] at hround
  exact map_eq_error_iff.mp hround.symm

/-- **When the tally returns, it has written the rate of every passing denom**, and nothing
else. -/
theorem updateRates_eq_ok (hH : H.SqrtBounded) (hb : outOfUnit rewardBand = false)
    (hgood : ∀ (d : Denom) b, ballots[d]? = some b → GoodBallot b)
    (hp : PickSpec S targets ballots threshold p) (hne : p.referenceTerra ≠ "")
    (href : IsReference targets ballots threshold p.referenceTerra ref) {s : RateState}
    (h : updateRates H S rewardBand p claims = .ok s) (d : Denom) (x : Dec) :
    s.rates[d]? = some x ↔ ∃ b, Passing targets ballots threshold d b
      ∧ rateOf H rewardBand p.referenceTerra ref d b = .ok x := by
  rw [updateRates, if_neg hne, hp.getD_reference href] at h
  have hnodup := S.rangeTally.nodup_visit_keys p.voteMap
  -- after some rounds, the rates are those of the denoms visited so far
  have key : ∀ (d : Denom) (x : Dec), s.rates[d]? = some x
      ↔ ∃ b, (d, S.sort b) ∈ S.rangeTally.visit p.voteMap.toList
        ∧ Passing targets ballots threshold d b
        ∧ rateOf H rewardBand p.referenceTerra ref d b = .ok x := by
    refine foldlM_induction (fun pre (s : RateState) => ∀ (d : Denom) (x : Dec),
      s.rates[d]? = some x ↔ ∃ b, (d, S.sort b) ∈ pre ∧ Passing targets ballots threshold d b
        ∧ rateOf H rewardBand p.referenceTerra ref d b = .ok x) h (fun d x => by simp) ?_
    rintro pre ⟨d₀, b₀'⟩ post c c' hl hc hround d x
    obtain ⟨b₀, hpass, rfl⟩ := hp.mem_visit.mp (show (d₀, b₀') ∈ _ by rw [hl]; simp)
    have hrates := updateRate_passing (S := S) hH hb hgood href hpass c
    rw [hround] at hrates
    obtain ⟨x₀, hx₀, hins⟩ := map_eq_ok_iff.mp hrates.symm
    rw [← hins, getElem?_insert_ite]
    by_cases hd : d₀ = d
    · subst hd
      have hfresh : ∀ b, (d₀, S.sort b) ∉ pre := fun b hmem =>
        not_mem_keys_of_append hnodup hl (List.mem_map.mpr ⟨_, hmem, rfl⟩)
      rw [if_pos rfl, Option.some.injEq]
      constructor
      · rintro rfl
        exact ⟨b₀, by simp, hpass, hx₀⟩
      · rintro ⟨b, -, hb', hx⟩
        obtain rfl := Option.some.inj (hb'.2.1.symm.trans hpass.2.1)
        exact Except.ok.inj (hx₀.symm.trans hx)
    · rw [if_neg hd, hc]
      refine exists_congr fun b => and_congr_left fun _ => ?_
      simp [Ne.symm hd]
  rw [key]
  constructor
  · rintro ⟨b, -, hpass, hx⟩
    exact ⟨b, hpass, hx⟩
  · rintro ⟨b, hpass, hx⟩
    exact ⟨b, hp.mem_visit.mpr ⟨b, hpass, rfl⟩, hpass, hx⟩

/-- When the tally returns, so does the rate of every passing denom. -/
lemma rateOf_eq_ok_of_updateRates (hH : H.SqrtBounded) (hb : outOfUnit rewardBand = false)
    (hgood : ∀ (d : Denom) b, ballots[d]? = some b → GoodBallot b)
    (hp : PickSpec S targets ballots threshold p) (hne : p.referenceTerra ≠ "")
    (href : IsReference targets ballots threshold p.referenceTerra ref) {s : RateState}
    (h : updateRates H S rewardBand p claims = .ok s) {d : Denom} {b : ExchangeRateBallot}
    (hpass : Passing targets ballots threshold d b) :
    ∃ x, rateOf H rewardBand p.referenceTerra ref d b = .ok x := by
  rw [updateRates, if_neg hne, hp.getD_reference href] at h
  obtain ⟨c, c', hround⟩ := exists_round_of_foldlM h _ (hp.mem_visit.mpr ⟨b, hpass, rfl⟩)
  have hrates := updateRate_passing (S := S) hH hb hgood href hpass c
  rw [hround] at hrates
  obtain ⟨x, hx, -⟩ := map_eq_ok_iff.mp hrates.symm
  exact ⟨x, hx⟩

end Loop

/-! ### The tally of a block -/

/-- The ballots of a block and the power they have to reach. -/
def BlockBallots (K : Keepers σ) (H : Host) (w : World σ) (ballots : BallotMap)
    (threshold : ℤ) : Prop :=
  ∃ claims, activeClaims K H w.ext = .ok claims ∧ ballots = collectBallots w.store claims
    ∧ thresholdVotes K w.ext w.store.params.voteThreshold = .ok threshold

lemma BlockBallots.unique {K : Keepers σ} {H : Host} {w : World σ} {ballots ballots' : BallotMap}
    {threshold threshold' : ℤ} (h : BlockBallots K H w ballots threshold)
    (h' : BlockBallots K H w ballots' threshold') :
    ballots = ballots' ∧ threshold = threshold' := by
  obtain ⟨claims, hc, rfl, ht⟩ := h
  obtain ⟨claims', hc', rfl, ht'⟩ := h'
  obtain rfl := Except.ok.inj (hc.symm.trans hc')
  exact ⟨rfl, Except.ok.inj (ht.symm.trans ht')⟩

/-- The threshold can only fail by an overflow. -/
lemma thresholdVotes_error {K : Keepers σ} {s : σ} (hs : StakingLawful K s) {x : Dec} {e : Fault}
    (h : thresholdVotes K s x = .error e) : e = .panic .overflow := by
  rw [thresholdVotes,
    tokensToConsensusPower_eq_ok hs.reduction_pos hs.total_nonneg hs.total_lt, ok_bind] at h
  rcases bind_eq_error.mp h with h | ⟨_, -, h⟩
  · exact (Fixed.checked_eq_error_iff.mp h).2
  · exact (Fixed.checkedInt_eq_error_iff.mp h).2

section Block

variable {K : Keepers σ} {H : Host} {w : World σ}

lemma BlockBallots.good (hs : StakingLawful K w.ext) (hw : w.store.Sound H) {ballots : BallotMap}
    {threshold : ℤ} (h : BlockBallots K H w ballots threshold) :
    ∀ (d : Denom) b, ballots[d]? = some b → GoodBallot b := by
  obtain ⟨claims, hc, rfl, -⟩ := h
  obtain ⟨claims', hc', hfresh⟩ := activeClaims_eq_ok H hs
  obtain rfl := Except.ok.inj (hc.symm.trans hc')
  exact fun d b hb => goodBallot_of_collectBallots hw.votes hfresh hb

/-- The tally of a block, with the claims made and the reference picked. -/
lemma tallyVotes_eq (S : Schedule) (hs : StakingLawful K w.ext)
    {threshold : ℤ}
    (ht : thresholdVotes K w.ext w.store.params.voteThreshold = .ok threshold) :
    ∃ ballots claims p, BlockBallots K H w ballots threshold
      ∧ PickSpec S w.store.tobinTaxes ballots threshold p
      ∧ tallyVotes K H S w = (updateRates H S w.store.params.rewardBand p claims).map
          fun r => ⟨r.rates, r.claims, p.voteTargets⟩ := by
  obtain ⟨claims, hc, hfresh⟩ := activeClaims_eq_ok H hs
  have hpick : ∃ p, pickReferenceTerra K S w.ext w.store.params.voteThreshold w.store.tobinTaxes
      (sortBallots S (collectBallots w.store claims)) = .ok p := by
    rw [pickReferenceTerra, ht, ok_bind]
    exact ⟨_, rfl⟩
  obtain ⟨p, hp⟩ := hpick
  obtain ⟨threshold', ht', hspec⟩ := pickReferenceTerra_spec hp
  obtain rfl := Except.ok.inj (ht.symm.trans ht')
  refine ⟨_, claims, p, ⟨claims, hc, rfl, ht⟩, hspec, ?_⟩
  rw [tallyVotes, hc, ok_bind, organizeBallotByDenom, hp, ok_bind]
  cases updateRates H S w.store.params.rewardBand p claims with
  | ok r => rfl
  | error e => rfl

/-- **A fault of the tally of a block**: the threshold or the rate of a passing denom. -/
theorem tallyVotes_eq_error (hH : H.SqrtBounded) {S : Schedule} (hs : StakingLawful K w.ext)
    (hw : w.store.Sound H) (hb : outOfUnit w.store.params.rewardBand = false) {e : Fault}
    (h : tallyVotes K H S w = .error e) :
    thresholdVotes K w.ext w.store.params.voteThreshold = .error e
      ∨ ∃ ballots threshold r ref d b,
      BlockBallots K H w ballots threshold
        ∧ r ≠ "" ∧ IsReference w.store.tobinTaxes ballots threshold r ref
        ∧ Passing w.store.tobinTaxes ballots threshold d b
        ∧ rateOf H w.store.params.rewardBand r ref d b = .error e := by
  cases ht : thresholdVotes K w.ext w.store.params.voteThreshold with
  | error e' =>
      left
      obtain ⟨claims, hc, -⟩ := activeClaims_eq_ok H hs
      rw [tallyVotes, hc, ok_bind, pickReferenceTerra, ht, error_bind, error_bind] at h
      rw [Except.error.inj h]
  | ok threshold =>
      obtain ⟨ballots, claims, p, hblock, hp, heq⟩ := tallyVotes_eq S hs ht
      rw [heq, map_eq_error_iff] at h
      have hne : p.referenceTerra ≠ "" := fun h0 => by
        rw [updateRates, if_pos h0] at h
        simp at h
      rcases hp.reference with ⟨h0, -⟩ | ⟨ref, href⟩
      · exact absurd h0 hne
      · obtain ⟨d, b, hpass, hrate⟩ :=
          updateRates_eq_error hH hb (hblock.good hs hw) hp href h
        exact Or.inr ⟨ballots, threshold, _, ref, d, b, hblock, hne, href, hpass, hrate⟩

/-- **What the tally of a block returns**: the targets without the failing ballots, and the rate
of every passing denom, where there is a reference denom. -/
theorem tallyVotes_eq_ok (hH : H.SqrtBounded) {S : Schedule} (hs : StakingLawful K w.ext)
    (hw : w.store.Sound H) (hb : outOfUnit w.store.params.rewardBand = false) {t : Tallied}
    (h : tallyVotes K H S w = .ok t) :
    ∃ ballots threshold, BlockBallots K H w ballots threshold
      ∧ ((t.rates = ∅ ∧ ∀ r ref, IsReference w.store.tobinTaxes ballots threshold r ref → r = "")
        ∨ ∃ r ref, r ≠ "" ∧ IsReference w.store.tobinTaxes ballots threshold r ref
          ∧ (∀ (d : Denom) (x : Dec), t.rates[d]? = some x
            ↔ ∃ b, Passing w.store.tobinTaxes ballots threshold d b
              ∧ rateOf H w.store.params.rewardBand r ref d b = .ok x)
          ∧ ∀ d b, Passing w.store.tobinTaxes ballots threshold d b →
            ∃ x, rateOf H w.store.params.rewardBand r ref d b = .ok x) := by
  cases ht : thresholdVotes K w.ext w.store.params.voteThreshold with
  | error e =>
      obtain ⟨claims, hc, -⟩ := activeClaims_eq_ok H hs
      rw [tallyVotes, hc, ok_bind, pickReferenceTerra, ht, error_bind, error_bind] at h
      exact absurd h (by simp)
  | ok threshold =>
      obtain ⟨ballots, claims, p, hblock, hp, heq⟩ := tallyVotes_eq S hs ht
      rw [heq, map_eq_ok_iff] at h
      obtain ⟨s, hrun, rfl⟩ := h
      refine ⟨ballots, threshold, hblock, ?_⟩
      by_cases hne : p.referenceTerra = ""
      · -- nothing is tallied without a reference denom
        left
        rw [updateRates, if_pos hne] at hrun
        obtain rfl := Except.ok.inj hrun
        refine ⟨rfl, fun r ref href => ?_⟩
        rcases hp.reference with ⟨-, hno⟩ | ⟨ref', href'⟩
        · exact absurd href.1 (hno r ref)
        · rw [(href.unique href').1, hne]
      · right
        rcases hp.reference with ⟨h0, -⟩ | ⟨ref, href⟩
        · exact absurd h0 hne
        · have hgood := hblock.good hs hw
          exact ⟨_, ref, hne, href, updateRates_eq_ok hH hb hgood hp hne href hrun,
            fun d b hpass => rateOf_eq_ok_of_updateRates hH hb hgood hp hne href hrun hpass⟩

end Block

end ColumbusCore.Oracle
