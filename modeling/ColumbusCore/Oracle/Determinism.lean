import ColumbusCore.Oracle.Rates
import ColumbusCore.Oracle.StaticChain

/-!
The end of a block does not depend on the orders Go leaves open.

Two nodes may visit the vote map, the vote targets and the claims in different orders, and may
place votes of equal rates differently. `endBlocker_agrees` (**determinism**): the two either both
panic, or reach the same state, whatever the store and the staking state.

* `credit`, `tally_eq_credits`: what a ballot adds to the claims does not look at them, and
  additions commute;
* `tally_agrees`, `updateRate_agrees`: one ballot, sorted in two ways;
* `updateRate_comm`, `updateRates_agrees`, `tallyVotes_agrees`: all ballots, in two orders;
* `countMisses_perm`, `rewardBallotWinners_agrees`: the loops over the claims and the targets.
-/

namespace ColumbusCore.Oracle

open Go WeightedMedian
open Std (ExtTreeMap)

variable {σ : Type}

/-! ### Credits -/

/-- What a vote adds to the claims: the key of the voter and its power, for winners and
abstainers. -/
def creditOf (H : Host) (median spread : Dec) (v : VoteForTally) : Outcome (Option (String × ℤ)) := do
  let within ← inBand median spread v.exchangeRate
  pure (if within ∨ ¬ v.exchangeRate.IsPositive then some (H.valString v.voter, v.power) else none)

/-- A credit is added to the claim of its key. -/
def credit (claims : ClaimMap) : Option (String × ℤ) → ClaimMap
  | none => claims
  | some (key, power) =>
      let claim := claims.getD key default
      claims.insert key { claim with weight := claim.weight + power, winCount := claim.winCount + 1 }

lemma creditVote_eq (H : Host) (median spread : Dec) (claims : ClaimMap) (v : VoteForTally) :
    creditVote H median spread claims v
      = creditOf H median spread v >>= fun c => .ok (credit claims c) := by
  rw [creditVote, creditOf]
  cases inBand median spread v.exchangeRate with
  | error e => rfl
  | ok within =>
      simp only [ok_bind, pure_eq_ok]
      split_ifs <;> rfl

lemma getElem?_credit (claims : ClaimMap) (key : String) (power : ℤ) (k : String) :
    (credit claims (some (key, power)))[k]?
      = if key = k then
          some { claims.getD key default with
            weight := (claims.getD key default).weight + power
            winCount := (claims.getD key default).winCount + 1 }
        else claims[k]? := by
  rw [credit, getElem?_insert_ite]

lemma getD_credit (claims : ClaimMap) (key : String) (power : ℤ) (k : String) :
    (credit claims (some (key, power))).getD k default
      = if key = k then
          { claims.getD key default with
            weight := (claims.getD key default).weight + power
            winCount := (claims.getD key default).winCount + 1 }
        else claims.getD k default := by
  rw [ExtTreeMap.getD_eq_getD_getElem?, getElem?_credit]
  split_ifs with h
  · rfl
  · rw [ExtTreeMap.getD_eq_getD_getElem?]

/-- Credits commute. -/
lemma credit_comm (claims : ClaimMap) (c c' : Option (String × ℤ)) :
    credit (credit claims c) c' = credit (credit claims c') c := by
  cases c with
  | none => rfl
  | some c =>
      cases c' with
      | none => rfl
      | some c' =>
          obtain ⟨key, power⟩ := c
          obtain ⟨key', power'⟩ := c'
          refine ExtTreeMap.ext_getElem? fun k => ?_
          simp only [getElem?_credit, getD_credit]
          by_cases h : key = key'
          · subst h
            by_cases hk : key = k
            · simp [hk, add_right_comm]
            · simp [hk]
          · by_cases hk : key = k
            · subst hk
              simp [Ne.symm h]
            · simp [h, hk]

/-- A list of credits and another one can be added in either order. -/
lemma foldl_credit_comm (claims : ClaimMap) (l l' : List (Option (String × ℤ))) :
    l'.foldl credit (l.foldl credit claims) = l.foldl credit (l'.foldl credit claims) := by
  rw [← List.foldl_append, ← List.foldl_append]
  exact List.perm_append_comm.foldl_eq' (fun c _ c' _ claims => credit_comm claims c c') claims

/-- What a ballot adds to the claims, with its median. -/
def tallyCredits (H : Host) (pb : ExchangeRateBallot) (rewardBand : Dec) :
    Outcome (Dec × List (Option (String × ℤ))) := do
  let median := weightedMedian pb
  let spread ← rewardSpread H pb median rewardBand
  let credits ← pb.mapM (creditOf H median spread)
  pure (median, credits)

/-- The tally of a ballot adds credits that do not look at the claims. -/
lemma tally_eq_credits (H : Host) (pb : ExchangeRateBallot) (rewardBand : Dec)
    (claims : ClaimMap) :
    tally H pb rewardBand claims
      = tallyCredits H pb rewardBand >>= fun r => .ok (r.1, r.2.foldl credit claims) := by
  rw [tally, tallyCredits]
  cases rewardSpread H pb (weightedMedian pb) rewardBand with
  | error e => rfl
  | ok spread =>
      rw [ok_bind, ok_bind, foldlM_eq_mapM (creditVote_eq H (weightedMedian pb) spread)]
      cases pb.mapM (creditOf H (weightedMedian pb) spread) with
      | error e => rfl
      | ok credits => rfl

/-! ### One ballot, sorted in two ways -/

/-- Two sorted ballots of the same votes have one median. -/
lemma weightedMedian_perm {pb pb' : ExchangeRateBallot} (hp : pb.Perm pb') (hn : NonnegPowers pb)
    (hs : pb.Pairwise VoteForTally.le) (hs' : pb'.Pairwise VoteForTally.le) :
    weightedMedian pb = weightedMedian pb' := by
  by_cases hne : pb = []
  · subst hne
    rw [List.nil_perm.mp hp]
  · have hne' : pb' ≠ [] := fun h => hne (List.perm_nil.mp (h ▸ hp))
    have hmed := isMedian_weightedMedian hn hne hs
    exact ((isBallotMedian_perm hp).mp hmed).unique (isMedian_weightedMedian (hn.perm hp) hne' hs')

/-- Two sorted ballots of the same votes have the same tally. -/
lemma tally_agrees (H : Host) {pb pb' : ExchangeRateBallot} (hp : pb.Perm pb')
    (hn : NonnegPowers pb) (hs : pb.Pairwise VoteForTally.le)
    (hs' : pb'.Pairwise VoteForTally.le) (rewardBand : Dec) (claims : ClaimMap) :
    Agrees (tally H pb rewardBand claims) (tally H pb' rewardBand claims) := by
  rw [tally, tally, weightedMedian_perm hp hn hs hs', rewardSpread_perm H hp]
  refine (Agrees.refl _).bind fun spread _ => Agrees.bind ?_ fun c _ => Agrees.refl _
  refine foldlM_perm hp (List.pairwise_of_forall fun v v' c => ?_) claims
  simp only [creditVote_eq, bind_assoc, ok_bind]
  refine (agrees_bind_comm _ _ _).trans ((Agrees.refl _).bind fun x _ =>
    (Agrees.refl _).bind fun y _ => Agrees.of_eq ?_)
  rw [credit_comm]

/-- The reference rate of a voter is the largest it gave: a sorted ballot sets it last. -/
lemma getElem?_toMap_sorted {pb : ExchangeRateBallot} (hs : pb.Pairwise VoteForTally.le)
    {a : ValAddress} {r : Dec} :
    (toMap pb)[a]? = some r
      ↔ ∃ v ∈ pb, v.voter = a ∧ v.exchangeRate = r ∧ r.IsPositive
        ∧ ∀ u ∈ pb, u.voter = a → u.exchangeRate ≤ r := by
  suffices key : ∀ (a : ValAddress) (r : Dec), (toMap pb)[a]? = some r
      ↔ ∃ v ∈ pb, v.voter = a ∧ v.exchangeRate = r ∧ r.IsPositive
        ∧ ∀ u ∈ pb, u.voter = a → u.exchangeRate ≤ r from key a r
  refine foldl_induction (fun (pre : List VoteForTally) (m : ExtTreeMap ValAddress Dec) =>
    ∀ (a : ValAddress) (r : Dec), m[a]? = some r
      ↔ ∃ v ∈ pre, v.voter = a ∧ v.exchangeRate = r ∧ r.IsPositive
        ∧ ∀ u ∈ pre, u.voter = a → u.exchangeRate ≤ r) ?_ ?_
  · intro a r
    simp
  intro pre v post m hl hm a r
  have hlast : ∀ u ∈ pre, u.exchangeRate ≤ v.exchangeRate := fun u hu =>
    (List.pairwise_append.mp (hl ▸ hs)).2.2 u hu v (by simp)
  by_cases hv : v.exchangeRate.IsPositive
  · rw [if_pos hv, getElem?_insert_ite]
    by_cases hva : v.voter = a
    · rw [if_pos hva, Option.some.injEq]
      constructor
      · rintro rfl
        refine ⟨v, by simp, hva, rfl, hv, fun u hu _ => ?_⟩
        rcases List.mem_append.mp hu with hu | hu
        · exact hlast u hu
        · rw [List.mem_singleton.mp hu]
      · rintro ⟨u, hu, -, rfl, -, hmax⟩
        refine le_antisymm (hmax v (by simp) hva) ?_
        rcases List.mem_append.mp hu with hu | hu
        · exact hlast u hu
        · rw [List.mem_singleton.mp hu]
    · rw [if_neg hva, hm]
      simp [or_imp, forall_and, or_and_right, exists_or, hva]
  · -- an abstain vote sets nothing, and is below every rate that is set
    rw [if_neg hv, hm]
    have hle : r.IsPositive → v.exchangeRate ≤ r := fun hr => (not_lt.mp hv).trans (le_of_lt hr)
    constructor
    · rintro ⟨u, hu, hua, hur, hr, hmax⟩
      refine ⟨u, List.mem_append_left _ hu, hua, hur, hr, fun u' hu' hua' => ?_⟩
      rcases List.mem_append.mp hu' with hu' | hu'
      · exact hmax u' hu' hua'
      · rw [List.mem_singleton.mp hu']
        exact hle hr
    · rintro ⟨u, hu, hua, hur, hr, hmax⟩
      rcases List.mem_append.mp hu with hu | hu
      · exact ⟨u, hu, hua, hur, hr, fun u' hu' => hmax u' (List.mem_append_left _ hu')⟩
      · rw [List.mem_singleton.mp hu] at hur
        exact absurd (hur ▸ hr) hv

lemma toMap_sorted_perm {pb pb' : ExchangeRateBallot} (hp : pb.Perm pb')
    (hs : pb.Pairwise VoteForTally.le) (hs' : pb'.Pairwise VoteForTally.le) :
    toMap pb = toMap pb' := by
  refine ExtTreeMap.ext_getElem? fun a => Option.ext fun r => ?_
  rw [getElem?_toMap_sorted hs, getElem?_toMap_sorted hs']
  simp only [hp.mem_iff]

/-- Two sorted ballots of the same votes have the same cross rates. -/
lemma toCrossRateWithSort_perm {S₁ : Schedule} (S₂ : Schedule) {pb pb' : ExchangeRateBallot}
    (hp : pb.Perm pb') {bases : ExtTreeMap ValAddress Dec} {cb : ExchangeRateBallot}
    (h : toCrossRateWithSort S₁ pb bases = .ok cb) :
    ∃ cb', toCrossRateWithSort S₂ pb' bases = .ok cb' ∧ cb.Perm cb' := by
  obtain ⟨c, hc, h⟩ := bind_eq_ok.mp h
  obtain rfl := Except.ok.inj h
  obtain ⟨c', hc', hperm⟩ := exists_mapM_perm hp hc
  exact ⟨S₂.sort c', bind_eq_ok.mpr ⟨c', hc', rfl⟩,
    (S₁.sort_perm c).trans (hperm.trans (S₂.sort_perm c').symm)⟩

lemma toCrossRateWithSort_sorted {S : Schedule} {pb : ExchangeRateBallot}
    {bases : ExtTreeMap ValAddress Dec} {cb : ExchangeRateBallot}
    (h : toCrossRateWithSort S pb bases = .ok cb) : cb.Pairwise VoteForTally.le := by
  obtain ⟨c, -, h⟩ := bind_eq_ok.mp h
  obtain rfl := Except.ok.inj h
  exact S.sort_sorted c

/-- **One ballot, sorted in two ways**, next to a reference ballot sorted in two ways. -/
theorem updateRate_agrees (H : Host) (S₁ S₂ : Schedule) (rewardBand : Dec) (r : Denom)
    (ref : ExchangeRateBallot) (hn : NonnegPowers ref) (d : Denom) {b : ExchangeRateBallot}
    (hb : NonnegPowers b) (s : RateState) :
    Agrees (updateRate H S₁ rewardBand r (S₁.sort ref) s (d, S₁.sort b))
      (updateRate H S₂ rewardBand r (S₂.sort ref) s (d, S₂.sort b)) := by
  have hperm : (S₁.sort b).Perm (S₂.sort b) := (S₁.sort_perm b).trans (S₂.sort_perm b).symm
  have href : (S₁.sort ref).Perm (S₂.sort ref) := (S₁.sort_perm ref).trans (S₂.sort_perm ref).symm
  have hb₁ := hb.perm (S₁.sort_perm b).symm
  rw [updateRate, updateRate]
  by_cases hd : d = r
  · simp only [if_pos hd]
    exact (tally_agrees H hperm hb₁ (S₁.sort_sorted b) (S₂.sort_sorted b) rewardBand s.claims).bind
      fun t _ => Agrees.refl _
  · simp only [if_neg hd]
    rw [toMap_sorted_perm href (S₁.sort_sorted ref) (S₂.sort_sorted ref),
      weightedMedian_perm href (hn.perm (S₁.sort_perm ref).symm) (S₁.sort_sorted ref)
        (S₂.sort_sorted ref)]
    -- the two conversions fault together, and otherwise the converted ballots are tallied alike
    cases h₁ : toCrossRateWithSort S₁ (S₁.sort b) (toMap (S₂.sort ref)) with
    | ok cb =>
        obtain ⟨cb', h₂, hcb⟩ := toCrossRateWithSort_perm S₂ hperm h₁
        rw [h₂, ok_bind, ok_bind]
        exact (tally_agrees H hcb (nonnegPowers_toCrossRateWithSort hb₁ h₁)
          (toCrossRateWithSort_sorted h₁) (toCrossRateWithSort_sorted h₂) rewardBand
          s.claims).bind fun t _ => Agrees.refl _
    | error e =>
        cases h₂ : toCrossRateWithSort S₂ (S₂.sort b) (toMap (S₂.sort ref)) with
        | ok cb' =>
            obtain ⟨cb, h, -⟩ := toCrossRateWithSort_perm S₁ hperm.symm h₂
            exact absurd (h₁.symm.trans h) (by simp)
        | error e' => exact agrees_error e e'

/-! ### All ballots, in two orders -/

/-- The rate of a denom and the credits of its ballot, which do not look at the state of the
loop. -/
def rateAndCredits (H : Host) (S : Schedule) (rewardBand : Dec) (referenceTerra : Denom)
    (ballotRT : ExchangeRateBallot) (e : Denom × ExchangeRateBallot) :
    Outcome (Dec × List (Option (String × ℤ))) :=
  if e.1 = referenceTerra then tallyCredits H e.2 rewardBand
  else do
    let cross ← toCrossRateWithSort S e.2 (toMap ballotRT)
    let r ← tallyCredits H cross rewardBand
    let exchangeRate ← (weightedMedian ballotRT).quo r.1
    pure (exchangeRate, r.2)

lemma updateRate_eq (H : Host) (S : Schedule) (rewardBand : Dec) (r : Denom)
    (ref : ExchangeRateBallot) (s : RateState) (e : Denom × ExchangeRateBallot) :
    updateRate H S rewardBand r ref s e
      = rateAndCredits H S rewardBand r ref e >>= fun x =>
          .ok ⟨s.rates.insert e.1 x.1, x.2.foldl credit s.claims⟩ := by
  rw [updateRate, rateAndCredits]
  simp only [tally_eq_credits]
  by_cases hd : e.1 = r
  · simp only [if_pos hd, bind_assoc, ok_bind, pure_eq_ok]
  · simp only [if_neg hd, bind_assoc, ok_bind, pure_eq_ok]

/-- Ballots of different denoms can be tallied in either order. -/
lemma updateRate_comm (H : Host) (S : Schedule) (rewardBand : Dec) (r : Denom)
    (ref : ExchangeRateBallot) {e e' : Denom × ExchangeRateBallot} (he : e.1 ≠ e'.1)
    (s : RateState) :
    Agrees (updateRate H S rewardBand r ref s e >>= fun s => updateRate H S rewardBand r ref s e')
      (updateRate H S rewardBand r ref s e' >>= fun s => updateRate H S rewardBand r ref s e) := by
  simp only [updateRate_eq, bind_assoc, ok_bind]
  refine (agrees_bind_comm _ _ _).trans ((Agrees.refl _).bind fun x' _ =>
    (Agrees.refl _).bind fun x _ => Agrees.of_eq ?_)
  rw [insert_comm _ he, foldl_credit_comm]

/-- The ballots that pass. -/
def passingBallots (targets : TargetMap) (ballots : BallotMap) (threshold : ℤ) : BallotMap :=
  ballots.filter fun d b => decide (d ∈ targets ∧ ballotIsPassing b threshold)

lemma getElem?_passingBallots {targets : TargetMap} {ballots : BallotMap} {threshold : ℤ}
    {d : Denom} {b : ExchangeRateBallot} :
    (passingBallots targets ballots threshold)[d]? = some b
      ↔ Passing targets ballots threshold d b := by
  rw [passingBallots, ExtTreeMap.getElem?_filter', Option.filter_eq_some_iff, Passing]
  simp only [decide_eq_true_eq]
  tauto

section Pick

variable {S S' : Schedule} {targets : TargetMap} {ballots : BallotMap} {threshold : ℤ}
  {p p' : PickState}

lemma PickSpec.voteMap_eq (hp : PickSpec S targets ballots threshold p) :
    p.voteMap = sortBallots S (passingBallots targets ballots threshold) := by
  refine ExtTreeMap.ext_getElem? fun d => Option.ext fun b' => ?_
  rw [hp.ballots_iff, getElem?_sortBallots]
  exact exists_congr fun b => and_congr getElem?_passingBallots.symm eq_comm

lemma PickSpec.voteTargets_eq (hp : PickSpec S targets ballots threshold p)
    (hp' : PickSpec S' targets ballots threshold p') : p.voteTargets = p'.voteTargets := by
  refine ExtTreeMap.ext_getElem? fun d => Option.ext fun x => ?_
  rw [hp.targets_iff, hp'.targets_iff]

lemma PickSpec.reference_eq (hp : PickSpec S targets ballots threshold p)
    (hp' : PickSpec S' targets ballots threshold p') : p.referenceTerra = p'.referenceTerra := by
  rcases hp.reference with ⟨h, hno⟩ | ⟨ref, href⟩
  · rcases hp'.reference with ⟨h', -⟩ | ⟨ref', href'⟩
    · rw [h, h']
    · exact absurd href'.1 (hno _ _)
  · rcases hp'.reference with ⟨-, hno⟩ | ⟨ref', href'⟩
    · exact absurd href.1 (hno _ _)
    · exact (href.unique href').1

/-- The loop over the ballots is, up to its order, the loop over the passing ballots in the order
of their denoms, each sorted. -/
lemma updateRates_agrees_listed (H : Host) (rewardBand : Dec) (claims : ClaimMap)
    (hp : PickSpec S targets ballots threshold p) (hne : p.referenceTerra ≠ "") :
    Agrees (updateRates H S rewardBand p claims)
      ((passingBallots targets ballots threshold).toList.foldlM (fun s e =>
        updateRate H S rewardBand p.referenceTerra (p.voteMap.getD p.referenceTerra []) s
          (e.1, S.sort e.2)) ⟨∅, claims⟩) := by
  rw [updateRates, if_neg hne]
  have hnodup := S.rangeTally.nodup_visit_keys p.voteMap
  refine (foldlM_perm (S.rangeTally.perm p.voteMap.toList) ?_ _).trans (Agrees.of_eq ?_)
  · refine (List.pairwise_map.mp hnodup).imp fun he s => ?_
    exact updateRate_comm H S rewardBand _ _ he s
  · nth_rewrite 2 [hp.voteMap_eq]
    rw [sortBallots, ExtTreeMap.toList_map, List.foldlM_map]

/-- **All ballots, in two orders.** -/
theorem updateRates_agrees (H : Host) (rewardBand : Dec) (claims : ClaimMap)
    (hn : ∀ (d : Denom) b, ballots[d]? = some b → NonnegPowers b)
    (hp : PickSpec S targets ballots threshold p)
    (hp' : PickSpec S' targets ballots threshold p') :
    Agrees (updateRates H S rewardBand p claims) (updateRates H S' rewardBand p' claims) := by
  have href := hp.reference_eq hp'
  by_cases hne : p.referenceTerra = ""
  · rw [updateRates, updateRates, if_pos hne, if_pos (href ▸ hne)]
    exact Agrees.refl _
  refine (updateRates_agrees_listed H rewardBand claims hp hne).trans
    (Agrees.trans ?_ (updateRates_agrees_listed H rewardBand claims hp' (href ▸ hne)).symm)
  rcases hp.reference with ⟨h0, -⟩ | ⟨ref, hreference⟩
  · exact absurd h0 hne
  rw [hp.getD_reference hreference, hp'.getD_reference (href ▸ hreference), ← href]
  refine foldlM_agrees (fun e he s => ?_) _
  have hpass := getElem?_passingBallots.mp (ExtTreeMap.mem_toList_iff_getElem?_eq_some.mp he)
  exact updateRate_agrees H S S' rewardBand _ ref (hn _ ref hreference.1.2.1) e.1
    (hn e.1 e.2 hpass.2.1) s

end Pick

/-! ### The tally of a block -/

/-- Bonded tokens are nonnegative, and so is the unit of power. -/
structure TokensLawful (K : Keepers σ) (s : σ) : Prop where
  reduction_pos : 0 < K.powerReduction s
  tokens_nonneg : ∀ a v, K.validator s a = some v → 0 ≤ v.tokens

lemma consensusPower_nonneg {v : Validator} {reduction x : ℤ} (hv : 0 ≤ v.tokens)
    (hr : 0 < reduction) (h : v.consensusPower reduction = .ok x) : 0 ≤ x := by
  rw [Validator.consensusPower] at h
  split_ifs at h
  · rw [tokensToConsensusPower, if_neg hr.ne', int64] at h
    split_ifs at h
    · obtain rfl := Except.ok.inj h
      exact Int.tdiv_nonneg hv hr.le
    · exact absurd h panicked_ne_ok
  · exact (Except.ok.inj h).le

/-- A property of the claims of bonded validators is one of all claims collected. -/
lemma collectClaims_forall {K : Keepers σ} {H : Host} {s : σ} {P : String → Claim → Prop}
    (hP : ∀ a v p, K.validator s a = some v → v.consensusPower (K.powerReduction s) = .ok p →
      P (H.valString v.operator) ⟨p, 0, 0, v.operator⟩)
    {l : List ValAddress} {n : ℕ} {claims claims' : ClaimMap}
    (h : collectClaims K H s n l claims = .ok claims')
    (hc : ∀ (k : String) (c : Claim), claims[k]? = some c → P k c) :
    ∀ (k : String) (c : Claim), claims'[k]? = some c → P k c := by
  induction l generalizing n claims with
  | nil =>
      rw [collectClaims] at h
      exact Except.ok.inj h ▸ hc
  | cons a l ih =>
      cases n with
      | zero =>
          rw [collectClaims] at h
          exact Except.ok.inj h ▸ hc
      | succ n =>
          rw [collectClaims] at h
          cases hv : K.validator s a with
          | none => simp [hv] at h
          | some v =>
              simp only [hv] at h
              split_ifs at h
              · obtain ⟨p, hp, h⟩ := bind_eq_ok.mp h
                refine ih h fun k c hkc => ?_
                rw [getElem?_insert_ite] at hkc
                split_ifs at hkc with hk
                · rw [← Option.some.inj hkc, ← hk]
                  exact hP a v p hv hp
                · exact hc k c hkc
              · exact ih h hc

/-- **The tally of a block does not depend on the orders.** -/
theorem tallyVotes_agrees {K : Keepers σ} (H : Host) (S S' : Schedule) {w : World σ}
    (hs : TokensLawful K w.ext) : Agrees (tallyVotes K H S w) (tallyVotes K H S' w) := by
  rw [tallyVotes, tallyVotes]
  refine (Agrees.refl _).bind fun claims hclaims => ?_
  have hpower : ∀ (k : String) (c : Claim), claims[k]? = some c → 0 ≤ c.power :=
    collectClaims_forall (P := fun _ c => 0 ≤ c.power) (fun a v p hv hp =>
      consensusPower_nonneg (hs.tokens_nonneg a v hv) hs.reduction_pos hp) hclaims
      fun k c hkc => by simp at hkc
  have hn : ∀ (d : Denom) b, (collectBallots w.store claims)[d]? = some b → NonnegPowers b :=
    fun d b hb => nonnegPowers_collectBallots hpower hb
  rw [organizeBallotByDenom, organizeBallotByDenom]
  cases h : thresholdVotes K w.ext w.store.params.voteThreshold with
  | error e =>
      rw [pickReferenceTerra, pickReferenceTerra, h]
      exact agrees_error e e
  | ok threshold =>
      -- the two choices differ in nothing but the sort of the ballots
      have hpick : ∀ S : Schedule, ∃ p, pickReferenceTerra K S w.ext w.store.params.voteThreshold
          w.store.tobinTaxes (sortBallots S (collectBallots w.store claims)) = .ok p
            ∧ PickSpec S w.store.tobinTaxes (collectBallots w.store claims) threshold p := by
        intro S
        obtain ⟨p, hp⟩ : ∃ p, pickReferenceTerra K S w.ext w.store.params.voteThreshold
            w.store.tobinTaxes (sortBallots S (collectBallots w.store claims)) = .ok p := by
          rw [pickReferenceTerra, h, ok_bind]
          exact ⟨_, rfl⟩
        obtain ⟨threshold', h', hspec⟩ := pickReferenceTerra_spec hp
        obtain rfl := Except.ok.inj (h.symm.trans h')
        exact ⟨p, hp, hspec⟩
      obtain ⟨p, hp, hspec⟩ := hpick S
      obtain ⟨p', hp', hspec'⟩ := hpick S'
      rw [hp, hp', ok_bind, ok_bind, hspec.voteTargets_eq hspec']
      exact (updateRates_agrees H w.store.params.rewardBand claims hn hspec hspec').bind
        fun r _ => Agrees.refl _

/-! ### Miss counters -/

lemma countMiss_comm (n : ℕ) (m : ExtTreeMap ValAddress ℕ) (e e' : String × Claim) :
    countMiss n (countMiss n m e) e' = countMiss n (countMiss n m e') e := by
  simp only [countMiss]
  by_cases h : e.2.winCount = n
  · simp only [if_pos h]
  · by_cases h' : e'.2.winCount = n
    · simp only [if_pos h']
    · simp only [if_neg h, if_neg h']
      by_cases hr : e.2.recipient = e'.2.recipient
      · rw [hr]
      · rw [getD_insert_ite, if_neg hr, getD_insert_ite, if_neg (Ne.symm hr), insert_comm m hr]

/-- The miss counters do not see the order of the claims. -/
lemma countMisses_eq (S S' : Schedule) (t : Tallied) (m : ExtTreeMap ValAddress ℕ) :
    countMisses S t m = countMisses S' t m :=
  List.Perm.foldl_eq' ((S.rangeMiss.perm t.claims.toList).trans
    (S'.rangeMiss.perm t.claims.toList).symm)
    (fun e _ e' _ m => countMiss_comm t.voteTargets.size m e e') m

/-! ### Rewards -/

/-- What the rewards rely on in the distribution module: allocations change no validator, and can
be made in either order. -/
structure AllocationLawful (K : Keepers σ) : Prop where
  validator : ∀ s v c s', K.allocateTokensToValidator s v c = .ok s' →
    ∀ a, K.validator s' a = K.validator s a
  comm : ∀ s v v' c c', Agrees
    (K.allocateTokensToValidator s v c >>= fun s => K.allocateTokensToValidator s v' c')
    (K.allocateTokensToValidator s v' c' >>= fun s => K.allocateTokensToValidator s v c)

/-- The share of the period in one denom can be added in either order. -/
lemma addCoin_comm (c : DecCoins) {e e' : Denom × Dec} (he : e.1 ≠ e'.1) :
    Agrees (c.addCoin e >>= fun c => c.addCoin e') (c.addCoin e' >>= fun c => c.addCoin e) := by
  simp only [DecCoins.addCoin, bind_assoc, pure_eq_ok, ok_bind, Amounts.amountOf_setAmount,
    if_neg he, if_neg (Ne.symm he)]
  refine (agrees_bind_comm _ _ _).trans ((Agrees.refl _).bind fun x' _ =>
    (Agrees.refl _).bind fun x _ => Agrees.of_eq (congrArg _ (Amounts.ext_amountOf fun d => ?_)))
  simp only [Amounts.amountOf_setAmount]
  by_cases h : e.1 = d
  · rw [if_pos h, if_neg fun h' => he (h.trans h'.symm), if_pos h]
  · rw [if_neg h, if_neg h]

/-- The coin a denom of the rewards adds, none without a pool. -/
def periodCoin (K : Keepers σ) (s : σ) (distributionRatio : Dec) (denom : Denom) :
    Outcome (Option (Denom × Dec)) :=
  if K.getBalance s "oracle" denom = 0 then .ok none
  else do
    let share ← (Fixed.ofInt (K.getBalance s "oracle" denom)).mul distributionRatio
    let coin ← DecCoins.newDecCoin denom share
    pure (some coin)

/-- A coin, where there is one, is added. -/
def addIfSome (c : DecCoins) : Option (Denom × Dec) → Outcome DecCoins
  | none => .ok c
  | some e => c.addCoin e

lemma addPeriodReward_eq (K : Keepers σ) (s : σ) (ratio : Dec) (c : DecCoins) (d : Denom) :
    addPeriodReward K s ratio c d = periodCoin K s ratio d >>= addIfSome c := by
  rw [addPeriodReward, periodCoin]
  by_cases h : K.getBalance s "oracle" d = 0
  · rw [if_pos h, if_pos h]
    rfl
  · rw [if_neg h, if_neg h]
    simp only [bind_assoc, pure_eq_ok, ok_bind]
    rfl

lemma periodCoin_denom {K : Keepers σ} {s : σ} {ratio : Dec} {d : Denom} {e : Denom × Dec}
    (h : periodCoin K s ratio d = .ok (some e)) : e.1 = d := by
  rw [periodCoin] at h
  split_ifs at h
  · exact absurd h (by simp)
  · obtain ⟨share, -, h⟩ := bind_eq_ok.mp h
    obtain ⟨coin, hcoin, h⟩ := bind_eq_ok.mp h
    rw [DecCoins.newDecCoin] at hcoin
    split_ifs at hcoin
    · exact absurd hcoin panicked_ne_ok
    · rw [← Option.some.inj (Except.ok.inj h), ← Except.ok.inj hcoin]

lemma addPeriodReward_comm (K : Keepers σ) (s : σ) (ratio : Dec) (d d' : Denom) (c : DecCoins) :
    Agrees (addPeriodReward K s ratio c d >>= fun c => addPeriodReward K s ratio c d')
      (addPeriodReward K s ratio c d' >>= fun c => addPeriodReward K s ratio c d) := by
  by_cases hd : d = d'
  · rw [hd]
    exact Agrees.refl _
  simp only [addPeriodReward_eq, bind_assoc]
  cases h : periodCoin K s ratio d with
  | error x =>
      exact (agrees_bind_error fun o _ => agrees_bind_error fun c _ => agrees_error x x).symm
  | ok o =>
      cases h' : periodCoin K s ratio d' with
      | error x =>
          rw [ok_bind]
          exact agrees_bind_error fun c _ => agrees_error x x
      | ok o' =>
          simp only [ok_bind]
          cases o with
          | none => exact (Agrees.of_eq (bind_pure _)).symm
          | some e =>
              cases o' with
              | none => exact Agrees.of_eq (bind_pure _)
              | some e' =>
                  refine addCoin_comm c ?_
                  rw [periodCoin_denom h, periodCoin_denom h']
                  exact hd

/-- A payment changes no validator. -/
lemma payCoins_validator {K : Keepers σ}
    (hK : ∀ s v c s', K.allocateTokensToValidator s v c = .ok s' →
      ∀ a, K.validator s' a = K.validator s a)
    {p p' : PayState σ} {a : ValAddress} {c : Coins} (h : payCoins K p a c = .ok p') (b : ValAddress) :
    K.validator p'.ext b = K.validator p.ext b := by
  rw [payCoins] at h
  cases hv : K.validator p.ext a with
  | none => simp [hv] at h
  | some v =>
      simp only [hv] at h
      split_ifs at h
      · rw [Except.ok.inj h]
      · obtain ⟨ext, hext, h⟩ := bind_eq_ok.mp h
        rw [← Except.ok.inj h]
        exact hK _ _ _ _ hext b

/-- A payment to a missing validator faults, also after another one. -/
lemma payCoins_missing {K : Keepers σ} (hK : AllocationLawful K) {p : PayState σ} {a : ValAddress}
    (hv : K.validator p.ext a = none) (a' : ValAddress) (c c' : Coins) :
    Agrees (payCoins K p a' c' >>= fun p => payCoins K p a c)
      (payCoins K p a c >>= fun p => payCoins K p a' c') := by
  have hfault : ∀ p' : PayState σ, K.validator p'.ext a = none →
      payCoins K p' a c = .error (.panic .nilDereference) := fun p' hv' => by
    rw [payCoins, hv']
    rfl
  rw [hfault p hv, error_bind]
  refine agrees_bind_error fun p' hp' => Agrees.of_eq (hfault p' ?_)
  rw [payCoins_validator hK.validator hp', hv]

/-- Two payments can be made in either order. -/
lemma payCoins_comm {K : Keepers σ} (hK : AllocationLawful K) (p : PayState σ) (a a' : ValAddress)
    (c c' : Coins) :
    Agrees (payCoins K p a c >>= fun p => payCoins K p a' c')
      (payCoins K p a' c' >>= fun p => payCoins K p a c) := by
  cases hv : K.validator p.ext a with
  | none => exact (payCoins_missing hK hv a' c c').symm
  | some v =>
      cases hv' : K.validator p.ext a' with
      | none => exact payCoins_missing hK hv' a c' c
      | some v' =>
          -- no coins, no payment
          have hzero : ∀ {a v c} {p' : PayState σ}, K.validator p'.ext a = some v →
              Amounts.IsZero c → payCoins K p' a c = .ok p' := fun hv hc => by
            rw [payCoins, hv]
            exact if_pos hc
          have hpaid : ∀ {a v c} {p' : PayState σ}, K.validator p'.ext a = some v →
              ¬ Amounts.IsZero c → payCoins K p' a c
                = K.allocateTokensToValidator p'.ext v (DecCoins.ofCoins c) >>= fun ext =>
                    .ok ⟨ext, p'.distributedReward.add c⟩ := fun hv hc => by
            rw [payCoins, hv]
            exact if_neg hc
          by_cases hc : c.IsZero
          · rw [hzero hv hc, ok_bind]
            refine (Agrees.of_eq (bind_pure _)).symm.trans ((Agrees.refl _).bind fun p' hp' => ?_)
            rw [hzero ((payCoins_validator hK.validator hp' a).trans hv) hc]
            exact Agrees.refl _
          · by_cases hc' : c'.IsZero
            · rw [hzero hv' hc', ok_bind]
              refine Agrees.trans ((Agrees.refl _).bind fun p' hp' => ?_) (Agrees.of_eq (bind_pure _))
              rw [hzero ((payCoins_validator hK.validator hp' a').trans hv') hc']
              exact Agrees.refl _
            · rw [hpaid hv hc, hpaid hv' hc']
              simp only [bind_assoc, ok_bind]
              have hsum : (p.distributedReward.add c).add c' = (p.distributedReward.add c').add c :=
                Amounts.ext_amountOf fun d => by simp [add_right_comm]
              have hnext : ∀ {v c d ext a' v' c'},
                  K.allocateTokensToValidator p.ext v (DecCoins.ofCoins c) = .ok ext →
                  K.validator p.ext a' = some v' → ¬ Amounts.IsZero c' →
                  Agrees (payCoins K ⟨ext, d⟩ a' c')
                    (K.allocateTokensToValidator ext v' (DecCoins.ofCoins c') >>= fun ext =>
                      .ok ⟨ext, d.add c'⟩) := fun hext hv' hc' =>
                Agrees.of_eq (hpaid ((hK.validator _ _ _ _ hext _).trans hv') hc')
              refine Agrees.trans ((Agrees.refl _).bind fun ext hext => hnext hext hv' hc')
                (Agrees.trans ?_ ((Agrees.refl _).bind fun ext hext => hnext hext hv hc).symm)
              rw [← bind_assoc, ← bind_assoc, hsum]
              exact (hK.comm p.ext v v' _ _).bind fun ext _ => Agrees.refl _

lemma payWinner_comm {K : Keepers σ} (hK : AllocationLawful K) (rewards : DecCoins) (sum : ℤ)
    (e e' : String × Claim) (p : PayState σ) :
    Agrees (payWinner K rewards sum p e >>= fun p => payWinner K rewards sum p e')
      (payWinner K rewards sum p e' >>= fun p => payWinner K rewards sum p e) := by
  simp only [payWinner_eq, bind_assoc]
  cases rewardOf rewards sum e with
  | error x =>
      exact (agrees_bind_error fun c _ => agrees_bind_error fun p _ => agrees_error x x).symm
  | ok c =>
      cases rewardOf rewards sum e' with
      | error x =>
          rw [ok_bind]
          exact agrees_bind_error fun p _ => agrees_error x x
      | ok c' =>
          simp only [ok_bind]
          exact payCoins_comm hK p _ _ c c'

/-- **The rewards do not depend on the orders.** -/
theorem rewardBallotWinners_agrees {K : Keepers σ} (hK : AllocationLawful K) (S S' : Schedule)
    (s : σ) (votePeriod window : ℤ) (targets : TargetMap) (winners : ClaimMap) :
    Agrees (rewardBallotWinners K S s votePeriod window targets winners)
      (rewardBallotWinners K S' s votePeriod window targets winners) := by
  have hweights : ((S.rangeWeights.visit winners.toList).map fun e => e.2.weight).sum
      = ((S'.rangeWeights.visit winners.toList).map fun e => e.2.weight).sum :=
    (((S.rangeWeights.perm _).trans (S'.rangeWeights.perm _).symm).map _).sum_eq
  have hdenoms := ((S.rangeTargets.perm targets.toList).trans
    (S'.rangeTargets.perm targets.toList).symm).map Prod.fst |>.cons "uluna"
  rw [rewardBallotWinners, rewardBallotWinners, hweights]
  split_ifs
  · exact Agrees.refl _
  refine (Agrees.refl _).bind fun ratio _ => Agrees.bind ?_ fun rewards _ =>
    Agrees.bind ?_ fun paid _ => Agrees.refl _
  · exact foldlM_perm hdenoms
      (List.pairwise_of_forall fun d d' c => addPeriodReward_comm K s ratio d d' c) ∅
  · exact foldlM_perm ((S.rangeWinners.perm _).trans (S'.rangeWinners.perm _).symm)
      (List.pairwise_of_forall fun e e' p => payWinner_comm hK rewards _ e e' p) _

/-! ### The block -/

/-- **Determinism of the end of a block.** For every store and every staking state, two nodes that
visit the maps and place equal votes in different orders both panic, or reach the same store and the
same state of the other modules.

The powers of a ballot and the weights of the winners are summed as integers. The 64-bit sums of
the source are these sums as long as the total is below `2 ^ 63` (`weightedMedianInt64_eq`,
`rewardBallotWinnersInt64_eq`); a bonded power that is not panics in `thresholdVotes`, before any
ballot is summed. Beyond the bound the median does depend on the order of equal votes. -/
theorem endBlocker_agrees {K : Keepers σ} (hK : AllocationLawful K) (H : Host) (S S' : Schedule)
    (height : ℕ) {w : World σ} (hs : TokensLawful K w.ext) :
    Agrees (endBlocker K H S height w) (endBlocker K H S' height w) := by
  rw [endBlocker, endBlocker]
  refine Agrees.bind ?_ fun w' _ => Agrees.refl _
  rw [closeVotePeriod, closeVotePeriod]
  refine (Agrees.refl _).bind fun last _ => ?_
  cases last with
  | false => exact Agrees.refl _
  | true =>
      refine (tallyVotes_agrees H S S' hs).bind fun t _ => ?_
      rw [settlePeriod, settlePeriod]
      refine (rewardBallotWinners_agrees hK S S' w.ext _ _ t.voteTargets t.claims).bind fun ext _ =>
        (Agrees.refl _).bind fun x _ => Agrees.of_eq ?_
      rw [countMisses_eq S S']

lemma allocationLawful_accountKeepers : AllocationLawful accountKeepers where
  validator := by
    intro s v c s' h a
    obtain rfl := Except.ok.inj h
    rfl
  comm := by
    intro s v v' c c'
    refine Agrees.of_eq
      (congrArg (fun m => (.ok { s with allocated := m } : Outcome Accounts)) ?_)
    by_cases hv : v.operator = v'.operator
    · rw [hv]
      refine ExtTreeMap.ext_getElem? fun a => ?_
      have hsum : ∀ x : Coins, (x.add (rawCoins c)).add (rawCoins c')
          = (x.add (rawCoins c')).add (rawCoins c) := fun x =>
        Amounts.ext_amountOf fun d => by simp [add_right_comm]
      simp only [ExtTreeMap.getElem?_insert, ExtTreeMap.getD_insert_self, hsum]
      split_ifs <;> rfl
    · simp only [getD_insert_ite, if_neg hv, if_neg (Ne.symm hv)]
      exact insert_comm s.allocated hv _ _

/-- The schedule that visits every map from its end, and sorts a ballot from its end. -/
def Schedule.reversed : Schedule where
  sort b := b.reverse.insertionSort VoteForTally.le
  sort_perm b := (List.perm_insertionSort VoteForTally.le b.reverse).trans b.reverse_perm
  sort_sorted b := List.pairwise_insertionSort VoteForTally.le b.reverse
  rangePick := ⟨List.reverse, List.reverse_perm⟩
  rangeTally := ⟨List.reverse, List.reverse_perm⟩
  rangeMiss := ⟨List.reverse, List.reverse_perm⟩
  rangeTargets := ⟨List.reverse, List.reverse_perm⟩
  rangeWeights := ⟨List.reverse, List.reverse_perm⟩
  rangeWinners := ⟨List.reverse, List.reverse_perm⟩

/-- The votes of two validators that gave the same rate for the dollar. -/
def votesForTwo : List (ValAddress × AggregateExchangeRateVote) :=
  [("validator-a-of-terra", ⟨[⟨"uusd", ⟨10 ^ 18⟩⟩, ⟨"ukrw", ⟨1200 * 10 ^ 18⟩⟩],
      "terravaloper1weskc6tyv96x7u3dvykk7e3dw3jhyunpwz6935"⟩),
    ("validator-b-of-terra", ⟨[⟨"uusd", ⟨10 ^ 18⟩⟩, ⟨"ukrw", ⟨1300 * 10 ^ 18⟩⟩],
      "terravaloper1weskc6tyv96x7u3dvgkk7e3dw3jhyunpdv73a5"⟩)]

/-- A store with these votes, and a reward pool. -/
def equalVotes : World Accounts where
  store := { emptyStore blockParams with votes := .ofList votesForTwo }
  ext := ⟨twoValidators, CoinSet.ofList [("uluna", 10 ^ 15)], ∅, ∅⟩

/-- Visited from either end, the block ends in the same state, with a rate stored and a reward
paid. -/
theorem endBlocker_equalVotes : ∃ w', endBlocker accountKeepers (tableHost ⟨twoAccounts, [], []⟩)
      Schedule.listed 1 equalVotes = .ok w'
    ∧ endBlocker accountKeepers (tableHost ⟨twoAccounts, [], []⟩) Schedule.reversed 1 equalVotes
      = .ok w'
    ∧ w'.store.exchangeRates["ukrw"]?.isSome ∧ 0 < w'.ext.distribution.amountOf "uluna" := by
  obtain ⟨w', hrun, hw'⟩ := exists_of_returns
    (p := fun w' : World Accounts => w'.store.exchangeRates["ukrw"]?.isSome
      && decide (0 < w'.ext.distribution.amountOf "uluna"))
    (x := endBlocker accountKeepers (tableHost ⟨twoAccounts, [], []⟩) Schedule.listed 1 equalVotes)
    (by decide +kernel)
  have hs : TokensLawful accountKeepers equalVotes.ext :=
    ⟨by norm_num [accountKeepers], fun _ _ hv => tokens_nonneg_twoValidators hv⟩
  have hagree := endBlocker_agrees allocationLawful_accountKeepers (tableHost ⟨twoAccounts, [], []⟩)
    Schedule.listed Schedule.reversed 1 hs
  rw [Bool.and_eq_true, decide_eq_true_eq] at hw'
  exact ⟨w', hrun, (hagree w').mp hrun, hw'⟩

end ColumbusCore.Oracle
