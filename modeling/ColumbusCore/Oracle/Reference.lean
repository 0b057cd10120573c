import ColumbusCore.Oracle.Messages

/-!
Claims, ballots and the reference denom, whatever the order of the loops.

* `StakingLawful`: what the module relies on in the staking keeper, and `activeClaims_eq_ok`;
* `collectBallots_forall`, `collectBallots_voters_nodup`: the votes of the ballots;
* `Passing`, `IsReference`: the ballots that pass and the denom that leads them, stated on the
  ballots alone;
* `selects_of_foldl`: **the selection is what `Passing` and `IsReference` say**, for every vote map
  and in whatever order the ballots are visited; `pickReferenceTerra_spec` says it of the ballots
  the end blocker has sorted.
-/

namespace ColumbusCore.Oracle

open Go
open Std (ExtTreeMap)

variable {σ : Type}

/-! ### Claims -/

/-- What the oracle module relies on in the staking keeper: the power index names existing
validators, and tokens are nonnegative and stay, in units of power, within 64 bits. -/
structure StakingLawful (K : Keepers σ) (s : σ) : Prop where
  reduction_pos : 0 < K.powerReduction s
  found : ∀ a ∈ K.validatorsByPower s, ∃ v, K.validator s a = some v
  tokens_nonneg : ∀ a v, K.validator s a = some v → 0 ≤ v.tokens
  power_lt : ∀ a v, K.validator s a = some v → v.tokens / K.powerReduction s < 2 ^ 63
  total_nonneg : 0 ≤ K.totalBondedTokens s
  total_lt : K.totalBondedTokens s / K.powerReduction s < 2 ^ 63

lemma tokensToConsensusPower_eq_ok {tokens reduction : ℤ} (hr : 0 < reduction) (ht : 0 ≤ tokens)
    (hlt : tokens / reduction < 2 ^ 63) :
    tokensToConsensusPower tokens reduction = .ok (tokens / reduction) := by
  have hq : 0 ≤ tokens / reduction := Int.ediv_nonneg ht hr.le
  rw [tokensToConsensusPower, if_neg hr.ne', Int.tdiv_eq_ediv_of_nonneg ht, int64, if_pos]
  exact ⟨by omega, hlt⟩

/-- The claims have nonnegative power, and no weight yet. -/
def FreshClaims (claims : ClaimMap) : Prop :=
  ∀ (k : String) (c : Claim), claims[k]? = some c → 0 ≤ c.power ∧ c.weight = 0 ∧ c.winCount = 0

lemma collectClaims_eq_ok {K : Keepers σ} {H : Host} {s : σ} (hs : StakingLawful K s) :
    ∀ (l : List ValAddress) (n : ℕ) (claims : ClaimMap),
      (∀ a ∈ l, ∃ v, K.validator s a = some v) → FreshClaims claims →
      ∃ claims', collectClaims K H s n l claims = .ok claims' ∧ FreshClaims claims' := by
  intro l
  induction l with
  | nil =>
      intro n claims _ hc
      exact ⟨claims, by rw [collectClaims, pure_eq_ok], hc⟩
  | cons a l ih =>
      intro n claims hfound hc
      have hfound' : ∀ b ∈ l, ∃ v, K.validator s b = some v :=
        fun b hb => hfound b (List.mem_cons_of_mem a hb)
      cases n with
      | zero => exact ⟨claims, by rw [collectClaims, pure_eq_ok], hc⟩
      | succ n =>
          obtain ⟨v, hv⟩ := hfound a (by simp)
          rw [collectClaims, hv]
          by_cases hb : v.bonded = true
          · have ht := hs.tokens_nonneg a v hv
            have hp := tokensToConsensusPower_eq_ok hs.reduction_pos ht (hs.power_lt a v hv)
            simp only [hb, if_true, Validator.consensusPower, hp, ok_bind]
            refine ih n _ hfound' fun k c hkc => ?_
            rw [ExtTreeMap.getElem?_insert] at hkc
            split_ifs at hkc with hk
            · obtain rfl := Option.some.inj hkc
              exact ⟨Int.ediv_nonneg ht hs.reduction_pos.le, rfl, rfl⟩
            · exact hc k c hkc
          · simp only [hb]
            exact ih (n + 1) claims hfound' hc

/-- With a lawful staking keeper the claims are there, with nonnegative powers. -/
lemma activeClaims_eq_ok {K : Keepers σ} (H : Host) {s : σ} (hs : StakingLawful K s) :
    ∃ claims, activeClaims K H s = .ok claims ∧ FreshClaims claims :=
  collectClaims_eq_ok hs _ _ ∅ hs.found fun k c hkc => by simp at hkc

/-! ### Ballots -/

lemma getElem?_appendVote {voter : ValAddress} {power : ℤ} {votes : BallotMap}
    {t : ExchangeRateTuple} {d : Denom} {b : ExchangeRateBallot}
    (h : (appendVote voter power votes t)[d]? = some b) :
    (d = t.denom ∧ ((votes[d]? = none ∧ b = [ballotEntry voter power t])
        ∨ ∃ b₀, votes[d]? = some b₀ ∧ b = b₀ ++ [ballotEntry voter power t]))
      ∨ (d ≠ t.denom ∧ votes[d]? = some b) := by
  rw [appendVote, getElem?_insert_ite] at h
  split_ifs at h with hd
  · obtain rfl := hd
    obtain rfl := Option.some.inj h
    refine Or.inl ⟨rfl, ?_⟩
    cases hv : votes[t.denom]? with
    | none => exact Or.inl ⟨rfl, by rw [ExtTreeMap.getD_eq_getD_getElem?, hv]; rfl⟩
    | some b₀ => exact Or.inr ⟨b₀, rfl, by rw [ExtTreeMap.getD_eq_getD_getElem?, hv]; rfl⟩
  · exact Or.inr ⟨fun hdt => hd hdt.symm, h⟩

/-- A ballot that is there has votes, and each of them is as the aggregate votes have it. -/
lemma collectBallots_forall {s : Store} {claims : ClaimMap} (Q : VoteForTally → Prop)
    (hQ : ∀ a v, s.votes[a]? = some v → ∀ c : Claim, claims[v.voter]? = some c →
      ∀ t ∈ v.exchangeRateTuples, Q (ballotEntry a c.power t))
    {d : Denom} {b : ExchangeRateBallot} (hb : (collectBallots s claims)[d]? = some b) :
    b ≠ [] ∧ ∀ v ∈ b, Q v := by
  refine List.foldlRecOn (motive := fun m : BallotMap => ∀ (d : Denom) (b : ExchangeRateBallot),
    m[d]? = some b → b ≠ [] ∧ ∀ v ∈ b, Q v) s.votes.toList (organizeVote claims) ?_ ?_ d b hb
  · intro d b hb
    simp at hb
  intro m hm e he
  have hev : s.votes[e.1]? = some e.2 :=
    ExtTreeMap.mem_toList_iff_getElem?_eq_some.mp he
  rw [organizeVote]
  cases hc : claims[e.2.voter]? with
  | none => exact hm
  | some c =>
      refine List.foldlRecOn (motive := fun m : BallotMap => ∀ (d : Denom) (b : ExchangeRateBallot),
        m[d]? = some b → b ≠ [] ∧ ∀ v ∈ b, Q v) e.2.exchangeRateTuples _ hm ?_
      intro m hm t ht d b hb
      have hq := hQ e.1 e.2 hev c hc t ht
      rcases getElem?_appendVote hb with ⟨-, ⟨-, rfl⟩ | ⟨b₀, hb₀, rfl⟩⟩ | ⟨-, hb'⟩
      · exact ⟨by simp, by simpa using hq⟩
      · refine ⟨by simp, fun v hv => ?_⟩
        rcases List.mem_append.mp hv with hv | hv
        · exact (hm d b₀ hb₀).2 v hv
        · rw [List.mem_singleton.mp hv]
          exact hq
      · exact hm d b hb'

/-- Votes are cast with the power of a claim or with none. -/
lemma nonnegPowers_collectBallots {s : Store} {claims : ClaimMap}
    (hc : ∀ (k : String) (c : Claim), claims[k]? = some c → 0 ≤ c.power)
    {d : Denom} {b : ExchangeRateBallot} (hb : (collectBallots s claims)[d]? = some b) :
    NonnegPowers b := by
  refine (collectBallots_forall (fun v => 0 ≤ v.power) (fun a v _ c hcv t _ => ?_) hb).2
  rw [ballotEntry]
  split_ifs
  · exact hc _ c hcv
  · exact le_rfl

/-- No voter is twice in a ballot, and all voters are among those seen. -/
def VotersAmong (seen : List ValAddress) (m : BallotMap) : Prop :=
  ∀ (d : Denom) (b : ExchangeRateBallot), m[d]? = some b →
    (b.map VoteForTally.voter).Nodup ∧ ∀ v ∈ b, v.voter ∈ seen

/-- The rates of a voter not seen before, of distinct denoms, go to different ballots. -/
lemma VotersAmong.foldl_appendVote {seen : List ValAddress} {m : BallotMap}
    (hm : VotersAmong seen m) {a : ValAddress} (ha : a ∉ seen) {power : ℤ}
    {tuples : List ExchangeRateTuple} (hnodup : (tuples.map ExchangeRateTuple.denom).Nodup) :
    VotersAmong (seen ++ [a]) (tuples.foldl (appendVote a power) m) := by
  have key := foldl_induction (f := appendVote a power) (l := tuples) (b := m)
    (fun ts (m : BallotMap) => ∀ (d : Denom) (b : ExchangeRateBallot), m[d]? = some b →
      (b.map VoteForTally.voter).Nodup ∧ ∀ v ∈ b, v.voter ∈ seen
        ∨ (v.voter = a ∧ d ∈ ts.map ExchangeRateTuple.denom))
    (fun d b hb => ⟨(hm d b hb).1, fun v hv => Or.inl ((hm d b hb).2 v hv)⟩) ?_
  · intro d b hb
    refine ⟨(key d b hb).1, fun v hv => ?_⟩
    rcases (key d b hb).2 v hv with hv | ⟨hv, -⟩
    · exact List.mem_append_left _ hv
    · simp [hv]
  intro ts t ts' m' hts hm' d b hb
  rcases getElem?_appendVote hb with ⟨rfl, ⟨-, rfl⟩ | ⟨b₀, hb₀, rfl⟩⟩ | ⟨-, hb'⟩
  · exact ⟨by simp, fun v hv => Or.inr (by simp [List.mem_singleton.mp hv, ballotEntry])⟩
  · obtain ⟨hnd, hvoters⟩ := hm' _ b₀ hb₀
    -- the denom is new in this vote, so the ballot holds earlier voters only
    have hnew : t.denom ∉ ts.map ExchangeRateTuple.denom := by
      rw [hts, List.map_append, List.nodup_append] at hnodup
      exact fun hmem => hnodup.2.2 _ hmem t.denom (by simp) rfl
    have hearlier : ∀ v ∈ b₀, v.voter ∈ seen := fun v hv =>
      (hvoters v hv).resolve_right fun hv' => hnew hv'.2
    refine ⟨?_, fun v hv => ?_⟩
    · rw [List.map_append, List.nodup_append]
      refine ⟨hnd, by simp, fun x hx y hy hxy => ha ?_⟩
      obtain ⟨v, hv, rfl⟩ := List.mem_map.mp hx
      have hva : v.voter = a := hxy.trans (by simpa [ballotEntry] using hy)
      exact hva ▸ hearlier v hv
    · rcases List.mem_append.mp hv with hv | hv
      · exact Or.inl (hearlier v hv)
      · exact Or.inr (by simp [List.mem_singleton.mp hv, ballotEntry])
  · obtain ⟨hnd, hvoters⟩ := hm' d b hb'
    refine ⟨hnd, fun v hv => (hvoters v hv).imp_right fun hd => ⟨hd.1, ?_⟩⟩
    rw [List.map_append]
    exact List.mem_append_left _ hd.2

/-- A vote that gives each denom at most one rate is at most once in a ballot. -/
lemma collectBallots_voters_nodup_of_distinct {s : Store}
    (hs : ∀ (a : ValAddress) v, s.votes[a]? = some v →
      (v.exchangeRateTuples.map ExchangeRateTuple.denom).Nodup)
    {claims : ClaimMap} {d : Denom} {b : ExchangeRateBallot}
    (hb : (collectBallots s claims)[d]? = some b) : (b.map VoteForTally.voter).Nodup := by
  refine (foldl_induction (f := organizeVote claims)
    (fun pre m => VotersAmong (pre.map Prod.fst) m) ?_ ?_ d b hb).1
  · intro d b hb
    simp at hb
  intro pre e post m hl hm
  -- the voter of this round has not voted before
  have hfresh : e.1 ∉ pre.map Prod.fst := not_mem_keys_of_append (nodup_keys_toList s.votes) hl
  rw [organizeVote, List.map_append, List.map_singleton]
  cases hc : claims[e.2.voter]? with
  | none =>
      intro d b hb
      exact ⟨(hm d b hb).1, fun v hv => List.mem_append_left _ ((hm d b hb).2 v hv)⟩
  | some c =>
      have hev : s.votes[e.1]? = some e.2 :=
        ExtTreeMap.mem_toList_iff_getElem?_eq_some.mp (by simp [hl])
      exact hm.foldl_appendVote hfresh (hs e.1 e.2 hev)

/-- An admitted vote gives each denom at most one rate, so no voter is twice in a ballot. -/
lemma collectBallots_voters_nodup {H : Host} {s : Store} (hs : VotesAdmitted H s)
    {claims : ClaimMap} {d : Denom} {b : ExchangeRateBallot}
    (hb : (collectBallots s claims)[d]? = some b) : (b.map VoteForTally.voter).Nodup :=
  collectBallots_voters_nodup_of_distinct (fun a v hv => (hs a v hv).nodup) hb

/-! ### The reference denom -/

/-- The ballot of a vote target passes. -/
def Passing (targets : TargetMap) (ballots : BallotMap) (threshold : ℤ) (d : Denom)
    (b : ExchangeRateBallot) : Prop :=
  d ∈ targets ∧ ballots[d]? = some b ∧ ballotIsPassing b threshold

/-- The passing ballot with the largest power, the first denom in the alphabet among equals. -/
def IsReference (targets : TargetMap) (ballots : BallotMap) (threshold : ℤ) (r : Denom)
    (ref : ExchangeRateBallot) : Prop :=
  Passing targets ballots threshold r ref ∧
    ∀ d b, Passing targets ballots threshold d b →
      power b < power ref ∨ (power b = power ref ∧ r ≤ d)

/-- There is at most one reference denom. -/
lemma IsReference.unique {targets : TargetMap} {ballots : BallotMap} {threshold : ℤ}
    {r r' : Denom} {ref ref' : ExchangeRateBallot} (h : IsReference targets ballots threshold r ref)
    (h' : IsReference targets ballots threshold r' ref') : r = r' ∧ ref = ref' := by
  have h1 := h.2 r' ref' h'.1
  have h2 := h'.2 r ref h.1
  have hr : r = r' := by
    rcases h1 with h1 | ⟨heq, h1⟩
    · omega
    · rcases h2 with h2 | ⟨-, h2⟩
      · omega
      · exact le_antisymm h1 h2
  subst hr
  exact ⟨rfl, Option.some.inj (h.1.2.1.symm.trans h'.1.2.1)⟩

/-- What the loop of `PickReferenceTerra` has established after the ballots `pre`. -/
structure PickInv (targets : TargetMap) (ballots : BallotMap) (threshold : ℤ)
    (pre : List (Denom × ExchangeRateBallot)) (s : PickState) : Prop where
  targets_iff : ∀ d (x : Dec), s.voteTargets[d]? = some x
    ↔ targets[d]? = some x ∧ ∀ b, (d, b) ∈ pre → ballotIsPassing b threshold
  ballots_iff : ∀ d (b : ExchangeRateBallot), s.voteMap[d]? = some b
    ↔ ballots[d]? = some b ∧ ∀ b', (d, b') ∈ pre → d ∈ targets ∧ ballotIsPassing b' threshold
  reference_none : (∀ e ∈ pre, ¬ (e.1 ∈ targets ∧ ballotIsPassing e.2 threshold)) →
    s.largestBallotPower = 0 ∧ s.referenceTerra = ""
  reference_some : ∀ e ∈ pre, e.1 ∈ targets → ballotIsPassing e.2 threshold →
    ∃ ref, (s.referenceTerra, ref) ∈ pre ∧ s.referenceTerra ∈ targets
      ∧ ballotIsPassing ref threshold ∧ power ref = s.largestBallotPower
      ∧ (power e.2 < power ref ∨ (power e.2 = power ref ∧ s.referenceTerra ≤ e.1))

section Pick

variable {targets : TargetMap} {ballots : BallotMap} {threshold : ℤ}
  {pre : List (Denom × ExchangeRateBallot)} {s : PickState} {d : Denom} {b : ExchangeRateBallot}

/-- A denom not visited yet is a target in the loop exactly when it was before it. -/
lemma PickInv.mem_voteTargets (h : PickInv targets ballots threshold pre s)
    (hfresh : d ∉ pre.map Prod.fst) : d ∈ s.voteTargets ↔ d ∈ targets := by
  have hno : ∀ b, (d, b) ∉ pre := fun b hb => hfresh (List.mem_map.mpr ⟨(d, b), hb, rfl⟩)
  rw [ExtTreeMap.mem_iff_isSome_getElem?, ExtTreeMap.mem_iff_isSome_getElem?,
    Option.isSome_iff_exists, Option.isSome_iff_exists]
  refine exists_congr fun x => ?_
  rw [h.targets_iff]
  exact ⟨fun hx => hx.1, fun hx => ⟨hx, fun b hb => absurd hb (hno b)⟩⟩

/-- A statement about the visited ballots of a denom, one round later. -/
lemma forall_visited_append {P : ExchangeRateBallot → Prop} {d' : Denom} :
    (∀ b', (d', b') ∈ pre ++ [(d, b)] → P b')
      ↔ (∀ b', (d', b') ∈ pre → P b') ∧ (d' = d → P b) := by
  simp only [List.mem_append, List.mem_singleton, Prod.mk.injEq, or_imp, forall_and, and_imp]
  exact and_congr_right fun _ => ⟨fun h hd => h b hd rfl, fun h b' hd hb => hb ▸ h hd⟩

/-- A ballot that does not count leaves the choice as it is. -/
lemma PickInv.skip (h : PickInv targets ballots threshold pre s)
    (hskip : ¬ (d ∈ targets ∧ ballotIsPassing b threshold)) {t : TargetMap}
    (ht : ∀ d' (x : Dec), t[d']? = some x
      ↔ targets[d']? = some x ∧ ∀ b', (d', b') ∈ pre ++ [(d, b)] → ballotIsPassing b' threshold) :
    PickInv targets ballots threshold (pre ++ [(d, b)])
      { s with voteTargets := t, voteMap := s.voteMap.erase d } where
  targets_iff := ht
  ballots_iff := by
    intro d' b'
    rw [getElem?_erase_ite, forall_visited_append]
    by_cases hdd : d = d'
    · obtain rfl := hdd
      simp only [if_true]
      constructor
      · intro hn
        exact absurd hn (by simp)
      · rintro ⟨-, -, hlast⟩
        exact absurd (hlast trivial) hskip
    · simp only [hdd, if_false, Ne.symm hdd, false_imp_iff, and_true]
      exact h.ballots_iff d' b'
  reference_none := fun hall =>
    h.reference_none fun e he => hall e (List.mem_append_left _ he)
  reference_some := by
    intro e he het hep
    rcases List.mem_append.mp he with he | he
    · obtain ⟨ref, href, hrest⟩ := h.reference_some e he het hep
      exact ⟨ref, List.mem_append_left _ href, hrest⟩
    · rw [List.mem_singleton.mp he] at het hep
      exact absurd ⟨het, hep⟩ hskip

/-- A ballot that counts stays in both maps. -/
lemma PickInv.keep (h : PickInv targets ballots threshold pre s)
    (hd : d ∈ targets) (hb : ballotIsPassing b threshold) {largest : ℤ} {r : Denom}
    (hr : ∀ e ∈ pre ++ [(d, b)], e.1 ∈ targets → ballotIsPassing e.2 threshold →
      ∃ ref, (r, ref) ∈ pre ++ [(d, b)] ∧ r ∈ targets ∧ ballotIsPassing ref threshold
        ∧ power ref = largest
        ∧ (power e.2 < power ref ∨ (power e.2 = power ref ∧ r ≤ e.1))) :
    PickInv targets ballots threshold (pre ++ [(d, b)])
      { s with largestBallotPower := largest, referenceTerra := r } where
  targets_iff := by
    intro d' x
    rw [forall_visited_append, h.targets_iff]
    exact and_congr_right fun _ => ⟨fun hpre => ⟨hpre, fun _ => hb⟩, fun hall => hall.1⟩
  ballots_iff := by
    intro d' x
    rw [forall_visited_append, h.ballots_iff]
    exact and_congr_right fun _ => ⟨fun hpre => ⟨hpre, fun he => ⟨he ▸ hd, hb⟩⟩, fun hall => hall.1⟩
  reference_none := fun hall => absurd ⟨hd, hb⟩ (hall (d, b) (by simp))
  reference_some := hr

/-- A ballot that is ahead of all before it is the reference. -/
lemma PickInv.lead (h : PickInv targets ballots threshold pre s) (hd : d ∈ targets)
    (hb : ballotIsPassing b threshold) {largest : ℤ} (hlargest : power b = largest)
    (hahead : ∀ e ∈ pre, e.1 ∈ targets → ballotIsPassing e.2 threshold →
      power e.2 < power b ∨ (power e.2 = power b ∧ d ≤ e.1)) :
    PickInv targets ballots threshold (pre ++ [(d, b)])
      { s with largestBallotPower := largest, referenceTerra := d } := by
  refine h.keep hd hb fun e he het hep => ⟨b, by simp, hd, hb, hlargest, ?_⟩
  rcases List.mem_append.mp he with he | he
  · exact hahead e he het hep
  · rw [List.mem_singleton.mp he]
    exact Or.inr ⟨rfl, le_rfl⟩

/-- A ballot behind the reference leaves it. -/
lemma PickInv.stay (h : PickInv targets ballots threshold pre s) (hd : d ∈ targets)
    (hb : ballotIsPassing b threshold)
    (hex : ∃ e ∈ pre, e.1 ∈ targets ∧ ballotIsPassing e.2 threshold)
    (hbehind : power b < s.largestBallotPower
      ∨ (power b = s.largestBallotPower ∧ s.referenceTerra ≤ d)) :
    PickInv targets ballots threshold (pre ++ [(d, b)]) s := by
  refine h.keep hd hb fun e he het hep => ?_
  rcases List.mem_append.mp he with he | he
  · obtain ⟨ref, href, hrest⟩ := h.reference_some e he het hep
    exact ⟨ref, List.mem_append_left _ href, hrest⟩
  · obtain ⟨e', he', het', hep'⟩ := hex
    obtain ⟨ref, href, hrt, hrp, hlargest, -⟩ := h.reference_some e' he' het' hep'
    refine ⟨ref, List.mem_append_left _ href, hrt, hrp, hlargest, ?_⟩
    rw [List.mem_singleton.mp he, hlargest]
    exact hbehind

/-- **One round of the choice.** -/
lemma PickInv.round (h : PickInv targets ballots threshold pre s)
    (hfresh : d ∉ pre.map Prod.fst) :
    PickInv targets ballots threshold (pre ++ [(d, b)]) (pickRound threshold s (d, b)) := by
  rw [pickRound]
  by_cases hd : d ∈ targets
  · have hd' : d ∈ s.voteTargets := (h.mem_voteTargets hfresh).mpr hd
    by_cases hb : ballotIsPassing b threshold
    · simp only [hd', hb, not_true_eq_false, if_false]
      split_ifs with hlarger htie
      · -- the ballot leads
        refine h.lead hd hb rfl fun e he het hep => ?_
        obtain ⟨ref, -, -, hrefp, hlargest, hle⟩ := h.reference_some e he het hep
        -- a passing ballot has power, so that the largest power is 0 before the first one only
        have hne : power ref ≠ 0 := hrefp.1
        omega
      · -- the ballot ties, and its denom comes first
        refine h.lead hd hb htie.1.symm fun e he het hep => ?_
        obtain ⟨ref, href, -, hrefp, hlargest, hle⟩ := h.reference_some e he het hep
        rcases hle with hlt | ⟨heq, hle⟩
        · left; omega
        · exact Or.inr ⟨by omega, htie.2.le.trans hle⟩
      · -- the leader stays
        push Not at hlarger
        refine h.stay hd hb ?_ ?_
        · by_contra hno
          push Not at hno
          exact hlarger.2 (h.reference_none fun e he hc => hno e he hc.1 hc.2).1
        · rcases lt_or_eq_of_le hlarger.1 with hlt | heq
          · exact Or.inl hlt
          · exact Or.inr ⟨heq, not_lt.mp fun hlt => htie ⟨heq.symm, hlt⟩⟩
    · simp only [hd', hb, not_true_eq_false, not_false_eq_true, if_false, if_true]
      refine h.skip (fun hc => hb hc.2) fun d' x => ?_
      rw [getElem?_erase_ite, forall_visited_append]
      by_cases hdd : d = d'
      · obtain rfl := hdd
        simp [hb]
      · simp only [hdd, if_false, Ne.symm hdd, false_imp_iff, and_true]
        exact h.targets_iff d' x
  · have hd' : d ∉ s.voteTargets := fun hc => hd ((h.mem_voteTargets hfresh).mp hc)
    simp only [hd', not_false_eq_true, if_true]
    refine h.skip (fun hc => hd hc.1) fun d' x => ?_
    rw [forall_visited_append, h.targets_iff]
    refine and_congr_right fun hx => ⟨fun hpre => ⟨hpre, ?_⟩, fun hall => hall.1⟩
    rintro rfl
    exact absurd (mem_of_getElem?_eq_some hx) hd

end Pick

lemma ballotIsPassing_sort (S : Schedule) {b : ExchangeRateBallot} {threshold : ℤ} :
    ballotIsPassing (S.sort b) threshold ↔ ballotIsPassing b threshold := by
  rw [ballotIsPassing, ballotIsPassing, power_perm (S.sort_perm b)]

lemma getElem?_sortBallots {S : Schedule} {ballots : BallotMap} {d : Denom}
    {b' : ExchangeRateBallot} :
    (sortBallots S ballots)[d]? = some b' ↔ ∃ b, ballots[d]? = some b ∧ S.sort b = b' := by
  rw [sortBallots, ExtTreeMap.getElem?_map, Option.map_eq_some_iff]

/-- The loop of `PickReferenceTerra` over all ballots. -/
lemma pickInv_foldl (S : Schedule) (targets : TargetMap) (ballots : BallotMap) (threshold : ℤ) :
    PickInv targets ballots threshold (S.rangePick.visit ballots.toList)
      ((S.rangePick.visit ballots.toList).foldl (pickRound threshold)
        ⟨0, "", targets, ballots⟩) := by
  have hnodup := S.rangePick.nodup_visit_keys ballots
  refine foldl_induction (PickInv targets ballots threshold)
    ⟨by simp, by simp, by simp, by simp⟩ fun pre e post c hl hc => ?_
  exact hc.round (not_mem_keys_of_append hnodup hl)

/-- What `PickReferenceTerra` returns, in terms of the maps it is given. -/
structure Selects (targets : TargetMap) (ballots : BallotMap) (threshold : ℤ)
    (p : PickState) : Prop where
  targets_iff : ∀ (d : Denom) (x : Dec), p.voteTargets[d]? = some x
    ↔ targets[d]? = some x ∧ ∀ b, ballots[d]? = some b → ballotIsPassing b threshold
  ballots_iff : ∀ (d : Denom) (b : ExchangeRateBallot), p.voteMap[d]? = some b
    ↔ Passing targets ballots threshold d b
  reference : (p.referenceTerra = "" ∧ ∀ d b, ¬ Passing targets ballots threshold d b)
    ∨ ∃ ref, IsReference targets ballots threshold p.referenceTerra ref

/-- Once every ballot has been visited, the invariant of the loop is the result. -/
lemma PickInv.selects {targets : TargetMap} {ballots : BallotMap} {threshold : ℤ}
    {visited : List (Denom × ExchangeRateBallot)} {p : PickState}
    (h : PickInv targets ballots threshold visited p)
    (hvisit : ∀ d b, (d, b) ∈ visited ↔ ballots[d]? = some b) :
    Selects targets ballots threshold p where
  targets_iff := by
    intro d x
    simp only [h.targets_iff, hvisit]
  ballots_iff := by
    intro d b
    simp only [h.ballots_iff, hvisit]
    constructor
    · rintro ⟨hb, hall⟩
      exact ⟨(hall b hb).1, hb, (hall b hb).2⟩
    · rintro ⟨hd, hb, hp⟩
      refine ⟨hb, fun b' hb' => ⟨hd, ?_⟩⟩
      obtain rfl := Option.some.inj (hb ▸ hb')
      exact hp
  reference := by
    by_cases hex : ∃ d b, Passing targets ballots threshold d b
    · -- the leader of the loop is ahead of every passing ballot
      right
      have hlead := fun d b (hb : Passing targets ballots threshold d b) =>
        h.reference_some (d, b) ((hvisit d b).mpr hb.2.1) hb.1 hb.2.2
      obtain ⟨d, b, hb⟩ := hex
      obtain ⟨ref, href, hrt, hrp, -⟩ := hlead d b hb
      rw [hvisit] at href
      refine ⟨ref, ⟨hrt, href, hrp⟩, fun d' b' hb' => ?_⟩
      obtain ⟨ref', href', -, -, -, hle⟩ := hlead d' b' hb'
      rw [hvisit] at href'
      obtain rfl := Option.some.inj (href ▸ href')
      exact hle
    · left
      push Not at hex
      refine ⟨(h.reference_none fun e he hc => ?_).2, hex⟩
      exact hex e.1 e.2 ⟨hc.1, (hvisit e.1 e.2).mp he, hc.2⟩

/-- The selection, whatever the order of the loop. -/
lemma selects_of_foldl (S : Schedule) (targets : TargetMap) (ballots : BallotMap) (threshold : ℤ) :
    Selects targets ballots threshold
      ((S.rangePick.visit ballots.toList).foldl (pickRound threshold) ⟨0, "", targets, ballots⟩) :=
  (pickInv_foldl S targets ballots threshold).selects fun _ _ =>
    RangeOrder.mem_visit_toList _ _

/-- What `PickReferenceTerra` returns, in terms of the ballots as they were collected. -/
structure PickSpec (S : Schedule) (targets : TargetMap) (ballots : BallotMap) (threshold : ℤ)
    (p : PickState) : Prop where
  targets_iff : ∀ (d : Denom) (x : Dec), p.voteTargets[d]? = some x
    ↔ targets[d]? = some x ∧ ∀ b, ballots[d]? = some b → ballotIsPassing b threshold
  ballots_iff : ∀ (d : Denom) (b' : ExchangeRateBallot), p.voteMap[d]? = some b'
    ↔ ∃ b, Passing targets ballots threshold d b ∧ b' = S.sort b
  reference : (p.referenceTerra = "" ∧ ∀ d b, ¬ Passing targets ballots threshold d b)
    ∨ ∃ ref, IsReference targets ballots threshold p.referenceTerra ref

section Sorted

variable {S : Schedule} {targets : TargetMap} {ballots : BallotMap} {threshold : ℤ}

/-- Sorting the ballots does not change which of them pass. -/
lemma passing_sortBallots_iff {d : Denom} {b' : ExchangeRateBallot} :
    Passing targets (sortBallots S ballots) threshold d b'
      ↔ ∃ b, Passing targets ballots threshold d b ∧ b' = S.sort b := by
  constructor
  · rintro ⟨hd, hb', hp⟩
    obtain ⟨b, hb, rfl⟩ := getElem?_sortBallots.mp hb'
    exact ⟨b, ⟨hd, hb, (ballotIsPassing_sort S).mp hp⟩, rfl⟩
  · rintro ⟨b, ⟨hd, hb, hp⟩, rfl⟩
    exact ⟨hd, getElem?_sortBallots.mpr ⟨b, hb, rfl⟩, (ballotIsPassing_sort S).mpr hp⟩

/-- Nor which is the reference. -/
lemma exists_isReference_of_sortBallots {r : Denom} {ref' : ExchangeRateBallot}
    (h : IsReference targets (sortBallots S ballots) threshold r ref') :
    ∃ ref, IsReference targets ballots threshold r ref := by
  obtain ⟨ref, href, rfl⟩ := passing_sortBallots_iff.mp h.1
  refine ⟨ref, href, fun d b hb => ?_⟩
  have hle := h.2 d (S.sort b) (passing_sortBallots_iff.mpr ⟨b, hb, rfl⟩)
  rwa [power_perm (S.sort_perm b), power_perm (S.sort_perm ref)] at hle

/-- The selection among the sorted ballots. -/
lemma Selects.pickSpec {p : PickState} (h : Selects targets (sortBallots S ballots) threshold p) :
    PickSpec S targets ballots threshold p where
  targets_iff := by
    intro d x
    rw [h.targets_iff]
    refine and_congr_right fun _ => ⟨fun hall b hb => ?_, fun hall b' hb' => ?_⟩
    · exact (ballotIsPassing_sort S).mp (hall _ (getElem?_sortBallots.mpr ⟨b, hb, rfl⟩))
    · obtain ⟨b, hb, rfl⟩ := getElem?_sortBallots.mp hb'
      exact (ballotIsPassing_sort S).mpr (hall b hb)
  ballots_iff := fun d b' => (h.ballots_iff d b').trans passing_sortBallots_iff
  reference := by
    rcases h.reference with ⟨he, hno⟩ | ⟨ref, href⟩
    · exact Or.inl ⟨he, fun d b hb => hno d _ (passing_sortBallots_iff.mpr ⟨b, hb, rfl⟩)⟩
    · exact Or.inr (exists_isReference_of_sortBallots href)

end Sorted

/-- **The selection in the end blocker**, where the ballots have been sorted. -/
theorem pickReferenceTerra_spec {K : Keepers σ} {S : Schedule} {s : σ} {voteThreshold : Dec}
    {targets : TargetMap} {ballots : BallotMap} {p : PickState}
    (h : pickReferenceTerra K S s voteThreshold targets (sortBallots S ballots) = .ok p) :
    ∃ threshold, thresholdVotes K s voteThreshold = .ok threshold
      ∧ PickSpec S targets ballots threshold p := by
  obtain ⟨threshold, hthreshold, h⟩ := bind_eq_ok.mp h
  obtain rfl := Except.ok.inj h
  exact ⟨threshold, hthreshold, (selects_of_foldl S targets _ threshold).pickSpec⟩

end ColumbusCore.Oracle
