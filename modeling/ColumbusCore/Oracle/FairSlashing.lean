import ColumbusCore.Oracle.Determinism
import ColumbusCore.Oracle.Slashing

/-!
Misses over a slash window, and who is slashed at its end.

At the end of a window the misses of a validator are compared with the truncated quotient of
window and vote period, while the number of tallies in the window is that quotient or one more,
depending on how the two periods meet.

* `ClaimsKeyed`, `getD_countMisses`: every tally counts a validator as missing at most once;
* `WindowRun`: the blocks of a window, with the number of tallies and of misses of a validator;
* `WindowRun.counter`: **the stored counter is the number of misses**;
* `notSlashed_iff`: **who is slashed**. A validator whose share of valid periods is at least the
  minimum is slashed exactly when the window holds more tallies than the quotient and its misses
  are too many for the quotient.
-/

namespace ColumbusCore.Oracle

open Go
open Std (ExtTreeMap)

variable {σ : Type}

/-! ### Claims of a tally -/

/-- Every claim is under the name of its recipient. -/
def ClaimsKeyed (H : Host) (claims : ClaimMap) : Prop :=
  ∀ (k : String) (c : Claim), claims[k]? = some c → H.valString c.recipient = k

/-- The credit is one for the key `k`. -/
def creditsTo (k : String) (c : Option (String × ℤ)) : Bool := c.any fun e => decide (e.1 = k)

/-- Credits raise the wins of a claim by the number of those for its key, and keep its
recipient. -/
lemma getElem?_foldl_credit {k : String} (l : List (Option (String × ℤ))) {claims : ClaimMap}
    {c : Claim} (hc : claims[k]? = some c) :
    ∃ weight, (l.foldl credit claims)[k]?
      = some { c with weight := weight, winCount := c.winCount + l.countP (creditsTo k) } := by
  induction l generalizing claims c with
  | nil => exact ⟨c.weight, by simp [hc]⟩
  | cons o l ih =>
      rw [List.foldl_cons, List.countP_cons]
      cases o with
      | none => simpa [creditsTo, credit] using ih hc
      | some e =>
          by_cases hk : e.1 = k
          · obtain rfl := hk
            have hclaim : claims.getD e.1 default = c := by
              rw [ExtTreeMap.getD_eq_getD_getElem?, hc]
              rfl
            have hnext := getElem?_credit claims e.1 e.2 e.1
            rw [if_pos rfl, hclaim] at hnext
            obtain ⟨weight, hw⟩ := ih hnext
            refine ⟨weight, hw.trans ?_⟩
            simp [creditsTo, add_assoc, add_comm]
          · have hnext := (getElem?_credit claims e.1 e.2 k).trans ((if_neg hk).trans hc)
            simpa [creditsTo, hk] using ih hnext

/-- Where there is no claim and no credit for a key, there is no claim after the credits. -/
lemma getElem?_foldl_credit_of_none {k : String} {l : List (Option (String × ℤ))}
    {claims : ClaimMap} (hc : claims[k]? = none) (hl : ∀ o ∈ l, creditsTo k o = false) :
    (l.foldl credit claims)[k]? = none := by
  refine List.foldlRecOn (motive := fun cur : ClaimMap => cur[k]? = none) l credit hc ?_
  intro cur hcur o ho
  cases o with
  | none => exact hcur
  | some e =>
      have hk : ¬ e.1 = k := by simpa [creditsTo] using hl _ ho
      rw [getElem?_credit, if_neg hk, hcur]

lemma crossVote_voter {bases : ExtTreeMap ValAddress Dec} {v v' : VoteForTally}
    (h : crossVote bases v = .ok v') : v'.voter = v.voter := by
  by_cases hshared : v.voter ∈ bases ∧ v.exchangeRate.IsPositive
  · obtain ⟨r, hr⟩ := Option.isSome_iff_exists.mp (ExtTreeMap.mem_iff_isSome_getElem?.mp hshared.1)
    rw [crossVote_of_positive hr hshared.2] at h
    obtain ⟨q, -, rfl⟩ := map_eq_ok_iff.mp h
    rfl
  · rw [crossVote_of_not_shared hshared] at h
    obtain rfl := Except.ok.inj h
    rfl

/-- The credits of a ballot go to its voters. -/
lemma mem_tallyCredits {H : Host} {pb : ExchangeRateBallot} {rewardBand : Dec}
    {r : Dec × List (Option (String × ℤ))} (h : tallyCredits H pb rewardBand = .ok r) :
    ∀ c ∈ r.2, ∀ k p, c = some (k, p) → ∃ v ∈ pb, k = H.valString v.voter := by
  obtain ⟨s, -, h⟩ := bind_eq_ok.mp h
  obtain ⟨cs, hcs, h⟩ := bind_eq_ok.mp h
  obtain rfl := Except.ok.inj h
  rintro c hc k p rfl
  obtain ⟨v, hv, hvc⟩ := exists_of_mem_mapM hcs _ hc
  obtain ⟨within, -, hvc⟩ := bind_eq_ok.mp hvc
  refine ⟨v, hv, ?_⟩
  have hif := Except.ok.inj hvc
  split_ifs at hif
  exact (congrArg Prod.fst (Option.some.inj hif)).symm

lemma mem_rateAndCredits {H : Host} {S : Schedule} {rewardBand : Dec} {r : Denom}
    {ref : ExchangeRateBallot} {e : Denom × ExchangeRateBallot}
    {x : Dec × List (Option (String × ℤ))}
    (h : rateAndCredits H S rewardBand r ref e = .ok x) :
    ∀ c ∈ x.2, ∀ k p, c = some (k, p) → ∃ v ∈ e.2, k = H.valString v.voter := by
  rw [rateAndCredits] at h
  split_ifs at h
  · exact mem_tallyCredits h
  · obtain ⟨cross, hcross, h⟩ := bind_eq_ok.mp h
    obtain ⟨y, hy, h⟩ := bind_eq_ok.mp h
    obtain ⟨_, -, h⟩ := bind_eq_ok.mp h
    obtain rfl := Except.ok.inj h
    intro c hc k p hkp
    obtain ⟨v, hv, rfl⟩ := mem_tallyCredits hy c hc k p hkp
    obtain ⟨cb, hcb, hsort⟩ := bind_eq_ok.mp hcross
    obtain rfl := Except.ok.inj hsort
    obtain ⟨u, hu, huv⟩ := exists_of_mem_mapM hcb v ((S.sort_perm cb).mem_iff.mp hv)
    exact ⟨u, hu, by rw [crossVote_voter huv]⟩

/-- The choice of the reference denom only drops ballots. -/
lemma pickReferenceTerra_voteMap {K : Keepers σ} {S : Schedule} {s : σ} {voteThreshold : Dec}
    {targets : TargetMap} {voteMap : BallotMap} {p : PickState}
    (h : pickReferenceTerra K S s voteThreshold targets voteMap = .ok p) :
    ∀ (d : Denom) b, p.voteMap[d]? = some b → voteMap[d]? = some b := by
  obtain ⟨threshold, -, h⟩ := bind_eq_ok.mp h
  obtain rfl := Except.ok.inj h
  refine List.foldlRecOn (motive := fun s : PickState =>
    ∀ (d : Denom) b, s.voteMap[d]? = some b → voteMap[d]? = some b) _ _ (fun d b hb => hb) ?_
  rintro s hs ⟨d', b'⟩ - d b hb
  have herase : (s.voteMap.erase d')[d]? = some b → s.voteMap[d]? = some b := by
    intro he
    rw [ExtTreeMap.getElem?_erase] at he
    split_ifs at he
    exact he
  refine hs d b ?_
  dsimp only [pickRound] at hb
  split_ifs at hb
  · exact hb
  · exact hb
  · exact hb
  · exact herase hb
  · exact herase hb

section Loop

variable {H : Host} {S : Schedule} {rewardBand : Dec} {r : Denom} {ref : ExchangeRateBallot}
  {l : List (Denom × ExchangeRateBallot)} {s s' : RateState} {k : String}

/-- The number of credits of a ballot for a key. -/
def creditCount (H : Host) (S : Schedule) (rewardBand : Dec) (r : Denom) (ref : ExchangeRateBallot)
    (k : String) (e : Denom × ExchangeRateBallot) : ℕ :=
  match rateAndCredits H S rewardBand r ref e with
  | .ok x => x.2.countP (creditsTo k)
  | .error _ => 0

/-- The wins of a claim grow with every ballot by the credits for its key. -/
lemma getElem?_foldlM_updateRate (h : l.foldlM (updateRate H S rewardBand r ref) s = .ok s')
    {c : Claim} (hc : s.claims[k]? = some c) :
    ∃ weight, s'.claims[k]? = some { c with
      weight := weight
      winCount := c.winCount + (l.map (creditCount H S rewardBand r ref k)).sum } := by
  refine foldlM_induction (fun pre (cur : RateState) => ∃ weight, cur.claims[k]? = some { c with
    weight := weight
    winCount := c.winCount + (pre.map (creditCount H S rewardBand r ref k)).sum }) h
    ⟨c.weight, by simp [hc]⟩ ?_
  rintro pre e post cur cur' - ⟨weight, hcur⟩ hround
  rw [updateRate_eq] at hround
  obtain ⟨x, hx, hround⟩ := bind_eq_ok.mp hround
  obtain rfl := Except.ok.inj hround
  obtain ⟨weight', hcredits⟩ := getElem?_foldl_credit x.2 hcur
  refine ⟨weight', hcredits.trans ?_⟩
  simp [creditCount, hx, add_assoc]

/-- No claim appears that is not that of a voter. -/
lemma getElem?_foldlM_updateRate_of_none
    (h : l.foldlM (updateRate H S rewardBand r ref) s = .ok s') (hc : s.claims[k]? = none)
    (hl : ∀ e ∈ l, ∀ v ∈ e.2, H.valString v.voter ≠ k) : s'.claims[k]? = none := by
  refine foldlM_invariant (fun cur : RateState => cur.claims[k]? = none) h hc ?_
  intro e he cur cur' hcur hround
  rw [updateRate_eq] at hround
  obtain ⟨x, hx, hround⟩ := bind_eq_ok.mp hround
  obtain rfl := Except.ok.inj hround
  refine getElem?_foldl_credit_of_none hcur fun o ho => ?_
  cases o with
  | none => rfl
  | some w =>
      obtain ⟨v, hv, hkey⟩ := mem_rateAndCredits hx _ ho w.1 w.2 rfl
      exact decide_eq_false fun hk => hl e he v hv (hkey.symm.trans hk)

end Loop

/-- **The claims of a tally are those of the active validators**, where a vote that is counted has
the name of its voter. -/
theorem recipient_of_tallyVotes {K : Keepers σ} {H : Host} {S : Schedule} {w : World σ}
    {claims : ClaimMap} (hclaims : activeClaims K H w.ext = .ok claims)
    (hvoter : ∀ (a : ValAddress) u, w.store.votes[a]? = some u → u.voter ∈ claims →
      u.voter = H.valString a)
    {t : Tallied} (h : tallyVotes K H S w = .ok t) {k : String} {c : Claim}
    (hc : t.claims[k]? = some c) : ∃ c₀ : Claim, claims[k]? = some c₀ ∧ c.recipient = c₀.recipient := by
  obtain ⟨claims', hclaims', h⟩ := bind_eq_ok.mp h
  obtain rfl := Except.ok.inj (hclaims.symm.trans hclaims')
  obtain ⟨pick, hpick, h⟩ := bind_eq_ok.mp h
  obtain ⟨s, hs, h⟩ := bind_eq_ok.mp h
  obtain rfl := Except.ok.inj h
  have hvoters : ∀ (d : Denom) b, pick.voteMap[d]? = some b →
      ∀ v ∈ b, H.valString v.voter ∈ claims := by
    intro d b hb v hv
    obtain ⟨b₀, hb₀, rfl⟩ := getElem?_sortBallots.mp (pickReferenceTerra_voteMap hpick d b hb)
    refine (collectBallots_forall (fun v => H.valString v.voter ∈ claims) ?_ hb₀).2 v
      ((S.sort_perm b₀).mem_iff.mp hv)
    intro a u hu c hc t _
    have hmem := mem_of_getElem?_eq_some hc
    rw [hvoter a u hu hmem] at hmem
    exact hmem
  rw [updateRates] at hs
  split_ifs at hs
  · obtain rfl := Except.ok.inj hs
    exact ⟨c, hc, rfl⟩
  · cases hc₀ : claims[k]? with
    | some c₀ =>
        obtain ⟨weight, hky⟩ := getElem?_foldlM_updateRate hs hc₀
        exact ⟨c₀, rfl, by rw [← Option.some.inj (hky.symm.trans hc)]⟩
    | none =>
        have hnone := getElem?_foldlM_updateRate_of_none hs hc₀ fun e he v hv hk => by
          have hin := hvoters e.1 e.2 ((S.rangeTally.mem_visit_toList pick.voteMap).mp he) v hv
          rw [hk, ExtTreeMap.mem_iff_isSome_getElem?, hc₀] at hin
          exact absurd hin (by simp)
        exact absurd (hnone.symm.trans hc) (by simp)

lemma claimsKeyed_activeClaims {K : Keepers σ} {H : Host} {s : σ} {claims : ClaimMap}
    (h : activeClaims K H s = .ok claims) : ClaimsKeyed H claims :=
  collectClaims_forall (fun _ _ _ _ _ => rfl) h fun k c hkc => by simp at hkc

/-- **The claims of a tally are under the names of their recipients**, in a store of admitted
votes. -/
theorem claimsKeyed_tallyVotes {K : Keepers σ} {H : Host} {S : Schedule} {w : World σ}
    (hw : VotesAdmitted H w.store) {t : Tallied} (h : tallyVotes K H S w = .ok t) :
    ClaimsKeyed H t.claims := by
  obtain ⟨claims, hclaims, -⟩ := bind_eq_ok.mp h
  intro k c hc
  obtain ⟨c₀, hc₀, hrec⟩ :=
    recipient_of_tallyVotes hclaims (fun a u hu _ => (hw a u hu).voter) h hc
  rw [hrec]
  exact claimsKeyed_activeClaims hclaims k c₀ hc₀

/-! ### Misses of one tally -/

/-- The claim is that of the validator `a`, without a win for every target. -/
def misses (voteTargetsLen : ℕ) (a : ValAddress) (e : String × Claim) : Bool :=
  decide (e.2.recipient = a ∧ ¬ e.2.winCount = voteTargetsLen)

/-- The tally counts the validator `a` as missing. -/
def missed (t : Tallied) (a : ValAddress) : Bool :=
  t.claims.toList.any (misses t.voteTargets.size a)

lemma getD_countMiss (n : ℕ) (counters : ExtTreeMap ValAddress ℕ) (e : String × Claim)
    (a : ValAddress) :
    (countMiss n counters e).getD a 0
      = if misses n a e then (counters.getD a 0 + 1) % 2 ^ 64 else counters.getD a 0 := by
  rw [countMiss, misses]
  by_cases hwin : e.2.winCount = n
  · simp [hwin]
  · rw [if_neg hwin, getD_insert_ite]
    by_cases hrec : e.2.recipient = a
    · simp [hrec, hwin]
    · simp [hrec]

/-- **One tally counts a validator at most once.** -/
theorem getD_countMisses {H : Host} (S : Schedule) {t : Tallied} (ht : ClaimsKeyed H t.claims)
    (counters : ExtTreeMap ValAddress ℕ) (a : ValAddress) :
    (countMisses S t counters).getD a 0
      = if missed t a then (counters.getD a 0 + 1) % 2 ^ 64 else counters.getD a 0 := by
  have hany : missed t a
      = (S.rangeMiss.visit t.claims.toList).any (misses t.voteTargets.size a) :=
    ((S.rangeMiss.perm t.claims.toList).any_eq).symm
  have hkey : ∀ e ∈ S.rangeMiss.visit t.claims.toList, H.valString e.2.recipient = e.1 :=
    fun e he => ht e.1 e.2 ((S.rangeMiss.mem_visit_toList t.claims).mp he)
  rw [hany, countMisses]
  refine foldl_induction (fun pre (m : ExtTreeMap ValAddress ℕ) => m.getD a 0
    = if pre.any (misses t.voteTargets.size a) then (counters.getD a 0 + 1) % 2 ^ 64
      else counters.getD a 0) rfl ?_
  intro pre e post m hl hm
  rw [getD_countMiss, List.any_append, List.any_cons, List.any_nil, Bool.or_false]
  by_cases he : misses t.voteTargets.size a e = true
  · -- an earlier claim of the same recipient would have the same key
    have hfresh : pre.any (misses t.voteTargets.size a) = false := by
      refine List.any_eq_false.mpr fun e' he' hmiss => ?_
      have hrec : e'.2.recipient = e.2.recipient :=
        (of_decide_eq_true hmiss).1.trans (of_decide_eq_true he).1.symm
      have h1 := hkey e' (by rw [hl]; exact List.mem_append_left _ he')
      have h2 := hkey e (by rw [hl]; simp)
      refine not_mem_keys_of_append (S.rangeMiss.nodup_visit_keys t.claims) hl
        (List.mem_map.mpr ⟨e', he', ?_⟩)
      rw [← h1, ← h2, hrec]
    rw [hm, hfresh, he]
    simp
  · rw [if_neg he, hm, eq_false_of_ne_true he, Bool.or_false]

/-! ### One block -/

/-- What the settlement of a period leaves alone: rewards, their transfer and the registration of
denoms change no validator. -/
structure ValidatorsFramed (K : Keepers σ) : Prop where
  allocate : ∀ s v c s', K.allocateTokensToValidator s v c = .ok s' →
    ∀ a, K.validator s' a = K.validator s a
  send : ∀ s m m' c s', K.sendCoinsFromModuleToModule s m m' c = .ok s' →
    ∀ a, K.validator s' a = K.validator s a
  metadata : ∀ s m a, K.validator (K.setDenomMetaData s m) a = K.validator s a

lemma rewardBallotWinners_validator {K : Keepers σ} (hK : ValidatorsFramed K) {S : Schedule}
    {s s' : σ} {period window : ℤ} {targets : TargetMap} {winners : ClaimMap}
    (h : rewardBallotWinners K S s period window targets winners = .ok s') (a : ValAddress) :
    K.validator s' a = K.validator s a := by
  rw [rewardBallotWinners] at h
  split_ifs at h
  · rw [Except.ok.inj h]
  · obtain ⟨ratio, -, h⟩ := bind_eq_ok.mp h
    obtain ⟨rewards, -, h⟩ := bind_eq_ok.mp h
    obtain ⟨paid, hpaid, h⟩ := bind_eq_ok.mp h
    rw [hK.send _ _ _ _ _ (sendRewards_eq_ok h)]
    refine foldlM_invariant (fun p : PayState σ => K.validator p.ext a = K.validator s a) hpaid
      rfl ?_
    intro e _ c c' hc hround
    rw [payWinner_eq] at hround
    obtain ⟨coins, -, hround⟩ := bind_eq_ok.mp hround
    rw [payCoins_validator hK.allocate hround, hc]

lemma applyWhitelist_validator {K : Keepers σ} (hK : ValidatorsFramed K) {s : σ}
    {whitelist : List DenomItem} {targets taxes : TargetMap} {r : TargetMap × σ}
    (h : applyWhitelist K s whitelist targets taxes = .ok r) (a : ValAddress) :
    K.validator r.2 a = K.validator s a := by
  rw [applyWhitelist] at h
  split_ifs at h
  · refine foldlM_invariant (fun r : TargetMap × σ => K.validator r.2 a = K.validator s a) h rfl ?_
    intro item _ c c' hc hround
    rw [applyItem] at hround
    cases hmeta : K.getDenomMetaData c.2 item.name with
    | some m =>
        simp only [hmeta] at hround
        rw [← Except.ok.inj hround]
        exact hc
    | none =>
        simp only [hmeta] at hround
        obtain ⟨m, -, hround⟩ := bind_eq_ok.mp hround
        rw [← Except.ok.inj hround]
        exact (hK.metadata _ _ _).trans hc
  · rw [← Except.ok.inj h]

/-- The tally of a block, if it has one. -/
def talliedAt (height votePeriod : ℕ) : ℕ := if IsPeriodLast height votePeriod then 1 else 0

/-- The miss the end of a block counts for the validator `a`, if any. -/
def missedAt (K : Keepers σ) (H : Host) (S : Schedule) (height : ℕ) (w : World σ)
    (a : ValAddress) : ℕ :=
  if IsPeriodLast height w.store.params.votePeriod.toNat then
    match tallyVotes K H S w with
    | .ok t => if missed t a then 1 else 0
    | .error _ => 0
  else 0

lemma missedAt_le (K : Keepers σ) (H : Host) (S : Schedule) (height : ℕ) (w : World σ)
    (a : ValAddress) :
    missedAt K H S height w a ≤ talliedAt height w.store.params.votePeriod.toNat := by
  rw [missedAt, talliedAt]
  split_ifs
  · cases tallyVotes K H S w with
    | error e => simp
    | ok t =>
        show (if _ then 1 else 0) ≤ 1
        split_ifs <;> simp
  · rfl

/-- **The end of a vote period** adds the miss of the block to the counter, and changes neither the
parameters nor a validator. -/
lemma closeVotePeriod_spec {K : Keepers σ} (hK : ValidatorsFramed K) {H : Host} {S : Schedule}
    {height : ℕ} {w w₁ : World σ} (hw : VotesAdmitted H w.store)
    (h : closeVotePeriod K H S height w = .ok w₁) (a : ValAddress)
    (hlt : w.store.missCounters.getD a 0 + 1 < 2 ^ 64) :
    w₁.store.missCounters.getD a 0 = w.store.missCounters.getD a 0 + missedAt K H S height w a
      ∧ w₁.store.params = w.store.params ∧ K.validator w₁.ext a = K.validator w.ext a := by
  rw [missedAt]
  rcases closeVotePeriod_cases h with ⟨hlast, t, ht, h⟩ | ⟨hlast, -, rfl⟩
  · rw [if_pos hlast]
    obtain ⟨ext, hext, h⟩ := bind_eq_ok.mp h
    obtain ⟨⟨taxes, ext'⟩, happly, h⟩ := bind_eq_ok.mp h
    obtain rfl := Except.ok.inj h
    refine ⟨?_, rfl, (applyWhitelist_validator hK happly a).trans
      (rewardBallotWinners_validator hK hext a)⟩
    show (countMisses S t w.store.missCounters).getD a 0 = _
    rw [getD_countMisses S (claimsKeyed_tallyVotes hw ht), ht]
    show _ = _ + if missed t a then 1 else 0
    split_ifs
    · exact Nat.mod_eq_of_lt hlt
    · rfl
  · rw [if_neg hlast]
    exact ⟨rfl, rfl, rfl⟩

/-! ### A slash window -/

/-- The validator exists and is bonded. -/
def Bonded (K : Keepers σ) (s : σ) (a : ValAddress) : Prop :=
  ∃ v, K.validator s a = some v ∧ v.bonded = true

/-- A slash window, from the state `x₀` on: the parameters stay `p`, the validator `a` stays bonded,
and no block ends a slash window. The numbers are those of the tallies so far and of the misses of
`a` in them. -/
inductive WindowRun (K : Keepers σ) (H : Host) (p : Params) (a : ValAddress) (x₀ : ℕ × World σ) :
    ℕ × World σ → ℕ → ℕ → Prop where
  | start (hparams : x₀.2.store.params = p) (hbonded : Bonded K x₀.2.ext a) :
      WindowRun K H p a x₀ x₀ 0 0
  | within {x y T m} (hrun : WindowRun K H p a x₀ x T m) (hstep : Step K H x y)
      (hheight : y.1 = x.1) (hparams : y.2.store.params = p) (hbonded : Bonded K y.2.ext a) :
      WindowRun K H p a x₀ y T m
  | block {h w w' T m} (hrun : WindowRun K H p a x₀ (h, w) T m) (S : Schedule)
      (hwindow : ¬ IsPeriodLast h p.slashWindow.toNat) (hend : endBlocker K H S h w = .ok w')
      (hbonded : Bonded K w'.ext a) :
      WindowRun K H p a x₀ (h + 1, w') (T + talliedAt h p.votePeriod.toNat)
        (m + missedAt K H S h w a)

section Window

variable {K : Keepers σ} {H : Host} {p : Params} {a : ValAddress} {x₀ x : ℕ × World σ} {T m : ℕ}

lemma WindowRun.params (h : WindowRun K H p a x₀ x T m) : x.2.store.params = p := by
  induction h with
  | start hparams _ => exact hparams
  | within _ _ _ hparams _ => exact hparams
  | block _ _ _ hend _ ih => rw [(endBlocker_params_votes hend).1, ih]

lemma WindowRun.bonded (h : WindowRun K H p a x₀ x T m) : Bonded K x.2.ext a := by
  cases h with
  | start _ hbonded => exact hbonded
  | within _ _ _ _ hbonded => exact hbonded
  | block _ _ _ _ hbonded => exact hbonded

lemma WindowRun.reachable (h : WindowRun K H p a x₀ x T m) (hx₀ : Reachable K H x₀) :
    Reachable K H x := by
  induction h with
  | start => exact hx₀
  | within _ hstep _ _ _ ih => exact ih.step hstep
  | block _ S _ hend _ ih => exact ih.step (.endBlock S hend)

/-- A block ends a vote period exactly when its end starts a new one. -/
lemma div_add_talliedAt {h P : ℕ} (hP : 0 < P) (hh : h + 1 < 2 ^ 63) :
    h / P + talliedAt h P = (h + 1) / P := by
  rw [talliedAt, Nat.succ_div]
  simp only [isPeriodLast_iff_dvd hh, hP.ne', ne_eq, not_false_eq_true, true_and]

/-- **The tallies of a window** are the vote periods that end in it. -/
lemma WindowRun.tallies (h : WindowRun K H p a x₀ x T m) (hP : 0 < p.votePeriod.toNat)
    (hx : x.1 < 2 ^ 63) :
    x₀.1 / p.votePeriod.toNat + T = x.1 / p.votePeriod.toNat := by
  induction h with
  | start => rfl
  | within _ _ hheight _ _ ih => rw [hheight, ih (hheight ▸ hx)]
  | @block h w w' T m hrun _ _ _ _ ih =>
      have hlt : h + 1 < 2 ^ 63 := hx
      rw [← Nat.add_assoc, ih (show h < 2 ^ 63 by omega)]
      exact div_add_talliedAt hP hlt

lemma WindowRun.misses_le (h : WindowRun K H p a x₀ x T m) : m ≤ T := by
  induction h with
  | start => exact le_rfl
  | within _ _ _ _ _ ih => exact ih
  | @block h w w' T m hrun S _ _ _ ih =>
      have hle := missedAt_le K H S h w a
      have hparams : w.store.params = p := hrun.params
      rw [hparams] at hle
      exact Nat.add_le_add ih hle

lemma WindowRun.misses_le_height (h : WindowRun K H p a x₀ x T m) (hP : 0 < p.votePeriod.toNat)
    (hx : x.1 < 2 ^ 63) : m ≤ x.1 :=
  calc m ≤ T := h.misses_le
    _ ≤ x₀.1 / p.votePeriod.toNat + T := Nat.le_add_left _ _
    _ = x.1 / p.votePeriod.toNat := h.tallies hP hx
    _ ≤ x.1 := Nat.div_le_self _ _

/-- Messages, and the steps of other modules, touch no miss counter. -/
lemma Step.missCounters {x y : ℕ × World σ} (h : Step K H x y) (hheight : y.1 = x.1) :
    y.2.store.missCounters = x.2.store.missCounters := by
  cases h with
  | prevote msg _ hrun =>
      obtain ⟨prevotes, rfl⟩ := aggregateExchangeRatePrevote_eq_ok hrun
      rfl
  | vote msg _ hrun =>
      obtain ⟨_, _, -, rfl⟩ := aggregateExchangeRateVote_eq_ok hrun
      rfl
  | delegate msg _ hrun =>
      obtain ⟨_, rfl⟩ := delegateFeedConsent_eq_ok hrun
      rfl
  | params => rfl
  | other => rfl
  | endBlock => exact absurd hheight (Nat.succ_ne_self _)

/-- Where no slash window ends, nothing more happens. -/
lemma closeSlashWindow_of_not_last {height slashWindow : ℕ} {w w' : World σ}
    (hlast : ¬ IsPeriodLast height slashWindow)
    (h : closeSlashWindow K height slashWindow w = .ok w') : w' = w := by
  obtain ⟨last, hl, h⟩ := bind_eq_ok.mp h
  obtain ⟨-, rfl⟩ := isPeriodLastBlock_eq_ok.mp hl
  rw [if_neg fun hd => hlast (of_decide_eq_true hd)] at h
  exact (Except.ok.inj h).symm

/-- **The miss counter of a window that started without one is the number of misses.** -/
theorem WindowRun.counter (hK : ValidatorsFramed K) (hH : H.ParsesNonneg)
    (h : WindowRun K H p a x₀ x T m) (hx₀ : Reachable K H x₀)
    (hempty : x₀.2.store.missCounters[a]? = none) (hP : 0 < p.votePeriod.toNat)
    (hx : x.1 < 2 ^ 63) : x.2.store.missCounters.getD a 0 = m := by
  induction h with
  | start =>
      rw [ExtTreeMap.getD_eq_getD_getElem?, hempty]
      rfl
  | within _ hstep hheight _ _ ih => rw [hstep.missCounters hheight, ih (hheight ▸ hx)]
  | @block h w w' T m hrun S hwindow hend _ ih =>
      have hh : h < 2 ^ 63 := Nat.lt_of_succ_lt hx
      have hcount : w.store.missCounters.getD a 0 = m := ih hh
      have hlt : m ≤ h := hrun.misses_le_height hP hh
      have hparams : w.store.params = p := hrun.params
      obtain ⟨w₁, hclose, hend⟩ := bind_eq_ok.mp hend
      rw [hparams] at hend
      obtain rfl := closeSlashWindow_of_not_last hwindow hend
      rw [(closeVotePeriod_spec hK (sound_of_reachable hH (hrun.reachable hx₀)).votes hclose a
        (by omega)).1, hcount]

end Window

/-! ### Who is slashed -/

lemma outOfUnit_minValidPerWindow {p : Params} (h : p.validate = .ok ()) :
    0 ≤ p.minValidPerWindow.raw ∧ p.minValidPerWindow.raw ≤ 10 ^ 18 := by
  obtain ⟨-, -, -, -, -, -, hunit, -⟩ := Params.validate_eq_ok_iff.mp h
  rw [outOfUnit, Bool.or_eq_false_iff, decide_eq_false_iff_not, decide_eq_false_iff_not] at hunit
  exact ⟨not_lt.mp hunit.2, not_lt.mp hunit.1⟩

/-- A truncated quotient against a nonnegative bound. -/
lemma le_tdiv_iff {b x n : ℤ} (hb : 0 ≤ b) (hn : 0 < n) :
    b ≤ x.tdiv n ↔ b * n ≤ x ∨ b = 0 ∧ -n < x := by
  rcases le_or_gt 0 x with hx | hx
  · rw [Int.tdiv_eq_ediv_of_nonneg hx, Int.le_ediv_iff_mul_le hn]
    refine ⟨Or.inl, fun h => h.elim id fun h => ?_⟩
    rw [h.1, zero_mul]
    exact hx
  · have hneg : x.tdiv n = -(-x / n) := by
      rw [← neg_neg x, Int.neg_tdiv, Int.tdiv_eq_ediv_of_nonneg (by omega), neg_neg]
    have hmul := mul_nonneg hb hn.le
    have hlt : -x / n < 1 ↔ -x < n := by rw [Int.ediv_lt_iff_lt_mul hn, one_mul]
    have hquot := Int.ediv_nonneg (show 0 ≤ -x by omega) hn.le
    rw [hneg]
    omega

/-- **The minimum, in numbers.** The valid rate of `m` misses is at least the minimum if the periods
left are, or if the minimum is zero and the excess of misses is lost in the rounding. -/
lemma not_belowMinimum_iff {p : Params} (hp : p.validate = .ok ())
    (hw : p.slashWindow.toNat < 2 ^ 63) {m : ℕ} (hm : m < 2 ^ 63) :
    ¬ BelowMinimum p m
      ↔ p.minValidPerWindow.raw * (p.slashWindow.toNat / p.votePeriod.toNat : ℕ)
            ≤ ((p.slashWindow.toNat / p.votePeriod.toNat : ℕ) - m) * 10 ^ 18
          ∨ p.minValidPerWindow.raw = 0
            ∧ (m - (p.slashWindow.toNat / p.votePeriod.toNat : ℕ) : ℤ) * 10 ^ 18
              < (p.slashWindow.toNat / p.votePeriod.toNat : ℕ) := by
  have hvalid := validParams_of_validate hp
  have hpos : 0 < p.slashWindow.toNat / p.votePeriod.toNat :=
    Nat.div_pos hvalid.slashWindow_le hvalid.votePeriod_pos
  have hle := Nat.div_le_self p.slashWindow.toNat p.votePeriod.toNat
  have hrate : validVoteRate (votePeriodsPerWindow p) m
      = ⟨(((p.slashWindow.toNat / p.votePeriod.toNat : ℕ) - m : ℤ) * 10 ^ 18).tdiv
          (p.slashWindow.toNat / p.votePeriod.toNat : ℕ)⟩ := by
    rw [votePeriodsPerWindow_of_lt hvalid hw, validVoteRate]
    generalize p.slashWindow.toNat / p.votePeriod.toNat = n at *
    have hsub : (((n : ℤ) % 2 ^ 64).toNat + 2 ^ 64 - m) % 2 ^ 64
        = (((n : ℤ) - m) % 2 ^ 64).toNat := by omega
    rw [hsub, toInt64_emod (by omega)]
    rfl
  rw [BelowMinimum, hrate, not_lt]
  refine (le_tdiv_iff (outOfUnit_minValidPerWindow hp).1 (by exact_mod_cast hpos)).trans ?_
  have hneg : -((p.slashWindow.toNat / p.votePeriod.toNat : ℕ) : ℤ)
        < ((p.slashWindow.toNat / p.votePeriod.toNat : ℕ) - m : ℤ) * 10 ^ 18
      ↔ (m - (p.slashWindow.toNat / p.votePeriod.toNat : ℕ) : ℤ) * 10 ^ 18
        < (p.slashWindow.toNat / p.votePeriod.toNat : ℕ) := by
    omega
  rw [hneg]

/-- A validator without misses is not below the minimum. -/
lemma not_belowMinimum_zero {p : Params} (hp : p.validate = .ok ())
    (hw : p.slashWindow.toNat < 2 ^ 63) : ¬ BelowMinimum p 0 := by
  refine (not_belowMinimum_iff hp hw (by norm_num)).mpr (Or.inl ?_)
  rw [Nat.cast_zero, sub_zero, mul_comm]
  exact mul_le_mul_of_nonneg_left (outOfUnit_minValidPerWindow hp).2 (Int.natCast_nonneg _)

/-- An operator is to be slashed if its counter, or the lack of one, is below the minimum and it is
active. -/
lemma mem_operatorsToSlash_iff {K : Keepers σ} {s : σ} {p : Params}
    {counters : ExtTreeMap ValAddress ℕ} (hzero : ¬ BelowMinimum p 0) {a : ValAddress} :
    a ∈ operatorsToSlash K s p counters.toList
      ↔ BelowMinimum p (counters.getD a 0) ∧ isActive K s a = true := by
  rw [operatorsToSlash, List.mem_map, ExtTreeMap.getD_eq_getD_getElem?]
  cases hc : counters[a]? with
  | none =>
      refine iff_of_false ?_ fun h => hzero h.1
      rintro ⟨e, he, rfl⟩
      have hmem := ExtTreeMap.mem_toList_iff_getElem?_eq_some.mp (List.mem_of_mem_filter he)
      rw [hc] at hmem
      exact absurd hmem (by simp)
  | some m =>
      have hget : ∀ e ∈ counters.toList, e.1 = a → e.2 = m := by
        rintro ⟨b, n⟩ he rfl
        exact Option.some.inj ((ExtTreeMap.mem_toList_iff_getElem?_eq_some.mp he).symm.trans hc)
      constructor
      · rintro ⟨e, he, rfl⟩
        obtain ⟨hmem, hcond⟩ := List.mem_filter.mp he
        rw [Bool.and_eq_true, decide_eq_true_eq, hget e hmem rfl] at hcond
        exact hcond
      · rintro ⟨hbelow, hactive⟩
        refine ⟨(a, m), List.mem_filter.mpr
          ⟨ExtTreeMap.mem_toList_iff_getElem?_eq_some.mpr hc, ?_⟩, rfl⟩
        rw [Bool.and_eq_true, decide_eq_true_eq]
        exact ⟨hbelow, hactive⟩

/-- **The end of a window, in a block.** Exactly the operators to slash are slashed and jailed. -/
lemma closeSlashWindow_of_last {K : Keepers σ} {height : ℕ} (hh : height + 1 < 2 ^ 63)
    {w w' : World σ} (hp : w.store.params.validate = .ok ()) {watched : List ValAddress}
    (hapart : SlashesApart K height w.store.params w.ext
      (operatorsToSlash K w.ext w.store.params w.store.missCounters.toList) watched)
    (hwatched : w.store.missCounters.keys ⊆ watched)
    (hlast : IsPeriodLast height w.store.params.slashWindow.toNat)
    (h : closeSlashWindow K height w.store.params.slashWindow.toNat w = .ok w') :
    w.store.params.slashWindow.toNat < 2 ^ 63
      ∧ (operatorsToSlash K w.ext w.store.params w.store.missCounters.toList).foldlM
        (slashOperator K height w.store.params) w.ext = .ok w'.ext := by
  have hvalid := validParams_of_validate hp
  have hw : w.store.params.slashWindow.toNat < 2 ^ 63 := by
    have hmod := hlast.2
    rw [Nat.mod_eq_of_lt (show height + 1 < 2 ^ 64 by omega)] at hmod
    have hle := Nat.le_of_dvd (Nat.succ_pos height) (Nat.dvd_of_mod_eq_zero hmod)
    omega
  have hn : votePeriodsPerWindow w.store.params ≠ 0 := by
    rw [votePeriodsPerWindow_of_lt hvalid hw]
    exact_mod_cast (Nat.div_pos hvalid.slashWindow_le hvalid.votePeriod_pos).ne'
  rw [closeSlashWindow, isPeriodLastBlock_of_last hlast, ok_bind, if_pos rfl,
    slashAndReset_eq_foldlM hvalid] at h
  obtain ⟨ext, hloop, h⟩ := bind_eq_ok.mp h
  obtain rfl := Except.ok.inj h
  refine ⟨hw, ((foldlM_judgeMissCounter_eq_ok_iff hvalid hn hapart
    (nodup_keys_toList w.store.missCounters) (fun e he => ?_) (List.nil_append _).symm (by simp)
    rfl).mp hloop).2⟩
  exact hwatched (ExtTreeMap.mem_keys.mpr
    (mem_of_getElem?_eq_some (ExtTreeMap.mem_toList_iff_getElem?_eq_some.mp he)))

/-- The share of valid periods only grows with the number of periods. -/
lemma fewMisses_mono {minimum : ℤ} (hunit : minimum ≤ 10 ^ 18) {T N m : ℕ} (hle : T ≤ N)
    (hfair : minimum * T ≤ (T - m : ℤ) * 10 ^ 18) : minimum * N ≤ (N - m : ℤ) * 10 ^ 18 := by
  obtain ⟨k, rfl⟩ := Nat.exists_eq_add_of_le hle
  have hmore : minimum * (k : ℤ) ≤ 10 ^ 18 * k :=
    mul_le_mul_of_nonneg_right hunit (Int.natCast_nonneg k)
  push_cast
  linarith

/-- **Fair slashing.** A validator is bonded over a slash window that started without a miss counter
for it, and was counted as missing in so few of the tallied periods that the share of the others is
at least the minimum. The last block of the window completes, and no slash of it changes whether
another operator with a counter, or the validator, exists, is bonded or is jailed. Then it slashes
and jails the operators to slash, leaves the validator bonded and as jailed as it was where it is
not among them, and it is not among them if and only if it is jailed already, or no more vote
periods end in the window than the quotient of window and vote period counts, or its misses are
also few enough for that quotient. -/
theorem notSlashed_iff {K : Keepers σ} (hframe : ValidatorsFramed K) {H : Host}
    (hH : H.ParsesNonneg) {p : Params} (hp : p.validate = .ok ()) {a : ValAddress}
    {x₀ : ℕ × World σ} (hx₀ : Reachable K H x₀) (hempty : x₀.2.store.missCounters[a]? = none)
    {h : ℕ} {w w' : World σ} {T m : ℕ} (hrun : WindowRun K H p a x₀ (h, w) T m)
    (hlast : IsPeriodLast h p.slashWindow.toNat) (hh : h + 1 < 2 ^ 63) {S : Schedule}
    (hend : endBlocker K H S h w = .ok w')
    (hapart : ∀ w₁, closeVotePeriod K H S h w = .ok w₁ → SlashesApart K h p w₁.ext
      (operatorsToSlash K w₁.ext p w₁.store.missCounters.toList) (a :: w₁.store.missCounters.keys))
    (hfair : p.minValidPerWindow.raw * (T + talliedAt h p.votePeriod.toNat : ℕ)
      ≤ ((T + talliedAt h p.votePeriod.toNat : ℕ) - (m + missedAt K H S h w a : ℕ)) * 10 ^ 18) :
    ∃ w₁ v, closeVotePeriod K H S h w = .ok w₁ ∧ K.validator w.ext a = some v
      ∧ (operatorsToSlash K w₁.ext p w₁.store.missCounters.toList).foldlM
          (slashOperator K h p) w₁.ext = .ok w'.ext
      ∧ (a ∉ operatorsToSlash K w₁.ext p w₁.store.missCounters.toList →
        status K w'.ext a = some (true, v.jailed))
      ∧ (a ∉ operatorsToSlash K w₁.ext p w₁.store.missCounters.toList
        ↔ v.jailed = true
          ∨ (h + 1) / p.votePeriod.toNat - x₀.1 / p.votePeriod.toNat
              ≤ p.slashWindow.toNat / p.votePeriod.toNat
          ∨ p.minValidPerWindow.raw * (p.slashWindow.toNat / p.votePeriod.toNat : ℕ)
              ≤ ((p.slashWindow.toNat / p.votePeriod.toNat : ℕ)
                - (m + missedAt K H S h w a : ℕ)) * 10 ^ 18
          ∨ p.minValidPerWindow.raw = 0
            ∧ ((m + missedAt K H S h w a : ℕ)
                - (p.slashWindow.toNat / p.votePeriod.toNat : ℕ) : ℤ) * 10 ^ 18
              < (p.slashWindow.toNat / p.votePeriod.toNat : ℕ)) := by
  have hP := (validParams_of_validate hp).votePeriod_pos
  have hh' : h < 2 ^ 63 := Nat.lt_of_succ_lt hh
  have hparams : w.store.params = p := hrun.params
  have hm : m ≤ h := hrun.misses_le_height hP hh'
  have hcount : w.store.missCounters.getD a 0 = m := hrun.counter hframe hH hx₀ hempty hP hh'
  have htallies : x₀.1 / p.votePeriod.toNat + (T + talliedAt h p.votePeriod.toNat)
      = (h + 1) / p.votePeriod.toNat := by
    rw [← Nat.add_assoc, hrun.tallies hP hh', div_add_talliedAt hP hh]
  obtain ⟨v, hv, hbonded⟩ := hrun.bonded
  obtain ⟨w₁, hclose, hend⟩ := bind_eq_ok.mp hend
  obtain ⟨hcount₁, hparams₁, hval₁⟩ := closeVotePeriod_spec hframe
    (sound_of_reachable hH (hrun.reachable hx₀)).votes hclose a
    (by show w.store.missCounters.getD a 0 + 1 < _; omega)
  rw [hcount] at hcount₁
  rw [hparams] at hparams₁ hend
  subst hparams₁
  have hapart₁ := hapart w₁ hclose
  obtain ⟨hw, hslash⟩ := closeSlashWindow_of_last hh hp hapart₁ (List.subset_cons_self _ _) hlast
    hend
  have hstatus : status K w₁.ext a = some (true, v.jailed) := by
    rw [status, hval₁, hv, Option.map_some, hbonded]
  refine ⟨w₁, v, hclose, hv, hslash, fun hnot => (hapart₁.status_eq List.mem_cons_self
    (List.append_nil _).symm hnot hslash).trans hstatus, ?_⟩
  have hmiss : m + missedAt K H S h w a < 2 ^ 63 := by
    have hle := missedAt_le K H S h w a
    have hone : talliedAt h w.store.params.votePeriod.toNat ≤ 1 := by
      rw [talliedAt]
      split_ifs <;> simp
    omega
  have hunit := (outOfUnit_minValidPerWindow hp).2
  have hactive : isActive K w₁.ext a = true ↔ ¬ v.jailed = true := by
    rw [isActive, hval₁, hv, Option.any_some, hbonded]
    simp
  have hnumbers := not_belowMinimum_iff hp hw hmiss
  rw [mem_operatorsToSlash_iff (not_belowMinimum_zero hp hw), hcount₁, hactive, not_and_not_right]
  constructor
  · intro hj
    by_cases hbelow : BelowMinimum w₁.store.params (m + missedAt K H S h w a)
    · exact Or.inl (hj hbelow)
    · exact Or.inr (Or.inr (hnumbers.mp hbelow))
  · rintro (hj | haligned | hfew) hbelow
    · exact hj
    · have hle : T + talliedAt h w₁.store.params.votePeriod.toNat
          ≤ w₁.store.params.slashWindow.toNat / w₁.store.params.votePeriod.toNat := by omega
      exact absurd hbelow (hnumbers.mpr (Or.inl (fewMisses_mono hunit hle hfair)))
    · exact absurd hbelow (hnumbers.mpr hfew)

/-! ### A window with one period more -/

lemma validatorsFramed_stakingLedger : ValidatorsFramed stakingLedger where
  allocate := by
    rintro s v c s' h a
    obtain rfl := Except.ok.inj h
    rfl
  send := by
    rintro s m m' c s' h a
    obtain rfl := Except.ok.inj h
    rfl
  metadata _ _ _ := rfl

/-- One validator, and its vote for one denom. -/
def lateTables : Tables where
  accounts :=
    [("validator-a-of-terra", "terravaloper1weskc6tyv96x7u3dvykk7e3dw3jhyunpwz6935",
      "terra1weskc6tyv96x7u3dvykk7e3dw3jhyunpwdkcp8")]
  hashes :=
    [("1:1.0uusd:terravaloper1weskc6tyv96x7u3dvykk7e3dw3jhyunpwz6935",
      "79853d131af1b28df84cfd8bb0156f43b74297da")]
  coins := [("1.0uusd", "uusd", 10 ^ 18)]

def lateVote : SelfVote :=
  ⟨"terra1weskc6tyv96x7u3dvykk7e3dw3jhyunpwdkcp8",
    "terravaloper1weskc6tyv96x7u3dvykk7e3dw3jhyunpwz6935", "1.0uusd"⟩

/-- Vote periods of two blocks, slash windows of three. -/
def shortWindow (minValidPerWindow : Dec) : Params :=
  { defaultParams with
    votePeriod := 2
    slashWindow := 3
    minValidPerWindow := minValidPerWindow
    whitelist := [⟨"uusd", newDecWithPrec 25 4⟩] }

def lateStaked : List (ValAddress × Staked) :=
  [("validator-a-of-terra", ⟨50000000, true, false⟩)]

/-- The start of the window, at height three. -/
def lateStart (minValidPerWindow : Dec) : World (ExtTreeMap ValAddress Staked) where
  store := emptyStore (shortWindow minValidPerWindow)
  ext := .ofList lateStaked

/-- The states of the window: after the prevote at height three, the end of that block, the vote at
height four, the end of that block, and the end of the last block. -/
structure LateStates where
  prevoted : World (ExtTreeMap ValAddress Staked)
  first : World (ExtTreeMap ValAddress Staked)
  voted : World (ExtTreeMap ValAddress Staked)
  second : World (ExtTreeMap ValAddress Staked)
  last : World (ExtTreeMap ValAddress Staked)

def lateRun (minValidPerWindow : Dec) : Outcome LateStates := do
  let H := tableHost lateTables
  let prevoted ← deliverPrevote stakingLedger H 3 (lateStart minValidPerWindow)
    (lateVote.prevote lateTables)
  let first ← endBlocker stakingLedger H Schedule.listed 3 prevoted
  let voted ← deliverVote stakingLedger H 4 first lateVote.vote
  let second ← endBlocker stakingLedger H Schedule.listed 4 voted
  let last ← endBlocker stakingLedger H Schedule.listed 5 second
  pure ⟨prevoted, first, voted, second, last⟩

/-- The validator missed the first tally and won the second, and stayed bonded. -/
def LateStates.missedFirst (r : LateStates) : Bool :=
  [r.prevoted, r.first, r.voted, r.second].all (fun w =>
      (stakingLedger.validator w.ext "validator-a-of-terra").any Validator.bonded)
    && decide (missedAt stakingLedger (tableHost lateTables) Schedule.listed 3 r.prevoted
      "validator-a-of-terra" = 1)
    && decide (missedAt stakingLedger (tableHost lateTables) Schedule.listed 4 r.voted
      "validator-a-of-terra" = 0)
    && decide (missedAt stakingLedger (tableHost lateTables) Schedule.listed 5 r.second
      "validator-a-of-terra" = 0)

lemma bonded_of_any {K : Keepers σ} {s : σ} {a : ValAddress}
    (h : (K.validator s a).any Validator.bonded = true) : Bonded K s a := by
  cases hv : K.validator s a with
  | none => simp [hv] at h
  | some v => exact ⟨v, hv, by simpa [hv] using h⟩

lemma windowRun_lateRun {minValidPerWindow : Dec} {r : LateStates}
    (h : lateRun minValidPerWindow = .ok r) (hr : r.missedFirst = true) :
    WindowRun stakingLedger (tableHost lateTables) (shortWindow minValidPerWindow)
        "validator-a-of-terra" (3, lateStart minValidPerWindow) (5, r.second) 1 1
      ∧ missedAt stakingLedger (tableHost lateTables) Schedule.listed 5 r.second
          "validator-a-of-terra" = 0
      ∧ endBlocker stakingLedger (tableHost lateTables) Schedule.listed 5 r.second = .ok r.last := by
  obtain ⟨w₁, h₁, h⟩ := bind_eq_ok.mp h
  obtain ⟨w₂, h₂, h⟩ := bind_eq_ok.mp h
  obtain ⟨w₃, h₃, h⟩ := bind_eq_ok.mp h
  obtain ⟨w₄, h₄, h⟩ := bind_eq_ok.mp h
  obtain ⟨w₅, h₅, h⟩ := bind_eq_ok.mp h
  obtain rfl := Except.ok.inj h
  simp only [LateStates.missedFirst, List.all_cons, List.all_nil, Bool.and_true, Bool.and_eq_true,
    decide_eq_true_eq] at hr
  obtain ⟨⟨⟨⟨hb₁, hb₂, hb₃, hb₄⟩, hm₁⟩, hm₂⟩, hm₃⟩ := hr
  obtain ⟨_, hbasic₁, h₁⟩ := bind_eq_ok.mp h₁
  obtain ⟨_, hbasic₃, h₃⟩ := bind_eq_ok.mp h₃
  have hstart : WindowRun stakingLedger (tableHost lateTables) (shortWindow minValidPerWindow)
      "validator-a-of-terra" (3, lateStart minValidPerWindow) (3, lateStart minValidPerWindow) 0 0 :=
    .start rfl (bonded_of_any (show (stakingLedger.validator (.ofList lateStaked)
      "validator-a-of-terra").any Validator.bonded = true by decide +kernel))
  have hrun₁ := hstart.within (.prevote _ hbasic₁ h₁) rfl
    (by obtain ⟨_, rfl⟩ := aggregateExchangeRatePrevote_eq_ok h₁; rfl) (bonded_of_any hb₁)
  have hrun₂ := hrun₁.block Schedule.listed (show ¬ IsPeriodLast 3 3 by decide) h₂
    (bonded_of_any hb₂)
  have hrun₃ := hrun₂.within (.vote _ hbasic₃ h₃) rfl
    (by
      obtain ⟨_, _, -, rfl⟩ := aggregateExchangeRateVote_eq_ok h₃
      exact hrun₂.params) (bonded_of_any hb₃)
  have hrun₄ := hrun₃.block Schedule.listed (show ¬ IsPeriodLast 4 3 by decide) h₄
    (bonded_of_any hb₄)
  have htallies : talliedAt 3 2 + talliedAt 4 2 = 1 := by decide
  rw [hm₁, hm₂, Nat.zero_add] at hrun₄
  exact ⟨htallies ▸ hrun₄, hm₃, h₅⟩

/-- **Slashed with half of the periods valid.** Vote periods of two blocks, slash windows of three
and a minimum of one half: two periods end in the window of the heights three to five. A validator
that misses the first and not the second is slashed and jailed, since the quotient counts one
period. -/
theorem slashed_halfValid :
    (shortWindow (newDecWithPrec 5 1)).validate = .ok ()
      ∧ Reachable stakingLedger (tableHost lateTables) (3, lateStart (newDecWithPrec 5 1))
      ∧ (lateStart (newDecWithPrec 5 1)).store.missCounters["validator-a-of-terra"]? = none
      ∧ ∃ w w', WindowRun stakingLedger (tableHost lateTables) (shortWindow (newDecWithPrec 5 1))
            "validator-a-of-terra" (3, lateStart (newDecWithPrec 5 1)) (5, w) 1 1
          ∧ IsPeriodLast 5 3 ∧ talliedAt 5 2 = 1
          ∧ missedAt stakingLedger (tableHost lateTables) Schedule.listed 5 w
              "validator-a-of-terra" = 0
          ∧ (newDecWithPrec 5 1).raw * 2 ≤ (2 - 1) * 10 ^ 18
          ∧ endBlocker stakingLedger (tableHost lateTables) Schedule.listed 5 w = .ok w'
          ∧ w.ext["validator-a-of-terra"]? = some ⟨50000000, true, false⟩
          ∧ w'.ext["validator-a-of-terra"]? = some ⟨49995000, true, true⟩ := by
  obtain ⟨r, hr, htest⟩ := exists_of_returns
    (p := fun r : LateStates => r.missedFirst
      && decide (r.second.ext["validator-a-of-terra"]? = some ⟨50000000, true, false⟩)
      && decide (r.last.ext["validator-a-of-terra"]? = some ⟨49995000, true, true⟩))
    (x := lateRun (newDecWithPrec 5 1)) (by decide +kernel)
  simp only [Bool.and_eq_true, decide_eq_true_eq] at htest
  obtain ⟨hwindow, hmissed, hend⟩ := windowRun_lateRun hr htest.1.1
  exact ⟨by rfl, .initial ⟨by rfl, rfl, rfl⟩, by decide +kernel, r.second, r.last, hwindow,
    by decide, by decide, hmissed, by decide, hend, htest.1.2, htest.2⟩

/-- In the same window with a minimum of zero the validator is not slashed: one miss is not too many
for the one period of the quotient. -/
theorem notSlashed_zeroMinimum :
    ∃ w w₁, WindowRun stakingLedger (tableHost lateTables) (shortWindow (newDecWithPrec 0 1))
          "validator-a-of-terra" (3, lateStart (newDecWithPrec 0 1)) (5, w) 1 1
        ∧ closeVotePeriod stakingLedger (tableHost lateTables) Schedule.listed 5 w = .ok w₁
        ∧ "validator-a-of-terra" ∉ operatorsToSlash stakingLedger w₁.ext
          (shortWindow (newDecWithPrec 0 1)) w₁.store.missCounters.toList := by
  obtain ⟨r, hr, htest⟩ := exists_of_returns (p := LateStates.missedFirst)
    (x := lateRun (newDecWithPrec 0 1)) (by decide +kernel)
  obtain ⟨hwindow, hmissed, hend⟩ := windowRun_lateRun hr htest
  have hfair : (shortWindow (newDecWithPrec 0 1)).minValidPerWindow.raw
        * (1 + talliedAt 5 (shortWindow (newDecWithPrec 0 1)).votePeriod.toNat : ℕ)
      ≤ ((1 + talliedAt 5 (shortWindow (newDecWithPrec 0 1)).votePeriod.toNat : ℕ)
        - (1 + missedAt stakingLedger (tableHost lateTables) Schedule.listed 5 r.second
          "validator-a-of-terra" : ℕ)) * 10 ^ 18 := by
    rw [hmissed]
    decide
  obtain ⟨w₁, v, hclose, -, -, -, hiff⟩ := notSlashed_iff
    validatorsFramed_stakingLedger (parsesNonneg_tableHost lateTables) (by rfl)
    (.initial ⟨by rfl, rfl, rfl⟩) (by decide +kernel) hwindow (by decide) (by norm_num) hend
    (fun _ _ => slashesApart_stakingLedger _ _ _ _ _) hfair
  refine ⟨r.second, w₁, hwindow, hclose, hiff.mpr (Or.inr (Or.inr (Or.inl ?_)))⟩
  rw [hmissed]
  decide

end ColumbusCore.Oracle
