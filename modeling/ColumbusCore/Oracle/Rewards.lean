import ColumbusCore.Oracle.Determinism

/-!
The rewards of a period (`keeper/reward.go`) against the balance they are paid from.

* `rewardBallotWinnersInt64`: `RewardBallotWinners` with the sum of the weights in the arithmetic
  of the machine; `rewardBallotWinnersInt64_eq`: while the sum of the weights is a 64-bit integer,
  this is `rewardBallotWinners`;
* `logged`: keepers that write down what is allocated and what is sent;
* `rewards_solvent`: **the rewards are covered**. Per denom the coins of all winners are at most the
  balance of the oracle account, the transfer succeeds, and what is sent is what was allocated;
* `rewards_wrapped`: weights whose sum wraps hand out more than there is.
-/

namespace ColumbusCore.Oracle

open Go Rounding
open Std (ExtTreeMap)

variable {σ : Type}

/-! ### The steps of the distribution -/

/-- `ballotPowerSum`, in the arithmetic of the machine. -/
def weightSumInt64 (winners : List (String × Claim)) : ℤ :=
  winners.foldl (fun sum e => addInt64 sum e.2.weight) 0

/-- `RewardBallotWinners` between the sum of the weights and the transfer. -/
def distributeRewards (K : Keepers σ) (S : Schedule) (s : σ) (votePeriod : ℤ)
    (rewardDistributionWindow : ℤ) (voteTargets : TargetMap) (ballotWinners : ClaimMap)
    (ballotPowerSum : ℤ) : Outcome (PayState σ) := do
  let rewardDenoms := "uluna" :: (S.rangeTargets.visit voteTargets.toList).map Prod.fst
  let distributionRatio ← (Fixed.ofInt votePeriod : Dec).quoInt rewardDistributionWindow
  let periodRewards ← rewardDenoms.foldlM (addPeriodReward K s distributionRatio) ∅
  (S.rangeWinners.visit ballotWinners.toList).foldlM
    (payWinner K periodRewards ballotPowerSum) ⟨s, ∅⟩

/-- `RewardBallotWinners` after the sum of the weights. -/
def payRewards (K : Keepers σ) (S : Schedule) (s : σ) (votePeriod : ℤ)
    (rewardDistributionWindow : ℤ) (voteTargets : TargetMap) (ballotWinners : ClaimMap)
    (ballotPowerSum : ℤ) : Outcome σ :=
  if ballotPowerSum = 0 then pure s
  else do
    let paid ← distributeRewards K S s votePeriod rewardDistributionWindow voteTargets ballotWinners
      ballotPowerSum
    sendRewards K paid.ext paid.distributedReward

/-- `RewardBallotWinners`, with the sum of the weights in the arithmetic of the machine. -/
def rewardBallotWinnersInt64 (K : Keepers σ) (S : Schedule) (s : σ) (votePeriod : ℤ)
    (rewardDistributionWindow : ℤ) (voteTargets : TargetMap) (ballotWinners : ClaimMap) :
    Outcome σ :=
  payRewards K S s votePeriod rewardDistributionWindow voteTargets ballotWinners
    (weightSumInt64 (S.rangeWeights.visit ballotWinners.toList))

lemma forall_visit_weights {claims : ClaimMap} (h : NonnegWeights claims)
    (o : RangeOrder (String × Claim)) :
    ∀ x ∈ (o.visit claims.toList).map fun e => e.2.weight, 0 ≤ x := by
  refine List.forall_mem_map.mpr fun e he => ?_
  exact h e.1 e.2 ((o.mem_visit_toList claims).mp he)

lemma weightSumInt64_eq {claims : ClaimMap} (h : NonnegWeights claims)
    (hfit : weightSum claims < 2 ^ 63) (o : RangeOrder (String × Claim)) :
    weightSumInt64 (o.visit claims.toList) = weightSum claims := by
  rw [weightSumInt64, ← List.foldl_map, foldl_addInt64 (forall_visit_weights h o) le_rfl
    (by rw [zero_add, sum_visit_weights]; exact hfit), zero_add, sum_visit_weights]

lemma rewardBallotWinners_eq_payRewards (K : Keepers σ) (S : Schedule) (s : σ) (period window : ℤ)
    (targets : TargetMap) (winners : ClaimMap) :
    rewardBallotWinners K S s period window targets winners
      = payRewards K S s period window targets winners (weightSum winners) := by
  rw [rewardBallotWinners, payRewards, ← sum_visit_weights S.rangeWeights winners]
  simp only [distributeRewards, bind_assoc]

/-- **The sum of the weights in the arithmetic of the machine** makes no difference while it is a
64-bit integer. -/
theorem rewardBallotWinnersInt64_eq (K : Keepers σ) (S : Schedule) (s : σ) (period window : ℤ)
    (targets : TargetMap) {winners : ClaimMap} (h : NonnegWeights winners)
    (hfit : weightSum winners < 2 ^ 63) :
    rewardBallotWinnersInt64 K S s period window targets winners
      = rewardBallotWinners K S s period window targets winners := by
  rw [rewardBallotWinnersInt64, weightSumInt64_eq h hfit, rewardBallotWinners_eq_payRewards]

/-! ### Coins of one winner -/

/-- A decimal multiple of decimal coins, at one denomination. -/
lemma amountOf_mulDec {c c' : DecCoins} {x : Dec} (h : c.mulDec x = .ok c') (d : Denom) :
    (c'.amountOf d).raw = halfEven ((c.amountOf d).raw * x.raw) decFormat.scale := by
  obtain ⟨hzero, hne⟩ := Amounts.amountOf_foldlM_setAmount
    (g := fun e : DecCoin => e.2.mul x) h d
  by_cases hd : c.amountOf d = 0
  · rw [hzero hd, hd, Fixed.zero_raw, zero_mul]
    rfl
  · obtain ⟨-, hraw⟩ := Fixed.checked_eq_ok_iff.mp (hne hd)
    rw [hraw]

/-- The integer part of decimal coins, at one denomination. -/
lemma amountOf_truncateDecimal {c : DecCoins} {r : Coins} (h : c.truncateDecimal = .ok r)
    (d : Denom) : r.amountOf d = (c.amountOf d).raw.tdiv decFormat.scale := by
  rw [← Amounts.sum_entries_ite c (fun e => e.2.raw.tdiv decFormat.scale) d (by simp)]
  refine foldlM_induction (fun pre (r : Coins) => r.amountOf d
    = (pre.map fun e : Denom × Dec => if e.1 = d then e.2.raw.tdiv decFormat.scale else 0).sum) h
      (by simp) ?_
  intro pre e post r r' _ hr hround
  obtain ⟨y, hy, hround⟩ := bind_eq_ok.mp hround
  obtain ⟨coin, hcoin, hround⟩ := bind_eq_ok.mp hround
  obtain ⟨-, rfl⟩ := Fixed.checkedInt_eq_ok_iff.mp hy
  obtain ⟨-, rfl⟩ := newCoin_eq_ok_iff.mp hcoin
  obtain rfl := Except.ok.inj hround
  rw [CoinSet.amountOf_addCoin, hr]
  simp

/-- The share of a weight, in units of the last decimal. -/
def shareRaw (sum weight : ℤ) : ℤ := (weight * decFormat.scale).tdiv sum

/-- **The coins of a winner**, at one denomination. -/
lemma amountOf_rewardOf {rewards : DecCoins} {sum : ℤ} (hsum : sum ≠ 0) {e : String × Claim}
    {coins : Coins} (h : rewardOf rewards sum e = .ok coins) (d : Denom) :
    coins.amountOf d
      = (halfEven ((rewards.amountOf d).raw * shareRaw sum e.2.weight) decFormat.scale).tdiv
          decFormat.scale := by
  rw [rewardOf, Fixed.quoInt_eq_ok hsum, ok_bind] at h
  obtain ⟨shared, hshared, h⟩ := bind_eq_ok.mp h
  rw [amountOf_truncateDecimal h, amountOf_mulDec hshared]
  rfl

/-! ### The rewards of the period -/

lemma amountOf_addPeriodReward {K : Keepers σ} {s : σ} {ratio : Dec} {c c' : DecCoins}
    {denom : Denom} (h : addPeriodReward K s ratio c denom = .ok c') (d : Denom) :
    (c'.amountOf d).raw = (c.amountOf d).raw
      + if denom = d then K.getBalance s "oracle" d * ratio.raw else 0 := by
  rw [addPeriodReward] at h
  split_ifs at h with hpool
  · obtain rfl := Except.ok.inj h
    split_ifs with hd
    · rw [← hd, hpool, zero_mul, add_zero]
    · rw [add_zero]
  · obtain ⟨share, hshare, h⟩ := bind_eq_ok.mp h
    obtain ⟨coin, hcoin, h⟩ := bind_eq_ok.mp h
    rw [Fixed.ofInt_mul] at hshare
    obtain ⟨-, rfl⟩ := Fixed.checked_eq_ok_iff.mp hshare
    rw [DecCoins.newDecCoin] at hcoin
    split_ifs at hcoin
    · simp at hcoin
    obtain rfl := Except.ok.inj hcoin
    rw [DecCoins.amountOf_addCoin h]
    split_ifs with hd
    · rw [← hd]
    · rfl

/-- The rewards of distinct denoms are parts of the balances. -/
lemma periodRewards_bounds {K : Keepers σ} {s : σ} (hs : ∀ d, 0 ≤ K.getBalance s "oracle" d)
    {ratio : Dec} (h0 : 0 ≤ ratio.raw) (h1 : ratio.raw ≤ 10 ^ 18) {denoms : List Denom}
    (hnodup : denoms.Nodup) {c : DecCoins}
    (h : denoms.foldlM (addPeriodReward K s ratio) ∅ = .ok c) (d : Denom) :
    0 ≤ (c.amountOf d).raw
      ∧ (c.amountOf d).raw ≤ K.getBalance s "oracle" d * (decFormat.scale : ℕ) := by
  have hcount : (c.amountOf d).raw = denoms.count d * (K.getBalance s "oracle" d * ratio.raw) := by
    refine foldlM_induction (fun pre (c : DecCoins) =>
      (c.amountOf d).raw = pre.count d * (K.getBalance s "oracle" d * ratio.raw)) h (by simp) ?_
    intro pre denom post c c' _ hc hround
    rw [amountOf_addPeriodReward hround, hc, List.count_append, List.count_singleton]
    by_cases hd : denom = d
    · simp [hd]
      ring
    · simp [hd]
  have hpart : 0 ≤ K.getBalance s "oracle" d * ratio.raw
      ∧ K.getBalance s "oracle" d * ratio.raw ≤ K.getBalance s "oracle" d * 10 ^ 18 :=
    ⟨mul_nonneg (hs d) h0, mul_le_mul_of_nonneg_left h1 (hs d)⟩
  have hone := List.nodup_iff_count_le_one.mp hnodup d
  have hscale : ((decFormat.scale : ℕ) : ℤ) = 10 ^ 18 := rfl
  rw [hcount, hscale]
  interval_cases denoms.count d
  · simpa using mul_nonneg (hs d) (by norm_num : (0 : ℤ) ≤ 10 ^ 18)
  · simpa using hpart

/-! ### Keepers with a log -/

/-- What was allocated to validators, and what was sent between modules. -/
structure RewardLog where
  allocated : List (ValAddress × DecCoins)
  sent : List (String × String × Coins)

/-- The keepers, with a log of the allocations and the transfers. -/
def logged (K : Keepers σ) : Keepers (σ × RewardLog) where
  validator s := K.validator s.1
  totalBondedTokens s := K.totalBondedTokens s.1
  slash s c h p f := (K.slash s.1 c h p f).map (·, s.2)
  jail s c := (K.jail s.1 c).map (·, s.2)
  validatorsByPower s := K.validatorsByPower s.1
  maxValidators s := K.maxValidators s.1
  powerReduction s := K.powerReduction s.1
  allocateTokensToValidator s v c := (K.allocateTokensToValidator s.1 v c).map
    (·, { s.2 with allocated := s.2.allocated ++ [(v.operator, c)] })
  getBalance s := K.getBalance s.1
  sendCoinsFromModuleToModule s sender recipient c :=
    (K.sendCoinsFromModuleToModule s.1 sender recipient c).map
      (·, { s.2 with sent := s.2.sent ++ [(sender, recipient, c)] })
  getDenomMetaData s := K.getDenomMetaData s.1
  setDenomMetaData s m := (K.setDenomMetaData s.1 m, s.2)
  toUpper := K.toUpper

/-- What was allocated of a denom, in units of the last decimal. -/
def RewardLog.allocatedOf (log : RewardLog) (d : Denom) : ℤ :=
  (log.allocated.map fun e => (e.2.amountOf d).raw).sum

/-- A state of the payments without its log. -/
def PayState.forget (p : PayState (σ × RewardLog)) : PayState σ := ⟨p.ext.1, p.distributedReward⟩

lemma payWinner_logged (K : Keepers σ) (rewards : DecCoins) (sum : ℤ)
    (p : PayState (σ × RewardLog)) (e : String × Claim) :
    (payWinner (logged K) rewards sum p e).map PayState.forget
      = payWinner K rewards sum p.forget e := by
  rw [payWinner_eq, payWinner_eq]
  cases rewardOf rewards sum e with
  | error f => rfl
  | ok coins =>
      show (payCoins (logged K) p e.2.recipient coins).map PayState.forget
        = payCoins K p.forget e.2.recipient coins
      rw [payCoins, payCoins]
      cases hv : K.validator p.ext.1 e.2.recipient with
      | none => simp [logged, PayState.forget, hv, panicked, Except.map]
      | some v =>
          by_cases hzero : coins.IsZero
          · simp [logged, PayState.forget, hv, hzero, Except.map]
          · cases ha : K.allocateTokensToValidator p.ext.1 v (DecCoins.ofCoins coins) with
            | error f => simp [logged, PayState.forget, hv, hzero, ha, Except.map]
            | ok ext => simp [logged, PayState.forget, hv, hzero, ha, Except.map]

/-- The log changes nothing. -/
lemma distributeRewards_logged (K : Keepers σ) (S : Schedule) (s : σ) (log : RewardLog)
    (period window : ℤ) (targets : TargetMap) (winners : ClaimMap) (sum : ℤ) :
    (distributeRewards (logged K) S (s, log) period window targets winners sum).map PayState.forget
      = distributeRewards K S s period window targets winners sum := by
  have hloop : ∀ (rewards : DecCoins) (l : List (String × Claim)) (p : PayState (σ × RewardLog)),
      (l.foldlM (payWinner (logged K) rewards sum) p).map PayState.forget
        = l.foldlM (payWinner K rewards sum) p.forget := by
    intro rewards l
    induction l with
    | nil => exact fun p => rfl
    | cons e l ih =>
        intro p
        rw [List.foldlM_cons, List.foldlM_cons, ← payWinner_logged]
        cases payWinner (logged K) rewards sum p e with
        | error f => rfl
        | ok p' => exact ih p'
  rw [distributeRewards, distributeRewards]
  cases (Fixed.ofInt period : Dec).quoInt window with
  | error f => rfl
  | ok ratio =>
      show ((("uluna" :: (S.rangeTargets.visit targets.toList).map Prod.fst).foldlM
        (addPeriodReward K s ratio) ∅ >>= _).map _ : Outcome (PayState σ)) = _
      rw [ok_bind]
      cases ("uluna" :: (S.rangeTargets.visit targets.toList).map Prod.fst).foldlM
          (addPeriodReward K s ratio) ∅ with
      | error f => rfl
      | ok rewards => exact hloop rewards _ _

/-! ### Solvency -/

/-- What the rewards rely on in the bank and in distribution: an allocation does not touch the oracle
account, and a transfer from it that is covered succeeds. -/
structure RewardBankLawful (K : Keepers σ) : Prop where
  allocate_balance : ∀ s v c s', K.allocateTokensToValidator s v c = .ok s' →
    ∀ d, K.getBalance s' "oracle" d = K.getBalance s "oracle" d
  send_covered : ∀ s (c : Coins),
    (∀ d, 0 ≤ c.amountOf d ∧ c.amountOf d ≤ K.getBalance s "oracle" d) →
      ∃ s', K.sendCoinsFromModuleToModule s "oracle" "distribution" c = .ok s'

/-- The whole coins of one denom in a share of the rewards. -/
def coinsOf (rewards : DecCoins) (sum : ℤ) (d : Denom) (weight : ℤ) : ℤ :=
  (halfEven ((rewards.amountOf d).raw * shareRaw sum weight) decFormat.scale).tdiv decFormat.scale

/-- The payments to the winners `pre`, from the state `s`. -/
structure PaidFrom (K : Keepers σ) (s : σ) (rewards : DecCoins) (sum : ℤ)
    (pre : List (String × Claim)) (p : PayState (σ × RewardLog)) : Prop where
  distributed : ∀ d, p.distributedReward.amountOf d
    = (pre.map fun e => coinsOf rewards sum d e.2.weight).sum
  allocated : ∀ d, p.ext.2.allocatedOf d = p.distributedReward.amountOf d * 10 ^ 18
  sent : p.ext.2.sent = []
  balance : ∀ d, K.getBalance p.ext.1 "oracle" d = K.getBalance s "oracle" d

/-- One payment. -/
lemma PaidFrom.round {K : Keepers σ} (hK : RewardBankLawful K) {s : σ} {rewards : DecCoins}
    {sum : ℤ} (hsum : sum ≠ 0) {pre : List (String × Claim)} {p p' : PayState (σ × RewardLog)}
    (hp : PaidFrom K s rewards sum pre p) {e : String × Claim}
    (h : payWinner (logged K) rewards sum p e = .ok p') :
    PaidFrom K s rewards sum (pre ++ [e]) p' := by
  rw [payWinner_eq] at h
  obtain ⟨coins, hcoins, h⟩ := bind_eq_ok.mp h
  have hamount := amountOf_rewardOf hsum hcoins
  have hsplit : ∀ d, ((pre ++ [e]).map fun e => coinsOf rewards sum d e.2.weight).sum
      = p.distributedReward.amountOf d + coins.amountOf d := by
    intro d
    rw [List.map_append, List.sum_append, ← hp.distributed d, hamount d]
    simp [coinsOf]
  rw [payCoins] at h
  cases hv : (logged K).validator p.ext e.2.recipient with
  | none => simp [hv] at h
  | some v =>
      simp only [hv] at h
      split_ifs at h with hzero
      · obtain rfl := Except.ok.inj h
        refine ⟨fun d => ?_, hp.allocated, hp.sent, hp.balance⟩
        rw [hsplit, Amounts.isZero_iff.mp hzero d, add_zero]
      · obtain ⟨ext, hext, h⟩ := bind_eq_ok.mp h
        obtain ⟨s', hs', rfl⟩ := map_eq_ok_iff.mp hext
        obtain rfl := Except.ok.inj h
        refine ⟨fun d => ?_, fun d => ?_, hp.sent, fun d => ?_⟩
        · rw [hsplit]
          exact CoinSet.amountOf_add _ _ d
        · show (List.map _ (p.ext.2.allocated ++ [_])).sum
            = (p.distributedReward.add coins).amountOf d * _
          have hprev := hp.allocated d
          rw [RewardLog.allocatedOf] at hprev
          rw [List.map_append, List.sum_append, hprev, CoinSet.amountOf_add, add_mul]
          simp [DecCoins.amountOf_ofCoins, Fixed.ofInt, decFormat]
        · exact (hK.allocate_balance _ _ _ _ hs' d).trans (hp.balance d)

/-- The shares of all claims sum to at most one. -/
lemma sum_shareRaw_le {claims : ClaimMap} (h : NonnegWeights claims) (hpos : 0 < weightSum claims)
    (o : RangeOrder (String × Claim)) :
    ((o.visit claims.toList).map fun e => shareRaw (weightSum claims) e.2.weight).sum
      ≤ (decFormat.scale : ℕ) := by
  have hle := sum_tdiv_le hpos (d := decFormat.scale) (forall_visit_weights h o)
  rw [sum_visit_weights, List.map_map] at hle
  exact le_of_mul_le_mul_left hle hpos

/-- **The payments of a period are covered**, denom by denom. -/
lemma PaidFrom.covered {K : Keepers σ} {s : σ} {rewards : DecCoins} {winners : ClaimMap}
    (hw : NonnegWeights winners) (hpos : 0 < weightSum winners) (hlen : winners.size < 10 ^ 18)
    {S : Schedule} {p : PayState (σ × RewardLog)}
    (hp : PaidFrom K s rewards (weightSum winners) (S.rangeWinners.visit winners.toList) p)
    {d : Denom} (h0 : 0 ≤ (rewards.amountOf d).raw)
    (hle : (rewards.amountOf d).raw ≤ K.getBalance s "oracle" d * (decFormat.scale : ℕ)) :
    0 ≤ p.distributedReward.amountOf d
      ∧ p.distributedReward.amountOf d ≤ K.getBalance s "oracle" d := by
  have hshare : ∀ e ∈ S.rangeWinners.visit winners.toList,
      0 ≤ shareRaw (weightSum winners) e.2.weight := fun e he =>
    Int.tdiv_nonneg (mul_nonneg (hw e.1 e.2 ((S.rangeWinners.mem_visit_toList winners).mp he))
      (Int.natCast_nonneg _)) hpos.le
  have hlength : (S.rangeWinners.visit winners.toList).length < 2 * decFormat.scale := by
    rw [(S.rangeWinners.perm _).length_eq, ExtTreeMap.length_toList]
    exact hlen.trans (by norm_num [decFormat])
  rw [hp.distributed d]
  refine ⟨List.sum_nonneg (List.forall_mem_map.mpr fun e he => ?_), ?_⟩
  · exact Int.tdiv_nonneg (halfEven_nonneg (mul_nonneg h0 (hshare e he))) (Int.natCast_nonneg _)
  · have hbound := sum_shares_le_of_le decFormat.scale_pos h0 hle
      (List.forall_mem_map.mpr hshare) (sum_shareRaw_le hw hpos S.rangeWinners)
      (by rw [List.length_map]; exact hlength)
    rw [List.map_map] at hbound
    exact hbound

/-- What the steps before the transfer have done. -/
lemma distributeRewards_spec {K : Keepers σ} (hK : RewardBankLawful K) {S : Schedule} {s : σ}
    (hs : ∀ d, 0 ≤ K.getBalance s "oracle" d) {period window : ℤ} (h0 : 0 ≤ period)
    (hwindow : period ≤ window) {targets : TargetMap} (hluna : "uluna" ∉ targets)
    {winners : ClaimMap} (hw : NonnegWeights winners) (hlen : winners.size < 10 ^ 18)
    (hsum : weightSum winners ≠ 0) {paid : PayState (σ × RewardLog)}
    (h : distributeRewards (logged K) S (s, ⟨[], []⟩) period window targets winners
      (weightSum winners) = .ok paid) :
    (∀ d, 0 ≤ paid.distributedReward.amountOf d
        ∧ paid.distributedReward.amountOf d ≤ K.getBalance s "oracle" d)
      ∧ (∀ d, paid.ext.2.allocatedOf d = paid.distributedReward.amountOf d * 10 ^ 18)
      ∧ paid.ext.2.sent = []
      ∧ ∀ d, K.getBalance paid.ext.1 "oracle" d = K.getBalance s "oracle" d := by
  have hpos : 0 < weightSum winners := by
    have hnn := List.sum_nonneg (forall_visit_weights hw S.rangeWinners)
    rw [sum_visit_weights] at hnn
    omega
  obtain ⟨ratio, hratio, h⟩ := bind_eq_ok.mp h
  obtain ⟨rewards, hrewards, hloop⟩ := bind_eq_ok.mp h
  have hwindow0 : window ≠ 0 := by
    rintro rfl
    simp [Fixed.quoInt] at hratio
  obtain ⟨ratio', hratio', hr0, hr1⟩ := exists_share period window h0 hwindow hwindow0
  obtain rfl := Except.ok.inj (hratio'.symm.trans hratio)
  have hnodup : ("uluna" :: (S.rangeTargets.visit targets.toList).map Prod.fst).Nodup := by
    refine List.nodup_cons.mpr ⟨fun hmem => ?_, S.rangeTargets.nodup_visit_keys targets⟩
    obtain ⟨e, he, heq⟩ := List.mem_map.mp hmem
    exact hluna (heq ▸ mem_of_getElem?_eq_some ((S.rangeTargets.mem_visit_toList targets).mp he))
  have hbounds :=
    periodRewards_bounds (K := logged K) (s := (s, ⟨[], []⟩)) hs hr0 hr1 hnodup hrewards
  have hpaid := foldlM_induction (PaidFrom K s rewards (weightSum winners)) hloop
    ⟨fun d => by simp, fun d => by simp [RewardLog.allocatedOf], rfl, fun d => rfl⟩
    fun pre e post p p' _ hp hround => hp.round hK hsum hround
  exact ⟨fun d => hpaid.covered hw hpos hlen (hbounds d).1 (hbounds d).2, hpaid.allocated,
    hpaid.sent, hpaid.balance⟩

/-- **The rewards are covered.** For nonnegative weights whose sum is a 64-bit integer, of fewer than
`10 ^ 18` claims, a vote period of at most the reward distribution window and targets without
Luna: the transfer does not fail, so that every fault is one of the steps before it; and a run that
returns has sent from the oracle account exactly the coins allocated to the validators, in no denom
more than its balance. -/
theorem rewards_solvent {K : Keepers σ} (hK : RewardBankLawful K) (S : Schedule) {s : σ}
    (hs : ∀ d, 0 ≤ K.getBalance s "oracle" d) {period window : ℤ} (h0 : 0 ≤ period)
    (hwindow : period ≤ window) {targets : TargetMap} (hluna : "uluna" ∉ targets)
    {winners : ClaimMap} (hw : NonnegWeights winners) (hlen : winners.size < 10 ^ 18)
    (hfit : weightSum winners < 2 ^ 63) :
    (∀ e, rewardBallotWinnersInt64 K S s period window targets winners = .error e →
        distributeRewards K S s period window targets winners (weightSum winners) = .error e)
      ∧ ∀ s' log, rewardBallotWinnersInt64 (logged K) S (s, ⟨[], []⟩) period window targets winners
          = .ok (s', log) →
        ∃ coins : Coins,
          (log.sent = [("oracle", "distribution", coins)] ∨ log.sent = [] ∧ coins = ∅)
          ∧ ∀ d, log.allocatedOf d = coins.amountOf d * 10 ^ 18
            ∧ coins.amountOf d ≤ K.getBalance s "oracle" d := by
  rw [rewardBallotWinnersInt64, rewardBallotWinnersInt64, weightSumInt64_eq hw hfit, payRewards,
    payRewards]
  split_ifs with hsum
  · refine ⟨fun e he => by simp at he, fun s' log hrun => ⟨∅, Or.inr ?_, fun d => ?_⟩⟩
    · obtain ⟨rfl, rfl⟩ := Prod.ext_iff.mp (Except.ok.inj hrun)
      exact ⟨rfl, rfl⟩
    · obtain ⟨rfl, rfl⟩ := Prod.ext_iff.mp (Except.ok.inj hrun)
      rw [Amounts.amountOf_empty]
      exact ⟨rfl, hs d⟩
  · refine ⟨fun e he => ?_, fun s' log hrun => ?_⟩
    · rcases bind_eq_error.mp he with he | ⟨paid, hpaid, hsend⟩
      · exact he
      · -- the recorded run has paid the same coins, and they are covered
        rw [← distributeRewards_logged K S s ⟨[], []⟩] at hpaid
        obtain ⟨paid', hpaid', rfl⟩ := map_eq_ok_iff.mp hpaid
        obtain ⟨hcovered, -, -, hbalance⟩ :=
          distributeRewards_spec hK hs h0 hwindow hluna hw hlen hsum hpaid'
        obtain ⟨s', hs'⟩ := hK.send_covered paid'.ext.1 paid'.distributedReward fun d => by
          rw [hbalance d]
          exact hcovered d
        rw [sendRewards, show K.sendCoinsFromModuleToModule paid'.forget.ext "oracle" "distribution"
          paid'.forget.distributedReward = .ok s' from hs'] at hsend
        exact absurd hsend (by simp)
    · obtain ⟨paid, hpaid, hsend⟩ := bind_eq_ok.mp hrun
      obtain ⟨hcovered, hallocated, hsent, -⟩ :=
        distributeRewards_spec hK hs h0 hwindow hluna hw hlen hsum hpaid
      obtain ⟨s'', -, heq⟩ := map_eq_ok_iff.mp (sendRewards_eq_ok hsend)
      obtain ⟨-, rfl⟩ := Prod.ext_iff.mp heq
      refine ⟨paid.distributedReward, Or.inl ?_, fun d => ⟨hallocated d, (hcovered d).2⟩⟩
      show paid.ext.2.sent ++ _ = _
      rw [hsent, List.nil_append]

/-! ### Two pools -/

lemma rewardBankLawful_accountKeepers : RewardBankLawful accountKeepers where
  allocate_balance := by
    rintro s v c s' h d
    obtain rfl := Except.ok.inj h
    rfl
  send_covered := by
    intro s c hc
    have hsub : ∃ rest, s.oracle.sub c = .ok rest := by
      refine ⟨_, CoinSet.sub_eq_ok_iff.mpr ⟨fun d => ?_, rfl⟩⟩
      exact (hc d).2
    obtain ⟨rest, hrest⟩ := hsub
    simp only [accountKeepers, hrest]
    exact ⟨_, rfl⟩

/-- Validators of equal power. -/
def rewardedValidators (operators : List ValAddress) : List Validator :=
  operators.map fun a => ⟨a, 10 ^ 6, true, false, some a⟩

/-- The oracle account holds a million of Luna. -/
def lunaPool (operators : List ValAddress) : Accounts where
  validators := rewardedValidators operators
  oracle := CoinSet.ofList [("uluna", 10 ^ 6)]
  distribution := ∅
  allocated := ∅

/-- The claims of operators with these weights. -/
def claimsOf (weights : List (ValAddress × ℤ)) : ClaimMap :=
  .ofList (weights.map fun e => (e.1, (⟨0, e.2, 0, e.1⟩ : Claim)))

/-- **Weights that wrap.** Three winners with the largest weight of 64 bits each: the sum of the
weights wraps to about the weight of one of them, each gets about the whole pool, and the transfer
fails. -/
theorem rewards_wrapped :
    NonnegWeights (claimsOf [("a", 2 ^ 63 - 1), ("b", 2 ^ 63 - 1), ("c", 2 ^ 63 - 1)])
      ∧ (∀ (k : String) (c : Claim),
        (claimsOf [("a", 2 ^ 63 - 1), ("b", 2 ^ 63 - 1), ("c", 2 ^ 63 - 1)])[k]? = some c →
          c.weight < 2 ^ 63)
      ∧ ¬ "uluna" ∈ (∅ : TargetMap)
      ∧ rewardBallotWinnersInt64 accountKeepers Schedule.listed (lunaPool ["a", "b", "c"]) 5 5 ∅
          (claimsOf [("a", 2 ^ 63 - 1), ("b", 2 ^ 63 - 1), ("c", 2 ^ 63 - 1)])
        = .error (.panic (.raised
          "[oracle] Failed to send coins to distribution module insufficient funds")) := by
  have hall : ∀ e ∈ (claimsOf [("a", 2 ^ 63 - 1), ("b", 2 ^ 63 - 1), ("c", 2 ^ 63 - 1)]).toList,
      0 ≤ e.2.weight ∧ e.2.weight < 2 ^ 63 := by decide +kernel
  exact ⟨fun k c hkc => (hall (k, c) (ExtTreeMap.mem_toList_iff_getElem?_eq_some.mpr hkc)).1,
    fun k c hkc => (hall (k, c) (ExtTreeMap.mem_toList_iff_getElem?_eq_some.mpr hkc)).2,
    by simp, eq_of_panicsWith (by decide +kernel)⟩

/-- Two winners, with one and two parts of the weight, share a million of Luna: what is sent is what
they get. -/
theorem rewards_twoWinners :
    ∃ s' log, rewardBallotWinnersInt64 (logged accountKeepers) Schedule.listed
          (lunaPool ["a", "b"], ⟨[], []⟩) 5 5 ∅ (claimsOf [("a", 1), ("b", 2)]) = .ok (s', log)
      ∧ ∃ coins : Coins,
        (log.sent = [("oracle", "distribution", coins)] ∨ log.sent = [] ∧ coins = ∅)
        ∧ ∀ d, log.allocatedOf d = coins.amountOf d * 10 ^ 18
          ∧ coins.amountOf d ≤ accountKeepers.getBalance (lunaPool ["a", "b"]) "oracle" d := by
  obtain ⟨⟨s', log⟩, hrun, -⟩ := exists_of_returns (p := fun _ => true)
    (x := rewardBallotWinnersInt64 (logged accountKeepers) Schedule.listed
      (lunaPool ["a", "b"], ⟨[], []⟩) 5 5 ∅ (claimsOf [("a", 1), ("b", 2)])) (by decide +kernel)
  have hall : ∀ e ∈ (claimsOf [("a", 1), ("b", 2)]).toList, 0 ≤ e.2.weight := by decide +kernel
  have hvalid : (lunaPool ["a", "b"]).oracle.IsValid := by decide +kernel
  exact ⟨s', log, hrun, (rewards_solvent rewardBankLawful_accountKeepers Schedule.listed
    (CoinSet.isValid_iff.mp hvalid) (by norm_num) le_rfl (by simp)
    (fun k c hkc => hall (k, c) (ExtTreeMap.mem_toList_iff_getElem?_eq_some.mpr hkc))
    (by decide +kernel) (by decide +kernel)).2 s' log hrun⟩

end ColumbusCore.Oracle
