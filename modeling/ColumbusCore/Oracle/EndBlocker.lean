import ColumbusCore.Oracle.Ballot

/-!
The end of a block in the oracle module (`abci.go`, `keeper/ballot.go`, `keeper/reward.go`,
`keeper/slash.go`).

`endBlocker` is the composition the source has: at the last block of a vote period the rates are
recomputed (`tallyVotes`) and the period is settled (`settlePeriod`: miss counters, rewards,
ballots cleared, whitelist applied); at the last block of a slash window the miss counters are
judged (`slashAndResetMissCounters`).
-/

namespace ColumbusCore.Oracle

open Go
open Std (ExtTreeMap)

variable {σ : Type}

/-- `core.IsPeriodLastBlock`. -/
def isPeriodLastBlock (height blocksPerPeriod : ℕ) : Outcome Bool :=
  if blocksPerPeriod = 0 then panicked .divisionByZero
  else pure (decide ((height + 1) % 2 ^ 64 % blocksPerPeriod = 0))

/-! ### Claims and ballots -/

/-- The claims of the first `n` bonded validators in the power order. -/
def collectClaims (K : Keepers σ) (H : Host) (s : σ) :
    ℕ → List ValAddress → ClaimMap → Outcome ClaimMap
  | _, [], claims => pure claims
  | 0, _ :: _, claims => pure claims
  | n + 1, a :: l, claims =>
      match K.validator s a with
      | none => panicked .nilDereference
      | some v =>
          if v.bonded then do
            let p ← v.consensusPower (K.powerReduction s)
            collectClaims K H s n l (claims.insert (H.valString v.operator) ⟨p, 0, 0, v.operator⟩)
          else collectClaims K H s (n + 1) l claims

/-- The claim map over the validators of the active set. -/
def activeClaims (K : Keepers σ) (H : Host) (s : σ) : Outcome ClaimMap :=
  collectClaims K H s (K.maxValidators s) (K.validatorsByPower s) ∅

/-- One rate of an aggregate vote as a vote of a ballot; an abstain vote has no power. -/
def ballotEntry (voter : ValAddress) (power : ℤ) (t : ExchangeRateTuple) : VoteForTally :=
  ⟨t.denom, t.exchangeRate, voter, if t.exchangeRate.IsPositive then power else 0⟩

/-- One rate of an aggregate vote, appended to the ballot of its denom. -/
def appendVote (voter : ValAddress) (power : ℤ) (votes : BallotMap) (t : ExchangeRateTuple) :
    BallotMap :=
  votes.insert t.denom (votes.getD t.denom [] ++ [ballotEntry voter power t])

/-- The rates of one aggregate vote, of an active validator. -/
def organizeVote (claims : ClaimMap) (votes : BallotMap)
    (e : ValAddress × AggregateExchangeRateVote) : BallotMap :=
  match claims[e.2.voter]? with
  | none => votes
  | some claim => e.2.exchangeRateTuples.foldl (appendVote e.1 claim.power) votes

/-- The ballots of `OrganizeBallotByDenom`, before they are sorted. -/
def collectBallots (s : Store) (claims : ClaimMap) : BallotMap :=
  s.votes.toList.foldl (organizeVote claims) ∅

/-- Every ballot sorted. -/
def sortBallots (S : Schedule) (votes : BallotMap) : BallotMap :=
  votes.map fun _ ballot => S.sort ballot

/-- `OrganizeBallotByDenom`. -/
def organizeBallotByDenom (S : Schedule) (s : Store) (claims : ClaimMap) : BallotMap :=
  sortBallots S (collectBallots s claims)

/-! ### The reference denom (`tally.go`) -/

/-- What the loop of `PickReferenceTerra` carries. -/
structure PickState where
  largestBallotPower : ℤ
  referenceTerra : Denom
  voteTargets : TargetMap
  voteMap : BallotMap

/-- One round of `PickReferenceTerra`. -/
def pickRound (thresholdVotes : ℤ) (s : PickState) (e : Denom × ExchangeRateBallot) : PickState :=
  let (denom, ballot) := e
  if denom ∉ s.voteTargets then { s with voteMap := s.voteMap.erase denom }
  else if ¬ ballotIsPassing ballot thresholdVotes then
    { s with voteTargets := s.voteTargets.erase denom, voteMap := s.voteMap.erase denom }
  else
    let ballotPower := power ballot
    if s.largestBallotPower < ballotPower ∨ s.largestBallotPower = 0 then
      { s with referenceTerra := denom, largestBallotPower := ballotPower }
    else if s.largestBallotPower = ballotPower ∧ denom < s.referenceTerra then
      { s with referenceTerra := denom }
    else s

/-- The power a ballot has to reach. -/
def thresholdVotes (K : Keepers σ) (s : σ) (voteThreshold : Dec) : Outcome ℤ := do
  let totalBondedPower ← tokensToConsensusPower (K.totalBondedTokens s) (K.powerReduction s)
  let votes ← voteThreshold.mulInt totalBondedPower
  votes.roundInt

/-- `PickReferenceTerra`. The maps are passed by reference in the source and returned here. -/
def pickReferenceTerra (K : Keepers σ) (S : Schedule) (s : σ) (voteThreshold : Dec)
    (voteTargets : TargetMap) (voteMap : BallotMap) : Outcome PickState := do
  let threshold ← thresholdVotes K s voteThreshold
  pure ((S.rangePick.visit voteMap.toList).foldl (pickRound threshold)
    ⟨0, "", voteTargets, voteMap⟩)

/-! ### Exchange rates (`abci.go`) -/

/-- The rates written so far, and the claims. -/
structure RateState where
  rates : ExtTreeMap Denom Dec
  claims : ClaimMap

/-- One round of the loop over the ballots: the median of the ballot, of the cross rates except
for the reference denom, turned back into a rate of the denom. -/
def updateRate (H : Host) (S : Schedule) (rewardBand : Dec) (referenceTerra : Denom)
    (ballotRT : ExchangeRateBallot) (s : RateState) (e : Denom × ExchangeRateBallot) :
    Outcome RateState :=
  let (denom, ballot) := e
  if denom = referenceTerra then do
    let (exchangeRate, claims) ← tally H ballot rewardBand s.claims
    pure ⟨s.rates.insert denom exchangeRate, claims⟩
  else do
    let cross ← toCrossRateWithSort S ballot (toMap ballotRT)
    let (crossRate, claims) ← tally H cross rewardBand s.claims
    let exchangeRate ← (weightedMedian ballotRT).quo crossRate
    pure ⟨s.rates.insert denom exchangeRate, claims⟩

/-- The loop over the ballots that passed. -/
def updateRates (H : Host) (S : Schedule) (rewardBand : Dec) (pick : PickState)
    (claims : ClaimMap) : Outcome RateState :=
  if pick.referenceTerra = "" then pure ⟨∅, claims⟩
  else
    (S.rangeTally.visit pick.voteMap.toList).foldlM
      (updateRate H S rewardBand pick.referenceTerra (pick.voteMap.getD pick.referenceTerra []))
      ⟨∅, claims⟩

/-- What the tally hands to the rest of the block: the new rates, the claims and the vote
targets that are left. -/
structure Tallied where
  rates : ExtTreeMap Denom Dec
  claims : ClaimMap
  voteTargets : TargetMap

/-- The first half of a period's last block: claims, ballots, reference denom, rates. All rates
of the store are cleared first. -/
def tallyVotes (K : Keepers σ) (H : Host) (S : Schedule) (w : World σ) : Outcome Tallied := do
  let claims ← activeClaims K H w.ext
  let pick ← pickReferenceTerra K S w.ext w.store.params.voteThreshold w.store.tobinTaxes
    (organizeBallotByDenom S w.store claims)
  let r ← updateRates H S w.store.params.rewardBand pick claims
  pure ⟨r.rates, r.claims, pick.voteTargets⟩

/-! ### Miss counters -/

/-- One round of the miss counting. -/
def countMiss (voteTargetsLen : ℕ) (missCounters : ExtTreeMap ValAddress ℕ)
    (e : String × Claim) : ExtTreeMap ValAddress ℕ :=
  if e.2.winCount = voteTargetsLen then missCounters
  else
    missCounters.insert e.2.recipient ((missCounters.getD e.2.recipient 0 + 1) % 2 ^ 64)

/-- Every claim that did not win all targets is a miss. -/
def countMisses (S : Schedule) (t : Tallied) (missCounters : ExtTreeMap ValAddress ℕ) :
    ExtTreeMap ValAddress ℕ :=
  (S.rangeMiss.visit t.claims.toList).foldl (countMiss t.voteTargets.size) missCounters

/-! ### Rewards (`keeper/reward.go`) -/

/-- The share of the period in one reward denom. -/
def addPeriodReward (K : Keepers σ) (s : σ) (distributionRatio : Dec) (rewards : DecCoins)
    (denom : Denom) : Outcome DecCoins := do
  let rewardPool := K.getBalance s "oracle" denom
  if rewardPool = 0 then pure rewards
  else do
    let share ← (Fixed.ofInt rewardPool).mul distributionRatio
    let coin ← DecCoins.newDecCoin denom share
    rewards.addCoin coin

/-- What the loop over the winners carries. -/
structure PayState (σ : Type) where
  ext : σ
  distributedReward : Coins

/-- The reward of one winner. A missing validator is dereferenced by the log line. -/
def payWinner (K : Keepers σ) (periodRewards : DecCoins) (ballotPowerSum : ℤ) (p : PayState σ)
    (e : String × Claim) : Outcome (PayState σ) := do
  let share ← (Fixed.ofInt e.2.weight : Dec).quoInt ballotPowerSum
  let shared ← periodRewards.mulDec share
  let rewardCoins ← shared.truncateDecimal
  match K.validator p.ext e.2.recipient with
  | none => panicked .nilDereference
  | some v =>
      if rewardCoins.IsZero then pure p
      else do
        let ext ← K.allocateTokensToValidator p.ext v (DecCoins.ofCoins rewardCoins)
        pure ⟨ext, p.distributedReward.add rewardCoins⟩

/-- The distributed rewards move to the distribution module; an error of the bank is raised. -/
def sendRewards (K : Keepers σ) (s : σ) (distributedReward : Coins) : Outcome σ :=
  match K.sendCoinsFromModuleToModule s "oracle" "distribution" distributedReward with
  | .ok s' => .ok s'
  | .error (.error msg) =>
      panicked (.raised ("[oracle] Failed to send coins to distribution module " ++ msg))
  | .error (.panic p) => panicked p

/-- `RewardBallotWinners`. -/
def rewardBallotWinners (K : Keepers σ) (S : Schedule) (s : σ) (votePeriod : ℤ)
    (rewardDistributionWindow : ℤ) (voteTargets : TargetMap) (ballotWinners : ClaimMap) :
    Outcome σ := do
  let rewardDenoms := "uluna" :: (S.rangeTargets.visit voteTargets.toList).map Prod.fst
  let ballotPowerSum := ((S.rangeWeights.visit ballotWinners.toList).map fun e => e.2.weight).sum
  if ballotPowerSum = 0 then pure s
  else do
    let distributionRatio ← (Fixed.ofInt votePeriod : Dec).quoInt rewardDistributionWindow
    let periodRewards ← rewardDenoms.foldlM (addPeriodReward K s distributionRatio) ∅
    let paid ← (S.rangeWinners.visit ballotWinners.toList).foldlM
      (payWinner K periodRewards ballotPowerSum) ⟨s, ∅⟩
    sendRewards K paid.ext paid.distributedReward

/-! ### Ballots and whitelist (`keeper/ballot.go`) -/

/-- The prevotes `ClearBallots` keeps; the votes are all deleted. -/
def clearPrevotes (height votePeriod : ℕ)
    (prevotes : ExtTreeMap ValAddress AggregateExchangeRatePrevote) :
    ExtTreeMap ValAddress AggregateExchangeRatePrevote :=
  prevotes.filter fun _ p =>
    decide (¬ toInt64 ((p.submitBlock + votePeriod) % 2 ^ 64) < (height : ℤ))

/-- Prevotes are only dropped. -/
lemma getElem?_of_clearPrevotes {height votePeriod : ℕ}
    {prevotes : ExtTreeMap ValAddress AggregateExchangeRatePrevote} {a : ValAddress}
    {p : AggregateExchangeRatePrevote} (h : (clearPrevotes height votePeriod prevotes)[a]? = some p) :
    prevotes[a]? = some p := by
  rw [clearPrevotes, ExtTreeMap.getElem?_filter'] at h
  exact (Option.filter_eq_some_iff.mp h).1

/-- The metadata of a denom whose name is a byte and then `display`. -/
def metadataOf (toUpper : GoString → GoString) (base display : GoString) : Metadata where
  description := goString "The native stable token of the Terra Columbus."
  denomUnits :=
    [⟨goString "u" ++ display, 0, [goString "micro" ++ display]⟩,
      ⟨goString "m" ++ display, 3, [goString "milli" ++ display]⟩, ⟨display, 6, []⟩]
  base := base
  display := display
  name := toUpper display ++ goString " TERRA"
  symbol := toUpper display.dropLast ++ goString "T"

/-- The metadata `ApplyWhitelist` registers for a denom. Slicing past the end of the name is a
panic, once at `base[1:]` and once at `display[:len(display)-1]`. -/
def denomMetadata (toUpper : GoString → GoString) (base : Denom) : Outcome Metadata :=
  match goString base with
  | [] => panicked .outOfRange
  | [_] => panicked .outOfRange
  | _ :: display => pure (metadataOf toUpper (goString base) display)

/-- The whitelist as a map. -/
def whitelistTargets (whitelist : List DenomItem) : TargetMap :=
  whitelist.foldl (fun m item => m.insert item.name item.tobinTax) ∅

/-- One item of the whitelist is stored, and registered with the bank. -/
def applyItem (K : Keepers σ) (p : TargetMap × σ) (item : DenomItem) : Outcome (TargetMap × σ) := do
  let taxes := p.1.insert item.name item.tobinTax
  match K.getDenomMetaData p.2 item.name with
  | some _ => pure (taxes, p.2)
  | none => do
      let metadata ← denomMetadata K.toUpper item.name
      pure (taxes, K.setDenomMetaData p.2 metadata)

/-- The comparison of the whitelist with the vote targets in memory. -/
def updateRequired (whitelist : List DenomItem) (voteTargets : TargetMap) : Bool :=
  if voteTargets.size ≠ whitelist.length then true
  else whitelist.any fun item => voteTargets[item.name]? ≠ some item.tobinTax

/-- `ApplyWhitelist`, on the stored tobin taxes. -/
def applyWhitelist (K : Keepers σ) (s : σ) (whitelist : List DenomItem)
    (voteTargets tobinTaxes : TargetMap) : Outcome (TargetMap × σ) :=
  if updateRequired whitelist voteTargets then whitelist.foldlM (applyItem K) (∅, s)
  else pure (tobinTaxes, s)

/-- The second half of a period's last block. -/
def settlePeriod (K : Keepers σ) (S : Schedule) (height : ℕ) (w : World σ) (t : Tallied) :
    Outcome (World σ) := do
  let p := w.store.params
  let ext ← rewardBallotWinners K S w.ext (toInt64 p.votePeriod.toNat)
    (toInt64 p.rewardDistributionWindow.toNat) t.voteTargets t.claims
  let (tobinTaxes, ext) ← applyWhitelist K ext p.whitelist t.voteTargets w.store.tobinTaxes
  pure
    { store :=
        { w.store with
          exchangeRates := t.rates
          missCounters := countMisses S t w.store.missCounters
          prevotes := clearPrevotes height p.votePeriod.toNat w.store.prevotes
          votes := ∅
          tobinTaxes := tobinTaxes }
      ext := ext }

/-! ### Slashing (`keeper/slash.go`) -/

/-- The judgement of one miss counter. -/
def judgeMissCounter (K : Keepers σ) (height : ℕ) (p : Params) (votePeriodsPerWindow : ℕ) (s : σ)
    (e : ValAddress × ℕ) : Outcome σ := do
  let valid := toInt64 ((votePeriodsPerWindow + 2 ^ 64 - e.2) % 2 ^ 64)
  let validVoteRate ← (Fixed.ofInt valid : Dec).quoInt (toInt64 votePeriodsPerWindow)
  if validVoteRate < p.minValidPerWindow then
    match K.validator s e.1 with
    | none => panicked .nilDereference
    | some v =>
        if v.bonded ∧ ¬ v.jailed then
          match v.consAddr with
          | none => panicked (.raised "no consensus public key")
          | some consAddr => do
              let power ← v.consensusPower (K.powerReduction s)
              let s ← K.slash s consAddr (height - 1 - 1) power p.slashFraction
              K.jail s consAddr
        else pure s
  else pure s

/-- `SlashAndResetMissCounters`. -/
def slashAndResetMissCounters (K : Keepers σ) (height : ℕ) (w : World σ) : Outcome (World σ) := do
  let p := w.store.params
  let ratio ← (Fixed.ofInt (toInt64 p.slashWindow.toNat) : Dec).quoInt (toInt64 p.votePeriod.toNat)
  let periods ← ratio.truncateInt
  let periods ← int64 periods
  let votePeriodsPerWindow := (periods % 2 ^ 64).toNat
  let ext ← w.store.missCounters.toList.foldlM
    (judgeMissCounter K height p votePeriodsPerWindow) w.ext
  pure { store := { w.store with missCounters := ∅ }, ext := ext }

/-! ### The block -/

/-- The end of a vote period. -/
def closeVotePeriod (K : Keepers σ) (H : Host) (S : Schedule) (height : ℕ) (w : World σ) :
    Outcome (World σ) := do
  let last ← isPeriodLastBlock height w.store.params.votePeriod.toNat
  if last then do
    let t ← tallyVotes K H S w
    settlePeriod K S height w t
  else pure w

/-- The end of a slash window. -/
def closeSlashWindow (K : Keepers σ) (height : ℕ) (slashWindow : ℕ) (w : World σ) :
    Outcome (World σ) := do
  let last ← isPeriodLastBlock height slashWindow
  if last then slashAndResetMissCounters K height w else pure w

/-- `EndBlocker`. -/
def endBlocker (K : Keepers σ) (H : Host) (S : Schedule) (height : ℕ) (w : World σ) :
    Outcome (World σ) := do
  let w' ← closeVotePeriod K H S height w
  closeSlashWindow K height w.store.params.slashWindow.toNat w'

/-! ### What a block does to the store -/

/-- The last block of a period. -/
def IsPeriodLast (height period : ℕ) : Prop := period ≠ 0 ∧ (height + 1) % 2 ^ 64 % period = 0

instance (height period : ℕ) : Decidable (IsPeriodLast height period) :=
  inferInstanceAs (Decidable (_ ∧ _))

lemma isPeriodLastBlock_eq_ok {height period : ℕ} {b : Bool} :
    isPeriodLastBlock height period = .ok b
      ↔ period ≠ 0 ∧ b = decide (IsPeriodLast height period) := by
  rw [isPeriodLastBlock]
  split_ifs with h
  · simp [h, panicked]
  · simp [h, IsPeriodLast, eq_comm]

lemma isPeriodLastBlock_of_last {height period : ℕ} (h : IsPeriodLast height period) :
    isPeriodLastBlock height period = .ok true :=
  isPeriodLastBlock_eq_ok.mpr ⟨h.1, by simp [h]⟩

/-- A period ends where its length divides the next height. -/
lemma isPeriodLast_iff_dvd {height period : ℕ} (hh : height + 1 < 2 ^ 63) :
    IsPeriodLast height period ↔ period ≠ 0 ∧ period ∣ height + 1 := by
  rw [Nat.dvd_iff_mod_eq_zero]
  show period ≠ 0 ∧ (height + 1) % 2 ^ 64 % period = 0 ↔ _
  rw [Nat.mod_eq_of_lt (show height + 1 < 2 ^ 64 by omega)]

/-- What the end of a vote period has done, and what any other block. -/
lemma closeVotePeriod_cases {K : Keepers σ} {H : Host} {S : Schedule} {height : ℕ}
    {w w₁ : World σ} (h : closeVotePeriod K H S height w = .ok w₁) :
    (IsPeriodLast height w.store.params.votePeriod.toNat
        ∧ ∃ t, tallyVotes K H S w = .ok t ∧ settlePeriod K S height w t = .ok w₁)
      ∨ ¬ IsPeriodLast height w.store.params.votePeriod.toNat
        ∧ w.store.params.votePeriod.toNat ≠ 0 ∧ w₁ = w := by
  obtain ⟨last, hl, h⟩ := bind_eq_ok.mp h
  obtain ⟨hperiod, rfl⟩ := isPeriodLastBlock_eq_ok.mp hl
  by_cases hlast : IsPeriodLast height w.store.params.votePeriod.toNat
  · rw [if_pos (decide_eq_true hlast)] at h
    exact .inl ⟨hlast, bind_eq_ok.mp h⟩
  · rw [if_neg fun hd => hlast (of_decide_eq_true hd)] at h
    exact .inr ⟨hlast, hperiod, (Except.ok.inj h).symm⟩

/-- The last block of a vote period: tally, settlement, slashing. -/
lemma endBlocker_of_last {K : Keepers σ} {H : Host} {S : Schedule} {height : ℕ} {w : World σ}
    (h : IsPeriodLast height w.store.params.votePeriod.toNat) :
    endBlocker K H S height w
      = tallyVotes K H S w >>= fun t => settlePeriod K S height w t >>=
          closeSlashWindow K height w.store.params.slashWindow.toNat := by
  rw [endBlocker, closeVotePeriod, isPeriodLastBlock_of_last h, ok_bind, if_pos rfl, bind_assoc]

lemma sendRewards_eq_ok {K : Keepers σ} {s s' : σ} {c : Coins} (h : sendRewards K s c = .ok s') :
    K.sendCoinsFromModuleToModule s "oracle" "distribution" c = .ok s' := by
  rw [sendRewards] at h
  split at h
  · exact (Except.ok.inj h) ▸ ‹_›
  · simp at h
  · simp at h

lemma settlePeriod_eq_ok {K : Keepers σ} {S : Schedule} {height : ℕ} {w w' : World σ}
    {t : Tallied} (h : settlePeriod K S height w t = .ok w') :
    ∃ ext ext' taxes,
      applyWhitelist K ext w.store.params.whitelist t.voteTargets w.store.tobinTaxes
          = .ok (taxes, ext')
        ∧ w'.store = { w.store with
            exchangeRates := t.rates
            missCounters := countMisses S t w.store.missCounters
            prevotes := clearPrevotes height w.store.params.votePeriod.toNat w.store.prevotes
            votes := ∅
            tobinTaxes := taxes } := by
  obtain ⟨ext, -, h⟩ := bind_eq_ok.mp h
  obtain ⟨⟨taxes, ext'⟩, happly, h⟩ := bind_eq_ok.mp h
  obtain rfl := Except.ok.inj h
  exact ⟨ext, ext', taxes, happly, rfl⟩

/-- Slashing leaves everything of the store but the miss counters as it is, and those it can only
empty. -/
lemma closeSlashWindow_eq_ok {K : Keepers σ} {height slashWindow : ℕ} {w w' : World σ}
    (h : closeSlashWindow K height slashWindow w = .ok w') :
    ∃ counters, (counters = w.store.missCounters ∨ counters = ∅)
      ∧ w'.store = { w.store with missCounters := counters } := by
  obtain ⟨last, -, h⟩ := bind_eq_ok.mp h
  split_ifs at h
  · obtain ⟨_, -, h⟩ := bind_eq_ok.mp h
    obtain ⟨_, -, h⟩ := bind_eq_ok.mp h
    obtain ⟨_, -, h⟩ := bind_eq_ok.mp h
    obtain ⟨ext, -, h⟩ := bind_eq_ok.mp h
    obtain rfl := Except.ok.inj h
    exact ⟨∅, Or.inr rfl, rfl⟩
  · obtain rfl := Except.ok.inj h
    exact ⟨w.store.missCounters, Or.inl rfl, rfl⟩

/-- The store after the last block of a vote period. -/
lemma endBlocker_store_of_last {K : Keepers σ} {H : Host} {S : Schedule} {height : ℕ}
    {w w' : World σ} (hlast : IsPeriodLast height w.store.params.votePeriod.toNat)
    (h : endBlocker K H S height w = .ok w') :
    ∃ t ext ext' taxes counters, tallyVotes K H S w = .ok t
      ∧ applyWhitelist K ext w.store.params.whitelist t.voteTargets w.store.tobinTaxes
          = .ok (taxes, ext')
      ∧ w'.store = { w.store with
          exchangeRates := t.rates
          missCounters := counters
          prevotes := clearPrevotes height w.store.params.votePeriod.toNat w.store.prevotes
          votes := ∅
          tobinTaxes := taxes } := by
  rw [endBlocker_of_last hlast] at h
  obtain ⟨t, ht, h⟩ := bind_eq_ok.mp h
  obtain ⟨w₁, hw₁, h⟩ := bind_eq_ok.mp h
  obtain ⟨counters, -, hstore⟩ := closeSlashWindow_eq_ok h
  obtain ⟨ext, ext', taxes, happly, hstore₁⟩ := settlePeriod_eq_ok hw₁
  exact ⟨t, ext, ext', taxes, counters, ht, happly, by rw [hstore, hstore₁]⟩

/-- The store after any other block. -/
lemma endBlocker_store_of_not_last {K : Keepers σ} {H : Host} {S : Schedule} {height : ℕ}
    {w w' : World σ} (hlast : ¬ IsPeriodLast height w.store.params.votePeriod.toNat)
    (h : endBlocker K H S height w = .ok w') :
    w.store.params.votePeriod.toNat ≠ 0
      ∧ ∃ counters, w'.store = { w.store with missCounters := counters } := by
  obtain ⟨w₁, hclose, h⟩ := bind_eq_ok.mp h
  rcases closeVotePeriod_cases hclose with ⟨hyes, -⟩ | ⟨-, hperiod, rfl⟩
  · exact absurd hyes hlast
  · obtain ⟨counters, -, hstore⟩ := closeSlashWindow_eq_ok h
    exact ⟨hperiod, counters, hstore⟩

/-- A block changes no parameter, and keeps or clears the votes. -/
lemma endBlocker_params_votes {K : Keepers σ} {H : Host} {S : Schedule} {height : ℕ}
    {w w' : World σ} (h : endBlocker K H S height w = .ok w') :
    w'.store.params = w.store.params
      ∧ (w'.store.votes = w.store.votes ∨ w'.store.votes = ∅) := by
  by_cases hlast : IsPeriodLast height w.store.params.votePeriod.toNat
  · obtain ⟨_, _, _, _, _, -, -, hstore⟩ := endBlocker_store_of_last hlast h
    rw [hstore]
    exact ⟨rfl, Or.inr rfl⟩
  · obtain ⟨-, _, hstore⟩ := endBlocker_store_of_not_last hlast h
    rw [hstore]
    exact ⟨rfl, Or.inl rfl⟩

end ColumbusCore.Oracle
