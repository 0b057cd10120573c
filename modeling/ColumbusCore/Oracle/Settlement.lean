import ColumbusCore.Oracle.Reference

/-!
The settlement of a period and the end of a slash window do not fail in their arithmetic.

Four divisors occur after the tally: the reward distribution window, the sum of the weights, the
vote period, and the number of vote periods in a slash window. The parameter validation keeps
the windows at or above the vote period, and the vote period positive; the weights are only
divided by when their sum is not zero; and where a slash window ends it is at most the height,
so the 64-bit conversions change nothing and the window holds at least one period. Decimals
occur in the rewards: a share of the reward pool, and a winner's part of it, are products with
numbers of the unit interval, so they stay within the bit limit when the pool does.

* `rewardBallotWinners_eq`, `slashAndReset_eq_foldlM`: the rewards and the slash window, step by
  step;
* `KeepersLawful`: what is asked of the other modules, in the calls that the block makes;
* `settlePeriod_ne_divisionByZero`, `settlePeriod_ne_overflow`, `closeSlashWindow_ne_arithmetic`:
  **no fault of arithmetic after the tally**.
-/

namespace ColumbusCore.Oracle

open Go
open Std (ExtTreeMap)

variable {σ : Type}

/-- The faults of arithmetic. -/
def Arithmetic (e : Fault) : Prop := e = .panic .divisionByZero ∨ e = .panic .overflow

section Arithmetic

variable {e : Fault}

lemma Arithmetic.ne_panic (he : Arithmetic e) {p : Panic} (h1 : p ≠ .divisionByZero)
    (h2 : p ≠ .overflow) {α : Type} : (panicked p : Outcome α) ≠ .error e := by
  intro h
  obtain rfl := Except.error.inj h
  rcases he with he | he
  · exact h1 (Fault.panic.inj he)
  · exact h2 (Fault.panic.inj he)

end Arithmetic

/-! ### Parameters -/

/-- What the validation of the parameters guarantees. -/
structure ValidParams (p : Params) : Prop where
  votePeriod_pos : 0 < p.votePeriod.toNat
  rewardBand : outOfUnit p.rewardBand = false
  window_le : p.votePeriod.toNat ≤ p.rewardDistributionWindow.toNat
  slashWindow_le : p.votePeriod.toNat ≤ p.slashWindow.toNat

lemma validParams_of_validate {p : Params} (h : p.validate = .ok ()) : ValidParams p := by
  obtain ⟨hperiod, -, hband, hwindow, -, hslash, -⟩ := Params.validate_eq_ok_iff.mp h
  exact ⟨Nat.pos_of_ne_zero fun h0 => hperiod (UInt64.toNat_inj.mp h0), hband,
    UInt64.le_iff_toNat_le.mp hwindow, UInt64.le_iff_toNat_le.mp hslash⟩

/-- A positive 64-bit word is read as a number other than zero. -/
lemma toInt64_ne_zero {n : ℕ} (h0 : n ≠ 0) (h : n < 2 ^ 64) : toInt64 n ≠ 0 := by
  rw [toInt64, Nat.mod_eq_of_lt h]
  split_ifs <;> omega

/-! ### The steps of the rewards -/

/-- The coins a winner has earned. -/
def rewardOf (periodRewards : DecCoins) (ballotPowerSum : ℤ) (e : String × Claim) :
    Outcome Coins := do
  let share ← (Fixed.ofInt e.2.weight : Dec).quoInt ballotPowerSum
  let shared ← periodRewards.mulDec share
  shared.truncateDecimal

/-- The coins of a winner are paid. -/
def payCoins (K : Keepers σ) (p : PayState σ) (recipient : ValAddress) (rewardCoins : Coins) :
    Outcome (PayState σ) :=
  match K.validator p.ext recipient with
  | none => panicked .nilDereference
  | some v =>
      if rewardCoins.IsZero then pure p
      else do
        let ext ← K.allocateTokensToValidator p.ext v (DecCoins.ofCoins rewardCoins)
        pure ⟨ext, p.distributedReward.add rewardCoins⟩

lemma payWinner_eq (K : Keepers σ) (periodRewards : DecCoins) (sum : ℤ) (p : PayState σ)
    (e : String × Claim) :
    payWinner K periodRewards sum p e
      = rewardOf periodRewards sum e >>= payCoins K p e.2.recipient := by
  rw [payWinner, rewardOf]
  simp only [bind_assoc]
  rfl

/-- The sum of the weights of all claims. -/
def weightSum (claims : ClaimMap) : ℤ := (claims.toList.map fun e => e.2.weight).sum

lemma sum_visit_weights (o : RangeOrder (String × Claim)) (claims : ClaimMap) :
    ((o.visit claims.toList).map fun e => e.2.weight).sum = weightSum claims :=
  ((o.perm claims.toList).map _).sum_eq

/-- The coins of a period: of every reward denom its share of the balance of the oracle account. -/
def periodRewards (K : Keepers σ) (S : Schedule) (s : σ) (votePeriod rewardDistributionWindow : ℤ)
    (voteTargets : TargetMap) : Outcome DecCoins := do
  let rewardDenoms := "uluna" :: (S.rangeTargets.visit voteTargets.toList).map Prod.fst
  let distributionRatio ← (Fixed.ofInt votePeriod : Dec).quoInt rewardDistributionWindow
  rewardDenoms.foldlM (addPeriodReward K s distributionRatio) ∅

/-- The loop over the winners. -/
def payWinners (K : Keepers σ) (S : Schedule) (s : σ) (rewards : DecCoins) (winners : ClaimMap) :
    Outcome (PayState σ) :=
  (S.rangeWinners.visit winners.toList).foldlM (payWinner K rewards (weightSum winners)) ⟨s, ∅⟩

lemma rewardBallotWinners_eq (K : Keepers σ) (S : Schedule) (s : σ) (period window : ℤ)
    (targets : TargetMap) (winners : ClaimMap) :
    rewardBallotWinners K S s period window targets winners
      = if weightSum winners = 0 then .ok s
        else periodRewards K S s period window targets >>= fun rewards =>
          payWinners K S s rewards winners >>= fun paid =>
            sendRewards K paid.ext paid.distributedReward := by
  rw [rewardBallotWinners, ← sum_visit_weights S.rangeWeights winners]
  simp only [periodRewards, payWinners, ← sum_visit_weights S.rangeWeights winners, bind_assoc,
    pure_eq_ok]

/-! ### The steps of the slash window -/

/-- The number of vote periods in a slash window, of the 64-bit integers the two are read as. -/
def votePeriodsPerWindow (p : Params) : ℤ :=
  (toInt64 p.slashWindow.toNat).tdiv (toInt64 p.votePeriod.toNat)

/-- The number of vote periods is a 64-bit integer: where both numbers are read as negative ones,
the window is the nearer one to zero. -/
lemma votePeriodsPerWindow_bounds {p : Params} (hp : ValidParams p) :
    -2 ^ 63 ≤ votePeriodsPerWindow p ∧ votePeriodsPerWindow p < 2 ^ 63 := by
  have hwindow := UInt64.toNat_lt p.slashWindow
  have hpos := hp.votePeriod_pos
  have hle := hp.slashWindow_le
  have habs := Int.natAbs_tdiv_le_natAbs (toInt64 p.slashWindow.toNat) (toInt64 p.votePeriod.toNat)
  rw [votePeriodsPerWindow]
  rcases lt_or_ge p.slashWindow.toNat (2 ^ 63) with hlt | hge
  · rw [toInt64_of_lt hlt] at habs ⊢
    omega
  · have hw : toInt64 p.slashWindow.toNat = p.slashWindow.toNat - 2 ^ 64 := by
      rw [toInt64, Nat.mod_eq_of_lt hwindow, if_neg (by omega)]
    rcases lt_or_ge p.votePeriod.toNat (2 ^ 63) with hlt' | hge'
    · have hneg := Int.tdiv_nonneg (a := -toInt64 p.slashWindow.toNat)
        (b := toInt64 p.votePeriod.toNat) (by omega) (by rw [toInt64_of_lt hlt']; omega)
      rw [Int.neg_tdiv] at hneg
      omega
    · have hv : toInt64 p.votePeriod.toNat = p.votePeriod.toNat - 2 ^ 64 := by
        rw [toInt64, Nat.mod_eq_of_lt (by omega), if_neg (by omega)]
      have hsmall := Nat.div_le_of_le_mul (k := (toInt64 p.votePeriod.toNat).natAbs)
        (m := (toInt64 p.slashWindow.toNat).natAbs) (n := 1) (by omega)
      have hquot : ((toInt64 p.slashWindow.toNat).tdiv (toInt64 p.votePeriod.toNat)).natAbs ≤ 1 :=
        (Int.natAbs_tdiv _ _).trans_le hsmall
      omega

/-- A 64-bit integer read from its own word. -/
lemma toInt64_emod {n : ℤ} (h : -2 ^ 63 ≤ n ∧ n < 2 ^ 63) : toInt64 (n % 2 ^ 64).toNat = n := by
  rw [toInt64]
  split_ifs <;> omega

/-- The valid rate of a miss counter, `validVoteRate` of the source. -/
def validVoteRate (votePeriods : ℤ) (missCounter : ℕ) : Dec :=
  ⟨(toInt64 (((votePeriods % 2 ^ 64).toNat + 2 ^ 64 - missCounter) % 2 ^ 64)
    * decFormat.scale).tdiv votePeriods⟩

/-- The valid rate is below the minimum of the parameters. -/
def BelowMinimum (p : Params) (missCounter : ℕ) : Prop :=
  validVoteRate (votePeriodsPerWindow p) missCounter < p.minValidPerWindow

instance (p : Params) (missCounter : ℕ) : Decidable (BelowMinimum p missCounter) :=
  inferInstanceAs (Decidable (_ < _))

/-- The operator exists, is bonded and is not jailed. -/
def isActive (K : Keepers σ) (s : σ) (operator : ValAddress) : Bool :=
  (K.validator s operator).any fun v => v.bonded && !v.jailed

/-- One operator is slashed and jailed. -/
def slashOperator (K : Keepers σ) (height : ℕ) (p : Params) (s : σ) (operator : ValAddress) :
    Outcome σ :=
  match K.validator s operator with
  | none => panicked .nilDereference
  | some v =>
      match v.consAddr with
      | none => panicked (.raised "no consensus public key")
      | some consAddr => do
          let power ← v.consensusPower (K.powerReduction s)
          let s ← K.slash s consAddr (height - 1 - 1) power p.slashFraction
          K.jail s consAddr

/-- **The judgement of one miss counter**, of a window with vote periods. -/
lemma judgeMissCounter_eq (K : Keepers σ) (height : ℕ) {p : Params} (hp : ValidParams p)
    (hn : votePeriodsPerWindow p ≠ 0) (s : σ) (e : ValAddress × ℕ) :
    judgeMissCounter K height p (votePeriodsPerWindow p % 2 ^ 64).toNat s e
      = if BelowMinimum p e.2 then
          if (K.validator s e.1).isNone then panicked .nilDereference
          else if isActive K s e.1 then slashOperator K height p s e.1 else .ok s
        else .ok s := by
  have hrate : (Fixed.ofInt (toInt64 (((votePeriodsPerWindow p % 2 ^ 64).toNat + 2 ^ 64 - e.2)
      % 2 ^ 64)) : Dec).quoInt (toInt64 (votePeriodsPerWindow p % 2 ^ 64).toNat)
        = .ok (validVoteRate (votePeriodsPerWindow p) e.2) := by
    rw [toInt64_emod (votePeriodsPerWindow_bounds hp), Fixed.quoInt_eq_ok hn]
    rfl
  rw [judgeMissCounter, hrate, ok_bind]
  by_cases hbelow : validVoteRate (votePeriodsPerWindow p) e.2 < p.minValidPerWindow
  · rw [if_pos hbelow, if_pos (show BelowMinimum p e.2 from hbelow), isActive, slashOperator]
    cases hv : K.validator s e.1 with
    | none => rfl
    | some v =>
        have hactive : (Option.any (fun v : Validator => v.bonded && !v.jailed) (some v) = true)
            ↔ v.bonded = true ∧ ¬ v.jailed = true := by simp
        simp only [hactive, Option.isNone_some, Bool.false_eq_true, if_false]
        rfl
  · rw [if_neg hbelow, if_neg (show ¬ BelowMinimum p e.2 from hbelow), pure_eq_ok]

/-- The end of a slash window is a loop over the miss counters. -/
lemma slashAndReset_eq_foldlM {K : Keepers σ} {height : ℕ} {w : World σ}
    (hp : ValidParams w.store.params) :
    slashAndResetMissCounters K height w = (w.store.missCounters.toList.foldlM
      (judgeMissCounter K height w.store.params
        (votePeriodsPerWindow w.store.params % 2 ^ 64).toNat) w.ext) >>= fun ext =>
          .ok { store := { w.store with missCounters := ∅ }, ext := ext } := by
  have hpos := hp.votePeriod_pos
  have hbounds := votePeriodsPerWindow_bounds hp
  have hperiod := toInt64_ne_zero (by omega) (UInt64.toNat_lt w.store.params.votePeriod)
  have htrunc : (⟨(toInt64 w.store.params.slashWindow.toNat * (decFormat.scale : ℕ)).tdiv
      (toInt64 w.store.params.votePeriod.toNat)⟩ : Dec).truncateInt
        = .ok (votePeriodsPerWindow w.store.params) := by
    rw [Fixed.truncateInt, Rounding.tdiv_mul_tdiv _ _ decFormat.scale_pos]
    refine Fixed.checkedInt_eq_ok_iff.mpr ⟨?_, rfl⟩
    rw [← votePeriodsPerWindow]
    show (votePeriodsPerWindow w.store.params).natAbs < 2 ^ 256
    omega
  rw [slashAndResetMissCounters, Fixed.quoInt_eq_ok hperiod, ok_bind, Fixed.ofInt, htrunc, ok_bind,
    int64, if_pos hbounds, ok_bind]
  rfl

/-! ### The calls of the other modules -/

/-- None of the calls that `RewardBallotWinners` makes fails in its arithmetic: the allocation of the
coins of each winner, in the state the winners before it leave, and the transfer of the coins of
all winners. -/
structure RewardCallsLawful (K : Keepers σ) (S : Schedule) (s : σ) (votePeriod window : ℤ)
    (targets : TargetMap) (winners : ClaimMap) : Prop where
  allocate_ne : ∀ rewards before e after p v coins,
    periodRewards K S s votePeriod window targets = .ok rewards →
    S.rangeWinners.visit winners.toList = before ++ e :: after →
    before.foldlM (payWinner K rewards (weightSum winners)) ⟨s, ∅⟩ = .ok p →
    rewardOf rewards (weightSum winners) e = .ok coins →
    K.validator p.ext e.2.recipient = some v → ¬ coins.IsZero →
    ∀ f, Arithmetic f → K.allocateTokensToValidator p.ext v (DecCoins.ofCoins coins) ≠ .error f
  send_ne : ∀ rewards p, weightSum winners ≠ 0 →
    periodRewards K S s votePeriod window targets = .ok rewards →
    payWinners K S s rewards winners = .ok p →
    ∀ f, Arithmetic f →
      K.sendCoinsFromModuleToModule p.ext "oracle" "distribution" p.distributedReward ≠ .error f

/-- None of the operators that a slash window punishes is slashed and jailed with a fault of
arithmetic, in the state the miss counters before it leave. -/
def SlashCallsLawful (K : Keepers σ) (height : ℕ) (w : World σ) : Prop :=
  ∀ before e after s, w.store.missCounters.toList = before ++ e :: after →
    before.foldlM (judgeMissCounter K height w.store.params
      (votePeriodsPerWindow w.store.params % 2 ^ 64).toNat) w.ext = .ok s →
    BelowMinimum w.store.params e.2 → isActive K s e.1 = true →
    ∀ f, Arithmetic f → slashOperator K height w.store.params s e.1 ≠ .error f

/-- The other modules do not fail in their arithmetic in the calls that the last block of a vote
period makes. -/
structure KeepersLawful (K : Keepers σ) (H : Host) (S : Schedule) (height : ℕ) (w : World σ) :
    Prop where
  rewards : ∀ t, tallyVotes K H S w = .ok t →
    RewardCallsLawful K S w.ext (toInt64 w.store.params.votePeriod.toNat)
      (toInt64 w.store.params.rewardDistributionWindow.toNat) t.voteTargets t.claims
  slashes : ∀ t w', tallyVotes K H S w = .ok t → settlePeriod K S height w t = .ok w' →
    IsPeriodLast height w.store.params.slashWindow.toNat → SlashCallsLawful K height w'

/-! ### Decimals -/

section Decimals

variable {a b : Dec}

lemma checked_ne_divisionByZero {x : ℤ} :
    (Fixed.checked x : Outcome Dec) ≠ .error (.panic .divisionByZero) := fun h => by
  simpa using (Fixed.checked_eq_error_iff.mp h).2

lemma checkedInt_ne_divisionByZero {x : ℤ} :
    Fixed.checkedInt decFormat x ≠ .error (.panic .divisionByZero) := fun h => by
  simpa using (Fixed.checkedInt_eq_error_iff.mp h).2

lemma quoInt_ne_divisionByZero {n : ℤ} (hn : n ≠ 0) :
    a.quoInt n ≠ .error (.panic .divisionByZero) := by
  rw [Fixed.quoInt_eq_ok hn]
  simp

lemma mulDec_ne_divisionByZero (c : DecCoins) (x : Dec) :
    c.mulDec x ≠ .error (.panic .divisionByZero) := by
  refine foldlM_ne_error (fun _ => True) trivial (fun _ _ _ _ _ _ => trivial) fun e _ c _ => ?_
  exact bind_ne_error checked_ne_divisionByZero fun y _ => by simp

lemma truncateDecimal_ne_divisionByZero (c : DecCoins) :
    c.truncateDecimal ≠ .error (.panic .divisionByZero) := by
  refine foldlM_ne_error (fun _ => True) trivial (fun _ _ _ _ _ _ => trivial) fun e _ c _ => ?_
  refine bind_ne_error checkedInt_ne_divisionByZero fun y _ => bind_ne_error ?_ fun _ _ => by simp
  rw [newCoin]
  split_ifs <;> simp [panicked]

end Decimals

/-! ### Rewards -/

lemma addPeriodReward_ne_divisionByZero (K : Keepers σ) (s : σ) (ratio : Dec) (c : DecCoins)
    (d : Denom) : addPeriodReward K s ratio c d ≠ .error (.panic .divisionByZero) := by
  rw [addPeriodReward]
  split_ifs
  · simp
  · refine bind_ne_error checked_ne_divisionByZero fun x _ => bind_ne_error ?_ fun coin _ => ?_
    · rw [DecCoins.newDecCoin]
      split_ifs <;> simp [panicked]
    · exact bind_ne_error checked_ne_divisionByZero fun y _ => by simp

lemma periodRewards_ne_divisionByZero (K : Keepers σ) (S : Schedule) (s : σ) (votePeriod : ℤ)
    {window : ℤ} (hw : window ≠ 0) (targets : TargetMap) :
    periodRewards K S s votePeriod window targets ≠ .error (.panic .divisionByZero) := by
  refine bind_ne_error (quoInt_ne_divisionByZero hw) fun ratio _ => ?_
  exact foldlM_ne_error (fun _ => True) trivial (fun _ _ _ _ _ _ => trivial)
    fun d _ c _ => addPeriodReward_ne_divisionByZero K s ratio c d

lemma rewardOf_ne_divisionByZero (rewards : DecCoins) {sum : ℤ} (hsum : sum ≠ 0)
    (e : String × Claim) : rewardOf rewards sum e ≠ .error (.panic .divisionByZero) :=
  bind_ne_error (quoInt_ne_divisionByZero hsum) fun share _ =>
    bind_ne_error (mulDec_ne_divisionByZero rewards share) fun shared _ =>
      truncateDecimal_ne_divisionByZero shared

lemma payCoins_ne_arithmetic {K : Keepers σ} {e : Fault} (he : Arithmetic e) {p : PayState σ}
    {recipient : ValAddress} {coins : Coins}
    (hallocate : ∀ v, K.validator p.ext recipient = some v → ¬ coins.IsZero →
      K.allocateTokensToValidator p.ext v (DecCoins.ofCoins coins) ≠ .error e) :
    payCoins K p recipient coins ≠ .error e := by
  rw [payCoins]
  cases hv : K.validator p.ext recipient with
  | none => exact he.ne_panic (by simp) (by simp)
  | some v =>
      by_cases hz : coins.IsZero
      · simp [hz]
      · simp only [if_neg hz]
        exact bind_ne_error (hallocate v hv hz) fun _ _ => by simp

lemma sendRewards_ne_arithmetic {K : Keepers σ} {e : Fault} (he : Arithmetic e) {s : σ} {c : Coins}
    (hsend : K.sendCoinsFromModuleToModule s "oracle" "distribution" c ≠ .error e) :
    sendRewards K s c ≠ .error e := by
  rw [sendRewards]
  cases hr : K.sendCoinsFromModuleToModule s "oracle" "distribution" c with
  | ok s' => simp
  | error e' =>
      cases e' with
      | error msg => exact he.ne_panic (by simp) (by simp)
      | panic p =>
          rw [hr] at hsend
          exact hsend

/-- The distribution of the rewards fails in its arithmetic only where the coins of the period and
the coins of a winner are computed. -/
lemma rewardBallotWinners_ne_arithmetic {K : Keepers σ} {S : Schedule} {s : σ} {period window : ℤ}
    {targets : TargetMap} {winners : ClaimMap} {e : Fault} (he : Arithmetic e)
    (hK : RewardCallsLawful K S s period window targets winners)
    (hperiod : periodRewards K S s period window targets ≠ .error e)
    (hcoins : ∀ rewards, periodRewards K S s period window targets = .ok rewards →
      weightSum winners ≠ 0 → ∀ x ∈ S.rangeWinners.visit winners.toList,
        rewardOf rewards (weightSum winners) x ≠ .error e) :
    rewardBallotWinners K S s period window targets winners ≠ .error e := by
  rw [rewardBallotWinners_eq]
  split_ifs with hsum
  · simp
  refine bind_ne_error hperiod fun rewards hrewards => bind_ne_error ?_ fun p hp =>
    sendRewards_ne_arithmetic he (hK.send_ne rewards p hsum hrewards hp e he)
  refine foldlM_ne_error_of_rounds fun before x after p hl hp => ?_
  rw [payWinner_eq]
  refine bind_ne_error (hcoins rewards hrewards hsum x (by simp [hl])) fun coins hx =>
    payCoins_ne_arithmetic he fun v hv hz => ?_
  exact hK.allocate_ne rewards before x after p v coins hrewards hl hp hx hv hz e he

lemma applyWhitelist_ne_arithmetic (K : Keepers σ) {e : Fault} (he : Arithmetic e) (s : σ)
    (whitelist : List DenomItem) (targets taxes : TargetMap) :
    applyWhitelist K s whitelist targets taxes ≠ .error e := by
  rw [applyWhitelist]
  split_ifs
  · refine foldlM_ne_error (fun _ => True) trivial (fun _ _ _ _ _ _ => trivial) fun item _ p _ => ?_
    rw [applyItem]
    cases K.getDenomMetaData p.2 item.name with
    | some m => simp
    | none =>
        refine bind_ne_error ?_ fun _ _ => by simp
        rw [denomMetadata]
        split
        · exact he.ne_panic (by simp) (by simp)
        · exact he.ne_panic (by simp) (by simp)
        · simp
  · simp

/-- **The settlement of a period does not divide by zero.** -/
theorem settlePeriod_ne_divisionByZero {K : Keepers σ} {H : Host} {S : Schedule} {height : ℕ}
    {w : World σ} (hK : KeepersLawful K H S height w) (hp : ValidParams w.store.params) {t : Tallied}
    (ht : tallyVotes K H S w = .ok t) :
    settlePeriod K S height w t ≠ .error (.panic .divisionByZero) := by
  have hpos := hp.votePeriod_pos
  have hwindow : toInt64 w.store.params.rewardDistributionWindow.toNat ≠ 0 :=
    toInt64_ne_zero (by have := hp.window_le; omega)
      (UInt64.toNat_lt w.store.params.rewardDistributionWindow)
  have hrewards := rewardBallotWinners_ne_arithmetic (Or.inl rfl) (hK.rewards t ht)
    (periodRewards_ne_divisionByZero K S w.ext _ hwindow t.voteTargets)
    fun rewards _ hsum x _ => rewardOf_ne_divisionByZero rewards hsum x
  exact bind_ne_error hrewards fun ext _ =>
    bind_ne_error (applyWhitelist_ne_arithmetic K (Or.inl rfl) ext _ _ _) fun _ _ => by simp

/-! ### Rewards within the bit limit -/

/-- Every amount is a nonnegative decimal within the bit limit. -/
def AmountsFit (c : DecCoins) : Prop :=
  ∀ d, 0 ≤ (c.amountOf d).raw ∧ Fixed.Fits decFormat (c.amountOf d).raw

lemma amountsFit_empty : AmountsFit ∅ := fun d => by
  rw [Amounts.amountOf_empty]
  exact ⟨le_rfl, fits_zero⟩

lemma AmountsFit.setAmount {c : DecCoins} (hc : AmountsFit c) {d : Denom} {x : Dec}
    (h0 : 0 ≤ x.raw) (hfit : Fixed.Fits decFormat x.raw) : AmountsFit (c.setAmount d x) := by
  intro d'
  rw [Amounts.amountOf_setAmount]
  split_ifs
  · exact ⟨h0, hfit⟩
  · exact hc d'

lemma AmountsFit.of_mem {c : DecCoins} (hc : AmountsFit c) {e : Denom × Dec}
    (he : e ∈ c.entries) : 0 ≤ e.2.raw ∧ Fixed.Fits decFormat e.2.raw := by
  rw [← (Amounts.mem_entries_iff.mp he).1]
  exact hc e.1

/-- A part of decimal coins within the bit limit is within it. -/
lemma exists_mulDec {c : DecCoins} (hc : AmountsFit c) {x : Dec} (h0 : 0 ≤ x.raw)
    (h1 : x.raw ≤ decFormat.scale) : ∃ c', c.mulDec x = .ok c' ∧ AmountsFit c' := by
  have hround : ∀ e ∈ c.entries, ∃ y, e.2.mul x = .ok y ∧ 0 ≤ y.raw
      ∧ Fixed.Fits decFormat y.raw := by
    intro e he
    obtain ⟨he0, hefit⟩ := hc.of_mem he
    obtain ⟨y, hy, hy0, hyle⟩ := Fixed.exists_mul_unit he0 hefit h0 h1
    exact ⟨y, hy, hy0, hefit.of_le hy0 hyle⟩
  cases hr : c.mulDec x with
  | ok c' =>
      refine ⟨c', rfl, foldlM_invariant AmountsFit hr amountsFit_empty ?_⟩
      intro e he a a' ha hstep
      obtain ⟨y, hy, hy0, hyfit⟩ := hround e he
      rw [hy, ok_bind] at hstep
      obtain rfl := Except.ok.inj hstep
      exact ha.setAmount hy0 hyfit
  | error f =>
      obtain ⟨pre, e, post, a, hl, -, he⟩ := exists_of_foldlM_error (fun _ _ => True) hr trivial
        fun _ _ _ _ _ _ _ _ => trivial
      obtain ⟨y, hy, -⟩ := hround e (by rw [hl]; simp)
      rw [hy, ok_bind] at he
      exact absurd he (by simp)

lemma truncateDecimal_ne_overflow {c : DecCoins} (hc : AmountsFit c) :
    c.truncateDecimal ≠ .error (.panic .overflow) := by
  refine foldlM_ne_error (fun _ => True) trivial (fun _ _ _ _ _ _ => trivial) fun e he a _ => ?_
  rw [truncateInt_eq_ok (hc.of_mem he).2, ok_bind]
  refine bind_ne_error ?_ fun _ _ => by simp
  rw [newCoin]
  split_ifs <;> simp [panicked]

/-- The rewards pool is bounded in every denom. -/
def PoolBounded (K : Keepers σ) (s : σ) : Prop :=
  ∀ d, 0 ≤ K.getBalance s "oracle" d ∧ K.getBalance s "oracle" d < 2 ^ 254

/-- After the denoms `pre`, the rewards of a denom are at most the share of the pool for each of
its occurrences. -/
def RewardsBounded (pre : List Denom) (c : DecCoins) : Prop :=
  ∀ d, 0 ≤ (c.amountOf d).raw ∧ (c.amountOf d).raw ≤ pre.count d * (2 ^ 254 * 10 ^ 18)

/-- One round of the rewards, in a denom not seen twice. -/
lemma RewardsBounded.round {K : Keepers σ} {s : σ} (hpool : PoolBounded K s) {ratio : Dec}
    (h0 : 0 ≤ ratio.raw) (h1 : ratio.raw ≤ 10 ^ 18) {pre : List Denom} {c : DecCoins}
    (hc : RewardsBounded pre c) {d : Denom} (hd : pre.count d ≤ 1) :
    ∃ c', addPeriodReward K s ratio c d = .ok c' ∧ RewardsBounded (pre ++ [d]) c' := by
  have hcount : ∀ d', (pre.count d' : ℤ) ≤ (pre ++ [d]).count d' := fun d' => by
    rw [List.count_append]
    omega
  rw [addPeriodReward]
  split_ifs with hzero
  · refine ⟨c, rfl, fun d' => ⟨(hc d').1, (hc d').2.trans ?_⟩⟩
    exact mul_le_mul_of_nonneg_right (hcount d') (by positivity)
  · obtain ⟨hb0, hb⟩ := hpool d
    have hshare0 : 0 ≤ K.getBalance s "oracle" d * ratio.raw := mul_nonneg hb0 h0
    have hshare : K.getBalance s "oracle" d * ratio.raw ≤ 2 ^ 254 * 10 ^ 18 := by nlinarith
    have hmul : (Fixed.ofInt (K.getBalance s "oracle" d) : Dec).mul ratio
        = .ok ⟨K.getBalance s "oracle" d * ratio.raw⟩ := by
      rw [Fixed.ofInt_mul]
      exact Fixed.checked_eq_ok_iff.mpr ⟨fits_of_le hshare0 (by omega), rfl⟩
    obtain ⟨hc0, hcle⟩ := hc d
    have hcount1 : (pre.count d : ℤ) ≤ 1 := by exact_mod_cast hd
    have hsum0 : 0 ≤ (c.amountOf d).raw + K.getBalance s "oracle" d * ratio.raw := by omega
    have hsum : (c.amountOf d).raw + K.getBalance s "oracle" d * ratio.raw
        ≤ 2 ^ 255 * 10 ^ 18 := by omega
    have hadd : (c.amountOf d).add ⟨K.getBalance s "oracle" d * ratio.raw⟩
        = .ok ⟨(c.amountOf d).raw + K.getBalance s "oracle" d * ratio.raw⟩ :=
      Fixed.checked_eq_ok_iff.mpr ⟨fits_of_le hsum0 hsum, rfl⟩
    refine ⟨c.setAmount d ⟨(c.amountOf d).raw + K.getBalance s "oracle" d * ratio.raw⟩, ?_, ?_⟩
    · rw [hmul, ok_bind, DecCoins.newDecCoin, if_neg (not_lt.mpr hshare0), ok_bind,
        DecCoins.addCoin, hadd, ok_bind, pure_eq_ok]
    · intro d'
      rw [Amounts.amountOf_setAmount]
      split_ifs with hdd
      · subst hdd
        have hcount' : ((pre ++ [d]).count d : ℤ) = pre.count d + 1 := by
          rw [List.count_append]
          simp
        show 0 ≤ (c.amountOf d).raw + _ ∧ (c.amountOf d).raw + _ ≤ _
        rw [hcount', add_mul, one_mul]
        omega
      · exact ⟨(hc d').1, (hc d').2.trans (mul_le_mul_of_nonneg_right (hcount d') (by positivity))⟩

/-- The rewards of a period are within the bit limit: no denom is counted more than twice. -/
lemma exists_periodRewards {K : Keepers σ} {s : σ} (hpool : PoolBounded K s) {ratio : Dec}
    (h0 : 0 ≤ ratio.raw) (h1 : ratio.raw ≤ 10 ^ 18) {denoms : List Denom}
    (hnodup : denoms.Nodup) (luna : Denom) :
    ∃ c, (luna :: denoms).foldlM (addPeriodReward K s ratio) ∅ = .ok c ∧ AmountsFit c := by
  have hcount : ∀ d, (luna :: denoms).count d ≤ 2 := fun d => by
    have := List.nodup_iff_count_le_one.mp hnodup d
    rw [List.count_cons]
    split_ifs <;> omega
  have hstep : ∀ pre d post c, luna :: denoms = pre ++ d :: post → RewardsBounded pre c →
      ∃ c', addPeriodReward K s ratio c d = .ok c' ∧ RewardsBounded (pre ++ [d]) c' := by
    intro pre d post c hl hc
    refine hc.round hpool h0 h1 ?_
    have h2 := hcount d
    rw [hl, List.count_append, List.count_cons_self] at h2
    omega
  have hempty : RewardsBounded [] ∅ := fun d => by
    rw [Amounts.amountOf_empty]
    exact ⟨le_rfl, by simp⟩
  have hstep' : ∀ pre d post c c', luna :: denoms = pre ++ d :: post → RewardsBounded pre c →
      addPeriodReward K s ratio c d = .ok c' → RewardsBounded (pre ++ [d]) c' := by
    intro pre d post c c' hl hc hcd
    obtain ⟨c'', hc'', hb⟩ := hstep pre d post c hl hc
    exact Except.ok.inj (hc''.symm.trans hcd) ▸ hb
  cases hr : (luna :: denoms).foldlM (addPeriodReward K s ratio) ∅ with
  | ok c =>
      have hb := foldlM_induction RewardsBounded hr hempty hstep'
      refine ⟨c, rfl, fun d => ⟨(hb d).1, fits_of_le (hb d).1 ((hb d).2.trans ?_)⟩⟩
      have h2 : ((luna :: denoms).count d : ℤ) ≤ 2 := by exact_mod_cast hcount d
      calc ((luna :: denoms).count d : ℤ) * (2 ^ 254 * 10 ^ 18)
          ≤ 2 * (2 ^ 254 * 10 ^ 18) := mul_le_mul_of_nonneg_right h2 (by positivity)
        _ = 2 ^ 255 * 10 ^ 18 := by norm_num
  | error e =>
      obtain ⟨pre, d, post, c, hl, hc, he⟩ :=
        exists_of_foldlM_error RewardsBounded hr hempty hstep'
      obtain ⟨c', hc', -⟩ := hstep pre d post c hl hc
      exact absurd (hc'.symm.trans he) (by simp)

/-- The claims of a tally have nonnegative weights. -/
def NonnegWeights (claims : ClaimMap) : Prop :=
  ∀ (k : String) (c : Claim), claims[k]? = some c → 0 ≤ c.weight

/-- A part of a whole lies in the unit interval. -/
lemma exists_share (weight sum : ℤ) (h0 : 0 ≤ weight) (hle : weight ≤ sum) (hsum : sum ≠ 0) :
    ∃ x, (Fixed.ofInt weight : Dec).quoInt sum = .ok x ∧ 0 ≤ x.raw ∧ x.raw ≤ 10 ^ 18 := by
  have hpos : 0 < sum := by omega
  refine ⟨_, Fixed.quoInt_eq_ok hsum, ?_⟩
  show 0 ≤ (weight * (10 ^ 18 : ℕ)).tdiv sum ∧ (weight * (10 ^ 18 : ℕ)).tdiv sum ≤ 10 ^ 18
  rw [Int.tdiv_eq_ediv_of_nonneg (by positivity)]
  refine ⟨Int.ediv_nonneg (by positivity) hpos.le, Int.ediv_le_of_le_mul hpos ?_⟩
  push_cast
  nlinarith

lemma rewardOf_ne_overflow {c : DecCoins} (hc : AmountsFit c) {sum : ℤ} (hsum : sum ≠ 0)
    {x : String × Claim} (h0 : 0 ≤ x.2.weight) (hle : x.2.weight ≤ sum) :
    rewardOf c sum x ≠ .error (.panic .overflow) := by
  obtain ⟨share, hshare, hs0, hs1⟩ := exists_share _ _ h0 hle hsum
  obtain ⟨c', hc', hfit⟩ := exists_mulDec hc hs0 hs1
  rw [rewardOf, hshare, ok_bind, hc', ok_bind]
  exact truncateDecimal_ne_overflow hfit

/-- The weight of a winner is a part of the sum of all weights. -/
lemma NonnegWeights.le_weightSum {claims : ClaimMap} (h : NonnegWeights claims)
    {x : String × Claim} (hx : x ∈ claims.toList) :
    0 ≤ x.2.weight ∧ x.2.weight ≤ weightSum claims := by
  have hnn : ∀ y ∈ claims.toList.map fun e => e.2.weight, 0 ≤ y := by
    intro y hy
    obtain ⟨⟨k, c⟩, he, rfl⟩ := List.mem_map.mp hy
    exact h k c (ExtTreeMap.mem_toList_iff_getElem?_eq_some.mp he)
  have hweight : x.2.weight ∈ claims.toList.map fun e => e.2.weight :=
    List.mem_map_of_mem hx
  exact ⟨hnn _ hweight, List.single_le_sum hnn _ hweight⟩

/-- **The settlement of a period does not overflow** with a bounded reward pool. -/
theorem settlePeriod_ne_overflow {K : Keepers σ} {H : Host} {S : Schedule} {height : ℕ}
    {w : World σ} (hK : KeepersLawful K H S height w) (hp : ValidParams w.store.params)
    (hwindow : w.store.params.rewardDistributionWindow.toNat < 2 ^ 63)
    (hpool : PoolBounded K w.ext) {t : Tallied} (ht : tallyVotes K H S w = .ok t)
    (hweights : NonnegWeights t.claims) :
    settlePeriod K S height w t ≠ .error (.panic .overflow) := by
  have hpos := hp.votePeriod_pos
  have hle := hp.window_le
  have hlawful := hK.rewards t ht
  rw [toInt64_of_lt hwindow, toInt64_of_lt (hle.trans_lt hwindow)] at hlawful
  obtain ⟨ratio, hratio, hr0, hr1⟩ := exists_share w.store.params.votePeriod.toNat
    w.store.params.rewardDistributionWindow.toNat (by omega) (by omega) (by omega)
  obtain ⟨c, hc, hfit⟩ := exists_periodRewards hpool hr0 hr1
    (S.rangeTargets.nodup_visit_keys t.voteTargets) "uluna"
  have hperiod : periodRewards K S w.ext w.store.params.votePeriod.toNat
      w.store.params.rewardDistributionWindow.toNat t.voteTargets = .ok c := by
    rw [periodRewards, hratio, ok_bind]
    exact hc
  refine bind_ne_error ?_ fun ext _ =>
    bind_ne_error (applyWhitelist_ne_arithmetic K (Or.inr rfl) ext _ _ _) fun _ _ => by simp
  rw [toInt64_of_lt hwindow, toInt64_of_lt (hle.trans_lt hwindow)]
  refine rewardBallotWinners_ne_arithmetic (Or.inr rfl) hlawful (by simp [hperiod]) ?_
  intro rewards hrewards hsum x hx
  obtain rfl := Except.ok.inj (hperiod.symm.trans hrewards)
  obtain ⟨h0, hxle⟩ := hweights.le_weightSum (S.rangeWinners.perm _ |>.mem_iff.mp hx)
  exact rewardOf_ne_overflow hfit hsum h0 hxle

/-! ### Slashing -/

lemma consensusPower_ne_arithmetic (v : Validator) {reduction : ℤ} (hr : 0 < reduction) {e : Fault}
    (he : Arithmetic e) : v.consensusPower reduction ≠ .error e := by
  rw [Validator.consensusPower]
  split_ifs
  · rw [tokensToConsensusPower, if_neg hr.ne', int64]
    split_ifs
    · simp
    · exact he.ne_panic (by simp) (by simp)
  · simp

/-- A judgement fails in its arithmetic only where an operator is slashed and jailed. -/
lemma judgeMissCounter_ne_arithmetic {K : Keepers σ} {e : Fault} (he : Arithmetic e) {height : ℕ}
    {p : Params} (hp : ValidParams p) (hn : votePeriodsPerWindow p ≠ 0) {s : σ} {x : ValAddress × ℕ}
    (hslash : BelowMinimum p x.2 → isActive K s x.1 = true →
      slashOperator K height p s x.1 ≠ .error e) :
    judgeMissCounter K height p (votePeriodsPerWindow p % 2 ^ 64).toNat s x ≠ .error e := by
  rw [judgeMissCounter_eq K height hp hn]
  split_ifs with hbelow hnone hactive
  · exact he.ne_panic (by simp) (by simp)
  · exact hslash hbelow hactive
  · simp
  · simp

lemma votePeriodsPerWindow_of_lt {p : Params} (hp : ValidParams p)
    (hw : p.slashWindow.toNat < 2 ^ 63) :
    votePeriodsPerWindow p = (p.slashWindow.toNat / p.votePeriod.toNat : ℕ) := by
  have hle := hp.slashWindow_le
  rw [votePeriodsPerWindow, toInt64_of_lt hw, toInt64_of_lt (hle.trans_lt hw)]
  exact Int.ofNat_tdiv _ _

/-- **The end of a slash window does not fail in its arithmetic.** -/
theorem closeSlashWindow_ne_arithmetic {K : Keepers σ} {e : Fault} (he : Arithmetic e) {height : ℕ}
    (hh : height + 1 < 2 ^ 63) {w : World σ} (hp : ValidParams w.store.params)
    (hK : IsPeriodLast height w.store.params.slashWindow.toNat → SlashCallsLawful K height w) :
    closeSlashWindow K height w.store.params.slashWindow.toNat w ≠ .error e := by
  have hpos := hp.votePeriod_pos
  have hle := hp.slashWindow_le
  have hslash : w.store.params.slashWindow.toNat ≠ 0 := by omega
  refine bind_ne_error (by simp [isPeriodLastBlock, hslash]) fun last hlast => ?_
  obtain ⟨-, rfl⟩ := isPeriodLastBlock_eq_ok.mp hlast
  split_ifs with hd
  · -- the window ends here, so it is at most the height
    have hlast := of_decide_eq_true hd
    have hmod : (height + 1) % 2 ^ 64 = height + 1 := Nat.mod_eq_of_lt (by omega)
    have hdvd := hlast.2
    rw [hmod] at hdvd
    have hwle := Nat.le_of_dvd (by omega) (Nat.dvd_of_mod_eq_zero hdvd)
    have hcount : 0 < w.store.params.slashWindow.toNat / w.store.params.votePeriod.toNat :=
      Nat.div_pos hle hpos
    have hn : votePeriodsPerWindow w.store.params ≠ 0 := by
      rw [votePeriodsPerWindow_of_lt hp (by omega)]
      exact Int.natCast_ne_zero.mpr hcount.ne'
    rw [slashAndReset_eq_foldlM hp]
    refine bind_ne_error (foldlM_ne_error_of_rounds fun before x after s hl hs => ?_)
      fun _ _ => by simp
    exact judgeMissCounter_ne_arithmetic he hp hn fun hbelow hactive =>
      hK hlast before x after s hl hs hbelow hactive e he
  · simp

/-- The slash window that ends with the period does not fail in its arithmetic either. -/
lemma closeSlashWindow_settled_ne_arithmetic {K : Keepers σ} {H : Host} {S : Schedule} {e : Fault}
    (he : Arithmetic e) {height : ℕ} {w w' : World σ} (hK : KeepersLawful K H S height w)
    (hh : height + 1 < 2 ^ 63) (hp : ValidParams w.store.params) {t : Tallied}
    (ht : tallyVotes K H S w = .ok t) (hw' : settlePeriod K S height w t = .ok w') :
    closeSlashWindow K height w.store.params.slashWindow.toNat w' ≠ .error e := by
  obtain ⟨_, _, _, -, hstore⟩ := settlePeriod_eq_ok hw'
  have hparams : w'.store.params = w.store.params := by rw [hstore]
  have hlawful := hK.slashes t w' ht hw'
  rw [← hparams] at hp hlawful ⊢
  exact closeSlashWindow_ne_arithmetic he hh hp hlawful

end ColumbusCore.Oracle
