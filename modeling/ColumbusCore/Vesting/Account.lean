import ColumbusCore.Vesting.Schedule

/-!
The lazy graded vesting account (`x/vesting/types/vesting_account.go`), with the parts of the SDK's
base account and base vesting account it calls.

* `LazyGradedVestingAccount.validate_eq_ok`: the schedules of a validated account are valid;
* `getVestedCoins_eq_ok_iff`: **the vested coins, denom by denom**;
* `getVestedCoins_mono`: **vesting never runs backwards**;
* `trackDelegation_eq_error`: the tracking of a delegation does not produce a negative coin.
-/

namespace ColumbusCore.Vesting

open Go Rounding

/-! ### The account -/

/-- `BaseAccount`: the text of the address and, where a key is set, the address of the key. -/
structure BaseAccount where
  address : String
  pubKey : Option AccAddress

/-- `BaseAccount.Validate`: an account with a key has the address of the key. -/
def BaseAccount.validate (accAddressFromBech32 : String → Option AccAddress) (acc : BaseAccount) :
    Outcome Unit :=
  if acc.address = "" then pure ()
  else
    match acc.pubKey with
    | none => pure ()
    | some key =>
        match accAddressFromBech32 acc.address with
        | none => failed "decoding bech32 failed"
        | some addr => failIf (key ≠ addr) "account address and pubkey address do not match"

/-- `LazyGradedVestingAccount`, with the fields of the base vesting account. -/
structure LazyGradedVestingAccount where
  baseAccount : BaseAccount
  originalVesting : Coins
  delegatedFree : Coins
  delegatedVesting : Coins
  vestingSchedules : List VestingSchedule

/-- `GetVestingSchedule`. -/
def LazyGradedVestingAccount.getVestingSchedule (lgva : LazyGradedVestingAccount) (denom : Denom) :
    Option VestingSchedule :=
  lgva.vestingSchedules.find? fun vs => decide (vs.denom = denom)

/-- One round of `Validate`, with the denoms seen. -/
def checkVestingSchedule (seen : List Denom) (vs : VestingSchedule) : Outcome (List Denom) := do
  failIf (vs.denom ∈ seen) ("cannot have multiple vesting schedules for " ++ vs.denom)
  vs.validate
  pure (vs.denom :: seen)

/-- `LazyGradedVestingAccount.Validate`. -/
def LazyGradedVestingAccount.validate (accAddressFromBech32 : String → Option AccAddress)
    (lgva : LazyGradedVestingAccount) : Outcome Unit := do
  let _ ← lgva.vestingSchedules.foldlM checkVestingSchedule []
  failIf (¬ lgva.originalVesting.IsAllGTE lgva.delegatedVesting)
    "delegated vesting amount cannot be greater than the original vesting amount"
  lgva.baseAccount.validate accAddressFromBech32

/-- One round of `GetVestedCoins`. A coin without a schedule has vested. -/
def addVestedCoin (lgva : LazyGradedVestingAccount) (blockTime : Int64) (vestedCoins : Coins)
    (ovc : Coin) : Outcome Coins :=
  match lgva.getVestingSchedule ovc.1 with
  | some vs => do
      let vestedRatio ← vs.getVestedRatio blockTime
      let product ← (Fixed.ofInt ovc.2 : Dec).mul vestedRatio
      let vestedAmt ← product.roundInt
      if vestedAmt = 0 then pure vestedCoins
      else do
        let coin ← newCoin ovc.1 vestedAmt
        pure (vestedCoins.addCoin coin)
  | none => do
      let coin ← newCoin ovc.1 ovc.2
      pure (vestedCoins.addCoin coin)

/-- `GetVestedCoins`. -/
def LazyGradedVestingAccount.getVestedCoins (lgva : LazyGradedVestingAccount) (blockTime : Int64) :
    Outcome Coins :=
  lgva.originalVesting.entries.foldlM (addVestedCoin lgva blockTime) ∅

/-- `GetVestingCoins`. -/
def LazyGradedVestingAccount.getVestingCoins (lgva : LazyGradedVestingAccount) (blockTime : Int64) :
    Outcome Coins := do
  let vestedCoins ← lgva.getVestedCoins blockTime
  lgva.originalVesting.sub vestedCoins

/-- `LockedCoins`, with `LockedCoinsFromVesting` of the base vesting account. -/
def LazyGradedVestingAccount.lockedCoins (lgva : LazyGradedVestingAccount) (blockTime : Int64) :
    Outcome Coins := do
  let vestingCoins ← lgva.getVestingCoins blockTime
  let delegated ← vestingCoins.min lgva.delegatedVesting
  vestingCoins.sub delegated

/-- A nonzero amount is added to the delegated vesting coins. -/
def delegateVesting (denom : Denom) (x : ℤ) (lgva : LazyGradedVestingAccount) :
    Outcome LazyGradedVestingAccount :=
  if x = 0 then pure lgva
  else do
    let xCoin ← newCoin denom x
    pure { lgva with delegatedVesting := lgva.delegatedVesting.addCoin xCoin }

/-- A nonzero amount is added to the delegated free coins. -/
def delegateFree (denom : Denom) (y : ℤ) (lgva : LazyGradedVestingAccount) :
    Outcome LazyGradedVestingAccount :=
  if y = 0 then pure lgva
  else do
    let yCoin ← newCoin denom y
    pure { lgva with delegatedFree := lgva.delegatedFree.addCoin yCoin }

/-- The part of a delegation that is taken from the vesting coins, `x` of the source. -/
def fromVesting (vestingAmt delVestingAmt amount : ℤ) : ℤ :=
  min (max (vestingAmt - delVestingAmt) 0) amount

/-- One round of `TrackDelegation` of the base vesting account: vesting coins are delegated first. -/
def trackCoin (balance vestingCoins : Coins) (lgva : LazyGradedVestingAccount) (coin : Coin) :
    Outcome LazyGradedVestingAccount :=
  let x := fromVesting (vestingCoins.amountOf coin.1) (lgva.delegatedVesting.amountOf coin.1) coin.2
  if coin.2 = 0 ∨ balance.amountOf coin.1 < coin.2 then
    panicked (.raised "delegation attempt with zero coins or insufficient funds")
  else delegateVesting coin.1 x lgva >>= delegateFree coin.1 (coin.2 - x)

/-- `TrackDelegation`. -/
def LazyGradedVestingAccount.trackDelegation (lgva : LazyGradedVestingAccount) (blockTime : Int64)
    (balance amount : Coins) : Outcome LazyGradedVestingAccount := do
  let vestingCoins ← lgva.getVestingCoins blockTime
  amount.entries.foldlM (trackCoin balance vestingCoins) lgva

/-! ### Validated accounts -/

/-- The schedules of the account are valid. -/
def LazyGradedVestingAccount.Valid (lgva : LazyGradedVestingAccount) : Prop :=
  ∀ vs ∈ lgva.vestingSchedules, vs.Valid

lemma LazyGradedVestingAccount.validate_eq_ok {B : String → Option AccAddress}
    {lgva : LazyGradedVestingAccount} (h : lgva.validate B = .ok ()) : lgva.Valid := by
  obtain ⟨seen, hloop, -⟩ := bind_eq_ok.mp h
  intro vs hvs
  obtain ⟨c, c', hround⟩ := exists_round_of_foldlM hloop vs hvs
  obtain ⟨_, -, hround⟩ := bind_eq_ok.mp hround
  obtain ⟨_, hvalid, -⟩ := bind_eq_ok.mp hround
  exact VestingSchedule.validate_eq_ok hvalid

section Vested

variable {lgva : LazyGradedVestingAccount} (hv : lgva.Valid) (blockTime : Int64)

/-- The vested part of an amount of a denom. -/
def vestedOf (lgva : LazyGradedVestingAccount) (blockTime : Int64) (coin : Coin) : Outcome ℤ :=
  match lgva.getVestingSchedule coin.1 with
  | some vs => do
      let vestedRatio ← vs.getVestedRatio blockTime
      let product ← (Fixed.ofInt coin.2 : Dec).mul vestedRatio
      let vestedAmt ← product.roundInt
      if vestedAmt < 0 then panicked .negativeAmount else .ok vestedAmt
  | none => if coin.2 < 0 then panicked .negativeAmount else .ok coin.2

lemma addVestedCoin_eq (vested : Coins) (coin : Coin) :
    addVestedCoin lgva blockTime vested coin
      = vestedOf lgva blockTime coin >>= fun y => .ok (vested.addCoin (coin.1, y)) := by
  rw [addVestedCoin, vestedOf]
  cases lgva.getVestingSchedule coin.1 with
  | none =>
      simp only [newCoin]
      split_ifs <;> rfl
  | some vs =>
      simp only [bind_assoc]
      refine congrArg _ (funext fun r => congrArg _ (funext fun p => congrArg _ (funext fun y => ?_)))
      exact CoinSet.addCoin_unless_zero vested coin.1 y

include hv

lemma getVestingSchedule_valid {d : Denom} {vs : VestingSchedule}
    (h : lgva.getVestingSchedule d = some vs) : vs.Valid :=
  hv vs (List.mem_of_find?_eq_some h)

/-- The vested part of an amount: all of it without a schedule, and otherwise the amount times the
vested ratio, rounded. -/
lemma vestedOf_eq_ok_iff {d : Denom} {x y : ℤ} :
    vestedOf lgva blockTime (d, x) = .ok y ↔ 0 ≤ y
      ∧ (lgva.getVestingSchedule d = none → y = x)
      ∧ ∀ vs, lgva.getVestingSchedule d = some vs →
        Fixed.Fits decFormat (x * (vs.schedules.map (vestedRaw blockTime)).sum)
          ∧ y = halfEven (x * (vs.schedules.map (vestedRaw blockTime)).sum) decFormat.scale := by
  rw [vestedOf]
  cases hvs : lgva.getVestingSchedule d with
  | none =>
      dsimp only
      split_ifs with hneg
      · simp
        omega
      · simp
        omega
  | some vs =>
      dsimp only
      rw [getVestedRatio_eq (getVestingSchedule_valid hv hvs), ok_bind, Fixed.ofInt_mul]
      dsimp only
      by_cases hfit : Fixed.Fits decFormat (x * (vs.schedules.map (vestedRaw blockTime)).sum)
      · rw [Fixed.checked_eq_ok_iff.mpr ⟨hfit, rfl⟩, ok_bind, roundInt_eq_ok hfit, ok_bind]
        dsimp only
        split_ifs with hneg
        · simp
          omega
        · simp [hfit]
          omega
      · refine iff_of_false (fun h => ?_) fun h => hfit (h.2.2 vs rfl).1
        obtain ⟨_, h, -⟩ := bind_eq_ok.mp h
        exact hfit (Fixed.checked_eq_ok_iff.mp h).1

/-- **The vested coins, denom by denom.** -/
theorem getVestedCoins_eq_ok_iff {c : Coins} :
    lgva.getVestedCoins blockTime = .ok c
      ↔ ∀ d, vestedOf lgva blockTime (d, lgva.originalVesting.amountOf d) = .ok (c.amountOf d) := by
  refine CoinSet.coinwise_eq_ok_iff (fun acc e _ => addVestedCoin_eq blockTime acc e) fun d => ?_
  refine (vestedOf_eq_ok_iff hv blockTime).mpr ⟨le_rfl, fun _ => rfl, fun vs _ => ?_⟩
  rw [zero_mul]
  exact ⟨fits_zero, rfl⟩

/-- The vested part of an amount does not fall. A negative amount, which the validation does not
exclude, has a vested part only while it rounds to nothing. -/
lemma exists_vestedOf_le {blockTime' : Int64} (htime : blockTime ≤ blockTime') {d : Denom} {x y : ℤ}
    (h : vestedOf lgva blockTime' (d, x) = .ok y) :
    ∃ y', vestedOf lgva blockTime (d, x) = .ok y' ∧ y' ≤ y := by
  obtain ⟨hnn, hnone, hsome⟩ := (vestedOf_eq_ok_iff hv blockTime').mp h
  cases hvs : lgva.getVestingSchedule d with
  | none =>
      refine ⟨y, (vestedOf_eq_ok_iff hv blockTime).mpr ⟨hnn, hnone, fun vs hvs' => ?_⟩, le_rfl⟩
      exact absurd (hvs.symm.trans hvs') (by simp)
  | some vs =>
      obtain ⟨hfit, rfl⟩ := hsome vs hvs
      have hvalid := getVestingSchedule_valid hv hvs
      have hsum := sum_vestedRaw_mono hvalid blockTime htime
      have hsum0 := (sum_vestedRaw_bounds hvalid blockTime).1
      have hmono := halfEven_monotone decFormat.scale_pos
      set before := (vs.schedules.map (vestedRaw blockTime)).sum
      set after := (vs.schedules.map (vestedRaw blockTime')).sum
      have hvested : Fixed.Fits decFormat (x * before) → 0 ≤ halfEven (x * before) decFormat.scale →
          vestedOf lgva blockTime (d, x) = .ok (halfEven (x * before) decFormat.scale) := by
        intro hfit hnn
        refine (vestedOf_eq_ok_iff hv blockTime).mpr ⟨hnn, fun hvs' => ?_, fun vs' hvs' => ?_⟩
        · exact absurd (hvs.symm.trans hvs') (by simp)
        · obtain rfl := Option.some.inj (hvs.symm.trans hvs')
          exact ⟨hfit, rfl⟩
      rcases le_or_gt 0 x with hx | hx
      · have hle : x * before ≤ x * after := mul_le_mul_of_nonneg_left hsum hx
        have h0 : 0 ≤ x * before := mul_nonneg hx hsum0
        exact ⟨_, hvested (hfit.of_le h0 hle) (halfEven_nonneg h0), hmono hle⟩
      · have hle : x * after ≤ x * before := mul_le_mul_of_nonpos_left hsum hx.le
        have h0 : x * before ≤ 0 := mul_nonpos_of_nonpos_of_nonneg hx.le hsum0
        have hfit' : Fixed.Fits decFormat (x * before) := by
          rw [Fixed.Fits] at hfit ⊢
          omega
        have hzero : halfEven (x * before) decFormat.scale ≤ 0 := hmono h0
        exact ⟨_, hvested hfit' (hnn.trans (hmono hle)), hzero.trans hnn⟩

end Vested

/-- **Vesting never runs backwards.** Where the vested coins of a validated account are defined at a
time they are defined at every time before, and no denom had vested more. -/
theorem getVestedCoins_mono {B : String → Option AccAddress} {lgva : LazyGradedVestingAccount}
    (hvalid : lgva.validate B = .ok ()) {blockTime blockTime' : Int64} (htime : blockTime ≤ blockTime')
    {vested' : Coins} (h : lgva.getVestedCoins blockTime' = .ok vested') :
    ∃ vested, lgva.getVestedCoins blockTime = .ok vested
      ∧ ∀ d, vested.amountOf d ≤ vested'.amountOf d := by
  have hv := LazyGradedVestingAccount.validate_eq_ok hvalid
  have hpart : ∀ d, ∃ y', vestedOf lgva blockTime (d, lgva.originalVesting.amountOf d) = .ok y'
      ∧ y' ≤ vested'.amountOf d := fun d =>
    exists_vestedOf_le hv blockTime htime ((getVestedCoins_eq_ok_iff hv blockTime').mp h d)
  cases hrun : lgva.getVestedCoins blockTime with
  | error e =>
      obtain ⟨coin, hcoin, hfault⟩ := CoinSet.coinwise_eq_error
        (fun acc e _ => addVestedCoin_eq blockTime acc e) hrun
      obtain ⟨y', hy', -⟩ := hpart coin.1
      rw [(Amounts.mem_entries_iff.mp (show (coin.1, coin.2) ∈ _ from hcoin)).1] at hy'
      exact absurd (hfault.symm.trans hy') (by simp)
  | ok vested =>
      refine ⟨vested, rfl, fun d => ?_⟩
      obtain ⟨y', hy', hle⟩ := hpart d
      rwa [Except.ok.inj (((getVestedCoins_eq_ok_iff hv blockTime).mp hrun d).symm.trans hy')]

/-- Two schedules of a half each, the second within the first. -/
def overlappingHalves : LazyGradedVestingAccount where
  baseAccount := ⟨"", none⟩
  originalVesting := CoinSet.ofList [("uluna", 1001)]
  delegatedFree := ∅
  delegatedVesting := ∅
  vestingSchedules := [⟨"uluna", [⟨0, 300, newDecWithPrec 5 1⟩, ⟨100, 200, newDecWithPrec 5 1⟩]⟩]

/-- At two times within both. -/
theorem overlappingHalves_vest :
    ∃ vested vested', overlappingHalves.getVestedCoins 101 = .ok vested
      ∧ overlappingHalves.getVestedCoins 150 = .ok vested'
      ∧ (∀ d, vested.amountOf d ≤ vested'.amountOf d)
      ∧ vested.amountOf "uluna" = 174 ∧ vested'.amountOf "uluna" = 500 := by
  obtain ⟨_, hvalid, -⟩ := exists_of_returns (p := fun _ : Unit => true)
    (x := overlappingHalves.validate fun _ => none) (by decide +kernel)
  obtain ⟨vested', hvested', hamount'⟩ := exists_of_returns
    (p := fun c : Coins => c.amountOf "uluna" = 500)
    (x := overlappingHalves.getVestedCoins 150) (by decide +kernel)
  obtain ⟨vested, hvested, hamount⟩ := exists_of_returns
    (p := fun c : Coins => c.amountOf "uluna" = 174)
    (x := overlappingHalves.getVestedCoins 101) (by decide +kernel)
  obtain ⟨vested₁, hvested₁, hle⟩ := getVestedCoins_mono hvalid
    (show (101 : Int64) ≤ 150 by decide) hvested'
  obtain rfl := Except.ok.inj (hvested.symm.trans hvested₁)
  exact ⟨vested, vested', hvested, hvested', hle, of_decide_eq_true hamount,
    of_decide_eq_true hamount'⟩

/-! ### Delegations -/

/-- The panic of a delegation that is not covered. -/
def insufficientFunds : Fault :=
  .panic (.raised "delegation attempt with zero coins or insufficient funds")

/-- One round of a delegation of a positive amount splits it in two parts, neither negative, unless
it is not covered. -/
lemma trackCoin_eq_error {balance vesting : Coins} {lgva : LazyGradedVestingAccount} {coin : Coin}
    (hpos : 0 < coin.2) {e : Fault} (h : trackCoin balance vesting lgva coin = .error e) :
    e = insufficientFunds := by
  have hx : ∀ v dv, 0 ≤ fromVesting v dv coin.2 ∧ fromVesting v dv coin.2 ≤ coin.2 := fun v dv => by
    rw [fromVesting]
    omega
  have hnew : ∀ x : ℤ, 0 ≤ x → newCoin coin.1 x = .ok (coin.1, x) := fun x h0 =>
    newCoin_eq_ok_iff.mpr ⟨h0, rfl⟩
  rw [trackCoin] at h
  split_ifs at h
  · exact (Except.error.inj h).symm
  · rcases bind_eq_error.mp h with h | ⟨lgva', -, h⟩
    · rw [delegateVesting, hnew _ (hx _ _).1] at h
      split_ifs at h <;> simp at h
    · rw [delegateFree, hnew _ (sub_nonneg.mpr (hx _ _).2)] at h
      split_ifs at h <;> simp at h

/-- Where the vesting coins are defined, the only panic of the tracking of a delegation is that of
one that is not covered. -/
lemma trackDelegation_eq_error {lgva : LazyGradedVestingAccount} {blockTime : Int64}
    {vesting : Coins} (hvesting : lgva.getVestingCoins blockTime = .ok vesting) {balance : Coins}
    {amount : Coins} (hamount : amount.IsValid) {e : Fault}
    (h : lgva.trackDelegation blockTime balance amount = .error e) : e = insufficientFunds := by
  rw [LazyGradedVestingAccount.trackDelegation, hvesting, ok_bind] at h
  obtain ⟨pre, coin, post, acc, hl, -, he⟩ := exists_of_foldlM_error (fun _ _ => True) h trivial
    fun _ _ _ _ _ _ _ _ => trivial
  exact trackCoin_eq_error (hamount coin (by rw [hl]; simp)) he

end ColumbusCore.Vesting
