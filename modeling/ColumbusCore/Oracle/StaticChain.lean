import ColumbusCore.Oracle.Settlement

/-!
A chain on which only the oracle module moves, to run the model on.

The other modules are a fixed list of validators in the order of their power
(`staticKeepers`), and the address codec, the hash and the coin parser are tables
(`tableHost`). Both satisfy what the development asks of them, for every list and every table
with nonnegative entries: `keepersLawful_static`, `stakingLawful_static`,
`parsesNonneg_tableHost`, `sqrtBounded_tableHost`. Where rewards move, `accountKeepers` keeps the
accounts of the oracle and the distribution module, and what each validator was allocated.
-/

namespace ColumbusCore.Oracle

open Go
open Std (ExtTreeMap)

/-! ### Keepers -/

/-- `strings.ToUpper` of a text of ASCII. -/
def asciiUpper (s : GoString) : GoString :=
  s.map fun b => if 97 ≤ b ∧ b ≤ 122 then b - 32 else b

/-- Staking, distribution and bank that stand still: no balances, no rewards, all denoms
registered. -/
def staticKeepers : Keepers (List Validator) where
  validator s a := s.find? fun v => v.operator = a
  totalBondedTokens s := ((s.filter fun v => v.bonded).map Validator.tokens).sum
  slash s _ _ _ _ := .ok s
  jail s _ := .ok s
  validatorsByPower s := s.map Validator.operator
  maxValidators _ := 130
  powerReduction _ := 10 ^ 6
  allocateTokensToValidator s _ _ := .ok s
  getBalance _ _ _ := 0
  sendCoinsFromModuleToModule s _ _ _ := .ok s
  getDenomMetaData _ d := some ⟨[], [], goString d, goString d, goString d, goString d⟩
  setDenomMetaData s _ := s
  toUpper := asciiUpper

lemma slashOperator_static_ne {e : Fault} (he : Arithmetic e) (height : ℕ) (p : Params)
    (s : List Validator) (a : ValAddress) : slashOperator staticKeepers height p s a ≠ .error e := by
  rw [slashOperator]
  cases staticKeepers.validator s a with
  | none => exact he.ne_panic (by simp) (by simp)
  | some v =>
      have hr : 0 < staticKeepers.powerReduction s := by norm_num [staticKeepers]
      cases hcons : v.consAddr with
      | none =>
          simp only [hcons]
          exact he.ne_panic (by simp) (by simp)
      | some consAddr =>
          simp only [hcons]
          refine bind_ne_error (consensusPower_ne_arithmetic v hr he) fun _ _ => ?_
          simp [staticKeepers]

lemma keepersLawful_static (H : Host) (S : Schedule) (height : ℕ) (w : World (List Validator)) :
    KeepersLawful staticKeepers H S height w where
  rewards _ _ := { allocate_ne := by simp [staticKeepers], send_ne := by simp [staticKeepers] }
  slashes _ w' _ _ _ := fun _ e _ s _ _ _ _ _ hf =>
    slashOperator_static_ne hf height w'.store.params s e.1

/-- Validators with nonnegative tokens, in all less than `2 ^ 63` units of power. -/
def StaticLawful (s : List Validator) : Prop :=
  (∀ v ∈ s, 0 ≤ v.tokens) ∧ (s.map Validator.tokens).sum < 2 ^ 63 * 10 ^ 6

instance (s : List Validator) : Decidable (StaticLawful s) := inferInstanceAs (Decidable (_ ∧ _))

lemma stakingLawful_static {s : List Validator} (h : StaticLawful s) :
    StakingLawful staticKeepers s := by
  obtain ⟨hn, hsum⟩ := h
  have hnn : ∀ x ∈ s.map Validator.tokens, 0 ≤ x := by
    intro x hx
    obtain ⟨v, hv, rfl⟩ := List.mem_map.mp hx
    exact hn v hv
  have hfind : ∀ a v, staticKeepers.validator s a = some v → v ∈ s := fun a v hv =>
    List.mem_of_find?_eq_some hv
  have hsub : (s.filter fun v => v.bonded).map Validator.tokens |>.Sublist (s.map Validator.tokens) :=
    List.filter_sublist.map _
  have hbonded : staticKeepers.totalBondedTokens s ≤ (s.map Validator.tokens).sum :=
    hsub.sum_le_sum hnn
  refine ⟨by norm_num [staticKeepers], fun a ha => ?_, fun a v hv => hn v (hfind a v hv),
    fun a v hv => ?_, ?_, ?_⟩
  · obtain ⟨v, hv, rfl⟩ := List.mem_map.mp ha
    exact Option.isSome_iff_exists.mp (List.find?_isSome.mpr ⟨v, hv, by simp⟩)
  · have hle : v.tokens ≤ (s.map Validator.tokens).sum :=
      List.single_le_sum hnn _ (List.mem_map.mpr ⟨v, hfind a v hv, rfl⟩)
    show v.tokens / 10 ^ 6 < 2 ^ 63
    omega
  · exact List.sum_nonneg fun x hx => hnn x (hsub.subset hx)
  · show staticKeepers.totalBondedTokens s / 10 ^ 6 < 2 ^ 63
    omega

lemma poolBounded_static (s : List Validator) : PoolBounded staticKeepers s := fun _ =>
  ⟨le_rfl, by norm_num [staticKeepers]⟩

/-! ### Accounts -/

/-- The validators, the two module accounts, and what each validator was allocated, in units of
the last decimal. -/
structure Accounts where
  validators : List Validator
  oracle : Coins
  distribution : Coins
  allocated : ExtTreeMap ValAddress Coins

/-- Decimal coins in units of the last decimal. -/
def rawCoins (c : DecCoins) : Coins := CoinSet.ofList (c.entries.map fun e => (e.1, e.2.raw))

/-- Staking stands still; bank and distribution keep accounts. -/
def accountKeepers : Keepers Accounts where
  validator s a := s.validators.find? fun v => v.operator = a
  totalBondedTokens s := ((s.validators.filter fun v => v.bonded).map Validator.tokens).sum
  slash s _ _ _ _ := .ok s
  jail s _ := .ok s
  validatorsByPower s := s.validators.map Validator.operator
  maxValidators _ := 130
  powerReduction _ := 10 ^ 6
  allocateTokensToValidator s v c :=
    .ok { s with
      allocated := s.allocated.insert v.operator
        ((s.allocated.getD v.operator ∅).add (rawCoins c)) }
  getBalance s module d :=
    if module = "oracle" then s.oracle.amountOf d else s.distribution.amountOf d
  sendCoinsFromModuleToModule s _ _ c :=
    match s.oracle.sub c with
    | .ok rest => .ok { s with oracle := rest, distribution := s.distribution.add c }
    | .error _ => failed "insufficient funds"
  getDenomMetaData _ d := some ⟨[], [], goString d, goString d, goString d, goString d⟩
  setDenomMetaData s _ := s
  toUpper := asciiUpper

/-! ### Tables -/

/-- Addresses with their two bech32 forms, texts with their truncated hash, and decimal coins. -/
structure Tables where
  accounts : List (ValAddress × String × String)
  hashes : List (String × String)
  coins : List (String × Denom × ℕ)

/-- The host that reads its tables. The square root is that of ballots without spread. -/
def tableHost (T : Tables) : Host where
  valString a := (T.accounts.find? fun e => e.1 = a).elim "" fun e => e.2.1
  valAddressFromBech32 s := (T.accounts.find? fun e => e.2.1 = s).map Prod.fst
  accAddressFromBech32 s := (T.accounts.find? fun e => e.2.2 = s).map Prod.fst
  truncatedHash s := (T.hashes.find? fun e => e.1 = s).elim "" Prod.snd
  parseDecCoin s := (T.coins.find? fun e => e.1 = s).map fun e => (e.2.1, ⟨e.2.2⟩)
  floatSqrt _ := 0

lemma parsesNonneg_tableHost (T : Tables) : (tableHost T).ParsesNonneg := by
  intro s d x h
  obtain ⟨e, -, he⟩ := Option.map_eq_some_iff.mp h
  obtain ⟨-, rfl⟩ := Prod.ext_iff.mp he
  exact Int.natCast_nonneg _

lemma sqrtBounded_tableHost (T : Tables) : (tableHost T).SqrtBounded := fun _ =>
  ⟨le_rfl, by show (0 : ℤ).natAbs < _; simp⟩

/-- Two validators of power fifty each. -/
def twoValidators : List Validator :=
  [⟨"validator-a-of-terra", 50 * 10 ^ 6, true, false, some "a"⟩,
    ⟨"validator-b-of-terra", 50 * 10 ^ 6, true, false, some "b"⟩]

lemma tokens_nonneg_twoValidators {a : ValAddress} {v : Validator}
    (hv : twoValidators.find? (fun v => decide (v.operator = a)) = some v) : 0 ≤ v.tokens := by
  have hall : ∀ v ∈ twoValidators, 0 ≤ v.tokens := by decide
  exact hall v (List.mem_of_find?_eq_some hv)

/-- Their addresses, as account and as operator. -/
def twoAccounts : List (ValAddress × String × String) :=
  [("validator-a-of-terra", "terravaloper1weskc6tyv96x7u3dvykk7e3dw3jhyunpwz6935",
      "terra1weskc6tyv96x7u3dvykk7e3dw3jhyunpwdkcp8"),
    ("validator-b-of-terra", "terravaloper1weskc6tyv96x7u3dvgkk7e3dw3jhyunpdv73a5",
      "terra1weskc6tyv96x7u3dvgkk7e3dw3jhyunpdrjvd8")]

/-! ### Votes -/

/-- A vote of a validator feeding for itself: its addresses, and the text of its rates. -/
structure SelfVote where
  account : String
  operator : String
  rates : String

/-- The prevote of a vote with salt `1`. -/
def SelfVote.prevote (T : Tables) (v : SelfVote) : MsgAggregateExchangeRatePrevote where
  hash := (tableHost T).truncatedHash ("1:" ++ v.rates ++ ":" ++ v.operator)
  feeder := v.account
  validator := v.operator

/-- The vote itself. -/
def SelfVote.vote (v : SelfVote) : MsgAggregateExchangeRateVote where
  salt := "1"
  exchangeRates := v.rates
  feeder := v.account
  validator := v.operator

/-- One vote of each of the two validators. -/
def twoVotes (a b : String) : List SelfVote :=
  [⟨"terra1weskc6tyv96x7u3dvykk7e3dw3jhyunpwdkcp8",
      "terravaloper1weskc6tyv96x7u3dvykk7e3dw3jhyunpwz6935", a⟩,
    ⟨"terra1weskc6tyv96x7u3dvgkk7e3dw3jhyunpdrjvd8",
      "terravaloper1weskc6tyv96x7u3dvgkk7e3dw3jhyunpdv73a5", b⟩]

/-- The default parameters with a vote period of one block. -/
def blockParams : Params := { defaultParams with votePeriod := 1 }

/-- A store that has not seen a vote, with the whitelist as vote targets. -/
def emptyStore (p : Params) : Store where
  params := p
  exchangeRates := ∅
  feederDelegations := ∅
  missCounters := ∅
  prevotes := ∅
  votes := ∅
  tobinTaxes := whitelistTargets p.whitelist

/-- The chain after a first round of voting, with prevotes at height one and votes at two. -/
def afterVotes (T : Tables) (p : Params) (validators : List Validator) (votes : List SelfVote) :
    Outcome (World (List Validator)) :=
  votingRound staticKeepers (tableHost T) Schedule.listed 1 (votes.map (SelfVote.prevote T))
    (votes.map SelfVote.vote) ⟨emptyStore p, validators⟩

/-- The state after a round of voting is reachable. -/
lemma reachable_afterVotes {T : Tables} {p : Params} {validators : List Validator}
    {votes : List SelfVote} {w : World (List Validator)} (hp : p.validate = .ok ())
    (h : afterVotes T p validators votes = .ok w) :
    Reachable staticKeepers (tableHost T) (2, w) :=
  Reachable.votingRound (.initial ⟨hp, rfl, rfl⟩) h

end ColumbusCore.Oracle
