import ColumbusCore.Sdk

/-!
The data of the oracle module (`x/oracle/types`): votes and ballots, claims, parameters and the
store, and the interfaces of what the module calls but does not own.

* `Params.validate`: the parameter validation, with its messages;
* `Store`: the six prefixes of the oracle store and the parameters;
* `Keepers`: the staking, distribution and bank keepers the module expects, over a state `σ` of
  their own;
* `Host`: address codec, hash, decimal-coin parser and the square root taken in floating point;
* `Schedule`: the order in which maps are ranged over and ballots are sorted, which Go leaves
  open.

Voting powers and weights are integers. A ballot's power is a sum over distinct bonded
validators, so it is at most the total bonded power, which is an `int64`.
-/

namespace ColumbusCore.Oracle

open Go
open Std (ExtTreeMap)

/-! ### Ballots and claims (`types/ballot.go`) -/

/-- `VoteForTally`. -/
structure VoteForTally where
  denom : Denom
  exchangeRate : Dec
  voter : ValAddress
  power : ℤ
deriving DecidableEq, Repr

/-- `ExchangeRateBallot`. -/
abbrev ExchangeRateBallot := List VoteForTally

/-- `Claim`. -/
structure Claim where
  power : ℤ
  weight : ℤ
  winCount : ℤ
  recipient : ValAddress
deriving DecidableEq, Repr, Inhabited

/-- `map[string]types.Claim`, by the bech32 string of the operator. -/
abbrev ClaimMap := ExtTreeMap String Claim

/-- `map[string]types.ExchangeRateBallot`, by denom. -/
abbrev BallotMap := ExtTreeMap Denom ExchangeRateBallot

/-- `map[string]sdk.Dec` of the vote targets and their tobin taxes. -/
abbrev TargetMap := ExtTreeMap Denom Dec

/-! ### Votes (`types/vote.go`, `types/oracle.pb.go`) -/

/-- `ExchangeRateTuple`. -/
structure ExchangeRateTuple where
  denom : Denom
  exchangeRate : Dec
deriving DecidableEq, Repr

/-- `AggregateExchangeRatePrevote`. -/
structure AggregateExchangeRatePrevote where
  hash : String
  voter : String
  submitBlock : ℕ
deriving DecidableEq, Repr

/-- `AggregateExchangeRateVote`. -/
structure AggregateExchangeRateVote where
  exchangeRateTuples : List ExchangeRateTuple
  voter : String
deriving DecidableEq, Repr

/-! ### Parameters (`types/params.go`) -/

/-- An item of the whitelist, `types.Denom`. -/
structure DenomItem where
  name : String
  tobinTax : Dec
deriving DecidableEq, Repr

/-- `types.Params`. -/
structure Params where
  votePeriod : UInt64
  voteThreshold : Dec
  rewardBand : Dec
  rewardDistributionWindow : UInt64
  whitelist : List DenomItem
  slashFraction : Dec
  slashWindow : UInt64
  minValidPerWindow : Dec

/-- A decimal outside `[0, 1]`. -/
def outOfUnit (x : Dec) : Bool := decide (Fixed.one < x) || decide (x.raw < 0)

/-- The checks on one item of the whitelist. -/
def validateDenomItem (d : DenomItem) : Outcome Unit := do
  failIf (outOfUnit d.tobinTax)
    "oracle parameter Whitelist Denom must have TobinTax between [0, 1]"
  failIf (d.name.utf8ByteSize = 0) "oracle parameter Whitelist Denom must have name"

/-- `Params.Validate`. -/
def Params.validate (p : Params) : Outcome Unit := do
  failIf (p.votePeriod = 0) "oracle parameter VotePeriod must be > 0, is 0"
  failIf (p.voteThreshold ≤ newDecWithPrec 33 2)
    "oracle parameter VoteThreshold must be greater than 33 percent"
  failIf (outOfUnit p.rewardBand) "oracle parameter RewardBand must be between [0, 1]"
  failIf (p.rewardDistributionWindow < p.votePeriod)
    "oracle parameter RewardDistributionWindow must be greater than or equal with VotePeriod"
  failIf (outOfUnit p.slashFraction) "oracle parameter SlashFraction must be between [0, 1]"
  failIf (p.slashWindow < p.votePeriod)
    "oracle parameter SlashWindow must be greater than or equal with VotePeriod"
  failIf (outOfUnit p.minValidPerWindow)
    "oracle parameter MinValidPerWindow must be between [0, 1]"
  p.whitelist.forM validateDenomItem

/-- `DefaultParams`. -/
def defaultParams : Params where
  votePeriod := 10 / 2
  voteThreshold := newDecWithPrec 50 2
  rewardBand := newDecWithPrec 2 2
  rewardDistributionWindow := 10 * 60 * 24 * 365
  whitelist :=
    [⟨"ukrw", newDecWithPrec 25 4⟩, ⟨"usdr", newDecWithPrec 25 4⟩, ⟨"uusd", newDecWithPrec 25 4⟩,
      ⟨"umnt", newDecWithPrec 200 4⟩]
  slashFraction := newDecWithPrec 1 4
  slashWindow := 10 * 60 * 24 * 7
  minValidPerWindow := newDecWithPrec 5 2

/-- The default parameters pass their own validation. -/
lemma defaultParams_validate : defaultParams.validate = .ok () := rfl

/-- What validation admits. -/
lemma Params.validate_eq_ok_iff {p : Params} : p.validate = .ok () ↔
    p.votePeriod ≠ 0 ∧ newDecWithPrec 33 2 < p.voteThreshold ∧ outOfUnit p.rewardBand = false
      ∧ p.votePeriod ≤ p.rewardDistributionWindow ∧ outOfUnit p.slashFraction = false
      ∧ p.votePeriod ≤ p.slashWindow ∧ outOfUnit p.minValidPerWindow = false
      ∧ p.whitelist.forM validateDenomItem = .ok () := by
  simp only [validate, failIf_bind_eq_ok, not_le, UInt64.not_lt, Bool.not_eq_true, ne_eq]

/-! ### The store (`keeper/keeper.go`) -/

/-- The oracle store, one map for each key prefix, and the parameters. -/
structure Store where
  params : Params
  exchangeRates : ExtTreeMap Denom Dec
  feederDelegations : ExtTreeMap ValAddress AccAddress
  missCounters : ExtTreeMap ValAddress ℕ
  prevotes : ExtTreeMap ValAddress AggregateExchangeRatePrevote
  votes : ExtTreeMap ValAddress AggregateExchangeRateVote
  tobinTaxes : TargetMap

/-! ### Expected keepers (`types/expected_keeper.go`) -/

/-- What the module reads of a validator. -/
structure Validator where
  operator : ValAddress
  tokens : ℤ
  bonded : Bool
  jailed : Bool
  consAddr : Option String
deriving DecidableEq, Repr

/-- `GetConsensusPower`. -/
def Validator.consensusPower (v : Validator) (powerReduction : ℤ) : Outcome ℤ :=
  if v.bonded then tokensToConsensusPower v.tokens powerReduction else pure 0

/-- A string as the source slices it: bytes, which need not be the code of a text. -/
abbrev GoString := List UInt8

/-- The bytes of a text. -/
def goString (s : String) : GoString := s.toUTF8.data.toList

/-- `banktypes.DenomUnit`. -/
structure DenomUnit where
  denom : GoString
  exponent : ℕ
  aliases : List GoString
deriving DecidableEq, Repr

/-- `banktypes.Metadata`. -/
structure Metadata where
  description : GoString
  denomUnits : List DenomUnit
  base : GoString
  display : GoString
  name : GoString
  symbol : GoString
deriving DecidableEq, Repr

/-- The keepers of the staking, distribution and bank modules, over their state `σ`, and the mapping
to upper case the names of a denom are made with. -/
structure Keepers (σ : Type) where
  validator : σ → ValAddress → Option Validator
  totalBondedTokens : σ → ℤ
  slash : σ → String → ℤ → ℤ → Dec → Outcome σ
  jail : σ → String → Outcome σ
  /-- The operators in the order of `ValidatorsPowerStoreIterator`. -/
  validatorsByPower : σ → List ValAddress
  maxValidators : σ → ℕ
  powerReduction : σ → ℤ
  allocateTokensToValidator : σ → Validator → DecCoins → Outcome σ
  /-- The balance of a module account. -/
  getBalance : σ → String → Denom → ℤ
  sendCoinsFromModuleToModule : σ → String → String → Coins → Outcome σ
  getDenomMetaData : σ → Denom → Option Metadata
  setDenomMetaData : σ → Metadata → σ
  /-- `strings.ToUpper`. -/
  toUpper : GoString → GoString

/-- What the module takes from its libraries and from the machine. -/
structure Host where
  /-- `ValAddress.String`. -/
  valString : ValAddress → String
  valAddressFromBech32 : String → Option ValAddress
  accAddressFromBech32 : String → Option AccAddress
  /-- The truncated hash of a string, in hexadecimal. -/
  truncatedHash : String → String
  /-- `sdk.ParseDecCoin`. -/
  parseDecCoin : String → Option (Denom × Dec)
  /-- The square root of a decimal, taken in `float64` and printed with six digits. -/
  floatSqrt : Dec → Dec

/-- The order of a ballot, `ExchangeRateBallot.Less`. -/
def VoteForTally.le (v w : VoteForTally) : Prop := v.exchangeRate ≤ w.exchangeRate

/-- The choices Go leaves open: the order of `sort.Sort` among equal rates, and the order of
each `range` over a map. -/
structure Schedule where
  sort : ExchangeRateBallot → ExchangeRateBallot
  sort_perm : ∀ b, (sort b).Perm b
  sort_sorted : ∀ b, (sort b).Pairwise VoteForTally.le
  rangePick : RangeOrder (Denom × ExchangeRateBallot)
  rangeTally : RangeOrder (Denom × ExchangeRateBallot)
  rangeMiss : RangeOrder (String × Claim)
  rangeTargets : RangeOrder (Denom × Dec)
  rangeWeights : RangeOrder (String × Claim)
  rangeWinners : RangeOrder (String × Claim)

/-- The oracle store next to the state of the other modules. -/
structure World (σ : Type) where
  store : Store
  ext : σ

end ColumbusCore.Oracle
