import ColumbusCore.Oracle.Types

/-!
The data of the market module (`x/market/types`): parameters, messages, the state a swap works on,
and the bank as a parameter.

* `Params.validate`: the parameter validation, with its messages;
* `SwapMsg`: the two messages of the module, with their `validateBasic`;
* `State`: the parameters and the terra pool delta of the module, the oracle store it reads, and
  the bank behind the keepers.
-/

namespace ColumbusCore.Market

open Go

/-- `core.MicroLunaDenom`. -/
def microLunaDenom : Denom := "uluna"

/-- `core.MicroSDRDenom`, the unit of the pools. -/
def microSDRDenom : Denom := "usdr"

/-- `types.ModuleName`. -/
def moduleName : String := "market"

/-- `oracletypes.ModuleName`. -/
def oracleModuleName : String := "oracle"

/-! ### Parameters (`types/params.go`) -/

/-- `types.Params`. -/
structure Params where
  basePool : Dec
  poolRecoveryPeriod : UInt64
  minStabilitySpread : Dec

/-- `Params.Validate`. -/
def Params.validate (p : Params) : Outcome Unit := do
  failIf (p.basePool.raw < 0)
    ("mint base pool should be positive or zero, is " ++ decString p.basePool)
  failIf (p.poolRecoveryPeriod = 0) "pool recovery period should be positive, is 0"
  failIf (p.minStabilitySpread.raw < 0 ∨ Fixed.one < p.minStabilitySpread)
    ("market minimum stability spead should be a value between [0,1], is "
      ++ decString p.minStabilitySpread)

/-- `DefaultParams`. -/
def defaultParams : Params where
  basePool := Fixed.ofInt (1000000 * 1000000)
  poolRecoveryPeriod := 10 * 60 * 24
  minStabilitySpread := newDecWithPrec 2 2

/-- The default parameters pass their own validation. -/
lemma defaultParams_validate : defaultParams.validate = .ok () := rfl

/-- What validation admits. -/
lemma Params.validate_eq_ok_iff {p : Params} : p.validate = .ok () ↔
    0 ≤ p.basePool.raw ∧ p.poolRecoveryPeriod ≠ 0
      ∧ 0 ≤ p.minStabilitySpread.raw ∧ p.minStabilitySpread.raw ≤ decFormat.scale := by
  have hone : Fixed.one < p.minStabilitySpread
      ↔ (decFormat.scale : ℤ) < p.minStabilitySpread.raw := Iff.rfl
  simp only [validate, failIf_bind_eq_ok, failIf_eq_ok, not_or, not_lt, hone, ne_eq]

/-! ### Messages (`types/msgs.go`) -/

/-- `MsgSwap`. -/
structure MsgSwap where
  trader : String
  offerCoin : Coin
  askDenom : Denom

/-- `MsgSwapSend`. -/
structure MsgSwapSend where
  fromAddress : String
  toAddress : String
  offerCoin : Coin
  askDenom : Denom

/-- `MsgSwapResponse`. -/
structure MsgSwapResponse where
  swapCoin : Coin
  swapFee : Coin
deriving DecidableEq, Repr

/-- `MsgSwapSendResponse`. -/
structure MsgSwapSendResponse where
  swapCoin : Coin
  swapFee : Coin

/-- `sdk.AccAddressFromBech32`. -/
def accAddress (accAddressFromBech32 : String → Option AccAddress) (s msg : String) :
    Outcome AccAddress :=
  match accAddressFromBech32 s with
  | none => failed msg
  | some a => pure a

/-- The checks of both messages on their offer: positive, of at most 100 bits, and in another
denom than the one asked for. -/
def checkOffer (offerCoin : Coin) (askDenom : Denom) : Outcome Unit := do
  failIf (offerCoin.2 ≤ 0 ∨ 2 ^ 100 ≤ offerCoin.2.natAbs)
    (toString offerCoin.2 ++ offerCoin.1 ++ ": invalid coins")
  failIf (offerCoin.1 = askDenom) (askDenom ++ ": recursive swap")

/-- `MsgSwap.ValidateBasic`. -/
def MsgSwap.validateBasic (accAddressFromBech32 : String → Option AccAddress) (msg : MsgSwap) :
    Outcome Unit := do
  let _ ← accAddress accAddressFromBech32 msg.trader "Invalid trader address: invalid address"
  checkOffer msg.offerCoin msg.askDenom

/-- `MsgSwapSend.ValidateBasic`. -/
def MsgSwapSend.validateBasic (accAddressFromBech32 : String → Option AccAddress)
    (msg : MsgSwapSend) : Outcome Unit := do
  let _ ← accAddress accAddressFromBech32 msg.fromAddress "Invalid from address: invalid address"
  let _ ← accAddress accAddressFromBech32 msg.toAddress "Invalid to address: invalid address"
  checkOffer msg.offerCoin msg.askDenom

/-- The messages of the module. -/
inductive SwapMsg where
  | swap (msg : MsgSwap)
  | swapSend (msg : MsgSwapSend)

/-- The coin a message offers. -/
def SwapMsg.offerCoin : SwapMsg → Coin
  | .swap msg => msg.offerCoin
  | .swapSend msg => msg.offerCoin

/-- The denom a message asks for. -/
def SwapMsg.askDenom : SwapMsg → Denom
  | .swap msg => msg.askDenom
  | .swapSend msg => msg.askDenom

/-- `ValidateBasic` of a message. -/
def SwapMsg.validateBasic (accAddressFromBech32 : String → Option AccAddress) :
    SwapMsg → Outcome Unit
  | .swap msg => msg.validateBasic accAddressFromBech32
  | .swapSend msg => msg.validateBasic accAddressFromBech32

/-! ### The state -/

/-- What a swap reads and writes. A pool delta that was never stored is read as zero. -/
structure State (σ : Type) where
  params : Params
  terraPoolDelta : Dec
  oracle : Oracle.Store
  bank : σ

/-- The bank keeper over its state `σ`, and the address codec. -/
structure Keepers (σ : Type) where
  accAddressFromBech32 : String → Option AccAddress
  sendCoinsFromAccountToModule : σ → AccAddress → String → Coins → Outcome σ
  sendCoinsFromModuleToAccount : σ → String → AccAddress → Coins → Outcome σ
  sendCoinsFromModuleToModule : σ → String → String → Coins → Outcome σ
  burnCoins : σ → String → Coins → Outcome σ
  mintCoins : σ → String → Coins → Outcome σ

end ColumbusCore.Market
