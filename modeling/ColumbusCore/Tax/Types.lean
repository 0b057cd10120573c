import ColumbusCore.Treasury.Types
import ColumbusCore.Market.Types

/-!
What the tax modules compute with: contexts and their values, the state of the chain as far as
the tax depends on it, the messages that are taxed, and the keepers and servers of other modules
as parameters.

The state `β` behind the keepers is that of the bank, of the distribution module and of every
other module; the parameters of the tax, the store of the treasury and the exemption store are
read and written by the code itself.
-/

namespace ColumbusCore.Tax

open Go
open Std (ExtTreeMap)

/-! ### Contexts -/

/-- The values the tax modules keep in a context. -/
inductive ContextValue where
  | bool (b : Bool)
  | coins (c : Coins)
  | str (s : String)

/-- `ContextKeyTaxReverseCharge`. -/
def contextKeyTaxReverseCharge : String := "tax.reverse_charge"

/-- `ContextKeyTaxDue`. -/
def contextKeyTaxDue : String := "tax.due"

/-- `ContextKeyTaxPayer`. -/
def contextKeyTaxPayer : String := "tax.payer"

/-- `sdk.Context`: what is read of it here, and its values, the latest first. -/
structure Context where
  blockHeight : ℤ
  minGasPrices : DecCoins
  priority : ℤ
  values : List (String × ContextValue)

namespace Context

/-- `WithValue`. -/
def withValue (ctx : Context) (key : String) (v : ContextValue) : Context :=
  { ctx with values := (key, v) :: ctx.values }

/-- `Value`: the latest value of a key, nothing where there is none. -/
def value (ctx : Context) (key : String) : Option ContextValue := ctx.values.lookup key

/-- The tax due a context carries: none where there is no such value. -/
def taxDue (ctx : Context) : Coins :=
  match ctx.value contextKeyTaxDue with
  | some (.coins dueTax) => dueTax
  | _ => ∅

@[simp] lemma value_withValue_self (ctx : Context) (key : String) (v : ContextValue) :
    (ctx.withValue key v).value key = some v := by
  simp [value, withValue]

lemma value_withValue_of_ne (ctx : Context) {key key' : String} (v : ContextValue)
    (h : key' ≠ key) : (ctx.withValue key v).value key' = ctx.value key' := by
  rw [value, withValue, List.lookup_cons, beq_eq_false_iff_ne.mpr h]
  rfl

end Context

/-! ### The state -/

/-- `types.Params` of the tax module. Its validation accepts everything. -/
structure Params where
  gasPrices : List (Denom × Dec)
  burnTaxRate : Dec

/-- `Zone` of the tax exemption module. -/
structure Zone where
  name : String
  outgoing : Bool
  incoming : Bool
  crossZone : Bool
deriving DecidableEq, Repr

/-- The store of the tax exemption module: the zones by name, and the zone of each address. -/
structure ExemptionStore where
  zones : ExtTreeMap String Zone
  addresses : ExtTreeMap String String

/-- The chain: what the tax depends on, and the rest. -/
structure Chain (β : Type) where
  params : Params
  treasury : Treasury.Store
  exemption : ExemptionStore
  rest : β

/-! ### Messages -/

/-- `banktypes.MsgSend`. -/
structure MsgSend where
  fromAddress : String
  toAddress : String
  amount : Coins

/-- `banktypes.Input` and `banktypes.Output`. -/
structure InOut where
  address : String
  coins : Coins

/-- `banktypes.MsgMultiSend`. -/
structure MsgMultiSend where
  inputs : List InOut
  outputs : List InOut

-- `markettypes.MsgSwapSend` and its response
export Market (MsgSwapSend MsgSwapSendResponse)

/-! ### Module accounts -/

/-- `authtypes.FeeCollectorName`. -/
def feeCollectorName : String := "fee_collector"

/-- `distributiontypes.ModuleName`. -/
def distributionModuleName : String := "distribution"

/-- `oracletypes.ModuleName`. -/
def oracleModuleName : String := "oracle"

/-- `treasurytypes.BurnModuleName`. -/
def burnModuleName : String := "burn"

/-- `minttypes.ModuleName`. -/
def mintModuleName : String := "mint"

/-! ### Keepers and servers -/

/-- The account, bank, distribution and fee grant keepers over their state `β`, and the message
servers the tax module wraps. -/
structure Keepers (β : Type) where
  accAddressFromBech32 : String → Option AccAddress
  /-- `AccAddress.String`. -/
  accString : AccAddress → String
  getModuleAddress : String → Option AccAddress
  /-- `GetAccount` finds an account. -/
  hasAccount : β → AccAddress → Bool
  getBalance : β → AccAddress → Denom → ℤ
  sendCoinsFromAccountToModule : β → AccAddress → String → Coins → Outcome β
  sendCoinsFromModuleToAccount : β → String → AccAddress → Coins → Outcome β
  sendCoinsFromModuleToModule : β → String → String → Coins → Outcome β
  mintCoins : β → String → Coins → Outcome β
  getCommunityTax : β → Dec
  /-- The community pool of `GetFeePool`. -/
  communityPool : β → DecCoins
  setCommunityPool : β → DecCoins → β
  /-- `UseGrantedFees` by granter and grantee; `none` where fee grants are not enabled. -/
  useGrantedFees : Option (β → AccAddress → AccAddress → Coins → Outcome β)
  bankSend : Context → β → MsgSend → Outcome β
  bankMultiSend : Context → β → MsgMultiSend → Outcome β
  marketSwapSend : Context → β → MsgSwapSend → Outcome (β × MsgSwapSendResponse)

/-- `sdk.MustAccAddressFromBech32`. -/
def Keepers.mustAccAddress {β : Type} (K : Keepers β) (s : String) : Outcome AccAddress :=
  match K.accAddressFromBech32 s with
  | some a => .ok a
  | none => panicked (.raised "decoding bech32 failed")

lemma Keepers.mustAccAddress_of_some {β : Type} (K : Keepers β) {s : String} {a : AccAddress}
    (h : K.accAddressFromBech32 s = some a) : K.mustAccAddress s = .ok a := by
  rw [mustAccAddress, h]

end ColumbusCore.Tax
