import ColumbusCore.Tax.Handlers
import ColumbusCore.Market.Ledger

/-!
The message services of the bank and of the market, as the tax module registers them
(`x/tax/modules/bank/bank_module.go`, `x/tax/modules/market/market_module.go`).

Each registered server embeds the generated `UnimplementedMsgServer` and wraps the original one.
It has methods of its own for `Send`, `MultiSend` and `SwapSend`; every other method of the two
services is the embedded one, which returns an error and calls nothing.

* `original`, `registered`: the two servers on every message of the services;
* `registered_eq_original_iff`: **without reverse charge the registered server does what the
  original does exactly on the messages it has a method for**;
* `swap_unimplemented`: a swap the market would execute.
-/

namespace ColumbusCore.Tax

open Go

variable {β : Type}

/-! ### The services -/

/-- `banktypes.SendEnabled`. -/
structure SendEnabled where
  denom : Denom
  enabled : Bool

/-- `banktypes.MsgUpdateParams`, with the fields of the parameters. -/
structure MsgUpdateParams where
  authority : String
  sendEnabled : List SendEnabled
  defaultSendEnabled : Bool

/-- `banktypes.MsgSetSendEnabled`. -/
structure MsgSetSendEnabled where
  authority : String
  sendEnabled : List SendEnabled
  useDefaultFor : List Denom

/-- The messages of the bank and the market service. -/
inductive ServiceMsg where
  | send (msg : MsgSend)
  | multiSend (msg : MsgMultiSend)
  | updateParams (msg : MsgUpdateParams)
  | setSendEnabled (msg : MsgSetSendEnabled)
  | swap (msg : Market.MsgSwap)
  | swapSend (msg : MsgSwapSend)

/-- The responses; those of the bank are empty. -/
inductive ServiceResponse where
  | send
  | multiSend
  | updateParams
  | setSendEnabled
  | swap (res : Market.MsgSwapResponse)
  | swapSend (res : MsgSwapSendResponse)

/-- The name of a message's method. -/
def ServiceMsg.method : ServiceMsg → String
  | .send _ => "Send"
  | .multiSend _ => "MultiSend"
  | .updateParams _ => "UpdateParams"
  | .setSendEnabled _ => "SetSendEnabled"
  | .swap _ => "Swap"
  | .swapSend _ => "SwapSend"

/-- The messages `BankMsgServer` and `MarketMsgServer` have a method for. -/
def ServiceMsg.isWrapped : ServiceMsg → Bool
  | .send _ | .multiSend _ | .swapSend _ => true
  | .updateParams _ | .setSendEnabled _ | .swap _ => false

/-- The methods of the original servers besides those that are wrapped. -/
structure OtherServers (β : Type) where
  bankUpdateParams : Context → β → MsgUpdateParams → Outcome β
  bankSetSendEnabled : Context → β → MsgSetSendEnabled → Outcome β
  marketSwap : Context → β → Market.MsgSwap → Outcome (β × Market.MsgSwapResponse)

/-- A method of an `UnimplementedMsgServer`. -/
def unimplemented {α : Type} (method : String) : Outcome α :=
  failed ("rpc error: code = Unimplemented desc = method " ++ method ++ " not implemented")

/-- The original servers, `NewMsgServerImpl` of the two modules. -/
def original (K : Keepers β) (O : OtherServers β) (ctx : Context) (c : Chain β) :
    ServiceMsg → Outcome (Chain β × ServiceResponse)
  | .send msg => (passSend K ctx c msg).map (·, .send)
  | .multiSend msg => (passMultiSend K ctx c msg).map (·, .multiSend)
  | .updateParams msg =>
      (O.bankUpdateParams ctx c.rest msg).map fun s => ({ c with rest := s }, .updateParams)
  | .setSendEnabled msg =>
      (O.bankSetSendEnabled ctx c.rest msg).map fun s => ({ c with rest := s }, .setSendEnabled)
  | .swap msg => (O.marketSwap ctx c.rest msg).map fun r => ({ c with rest := r.1 }, .swap r.2)
  | .swapSend msg => (passSwapSend K ctx c msg).map fun r => (r.1, .swapSend r.2)

/-- The registered servers. -/
def registered (K : Keepers β) (ctx : Context) (c : Chain β) :
    ServiceMsg → Outcome (Chain β × ServiceResponse)
  | .send msg => (Tax.send K ctx c msg).map (·, .send)
  | .multiSend msg => (Tax.multiSend K ctx c msg).map (·, .multiSend)
  | .updateParams _ => unimplemented "UpdateParams"
  | .setSendEnabled _ => unimplemented "SetSendEnabled"
  | .swap _ => unimplemented "Swap"
  | .swapSend msg => (Tax.swapSend K ctx c msg).map fun r => (r.1, .swapSend r.2)

/-! ### Without reverse charge -/

/-- A wrapped method hands its message on as it is. -/
lemma registered_of_isWrapped (K : Keepers β) (O : OtherServers β) {ctx : Context} (c : Chain β)
    {msg : ServiceMsg} (hoff : isReverseCharge ctx = .ok false) (hmsg : msg.isWrapped = true) :
    registered K ctx c msg = original K O ctx c msg := by
  cases msg with
  | send msg => rw [registered, Tax.send, hoff, ok_bind]; rfl
  | multiSend msg => rw [registered, Tax.multiSend, hoff, ok_bind]; rfl
  | swapSend msg => rw [registered, Tax.swapSend, hoff, ok_bind]; rfl
  | updateParams msg => simp [ServiceMsg.isWrapped] at hmsg
  | setSendEnabled msg => simp [ServiceMsg.isWrapped] at hmsg
  | swap msg => simp [ServiceMsg.isWrapped] at hmsg

/-- Every other method is not implemented. -/
lemma registered_of_not_isWrapped (K : Keepers β) (ctx : Context) (c : Chain β)
    {msg : ServiceMsg} (hmsg : msg.isWrapped = false) :
    registered K ctx c msg = unimplemented msg.method := by
  cases msg with
  | send msg => simp [ServiceMsg.isWrapped] at hmsg
  | multiSend msg => simp [ServiceMsg.isWrapped] at hmsg
  | swapSend msg => simp [ServiceMsg.isWrapped] at hmsg
  | updateParams msg => rfl
  | setSendEnabled msg => rfl
  | swap msg => rfl

/-- **Without reverse charge the registered server answers and changes the state as the original
one exactly on the messages it has a method for**, where the original implements the method. -/
theorem registered_eq_original_iff (K : Keepers β) (O : OtherServers β) {ctx : Context}
    (c : Chain β) (msg : ServiceMsg) (hoff : isReverseCharge ctx = .ok false)
    (himpl : original K O ctx c msg ≠ unimplemented msg.method) :
    registered K ctx c msg = original K O ctx c msg ↔ msg.isWrapped = true := by
  cases hmsg : msg.isWrapped with
  | true => exact iff_of_true (registered_of_isWrapped K O c hoff hmsg) rfl
  | false =>
      rw [registered_of_not_isWrapped K ctx c hmsg]
      exact iff_of_false himpl.symm (by simp)

/-! ### A swap on the market's own server -/

/-- The state of the market after an operation of its bank. -/
def onBank (s : Market.State Market.Ledger) (op : Market.Ledger → Outcome Market.Ledger) :
    Outcome (Market.State Market.Ledger) :=
  (op s.bank).map fun bank => { s with bank := bank }

/-- The keepers over the state of the market and its ledger, and the market's own server. -/
def marketKeepers : Keepers (Market.State Market.Ledger) where
  accAddressFromBech32 := Market.ledgerKeepers.accAddressFromBech32
  accString a := a
  getModuleAddress name := some name
  hasAccount _ _ := true
  getBalance s := s.bank.balance
  sendCoinsFromAccountToModule s a m coins := onBank s fun bank => bank.transfer a m coins
  sendCoinsFromModuleToAccount s m a coins := onBank s fun bank => bank.transfer m a coins
  sendCoinsFromModuleToModule s m m' coins := onBank s fun bank => bank.transfer m m' coins
  mintCoins s m coins := onBank s fun bank => .ok (bank.mint m coins)
  getCommunityTax _ := 0
  communityPool _ := ∅
  setCommunityPool s _ := s
  useGrantedFees := none
  bankSend _ s msg := onBank s fun bank => bank.transfer msg.fromAddress msg.toAddress msg.amount
  bankMultiSend _ s msg := onBank s fun bank => do
    let bank ← msg.inputs.foldlM (fun b i => b.transfer i.address "transit" i.coins) bank
    msg.outputs.foldlM (fun b o => b.transfer "transit" o.address o.coins) bank
  marketSwapSend _ s msg := Market.swapSend Market.ledgerKeepers s msg

/-- The market's own server of `Swap`, and a bank whose parameters its authority may set. The
ledger keeps no parameters. -/
def marketServers : OtherServers (Market.State Market.Ledger) where
  bankUpdateParams _ s msg :=
    if msg.authority = "gov" then .ok s
    else failed "expected gov account as only signer for proposal message"
  bankSetSendEnabled _ s msg :=
    if msg.authority = "gov" then .ok s
    else failed "expected gov account as only signer for proposal message"
  marketSwap _ s msg := Market.swap Market.ledgerKeepers s msg

/-- The chain with the default parameters everywhere, a luna at one SDR, and a trader with
`10 ^ 9` units of luna. -/
def marketChain : Chain (Market.State Market.Ledger) where
  params := { gasPrices := [], burnTaxRate := newDecWithPrec 5 3 }
  treasury := { params := Treasury.defaultParams, taxCaps := ∅, epochTaxProceeds := ∅ }
  exemption := { zones := ∅, addresses := ∅ }
  rest :=
    { params := Market.defaultParams
      terraPoolDelta := 0
      oracle := Market.ratesStore ((∅ : Std.ExtTreeMap Denom Dec).insert "usdr" Fixed.one)
      bank := Market.lunaLedger "trader" (10 ^ 9) }

/-- The context of a transaction that is not reverse charged. -/
def plainContext : Context := contextWith [(contextKeyTaxReverseCharge, .bool false)]

/-- A send of ten units of luna. -/
def tenLuna : ServiceMsg := .send ⟨"trader", "first", CoinSet.ofList [("uluna", 10)]⟩

/-- A send without reverse charge is executed as by the bank. -/
theorem registered_send_plain :
    isReverseCharge plainContext = .ok false
      ∧ original marketKeepers marketServers plainContext marketChain tenLuna
        ≠ unimplemented tenLuna.method
      ∧ registered marketKeepers plainContext marketChain tenLuna
        = original marketKeepers marketServers plainContext marketChain tenLuna := by
  obtain ⟨r, hr, -⟩ := exists_of_returns
    (p := fun _ : Chain (Market.State Market.Ledger) × ServiceResponse => true)
    (x := original marketKeepers marketServers plainContext marketChain tenLuna) (by decide +kernel)
  have himpl : original marketKeepers marketServers plainContext marketChain tenLuna
      ≠ unimplemented tenLuna.method := by
    rw [hr, unimplemented]
    exact failed_ne_ok.symm
  exact ⟨rfl, himpl, (registered_eq_original_iff marketKeepers marketServers marketChain tenLuna rfl
    himpl).mpr rfl⟩

/-- A swap of one luna for SDR: the market pays it, the registered server does not know it. -/
theorem swap_unimplemented :
    isReverseCharge plainContext = .ok false
      ∧ (∃ c', original marketKeepers marketServers plainContext marketChain
          (.swap ⟨"trader", ("uluna", 10 ^ 6), "usdr"⟩)
        = .ok (c', .swap ⟨("usdr", 980000), ("usdr", 20000)⟩))
      ∧ registered marketKeepers plainContext marketChain
          (.swap ⟨"trader", ("uluna", 10 ^ 6), "usdr"⟩)
        = failed "rpc error: code = Unimplemented desc = method Swap not implemented" := by
  obtain ⟨⟨s, res⟩, hswap, hres⟩ := exists_of_returns
    (p := fun r : Market.State Market.Ledger × Market.MsgSwapResponse =>
      decide (r.2 = ⟨("usdr", 980000), ("usdr", 20000)⟩))
    (x := Market.swap Market.ledgerKeepers marketChain.rest ⟨"trader", ("uluna", 10 ^ 6), "usdr"⟩)
    (by decide +kernel)
  obtain rfl : res = _ := of_decide_eq_true hres
  have hserver : marketServers.marketSwap plainContext marketChain.rest
      ⟨"trader", ("uluna", 10 ^ 6), "usdr"⟩
      = .ok (s, ⟨("usdr", 980000), ("usdr", 20000)⟩) := hswap
  refine ⟨rfl, ⟨{ marketChain with rest := s }, ?_⟩, rfl⟩
  rw [original, hserver]
  rfl

end ColumbusCore.Tax
