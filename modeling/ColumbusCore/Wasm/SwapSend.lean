import ColumbusCore.Tax.Services
import ColumbusCore.Tx.Execution

/-!
The messages a contract dispatches to the market (`wasmbinding/message_plugin.go`,
`custom/wasm/keeper/handler_plugin.go`).

A contract reaches the market on two ways. A custom message of the Terra binding is handed to the
market's own server; every other message is encoded, put into a reverse-charged context and
routed to the registered server, which deducts the tax of a swap-send.

* `performSwap`, `performSwapSend`: the binding;
* `handleSdkMessage`, `sdkDispatchMsg`: the routed messages;
* `dispatched_alike_iff`: **the two ways tax a swap-send alike exactly when its offer is refused or owes
  no tax**;
* `custom_swapSend_untaxed`: a swap-send that owes a tax.
-/

namespace ColumbusCore.Wasm

open Go
open Tax (Chain Keepers Context OtherServers ServiceMsg ServiceResponse isReverseCharge)
open Market (MsgSwap MsgSwapSend MsgSwapResponse MsgSwapSendResponse SwapMsg)

variable {β : Type}

/-! ### The code -/

/-- `bindings.Swap`. -/
structure Swap where
  offerCoin : Coin
  askDenom : Denom

/-- `bindings.SwapSend`. -/
structure SwapSend where
  toAddress : String
  offerCoin : Coin
  askDenom : Denom

/-- `bindings.TerraMsg`. -/
structure TerraMsg where
  swap : Option Swap
  swapSend : Option SwapSend

/-- The messages of a contract: a custom one, decoded, or one that the encoders turn into messages
of the market. -/
inductive CosmosMsg where
  | custom (msg : TerraMsg)
  | encoded (msgs : List SwapMsg)

/-- `NewMsgSwap`. -/
def newMsgSwap (K : Keepers β) (trader : AccAddress) (offerCoin : Coin) (askDenom : Denom) :
    MsgSwap :=
  ⟨K.accString trader, offerCoin, askDenom⟩

/-- `NewMsgSwapSend`. -/
def newMsgSwapSend (K : Keepers β) (fromAddress toAddress : AccAddress) (offerCoin : Coin)
    (askDenom : Denom) : MsgSwapSend :=
  ⟨K.accString fromAddress, K.accString toAddress, offerCoin, askDenom⟩

/-- The market's own `Swap`. -/
def passSwap (O : OtherServers β) (ctx : Context) (c : Chain β) (msg : MsgSwap) :
    Outcome (Chain β × MsgSwapResponse) := do
  let (s, response) ← O.marketSwap ctx c.rest msg
  pure ({ c with rest := s }, response)

/-- `PerformSwap`. -/
def performSwap (K : Keepers β) (O : OtherServers β) (ctx : Context) (c : Chain β)
    (contractAddr : AccAddress) (contractMsg : Swap) : Outcome (Chain β × MsgSwapResponse) := do
  let msgSwap := newMsgSwap K contractAddr contractMsg.offerCoin contractMsg.askDenom
  wrapError "failed validating MsgSwap" (msgSwap.validateBasic K.accAddressFromBech32)
  wrapError "swapping" (passSwap O ctx c msgSwap)

/-- `PerformSwapSend`. -/
def performSwapSend (K : Keepers β) (ctx : Context) (c : Chain β) (contractAddr : AccAddress)
    (contractMsg : SwapSend) : Outcome (Chain β × MsgSwapSendResponse) := do
  let toAddr ← Market.accAddress K.accAddressFromBech32 contractMsg.toAddress
    "decoding bech32 failed"
  let msgSwapSend := newMsgSwapSend K contractAddr toAddr contractMsg.offerCoin
    contractMsg.askDenom
  wrapError "failed validating MsgSwapSend" (msgSwapSend.validateBasic K.accAddressFromBech32)
  wrapError "swapping and sending" (Tax.passSwapSend K ctx c msgSwapSend)

/-- A custom message. The responses are kept as they are before they are marshalled. -/
def dispatchTerra (K : Keepers β) (O : OtherServers β) (ctx : Context) (c : Chain β)
    (contractAddr : AccAddress) (contractMsg : TerraMsg) :
    Outcome (Chain β × List ServiceResponse) :=
  match contractMsg.swap, contractMsg.swapSend with
  | some msg, _ => do
      let (c, res) ← wrapError "swap msg failed"
        (wrapError "perform swap" (performSwap K O ctx c contractAddr msg))
      pure (c, [.swap res])
  | none, some msg => do
      let (c, res) ← wrapError "swap msg failed"
        (wrapError "perform swap send" (performSwapSend K ctx c contractAddr msg))
      pure (c, [.swapSend res])
  | none, none => failed "unsupported request: unknown terra msg variant"

/-- The only signer of a message, `GetSigners`. -/
def signer : SwapMsg → String
  | .swap msg => msg.trader
  | .swapSend msg => msg.fromAddress

/-- A message as the router finds it. -/
def routed : SwapMsg → ServiceMsg
  | .swap msg => .swap msg
  | .swapSend msg => .swapSend msg

/-- `SDKMessageHandler.handleSdkMessage`. -/
def handleSdkMessage (K : Keepers β) (ctx : Context) (contractAddr : AccAddress) (c : Chain β)
    (msg : SwapMsg) : Outcome (Chain β × ServiceResponse) := do
  msg.validateBasic K.accAddressFromBech32
  let acct ← K.mustAccAddress (signer msg)
  failIf (acct ≠ contractAddr) "contract doesn't have permission: unauthorized"
  Tax.registered K ctx c (routed msg)

/-- `SDKMessageHandler.DispatchMsg`: contract handling is always reverse charged. -/
def sdkDispatchMsg (K : Keepers β) (ctx : Context) (c : Chain β) (contractAddr : AccAddress)
    (sdkMsgs : List SwapMsg) : Outcome (Chain β × List ServiceResponse) :=
  sdkMsgs.foldlM (fun acc sdkMsg => do
    let (c, res) ← handleSdkMessage K (Tx.dispatchContext ctx) contractAddr acc.1 sdkMsg
    pure (c, acc.2 ++ [res])) (c, [])

/-- `CustomMessenger.DispatchMsg`. -/
def dispatchMsg (K : Keepers β) (O : OtherServers β) (ctx : Context) (c : Chain β)
    (contractAddr : AccAddress) : CosmosMsg → Outcome (Chain β × List ServiceResponse)
  | .custom msg => dispatchTerra K O ctx c contractAddr msg
  | .encoded msgs => sdkDispatchMsg K ctx c contractAddr msgs

/-! ### The two ways of a swap-send -/

/-- A server of the market's swap-sends, which reads nothing of the tax in its context. -/
abbrev MarketServer (β : Type) := β → MsgSwapSend → Outcome (β × MsgSwapSendResponse)

/-- The keepers with another server of the market. -/
def withMarket (K : Keepers β) (server : MarketServer β) : Keepers β :=
  { K with marketSwapSend := fun _ => server }

/-- A swap-send as a custom message. -/
def customSwapSend (K : Keepers β) (recipient : AccAddress) (offerCoin : Coin)
    (askDenom : Denom) : CosmosMsg :=
  .custom { swap := none, swapSend := some ⟨K.accString recipient, offerCoin, askDenom⟩ }

/-- The same swap-send as a routed message. -/
def routedSwapSend (K : Keepers β) (contract recipient : AccAddress) (offerCoin : Coin)
    (askDenom : Denom) : CosmosMsg :=
  .encoded [.swapSend (newMsgSwapSend K contract recipient offerCoin askDenom)]

/-- The two ways take the same tax from the contract and swap the same offer: whatever a market
makes of the state and the message it is handed, the outcomes are the same. -/
def DispatchedAlike (K : Keepers β) (O : OtherServers β) (ctx : Context) (c : Chain β)
    (contract recipient : AccAddress) (offerCoin : Coin) (askDenom : Denom) : Prop :=
  ∀ server : MarketServer β,
    Agrees (dispatchMsg (withMarket K server) O ctx c contract
        (customSwapSend K recipient offerCoin askDenom))
      (dispatchMsg (withMarket K server) O ctx c contract
        (routedSwapSend K contract recipient offerCoin askDenom))

section Dispatch

variable {K : Keepers β} {O : OtherServers β} {ctx : Context} {c : Chain β}
  {contract recipient : AccAddress} {offerCoin : Coin} {askDenom : Denom}

/-- The message of a contract is valid where its offer is. -/
lemma validateBasic_newMsgSwapSend
    (hcontract : K.accAddressFromBech32 (K.accString contract) = some contract)
    (hrecipient : K.accAddressFromBech32 (K.accString recipient) = some recipient) :
    (newMsgSwapSend K contract recipient offerCoin askDenom).validateBasic K.accAddressFromBech32
      = Market.checkOffer offerCoin askDenom := by
  simp only [MsgSwapSend.validateBasic, newMsgSwapSend, Market.accAddress, hcontract, hrecipient]
  rfl

/-- The custom way: the market's own server on the offer as it is. -/
lemma dispatch_custom_eq_ok_iff {r : Chain β × List ServiceResponse}
    (hcontract : K.accAddressFromBech32 (K.accString contract) = some contract)
    (hrecipient : K.accAddressFromBech32 (K.accString recipient) = some recipient) :
    dispatchMsg K O ctx c contract (customSwapSend K recipient offerCoin askDenom) = .ok r
      ↔ Market.checkOffer offerCoin askDenom = .ok () ∧ ∃ res,
        Tax.passSwapSend K ctx c (newMsgSwapSend K contract recipient offerCoin askDenom) = .ok res
          ∧ r = (res.1, [.swapSend res.2]) := by
  have hto : Market.accAddress K.accAddressFromBech32 (K.accString recipient)
      "decoding bech32 failed" = .ok recipient := by
    rw [Market.accAddress, hrecipient]
    rfl
  simp only [dispatchMsg, customSwapSend, dispatchTerra, performSwapSend, hto, ok_bind,
    validateBasic_newMsgSwapSend hcontract hrecipient, bind_eq_ok, wrapError_eq_ok_iff]
  constructor
  · rintro ⟨res, ⟨⟨⟩, hcheck, hpass⟩, hr⟩
    exact ⟨hcheck, res, hpass, (Except.ok.inj hr).symm⟩
  · rintro ⟨hcheck, res, hpass, rfl⟩
    exact ⟨res, ⟨(), hcheck, hpass⟩, rfl⟩

/-- The routed way: the registered server under reverse charge. -/
lemma dispatch_routed_eq_ok_iff {r : Chain β × List ServiceResponse}
    (hcontract : K.accAddressFromBech32 (K.accString contract) = some contract)
    (hrecipient : K.accAddressFromBech32 (K.accString recipient) = some recipient) :
    dispatchMsg K O ctx c contract (routedSwapSend K contract recipient offerCoin askDenom) = .ok r
      ↔ Market.checkOffer offerCoin askDenom = .ok () ∧ ∃ res,
        Tax.swapSend K (Tx.dispatchContext ctx) c
            (newMsgSwapSend K contract recipient offerCoin askDenom) = .ok res
          ∧ r = (res.1, [.swapSend res.2]) := by
  have hhandle : handleSdkMessage K (Tx.dispatchContext ctx) contract c
        (.swapSend (newMsgSwapSend K contract recipient offerCoin askDenom))
      = Market.checkOffer offerCoin askDenom >>= fun _ =>
        (Tax.swapSend K (Tx.dispatchContext ctx) c
          (newMsgSwapSend K contract recipient offerCoin askDenom)).map
            fun res => (res.1, .swapSend res.2) := by
    rw [handleSdkMessage, SwapMsg.validateBasic, validateBasic_newMsgSwapSend hcontract hrecipient,
      signer]
    simp only [newMsgSwapSend, K.mustAccAddress_of_some hcontract, ok_bind, failIf, ne_eq, not_true_eq_false, if_false]
    rfl
  simp only [dispatchMsg, routedSwapSend, sdkDispatchMsg, List.foldlM_cons, List.foldlM_nil,
    hhandle, bind_eq_ok, map_eq_ok_iff]
  constructor
  · rintro ⟨_, ⟨_, ⟨⟨⟩, hcheck, res, hres, rfl⟩, h⟩, hr⟩
    obtain rfl := Except.ok.inj h
    exact ⟨hcheck, res, hres, (Except.ok.inj hr).symm⟩
  · rintro ⟨hcheck, res, hres, rfl⟩
    exact ⟨_, ⟨_, ⟨(), hcheck, res, hres, rfl⟩, rfl⟩, rfl⟩

end Dispatch

/-! ### The tax on an offer -/

section Offer

variable {K : Keepers β} {ctx : Context} {c : Chain β} {msg : MsgSwapSend}

/-- The offer owes no tax: the product with the rate can be formed, and is truncated to zero. -/
def Untaxed (c : Chain β) (offerCoin : Coin) : Prop :=
  Fixed.Fits decFormat (offerCoin.2 * c.params.burnTaxRate.raw)
    ∧ offerCoin.2 * c.params.burnTaxRate.raw < decFormat.scale

/-- The tax on one coin. -/
lemma computeTax_offer_iff {coin : Coin} {taxes : Coins} :
    Tax.computeTax c (CoinSet.ofList [coin]) = .ok taxes
      ↔ Fixed.Fits decFormat (coin.2 * c.params.burnTaxRate.raw)
        ∧ ∀ d, taxes.amountOf d = if coin.1 = d then
          max ((coin.2 * c.params.burnTaxRate.raw).tdiv decFormat.scale) 0 else 0 := by
  rw [Tax.computeTax_eq_ok_iff]
  simp only [CoinSet.amountOf_single]
  constructor
  · intro h
    refine ⟨by simpa using (h coin.1).1, fun d => ?_⟩
    rw [(h d).2]
    split_ifs <;> simp
  · rintro ⟨hfits, htaxes⟩ d
    rw [htaxes d]
    split_ifs
    · exact ⟨hfits, rfl⟩
    · simp [Fixed.Fits]

/-- There is no tax exactly when the offer is untaxed. -/
lemma computeTax_empty_iff {coin : Coin} :
    Tax.computeTax c (CoinSet.ofList [coin]) = .ok ∅ ↔ Untaxed c coin := by
  have hzero : max ((coin.2 * c.params.burnTaxRate.raw).tdiv decFormat.scale) 0 = 0
      ↔ coin.2 * c.params.burnTaxRate.raw < decFormat.scale := by
    rw [max_eq_right_iff, Rounding.tdiv_le_iff decFormat.scale_pos le_rfl, zero_add, one_mul]
  rw [computeTax_offer_iff, Untaxed, ← hzero]
  refine and_congr_right fun _ => ⟨fun h => ?_, fun h d => ?_⟩
  · simpa using (h coin.1).symm
  · rw [h, ite_self, Amounts.amountOf_empty]

/-- The first coin has its own amount. -/
lemma amountOf_of_firstCoin {coins : Coins} {coin : Coin} (h : Tax.firstCoin coins = .ok coin) :
    coins.amountOf coin.1 = coin.2 ∧ coin.2 ≠ 0 := by
  rw [Tax.firstCoin] at h
  split at h
  · exact absurd h panicked_ne_ok
  · next coin' rest hentries =>
      obtain rfl := Except.ok.inj h
      exact Amounts.mem_entries_iff.mp (by rw [hentries]; simp)

/-- The first coin of an offer is the offer. -/
lemma firstCoin_offer {coin : Coin} (hne : coin.2 ≠ 0) :
    Tax.firstCoin (CoinSet.ofList [coin]) = .ok coin := by
  cases h : Tax.firstCoin (CoinSet.ofList [coin]) with
  | ok coin' =>
      obtain ⟨hamount, hne'⟩ := amountOf_of_firstCoin h
      rw [CoinSet.amountOf_single] at hamount
      split_ifs at hamount with hd
      · rw [Prod.ext hd.symm hamount.symm]
      · exact absurd hamount.symm hne'
  | error e =>
      have hmem : (coin.1, coin.2) ∈ (CoinSet.ofList [coin]).entries :=
        Amounts.mem_entries_iff.mpr ⟨by rw [CoinSet.amountOf_single, if_pos rfl], hne⟩
      rw [Tax.firstCoin] at h
      split at h
      · next hentries => simp [hentries] at hmem
      · cases h

/-- A swap-send under reverse charge: the tax of the offer is charged, and the market is handed
what is left. -/
lemma swapSend_eq_ok_iff {sender : AccAddress} {res : Chain β × MsgSwapSendResponse}
    (hrev : isReverseCharge ctx = .ok true)
    (hsender : K.accAddressFromBech32 msg.fromAddress = some sender) :
    Tax.swapSend K ctx c msg = .ok res ↔ ∃ taxes c' net coin,
      Tax.computeTax c (CoinSet.ofList [msg.offerCoin]) = .ok taxes
        ∧ (CoinSet.ofList [msg.offerCoin]).sub taxes = .ok net
        ∧ Tax.chargeTax K c sender taxes false = .ok c' ∧ Tax.firstCoin net = .ok coin
        ∧ Tax.passSwapSend K ctx c' { msg with offerCoin := coin } = .ok res := by
  simp only [Tax.swapSend, Tax.deductTax, hrev, K.mustAccAddress_of_some hsender, ok_bind, not_true_eq_false, if_false,
    bind_eq_ok]
  constructor
  · rintro ⟨_, ⟨taxes, htaxes, net, hnet, c', hc', h⟩, coin, hcoin, hpass⟩
    obtain rfl := Except.ok.inj h
    exact ⟨taxes, c', net, coin, htaxes, hnet, hc', hcoin, hpass⟩
  · rintro ⟨taxes, c', net, coin, htaxes, hnet, hc', hcoin, hpass⟩
    exact ⟨_, ⟨taxes, htaxes, net, hnet, c', hc', rfl⟩, coin, hcoin, hpass⟩

/-- An untaxed offer reaches the market as it is, and nothing is charged. -/
lemma swapSend_of_untaxed (K : Keepers β) (msg : MsgSwapSend) {sender : AccAddress}
    {res : Chain β × MsgSwapSendResponse} (hrev : isReverseCharge ctx = .ok true)
    (hsender : K.accAddressFromBech32 msg.fromAddress = some sender)
    (hpos : 0 < msg.offerCoin.2) (hfree : Untaxed c msg.offerCoin) :
    Tax.swapSend K ctx c msg = .ok res ↔ Tax.passSwapSend K ctx c msg = .ok res := by
  have htaxes := computeTax_empty_iff.mpr hfree
  have hnet : (CoinSet.ofList [msg.offerCoin]).sub ∅ = .ok (CoinSet.ofList [msg.offerCoin]) := by
    refine CoinSet.sub_eq_ok_iff.mpr ⟨fun d => ?_, Amounts.ext_amountOf fun d => by simp⟩
    rw [CoinSet.amountOf_single, Amounts.amountOf_empty]
    split_ifs <;> omega
  have hcharge : Tax.chargeTax K c sender ∅ false = .ok c := by
    rw [Tax.chargeTax, if_neg fun h => h.1 (Amounts.isZero_iff.mpr fun _ => Amounts.amountOf_empty _)]
    rfl
  rw [swapSend_eq_ok_iff hrev hsender]
  constructor
  · rintro ⟨taxes, c', net, coin, htaxes', hnet', hc', hcoin, hpass⟩
    obtain rfl := Except.ok.inj (htaxes.symm.trans htaxes')
    obtain rfl := Except.ok.inj (hnet.symm.trans hnet')
    obtain rfl := Except.ok.inj (hcharge.symm.trans hc')
    obtain rfl := Except.ok.inj ((firstCoin_offer hpos.ne').symm.trans hcoin)
    exact hpass
  · intro hpass
    exact ⟨∅, c, _, msg.offerCoin, htaxes, hnet, hcharge, firstCoin_offer hpos.ne', hpass⟩

/-- A market that keeps the state and answers with the offer it was handed. -/
def recorder : MarketServer β := fun s msg => .ok (s, ⟨msg.offerCoin, msg.offerCoin⟩)

/-- An offer that reaches the market as it is owes no tax. -/
lemma untaxed_of_recorded {sender : AccAddress} {c' : Chain β} {fee : Coin}
    (hrev : isReverseCharge ctx = .ok true)
    (hsender : K.accAddressFromBech32 msg.fromAddress = some sender)
    (h : Tax.swapSend (withMarket K recorder) ctx c msg = .ok (c', ⟨msg.offerCoin, fee⟩)) :
    Untaxed c msg.offerCoin := by
  obtain ⟨taxes, c₁, net, coin, htaxes, hnet, -, hcoin, hpass⟩ :=
    (swapSend_eq_ok_iff (K := withMarket K recorder) hrev hsender).mp h
  have hcoin' : coin = msg.offerCoin :=
    congrArg (fun res => res.2.swapCoin) (Except.ok.inj hpass)
  -- the net amount of the offered denom is the offer itself, so its tax is zero
  have hamount := (amountOf_of_firstCoin hcoin).1
  rw [hcoin', (CoinSet.sub_eq_ok_iff.mp hnet).2, CoinSet.amountOf_safeSub, CoinSet.amountOf_single,
    if_pos rfl] at hamount
  obtain ⟨hfits, hall⟩ := computeTax_offer_iff.mp htaxes
  have htax : taxes.amountOf msg.offerCoin.1 = 0 := by omega
  refine computeTax_empty_iff.mp (computeTax_offer_iff.mpr ⟨hfits, fun d => ?_⟩)
  rw [← hall d, Amounts.amountOf_empty]
  by_cases hd : msg.offerCoin.1 = d
  · rw [← hd, htax]
  · rw [hall d, if_neg hd]

end Offer

/-- **A swap-send of the binding and the same swap-send routed are taxed alike exactly when the
offer is refused on both ways or owes no tax.** The binding deducts nothing. -/
theorem dispatched_alike_iff (K : Keepers β) (O : OtherServers β) (ctx : Context) (c : Chain β)
    (contract recipient : AccAddress) (offerCoin : Coin) (askDenom : Denom)
    (hcontract : K.accAddressFromBech32 (K.accString contract) = some contract)
    (hrecipient : K.accAddressFromBech32 (K.accString recipient) = some recipient) :
    DispatchedAlike K O ctx c contract recipient offerCoin askDenom
      ↔ Market.checkOffer offerCoin askDenom ≠ .ok () ∨ Untaxed c offerCoin := by
  have hrev := Tx.isReverseCharge_dispatchContext ctx
  constructor
  · intro halike
    refine or_iff_not_imp_left.mpr fun hcheck => ?_
    rw [not_not] at hcheck
    -- a market that records its offer tells the two ways apart
    have hcustom : dispatchMsg (withMarket K recorder) O ctx c contract
        (customSwapSend K recipient offerCoin askDenom)
        = .ok (c, [.swapSend ⟨offerCoin, offerCoin⟩]) :=
      (dispatch_custom_eq_ok_iff (K := withMarket K recorder) hcontract hrecipient).mpr
        ⟨hcheck, _, rfl, rfl⟩
    obtain ⟨-, ⟨c', ⟨coin, fee⟩⟩, hrouted, hr⟩ :=
      (dispatch_routed_eq_ok_iff (K := withMarket K recorder) hcontract hrecipient).mp
        ((halike recorder _).mp hcustom)
    simp only [Prod.mk.injEq, List.cons.injEq, ServiceResponse.swapSend.injEq,
      MsgSwapSendResponse.mk.injEq, and_true] at hr
    obtain ⟨rfl, rfl, rfl⟩ := hr
    exact untaxed_of_recorded hrev hcontract hrouted
  · rintro hcond server r
    refine (dispatch_custom_eq_ok_iff (K := withMarket K server) hcontract hrecipient).trans
      (Iff.trans (and_congr_right fun hcheck => ?_)
        (dispatch_routed_eq_ok_iff (K := withMarket K server) hcontract hrecipient).symm)
    have hfree := hcond.resolve_left (not_not.mpr hcheck)
    have hpos : 0 < offerCoin.2 := by
      have hvalid := (failIf_bind_eq_ok.mp hcheck).1
      omega
    refine exists_congr fun res => and_congr_left fun _ => ?_
    exact (swapSend_of_untaxed (withMarket K server)
      (newMsgSwapSend K contract recipient offerCoin askDenom) hrev hcontract hpos hfree).symm

/-- An offer of a hundred units of luna owes half a unit of tax, which is truncated. -/
theorem dispatched_alike_small_offer :
    Untaxed Tax.marketChain ("uluna", 100)
      ∧ DispatchedAlike Tax.marketKeepers Tax.marketServers Tax.plainContext Tax.marketChain "trader"
        "recipient" ("uluna", 100) "usdr" := by
  have hfree : Untaxed Tax.marketChain ("uluna", 100) := by
    constructor <;> decide +kernel
  exact ⟨hfree, (dispatched_alike_iff Tax.marketKeepers Tax.marketServers Tax.plainContext
    Tax.marketChain "trader" "recipient" ("uluna", 100) "usdr" rfl rfl).mpr (Or.inr hfree)⟩

/-- The units of luna a contract and the recorded tax hold after a dispatch. -/
def lunaAfter (r : Chain (Market.State Market.Ledger) × List ServiceResponse) : ℤ × ℤ :=
  (r.1.rest.bank.balance "trader" "uluna", r.1.treasury.epochTaxProceeds.amountOf "uluna")

/-- The coins a dispatch has paid out. -/
def paidCoins (r : Chain (Market.State Market.Ledger) × List ServiceResponse) : List Coin :=
  r.2.filterMap fun
    | .swap res => some res.swapCoin
    | .swapSend res => some res.swapCoin
    | _ => none

/-- **A swap-send of one luna for SDR.** Routed, the contract pays a tax of `5000` units, and the
market swaps `995000`; through the binding it pays no tax, and the market swaps all of it. -/
theorem custom_swapSend_untaxed :
    (∃ r, dispatchMsg Tax.marketKeepers Tax.marketServers Tax.plainContext Tax.marketChain "trader"
        (routedSwapSend Tax.marketKeepers "trader" "recipient" ("uluna", 10 ^ 6) "usdr") = .ok r
      ∧ lunaAfter r = (10 ^ 9 - 10 ^ 6, 5000) ∧ paidCoins r = [("usdr", 975100)])
    ∧ ∃ r, dispatchMsg Tax.marketKeepers Tax.marketServers Tax.plainContext Tax.marketChain "trader"
        (customSwapSend Tax.marketKeepers "recipient" ("uluna", 10 ^ 6) "usdr") = .ok r
      ∧ lunaAfter r = (10 ^ 9 - 10 ^ 6, 0) ∧ paidCoins r = [("usdr", 980000)] := by
  constructor
  · obtain ⟨r, hr, h⟩ := exists_of_returns
      (p := fun r : Chain (Market.State Market.Ledger) × List ServiceResponse =>
        decide (lunaAfter r = (10 ^ 9 - 10 ^ 6, 5000) ∧ paidCoins r = [("usdr", 975100)]))
      (x := dispatchMsg Tax.marketKeepers Tax.marketServers Tax.plainContext Tax.marketChain
        "trader" (routedSwapSend Tax.marketKeepers "trader" "recipient" ("uluna", 10 ^ 6) "usdr"))
      (by decide +kernel)
    exact ⟨r, hr, of_decide_eq_true h⟩
  · obtain ⟨r, hr, h⟩ := exists_of_returns
      (p := fun r : Chain (Market.State Market.Ledger) × List ServiceResponse =>
        decide (lunaAfter r = (10 ^ 9 - 10 ^ 6, 0) ∧ paidCoins r = [("usdr", 980000)]))
      (x := dispatchMsg Tax.marketKeepers Tax.marketServers Tax.plainContext Tax.marketChain
        "trader" (customSwapSend Tax.marketKeepers "recipient" ("uluna", 10 ^ 6) "usdr"))
      (by decide +kernel)
    exact ⟨r, hr, of_decide_eq_true h⟩

end ColumbusCore.Wasm
