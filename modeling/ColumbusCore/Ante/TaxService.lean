import ColumbusCore.Ante.FeeTax

/-!
The tax query of the application (`custom/auth/tx/service.go`).

The query computes the tax by the function of the fee decorator, with keepers of its own. The
application registers it without the keeper of the tax exemption, so that the keeper the function
asks is an empty one, without a store: a look into its store is a panic.

* `TxServer.computeTax`: the query, whose server is registered without a keeper of the exemption;
* `Msg.consults`: the messages for which the list of exemptions is looked at;
* `computeTax_answers_iff`: **the query answers with the tax of the decorator exactly when** no
  message of the transaction is one of those.
-/

namespace ColumbusCore.Ante

open Go
open Tax (Chain TaxedMsg)

variable {β : Type}

/-! ### The query -/

/-- `txServer`, as far as it is not the chain itself. -/
structure TxServer where
  taxexemptionKeeper : ExemptionKeeper

/-- `NewTxServer`: the keeper of the exemption is not set. -/
def newTxServer : TxServer where
  taxexemptionKeeper := none

/-- `ComputeTaxRequest`: the bytes of a transaction, or one that is decoded. -/
structure ComputeTaxRequest where
  txBytes : List UInt8
  tx : Option (List Msg)

/-- The messages of a request. -/
def ComputeTaxRequest.getMsgs (txDecoder : List UInt8 → Outcome (List Msg))
    (req : ComputeTaxRequest) : Outcome (List Msg) :=
  if req.txBytes.length ≠ 0 then txDecoder req.txBytes
  else
    match req.tx with
    | some msgs => pure msgs
    | none => failed "rpc error: code = InvalidArgument desc = empty txBytes is not allowed"

/-- `ComputeTax`, of the server in a state of the chain. -/
def TxServer.computeTax (ts : TxServer) (txDecoder : List UInt8 → Outcome (List Msg))
    (c : Chain β) (req : Option ComputeTaxRequest) : Outcome Coins :=
  match req with
  | none => failed "rpc error: code = InvalidArgument desc = request cannot be nil"
  | some req => do
      let msgs ← req.getMsgs txDecoder
      let (taxAmount, _) ← filterMsgs ts.taxexemptionKeeper c false (∅, ∅) msgs
      pure taxAmount

/-! ### Messages that look at the list -/

mutual

/-- The list of exemptions is looked at for the message: a send, a multi-send with an input, or the
execution of a contract, at any depth. -/
def Msg.consults : Msg → Bool
  | .taxed (.send _) => true
  | .taxed (.multiSend msg) => !msg.inputs.isEmpty
  | .executeContract _ _ _ => true
  | .exec msgs => consultsAny msgs
  | _ => false

/-- It is looked at for one of the messages. -/
def consultsAny : List Msg → Bool
  | [] => false
  | msg :: msgs => msg.consults || consultsAny msgs

end

section Consults

variable {te te' : ExemptionKeeper} {c : Chain β} {simulate : Bool}

/-- Where the list is not looked at, the keeper does not matter. -/
lemma addMsgTax_congr {msg : TaxedMsg} (h : (Msg.taxed msg).consults = false) (taxes : Coins) :
    addMsgTax te c simulate taxes msg = addMsgTax te' c simulate taxes msg := by
  cases msg with
  | send msg => simp [Msg.consults] at h
  | multiSend msg =>
      have hnil : msg.inputs = [] := by simpa [Msg.consults] using h
      simp only [addMsgTax, hnil, List.foldlM_nil]
  | swapSend msg => rfl

mutual

lemma filterMsg_congr (msg : Msg) (h : msg.consults = false) (acc : Coins × Coins) :
    filterMsg te c simulate acc msg = filterMsg te' c simulate acc msg := by
  cases msg with
  | taxed msg => rw [filterMsg, filterMsg, addMsgTax_congr h]
  | exec msgs =>
      have hmsgs : consultsAny msgs = false := by rw [Msg.consults] at h; exact h
      rw [filterMsg, filterMsg, filterMsgs_congr msgs hmsgs]
  | executeContract sender contract funds => simp [Msg.consults] at h
  | instantiateContract funds => rw [filterMsg, filterMsg]
  | instantiateContract2 funds => rw [filterMsg, filterMsg]
  | execInvalid => rw [filterMsg, filterMsg]
  | oracle => rw [filterMsg, filterMsg]
  | other => rw [filterMsg, filterMsg]

lemma filterMsgs_congr (msgs : List Msg) (h : consultsAny msgs = false) (acc : Coins × Coins) :
    filterMsgs te c simulate acc msgs = filterMsgs te' c simulate acc msgs := by
  cases msgs with
  | nil => rw [filterMsgs, filterMsgs]
  | cons msg msgs =>
      rw [consultsAny, Bool.or_eq_false_iff] at h
      rw [filterMsgs, filterMsgs, filterMsg_congr msg h.1]
      refine bind_congr fun acc => ?_
      exact filterMsgs_congr msgs h.2 acc

end

lemma none_isExemptedFromTax_ne_ok {sender : String} {recipients : List String} {b : Bool} :
    ExemptionKeeper.isExemptedFromTax none sender recipients ≠ .ok b := panicked_ne_ok

/-- Without a store, a tax is computed only where the list is not looked at. -/
lemma consults_of_addMsgTax {taxes taxes' : Coins} {msg : TaxedMsg}
    (h : addMsgTax none c simulate taxes msg = .ok taxes') :
    (Msg.taxed msg).consults = false := by
  cases msg with
  | send msg =>
      obtain ⟨exempt, hexempt, -⟩ := bind_eq_ok.mp h
      exact absurd hexempt none_isExemptedFromTax_ne_ok
  | multiSend msg =>
      obtain ⟨tainted, htainted, -⟩ := bind_eq_ok.mp h
      cases hinputs : msg.inputs with
      | nil => simp [Msg.consults, hinputs]
      | cons input inputs =>
          rw [hinputs, List.foldlM_cons] at htainted
          obtain ⟨n, hn, -⟩ := bind_eq_ok.mp htainted
          obtain ⟨exempt, hexempt, -⟩ := bind_eq_ok.mp hn
          exact absurd hexempt none_isExemptedFromTax_ne_ok
  | swapSend msg => rfl

mutual

lemma consults_of_filterMsg {acc r : Coins × Coins} (msg : Msg)
    (h : filterMsg none c simulate acc msg = .ok r) : msg.consults = false := by
  cases msg with
  | taxed msg =>
      rw [filterMsg] at h
      obtain ⟨taxes, htaxes, -⟩ := bind_eq_ok.mp h
      exact consults_of_addMsgTax htaxes
  | exec msgs =>
      rw [filterMsg] at h
      obtain ⟨⟨t, n⟩, hrun, -⟩ := bind_eq_ok.mp h
      rw [Msg.consults]
      exact consultsAny_of_filterMsgs msgs hrun
  | executeContract sender contract funds =>
      rw [filterMsg] at h
      obtain ⟨exempt, hexempt, -⟩ := bind_eq_ok.mp h
      exact absurd hexempt none_isExemptedFromTax_ne_ok
  | instantiateContract funds => rfl
  | instantiateContract2 funds => rfl
  | execInvalid => rfl
  | oracle => rfl
  | other => rfl

lemma consultsAny_of_filterMsgs {acc r : Coins × Coins} (msgs : List Msg)
    (h : filterMsgs none c simulate acc msgs = .ok r) : consultsAny msgs = false := by
  cases msgs with
  | nil => rfl
  | cons msg msgs =>
      rw [filterMsgs] at h
      obtain ⟨acc₁, hmsg, h⟩ := bind_eq_ok.mp h
      rw [consultsAny, consults_of_filterMsg msg hmsg, Bool.false_or]
      exact consultsAny_of_filterMsgs msgs h

end

/-- **When the query answers**: for every decodable transaction whose tax the fee decorator
computes, the registered query returns that tax exactly when the list of exemptions is looked at
for none of its messages. -/
theorem computeTax_answers_iff {txDecoder : List UInt8 → Outcome (List Msg)}
    {req : ComputeTaxRequest} {msgs : List Msg} (hreq : req.getMsgs txDecoder = .ok msgs)
    {taxes nonTaxableTaxes : Coins}
    (htaxes : filterMsgAndComputeTax c false msgs = .ok (taxes, nonTaxableTaxes)) :
    newTxServer.computeTax txDecoder c (some req) = .ok taxes ↔ consultsAny msgs = false := by
  have hquery : newTxServer.computeTax txDecoder c (some req)
      = (filterMsgs none c false (∅, ∅) msgs).map Prod.fst := by
    rw [TxServer.computeTax, hreq]
    show filterMsgs none c false (∅, ∅) msgs >>= _ = _
    cases filterMsgs none c false (∅, ∅) msgs <;> rfl
  rw [hquery, map_eq_ok_iff]
  constructor
  · rintro ⟨r, hrun, -⟩
    exact consultsAny_of_filterMsgs msgs hrun
  · intro h
    refine ⟨(taxes, nonTaxableTaxes), ?_, rfl⟩
    calc filterMsgs none c false (∅, ∅) msgs
        = filterMsgs (some c.exemption) c false (∅, ∅) msgs := filterMsgs_congr msgs h _
      _ = .ok (taxes, nonTaxableTaxes) := htaxes

end Consults

/-- A decoded transaction of one message. -/
def requestOf (msg : Msg) : ComputeTaxRequest := ⟨[], some [msg]⟩

/-- A decoder for requests that carry no bytes. -/
def noBytes : List UInt8 → Outcome (List Msg) := fun _ => failed "tx parse error"

/-- A send of a thousand dollars. -/
def thousandDollars : Msg := .taxed (.send ⟨"alice", "bob", CoinSet.ofList [("uusd", 1000000000)]⟩)

/-- A swap-send of a thousand dollars. -/
def thousandSwapped : Msg := .taxed (.swapSend ⟨"alice", "bob", ("uusd", 1000000000), "uluna"⟩)

/-- **A plain send breaks the query**: the fee decorator taxes it with one dollar, the cap, and the
query panics. -/
theorem computeTax_panics_on_send :
    (∃ taxes nonTaxableTaxes, filterMsgAndComputeTax (Tax.ledgerChain []) false [thousandDollars]
        = .ok (taxes, nonTaxableTaxes) ∧ taxes.amountOf "uusd" = 1000000)
      ∧ newTxServer.computeTax noBytes (Tax.ledgerChain []) (some (requestOf thousandDollars))
        = .error (.panic (.raised "kv store with key <nil> has not been registered in stores")) := by
  refine ⟨?_, rfl⟩
  obtain ⟨⟨taxes, nonTaxableTaxes⟩, h, hamount⟩ := exists_of_returns
    (p := fun r : Coins × Coins => decide (r.1.amountOf "uusd" = 1000000))
    (x := filterMsgAndComputeTax (Tax.ledgerChain []) false [thousandDollars]) (by decide +kernel)
  exact ⟨taxes, nonTaxableTaxes, h, of_decide_eq_true hamount⟩

/-- The query answers for a swap-send. -/
theorem computeTax_answers_swapSend :
    ∃ taxes, newTxServer.computeTax noBytes (Tax.ledgerChain []) (some (requestOf thousandSwapped))
        = .ok taxes ∧ taxes.amountOf "uusd" = 1000000 := by
  obtain ⟨⟨taxes, nonTaxableTaxes⟩, h, hamount⟩ := exists_of_returns
    (p := fun r : Coins × Coins => decide (r.1.amountOf "uusd" = 1000000))
    (x := filterMsgAndComputeTax (Tax.ledgerChain []) false [thousandSwapped]) (by decide +kernel)
  exact ⟨taxes, (computeTax_answers_iff rfl h).mpr rfl, of_decide_eq_true hamount⟩

end ColumbusCore.Ante
