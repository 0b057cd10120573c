import ColumbusCore.Tax.Handlers

/-!
The tax the ante handler computes for the messages of a transaction
(`custom/auth/ante/fee_tax.go`).

The ante handler leaves out the bond denom and the denoms of IBC and caps the tax of a coin; the
tax keeper does neither.

* `computeTax_eq_ok_iff`: the tax of the ante handler, coin by coin;
* `TaxedAlike`, `computeTax_agrees_iff`: the ante handler and the tax keeper compute the same
  tax exactly when no coin is left out or capped at a loss;
* `deductTax_agrees_iff`: **`DeductTax` deducts the tax of the ante handler under reverse charge
  exactly when, besides, no coin is taxed by more than it is**.
-/

namespace ColumbusCore.Ante

open Go Rounding
open Tax (Chain TaxedMsg taxAmount taxAmount_eq)

variable {β : Type}

/-! ### The tax of a coin -/

/-- `sdk.DefaultBondDenom`. -/
def defaultBondDenom : Denom := "stake"

/-- `isIBCDenom`: the prefix `ibc/` and 64 hexadecimal digits, in lower or upper case. -/
def isIBCDenom (d : Denom) : Bool :=
  let l := d.toList.map Char.toLower
  l.take 4 = ['i', 'b', 'c', '/'] && (l.drop 4).length = 64 && (l.drop 4).all isHexDigit

/-- The denoms `computeTax` skips. -/
def isUntaxed (d : Denom) : Bool := d = defaultBondDenom || isIBCDenom d

/-- A tax of at least one hundred in a simulation, and of at most the cap. -/
def capTax (taxCap : ℤ) (simulate : Bool) (taxDue : ℤ) : ℤ :=
  let taxDue := if simulate ∧ taxDue < 100 then 100 else taxDue
  if taxCap < taxDue then taxCap else taxDue

/-- One round of `computeTax`. -/
def addTaxDue (c : Chain β) (simulate : Bool) (taxes : Coins) (coin : Coin) : Outcome Coins :=
  if isUntaxed coin.1 then pure taxes
  else do
    let amount ← taxAmount c.params.burnTaxRate coin.2
    if capTax (c.treasury.getTaxCap coin.1) simulate amount = 0 then pure taxes
    else do
      let tax ← newCoin coin.1 (capTax (c.treasury.getTaxCap coin.1) simulate amount)
      pure (taxes.addCoin tax)

/-- `computeTax`. -/
def computeTax (c : Chain β) (principal : Coins) (simulate : Bool) : Outcome Coins :=
  if c.params.burnTaxRate = 0 then pure ∅
  else principal.entries.foldlM (addTaxDue c simulate) ∅

/-! ### The taxes of a transaction -/

/-- The messages of a transaction, as far as the ante handler looks at them. -/
inductive Msg where
  | taxed (msg : TaxedMsg)
  | instantiateContract (funds : Coins)
  | instantiateContract2 (funds : Coins)
  | executeContract (sender contract : String) (funds : Coins)
  /-- `authz.MsgExec`, with the messages it unpacks to. -/
  | exec (msgs : List Msg)
  /-- `authz.MsgExec` with a message that does not unpack. -/
  | execInvalid
  /-- A prevote or a vote of the oracle module. -/
  | oracle
  | other

/-- `taxexemptionkeeper.Keeper`: the store behind its key, where it has one. -/
abbrev ExemptionKeeper := Option Tax.ExemptionStore

/-- `IsExemptedFromTax`: the store is opened first. -/
def ExemptionKeeper.isExemptedFromTax (te : ExemptionKeeper) (senderAddress : String)
    (recipientAddresses : List String) : Outcome Bool :=
  match te with
  | none => panicked (.raised "kv store with key <nil> has not been registered in stores")
  | some s => pure (s.isExemptedFromTax senderAddress recipientAddresses)

/-- One input of the count of the exempt inputs of a multi-send, `tainted` in the source. -/
def countExempt (te : ExemptionKeeper) (outputAddresses : List String) (tainted : ℕ)
    (input : Tax.InOut) : Outcome ℕ := do
  let exempt ← te.isExemptedFromTax input.address outputAddresses
  pure (if exempt then tainted + 1 else tainted)

/-- The tax of one input of a multi-send. -/
def addInputTax (c : Chain β) (simulate : Bool) (taxes : Coins) (input : Tax.InOut) :
    Outcome Coins := do
  let tax ← computeTax c input.coins simulate
  pure (taxes.add tax)

/-- The tax of a send, a multi-send or a swap-send, added to the taxes so far. -/
def addMsgTax (te : ExemptionKeeper) (c : Chain β) (simulate : Bool) (taxes : Coins) :
    TaxedMsg → Outcome Coins
  | .send msg => do
      let exempt ← te.isExemptedFromTax msg.fromAddress [msg.toAddress]
      if exempt then pure taxes
      else do
        let tax ← computeTax c msg.amount simulate
        pure (taxes.add tax)
  | .multiSend msg => do
      let tainted ← msg.inputs.foldlM (countExempt te (msg.outputs.map Tax.InOut.address)) 0
      if tainted = msg.inputs.length then pure taxes
      else msg.inputs.foldlM (addInputTax c simulate) taxes
  | .swapSend msg => do
      let tax ← computeTax c (CoinSet.ofList [msg.offerCoin]) simulate
      pure (taxes.add tax)

/-- The funds of a contract message count as a refundable tax. -/
def addFundsTax (c : Chain β) (simulate : Bool) (acc : Coins × Coins) (funds : Coins) :
    Outcome (Coins × Coins) := do
  let tax ← computeTax c funds simulate
  pure (acc.1, acc.2.add tax)

mutual

/-- One round of `FilterMsgAndComputeTax`: the taxes and the refundable taxes so far. -/
def filterMsg (te : ExemptionKeeper) (c : Chain β) (simulate : Bool) (acc : Coins × Coins) :
    Msg → Outcome (Coins × Coins)
  | .taxed msg => do
      let taxes ← addMsgTax te c simulate acc.1 msg
      pure (taxes, acc.2)
  | .instantiateContract funds => addFundsTax c simulate acc funds
  | .instantiateContract2 funds => addFundsTax c simulate acc funds
  | .executeContract sender contract funds => do
      let exempt ← te.isExemptedFromTax sender [contract]
      if exempt then pure acc else addFundsTax c simulate acc funds
  | .exec msgs => do
      let (execTaxes, execNonTaxable) ← filterMsgs te c simulate (∅, ∅) msgs
      pure (acc.1.add execTaxes, acc.2.add execNonTaxable)
  | .execInvalid => pure acc
  | .oracle => pure acc
  | .other => pure acc

/-- The loop of `FilterMsgAndComputeTax`. -/
def filterMsgs (te : ExemptionKeeper) (c : Chain β) (simulate : Bool) (acc : Coins × Coins) :
    List Msg → Outcome (Coins × Coins)
  | [] => pure acc
  | msg :: msgs => do
      let acc ← filterMsg te c simulate acc msg
      filterMsgs te c simulate acc msgs

end

/-- `FilterMsgAndComputeTax` of the fee decorator, whose keeper of the exemption has the store of
the chain. -/
def filterMsgAndComputeTax (c : Chain β) (simulate : Bool) (msgs : List Msg) :
    Outcome (Coins × Coins) :=
  filterMsgs (some c.exemption) c simulate (∅, ∅) msgs

/-! ### The keeper of the decorator -/

section Keeper

variable {s : Tax.ExemptionStore} {c : Chain β} {simulate : Bool}

/-- The number of inputs of a multi-send that are exempt. -/
def exemptInputs (s : Tax.ExemptionStore) (msg : Tax.MsgMultiSend) : ℕ :=
  (msg.inputs.filter fun input =>
    s.isExemptedFromTax input.address (msg.outputs.map Tax.InOut.address)).length

lemma foldlM_countExempt (outputAddresses : List String) (l : List Tax.InOut) :
    ∀ n, l.foldlM (countExempt (some s) outputAddresses) n = .ok (n
      + (l.filter fun input => s.isExemptedFromTax input.address outputAddresses).length) := by
  induction l with
  | nil => intro n; rfl
  | cons input l ih =>
      intro n
      have hround : countExempt (some s) outputAddresses n input
          = .ok (if s.isExemptedFromTax input.address outputAddresses then n + 1 else n) := rfl
      rw [List.foldlM_cons, hround, ok_bind, ih, List.filter_cons]
      split_ifs
      · rw [List.length_cons]
        congr 1
        omega
      · rfl

lemma addMsgTax_send (taxes : Coins) (msg : Tax.MsgSend) :
    addMsgTax (some s) c simulate taxes (.send msg)
      = if s.isExemptedFromTax msg.fromAddress [msg.toAddress] then pure taxes
        else computeTax c msg.amount simulate >>= fun tax => pure (taxes.add tax) := rfl

lemma addMsgTax_multiSend (taxes : Coins) (msg : Tax.MsgMultiSend) :
    addMsgTax (some s) c simulate taxes (.multiSend msg)
      = if exemptInputs s msg = msg.inputs.length then pure taxes
        else msg.inputs.foldlM (addInputTax c simulate) taxes := by
  rw [addMsgTax, foldlM_countExempt, ok_bind, exemptInputs, zero_add]

lemma filterMsg_executeContract (acc : Coins × Coins) (sender contract : String) (funds : Coins) :
    filterMsg (some s) c simulate acc (.executeContract sender contract funds)
      = if s.isExemptedFromTax sender [contract] then pure acc
        else addFundsTax c simulate acc funds := by
  rw [filterMsg]
  rfl

end Keeper

/-! ### The tax, coin by coin -/

/-- The body of the loop of `computeTax`. -/
def dueBody (c : Chain β) (simulate : Bool) (coin : Coin) : Outcome ℤ :=
  if coin.2 = 0 ∨ isUntaxed coin.1 then .ok 0
  else taxAmount c.params.burnTaxRate coin.2 >>= fun amount =>
    if capTax (c.treasury.getTaxCap coin.1) simulate amount < 0 then panicked .negativeAmount
    else .ok (capTax (c.treasury.getTaxCap coin.1) simulate amount)

lemma addTaxDue_eq (c : Chain β) (simulate : Bool) (taxes : Coins) {coin : Coin}
    (h0 : coin.2 ≠ 0) :
    addTaxDue c simulate taxes coin = dueBody c simulate coin >>= fun y =>
      .ok (taxes.addCoin (coin.1, y)) := by
  rw [addTaxDue, dueBody]
  by_cases hu : isUntaxed coin.1
  · rw [if_pos hu, if_pos (Or.inr hu), ok_bind, CoinSet.addCoin_zero]
    rfl
  · rw [if_neg hu, if_neg (by simp [h0, hu])]
    cases taxAmount c.params.burnTaxRate coin.2 with
    | error e => rfl
    | ok amount =>
        rw [ok_bind, ok_bind]
        exact CoinSet.addCoin_unless_zero taxes coin.1 _

/-- **The tax of the ante handler**, at every denom. -/
theorem computeTax_eq_ok_iff {c : Chain β} {principal taxes : Coins} {simulate : Bool} :
    computeTax c principal simulate = .ok taxes ↔
      if c.params.burnTaxRate = 0 then taxes = ∅
      else ∀ d, dueBody c simulate (d, principal.amountOf d) = .ok (taxes.amountOf d) := by
  rw [computeTax]
  split_ifs
  · simp [eq_comm]
  · refine CoinSet.coinwise_eq_ok_iff (fun acc e he => addTaxDue_eq c simulate acc ?_)
      fun d => by simp [dueBody]
    exact (Amounts.mem_entries_iff.mp (show (e.1, e.2) ∈ principal.entries from he)).2

lemma dueBody_eq_ok_iff {c : Chain β} {d : Denom} {x y : ℤ} (hx : x ≠ 0)
    (hu : isUntaxed d = false) :
    dueBody c false (d, x) = .ok y ↔ Fixed.Fits decFormat (x * c.params.burnTaxRate.raw)
      ∧ 0 ≤ y ∧ y = min ((x * c.params.burnTaxRate.raw).tdiv decFormat.scale)
        (c.treasury.getTaxCap d) := by
  rw [dueBody, if_neg (by simp [hx, hu]), taxAmount_eq]
  dsimp only
  split_ifs with hfit
  · rw [ok_bind]
    have hcap : ∀ t : ℤ, capTax (c.treasury.getTaxCap d) false t
        = min t (c.treasury.getTaxCap d) := fun t => by
      simp only [capTax, Bool.false_eq_true, false_and, if_false]
      split_ifs <;> omega
    rw [hcap]
    split_ifs with hneg
    · simp only [panicked, reduceCtorEq, false_iff]
      omega
    · simp only [Except.ok.injEq, hfit, true_and]
      omega
  · simp [panicked, hfit]

lemma isValid_computeTax {c : Chain β} {principal taxes : Coins} {simulate : Bool}
    (h : computeTax c principal simulate = .ok taxes) : taxes.IsValid := by
  rw [computeTax_eq_ok_iff] at h
  split_ifs at h
  · rw [h]
    exact CoinSet.isValid_empty
  · refine CoinSet.isValid_iff.mpr fun d => ?_
    have hd := h d
    rw [dueBody] at hd
    split_ifs at hd
    · rw [← Except.ok.inj hd]
    · obtain ⟨amount, -, hd⟩ := bind_eq_ok.mp hd
      split_ifs at hd with hneg
      · simp [panicked] at hd
      · rw [← Except.ok.inj hd]
        exact not_lt.mp hneg

/-! ### The taxes of a transaction, message by message -/

/-- The tax of one message. -/
def leafTax (c : Chain β) (simulate : Bool) (msg : TaxedMsg) : Outcome Coins :=
  addMsgTax (some c.exemption) c simulate ∅ msg

lemma addInputTax_eq (c : Chain β) (simulate : Bool) (taxes : Coins) (input : Tax.InOut) :
    addInputTax c simulate taxes input = (computeTax c input.coins simulate).map taxes.add := by
  rw [addInputTax]
  cases computeTax c input.coins simulate <;> rfl

/-- The tax of a message is added to the taxes so far. -/
lemma addMsgTax_eq (te : ExemptionKeeper) (c : Chain β) (simulate : Bool) (taxes : Coins)
    (msg : TaxedMsg) :
    addMsgTax te c simulate taxes msg = (addMsgTax te c simulate ∅ msg).map taxes.add := by
  have hadd : ∀ x : Outcome Coins, (x >>= fun tax => pure (taxes.add tax))
      = (x >>= fun tax => pure (CoinSet.add ∅ tax)).map taxes.add := fun x => by
    cases x with
    | error e => rfl
    | ok tax => simp [Except.map]
  cases msg with
  | send msg =>
      rw [addMsgTax, addMsgTax]
      cases te.isExemptedFromTax msg.fromAddress [msg.toAddress] with
      | error e => rfl
      | ok exempt =>
          rw [ok_bind, ok_bind]
          split_ifs
          · simp [Except.map]
          · exact hadd _
  | multiSend msg =>
      rw [addMsgTax, addMsgTax]
      cases msg.inputs.foldlM (countExempt te (msg.outputs.map Tax.InOut.address)) 0 with
      | error e => rfl
      | ok tainted =>
          rw [ok_bind, ok_bind]
          split_ifs
          · simp [Except.map]
          · rw [← foldlM_op CoinSet.add_assoc' (addInputTax_eq c simulate), CoinSet.add_empty]
  | swapSend msg => exact hadd _

mutual

/-- The sends, multi-sends and swap-sends the ante handler finds in a message. -/
def Msg.leaves : Msg → List TaxedMsg
  | .taxed msg => [msg]
  | .exec msgs => leavesOf msgs
  | _ => []

/-- And in the messages of a transaction. -/
def leavesOf : List Msg → List TaxedMsg
  | [] => []
  | msg :: msgs => msg.leaves ++ leavesOf msgs

end

/-- The taxes of some messages, one by one. -/
def LeafTaxes (c : Chain β) (simulate : Bool) (msgs : List TaxedMsg) (taxes : List Coins) : Prop :=
  List.Forall₂ (fun msg tax => leafTax c simulate msg = .ok tax) msgs taxes

/-- The amount of a denom in several coin sets. -/
def totalOf (l : List Coins) (d : Denom) : ℤ := (l.map fun c => c.amountOf d).sum

lemma totalOf_append (l l' : List Coins) (d : Denom) :
    totalOf (l ++ l') d = totalOf l d + totalOf l' d := by
  simp [totalOf]

mutual

/-- The taxes of a message are those of its leaves. -/
lemma filterMsg_taxes {c : Chain β} {simulate : Bool} {acc r : Coins × Coins} (msg : Msg)
    (h : filterMsg (some c.exemption) c simulate acc msg = .ok r) :
    ∃ taxes, LeafTaxes c simulate msg.leaves taxes
      ∧ ∀ d, r.1.amountOf d = acc.1.amountOf d + totalOf taxes d := by
  have hfunds : ∀ funds, addFundsTax c simulate acc funds = .ok r → r.1 = acc.1 :=
    fun funds h => by
      obtain ⟨tax, -, h⟩ := bind_eq_ok.mp h
      rw [← Except.ok.inj h]
  have hnone : r.1 = acc.1 → ∃ taxes, LeafTaxes c simulate [] taxes
      ∧ ∀ d, r.1.amountOf d = acc.1.amountOf d + totalOf taxes d := fun heq =>
    ⟨[], List.Forall₂.nil, fun d => by simp [heq, totalOf]⟩
  cases msg with
  | taxed msg =>
      rw [filterMsg, addMsgTax_eq, ← leafTax] at h
      obtain ⟨taxes, htaxes, h⟩ := bind_eq_ok.mp h
      obtain ⟨tax, htax, rfl⟩ := map_eq_ok_iff.mp htaxes
      refine ⟨[tax], List.Forall₂.cons htax List.Forall₂.nil, fun d => ?_⟩
      rw [← Except.ok.inj h]
      simp [totalOf]
  | instantiateContract funds =>
      rw [filterMsg] at h
      exact hnone (hfunds _ h)
  | instantiateContract2 funds =>
      rw [filterMsg] at h
      exact hnone (hfunds _ h)
  | executeContract sender contract funds =>
      rw [filterMsg_executeContract] at h
      split_ifs at h
      · exact hnone (by rw [← Except.ok.inj h])
      · exact hnone (hfunds _ h)
  | exec msgs =>
      rw [filterMsg] at h
      obtain ⟨⟨t, n⟩, hrun, h⟩ := bind_eq_ok.mp h
      obtain ⟨taxes, htaxes, hsum⟩ := filterMsgs_taxes msgs hrun
      refine ⟨taxes, htaxes, fun d => ?_⟩
      have hd := hsum d
      rw [← Except.ok.inj h]
      simp only [CoinSet.amountOf_add]
      simp only [Amounts.amountOf_empty, zero_add] at hd
      rw [hd]
  | execInvalid =>
      rw [filterMsg] at h
      exact hnone (by rw [← Except.ok.inj h])
  | oracle =>
      rw [filterMsg] at h
      exact hnone (by rw [← Except.ok.inj h])
  | other =>
      rw [filterMsg] at h
      exact hnone (by rw [← Except.ok.inj h])

/-- **The taxes of a transaction** are those of its sends, multi-sends and swap-sends, at any
depth of nesting. -/
theorem filterMsgs_taxes {c : Chain β} {simulate : Bool} {acc r : Coins × Coins}
    (msgs : List Msg) (h : filterMsgs (some c.exemption) c simulate acc msgs = .ok r) :
    ∃ taxes, LeafTaxes c simulate (leavesOf msgs) taxes
      ∧ ∀ d, r.1.amountOf d = acc.1.amountOf d + totalOf taxes d := by
  cases msgs with
  | nil =>
      rw [filterMsgs] at h
      exact ⟨[], List.Forall₂.nil, fun d => by rw [← Except.ok.inj h]; simp [totalOf]⟩
  | cons msg msgs =>
      rw [filterMsgs] at h
      obtain ⟨acc₁, hmsg, h⟩ := bind_eq_ok.mp h
      obtain ⟨taxes₁, htaxes₁, hsum₁⟩ := filterMsg_taxes msg hmsg
      obtain ⟨taxes₂, htaxes₂, hsum₂⟩ := filterMsgs_taxes msgs h
      refine ⟨taxes₁ ++ taxes₂, List.rel_append htaxes₁ htaxes₂, fun d => ?_⟩
      rw [hsum₂, hsum₁, totalOf_append]
      ring

end

/-- A pair of valid coin sets. -/
def ValidPair (r : Coins × Coins) : Prop := r.1.IsValid ∧ r.2.IsValid

lemma isValid_addMsgTax {te : ExemptionKeeper} {c : Chain β} {simulate : Bool}
    {taxes taxes' : Coins} {msg : TaxedMsg} (hv : taxes.IsValid)
    (h : addMsgTax te c simulate taxes msg = .ok taxes') : taxes'.IsValid := by
  have hadd : ∀ {acc acc' coins : Coins}, acc.IsValid →
      (computeTax c coins simulate >>= fun tax => pure (acc.add tax)) = .ok acc' →
      acc'.IsValid := by
    intro acc acc' coins hacc hrun
    obtain ⟨tax, htax, hrun⟩ := bind_eq_ok.mp hrun
    rw [← Except.ok.inj hrun]
    exact hacc.add (isValid_computeTax htax)
  cases msg with
  | send msg =>
      obtain ⟨exempt, -, h⟩ := bind_eq_ok.mp h
      split_ifs at h
      · rwa [← Except.ok.inj h]
      · exact hadd hv h
  | multiSend msg =>
      obtain ⟨tainted, -, h⟩ := bind_eq_ok.mp h
      split_ifs at h
      · rwa [← Except.ok.inj h]
      · exact foldlM_invariant CoinSet.IsValid h hv fun input _ acc acc' hacc hround =>
          hadd hacc hround
  | swapSend msg => exact hadd hv h

lemma validPair_addFundsTax {c : Chain β} {simulate : Bool} {acc r : Coins × Coins}
    {funds : Coins} (hv : ValidPair acc) (h : addFundsTax c simulate acc funds = .ok r) :
    ValidPair r := by
  obtain ⟨tax, htax, h⟩ := bind_eq_ok.mp h
  rw [← Except.ok.inj h]
  exact ⟨hv.1, hv.2.add (isValid_computeTax htax)⟩

mutual

lemma validPair_filterMsg {te : ExemptionKeeper} {c : Chain β} {simulate : Bool}
    {acc r : Coins × Coins} (hv : ValidPair acc) (msg : Msg) (h : filterMsg te c simulate acc msg = .ok r) :
    ValidPair r := by
  cases msg with
  | taxed msg =>
      rw [filterMsg] at h
      obtain ⟨taxes, htaxes, h⟩ := bind_eq_ok.mp h
      rw [← Except.ok.inj h]
      exact ⟨isValid_addMsgTax hv.1 htaxes, hv.2⟩
  | instantiateContract funds =>
      rw [filterMsg] at h
      exact validPair_addFundsTax hv h
  | instantiateContract2 funds =>
      rw [filterMsg] at h
      exact validPair_addFundsTax hv h
  | executeContract sender contract funds =>
      rw [filterMsg] at h
      obtain ⟨exempt, -, h⟩ := bind_eq_ok.mp h
      split_ifs at h
      · rwa [← Except.ok.inj h]
      · exact validPair_addFundsTax hv h
  | exec msgs =>
      rw [filterMsg] at h
      obtain ⟨⟨t, n⟩, hrun, h⟩ := bind_eq_ok.mp h
      have hexec := validPair_filterMsgs ⟨CoinSet.isValid_empty, CoinSet.isValid_empty⟩ msgs hrun
      rw [← Except.ok.inj h]
      exact ⟨hv.1.add hexec.1, hv.2.add hexec.2⟩
  | execInvalid =>
      rw [filterMsg] at h
      rwa [← Except.ok.inj h]
  | oracle =>
      rw [filterMsg] at h
      rwa [← Except.ok.inj h]
  | other =>
      rw [filterMsg] at h
      rwa [← Except.ok.inj h]

/-- The computed taxes are valid coins. -/
lemma validPair_filterMsgs {te : ExemptionKeeper} {c : Chain β} {simulate : Bool}
    {acc r : Coins × Coins} (hv : ValidPair acc) (msgs : List Msg) (h : filterMsgs te c simulate acc msgs = .ok r) :
    ValidPair r := by
  cases msgs with
  | nil =>
      rw [filterMsgs] at h
      rwa [← Except.ok.inj h]
  | cons msg msgs =>
      rw [filterMsgs] at h
      obtain ⟨acc₁, hmsg, h⟩ := bind_eq_ok.mp h
      exact validPair_filterMsgs (validPair_filterMsg hv msg hmsg) msgs h

end

/-- The taxes of a transaction can fail by an overflow or a negative coin only. -/
lemma computeTax_error {c : Chain β} {principal : Coins} {simulate : Bool} {x : Fault}
    (h : computeTax c principal simulate = .error x) :
    x = .panic .overflow ∨ x = .panic .negativeAmount := by
  rw [computeTax] at h
  split_ifs at h
  · exact absurd h (by simp)
  · obtain ⟨e, -, he⟩ := CoinSet.coinwise_eq_error (fun acc e he => addTaxDue_eq c simulate acc
      (Amounts.mem_entries_iff.mp (show (e.1, e.2) ∈ principal.entries from he)).2) h
    rw [dueBody] at he
    split_ifs at he
    rcases bind_eq_error.mp he with he | ⟨amount, -, he⟩
    · rw [taxAmount_eq] at he
      split_ifs at he
      exact Or.inl (Except.error.inj he).symm
    · split_ifs at he
      exact Or.inr (Except.error.inj he).symm

section Fault

variable {c : Chain β} {simulate : Bool} {x : Fault}

lemma computeTax_ne (hx : x ≠ .panic .overflow) (hx' : x ≠ .panic .negativeAmount)
    (principal : Coins) : computeTax c principal simulate ≠ .error x := fun h =>
  (computeTax_error h).elim hx hx'

lemma addMsgTax_ne (hx : x ≠ .panic .overflow) (hx' : x ≠ .panic .negativeAmount)
    (taxes : Coins) (msg : TaxedMsg) :
    addMsgTax (some c.exemption) c simulate taxes msg ≠ .error x := by
  cases msg with
  | send msg =>
      rw [addMsgTax_send]
      split_ifs
      · simp
      · exact bind_ne_error (computeTax_ne hx hx' _) fun _ _ => by simp
  | multiSend msg =>
      rw [addMsgTax_multiSend]
      split_ifs
      · simp
      · exact foldlM_ne_error (fun _ => True) trivial (fun _ _ _ _ _ _ => trivial)
          fun input _ acc _ => bind_ne_error (computeTax_ne hx hx' _) fun _ _ => by simp
  | swapSend msg => exact bind_ne_error (computeTax_ne hx hx' _) fun _ _ => by simp

mutual

lemma filterMsg_ne (hx : x ≠ .panic .overflow) (hx' : x ≠ .panic .negativeAmount)
    (acc : Coins × Coins) (msg : Msg) :
    filterMsg (some c.exemption) c simulate acc msg ≠ .error x := by
  have hfunds : ∀ funds, addFundsTax c simulate acc funds ≠ .error x := fun funds =>
    bind_ne_error (computeTax_ne hx hx' _) fun _ _ => by simp
  cases msg with
  | taxed msg =>
      rw [filterMsg]
      exact bind_ne_error (addMsgTax_ne hx hx' _ _) fun _ _ => by simp
  | instantiateContract funds =>
      rw [filterMsg]
      exact hfunds _
  | instantiateContract2 funds =>
      rw [filterMsg]
      exact hfunds _
  | executeContract sender contract funds =>
      rw [filterMsg_executeContract]
      split_ifs
      · simp
      · exact hfunds _
  | exec msgs =>
      rw [filterMsg]
      exact bind_ne_error (filterMsgs_ne hx hx' (∅, ∅) msgs) fun _ _ => by simp
  | execInvalid => simp [filterMsg]
  | oracle => simp [filterMsg]
  | other => simp [filterMsg]

lemma filterMsgs_ne (hx : x ≠ .panic .overflow) (hx' : x ≠ .panic .negativeAmount)
    (acc : Coins × Coins) (msgs : List Msg) :
    filterMsgs (some c.exemption) c simulate acc msgs ≠ .error x := by
  cases msgs with
  | nil => simp [filterMsgs]
  | cons msg msgs =>
      rw [filterMsgs]
      exact bind_ne_error (filterMsg_ne hx hx' acc msg) fun acc₁ _ =>
        filterMsgs_ne hx hx' acc₁ msgs

end

end Fault

/-! ### Two ways to the same tax -/

/-- The tax of a coin does not depend on who computes it: a denom the ante handler skips has a
tax below one, and the tax of any other denom is neither negative nor a unit above its cap. -/
def TaxedAlike (c : Chain β) (coin : Coin) : Prop :=
  Fixed.Fits decFormat (coin.2 * c.params.burnTaxRate.raw)
    ∧ if isUntaxed coin.1 then coin.2 * c.params.burnTaxRate.raw < decFormat.scale
      else 0 ≤ c.treasury.getTaxCap coin.1
        ∧ -(decFormat.scale : ℤ) < coin.2 * c.params.burnTaxRate.raw
        ∧ coin.2 * c.params.burnTaxRate.raw
          < (c.treasury.getTaxCap coin.1 + 1) * decFormat.scale

instance (c : Chain β) (coin : Coin) : Decidable (TaxedAlike c coin) :=
  inferInstanceAs (Decidable (_ ∧ _))

/-- A coin is taxed alike exactly when both loops compute the same amount for it. -/
lemma taxedAlike_iff {c : Chain β} {d : Denom} {x : ℤ} (hx : x ≠ 0) :
    TaxedAlike c (d, x) ↔ Fixed.Fits decFormat (x * c.params.burnTaxRate.raw)
      ∧ dueBody c false (d, x)
        = .ok (max ((x * c.params.burnTaxRate.raw).tdiv decFormat.scale) 0) := by
  rw [TaxedAlike]
  refine and_congr_right fun hfit => ?_
  have hS := decFormat.scale_pos
  dsimp only
  cases hu : isUntaxed d with
  | true =>
      rw [if_pos rfl, dueBody, if_pos (Or.inr hu), Except.ok.injEq, eq_comm, max_eq_right_iff,
        tdiv_le_iff hS le_rfl, zero_add, one_mul]
  | false =>
      rw [if_neg (by simp), dueBody_eq_ok_iff hx hu, ← tdiv_nonneg_iff hS]
      constructor
      · rintro ⟨hcap, h0, hlt⟩
        have hle := (tdiv_le_iff hS hcap).mpr hlt
        exact ⟨hfit, le_max_right _ _, by omega⟩
      · rintro ⟨-, -, hmax⟩
        have hcap : 0 ≤ c.treasury.getTaxCap d := by omega
        refine ⟨hcap, by omega, (tdiv_le_iff hS hcap).mp (by omega)⟩

/-- **One tax or two.** For coins, the ante handler and the tax keeper compute the same tax
exactly when the rate is zero or every coin is taxed alike. -/
theorem computeTax_agrees_iff (c : Chain β) (coins : Coins) :
    (∃ taxes, computeTax c coins false = .ok taxes ∧ Tax.computeTax c coins = .ok taxes)
      ↔ c.params.burnTaxRate = 0 ∨ ∀ coin ∈ coins.entries, TaxedAlike c coin := by
  constructor
  · rintro ⟨taxes, hante, hkeeper⟩
    rw [computeTax_eq_ok_iff] at hante
    rw [Tax.computeTax_eq_ok_iff] at hkeeper
    split_ifs at hante with hrate
    · exact Or.inl hrate
    · refine Or.inr fun coin hcoin => ?_
      obtain ⟨hx, h0⟩ := Amounts.mem_entries_iff.mp (show (coin.1, coin.2) ∈ _ from hcoin)
      obtain ⟨hfit, hmax⟩ := hkeeper coin.1
      have hdue := hante coin.1
      rw [hx] at hfit hmax hdue
      exact (taxedAlike_iff h0).mpr ⟨hfit, by rw [hdue, hmax]⟩
  · intro h
    by_cases hrate : c.params.burnTaxRate = 0
    · refine ⟨∅, ?_, ?_⟩
      · rw [computeTax_eq_ok_iff, if_pos hrate]
      · rw [Tax.computeTax_eq_ok_iff]
        intro d
        simp [hrate, Fixed.Fits]
    · have halike := h.resolve_left hrate
      have hcoin : ∀ d, coins.amountOf d ≠ 0 → TaxedAlike c (d, coins.amountOf d) := fun d hd =>
        halike _ (Amounts.mem_entries_iff.mpr ⟨rfl, hd⟩)
      have hfit : ∀ d, Fixed.Fits decFormat (coins.amountOf d * c.params.burnTaxRate.raw) := by
        intro d
        by_cases hd : coins.amountOf d = 0
        · simp [hd, Fixed.Fits]
        · exact (hcoin d hd).1
      obtain ⟨taxes, htaxes⟩ := Tax.exists_computeTax hfit
      refine ⟨taxes, ?_, htaxes⟩
      rw [computeTax_eq_ok_iff, if_neg hrate]
      intro d
      rw [(Tax.computeTax_eq_ok_iff.mp htaxes d).2]
      by_cases hd : coins.amountOf d = 0
      · simp [hd, dueBody]
      · exact ((taxedAlike_iff hd).mp (hcoin d hd)).2

/-- A deduction under reverse charge that skips the charge itself: it returns exactly when the tax
of the keeper is defined and within the coins. -/
lemma deductTax_skipped {K : Tax.Keepers β} {ctx : Tax.Context} {c c' : Chain β}
    {sender : AccAddress} {coins net : Coins} (hrev : Tax.isReverseCharge ctx = .ok true)
    (h : Tax.deductTax K ctx c sender coins true = .ok (net, c')) :
    ∃ taxes, Tax.computeTax c coins = .ok taxes ∧ net = CoinSet.safeSub coins taxes
      ∧ ∀ d, taxes.amountOf d ≤ coins.amountOf d := by
  rw [Tax.deductTax, hrev, ok_bind] at h
  simp only [not_true_eq_false, if_false] at h
  obtain ⟨taxes, htaxes, h⟩ := bind_eq_ok.mp h
  obtain ⟨net', hnet, h⟩ := bind_eq_ok.mp h
  obtain ⟨c₁, -, h⟩ := bind_eq_ok.mp h
  obtain ⟨rfl, -⟩ := Prod.ext_iff.mp (Except.ok.inj h)
  obtain ⟨hle, rfl⟩ := CoinSet.sub_eq_ok_iff.mp hnet
  exact ⟨taxes, htaxes, rfl, hle⟩

/-- Two taxes that leave the same coins are the same. -/
lemma safeSub_right_inj {coins taxes taxes' : Coins}
    (h : CoinSet.safeSub coins taxes = CoinSet.safeSub coins taxes') : taxes = taxes' := by
  refine Amounts.ext_amountOf fun d => ?_
  have hd := congrArg (fun t : Coins => t.amountOf d) h
  simp only [CoinSet.amountOf_safeSub] at hd
  omega

/-- **One tax or two.** For valid coins in a reverse-charge context, `DeductTax` takes the tax that
the ante handler computes from the coins and charges it to the sender, failing only where the
charge does, exactly when the rate is zero, or every coin is taxed alike and by no more than its
amount. -/
theorem deductTax_agrees_iff (K : Tax.Keepers β) {ctx : Tax.Context} (c : Chain β)
    (sender : AccAddress) {coins : Coins} (hrev : Tax.isReverseCharge ctx = .ok true)
    (hvalid : coins.IsValid) :
    (∃ taxes, computeTax c coins false = .ok taxes
        ∧ ∀ skipDeduct, Tax.deductTax K ctx c sender coins skipDeduct
          = (Tax.chargeTax K c sender taxes skipDeduct).map (CoinSet.safeSub coins taxes, ·))
      ↔ c.params.burnTaxRate = 0 ∨ ∀ coin ∈ coins.entries, TaxedAlike c coin
        ∧ coin.2 * c.params.burnTaxRate.raw < (coin.2 + 1) * decFormat.scale := by
  have hvalid' := CoinSet.isValid_iff.mp hvalid
  constructor
  · rintro ⟨taxes, hante, hdeduct⟩
    -- the charge itself is skipped, so that the deduction returns
    have hskip : Tax.deductTax K ctx c sender coins true
        = .ok (CoinSet.safeSub coins taxes, c) :=
      (hdeduct true).trans (by simp [Tax.chargeTax, Except.map])
    obtain ⟨taxes', hkeeper, hnet, hle⟩ := deductTax_skipped hrev hskip
    obtain rfl := safeSub_right_inj hnet
    refine ((computeTax_agrees_iff c coins).mp ⟨taxes, hante, hkeeper⟩).imp_right
      fun halike coin hcoin => ⟨halike coin hcoin, ?_⟩
    obtain ⟨hx, -⟩ := Amounts.mem_entries_iff.mp (show (coin.1, coin.2) ∈ _ from hcoin)
    have hcoin0 := hx ▸ hvalid' coin.1
    have htax := hle coin.1
    rw [(Tax.computeTax_eq_ok_iff.mp hkeeper coin.1).2, hx] at htax
    exact (tdiv_le_iff decFormat.scale_pos hcoin0).mp ((le_max_left _ _).trans htax)
  · intro h
    obtain ⟨taxes, hante, hkeeper⟩ := (computeTax_agrees_iff c coins).mpr
      (h.imp_right fun hcoins coin hcoin => (hcoins coin hcoin).1)
    refine ⟨taxes, hante, fun skipDeduct => ?_⟩
    have hle : ∀ d, taxes.amountOf d ≤ coins.amountOf d := by
      intro d
      rw [(Tax.computeTax_eq_ok_iff.mp hkeeper d).2]
      refine max_le ?_ (hvalid' d)
      by_cases hd : coins.amountOf d = 0
      · simp [hd]
      · refine (tdiv_le_iff decFormat.scale_pos (hvalid' d)).mpr ?_
        rcases h with hrate | hcoins
        · have hscale : (0 : ℤ) < decFormat.scale := by exact_mod_cast decFormat.scale_pos
          rw [hrate, Fixed.zero_raw, mul_zero]
          exact mul_pos (by linarith [hvalid' d]) hscale
        · exact (hcoins (d, coins.amountOf d) (Amounts.mem_entries_iff.mpr ⟨rfl, hd⟩)).2
    rw [Tax.deductTax, hrev, ok_bind, if_neg (by simp), hkeeper, ok_bind,
      CoinSet.sub_eq_ok_iff.mpr ⟨hle, rfl⟩, ok_bind]
    cases Tax.chargeTax K c sender taxes skipDeduct <;> rfl

/-- A send of a hundred dollars at the default rate, whose tax of half a dollar is below the cap. -/
theorem deductTax_agrees_below_cap :
    ∃ taxes, computeTax (Tax.ledgerChain [("sender", "uusd", 100000000)])
        (CoinSet.ofList [("uusd", 100000000)]) false = .ok taxes
      ∧ ∀ skipDeduct, Tax.deductTax Tax.ledgerKeepers Tax.reverseContext
          (Tax.ledgerChain [("sender", "uusd", 100000000)]) "sender"
          (CoinSet.ofList [("uusd", 100000000)]) skipDeduct
        = (Tax.chargeTax Tax.ledgerKeepers (Tax.ledgerChain [("sender", "uusd", 100000000)])
            "sender" taxes skipDeduct).map
          (CoinSet.safeSub (CoinSet.ofList [("uusd", 100000000)]) taxes, ·) :=
  (deductTax_agrees_iff Tax.ledgerKeepers (Tax.ledgerChain [("sender", "uusd", 100000000)])
    "sender" rfl (by decide)).mpr (.inr (by decide +kernel))

/-- A send of a thousand dollars at the default rate, with the default cap of a million units:
the ante handler asks for one dollar, and a deduction under reverse charge takes five from the
sender. -/
theorem deductTax_above_cap :
    ∃ due net c',
      computeTax (Tax.ledgerChain [("sender", "uusd", 1000000000)])
        (CoinSet.ofList [("uusd", 1000000000)]) false = .ok due
      ∧ Tax.deductTax Tax.ledgerKeepers Tax.reverseContext
          (Tax.ledgerChain [("sender", "uusd", 1000000000)]) "sender"
          (CoinSet.ofList [("uusd", 1000000000)]) false = .ok (net, c')
      ∧ due.amountOf "uusd" = 1000000 ∧ net.amountOf "uusd" = 1000000000 - 5000000
      ∧ c'.rest.balance "sender" "uusd" = 1000000000 - 5000000 := by
  obtain ⟨due, hdue, h1⟩ := exists_of_returns (p := fun t : Coins => t.amountOf "uusd" = 1000000)
    (x := computeTax (Tax.ledgerChain [("sender", "uusd", 1000000000)])
      (CoinSet.ofList [("uusd", 1000000000)]) false)
    (by decide +kernel)
  obtain ⟨⟨net, c'⟩, hdeducted, h2⟩ :=
    exists_of_returns (p := fun r : Coins × Chain Tax.Ledger =>
        decide (r.1.amountOf "uusd" = 1000000000 - 5000000)
          && decide (r.2.rest.balance "sender" "uusd" = 1000000000 - 5000000))
      (x := Tax.deductTax Tax.ledgerKeepers Tax.reverseContext
        (Tax.ledgerChain [("sender", "uusd", 1000000000)]) "sender"
        (CoinSet.ofList [("uusd", 1000000000)]) false)
      (by decide +kernel)
  obtain ⟨hnet, hbalance⟩ := Bool.and_eq_true_iff.mp h2
  exact ⟨due, net, c', hdue, hdeducted, of_decide_eq_true h1, of_decide_eq_true hnet,
    of_decide_eq_true hbalance⟩

end ColumbusCore.Ante
