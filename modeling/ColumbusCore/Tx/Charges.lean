import ColumbusCore.Tx.Execution

/-!
How often a transaction taxes a message.

A send, a multi-send or a swap-send is taxed in one of two ways: the fee decorator counts it in the
due tax, which the post handler collects; or its message server deducts the tax. Which of the two
is decided by a flag in the context, and whether at all by two tests of the exemption.

* `tainted_eq`, `exemptInputs_eq_iff`: **the two tests of a multi-send agree**;
* `leafTax_of_taxed`, `handle_of_taxed`: what the two ways charge;
* `Transaction.charged_once`: **every message that is not exempt is taxed in exactly one of the
  two ways, and a message that is exempt in none**.
-/

namespace ColumbusCore.Tx

open Go
open Tax (Chain Keepers Context TaxedMsg ExemptionStore InOut isReverseCharge)
open Ante (totalOf leafTax LeafTaxes)

variable {β : Type}

/-! ### The exemption -/

/-- The message is exempt: a send between exempt addresses, or a multi-send all of whose inputs
are exempt against its outputs. A swap-send never is. -/
def exempt (s : ExemptionStore) : TaxedMsg → Bool
  | .send msg => s.isExemptedFromTax msg.fromAddress [msg.toAddress]
  | .multiSend msg => msg.inputs.all fun input =>
      s.isExemptedFromTax input.address (msg.outputs.map InOut.address)
  | .swapSend _ => false

/-- The early exit of the message server finds the multi-sends that are not exempt. -/
lemma tainted_eq (s : ExemptionStore) (msg : Tax.MsgMultiSend) :
    Tax.tainted s msg = !exempt s (.multiSend msg) := by
  rw [Tax.tainted, exempt, List.not_all_eq_any_not]

/-- The counter of the fee decorator finds the multi-sends that are exempt. -/
lemma exemptInputs_eq_iff (s : ExemptionStore) (msg : Tax.MsgMultiSend) :
    Ante.exemptInputs s msg = msg.inputs.length ↔ exempt s (.multiSend msg) = true := by
  rw [Ante.exemptInputs, List.length_filter_eq_length_iff, exempt, List.all_eq_true]

/-! ### The taxes of a message -/

/-- Who pays the tax of a message, and on which coins. -/
def taxable : TaxedMsg → List InOut
  | .send msg => [⟨msg.fromAddress, msg.amount⟩]
  | .multiSend msg => msg.inputs
  | .swapSend msg => [⟨msg.fromAddress, CoinSet.ofList [msg.offerCoin]⟩]

/-- The taxes on the coins of a message, sender by sender. -/
def SenderTaxes (tax : Coins → Outcome Coins) (senders : List InOut) (taxes : List Coins) : Prop :=
  List.Forall₂ (fun sender t => tax sender.coins = .ok t) senders taxes

lemma senderTaxes_singleton {tax : Coins → Outcome Coins} {sender : InOut} {t : Coins}
    (h : tax sender.coins = .ok t) : SenderTaxes tax [sender] [t] :=
  List.Forall₂.cons h List.Forall₂.nil

/-! ### The fee decorator -/

section Counted

variable {c : Chain β} {simulate : Bool}

lemma leafTax_of_exempt {msg : TaxedMsg} (h : exempt c.exemption msg = true) :
    leafTax c simulate msg = .ok ∅ := by
  cases msg with
  | send msg => exact if_pos h
  | multiSend msg =>
      rw [leafTax, Ante.addMsgTax_multiSend, if_pos ((exemptInputs_eq_iff _ msg).mpr h)]
      rfl
  | swapSend msg => exact absurd h (by simp [exempt])

lemma foldlM_inputTaxes {l : List InOut} :
    ∀ {acc t : Coins}, l.foldlM (Ante.addInputTax c simulate) acc = .ok t →
      ∃ taxes, SenderTaxes (Ante.computeTax c · simulate) l taxes
        ∧ ∀ d, t.amountOf d = acc.amountOf d + totalOf taxes d := by
  induction l with
  | nil =>
      intro acc t h
      obtain rfl := Except.ok.inj h
      exact ⟨[], List.Forall₂.nil, fun d => by simp [totalOf]⟩
  | cons input l ih =>
      intro acc t h
      obtain ⟨acc₁, hround, h⟩ := foldlM_cons_eq_ok.mp h
      obtain ⟨tax, htax, hround⟩ := bind_eq_ok.mp hround
      obtain rfl := Except.ok.inj hround
      obtain ⟨taxes, htaxes, hsum⟩ := ih h
      refine ⟨tax :: taxes, List.Forall₂.cons htax htaxes, fun d => ?_⟩
      calc t.amountOf d = (acc.add tax).amountOf d + totalOf taxes d := hsum d
        _ = acc.amountOf d + (tax.amountOf d + totalOf taxes d) := by
            rw [CoinSet.amountOf_add, add_assoc]
        _ = acc.amountOf d + totalOf (tax :: taxes) d := by simp [totalOf]

/-- A message that is not exempt is counted with the taxes of its senders. -/
lemma leafTax_of_taxed {msg : TaxedMsg} {t : Coins} (hex : exempt c.exemption msg = false)
    (h : leafTax c simulate msg = .ok t) :
    ∃ taxes, SenderTaxes (Ante.computeTax c · simulate) (taxable msg) taxes
      ∧ ∀ d, t.amountOf d = totalOf taxes d := by
  have hone : ∀ {sender : InOut}, (Ante.computeTax c sender.coins simulate >>= fun tax =>
      pure (CoinSet.add ∅ tax)) = .ok t →
      ∃ taxes, SenderTaxes (Ante.computeTax c · simulate) [sender] taxes
        ∧ ∀ d, t.amountOf d = totalOf taxes d := by
    intro sender hrun
    obtain ⟨tax, htax, hrun⟩ := bind_eq_ok.mp hrun
    obtain rfl := Except.ok.inj hrun
    exact ⟨[tax], senderTaxes_singleton htax, fun d => by simp [totalOf]⟩
  rw [leafTax] at h
  cases msg with
  | send msg =>
      rw [Ante.addMsgTax_send, if_neg (by simpa [exempt] using hex)] at h
      exact hone h
  | multiSend msg =>
      rw [Ante.addMsgTax_multiSend, if_neg (by rw [exemptInputs_eq_iff, hex]; simp)] at h
      obtain ⟨taxes, htaxes, hsum⟩ := foldlM_inputTaxes h
      exact ⟨taxes, htaxes, fun d => by simpa using hsum d⟩
  | swapSend msg => exact hone h

end Counted

/-! ### The message servers -/

/-- The wrapped server of a message, which deducts nothing. -/
def pass (K : Keepers β) (ctx : Context) (c : Chain β) : TaxedMsg → Outcome (Chain β)
  | .send msg => Tax.passSend K ctx c msg
  | .multiSend msg => Tax.passMultiSend K ctx c msg
  | .swapSend msg => (Tax.passSwapSend K ctx c msg).map Prod.fst

/-- One sender is charged a tax. -/
def chargeSender (K : Keepers β) (c : Chain β) (charge : InOut × Coins) : Outcome (Chain β) := do
  let addr ← K.mustAccAddress charge.1.address
  Tax.chargeTax K c addr charge.2 false

section Deducted

variable {K : Keepers β} {ctx : Context} {c c' : Chain β}

/-- Without reverse charge a server hands the message on. -/
lemma handle_of_not_reverse {msg : TaxedMsg} (hrev : isReverseCharge ctx = .ok false)
    (h : msg.handle K ctx c = .ok c') : pass K ctx c msg = .ok c' := by
  cases msg with
  | send msg =>
      rw [TaxedMsg.handle, Tax.send, hrev] at h
      exact h
  | multiSend msg =>
      rw [TaxedMsg.handle, Tax.multiSend, hrev] at h
      exact h
  | swapSend msg =>
      rw [TaxedMsg.handle, Tax.swapSend, hrev] at h
      exact h

/-- An exempt message is handed on as well. -/
lemma handle_of_exempt {msg : TaxedMsg} (hrev : isReverseCharge ctx = .ok true)
    (hex : exempt c.exemption msg = true) (h : msg.handle K ctx c = .ok c') :
    pass K ctx c msg = .ok c' := by
  cases msg with
  | send msg =>
      rw [TaxedMsg.handle, Tax.send, hrev, ok_bind] at h
      obtain ⟨addr, -, h⟩ := bind_eq_ok.mp h
      rw [exempt] at hex
      rw [Tax.rewriteSend, if_pos hex] at h
      exact h
  | multiSend msg =>
      rw [TaxedMsg.handle, Tax.multiSend, hrev, ok_bind, Tax.rewriteMultiSend, tainted_eq, hex] at h
      exact h
  | swapSend msg => exact absurd hex (by simp [exempt])

/-- The outputs of a multi-send are not charged. -/
lemma deductAll_skip (hrev : isReverseCharge ctx = .ok true) {l : List InOut} :
    ∀ {l' : List InOut} {c c' : Chain β}, Tax.deductAll K ctx true c l = .ok (l', c') →
      c' = c := by
  induction l with
  | nil =>
      intro l' c c' h
      exact (Prod.mk.inj (Except.ok.inj h)).2.symm
  | cons io l ih =>
      intro l' c c' h
      obtain ⟨addr, -, h⟩ := bind_eq_ok.mp h
      obtain ⟨⟨net, c₁⟩, hdeduct, h⟩ := bind_eq_ok.mp h
      obtain ⟨⟨rest, c₂⟩, hrest, h⟩ := bind_eq_ok.mp h
      obtain ⟨rfl, rfl⟩ := Prod.mk.inj (Except.ok.inj h)
      obtain ⟨taxes, -, -, hcharge⟩ := Tax.deductTax_eq_ok hrev hdeduct
      rw [Tax.chargeTax, if_neg (by simp)] at hcharge
      exact (ih hrest).trans (Except.ok.inj hcharge).symm

/-- The inputs of a multi-send are charged one after the other. The rate does not change on the
way. -/
lemma deductAll_charges (hrev : isReverseCharge ctx = .ok true) {l : List InOut} :
    ∀ {l' : List InOut} {c c' : Chain β}, Tax.deductAll K ctx false c l = .ok (l', c') →
      ∃ taxes, SenderTaxes (Tax.computeTax c) l taxes
        ∧ (l.zip taxes).foldlM (chargeSender K) c = .ok c' := by
  induction l with
  | nil =>
      intro l' c c' h
      obtain ⟨-, rfl⟩ := Prod.mk.inj (Except.ok.inj h)
      exact ⟨[], List.Forall₂.nil, rfl⟩
  | cons io l ih =>
      intro l' c c' h
      obtain ⟨addr, haddr, h⟩ := bind_eq_ok.mp h
      obtain ⟨⟨net, c₁⟩, hdeduct, h⟩ := bind_eq_ok.mp h
      obtain ⟨⟨rest, c₂⟩, hrest, h⟩ := bind_eq_ok.mp h
      obtain ⟨rfl, rfl⟩ := Prod.mk.inj (Except.ok.inj h)
      obtain ⟨tax, htax, -, hcharge⟩ := Tax.deductTax_eq_ok hrev hdeduct
      obtain ⟨taxes, htaxes, hrun⟩ := ih hrest
      have hrate : Tax.computeTax c₁ = Tax.computeTax c := by
        obtain ⟨s, rfl⟩ := Tax.chargeTax_eq_ok hcharge
        rfl
      rw [hrate] at htaxes
      refine ⟨tax :: taxes, List.Forall₂.cons htax htaxes, ?_⟩
      rw [List.zip_cons_cons, List.foldlM_cons, chargeSender, haddr, ok_bind, hcharge, ok_bind]
      exact hrun

/-- A message that is reverse charged and not exempt has the taxes of its senders deducted before
it is handed on. -/
lemma handle_of_taxed {msg : TaxedMsg} (hrev : isReverseCharge ctx = .ok true)
    (hex : exempt c.exemption msg = false) (h : msg.handle K ctx c = .ok c') :
    ∃ taxes, SenderTaxes (Tax.computeTax c) (taxable msg) taxes
      ∧ ∃ msg' charged, ((taxable msg).zip taxes).foldlM (chargeSender K) c = .ok charged
        ∧ pass K ctx charged msg' = .ok c' := by
  cases msg with
  | send msg =>
      rw [TaxedMsg.handle, Tax.send, hrev, ok_bind] at h
      obtain ⟨addr, haddr, h⟩ := bind_eq_ok.mp h
      rw [Tax.rewriteSend, if_neg (by simpa [exempt] using hex)] at h
      obtain ⟨⟨msg', c₁⟩, hrewrite, h⟩ := bind_eq_ok.mp h
      obtain ⟨⟨net, c₂⟩, hdeduct, hrewrite⟩ := bind_eq_ok.mp hrewrite
      obtain ⟨rfl, rfl⟩ := Prod.mk.inj (Except.ok.inj hrewrite)
      obtain ⟨tax, htax, -, hcharge⟩ := Tax.deductTax_eq_ok hrev hdeduct
      refine ⟨[tax], senderTaxes_singleton htax, .send { msg with amount := net }, c₂, ?_, h⟩
      simp [taxable, chargeSender, haddr, hcharge]
  | multiSend msg =>
      rw [TaxedMsg.handle, Tax.multiSend, hrev, ok_bind, Tax.rewriteMultiSend, tainted_eq, hex] at h
      obtain ⟨⟨msg', c₁⟩, hrewrite, h⟩ := bind_eq_ok.mp h
      obtain ⟨⟨inputs, c₂⟩, hin, hrewrite⟩ := bind_eq_ok.mp hrewrite
      obtain ⟨⟨outputs, c₃⟩, hout, hrewrite⟩ := bind_eq_ok.mp hrewrite
      obtain ⟨rfl, rfl⟩ := Prod.mk.inj (Except.ok.inj hrewrite)
      obtain rfl := deductAll_skip hrev hout
      obtain ⟨taxes, htaxes, hrun⟩ := deductAll_charges hrev hin
      exact ⟨taxes, htaxes, .multiSend ⟨inputs, outputs⟩, c₃, hrun, h⟩
  | swapSend msg =>
      rw [TaxedMsg.handle] at h
      obtain ⟨r, hswap, rfl⟩ := map_eq_ok_iff.mp h
      rw [Tax.swapSend, hrev, ok_bind] at hswap
      obtain ⟨addr, haddr, hswap⟩ := bind_eq_ok.mp hswap
      obtain ⟨⟨net, c₁⟩, hdeduct, hswap⟩ := bind_eq_ok.mp hswap
      obtain ⟨coin, -, hswap⟩ := bind_eq_ok.mp hswap
      obtain ⟨tax, htax, -, hcharge⟩ := Tax.deductTax_eq_ok hrev hdeduct
      refine ⟨[tax], senderTaxes_singleton htax, .swapSend { msg with offerCoin := coin }, c₁, ?_,
        map_eq_ok_iff.mpr ⟨r, hswap, rfl⟩⟩
      simp [taxable, chargeSender, haddr, hcharge]

end Deducted

/-! ### The due tax -/

section Due

variable {K : Keepers β} {ctx ctx' : Context} {c c' : Chain β} {tx : Ante.FeeTx}

/-- The payment leaves the tax in the context, unless there is no fee. -/
lemma payFee_taxDue {s s' : β} {payer : AccAddress} {fee taxes nonTaxable : Coins}
    (hctx : ctx.value Tax.contextKeyTaxDue = none)
    (h : Ante.payFee K ctx s payer fee taxes nonTaxable = .ok (ctx', s')) :
    fee.IsZero ∧ ctx'.taxDue = ∅ ∨ ctx'.taxDue = taxes := by
  rw [Ante.payFee] at h
  split_ifs at h with hzero
  · obtain ⟨rfl, -⟩ := Prod.mk.inj (Except.ok.inj h)
    exact Or.inl ⟨hzero, by rw [Context.taxDue, hctx]⟩
  · right
    obtain ⟨rest, -, h⟩ := bind_eq_ok.mp h
    obtain ⟨rest', -, h⟩ := bind_eq_ok.mp h
    split_ifs at h
    · obtain ⟨rfl, -⟩ := Prod.mk.inj (Except.ok.inj h)
      exact Ante.taxDue_withTaxDue ..
    · obtain ⟨s₁, -, h⟩ := bind_eq_ok.mp h
      obtain ⟨rfl, -⟩ := Prod.mk.inj (Except.ok.inj h)
      exact Ante.taxDue_withTaxDue ..

/-- The oracle's messages have no tax. -/
lemma leavesOf_oracle {msgs : List Ante.Msg} (h : msgs.all Ante.Msg.isOracle = true) :
    Ante.leavesOf msgs = [] := by
  induction msgs with
  | nil => rfl
  | cons msg msgs ih =>
      rw [List.all_cons, Bool.and_eq_true] at h
      cases msg with
      | oracle => exact ih h.2
      | _ => exact absurd h.1 (by simp [Ante.Msg.isOracle])

/-- Where there is no fee, no tax is due. -/
lemma noTax_of_noFee (hzero : tx.fee.IsZero) {taxes nonTaxable : Coins} {priority : ℤ}
    {check : Ante.FeeCheck} {leafTaxes : List Coins}
    (hfilter : Ante.filterMsgAndComputeTax c false tx.msgs = .ok (taxes, nonTaxable))
    (hleaves : LeafTaxes c false (Ante.leavesOf tx.msgs) leafTaxes)
    (hsum : ∀ d, taxes.amountOf d = totalOf leafTaxes d)
    (hcheck : Ante.checkTxFee ctx c tx taxes nonTaxable = .ok (priority, check)) (d : Denom) :
    (Ante.when (!check.reverseCharge) taxes).amountOf d = 0 := by
  obtain ⟨htaxes, hnon⟩ := Ante.validPair_filterMsgs
    ⟨CoinSet.isValid_empty, CoinSet.isValid_empty⟩ tx.msgs hfilter
  have hvalid : (Ante.when (!check.reverseCharge) taxes).IsValid := Ante.isValid_when htaxes
  cases horacle : Ante.isOracleTx tx.msgs with
  | true =>
      rw [Ante.isOracleTx, Bool.and_eq_true] at horacle
      rw [leavesOf_oracle horacle.2] at hleaves
      obtain rfl := List.forall₂_nil_left_iff.mp hleaves
      have hd := hsum d
      cases check.reverseCharge with
      | true => rfl
      | false => simpa [Ante.when, totalOf] using hd
  | false =>
      have hfee := Amounts.isZero_iff.mp hzero
      obtain ⟨-, -, hcov, -⟩ := Ante.checkFees_eq_ok
        (CoinSet.isValid_iff.mpr fun d => (hfee d).ge) htaxes hnon
        (Ante.checkTxFee_eq_ok horacle hcheck)
      exact le_antisymm ((hcov d).1.trans_eq (hfee d)) (CoinSet.isValid_iff.mp hvalid d)

/-- **The due tax** is the tax of the messages, or nothing under reverse charge. -/
theorem anteHandle_taxDue (hctx : ctx.value Tax.contextKeyTaxDue = none)
    (h : Ante.anteHandle K ctx c tx false = .ok (ctx', c')) :
    ∃ reverse taxes, isReverseCharge ctx' = .ok reverse
      ∧ LeafTaxes c false (Ante.leavesOf tx.msgs) taxes
      ∧ ∀ d, ctx'.taxDue.amountOf d = if reverse then 0 else totalOf taxes d := by
  obtain ⟨taxes, nonTaxable, priority, check, ctx₁, hfilter, hcheck, hdeduct, rfl⟩ :=
    Ante.anteHandle_eq_ok h
  obtain ⟨payer, s, s', -, hpay, -⟩ := Ante.checkDeductFee_eq_ok hdeduct
  obtain ⟨leafTaxes, hleaves, hsum⟩ := Ante.filterMsgs_taxes tx.msgs hfilter
  have hsum' : ∀ d, taxes.amountOf d = totalOf leafTaxes d := fun d => by simpa using hsum d
  refine ⟨check.reverseCharge, leafTaxes, ?_, hleaves, fun d => ?_⟩
  · rw [isReverseCharge, Context.value_withValue_self]
  · have hdue : (Ante.when (!check.reverseCharge) taxes).amountOf d
        = if check.reverseCharge then 0 else totalOf leafTaxes d := by
      cases check.reverseCharge with
      | true => exact Amounts.amountOf_empty d
      | false => exact hsum' d
    rw [Ante.taxDue_flagged, ← hdue]
    rcases payFee_taxDue hctx hpay with ⟨hzero, hnone⟩ | hset
    · rw [hnone, noTax_of_noFee hzero hfilter hleaves hsum' hcheck d]
      exact Amounts.amountOf_empty d
    · rw [hset]

end Due

/-! ### Exactly once -/

/-- How a message is taxed: counted in the due tax, or deducted in its server, with the taxes of
its senders; or not at all. -/
inductive Charge where
  | counted (taxes : List Coins)
  | deducted (taxes : List Coins)
  | none

/-- What a message adds to the due tax. -/
def Charge.due : Charge → Denom → ℤ
  | .counted taxes, d => totalOf taxes d
  | _, _ => 0

/-- The visit was charged that way, the fee decorator having seen the chain `c`: a message that is
counted or not charged is handed on as it is. -/
def Visit.ChargedAs {K : Keepers β} (v : Visit K) (c : Chain β) : Charge → Prop
  | .counted taxes => SenderTaxes (Ante.computeTax c · false) (taxable v.msg) taxes
      ∧ pass K v.ctx v.before v.msg = .ok v.after
  | .deducted taxes => SenderTaxes (Tax.computeTax v.before) (taxable v.msg) taxes
      ∧ ∃ msg' charged, ((taxable v.msg).zip taxes).foldlM (chargeSender K) v.before = .ok charged
        ∧ pass K v.ctx charged msg' = .ok v.after
  | .none => pass K v.ctx v.before v.msg = .ok v.after

/-- The exemptions that decide on a visit: those the fee decorator saw, or under reverse charge
those its server sees. -/
def Visit.registry {K : Keepers β} (v : Visit K) (c : Chain β) : ExemptionStore :=
  if isReverseCharge v.ctx = .ok true then v.before.exemption else c.exemption

/-- The visit is charged, and charged once, exactly if its message is not exempt. -/
def Visit.ChargedOnce {K : Keepers β} (v : Visit K) (c : Chain β) (charge : Charge) : Prop :=
  v.ChargedAs c charge ∧ (charge = .none ↔ exempt (v.registry c) v.msg = true)

section Visit

variable {K : Keepers β} {v : Visit K} {c : Chain β}

/-- Under reverse charge a visit adds nothing to the due tax. -/
lemma Visit.exists_charge_of_reverse (hrev : isReverseCharge v.ctx = .ok true) :
    ∃ charge : Charge, v.ChargedOnce c charge ∧ ∀ d, charge.due d = 0 := by
  have hreg : v.registry c = v.before.exemption := if_pos hrev
  cases hex : exempt v.before.exemption v.msg with
  | true =>
      refine ⟨.none, ⟨handle_of_exempt hrev hex v.ran, ?_⟩, fun _ => rfl⟩
      simp [hreg, hex]
  | false =>
      obtain ⟨taxes, htaxes, hrun⟩ := handle_of_taxed hrev hex v.ran
      refine ⟨.deducted taxes, ⟨⟨htaxes, hrun⟩, ?_⟩, fun _ => rfl⟩
      simp [hreg, hex]

/-- Without reverse charge a visit adds to the due tax what the fee decorator counted. -/
lemma Visit.exists_charge_of_not_reverse (hrev : isReverseCharge v.ctx = .ok false) {tax : Coins}
    (htax : leafTax c false v.msg = .ok tax) :
    ∃ charge : Charge, v.ChargedOnce c charge ∧ ∀ d, charge.due d = tax.amountOf d := by
  have hreg : v.registry c = c.exemption := if_neg (by rw [hrev]; simp)
  have hpass := handle_of_not_reverse hrev v.ran
  cases hex : exempt c.exemption v.msg with
  | true =>
      obtain rfl := Except.ok.inj (htax.symm.trans (leafTax_of_exempt hex))
      refine ⟨.none, ⟨hpass, ?_⟩, fun d => (Amounts.amountOf_empty d).symm⟩
      simp [hreg, hex]
  | false =>
      obtain ⟨taxes, htaxes, hsum⟩ := leafTax_of_taxed hex htax
      refine ⟨.counted taxes, ⟨⟨htaxes, hpass⟩, ?_⟩, fun d => (hsum d).symm⟩
      simp [hreg, hex]

/-- The visits of a run, charged one by one. Those that no contract dispatched are in step with the
taxes the fee decorator counted. -/
lemma exists_charges {reverse : Bool} {visits : List (Visit K)} :
    ∀ {taxes : List Coins},
      (∀ v ∈ visits, v.dispatched = false ∧ isReverseCharge v.ctx = .ok reverse
        ∨ v.dispatched = true ∧ isReverseCharge v.ctx = .ok true) →
      LeafTaxes c false ((visits.filter fun v => !v.dispatched).map Visit.msg) taxes →
      ∃ charges : List Charge, List.Forall₂ (fun v charge => v.ChargedOnce c charge) visits charges
        ∧ ∀ d, (charges.map fun charge => charge.due d).sum
          = if reverse then 0 else totalOf taxes d := by
  induction visits with
  | nil =>
      intro taxes _ htaxes
      obtain rfl := List.forall₂_nil_left_iff.mp htaxes
      exact ⟨[], List.Forall₂.nil, fun d => by simp [totalOf]⟩
  | cons v visits ih =>
      intro taxes hflag htaxes
      have hflag' := fun w hw => hflag w (List.mem_cons_of_mem v hw)
      rcases hflag v (by simp) with ⟨hv, hrev⟩ | ⟨hv, hrev⟩
      · rw [List.filter_cons, hv] at htaxes
        obtain ⟨tax, taxes', htax, htaxes', rfl⟩ := List.forall₂_cons_left_iff.mp htaxes
        obtain ⟨charges, hcharges, hsum⟩ := ih hflag' htaxes'
        cases reverse with
        | true =>
            obtain ⟨charge, hcharge, hdue⟩ := Visit.exists_charge_of_reverse (c := c) hrev
            refine ⟨charge :: charges, List.Forall₂.cons hcharge hcharges, fun d => ?_⟩
            simpa [hdue d] using hsum d
        | false =>
            obtain ⟨charge, hcharge, hdue⟩ := Visit.exists_charge_of_not_reverse hrev htax
            refine ⟨charge :: charges, List.Forall₂.cons hcharge hcharges, fun d => ?_⟩
            simpa [hdue d, totalOf] using hsum d
      · -- a message of a contract was not counted
        rw [List.filter_cons, hv] at htaxes
        obtain ⟨charges, hcharges, hsum⟩ := ih hflag' htaxes
        obtain ⟨charge, hcharge, hdue⟩ := Visit.exists_charge_of_reverse (c := c) hrev
        refine ⟨charge :: charges, List.Forall₂.cons hcharge hcharges, fun d => ?_⟩
        simpa [hdue d] using hsum d

end Visit

/-- **Exactly once.** In a transaction that succeeded, every send, multi-send and swap-send that
was executed, at the top level, nested in `authz` messages or dispatched by a contract, is taxed
in exactly one way if it is not exempt, and in none if it is: it is counted in the due tax, which is
the sum of the taxes counted and is charged to its payer by the post handler, or its taxes are
deducted by its server. -/
theorem Transaction.charged_once {K : Keepers β} (t : Transaction K) :
    ∃ charges : List Charge,
      List.Forall₂ (fun v charge => v.ChargedOnce t.chain charge) t.visits charges
      ∧ (∀ d, t.anteCtx.taxDue.amountOf d = (charges.map fun charge => charge.due d).sum)
      ∧ (t.anteCtx.taxDue.IsZero ∧ t.final = t.ran ∨ ∃ text payer,
          t.anteCtx.value Tax.contextKeyTaxPayer = some (.str text)
          ∧ K.accAddressFromBech32 text = some payer
          ∧ Tax.collectTax K t.ran payer t.anteCtx.taxDue = .ok t.final) := by
  obtain ⟨reverse, taxes, hrev, htaxes, hdue⟩ := anteHandle_taxDue t.fresh t.ante
  have hleaves : (t.visits.filter fun v => !v.dispatched).map Visit.msg
      = Ante.leavesOf t.tx.msgs := t.runs.leaves
  have hflag := t.runs.flag
  rw [hrev] at hflag
  rw [← hleaves] at htaxes
  obtain ⟨charges, hcharges, hsum⟩ := exists_charges hflag htaxes
  exact ⟨charges, hcharges, fun d => (hdue d).trans (hsum d).symm, postHandle_eq_ok t.post⟩

/-- A transfer of dollars. -/
def dollars (sender recipient : String) (amount : ℤ) : TaxedMsg :=
  .send { fromAddress := sender, toAddress := recipient, amount := CoinSet.ofList [("uusd", amount)] }

/-- A transfer and the call of a contract, with a fee that covers the tax. -/
def transferAndCall : Ante.FeeTx where
  fee := CoinSet.ofList [("uusd", 3000000)]
  gas := 100000
  feePayer := "alice"
  feeGranter := none
  msgs := [.taxed (dollars "alice" "bob" 100000000), .executeContract "alice" "contract" ∅]

/-- The balances before the transaction. -/
def accounts : Chain Tax.Ledger :=
  Tax.ledgerChain [("alice", "uusd", 200000000), ("contract", "uusd", 20000000)]

/-- The transaction, in which the contract dispatches a transfer. -/
def transferAndCallRun :
    Outcome (Context × Chain Tax.Ledger × Chain Tax.Ledger × Chain Tax.Ledger × Chain Tax.Ledger) :=
  Ante.anteHandle Tax.ledgerKeepers (Tax.contextWith []) accounts transferAndCall false >>= fun r =>
  (dollars "alice" "bob" 100000000).handle Tax.ledgerKeepers r.1 r.2 >>= fun c₁ =>
  (dollars "contract" "carol" 10000000).handle Tax.ledgerKeepers (dispatchContext r.1) c₁ >>=
    fun c₂ => postHandle Tax.ledgerKeepers r.1 c₂ >>= fun c₃ => pure (r.1, r.2, c₁, c₂, c₃)

/-- The transaction of a run, whatever the other modules are. -/
def transferAndCallTransaction {β : Type} {K : Keepers β} {chain : Chain β}
    {r : Context × Chain β} {c₁ c₂ c₃ : Chain β}
    (hante : Ante.anteHandle K (Tax.contextWith []) chain transferAndCall false = .ok r)
    (hsend : (dollars "alice" "bob" 100000000).handle K r.1 r.2 = .ok c₁)
    (hdispatch : (dollars "contract" "carol" 10000000).handle K (dispatchContext r.1) c₁ = .ok c₂)
    (hpost : postHandle K r.1 c₂ = .ok c₃) : Transaction K where
  ctx := Tax.contextWith []
  chain := chain
  tx := transferAndCall
  anteCtx := r.1
  anteChain := r.2
  start := r.2.rest
  visits := _
  ran := c₂
  final := c₃
  fresh := by decide
  ante := hante
  runs := Runs.taxed hsend (Runs.dispatch rfl (Runs.taxed hdispatch Runs.nil)
    (Runs.done rfl Runs.nil))
  post := hpost

theorem transferAndCall_charged_once :
    ∃ t : Transaction Tax.ledgerKeepers, t.tx = transferAndCall
      ∧ t.final.treasury.epochTaxProceeds.amountOf "uusd" = 550000
      ∧ ∃ charges : List Charge, charges.length = 2
        ∧ List.Forall₂ (fun v charge => v.ChargedOnce accounts charge) t.visits charges
        ∧ (charges.map fun charge => charge.due "uusd").sum = 500000 := by
  obtain ⟨⟨ctx, c₀, c₁, c₂, c₃⟩, hrun, htest⟩ := exists_of_returns
    (p := fun r : Context × Chain Tax.Ledger × Chain Tax.Ledger × Chain Tax.Ledger
      × Chain Tax.Ledger => decide (r.1.taxDue.amountOf "uusd" = 500000
        ∧ r.2.2.2.2.treasury.epochTaxProceeds.amountOf "uusd" = 550000))
    (x := transferAndCallRun) (by decide +kernel)
  obtain ⟨r, hante, hrun⟩ := bind_eq_ok.mp hrun
  obtain ⟨c₁', hsend, hrun⟩ := bind_eq_ok.mp hrun
  obtain ⟨c₂', hdispatch, hrun⟩ := bind_eq_ok.mp hrun
  obtain ⟨c₃', hpost, hrun⟩ := bind_eq_ok.mp hrun
  obtain ⟨rfl, rfl, rfl, rfl, rfl⟩ : r.1 = ctx ∧ r.2 = c₀ ∧ c₁' = c₁ ∧ c₂' = c₂ ∧ c₃' = c₃ := by
    simpa using hrun
  obtain ⟨hdue, hproceeds⟩ : r.1.taxDue.amountOf "uusd" = 500000
      ∧ c₃'.treasury.epochTaxProceeds.amountOf "uusd" = 550000 := of_decide_eq_true htest
  let t := transferAndCallTransaction hante hsend hdispatch hpost
  obtain ⟨charges, hcharges, hsum, -⟩ := t.charged_once
  exact ⟨t, rfl, hproceeds, charges, hcharges.length_eq.symm, hcharges, (hsum "uusd").symm.trans hdue⟩

end ColumbusCore.Tx
