import ColumbusCore.Ante.Flattening

/-!
The taxes that the command line estimates (`custom/auth/client/utils/feeutils.go`).

The client asks a node for the rate and for the cap of every coin, and adds up the taxes by itself.
Unlike the ante handler it knows no exempt addresses and leaves out no denom, and a `MsgExec` that
does not unpack is a panic.

* `filterMsgAndComputeTax`: the code;
* `filterMsgAndComputeTax_eq_ok_iff`: the estimate is the sum over the messages inside;
* `computeTax_le`: the tax of the ante handler is at most that of the client;
* `estimate_covers`: **the client never underestimates**, and when it has an estimate.
-/

namespace ColumbusCore.Client

open Go Rounding
open Ante (Msg flattenAll)
open Tax (Chain TaxedMsg taxAmount taxAmount_eq)

variable {β : Type}

/-! ### Queries -/

/-- `queryTaxRate`, answered by `BurnTaxRate` of the tax module. -/
def queryTaxRate (c : Chain β) : Outcome Dec := pure c.params.burnTaxRate

/-- `queryTaxCap`, answered by `TaxCap` of the treasury, which refuses a text that is no denom. -/
def queryTaxCap (c : Chain β) (denom : Denom) : Outcome ℤ := do
  failIf (¬ validDenom denom) "rpc error: code = InvalidArgument desc = invalid denom"
  pure (c.treasury.getTaxCap denom)

/-! ### The estimate -/

/-- One round of `computeTax`. -/
def addTaxDue (c : Chain β) (taxRate : Dec) (taxes : Coins) (coin : Coin) : Outcome Coins := do
  let taxCap ← queryTaxCap c coin.1
  let amount ← taxAmount taxRate coin.2
  let taxDue := if taxCap < amount then taxCap else amount
  if taxDue = 0 then pure taxes
  else do
    let tax ← newCoin coin.1 taxDue
    pure (taxes.addCoin tax)

/-- `computeTax`. -/
def computeTax (c : Chain β) (taxRate : Dec) (principal : Coins) : Outcome Coins :=
  principal.entries.foldlM (addTaxDue c taxRate) ∅

/-- The tax on coins, added to the taxes so far. -/
def addCoinsTax (c : Chain β) (taxRate : Dec) (taxes principal : Coins) : Outcome Coins := do
  let tax ← computeTax c taxRate principal
  pure (taxes.add tax)

mutual

/-- One round of `FilterMsgAndComputeTax`. -/
def filterMsg (c : Chain β) (taxRate : Dec) (taxes : Coins) : Msg → Outcome Coins
  | .taxed (.send msg) => addCoinsTax c taxRate taxes msg.amount
  | .taxed (.multiSend msg) =>
      msg.inputs.foldlM (fun taxes input => addCoinsTax c taxRate taxes input.coins) taxes
  | .taxed (.swapSend msg) => addCoinsTax c taxRate taxes (CoinSet.ofList [msg.offerCoin])
  | .exec msgs => do
      let execRate ← queryTaxRate c
      let tax ← filterMsgs c execRate ∅ msgs
      pure (taxes.add tax)
  | .execInvalid => panicked (.raised "messages of MsgExec do not unpack")
  | _ => pure taxes

/-- The loop of `FilterMsgAndComputeTax`. -/
def filterMsgs (c : Chain β) (taxRate : Dec) (taxes : Coins) : List Msg → Outcome Coins
  | [] => pure taxes
  | msg :: msgs => do
      let taxes ← filterMsg c taxRate taxes msg
      filterMsgs c taxRate taxes msgs

end

/-- `FilterMsgAndComputeTax`. -/
def filterMsgAndComputeTax (c : Chain β) (msgs : List Msg) : Outcome Coins := do
  let taxRate ← queryTaxRate c
  filterMsgs c taxRate ∅ msgs

/-! ### The tax of a coin -/

/-- The client can estimate the tax of a coin: its denom is one, the product with the rate fits, and
neither the tax nor the cap is negative. -/
def Estimable (c : Chain β) (coin : Coin) : Prop :=
  validDenom coin.1 = true ∧ Fixed.Fits decFormat (coin.2 * c.params.burnTaxRate.raw)
    ∧ 0 ≤ min ((coin.2 * c.params.burnTaxRate.raw).tdiv decFormat.scale)
      (c.treasury.getTaxCap coin.1)

/-- The body of the loop of `computeTax`. -/
def estimateBody (c : Chain β) (coin : Coin) : Outcome ℤ :=
  if coin.2 = 0 then .ok 0
  else queryTaxCap c coin.1 >>= fun taxCap => taxAmount c.params.burnTaxRate coin.2 >>= fun amount =>
    if min amount taxCap < 0 then panicked .negativeAmount else .ok (min amount taxCap)

lemma addTaxDue_eq (c : Chain β) (taxes : Coins) {coin : Coin} (h0 : coin.2 ≠ 0) :
    addTaxDue c c.params.burnTaxRate taxes coin = estimateBody c coin >>= fun y =>
      .ok (taxes.addCoin (coin.1, y)) := by
  rw [addTaxDue, estimateBody, if_neg h0]
  cases queryTaxCap c coin.1 with
  | error e => rfl
  | ok taxCap =>
      cases taxAmount c.params.burnTaxRate coin.2 with
      | error e => rfl
      | ok amount =>
          have hmin : (if taxCap < amount then taxCap else amount) = min amount taxCap := by
            split_ifs <;> omega
          simp only [ok_bind, hmin]
          exact CoinSet.addCoin_unless_zero taxes coin.1 _

lemma estimateBody_eq_ok_iff {c : Chain β} {d : Denom} {x y : ℤ} (hx : x ≠ 0) :
    estimateBody c (d, x) = .ok y ↔ Estimable c (d, x)
      ∧ y = min ((x * c.params.burnTaxRate.raw).tdiv decFormat.scale) (c.treasury.getTaxCap d) := by
  rw [estimateBody, if_neg hx, Estimable, queryTaxCap, taxAmount_eq]
  by_cases hd : validDenom d = true
  · by_cases hfit : Fixed.Fits decFormat (x * c.params.burnTaxRate.raw)
    · rw [if_pos hfit]
      simp only [failIf, hd, not_true_eq_false, if_false, ok_bind, pure_eq_ok]
      split_ifs with hneg
      · exact iff_of_false (by simp [panicked]) fun h => absurd h.1.2.2 (not_le.mpr hneg)
      · rw [Except.ok.injEq, eq_comm]
        exact ⟨fun h => ⟨⟨trivial, hfit, not_lt.mp hneg⟩, h⟩, fun h => h.2⟩
    · simp [failIf, hd, hfit, panicked]
  · simp [failIf, hd, failed]

/-- **The estimate of coins**, at every denom. -/
theorem computeTax_eq_ok_iff {c : Chain β} {principal taxes : Coins} :
    computeTax c c.params.burnTaxRate principal = .ok taxes
      ↔ ∀ d, estimateBody c (d, principal.amountOf d) = .ok (taxes.amountOf d) := by
  refine CoinSet.coinwise_eq_ok_iff (fun acc e he => addTaxDue_eq c acc ?_)
    fun d => by simp [estimateBody]
  exact (Amounts.mem_entries_iff.mp (show (e.1, e.2) ∈ principal.entries from he)).2

/-- There is an estimate exactly when there is one for every coin. -/
lemma exists_computeTax_iff {c : Chain β} {principal : Coins} :
    (∃ taxes, computeTax c c.params.burnTaxRate principal = .ok taxes)
      ↔ ∀ coin ∈ principal.entries, Estimable c coin := by
  constructor
  · rintro ⟨taxes, h⟩ coin hcoin
    obtain ⟨hx, h0⟩ := Amounts.mem_entries_iff.mp (show (coin.1, coin.2) ∈ _ from hcoin)
    have hd := computeTax_eq_ok_iff.mp h coin.1
    rw [hx] at hd
    exact ((estimateBody_eq_ok_iff h0).mp hd).1
  · intro hall
    cases h : computeTax c c.params.burnTaxRate principal with
    | ok taxes => exact ⟨taxes, rfl⟩
    | error x =>
        obtain ⟨e, he, herr⟩ := CoinSet.coinwise_eq_error (fun acc e he => addTaxDue_eq c acc
          (Amounts.mem_entries_iff.mp (show (e.1, e.2) ∈ principal.entries from he)).2) h
        obtain ⟨-, h0⟩ := Amounts.mem_entries_iff.mp (show (e.1, e.2) ∈ _ from he)
        have hok := (estimateBody_eq_ok_iff h0).mpr ⟨hall e he, rfl⟩
        exact absurd (hok.symm.trans herr) (by simp)

/-- An estimate is not negative. -/
lemma computeTax_nonneg {c : Chain β} {principal estimate : Coins}
    (h : computeTax c c.params.burnTaxRate principal = .ok estimate) (d : Denom) :
    0 ≤ estimate.amountOf d := by
  have hbody := computeTax_eq_ok_iff.mp h d
  by_cases hx : principal.amountOf d = 0
  · rw [hx, estimateBody, if_pos rfl] at hbody
    exact (Except.ok.inj hbody).le
  · obtain ⟨⟨-, -, hnn⟩, hmin⟩ := (estimateBody_eq_ok_iff hx).mp hbody
    rwa [hmin]

/-- **One coin set.** The tax of the ante handler is at most the estimate. -/
lemma computeTax_le {c : Chain β} {principal taxes estimate : Coins}
    (hante : Ante.computeTax c principal false = .ok taxes)
    (hclient : computeTax c c.params.burnTaxRate principal = .ok estimate) (d : Denom) :
    taxes.amountOf d ≤ estimate.amountOf d := by
  have hnn := computeTax_nonneg hclient d
  rw [Ante.computeTax_eq_ok_iff] at hante
  split_ifs at hante
  · simpa [hante] using hnn
  · have hdue := hante d
    by_cases hskip : principal.amountOf d = 0 ∨ Ante.isUntaxed d
    · rw [Ante.dueBody, if_pos hskip] at hdue
      rwa [← Except.ok.inj hdue]
    · rw [not_or, Bool.not_eq_true] at hskip
      have hbody := computeTax_eq_ok_iff.mp hclient d
      rw [((estimateBody_eq_ok_iff hskip.1).mp hbody).2]
      exact ((Ante.dueBody_eq_ok_iff hskip.1 hskip.2).mp hdue).2.2.le

/-! ### The estimate, message by message -/

section Loop

variable {c : Chain β} {taxRate : Dec}

lemma addCoinsTax_eq (taxes principal : Coins) :
    addCoinsTax c taxRate taxes principal
      = (computeTax c taxRate principal).map taxes.add := by
  rw [addCoinsTax]
  cases computeTax c taxRate principal <;> rfl

lemma filterMsg_exec (taxes : Coins) (msgs : List Msg) :
    filterMsg c taxRate taxes (.exec msgs)
      = (filterMsgs c c.params.burnTaxRate ∅ msgs).map taxes.add := by
  rw [filterMsg, queryTaxRate, pure_bind]
  cases filterMsgs c c.params.burnTaxRate ∅ msgs <;> rfl

/-- A round adds what its message is estimated at alone. -/
lemma filterMsg_eq (taxes : Coins) (msg : Msg) :
    filterMsg c taxRate taxes msg = (filterMsg c taxRate ∅ msg).map taxes.add := by
  have hadd : ∀ principal, addCoinsTax c taxRate taxes principal
      = (addCoinsTax c taxRate ∅ principal).map taxes.add := by
    intro principal
    rw [addCoinsTax_eq, addCoinsTax_eq]
    cases computeTax c taxRate principal with
    | error e => rfl
    | ok tax => simp [Except.map]
  cases msg with
  | taxed msg =>
      cases msg with
      | send msg =>
          rw [filterMsg, filterMsg]
          exact hadd msg.amount
      | multiSend msg =>
          rw [filterMsg, filterMsg, ← foldlM_op CoinSet.add_assoc'
            (fun taxes (input : Tax.InOut) => addCoinsTax_eq taxes input.coins),
            CoinSet.add_empty]
      | swapSend msg =>
          rw [filterMsg, filterMsg]
          exact hadd _
  | exec msgs =>
      rw [filterMsg_exec, filterMsg_exec]
      cases filterMsgs c c.params.burnTaxRate ∅ msgs with
      | error e => rfl
      | ok tax => simp [Except.map]
  | execInvalid => simp [filterMsg, Except.map, panicked]
  | _ => simp [filterMsg, Except.map]

lemma filterMsgs_eq_foldlM (taxes : Coins) (msgs : List Msg) :
    filterMsgs c taxRate taxes msgs = msgs.foldlM (filterMsg c taxRate) taxes := by
  induction msgs generalizing taxes with
  | nil => rfl
  | cons msg msgs ih =>
      rw [filterMsgs, List.foldlM_cons]
      exact congrArg _ (funext ih)

lemma filterMsgs_eq (taxes : Coins) (msgs : List Msg) :
    filterMsgs c taxRate taxes msgs = (filterMsgs c taxRate ∅ msgs).map taxes.add := by
  rw [filterMsgs_eq_foldlM, filterMsgs_eq_foldlM, ← foldlM_op CoinSet.add_assoc' filterMsg_eq,
    CoinSet.add_empty]

lemma filterMsgs_singleton (taxes : Coins) (msg : Msg) :
    filterMsgs c taxRate taxes [msg] = filterMsg c taxRate taxes msg := by
  simp only [filterMsgs, bind_pure]

end Loop

mutual

lemma filterMsg_flatten {c : Chain β} (taxes : Coins) (msg : Msg) :
    filterMsg c c.params.burnTaxRate taxes msg
      = filterMsgs c c.params.burnTaxRate taxes msg.flatten := by
  cases msg with
  | exec msgs =>
      rw [Msg.flatten, ← filterMsgs_flatten taxes msgs, filterMsgs_eq, filterMsg_exec]
  | _ => rw [Msg.flatten, filterMsgs_singleton]; simp

/-- The wrappers do not count: the rate that is asked for again is the same. -/
lemma filterMsgs_flatten {c : Chain β} (taxes : Coins) (msgs : List Msg) :
    filterMsgs c c.params.burnTaxRate taxes msgs
      = filterMsgs c c.params.burnTaxRate taxes (flattenAll msgs) := by
  cases msgs with
  | nil => rfl
  | cons msg msgs =>
      rw [flattenAll, filterMsgs_eq_foldlM taxes (msg.flatten ++ _), List.foldlM_append, filterMsgs,
        filterMsg_flatten taxes msg, filterMsgs_eq_foldlM]
      refine congrArg _ (funext fun taxes => ?_)
      rw [filterMsgs_flatten taxes msgs, filterMsgs_eq_foldlM]

end

/-- **The estimate** is the sum over the messages inside, each estimated alone. -/
lemma filterMsgAndComputeTax_eq_ok_iff {c : Chain β} {msgs : List Msg} {estimate : Coins} :
    filterMsgAndComputeTax c msgs = .ok estimate
      ↔ ∃ t : Msg → Coins,
        (∀ m ∈ flattenAll msgs, filterMsg c c.params.burnTaxRate ∅ m = .ok (t m))
          ∧ ∀ d, estimate.amountOf d = ((flattenAll msgs).map fun m => (t m).amountOf d).sum := by
  have hsum : ∀ (t : Msg → Coins) (l : List Msg) (d : Denom),
      (l.foldl (fun acc m => CoinSet.add acc (t m)) (∅ : Coins)).amountOf d
        = (l.map fun m => (t m).amountOf d).sum := by
    intro t l d
    rw [CoinSet.amountOf_foldl_add, Amounts.amountOf_empty, zero_add]
  rw [filterMsgAndComputeTax, queryTaxRate, pure_bind, filterMsgs_flatten, filterMsgs_eq_foldlM,
    foldlM_op_eq_ok_iff filterMsg_eq]
  refine exists_congr fun t => and_congr_right fun _ => ?_
  constructor
  · rintro rfl d
    exact hsum t (flattenAll msgs) d
  · intro h
    exact Amounts.ext_amountOf fun d => (h d).trans (hsum t (flattenAll msgs) d).symm

/-! ### The client and the ante handler -/

/-- The coin sets of a message that the client taxes. -/
def principals : Msg → List Coins
  | .taxed (.send msg) => [msg.amount]
  | .taxed (.multiSend msg) => msg.inputs.map Tax.InOut.coins
  | .taxed (.swapSend msg) => [CoinSet.ofList [msg.offerCoin]]
  | _ => []

/-- The messages inside a transaction unpack. -/
def Decodes (msgs : List Msg) : Prop := Msg.execInvalid ∉ flattenAll msgs

section Compare

variable {c : Chain β} {msg : Msg}

/-- A message that is no wrapper is taxed principal by principal. -/
lemma filterMsg_eq_foldlM (hexec : msg.isExec = false) (hinvalid : msg ≠ .execInvalid)
    (taxRate : Dec) :
    filterMsg c taxRate ∅ msg = (principals msg).foldlM (addCoinsTax c taxRate) ∅ := by
  cases msg with
  | taxed msg =>
      cases msg with
      | send msg => simp only [filterMsg, principals, List.foldlM_cons, List.foldlM_nil, bind_pure]
      | multiSend msg => rw [filterMsg, principals, List.foldlM_map]
      | swapSend msg =>
          simp only [filterMsg, principals, List.foldlM_cons, List.foldlM_nil, bind_pure]
  | exec msgs => exact absurd hexec (by simp [Msg.isExec])
  | execInvalid => exact absurd rfl hinvalid
  | _ => rfl

/-- The ante handler taxes a message not at all, or principal by principal. -/
lemma leafTax_cases {msg : TaxedMsg} {tax : Coins} (h : Ante.leafTax c false msg = .ok tax) :
    tax = ∅ ∨ (principals (.taxed msg)).foldlM
      (fun acc coins => (Ante.computeTax c coins false).map acc.add) ∅ = .ok tax := by
  have hone : ∀ coins, (Ante.computeTax c coins false >>= fun tax => pure (CoinSet.add ∅ tax))
      = [coins].foldlM (fun acc coins => (Ante.computeTax c coins false).map acc.add) ∅ := by
    intro coins
    simp only [List.foldlM_cons, List.foldlM_nil, bind_pure]
    cases Ante.computeTax c coins false <;> rfl
  rw [Ante.leafTax] at h
  cases msg with
  | send msg =>
      rw [Ante.addMsgTax_send] at h
      split_ifs at h
      · exact .inl (Except.ok.inj h).symm
      · exact .inr ((hone msg.amount).symm.trans h)
  | multiSend msg =>
      rw [Ante.addMsgTax_multiSend] at h
      split_ifs at h
      · exact .inl (Except.ok.inj h).symm
      · refine .inr (Eq.trans ?_ h)
        rw [principals, List.foldlM_map]
        exact congrArg (fun f => List.foldlM f ∅ msg.inputs)
          (funext fun acc => funext fun input => (Ante.addInputTax_eq c false acc input).symm)
  | swapSend msg => exact .inr ((hone _).symm.trans h)

/-- A message of the transaction has an estimate exactly when every coin of it has one. -/
lemma exists_filterMsg_iff (hexec : msg.isExec = false) (hinvalid : msg ≠ .execInvalid) :
    (∃ estimate, filterMsg c c.params.burnTaxRate ∅ msg = .ok estimate)
      ↔ ∀ coins ∈ principals msg, ∀ coin ∈ coins.entries, Estimable c coin := by
  rw [filterMsg_eq_foldlM hexec hinvalid]
  simp only [← exists_computeTax_iff, foldlM_op_eq_ok_iff (addCoinsTax_eq (c := c))]
  constructor
  · rintro ⟨-, t, ht, -⟩ coins hcoins
    exact ⟨t coins, ht coins hcoins⟩
  · intro h
    choose! t ht using h
    exact ⟨_, t, ht, rfl⟩

/-- **One message.** The tax of the ante handler is at most the estimate. -/
lemma filterMsg_le {p : Coins × Coins} {estimate : Coins} (hexec : msg.isExec = false)
    (hante : Ante.filterMsgAndComputeTax c false [msg] = .ok p)
    (hclient : filterMsg c c.params.burnTaxRate ∅ msg = .ok estimate) (d : Denom) :
    p.1.amountOf d ≤ estimate.amountOf d := by
  have hinvalid : msg ≠ .execInvalid := by
    rintro rfl
    exact absurd hclient (by simp [filterMsg, panicked])
  rw [filterMsg_eq_foldlM hexec hinvalid, foldlM_op_eq_ok_iff (addCoinsTax_eq (c := c))] at hclient
  obtain ⟨t, ht, rfl⟩ := hclient
  rw [CoinSet.amountOf_foldl_add, Amounts.amountOf_empty, zero_add]
  have hnn : 0 ≤ ((principals msg).map fun coins => (t coins).amountOf d).sum :=
    List.sum_nonneg fun x hx => by
      obtain ⟨coins, hcoins, rfl⟩ := List.mem_map.mp hx
      exact computeTax_nonneg (ht coins hcoins) d
  obtain ⟨taxes, hleaves, hsum⟩ := Ante.filterMsgs_taxes [msg] hante
  rw [hsum, Amounts.amountOf_empty, zero_add]
  cases msg with
  | taxed msg =>
      obtain ⟨tax, _, htax, hnil, rfl⟩ := List.forall₂_cons_left_iff.mp hleaves
      obtain rfl := List.forall₂_nil_left_iff.mp hnil
      have htotal : Ante.totalOf [tax] d = tax.amountOf d := by simp [Ante.totalOf]
      rw [htotal]
      rcases leafTax_cases htax with rfl | htax
      · exact hnn
      · obtain ⟨t', ht', rfl⟩ := (foldlM_op_eq_ok_iff fun _ _ => rfl).mp htax
        rw [CoinSet.amountOf_foldl_add, Amounts.amountOf_empty, zero_add]
        exact List.sum_le_sum fun coins hcoins =>
          computeTax_le (ht' coins hcoins) (ht coins hcoins) d
  | exec msgs => exact absurd hexec (by simp [Msg.isExec])
  | _ =>
      obtain rfl := List.forall₂_nil_left_iff.mp hleaves
      exact hnn

end Compare

/-- **The client never underestimates.** In every state, and for every list of messages, the client
has an estimate exactly when the messages unpack and every coin it taxes is one it can estimate; and
an estimate covers, denom by denom, the taxes of the ante handler outside simulation.

The taxes are summed as integers: the panic of the source where a sum of taxes leaves the 256 bits of
`math.Int` is not modelled, so that the estimate exists up to that panic. -/
theorem estimate_covers (c : Chain β) (msgs : List Msg) :
    ((∃ estimate, filterMsgAndComputeTax c msgs = .ok estimate) ↔ Decodes msgs
      ∧ ∀ m ∈ flattenAll msgs, ∀ coins ∈ principals m, ∀ coin ∈ coins.entries, Estimable c coin)
    ∧ ∀ estimate r, filterMsgAndComputeTax c msgs = .ok estimate →
      Ante.filterMsgAndComputeTax c false msgs = .ok r →
        ∀ d, r.1.amountOf d ≤ estimate.amountOf d := by
  have hexec : ∀ m ∈ flattenAll msgs, m.isExec = false := fun m hm =>
    Ante.isExec_of_mem_flattenAll msgs hm
  refine ⟨⟨?_, ?_⟩, ?_⟩
  · rintro ⟨estimate, h⟩
    obtain ⟨t, ht, -⟩ := filterMsgAndComputeTax_eq_ok_iff.mp h
    have hdecodes : Decodes msgs := fun hmem =>
      absurd (ht _ hmem) (by simp [filterMsg, panicked])
    refine ⟨hdecodes, fun m hm => ?_⟩
    exact (exists_filterMsg_iff (hexec m hm) fun heq => hdecodes (heq ▸ hm)).mp ⟨t m, ht m hm⟩
  · rintro ⟨hdecodes, hcoins⟩
    have hall : ∀ m ∈ flattenAll msgs, ∃ estimate,
        filterMsg c c.params.burnTaxRate ∅ m = .ok estimate := fun m hm =>
      (exists_filterMsg_iff (hexec m hm) fun heq => hdecodes (heq ▸ hm)).mpr (hcoins m hm)
    choose! t ht using hall
    refine ⟨(flattenAll msgs).foldl (fun acc m => CoinSet.add acc (t m)) (∅ : Coins),
      filterMsgAndComputeTax_eq_ok_iff.mpr ⟨t, ht, fun d => ?_⟩⟩
    rw [CoinSet.amountOf_foldl_add, Amounts.amountOf_empty, zero_add]
  · intro estimate r hclient hante d
    obtain ⟨t, ht, hsum⟩ := filterMsgAndComputeTax_eq_ok_iff.mp hclient
    obtain ⟨t', ht', hsum'⟩ := Ante.filterMsgs_eq_ok_iff.mp hante
    rw [hsum, (hsum' d).1]
    exact List.sum_le_sum fun m hm => filterMsg_le (hexec m hm) (ht' m hm) (ht m hm) d

/-- A send of the default bond denom between two accounts. -/
def stakeSend : Msg :=
  .taxed (.send ⟨"terra1alice", "terra1bob", CoinSet.ofList [("stake", 1000)]⟩)

/-- A wrapped send and a send of the default bond denom, which the ante handler leaves out: the
client estimates both and covers the tax of the first. -/
theorem nestedSend_covered :
    ∃ estimate r, filterMsgAndComputeTax (Tax.ledgerChain [])
        [.exec [Ante.dollarSend 1000000], stakeSend] = .ok estimate
      ∧ Ante.filterMsgAndComputeTax (Tax.ledgerChain []) false
        [.exec [Ante.dollarSend 1000000], stakeSend] = .ok r
      ∧ (∀ d, r.1.amountOf d ≤ estimate.amountOf d)
      ∧ r.1.amountOf "uusd" = 5000 ∧ r.1.amountOf "stake" < estimate.amountOf "stake" := by
  obtain ⟨estimate, hclient, hstake⟩ := exists_of_returns
    (p := fun r : Coins => r.amountOf "stake" = 5)
    (x := filterMsgAndComputeTax (Tax.ledgerChain [])
      [.exec [Ante.dollarSend 1000000], stakeSend]) (by decide +kernel)
  obtain ⟨r, hante, htax⟩ := exists_of_returns
    (p := fun r : Coins × Coins => r.1.amountOf "uusd" = 5000 ∧ r.1.amountOf "stake" = 0)
    (x := Ante.filterMsgAndComputeTax (Tax.ledgerChain []) false
      [.exec [Ante.dollarSend 1000000], stakeSend]) (by decide +kernel)
  have hstake := of_decide_eq_true hstake
  have htax := of_decide_eq_true htax
  exact ⟨estimate, r, hclient, hante, (estimate_covers _ _).2 estimate r hclient hante, htax.1,
    by rw [htax.2, hstake]; decide⟩

end ColumbusCore.Client
