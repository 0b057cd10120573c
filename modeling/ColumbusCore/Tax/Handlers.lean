import ColumbusCore.Tax.Split

/-!
The message servers wrapped by the tax module (`x/tax/handlers/bank_msg_server.go`,
`x/tax/handlers/market_msg_server.go`).

Under reverse charge the servers deduct the tax and hand a rewritten message on. The tax of a
multi-send is truncated on every input and on every output by itself.

* `multiSend_balanced_iff`: **the rewritten multi-send balances exactly when the truncations of
  both sides add up to the same**;
* `handle_context_safe_iff`: **a server reads its context safely exactly when the context carries
  a reverse-charge entry**.
-/

namespace ColumbusCore.Tax

open Go

variable {β : Type}

/-! ### The code -/

/-- The wrapped server's `Send`. -/
def passSend (K : Keepers β) (ctx : Context) (c : Chain β) (msg : MsgSend) :
    Outcome (Chain β) := do
  let s ← K.bankSend ctx c.rest msg
  pure { c with rest := s }

/-- The wrapped server's `MultiSend`. -/
def passMultiSend (K : Keepers β) (ctx : Context) (c : Chain β) (msg : MsgMultiSend) :
    Outcome (Chain β) := do
  let s ← K.bankMultiSend ctx c.rest msg
  pure { c with rest := s }

/-- The wrapped server's `SwapSend`. -/
def passSwapSend (K : Keepers β) (ctx : Context) (c : Chain β) (msg : MsgSwapSend) :
    Outcome (Chain β × MsgSwapSendResponse) := do
  let (s, response) ← K.marketSwapSend ctx c.rest msg
  pure ({ c with rest := s }, response)

/-- A send that is not exempt is reduced by its tax. -/
def rewriteSend (K : Keepers β) (ctx : Context) (c : Chain β) (msg : MsgSend)
    (fromAddr : AccAddress) : Outcome (MsgSend × Chain β) :=
  if c.exemption.isExemptedFromTax msg.fromAddress [msg.toAddress] then pure (msg, c)
  else do
    let (netAmount, c) ← deductTax K ctx c fromAddr msg.amount false
    pure ({ msg with amount := netAmount }, c)

/-- `BankMsgServer.Send`. -/
def send (K : Keepers β) (ctx : Context) (c : Chain β) (msg : MsgSend) :
    Outcome (Chain β) := do
  let reverse ← isReverseCharge ctx
  if ¬ reverse then passSend K ctx c msg
  else do
    let fromAddr ← K.mustAccAddress msg.fromAddress
    let (msg, c) ← rewriteSend K ctx c msg fromAddr
    passSend K ctx c msg

/-- The inputs or outputs of a multi-send, each reduced by its tax. -/
def deductAll (K : Keepers β) (ctx : Context) (skipDeduct : Bool) :
    Chain β → List InOut → Outcome (List InOut × Chain β)
  | c, [] => pure ([], c)
  | c, io :: rest => do
      let addr ← K.mustAccAddress io.address
      let (netCoins, c) ← deductTax K ctx c addr io.coins skipDeduct
      let (rest, c) ← deductAll K ctx skipDeduct c rest
      pure ({ io with coins := netCoins } :: rest, c)

/-- Some input of a multi-send is not exempt. -/
def tainted (s : ExemptionStore) (msg : MsgMultiSend) : Bool :=
  msg.inputs.any fun input =>
    !s.isExemptedFromTax input.address (msg.outputs.map InOut.address)

/-- A tainted multi-send is reduced by its taxes, which are taken from the inputs. -/
def rewriteMultiSend (K : Keepers β) (ctx : Context) (c : Chain β) (msg : MsgMultiSend) :
    Outcome (MsgMultiSend × Chain β) :=
  if tainted c.exemption msg then do
    let (inputs, c) ← deductAll K ctx false c msg.inputs
    let (outputs, c) ← deductAll K ctx true c msg.outputs
    pure (⟨inputs, outputs⟩, c)
  else pure (msg, c)

/-- `BankMsgServer.MultiSend`. -/
def multiSend (K : Keepers β) (ctx : Context) (c : Chain β) (msg : MsgMultiSend) :
    Outcome (Chain β) := do
  let reverse ← isReverseCharge ctx
  if ¬ reverse then passMultiSend K ctx c msg
  else do
    let (msg, c) ← rewriteMultiSend K ctx c msg
    passMultiSend K ctx c msg

/-- The first coin of the net offer. -/
def firstCoin (coins : Coins) : Outcome Coin :=
  match coins.entries with
  | [] => panicked .outOfRange
  | coin :: _ => .ok coin

/-- `MarketMsgServer.SwapSend`. -/
def swapSend (K : Keepers β) (ctx : Context) (c : Chain β) (msg : MsgSwapSend) :
    Outcome (Chain β × MsgSwapSendResponse) := do
  let reverse ← isReverseCharge ctx
  if ¬ reverse then passSwapSend K ctx c msg
  else do
    let sender ← K.mustAccAddress msg.fromAddress
    let (netOfferCoin, c) ← deductTax K ctx c sender (CoinSet.ofList [msg.offerCoin]) false
    let offerCoin ← firstCoin netOfferCoin
    passSwapSend K ctx c { msg with offerCoin := offerCoin }

/-- The messages with a wrapped server. -/
inductive TaxedMsg where
  | send (msg : MsgSend)
  | multiSend (msg : MsgMultiSend)
  | swapSend (msg : MsgSwapSend)

/-- The server of a message. -/
def TaxedMsg.handle (K : Keepers β) (ctx : Context) (c : Chain β) : TaxedMsg → Outcome (Chain β)
  | .send msg => Tax.send K ctx c msg
  | .multiSend msg => Tax.multiSend K ctx c msg
  | .swapSend msg => (Tax.swapSend K ctx c msg).map Prod.fst

/-! ### Balanced multi-sends -/

/-- The amount of a denom on one side of a multi-send. -/
def sideAmount (l : List InOut) (d : Denom) : ℤ := (l.map fun io => io.coins.amountOf d).sum

/-- Inputs and outputs balance in every denom. -/
def Balanced (msg : MsgMultiSend) : Prop :=
  ∀ d, sideAmount msg.inputs d = sideAmount msg.outputs d

/-- What the truncations on one side of a multi-send drop, in units of the last decimal. -/
def dust (rate : Dec) (l : List InOut) (d : Denom) : ℤ :=
  (l.map fun io => io.coins.amountOf d * rate.raw % decFormat.scale).sum

/-- The coins on both sides of a multi-send are valid. -/
def ValidSides (msg : MsgMultiSend) : Prop :=
  (∀ io ∈ msg.inputs, io.coins.IsValid) ∧ ∀ io ∈ msg.outputs, io.coins.IsValid

/-- One side of a multi-send after its deductions: the amounts have lost their taxes, and the
parameters and the exemptions are what they were. -/
lemma deductAll_eq_ok {K : Keepers β} {ctx : Context} (hrev : isReverseCharge ctx = .ok true)
    {skipDeduct : Bool} :
    ∀ {l l' : List InOut} {c c' : Chain β}, 0 ≤ c.params.burnTaxRate.raw →
      (∀ io ∈ l, io.coins.IsValid) → deductAll K ctx skipDeduct c l = .ok (l', c') →
      c'.params = c.params ∧ c'.exemption = c.exemption
        ∧ ∀ d, decFormat.scale * sideAmount l' d
          = (decFormat.scale - c.params.burnTaxRate.raw) * sideAmount l d
            + dust c.params.burnTaxRate l d := by
  intro l
  induction l with
  | nil =>
      intro l' c c' _ _ h
      obtain ⟨rfl, rfl⟩ := Prod.ext_iff.mp (Except.ok.inj h)
      exact ⟨rfl, rfl, fun d => by simp [sideAmount, dust]⟩
  | cons io l ih =>
      intro l' c c' hrate hv h
      obtain ⟨addr, -, h⟩ := bind_eq_ok.mp h
      obtain ⟨⟨net, c₁⟩, hdeduct, h⟩ := bind_eq_ok.mp h
      obtain ⟨⟨rest, c₂⟩, hrest, h⟩ := bind_eq_ok.mp h
      obtain ⟨rfl, rfl⟩ := Prod.ext_iff.mp (Except.ok.inj h)
      obtain ⟨taxes, htaxes, rfl, hcharge⟩ := deductTax_eq_ok hrev hdeduct
      obtain ⟨s, rfl⟩ := chargeTax_eq_ok hcharge
      obtain ⟨hparams, hexempt, hsum⟩ := ih (by exact hrate)
        (fun io' hio' => hv io' (List.mem_cons_of_mem _ hio')) hrest
      refine ⟨hparams, hexempt, fun d => ?_⟩
      -- the truncated tax of one amount, and the remainder it drops
      have hx := CoinSet.isValid_iff.mp (hv io (by simp)) d
      have hprod : 0 ≤ io.coins.amountOf d * c.params.burnTaxRate.raw := mul_nonneg hx hrate
      have htax := (computeTax_eq_ok_iff.mp htaxes d).2
      rw [Int.tdiv_eq_ediv_of_nonneg hprod, max_eq_left (Int.ediv_nonneg hprod (by positivity))]
        at htax
      have hdiv := Int.mul_ediv_add_emod (io.coins.amountOf d * c.params.burnTaxRate.raw)
        decFormat.scale
      have hd := hsum d
      simp only [sideAmount, dust, List.map_cons, List.sum_cons, CoinSet.amountOf_safeSub, htax]
        at hd ⊢
      rw [mul_add, hd, mul_sub]
      linear_combination -hdiv

/-- **The rewritten multi-send.** Of a balanced multi-send whose tax is deducted, the message
handed to the bank balances exactly when in every denom the truncations of the inputs drop as
much as the truncations of the outputs. -/
theorem multiSend_balanced_iff {K : Keepers β} {ctx : Context} {c c' : Chain β}
    {msg msg' : MsgMultiSend} (hrate : 0 ≤ c.params.burnTaxRate.raw)
    (hv : ValidSides msg) (hbal : Balanced msg)
    (hrev : isReverseCharge ctx = .ok true) (htaint : tainted c.exemption msg = true)
    (h : rewriteMultiSend K ctx c msg = .ok (msg', c')) :
    Balanced msg' ↔ ∀ d, dust c.params.burnTaxRate msg.inputs d
      = dust c.params.burnTaxRate msg.outputs d := by
  rw [rewriteMultiSend, if_pos htaint] at h
  obtain ⟨⟨inputs, c₁⟩, hin, h⟩ := bind_eq_ok.mp h
  obtain ⟨⟨outputs, c₂⟩, hout, h⟩ := bind_eq_ok.mp h
  obtain ⟨rfl, rfl⟩ := Prod.ext_iff.mp (Except.ok.inj h)
  obtain ⟨hparams, -, hsin⟩ := deductAll_eq_ok hrev hrate hv.1 hin
  obtain ⟨-, -, hsout⟩ := deductAll_eq_ok hrev (by rw [hparams]; exact hrate) hv.2 hout
  rw [hparams] at hsout
  have hS : (decFormat.scale : ℤ) ≠ 0 := by exact_mod_cast decFormat.scale_pos.ne'
  refine forall_congr' fun d => ?_
  rw [← mul_right_inj' hS, hsin, hsout, hbal d, add_right_inj]

/-- A context with the given values. -/
def contextWith (values : List (String × ContextValue)) : Context where
  blockHeight := 1
  minGasPrices := ∅
  priority := 0
  values := values

/-- The context of a message dispatched by a contract. -/
def reverseContext : Context := contextWith [(contextKeyTaxReverseCharge, .bool true)]

/-- A multi-send of dollars from one sender to two recipients in equal parts. -/
def halvedSend (part : ℤ) : MsgMultiSend where
  inputs := [⟨"sender", CoinSet.ofList [("uusd", 2 * part)]⟩]
  outputs := [⟨"first", CoinSet.ofList [("uusd", part)]⟩, ⟨"second", CoinSet.ofList [("uusd", part)]⟩]

lemma sideAmount_halvedSend (part : ℤ) (d : Denom) :
    sideAmount (halvedSend part).inputs d = (if "uusd" = d then 2 * part else 0)
      ∧ sideAmount (halvedSend part).outputs d = (if "uusd" = d then 2 * part else 0) := by
  simp only [sideAmount, halvedSend, List.map_cons, List.map_nil, List.sum_cons, List.sum_nil,
    CoinSet.amountOf_ofList]
  split_ifs <;> exact ⟨by ring, by ring⟩

lemma balanced_halvedSend (part : ℤ) : Balanced (halvedSend part) := fun d => by
  obtain ⟨h1, h2⟩ := sideAmount_halvedSend part d
  rw [h1, h2]

lemma validSides_halvedSend {part : ℤ} (h : 0 ≤ part) : ValidSides (halvedSend part) := by
  have hv : ∀ x : ℤ, 0 ≤ x → (CoinSet.ofList [("uusd", x)] : Coins).IsValid := fun x hx =>
    CoinSet.isValid_iff.mpr fun d => by
      rw [CoinSet.amountOf_ofList]
      simp only [List.map_cons, List.map_nil, List.sum_cons, List.sum_nil]
      split_ifs <;> omega
  simp only [ValidSides, halvedSend, List.forall_mem_cons, List.not_mem_nil, false_imp_iff,
    implies_true, and_true]
  exact ⟨hv _ (by omega), hv _ h, hv _ h⟩

/-- At the default rate of half a percent, two hundred dollars pay one dollar of tax, and twice
one hundred pay none: the rewritten message has less on its input than on its outputs. -/
theorem multiSend_unbalanced_of_halves :
    ∃ msg' c', ValidSides (halvedSend 100) ∧ Balanced (halvedSend 100)
      ∧ tainted (ledgerChain [("sender", "uusd", 1000)]).exemption (halvedSend 100) = true
      ∧ rewriteMultiSend ledgerKeepers reverseContext (ledgerChain [("sender", "uusd", 1000)])
        (halvedSend 100) = .ok (msg', c')
      ∧ sideAmount msg'.inputs "uusd" = 199 ∧ sideAmount msg'.outputs "uusd" = 200 := by
  obtain ⟨⟨msg', c'⟩, hrun, htest⟩ := exists_of_returns
    (p := fun r : MsgMultiSend × Chain Ledger =>
      decide (sideAmount r.1.inputs "uusd" = 199 ∧ sideAmount r.1.outputs "uusd" = 200))
    (x := rewriteMultiSend ledgerKeepers reverseContext (ledgerChain [("sender", "uusd", 1000)])
      (halvedSend 100)) (by decide +kernel)
  exact ⟨msg', c', validSides_halvedSend (by norm_num), balanced_halvedSend 100,
    by decide +kernel, hrun, of_decide_eq_true htest⟩

/-- Where both truncations are exact, the rewritten message balances. -/
theorem multiSend_balanced_of_exact_halves :
    ∃ msg' c', rewriteMultiSend ledgerKeepers reverseContext
        (ledgerChain [("sender", "uusd", 1000)]) (halvedSend 200) = .ok (msg', c')
      ∧ Balanced msg' := by
  obtain ⟨⟨msg', c'⟩, hrun, -⟩ := exists_of_returns (p := fun _ => true)
    (x := rewriteMultiSend ledgerKeepers reverseContext (ledgerChain [("sender", "uusd", 1000)])
      (halvedSend 200)) (by decide +kernel)
  refine ⟨msg', c', hrun, (multiSend_balanced_iff (by decide +kernel)
    (validSides_halvedSend (by norm_num)) (balanced_halvedSend 200) (by decide +kernel)
    (by decide +kernel) hrun).mpr fun d => ?_⟩
  simp only [dust, halvedSend, List.map_cons, List.map_nil, List.sum_cons, List.sum_nil,
    CoinSet.amountOf_ofList]
  split_ifs <;> decide +kernel

/-! ### The context of a server -/

/-- The keepers and the wrapped servers do not assert the type of a context value. -/
structure AssertionFree (K : Keepers β) : Prop where
  send_account : ∀ s a m coins,
    K.sendCoinsFromAccountToModule s a m coins ≠ .error (.panic .typeAssertion)
  send_module : ∀ s m m' coins,
    K.sendCoinsFromModuleToModule s m m' coins ≠ .error (.panic .typeAssertion)
  bank_send : ∀ ctx s msg, K.bankSend ctx s msg ≠ .error (.panic .typeAssertion)
  bank_multiSend : ∀ ctx s msg, K.bankMultiSend ctx s msg ≠ .error (.panic .typeAssertion)
  market_swapSend : ∀ ctx s msg, K.marketSwapSend ctx s msg ≠ .error (.panic .typeAssertion)

section Assertion

lemma computeTax_ne_assertion (c : Chain β) (amount : Coins) :
    computeTax c amount ≠ .error (.panic .typeAssertion) := by
  intro h
  obtain ⟨e, -, he⟩ := CoinSet.coinwise_eq_error
    (fun acc e _ => addTax_eq c.params.burnTaxRate acc e) h
  rw [taxAmount_eq] at he
  split_ifs at he <;> simp [Except.map, panicked] at he

lemma sub_ne_assertion (a b : Coins) : a.sub b ≠ .error (.panic .typeAssertion) := fun h => by
  have := (CoinSet.sub_eq_error_iff.mp h).2
  simp at this

lemma shareOf_ne_assertion (rate : Dec) (coins : Coins) :
    shareOf rate coins ≠ .error (.panic .typeAssertion) := by
  intro h
  obtain ⟨e, -, he⟩ := CoinSet.coinwise_eq_error (fun acc e _ => addShare_eq rate acc e) h
  rw [shareBody, newCoin] at he
  split_ifs at he <;> simp [Except.map, panicked] at he

lemma checked_ne_assertion (x : ℤ) :
    (Fixed.checked x : Outcome Dec) ≠ .error (.panic .typeAssertion) := fun h => by
  have := (Fixed.checked_eq_error_iff.mp h).2
  simp at this

lemma applyCommunityTax_ne_assertion (ct os : Dec) :
    applyCommunityTax ct os ≠ .error (.panic .typeAssertion) := by
  refine bind_ne_error (checked_ne_assertion _) fun _ _ => bind_ne_error (checked_ne_assertion _)
    fun _ _ => bind_ne_error (checked_ne_assertion _) fun d _ => bind_ne_error ?_
    fun _ _ => checked_ne_assertion _
  intro h
  rcases Fixed.quo_eq_error_iff.mp h with ⟨-, h⟩ | ⟨-, -, h⟩ <;> simp at h

lemma splitTaxes_ne_assertion (b os ct : Dec) (taxes : Coins) :
    splitTaxes b os ct taxes ≠ .error (.panic .typeAssertion) := by
  refine bind_ne_error ?_ fun r _ => bind_ne_error ?_ fun r' _ => bind_ne_error ?_ fun _ _ => ?_
  · rw [burnSplit]
    split_ifs
    · exact bind_ne_error (shareOf_ne_assertion _ _) fun _ _ =>
        bind_ne_error (sub_ne_assertion _ _) fun _ _ => by simp
    · simp
  · rw [communitySplit]
    split_ifs
    · exact bind_ne_error (applyCommunityTax_ne_assertion _ _) fun _ _ =>
        bind_ne_error (shareOf_ne_assertion _ _) fun _ _ =>
        bind_ne_error (sub_ne_assertion _ _) fun _ _ => by simp
    · simp
  · rw [oracleSplitCoins]
    split_ifs
    · exact shareOf_ne_assertion _ _
    · simp
  · simp

variable {K : Keepers β}

lemma processTaxSplits_ne_assertion (hK : AssertionFree K) (c : Chain β) (taxes : Coins) :
    processTaxSplits K c taxes ≠ .error (.panic .typeAssertion) := by
  have hsend : ∀ s m coins, sendShare K s m coins ≠ .error (.panic .typeAssertion) := by
    intro s m coins
    rw [sendShare]
    split_ifs
    · simp
    · exact hK.send_module _ _ _ _
  refine bind_ne_error (splitTaxes_ne_assertion _ _ _ _) fun split _ => bind_ne_error ?_ fun _ _ =>
    bind_ne_error (hsend _ _ _) fun _ _ => bind_ne_error (hsend _ _ _) fun _ _ => by simp
  rw [fundCommunityPool]
  split_ifs
  · simp
  · refine bind_ne_error (hK.send_module _ _ _ _) fun s _ => bind_ne_error ?_ fun _ _ => by simp
    refine foldlM_ne_error (fun _ => True) trivial (fun _ _ _ _ _ _ => trivial) fun e _ a _ => ?_
    exact bind_ne_error (checked_ne_assertion _) fun _ _ => by simp

/-- A deduction in a context with a reverse-charge entry. -/
lemma deductTax_ne_assertion (hK : AssertionFree K) {ctx : Context} {b : Bool}
    (hctx : isReverseCharge ctx = .ok b) (c : Chain β) (sender : AccAddress) (amount : Coins)
    (skipDeduct : Bool) :
    deductTax K ctx c sender amount skipDeduct ≠ .error (.panic .typeAssertion) := by
  cases b with
  | false =>
      rw [deductTax_of_not_reverse K c sender amount skipDeduct hctx]
      simp
  | true =>
      rw [deductTax, hctx, ok_bind, if_neg (by simp)]
      refine bind_ne_error (computeTax_ne_assertion _ _) fun taxes _ =>
        bind_ne_error (sub_ne_assertion _ _) fun _ _ => bind_ne_error ?_ fun _ _ => by simp
      rw [chargeTax]
      split_ifs
      · exact bind_ne_error (hK.send_account _ _ _ _) fun _ _ =>
          bind_ne_error (processTaxSplits_ne_assertion hK _ _) fun _ _ => by simp
      · simp

lemma Keepers.mustAccAddress_ne_assertion (K : Keepers β) (address : String) :
    K.mustAccAddress address ≠ .error (.panic .typeAssertion) := by
  rw [mustAccAddress]
  split <;> simp [panicked]

lemma deductAll_ne_assertion (hK : AssertionFree K) {ctx : Context} {b : Bool}
    (hctx : isReverseCharge ctx = .ok b) (skipDeduct : Bool) :
    ∀ (l : List InOut) (c : Chain β),
      deductAll K ctx skipDeduct c l ≠ .error (.panic .typeAssertion) := by
  intro l
  induction l with
  | nil =>
      intro c
      rw [deductAll]
      simp
  | cons io l ih =>
      intro c
      exact bind_ne_error (K.mustAccAddress_ne_assertion _) fun _ _ =>
        bind_ne_error (deductTax_ne_assertion hK hctx _ _ _ _) fun _ _ =>
        bind_ne_error (ih _) fun _ _ => by simp

/-- In a context with a reverse-charge entry no server fails an assertion. -/
lemma TaxedMsg.handle_ne_assertion (hK : AssertionFree K) {ctx : Context} {b : Bool}
    (hctx : isReverseCharge ctx = .ok b) (c : Chain β) (msg : TaxedMsg) :
    msg.handle K ctx c ≠ .error (.panic .typeAssertion) := by
  have hsend : ∀ c msg, passSend K ctx c msg ≠ .error (.panic .typeAssertion) := fun c msg =>
    bind_ne_error (hK.bank_send _ _ _) fun _ _ => by simp
  have hmulti : ∀ c msg, passMultiSend K ctx c msg ≠ .error (.panic .typeAssertion) :=
    fun c msg => bind_ne_error (hK.bank_multiSend _ _ _) fun _ _ => by simp
  have hswap : ∀ c msg, passSwapSend K ctx c msg ≠ .error (.panic .typeAssertion) :=
    fun c msg => bind_ne_error (hK.market_swapSend _ _ _) fun _ _ => by simp
  cases msg with
  | send msg =>
      rw [handle, Tax.send, hctx, ok_bind]
      split_ifs
      · refine bind_ne_error (K.mustAccAddress_ne_assertion _) fun addr _ =>
          bind_ne_error ?_ fun _ _ => hsend _ _
        rw [rewriteSend]
        split_ifs
        · simp
        · exact bind_ne_error (deductTax_ne_assertion hK hctx _ _ _ _) fun _ _ => by simp
      · exact hsend _ _
  | multiSend msg =>
      rw [handle, Tax.multiSend, hctx, ok_bind]
      split_ifs
      · refine bind_ne_error ?_ fun _ _ => hmulti _ _
        rw [rewriteMultiSend]
        split_ifs
        · exact bind_ne_error (deductAll_ne_assertion hK hctx _ _ _) fun _ _ =>
            bind_ne_error (deductAll_ne_assertion hK hctx _ _ _) fun _ _ => by simp
        · simp
      · exact hmulti _ _
  | swapSend msg =>
      rw [handle, Ne, map_eq_error_iff, Tax.swapSend, hctx, ok_bind]
      split_ifs
      · refine bind_ne_error (K.mustAccAddress_ne_assertion _) fun _ _ =>
          bind_ne_error (deductTax_ne_assertion hK hctx _ _ _ _) fun _ _ =>
          bind_ne_error ?_ fun _ _ => hswap _ _
        rw [firstCoin]
        split <;> simp [panicked]
      · exact hswap _ _

/-- The flag is read safely exactly where there is one. -/
lemma isReverseCharge_eq_ok_iff {ctx : Context} {b : Bool} :
    isReverseCharge ctx = .ok b ↔ ctx.value contextKeyTaxReverseCharge = some (.bool b) := by
  rw [isReverseCharge]
  split
  · simp_all
  · rename_i hno
    simp only [panicked, reduceCtorEq, false_iff]
    exact hno b

/-- **Contexts.** The server of a send, a multi-send or a swap-send does not panic on its context
exactly when the context carries a reverse-charge entry. -/
theorem handle_context_safe_iff (hK : AssertionFree K) (ctx : Context) (c : Chain β)
    (msg : TaxedMsg) :
    msg.handle K ctx c ≠ .error (.panic .typeAssertion)
      ↔ ∃ b, ctx.value contextKeyTaxReverseCharge = some (.bool b) := by
  constructor
  · intro h
    cases hctx : isReverseCharge ctx with
    | ok b => exact ⟨b, isReverseCharge_eq_ok_iff.mp hctx⟩
    | error e =>
        have he : e = .panic .typeAssertion := by
          rw [isReverseCharge] at hctx
          split at hctx
          · simp at hctx
          · exact (Except.error.inj hctx).symm
        refine absurd ?_ h
        cases msg with
        | send msg => rw [TaxedMsg.handle, send, hctx, error_bind, he]
        | multiSend msg => rw [TaxedMsg.handle, multiSend, hctx, error_bind, he]
        | swapSend msg =>
            rw [TaxedMsg.handle, swapSend, hctx, error_bind, he]
            rfl
  · rintro ⟨b, hb⟩
    exact TaxedMsg.handle_ne_assertion hK (isReverseCharge_eq_ok_iff.mpr hb) c msg

end Assertion

lemma assertionFree_ledger : AssertionFree ledgerKeepers where
  send_account s _ _ _ := s.transfer_ne_panic _ _ _ _
  send_module s _ _ _ := s.transfer_ne_panic _ _ _ _
  bank_send _ s _ := s.transfer_ne_panic _ _ _ _
  bank_multiSend _ s msg := by
    have hloop : ∀ (l : List InOut) (f : InOut → AccAddress × AccAddress) (s : Ledger),
        l.foldlM (fun s i => s.transfer (f i).1 (f i).2 i.coins) s
          ≠ .error (.panic .typeAssertion) := fun l f s =>
      foldlM_ne_error (fun _ => True) trivial (fun _ _ _ _ _ _ => trivial)
        fun _ _ s _ => s.transfer_ne_panic _ _ _ _
    exact bind_ne_error (hloop _ (fun i => (i.address, "transit")) s) fun s' _ =>
      hloop _ (fun o => ("transit", o.address)) s'
  market_swapSend _ s _ := bind_ne_error (s.transfer_ne_panic _ _ _ _) fun _ _ => by simp

/-- A send of ten dollars. -/
def tenDollars : MsgSend where
  fromAddress := "sender"
  toAddress := "first"
  amount := CoinSet.ofList [("uusd", 10)]

/-- A message of a passed proposal runs in the context of the block, which has no reverse-charge
entry: its server panics. -/
theorem send_panics_without_ante_context :
    TaxedMsg.handle ledgerKeepers (contextWith []) (ledgerChain [("sender", "uusd", 1000)])
      (.send tenDollars) = .error (.panic .typeAssertion) :=
  eq_of_panicsWith (by decide +kernel)

/-- The context of a contract dispatch has one. -/
theorem send_safe_in_dispatch_context :
    TaxedMsg.handle ledgerKeepers reverseContext (ledgerChain [("sender", "uusd", 1000)])
      (.send tenDollars) ≠ .error (.panic .typeAssertion) :=
  (handle_context_safe_iff assertionFree_ledger reverseContext
    (ledgerChain [("sender", "uusd", 1000)]) (.send tenDollars)).mpr ⟨true, rfl⟩

end ColumbusCore.Tax
