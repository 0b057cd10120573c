import ColumbusCore.Ante.Fee

/-!
The fee of a simulation (`checkDeductFee` of `custom/auth/ante/fee.go`).

A simulation knows no fee yet: the fee it is given is raised to the taxes, and what is missing is
minted to the payer, so that the deduction does not fail for it.

* `exists_simulatedFee`: the raised fee is, coin by coin, the larger of the fee and the taxes;
* `SimulatedFee`: what a simulation mints, deducts and refunds;
* `checkDeductFee_simulate`: a simulation credits the payer with the one and charges the other;
* `checkDeductFee_simulated`: **no subtraction panics, what is minted, and the balance of the payer**.
-/

namespace ColumbusCore.Ante

open Go
open Tax (Chain Keepers Context)

variable {β : Type}

/-! ### The raised fee -/

lemma raiseToTax_eq {feesOrTax : Coins} (hv : feesOrTax.IsValid) {tax : Coin} (htax : 0 ≤ tax.2) :
    raiseToTax feesOrTax tax
      = .ok (feesOrTax.addCoin (tax.1, max (tax.2 - feesOrTax.amountOf tax.1) 0)) := by
  have hnn := CoinSet.isValid_iff.mp hv tax.1
  rw [raiseToTax]
  split_ifs with hzero hlt
  · rw [hzero, sub_zero, max_eq_left htax]
    rfl
  · rw [newCoin_eq_ok_iff.mpr ⟨by omega, rfl⟩, ok_bind, max_eq_left (by omega)]
    rfl
  · rw [max_eq_right (by omega), CoinSet.addCoin_zero]
    rfl

/-- The raised fee is, coin by coin, the larger of the fee and the taxes. -/
theorem exists_simulatedFee {fee taxes : Coins} (hfee : fee.IsValid) (htaxes : taxes.IsValid) :
    ∃ raised, simulatedFee fee taxes = .ok raised ∧ raised.IsValid
      ∧ ∀ d, raised.amountOf d = max (fee.amountOf d) (taxes.amountOf d) := by
  have hstart : (if fee.IsZero then taxes else fee).IsValid := by
    split_ifs
    · exact htaxes
    · exact hfee
  obtain ⟨raised, hraised, hvalid, hsum⟩ := CoinSet.exists_foldlM_entries
    (g := fun e y => max (e.2 - y) 0) (x := taxes) (fun d y hy => by simpa using hy)
    (fun e _ y hy => by omega) (fun c hc e he => raiseToTax_eq hc (htaxes e he).le) hstart
  refine ⟨raised, hraised, hvalid, fun d => ?_⟩
  have hnn := CoinSet.isValid_iff.mp htaxes d
  rw [hsum]
  split_ifs with hzero
  · rw [Amounts.isZero_iff.mp hzero d]
    omega
  · omega

/-! ### What a simulation moves -/

/-- The coins of a simulation: what the fee lacks is minted, the tax left for the post handler is not
deducted, and a refundable coin is refunded where the rest has it. -/
structure SimulatedFee (fee taxes nonTaxable : Coins) where
  minted : Coins
  deducted : Coins
  refunded : Coins
  valid : minted.IsValid ∧ deducted.IsValid ∧ refunded.IsValid
  minted_eq : ∀ d, minted.amountOf d
    = max (fee.amountOf d) (taxes.amountOf d) - fee.amountOf d
  refunded_eq : ∀ d, refunded.amountOf d
    = if nonTaxable.amountOf d ≤ max (fee.amountOf d) (taxes.amountOf d) - taxes.amountOf d
      then nonTaxable.amountOf d else 0
  deducted_eq : ∀ d, deducted.amountOf d
    = max (fee.amountOf d) (taxes.amountOf d) - taxes.amountOf d - refunded.amountOf d

/-- The payer, who has an account, after the use of a fee grant. -/
def existingPayer (K : Keepers β) (c : Chain β) (tx : FeeTx) : Outcome (AccAddress × β) := do
  failIf (K.getModuleAddress Tax.feeCollectorName = none)
    "fee collector module account (fee_collector) has not been set"
  let (payer, s) ← deductFeesFrom K c.rest tx
  failIf (¬ K.hasAccount s payer)
    ("fee payer address: " ++ K.accString payer ++ " does not exist: unknown address")
  pure (payer, s)

/-- New coins are minted to the payer, where there are any. -/
def creditPayer (K : Keepers β) (s : β) (payer : AccAddress) (coins : Coins) : Outcome β :=
  if coins.IsZero then pure s
  else do
    let s ← K.mintCoins s Tax.mintModuleName coins
    K.sendCoinsFromModuleToAccount s Tax.mintModuleName payer coins

/-- Coins are deducted from the payer, where there are any. -/
def chargePayer (K : Keepers β) (s : β) (payer : AccAddress) (coins : Coins) : Outcome β :=
  if coins.IsZero then pure s else deductFees K s payer coins

/-- What a simulation does: it credits the payer with the coins minted and charges the coins
deducted. -/
def settleSimulation (K : Keepers β) (ctx : Context) (c : Chain β) (tx : FeeTx)
    (taxes minted deducted : Coins) : Outcome (Context × Chain β) := do
  let (payer, s) ← existingPayer K c tx
  let s ← creditPayer K s payer minted
  let s ← chargePayer K s payer deducted
  pure (if tx.fee.IsZero ∧ taxes.IsZero then ctx else withTaxDue K ctx taxes payer,
    { c with rest := s })

section Simulation

variable {K : Keepers β} {ctx : Context} {c : Chain β} {tx : FeeTx} {s : β} {payer : AccAddress}
  {fee taxes nonTaxable raised : Coins}

lemma mintMissing_eq (hfee : fee.IsValid) (hle : ∀ d, fee.amountOf d ≤ raised.amountOf d) :
    mintMissing K s payer raised fee = creditPayer K s payer (CoinSet.safeSub raised fee) := by
  rw [mintMissing, sub_eq_ok_of_le hle, creditPayer]
  split_ifs with hraised hmint hmint
  · rfl
  · -- a fee below zero coins is no coins
    refine absurd (Amounts.isZero_iff.mpr fun d => ?_) hmint
    have hnn := CoinSet.isValid_iff.mp hfee d
    have hd := hle d
    rw [Amounts.isZero_iff.mp hraised d] at hd
    rw [CoinSet.amountOf_safeSub, Amounts.isZero_iff.mp hraised d]
    omega
  · rw [ok_bind, if_pos hmint]
  · rw [ok_bind, if_neg hmint]

lemma payFee_eq_chargePayer {rest : Coins} (hle : ∀ d, taxes.amountOf d ≤ raised.amountOf d)
    (hrest : refundAll (CoinSet.safeSub raised taxes) nonTaxable = .ok rest)
    (hzero : raised.IsZero → rest.IsZero) :
    payFee K ctx s payer raised taxes nonTaxable = chargePayer K s payer rest >>= fun s =>
      pure (if raised.IsZero then ctx else withTaxDue K ctx taxes payer, s) := by
  rw [payFee, sub_eq_ok_of_le hle, chargePayer]
  split_ifs with hraised hcharge hcharge
  · rfl
  · exact absurd (hzero hraised) hcharge
  · rw [ok_bind, hrest, ok_bind, if_pos hcharge]
    rfl
  · rw [ok_bind, hrest, ok_bind, if_neg hcharge]

/-- **A simulation**, for every fee and all taxes, settles the coins of a `SimulatedFee`. -/
theorem checkDeductFee_simulate (K : Keepers β) (ctx : Context) (c : Chain β) {tx : FeeTx}
    (hfee : tx.fee.IsValid) (htaxes : taxes.IsValid) (hnon : nonTaxable.IsValid) :
    ∃ sim : SimulatedFee tx.fee taxes nonTaxable,
      checkDeductFee K ctx c tx taxes nonTaxable true
        = settleSimulation K ctx c tx taxes sim.minted sim.deducted := by
  obtain ⟨raised, hraised, -, hmax⟩ := exists_simulatedFee hfee htaxes
  have hleFee : ∀ d, tx.fee.amountOf d ≤ raised.amountOf d := fun d => by
    rw [hmax]
    exact le_max_left _ _
  have hleTax : ∀ d, taxes.amountOf d ≤ raised.amountOf d := fun d => by
    rw [hmax]
    exact le_max_right _ _
  obtain ⟨rest, hrest, hvalid, hsum⟩ := exists_refundAll (isValid_safeSub hleTax) nonTaxable
  have hnn := CoinSet.isValid_iff.mp hnon
  have hrefunded : ∀ d, (CoinSet.safeSub (CoinSet.safeSub raised taxes) rest).amountOf d
      = if nonTaxable.amountOf d
          ≤ max (tx.fee.amountOf d) (taxes.amountOf d) - taxes.amountOf d
        then nonTaxable.amountOf d else 0 := fun d => by
    rw [CoinSet.amountOf_safeSub, hsum, CoinSet.amountOf_safeSub, hmax]
    ring
  have hzeroIff : raised.IsZero ↔ tx.fee.IsZero ∧ taxes.IsZero := by
    have h₁ := CoinSet.isValid_iff.mp hfee
    have h₂ := CoinSet.isValid_iff.mp htaxes
    simp only [Amounts.isZero_iff, hmax, ← forall_and]
    refine forall_congr' fun d => ?_
    have h₁ := h₁ d
    have h₂ := h₂ d
    omega
  have hrestZero : raised.IsZero → rest.IsZero := fun h => Amounts.isZero_iff.mpr fun d => by
    have htax := Amounts.isZero_iff.mp (hzeroIff.mp h).2 d
    have hd := CoinSet.isValid_iff.mp hvalid d
    have hn := hnn d
    rw [hsum, CoinSet.amountOf_safeSub, Amounts.isZero_iff.mp h d, htax] at hd ⊢
    split_ifs at hd ⊢ <;> omega
  refine ⟨⟨CoinSet.safeSub raised tx.fee, rest, CoinSet.safeSub (CoinSet.safeSub raised taxes) rest,
    ⟨isValid_safeSub hleFee, hvalid, CoinSet.isValid_iff.mpr fun d => ?_⟩, fun d => ?_, hrefunded,
    fun d => ?_⟩, ?_⟩
  · rw [hrefunded]
    split_ifs
    · exact hnn d
    · exact le_rfl
  · rw [CoinSet.amountOf_safeSub, hmax]
  · simp only [CoinSet.amountOf_safeSub, hmax]
    ring
  · simp only [checkDeductFee, settleSimulation, existingPayer, bind_assoc, pure_bind, feesOrTax,
      if_true, hraised, ok_bind, mintMissing_eq hfee hleFee,
      payFee_eq_chargePayer hleTax hrest hrestZero, hzeroIff]

end Simulation

/-! ### The balance of the payer -/

/-- The bank and the fee grants do what they document: coins are minted to a module and moved
between accounts, an allowance is no balance, and no balance is subtracted from unchecked. -/
structure SimulationLawful (K : Keepers β) : Prop extends SubtractionFree K where
  mint_ne : ∀ s coins,
    K.mintCoins s Tax.mintModuleName coins ≠ .error (.panic .negativeDifference)
  credit_ne : ∀ s payer coins, K.sendCoinsFromModuleToAccount s Tax.mintModuleName payer coins
    ≠ .error (.panic .negativeDifference)
  mint_balance : ∀ s s' coins, K.mintCoins s Tax.mintModuleName coins = .ok s' → ∀ a d,
    K.getBalance s' a d = K.getBalance s a d
      + (if K.getModuleAddress Tax.mintModuleName = some a then coins.amountOf d else 0)
  credit_balance : ∀ s s' payer coins,
    K.sendCoinsFromModuleToAccount s Tax.mintModuleName payer coins = .ok s' → ∀ a d,
      K.getBalance s' a d = K.getBalance s a d
        - (if K.getModuleAddress Tax.mintModuleName = some a then coins.amountOf d else 0)
        + (if payer = a then coins.amountOf d else 0)
  charge_balance : ∀ s s' payer coins,
    K.sendCoinsFromAccountToModule s payer Tax.feeCollectorName coins = .ok s' → ∀ a d,
      K.getBalance s' a d = K.getBalance s a d - (if payer = a then coins.amountOf d else 0)
        + (if K.getModuleAddress Tax.feeCollectorName = some a then coins.amountOf d else 0)
  grant_balance : ∀ useGrantedFees, K.useGrantedFees = some useGrantedFees →
    ∀ s s' granter grantee fee,
      useGrantedFees s granter grantee fee = .ok s' → K.getBalance s' = K.getBalance s

lemma simulationLawful_ledger : SimulationLawful Tax.ledgerKeepers where
  toSubtractionFree := subtractionFree_ledger
  mint_ne _ _ := by simp [Tax.ledgerKeepers]
  credit_ne s _ _ := s.transfer_ne_panic _ _ _ _
  mint_balance s s' coins h a d := by
    obtain rfl := Except.ok.inj h
    simp [Tax.ledgerKeepers, Tax.Ledger.mint]
  credit_balance s s' payer coins h a d := by
    rw [Tax.Ledger.transfer_eq_ok h]
    simp [Tax.ledgerKeepers]
  charge_balance s s' payer coins h a d := by
    rw [Tax.Ledger.transfer_eq_ok h]
    simp [Tax.ledgerKeepers]
  grant_balance _ h := by simp [Tax.ledgerKeepers] at h

section Balance

variable {K : Keepers β} {c : Chain β} {tx : FeeTx} {s s' : β} {payer : AccAddress} {coins : Coins}

lemma existingPayer_balance (hK : SimulationLawful K) (h : existingPayer K c tx = .ok (payer, s)) :
    deductFeesFrom K c.rest tx = .ok (payer, s) ∧ K.getBalance s = K.getBalance c.rest := by
  obtain ⟨⟨⟩, -, h⟩ := bind_eq_ok.mp h
  obtain ⟨⟨payer', s₁⟩, hfrom, h⟩ := bind_eq_ok.mp h
  obtain ⟨⟨⟩, -, h⟩ := bind_eq_ok.mp h
  obtain ⟨rfl, rfl⟩ := Prod.mk.inj (Except.ok.inj h)
  refine ⟨hfrom, ?_⟩
  rw [deductFeesFrom] at hfrom
  split at hfrom
  · obtain ⟨-, rfl⟩ := Prod.mk.inj (Except.ok.inj hfrom)
    rfl
  · split at hfrom
    · exact absurd hfrom (by simp [failed])
    · next useGrantedFees hgrant =>
        split_ifs at hfrom
        · obtain ⟨-, rfl⟩ := Prod.mk.inj (Except.ok.inj hfrom)
          rfl
        · obtain ⟨s₂, hs₂, hfrom⟩ := bind_eq_ok.mp hfrom
          obtain ⟨-, rfl⟩ := Prod.mk.inj (Except.ok.inj hfrom)
          exact hK.grant_balance _ hgrant _ _ _ _ _ hs₂

lemma creditPayer_balance (hK : SimulationLawful K) (h : creditPayer K s payer coins = .ok s')
    (d : Denom) : K.getBalance s' payer d = K.getBalance s payer d + coins.amountOf d := by
  rw [creditPayer] at h
  split_ifs at h with hzero
  · obtain rfl := Except.ok.inj h
    rw [Amounts.isZero_iff.mp hzero d, add_zero]
  · obtain ⟨s₁, hmint, h⟩ := bind_eq_ok.mp h
    rw [hK.credit_balance _ _ _ _ h, hK.mint_balance _ _ _ hmint, if_pos rfl]
    ring

lemma chargePayer_balance (hK : SimulationLawful K) (h : chargePayer K s payer coins = .ok s')
    (d : Denom) : K.getBalance s' payer d = K.getBalance s payer d - coins.amountOf d
      + if K.getModuleAddress Tax.feeCollectorName = some payer then coins.amountOf d else 0 := by
  rw [chargePayer] at h
  split_ifs at h with hzero
  · obtain rfl := Except.ok.inj h
    rw [Amounts.isZero_iff.mp hzero d, ite_self, sub_zero, add_zero]
  · rw [hK.charge_balance _ _ _ _ (deductFees_eq_ok h), if_pos rfl]

lemma settleSimulation_ne (hK : SimulationLawful K) (ctx : Context) (c : Chain β) (tx : FeeTx)
    (taxes minted deducted : Coins) :
    settleSimulation K ctx c tx taxes minted deducted ≠ .error (.panic .negativeDifference) := by
  refine bind_ne_error (bind_ne_error failIf_ne_panic fun _ _ => bind_ne_error
    (deductFeesFrom_ne hK.toSubtractionFree _) fun _ _ => bind_ne_error failIf_ne_panic
    fun _ _ => by simp) fun p _ => bind_ne_error ?_ fun s₁ _ => bind_ne_error ?_ fun _ _ => by simp
  · rw [creditPayer]
    split_ifs
    · simp
    · exact bind_ne_error (hK.mint_ne _ _) fun _ _ => hK.credit_ne _ _ _
  · rw [chargePayer]
    split_ifs
    · simp
    · exact deductFees_ne hK.toSubtractionFree _ _ _

end Balance

/-- **The fee of a simulation.** For every fee, all taxes and all refundable taxes no subtraction
panics; what is minted to the payer is what the larger of the fee and the taxes exceeds the fee by;
and on success the balance of the payer is its old one without the fee, with the taxes and with what
is refunded. Only the fee collector, as a payer, gets back what is deducted from it. -/
theorem checkDeductFee_simulated {K : Keepers β} (hK : SimulationLawful K) (ctx : Context)
    (c : Chain β) {tx : FeeTx} {taxes nonTaxable : Coins} (hfee : tx.fee.IsValid)
    (htaxes : taxes.IsValid) (hnon : nonTaxable.IsValid) :
    checkDeductFee K ctx c tx taxes nonTaxable true ≠ .error (.panic .negativeDifference)
    ∧ ∃ sim : SimulatedFee tx.fee taxes nonTaxable,
      checkDeductFee K ctx c tx taxes nonTaxable true
        = settleSimulation K ctx c tx taxes sim.minted sim.deducted
      ∧ ∀ ctx' c', checkDeductFee K ctx c tx taxes nonTaxable true = .ok (ctx', c') →
        ∃ payer s, deductFeesFrom K c.rest tx = .ok (payer, s) ∧ ∀ d,
          K.getBalance c'.rest payer d = K.getBalance c.rest payer d - tx.fee.amountOf d
            + taxes.amountOf d + sim.refunded.amountOf d
            + if K.getModuleAddress Tax.feeCollectorName = some payer
              then sim.deducted.amountOf d else 0 := by
  obtain ⟨sim, hsim⟩ := checkDeductFee_simulate K ctx c hfee htaxes hnon
  refine ⟨hsim ▸ settleSimulation_ne hK ctx c tx taxes sim.minted sim.deducted, sim, hsim,
    fun ctx' c' hrun => ?_⟩
  rw [hsim] at hrun
  obtain ⟨⟨payer, s⟩, hpayer, hrun⟩ := bind_eq_ok.mp hrun
  obtain ⟨s₁, hcredit, hrun⟩ := bind_eq_ok.mp hrun
  obtain ⟨s₂, hcharge, hrun⟩ := bind_eq_ok.mp hrun
  obtain ⟨rfl, rfl⟩ := Prod.mk.inj (Except.ok.inj hrun)
  obtain ⟨hfrom, hsame⟩ := existingPayer_balance hK hpayer
  refine ⟨payer, s, hfrom, fun d => ?_⟩
  have hdeducted := sim.deducted_eq d
  have hminted := sim.minted_eq d
  calc K.getBalance s₂ payer d
      = K.getBalance c.rest payer d + sim.minted.amountOf d - sim.deducted.amountOf d
          + if K.getModuleAddress Tax.feeCollectorName = some payer
            then sim.deducted.amountOf d else 0 := by
        rw [chargePayer_balance hK hcharge, creditPayer_balance hK hcredit, hsame]
    _ = _ := by
        rw [hminted]
        generalize (if K.getModuleAddress Tax.feeCollectorName = some payer
          then sim.deducted.amountOf d else 0) = back
        omega

/-- A fee in two coins, below its tax in the one. -/
def smallFee (payer : AccAddress) : FeeTx where
  fee := CoinSet.ofList [("uluna", 50), ("uusd", 100)]
  gas := 100000
  feePayer := payer
  feeGranter := none
  msgs := []

/-- Fifty dollars are minted, and thirty luna refunded. -/
theorem smallFee_simulated :
    ∃ ctx' c', checkDeductFee Tax.ledgerKeepers (Tax.contextWith [])
        (Tax.ledgerChain [("alice", "uluna", 1000), ("alice", "uusd", 1000)]) (smallFee "alice")
        (CoinSet.ofList [("uusd", 150)]) (CoinSet.ofList [("uluna", 30)]) true = .ok (ctx', c')
      ∧ c'.rest.balance "alice" "uusd" = 1000 - 100 + 150
      ∧ c'.rest.balance "alice" "uluna" = 1000 - 50 + 30 := by
  obtain ⟨⟨ctx', c'⟩, hrun, -⟩ := exists_of_returns
    (p := fun _ : Context × Chain Tax.Ledger => true)
    (x := checkDeductFee Tax.ledgerKeepers (Tax.contextWith [])
      (Tax.ledgerChain [("alice", "uluna", 1000), ("alice", "uusd", 1000)]) (smallFee "alice")
      (CoinSet.ofList [("uusd", 150)]) (CoinSet.ofList [("uluna", 30)]) true) (by decide +kernel)
  obtain ⟨-, sim, -, hbalance⟩ := @checkDeductFee_simulated _ _ simulationLawful_ledger
    (Tax.contextWith [])
    (Tax.ledgerChain [("alice", "uluna", 1000), ("alice", "uusd", 1000)]) (smallFee "alice")
    (CoinSet.ofList [("uusd", 150)]) (CoinSet.ofList [("uluna", 30)])
    (by decide +kernel) (by decide +kernel) (by decide +kernel)
  obtain ⟨payer, s, hfrom, hbalance⟩ := hbalance ctx' c' hrun
  obtain rfl : "alice" = payer := (Prod.mk.inj (Except.ok.inj hfrom)).1
  have hother : Tax.ledgerKeepers.getModuleAddress Tax.feeCollectorName ≠ some "alice" := by decide
  refine ⟨ctx', c', hrun, (hbalance "uusd").trans ?_, (hbalance "uluna").trans ?_⟩
  · rw [if_neg hother, sim.refunded_eq]
    decide +kernel
  · rw [if_neg hother, sim.refunded_eq]
    decide +kernel

/-- The fee collector that simulates a transaction of its own keeps the fee. -/
theorem collector_keeps_fee :
    ∃ ctx' c', checkDeductFee Tax.ledgerKeepers (Tax.contextWith [])
        (Tax.ledgerChain [("fee_collector", "uluna", 50), ("fee_collector", "uusd", 100)])
        (smallFee "fee_collector") ∅ ∅ true = .ok (ctx', c')
      ∧ (smallFee "fee_collector").fee.amountOf "uusd" = 100
      ∧ c'.rest.balance "fee_collector" "uusd" ≠ 100 - 100 + 0 + 0 := by
  obtain ⟨⟨ctx', c'⟩, hrun, htest⟩ := exists_of_returns
    (p := fun r : Context × Chain Tax.Ledger => r.2.rest.balance "fee_collector" "uusd" = 100)
    (x := checkDeductFee Tax.ledgerKeepers (Tax.contextWith [])
      (Tax.ledgerChain [("fee_collector", "uluna", 50), ("fee_collector", "uusd", 100)])
      (smallFee "fee_collector") ∅ ∅ true) (by decide +kernel)
  have htest : c'.rest.balance "fee_collector" "uusd" = 100 := of_decide_eq_true htest
  exact ⟨ctx', c', hrun, by decide +kernel, by rw [htest]; decide⟩

end ColumbusCore.Ante
