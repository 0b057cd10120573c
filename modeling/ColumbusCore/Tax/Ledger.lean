import ColumbusCore.Tax.Keeper

/-!
A bank to evaluate the model on: balances by address and denom, a community pool and a community
tax. A module account has the name of its module as address, an account its bech32 text.
-/

namespace ColumbusCore.Tax

open Go

/-- The state of the ledger. -/
structure Ledger where
  balance : AccAddress → Denom → ℤ
  pool : DecCoins
  communityTax : Dec

namespace Ledger

/-- A transfer, refused where the sender lacks a coin. -/
def transfer (s : Ledger) (sender recipient : AccAddress) (coins : Coins) : Outcome Ledger :=
  if ∀ e ∈ coins.entries, e.2 ≤ s.balance sender e.1 then
    .ok { s with
      balance := fun a d => s.balance a d - (if sender = a then coins.amountOf d else 0)
        + (if recipient = a then coins.amountOf d else 0) }
  else failed "spendable balance is smaller than the amount: insufficient funds"

/-- New coins in a module account. -/
def mint (s : Ledger) (module : String) (coins : Coins) : Ledger :=
  { s with balance := fun a d => s.balance a d + if module = a then coins.amountOf d else 0 }

end Ledger

/-- The keepers of a ledger on which every text is an address. Messages are executed by the
bank's own transfers; a swap pays out what was offered. -/
def ledgerKeepers : Keepers Ledger where
  accAddressFromBech32 s := if s = "" then none else some s
  accString a := a
  getModuleAddress name := some name
  hasAccount _ _ := true
  getBalance s := s.balance
  sendCoinsFromAccountToModule s a m coins := s.transfer a m coins
  sendCoinsFromModuleToAccount s m a coins := s.transfer m a coins
  sendCoinsFromModuleToModule s m m' coins := s.transfer m m' coins
  mintCoins s m coins := .ok (s.mint m coins)
  getCommunityTax s := s.communityTax
  communityPool s := s.pool
  setCommunityPool s pool := { s with pool := pool }
  useGrantedFees := none
  bankSend _ s msg := s.transfer msg.fromAddress msg.toAddress msg.amount
  bankMultiSend _ s msg := do
    let s ← msg.inputs.foldlM (fun s i => s.transfer i.address "transit" i.coins) s
    msg.outputs.foldlM (fun s o => s.transfer "transit" o.address o.coins) s
  marketSwapSend _ s msg := do
    let s ← s.transfer msg.fromAddress msg.toAddress (CoinSet.ofList [msg.offerCoin])
    pure (s, ⟨msg.offerCoin, (msg.askDenom, 0)⟩)

lemma Ledger.transfer_eq_ok {s s' : Ledger} {sender recipient : AccAddress} {coins : Coins}
    (h : s.transfer sender recipient coins = .ok s') :
    s' = { s with
      balance := fun a d => s.balance a d - (if sender = a then coins.amountOf d else 0)
        + (if recipient = a then coins.amountOf d else 0) } := by
  rw [transfer] at h
  split_ifs at h
  · exact (Except.ok.inj h).symm
  · simp [failed] at h

lemma Ledger.transfer_ne_panic (s : Ledger) (sender recipient : AccAddress) (coins : Coins)
    (p : Panic) : s.transfer sender recipient coins ≠ .error (.panic p) := by
  rw [transfer]
  split_ifs <;> simp [failed]

/-- The ledger keeps the laws of a bank. -/
lemma bankLawful_ledger : BankLawful ledgerKeepers where
  send_ne_panic s _ _ _ _ := s.transfer_ne_panic _ _ _ _
  send_balance s s' m coins h a d := by
    rw [Ledger.transfer_eq_ok h]
    simp [ledgerKeepers]
  send_pool s s' m coins h := by
    rw [Ledger.transfer_eq_ok h]
    rfl
  set_balance _ _ := rfl
  set_pool _ _ := rfl

/-- Coins of a list, by denom. -/
def Ledger.balances (l : List (AccAddress × Denom × ℤ)) : AccAddress → Denom → ℤ :=
  fun a d => (l.map fun e => if e.1 = a ∧ e.2.1 = d then e.2.2 else 0).sum

/-- A chain with the default parameters of the tax and of the treasury, no exemption, and a
community tax of two percent. -/
def ledgerChain (balances : List (AccAddress × Denom × ℤ)) : Chain Ledger where
  params := { gasPrices := [], burnTaxRate := newDecWithPrec 5 3 }
  treasury := { params := Treasury.defaultParams, taxCaps := ∅, epochTaxProceeds := ∅ }
  exemption := { zones := ∅, addresses := ∅ }
  rest :=
    { balance := Ledger.balances balances
      pool := ∅
      communityTax := newDecWithPrec 2 2 }

end ColumbusCore.Tax
