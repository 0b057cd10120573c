import ColumbusCore.Market.Swap

/-!
A bank to evaluate swaps on: balances by address and denom, and the supply of every denom. A
module account has the name of its module as address, an account its bech32 text.
-/

namespace ColumbusCore.Market

open Go
open Std (ExtTreeMap)

/-- The state of the ledger. -/
structure Ledger where
  balance : AccAddress → Denom → ℤ
  supply : Denom → ℤ

namespace Ledger

/-- The ledger with coins added to one balance. -/
def credit (s : Ledger) (account : AccAddress) (coins : Coins) : Ledger :=
  { s with balance := fun a d => s.balance a d + if account = a then coins.amountOf d else 0 }

/-- The ledger with coins taken from one balance, refused where there are too few. -/
def debit (s : Ledger) (account : AccAddress) (coins : Coins) : Outcome Ledger :=
  if ∀ e ∈ coins.entries, e.2 ≤ s.balance account e.1 then
    .ok { s with
      balance := fun a d => s.balance a d - if account = a then coins.amountOf d else 0 }
  else failed "spendable balance is smaller than the amount: insufficient funds"

/-- A transfer. -/
def transfer (s : Ledger) (sender recipient : AccAddress) (coins : Coins) : Outcome Ledger := do
  let s ← s.debit sender coins
  pure (s.credit recipient coins)

/-- New coins in a module account. -/
def mint (s : Ledger) (module : String) (coins : Coins) : Ledger :=
  { s.credit module coins with supply := fun d => s.supply d + coins.amountOf d }

/-- Coins of a module account destroyed. -/
def burn (s : Ledger) (module : String) (coins : Coins) : Outcome Ledger := do
  let s ← s.debit module coins
  pure { s with supply := fun d => s.supply d - coins.amountOf d }

end Ledger

/-- The keepers of a ledger on which every text but the empty one is an address. -/
def ledgerKeepers : Keepers Ledger where
  accAddressFromBech32 s := if s = "" then none else some s
  sendCoinsFromAccountToModule s a m coins := s.transfer a m coins
  sendCoinsFromModuleToAccount s m a coins := s.transfer m a coins
  sendCoinsFromModuleToModule s m m' coins := s.transfer m m' coins
  burnCoins s m coins := s.burn m coins
  mintCoins s m coins := .ok (s.mint m coins)

/-- A ledger on which one trader owns all luna there is. -/
def lunaLedger (trader : AccAddress) (amount : ℤ) : Ledger where
  balance a d := if a = trader ∧ d = microLunaDenom then amount else 0
  supply d := if d = microLunaDenom then amount else 0

/-- An oracle store with the given exchange rates and nothing else. -/
def ratesStore (rates : ExtTreeMap Denom Dec) : Oracle.Store where
  params := Oracle.defaultParams
  exchangeRates := rates
  feederDelegations := ∅
  missCounters := ∅
  prevotes := ∅
  votes := ∅
  tobinTaxes := ∅

/-- A market in which a trader owns a million luna, with prices of the SDR and of one terra. -/
def usdMarket : State Ledger where
  params := defaultParams
  terraPoolDelta := 0
  oracle := ratesStore
    (((∅ : ExtTreeMap Denom Dec).insert "usdr" (newDecWithPrec 7 1)).insert "uusd"
      (newDecWithPrec 93 2))
  bank := lunaLedger "trader" 1000000

end ColumbusCore.Market
