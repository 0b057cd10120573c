import ColumbusCore.Vesting.Rounding

/-!
A lazy graded vesting account over whole runs of calls of the bank: coins are sent, delegated and
undelegated, by anyone and in any order, at block times that do not run backwards.

The account keeps what it has delegated in two sums, the delegated vesting and the delegated free
coins, and the bank holds back what is still vesting and not delegated. The bank itself is no part of
the repository: `BankKeeper` is any bank, and `BankKeeper.Lawful` says what a successful call does to
balances and to tracked amounts. A `Pot` is what an address has of one denomination.

* `Pot.Covered.step`: each call keeps what is still vesting within the balance and the delegated
  vesting coins;
* `Holding.pot_steps`: **a call of a lawful bank is, at every denomination, a few steps of a pot**;
* `spent_le_vested`: **over every run, what an account has spent is no more than what it received
  and what has vested**;
* `lockedCoins_fall`: **after every run the locked coins are defined and within the balance, fall with
  time, and are gone when the schedules have ended**.
-/

namespace ColumbusCore.Vesting

open Go Rounding

/-! ### One denomination -/

/-- What an address has of one denomination, and what it has spent and received of it so far. -/
@[ext] structure Pot where
  balance : ℤ
  delegatedVesting : ℤ
  delegatedFree : ℤ
  spent : ℤ
  received : ℤ

namespace Pot

/-- What is held back while `vesting` is still vesting. -/
def locked (vesting : ℤ) (p : Pot) : ℤ := max (vesting - p.delegatedVesting) 0

/-- The part of an undelegation that the free coins take back. -/
def toFree (p : Pot) (x : ℤ) : ℤ := min p.delegatedFree x

/-- The part that the vesting coins take back. -/
def toVesting (p : Pot) (x : ℤ) : ℤ := min p.delegatedVesting (x - p.toFree x)

/-- What a call does to a pot of which `vesting` is still vesting. A delegation may take from what is
locked, and takes from it first. An undelegation is given back to the free coins first; what it
returns beyond the tracked delegations counts as received. -/
inductive Step (vesting : ℤ) (p : Pot) : Pot → Prop where
  | spend (x : ℤ) (h0 : 0 ≤ x) (hx : x ≠ 0 → x ≤ p.balance - p.locked vesting) :
      Step vesting p { p with balance := p.balance - x, spent := p.spent + x }
  | receive (x : ℤ) (h0 : 0 ≤ x) :
      Step vesting p { p with balance := p.balance + x, received := p.received + x }
  | delegate (x : ℤ) (h0 : 0 ≤ x) (hx : x ≠ 0 → x ≤ p.balance) :
      Step vesting p { p with
        balance := p.balance - x
        delegatedVesting := p.delegatedVesting + fromVesting vesting p.delegatedVesting x
        delegatedFree := p.delegatedFree + (x - fromVesting vesting p.delegatedVesting x) }
  | undelegate (x : ℤ) (h0 : 0 ≤ x) :
      Step vesting p { p with
        balance := p.balance + x
        delegatedVesting := p.delegatedVesting - p.toVesting x
        delegatedFree := p.delegatedFree - p.toFree x
        received := p.received + (x - p.toVesting x - p.toFree x) }

/-- The invariant of a pot that started with `start`: no sum is negative, no more than the original
coins is delegated as vesting, what is still vesting is in the balance or delegated as vesting, and
nothing is lost. -/
structure Covered (original vesting start : ℤ) (p : Pot) : Prop where
  balance_nonneg : 0 ≤ p.balance
  vesting_nonneg : 0 ≤ p.delegatedVesting
  free_nonneg : 0 ≤ p.delegatedFree
  within : p.delegatedVesting ≤ original
  covered : vesting ≤ p.balance + p.delegatedVesting
  balanced : p.balance + p.delegatedVesting + p.delegatedFree + p.spent = start + p.received

variable {original vesting start : ℤ} {p p' : Pot}

/-- What is held back is there. -/
lemma Covered.locked_le (h : Covered original vesting start p) : p.locked vesting ≤ p.balance := by
  have hcovered := h.covered
  have hnn := h.balance_nonneg
  rw [locked]
  omega

/-- Less is vesting later. -/
lemma Covered.mono (h : Covered original vesting start p) {vesting' : ℤ} (hle : vesting' ≤ vesting) :
    Covered original vesting' start p :=
  { h with covered := hle.trans h.covered }

/-- Each call keeps the invariant. -/
lemma Covered.step (h : Covered original vesting start p) (hvesting : vesting ≤ original)
    (hstep : Step vesting p p') : Covered original vesting start p' := by
  obtain ⟨hb, hv, hf, hwithin, hcovered, hbalanced⟩ := h
  cases hstep with
  | spend x h0 hx =>
      have hx' : x ≤ p.balance - p.locked vesting ∨ x = 0 := by
        by_cases hz : x = 0
        · exact .inr hz
        · exact .inl (hx hz)
      rw [locked] at hx'
      exact ⟨by dsimp only; omega, hv, hf, hwithin, by dsimp only; omega, by dsimp only; omega⟩
  | receive x h0 =>
      exact ⟨by dsimp only; omega, hv, hf, hwithin, by dsimp only; omega, by dsimp only; omega⟩
  | delegate x h0 hx =>
      have hx' : x ≤ p.balance := by
        by_cases hz : x = 0
        · omega
        · exact hx hz
      -- a delegation takes as vesting no more than what is vesting and not yet delegated as such
      have hfrom : fromVesting vesting p.delegatedVesting x
          = min (max (vesting - p.delegatedVesting) 0) x := rfl
      refine ⟨?_, ?_, ?_, ?_, ?_, ?_⟩ <;> dsimp only <;> omega
  | undelegate x h0 =>
      have hfree : p.toFree x = min p.delegatedFree x := rfl
      have hvest : p.toVesting x = min p.delegatedVesting (x - p.toFree x) := rfl
      refine ⟨?_, ?_, ?_, ?_, ?_, ?_⟩ <;> dsimp only <;> omega

lemma Covered.steps (h : Covered original vesting start p) (hvesting : vesting ≤ original)
    (hsteps : Relation.ReflTransGen (Step vesting) p p') : Covered original vesting start p' := by
  induction hsteps with
  | refl => exact h
  | tail _ hstep ih => exact ih.step hvesting hstep

end Pot

/-! ### Accounts -/

/-- `NewLazyGradedVestingAccount`: nothing is delegated yet. -/
def newLazyGradedVestingAccount (baseAcc : BaseAccount) (originalVesting : Coins)
    (lazyVestingSchedules : List VestingSchedule) : LazyGradedVestingAccount where
  baseAccount := baseAcc
  originalVesting := originalVesting
  delegatedFree := ∅
  delegatedVesting := ∅
  vestingSchedules := lazyVestingSchedules

/-- What no call changes of an account. -/
def LazyGradedVestingAccount.terms (lgva : LazyGradedVestingAccount) :
    BaseAccount × Coins × List VestingSchedule :=
  (lgva.baseAccount, lgva.originalVesting, lgva.vestingSchedules)

/-- The account at one denomination: its terms and what it has delegated. -/
def LazyGradedVestingAccount.tracked (lgva : LazyGradedVestingAccount) (d : Denom) :
    (BaseAccount × Coins × List VestingSchedule) × ℤ × ℤ :=
  (lgva.terms, lgva.delegatedVesting.amountOf d, lgva.delegatedFree.amountOf d)

/-- The vested coins are a matter of the terms. -/
lemma getVestedCoins_of_terms {a b : LazyGradedVestingAccount} (h : a.terms = b.terms)
    (blockTime : Int64) : a.getVestedCoins blockTime = b.getVestedCoins blockTime := by
  cases a
  cases b
  obtain ⟨rfl, h⟩ := Prod.mk.inj h
  obtain ⟨rfl, rfl⟩ := Prod.mk.inj h
  rfl

/-- A step left out for a zero coin adds its amount in any case. -/
lemma eq_of_unless_zero {α : Type} {f : Coin → α} {a a' : α} {d : Denom} {x : ℤ}
    (hzero : f (d, 0) = a)
    (h : (if x = 0 then pure a else newCoin d x >>= fun e => pure (f e) : Outcome α) = .ok a') :
    a' = f (d, x) := by
  split_ifs at h with hz
  · rw [hz, hzero]
    exact (Except.ok.inj h).symm
  · obtain ⟨e, he, h⟩ := bind_eq_ok.mp h
    obtain ⟨-, rfl⟩ := newCoin_eq_ok_iff.mp he
    exact (Except.ok.inj h).symm

lemma delegateVesting_eq_ok {d : Denom} {x : ℤ} {lgva lgva' : LazyGradedVestingAccount}
    (h : delegateVesting d x lgva = .ok lgva') :
    lgva' = { lgva with delegatedVesting := lgva.delegatedVesting.addCoin (d, x) } :=
  eq_of_unless_zero (α := LazyGradedVestingAccount) (f := fun e => { lgva with
    delegatedVesting := lgva.delegatedVesting.addCoin e }) (by rw [CoinSet.addCoin_zero]) h

lemma delegateFree_eq_ok {d : Denom} {y : ℤ} {lgva lgva' : LazyGradedVestingAccount}
    (h : delegateFree d y lgva = .ok lgva') :
    lgva' = { lgva with delegatedFree := lgva.delegatedFree.addCoin (d, y) } :=
  eq_of_unless_zero (α := LazyGradedVestingAccount) (f := fun e => { lgva with
    delegatedFree := lgva.delegatedFree.addCoin e }) (by rw [CoinSet.addCoin_zero]) h

/-- One round of the tracking of a delegation. -/
lemma trackCoin_eq_ok {balance vesting : Coins} {lgva lgva' : LazyGradedVestingAccount} {e : Coin}
    (h : trackCoin balance vesting lgva e = .ok lgva') :
    ∃ x, x = fromVesting (vesting.amountOf e.1) (lgva.delegatedVesting.amountOf e.1) e.2
      ∧ lgva' = { lgva with
          delegatedVesting := lgva.delegatedVesting.addCoin (e.1, x)
          delegatedFree := lgva.delegatedFree.addCoin (e.1, e.2 - x) } := by
  rw [trackCoin] at h
  split_ifs at h
  · simp at h
  · obtain ⟨mid, hmid, h⟩ := bind_eq_ok.mp h
    obtain rfl := delegateVesting_eq_ok hmid
    exact ⟨_, rfl, delegateFree_eq_ok h⟩

/-- What the tracking of a delegation does, at every denomination. -/
lemma trackDelegation_eq_ok {lgva lgva' : LazyGradedVestingAccount} {blockTime : Int64}
    {vesting : Coins} (hvesting : lgva.getVestingCoins blockTime = .ok vesting)
    {balance amount : Coins} (h : lgva.trackDelegation blockTime balance amount = .ok lgva')
    (d : Denom) :
    ∃ x, x = fromVesting (vesting.amountOf d) (lgva.delegatedVesting.amountOf d) (amount.amountOf d)
      ∧ lgva'.tracked d = (lgva.terms, lgva.delegatedVesting.amountOf d + x,
        lgva.delegatedFree.amountOf d + (amount.amountOf d - x)) := by
  rw [LazyGradedVestingAccount.trackDelegation, hvesting, ok_bind] at h
  refine Amounts.foldlM_entries_separate LazyGradedVestingAccount.tracked
    (fun e a a' => ∃ x, x = fromVesting (vesting.amountOf e.1) a.2.1 e.2
      ∧ a' = (a.1, a.2.1 + x, a.2.2 + (e.2 - x)))
    (fun d a => ⟨0, ?_, ?_⟩) (fun e _ lgva lgva' h => ?_) h d
  · rw [fromVesting]
    omega
  · simp
  · obtain ⟨x, hx, rfl⟩ := trackCoin_eq_ok h
    refine ⟨⟨x, hx, ?_⟩, fun d hd => ?_⟩
    · simp [LazyGradedVestingAccount.tracked, LazyGradedVestingAccount.terms]
    · simp [LazyGradedVestingAccount.tracked, LazyGradedVestingAccount.terms, hd]

/-- The locked coins are what is vesting and not delegated as such. -/
lemma amountOf_lockedCoins {lgva : LazyGradedVestingAccount} {blockTime : Int64}
    {vesting locked : Coins} (hvesting : lgva.getVestingCoins blockTime = .ok vesting)
    (hlocked : lgva.lockedCoins blockTime = .ok locked) {d : Denom}
    (h0 : 0 ≤ vesting.amountOf d) (hv : 0 ≤ lgva.delegatedVesting.amountOf d) :
    locked.amountOf d = max (vesting.amountOf d - lgva.delegatedVesting.amountOf d) 0 := by
  rw [LazyGradedVestingAccount.lockedCoins, hvesting, ok_bind] at hlocked
  obtain ⟨delegated, hmin, hsub⟩ := bind_eq_ok.mp hlocked
  obtain ⟨-, rfl⟩ := CoinSet.min_eq_ok_iff.mp hmin
  obtain ⟨-, rfl⟩ := CoinSet.sub_eq_ok_iff.mp hsub
  rw [CoinSet.amountOf_safeSub, CoinSet.amountOf_pairMin]
  split_ifs <;> omega

/-! ### The bank -/

/-- The keepers of the bank and of the accounts: the lazy graded vesting account at an address, if
there is one, the balance of an address, and at a block time the calls `SendCoins` from one address
to another, `DelegateCoins` from a delegator to a module account and `UndelegateCoins` back. -/
structure BankKeeper (σ : Type) where
  getAccount : σ → AccAddress → Option LazyGradedVestingAccount
  getAllBalances : σ → AccAddress → Coins
  sendCoins : Int64 → AccAddress → AccAddress → Coins → σ → Outcome σ
  delegateCoins : Int64 → AccAddress → AccAddress → Coins → σ → Outcome σ
  undelegateCoins : Int64 → AccAddress → AccAddress → Coins → σ → Outcome σ

/-- What a call moves at the address `a`, where it moves coins at `addr`. -/
def amountAt (a addr : AccAddress) (amt : Coins) (d : Denom) : ℤ :=
  if addr = a then amt.amountOf d else 0

/-- What `TrackUndelegation` does: the free coins are given back first, then the vesting coins. -/
structure Untracked (amt : Coins) (acc acc' : LazyGradedVestingAccount) : Prop where
  terms : acc'.terms = acc.terms
  free : ∀ d, acc'.delegatedFree.amountOf d
    = acc.delegatedFree.amountOf d - min (acc.delegatedFree.amountOf d) (amt.amountOf d)
  vesting : ∀ d, acc'.delegatedVesting.amountOf d = acc.delegatedVesting.amountOf d
    - min (acc.delegatedVesting.amountOf d)
      (amt.amountOf d - min (acc.delegatedFree.amountOf d) (amt.amountOf d))

namespace BankKeeper

variable {σ : Type} (K : BankKeeper σ)

/-- Valid coins are taken from one balance and added to another. -/
def Moves (fromAddr toAddr : AccAddress) (amt : Coins) (s s' : σ) : Prop :=
  amt.IsValid ∧ ∀ a d, (K.getAllBalances s' a).amountOf d
    = (K.getAllBalances s a).amountOf d - amountAt a fromAddr amt d + amountAt a toAddr amt d

/-- The coins are within what a vesting account at the address does not hold back. -/
def Unlocked (blockTime : Int64) (addr : AccAddress) (amt : Coins) (s : σ) : Prop :=
  ∀ acc, K.getAccount s addr = some acc → ∃ locked, acc.lockedCoins blockTime = .ok locked
    ∧ ∀ d, amt.amountOf d ≠ 0 →
      amt.amountOf d ≤ (K.getAllBalances s addr).amountOf d - locked.amountOf d

/-- The documented behaviour of the bank, of calls that succeed. Coins are valid and are moved; what
an account sends is unlocked; a delegation is within the balance and is tracked by the account; the
tracking of an undelegation takes back free coins first. Nothing is said about when a call
succeeds. -/
structure Lawful : Prop where
  sendCoins : ∀ {blockTime fromAddr toAddr amt s s'},
    K.sendCoins blockTime fromAddr toAddr amt s = .ok s' →
    K.Moves fromAddr toAddr amt s s' ∧ K.Unlocked blockTime fromAddr amt s
      ∧ ∀ a, K.getAccount s' a = K.getAccount s a
  delegateCoins : ∀ {blockTime delegatorAddr moduleAccAddr amt s s'},
    K.delegateCoins blockTime delegatorAddr moduleAccAddr amt s = .ok s' →
    K.Moves delegatorAddr moduleAccAddr amt s s'
      ∧ (∀ d, amt.amountOf d ≠ 0 →
        amt.amountOf d ≤ (K.getAllBalances s delegatorAddr).amountOf d)
      ∧ (∀ a, a ≠ delegatorAddr → K.getAccount s' a = K.getAccount s a)
      ∧ ∀ acc, K.getAccount s delegatorAddr = some acc →
        ∃ acc' balance, acc.trackDelegation blockTime balance amt = .ok acc'
          ∧ K.getAccount s' delegatorAddr = some acc'
  undelegateCoins : ∀ {blockTime moduleAccAddr delegatorAddr amt s s'},
    K.undelegateCoins blockTime moduleAccAddr delegatorAddr amt s = .ok s' →
    K.Moves moduleAccAddr delegatorAddr amt s s' ∧ K.Unlocked blockTime moduleAccAddr amt s
      ∧ (∀ a, a ≠ delegatorAddr → K.getAccount s' a = K.getAccount s a)
      ∧ ∀ acc, K.getAccount s delegatorAddr = some acc → acc.delegatedVesting.IsValid →
        acc.delegatedFree.IsValid →
        ∃ acc', Untracked amt acc acc' ∧ K.getAccount s' delegatorAddr = some acc'

/-- What the account at an address has delegated. -/
def delegated (s : σ) (a : AccAddress) (d : Denom) : ℤ :=
  match K.getAccount s a with
  | some acc => acc.delegatedVesting.amountOf d + acc.delegatedFree.amountOf d
  | none => 0

end BankKeeper

/-! ### Calls -/

/-- A call of the bank. -/
inductive BankCall where
  | sendCoins (fromAddr toAddr : AccAddress) (amt : Coins)
  | delegateCoins (delegatorAddr moduleAccAddr : AccAddress) (amt : Coins)
  | undelegateCoins (moduleAccAddr delegatorAddr : AccAddress) (amt : Coins)

namespace BankCall

variable {σ : Type} (K : BankKeeper σ) (a : AccAddress)

def run (blockTime : Int64) : BankCall → σ → Outcome σ
  | sendCoins fromAddr toAddr amt => K.sendCoins blockTime fromAddr toAddr amt
  | delegateCoins delegatorAddr moduleAccAddr amt =>
      K.delegateCoins blockTime delegatorAddr moduleAccAddr amt
  | undelegateCoins moduleAccAddr delegatorAddr amt =>
      K.undelegateCoins blockTime moduleAccAddr delegatorAddr amt

/-- What the address spends in the call. -/
def spent : BankCall → Denom → ℤ
  | sendCoins fromAddr _ amt => amountAt a fromAddr amt
  | delegateCoins _ _ _ => 0
  | undelegateCoins moduleAccAddr _ amt => amountAt a moduleAccAddr amt

/-- What it receives. An undelegation returns what was delegated; what it returns beyond that
counts as received. -/
def received (s s' : σ) : BankCall → Denom → ℤ
  | sendCoins _ toAddr amt => amountAt a toAddr amt
  | delegateCoins _ moduleAccAddr amt => amountAt a moduleAccAddr amt
  | undelegateCoins _ delegatorAddr amt => fun d =>
      amountAt a delegatorAddr amt d - (K.delegated s a d - K.delegated s' a d)

end BankCall

/-- The state of the bank, and what the address has spent and received so far. -/
structure Holding (σ : Type) where
  chain : σ
  spent : Denom → ℤ
  received : Denom → ℤ

namespace Holding

variable {σ : Type} (K : BankKeeper σ) (a : AccAddress)

/-- One call, at a block time. -/
def call (h : Holding σ) (c : Int64 × BankCall) : Outcome (Holding σ) := do
  let s ← c.2.run K c.1 h.chain
  pure ⟨s, h.spent + c.2.spent a, h.received + c.2.received K a h.chain s⟩

/-- A run of calls. A call that fails changes nothing. -/
def run (h : Holding σ) (calls : List (Int64 × BankCall)) : Holding σ :=
  calls.foldl (fun h c => keepOnError h (h.call K a c)) h

/-- The bank before the first call. -/
def start (s : σ) : Holding σ := ⟨s, 0, 0⟩

/-- What the address has of one denomination, with the account `acc` at it. -/
def pot (h : Holding σ) (acc : LazyGradedVestingAccount) (d : Denom) : Pot where
  balance := (K.getAllBalances h.chain a).amountOf d
  delegatedVesting := acc.delegatedVesting.amountOf d
  delegatedFree := acc.delegatedFree.amountOf d
  spent := h.spent d
  received := h.received d

end Holding

/-! ### Calls at one denomination -/

section Steps

variable {σ : Type} {K : BankKeeper σ} {a addr : AccAddress} {amt : Coins}
  {acc : LazyGradedVestingAccount} {blockTime : Int64} {vesting : Coins} {d : Denom}

lemma amountAt_nonneg (h : amt.IsValid) : 0 ≤ amountAt a addr amt d := by
  rw [amountAt]
  split_ifs
  · exact CoinSet.isValid_iff.mp h d
  · exact le_rfl

/-- Unlocked coins are within the balance and what is not held back of it. -/
lemma BankKeeper.Unlocked.le {s : σ} (h : K.Unlocked blockTime addr amt s)
    (hacc : K.getAccount s a = some acc) (hvesting : acc.getVestingCoins blockTime = .ok vesting)
    (h0 : 0 ≤ vesting.amountOf d) (hv : 0 ≤ acc.delegatedVesting.amountOf d)
    (hne : amountAt a addr amt d ≠ 0) :
    amountAt a addr amt d ≤ (K.getAllBalances s a).amountOf d
      - max (vesting.amountOf d - acc.delegatedVesting.amountOf d) 0 := by
  rw [amountAt] at hne ⊢
  split_ifs at hne ⊢ with haddr
  · subst haddr
    obtain ⟨locked, hlocked, hle⟩ := h acc hacc
    rw [← amountOf_lockedCoins hvesting hlocked h0 hv]
    exact hle d hne
  · exact absurd rfl hne

/-- What a delegation makes of the account at an address. At another address than the delegator's
nothing is delegated. -/
lemma BankKeeper.Lawful.account_of_delegateCoins (hK : K.Lawful) {s s' : σ}
    {delegatorAddr moduleAccAddr : AccAddress}
    (hrun : K.delegateCoins blockTime delegatorAddr moduleAccAddr amt s = .ok s')
    (hacc : K.getAccount s a = some acc) (hvesting : acc.getVestingCoins blockTime = .ok vesting) :
    ∃ acc', K.getAccount s' a = some acc' ∧ acc'.terms = acc.terms
      ∧ ∀ d, ∃ x, x = fromVesting (vesting.amountOf d) (acc.delegatedVesting.amountOf d)
            (amountAt a delegatorAddr amt d)
        ∧ acc'.delegatedVesting.amountOf d = acc.delegatedVesting.amountOf d + x
        ∧ acc'.delegatedFree.amountOf d
          = acc.delegatedFree.amountOf d + (amountAt a delegatorAddr amt d - x) := by
  obtain ⟨-, -, hothers, htracked⟩ := hK.delegateCoins hrun
  by_cases haddr : delegatorAddr = a
  · subst haddr
    obtain ⟨acc', balance, htrack, hacc'⟩ := htracked acc hacc
    have hall := trackDelegation_eq_ok hvesting htrack
    refine ⟨acc', hacc', ?_, fun d => ?_⟩
    · obtain ⟨x, -, hx⟩ := hall ""
      exact congrArg Prod.fst hx
    · obtain ⟨x, hx, htracked⟩ := hall d
      rw [amountAt, if_pos rfl]
      exact ⟨x, hx, congrArg (fun t => t.2.1) htracked, congrArg (fun t => t.2.2) htracked⟩
  · refine ⟨acc, by rw [← hacc]; exact hothers a (Ne.symm haddr), rfl, fun d => ⟨0, ?_⟩⟩
    rw [amountAt, if_neg haddr, fromVesting]
    omega

/-- What an undelegation makes of it. -/
lemma BankKeeper.Lawful.account_of_undelegateCoins (hK : K.Lawful) {s s' : σ}
    {moduleAccAddr delegatorAddr : AccAddress}
    (hrun : K.undelegateCoins blockTime moduleAccAddr delegatorAddr amt s = .ok s')
    (hacc : K.getAccount s a = some acc) (hv : acc.delegatedVesting.IsValid)
    (hf : acc.delegatedFree.IsValid) :
    ∃ acc', K.getAccount s' a = some acc' ∧ acc'.terms = acc.terms
      ∧ (∀ d, acc'.delegatedFree.amountOf d = acc.delegatedFree.amountOf d
        - min (acc.delegatedFree.amountOf d) (amountAt a delegatorAddr amt d))
      ∧ ∀ d, acc'.delegatedVesting.amountOf d = acc.delegatedVesting.amountOf d
        - min (acc.delegatedVesting.amountOf d) (amountAt a delegatorAddr amt d
          - min (acc.delegatedFree.amountOf d) (amountAt a delegatorAddr amt d)) := by
  obtain ⟨-, -, hothers, huntracked⟩ := hK.undelegateCoins hrun
  by_cases haddr : delegatorAddr = a
  · subst haddr
    obtain ⟨acc', huntracked, hacc'⟩ := huntracked acc hacc hv hf
    simp only [amountAt, if_true]
    exact ⟨acc', hacc', huntracked.terms, huntracked.free, huntracked.vesting⟩
  · have hv0 := CoinSet.isValid_iff.mp hv
    have hf0 := CoinSet.isValid_iff.mp hf
    simp only [amountAt, if_neg haddr]
    refine ⟨acc, by rw [← hacc]; exact hothers a (Ne.symm haddr), rfl, fun d => ?_, fun d => ?_⟩
    · have := hf0 d
      omega
    · have := hf0 d
      have := hv0 d
      omega

variable {h h' : Holding σ}

/-- **A call at one denomination.** A call of a lawful bank, while the `vesting` coins are still
vesting, leaves an account with the same terms at the address, and is at every denomination a step of
its pot or two: coins may go from the address to itself. -/
theorem Holding.pot_steps (hK : K.Lawful) {call : BankCall}
    (hcall : h.call K a (blockTime, call) = .ok h') (hacc : K.getAccount h.chain a = some acc)
    (hvesting : acc.getVestingCoins blockTime = .ok vesting) (h0 : ∀ d, 0 ≤ vesting.amountOf d)
    (hv : acc.delegatedVesting.IsValid) (hf : acc.delegatedFree.IsValid) :
    ∃ acc', K.getAccount h'.chain a = some acc' ∧ acc'.terms = acc.terms
      ∧ ∀ d, Relation.ReflTransGen (Pot.Step (vesting.amountOf d)) (h.pot K a acc d)
        (h'.pot K a acc' d) := by
  have hv0 := CoinSet.isValid_iff.mp hv
  obtain ⟨s', hrun, hcall⟩ := bind_eq_ok.mp hcall
  obtain rfl := Except.ok.inj hcall
  cases call with
  | sendCoins fromAddr toAddr amt =>
      obtain ⟨⟨hvalid, hbalance⟩, hunlocked, hsame⟩ := hK.sendCoins hrun
      refine ⟨acc, by rw [← hacc]; exact hsame a, rfl, fun d => ?_⟩
      have hspend : Pot.Step (vesting.amountOf d) (h.pot K a acc d) _ :=
        .spend (amountAt a fromAddr amt d) (amountAt_nonneg hvalid)
          (hunlocked.le hacc hvesting (h0 d) (hv0 d))
      refine (Relation.ReflTransGen.single hspend).tail ?_
      convert Pot.Step.receive (amountAt a toAddr amt d) (amountAt_nonneg hvalid) using 1
      ext <;> simp [Holding.pot, BankCall.spent, BankCall.received, hbalance]
  | delegateCoins delegatorAddr moduleAccAddr amt =>
      obtain ⟨⟨hvalid, hbalance⟩, hcovered, -⟩ := hK.delegateCoins hrun
      obtain ⟨acc', hacc', hterms, hamounts⟩ := hK.account_of_delegateCoins hrun hacc hvesting
      refine ⟨acc', hacc', hterms, fun d => ?_⟩
      obtain ⟨x, hx, hdv, hdf⟩ := hamounts d
      have hdelegate : Pot.Step (vesting.amountOf d) (h.pot K a acc d) _ :=
        .delegate (amountAt a delegatorAddr amt d) (amountAt_nonneg hvalid) fun hne => by
          rw [amountAt] at hne ⊢
          split_ifs at hne ⊢ with haddr
          · exact haddr ▸ hcovered d hne
          · exact absurd rfl hne
      refine (Relation.ReflTransGen.single hdelegate).tail ?_
      convert Pot.Step.receive (amountAt a moduleAccAddr amt d) (amountAt_nonneg hvalid) using 1
      ext <;> simp [Holding.pot, BankCall.spent, BankCall.received, hbalance, hdv, hdf, hx]
  | undelegateCoins moduleAccAddr delegatorAddr amt =>
      obtain ⟨⟨hvalid, hbalance⟩, hunlocked, -⟩ := hK.undelegateCoins hrun
      obtain ⟨acc', hacc', hterms, hfree, hvest⟩ :=
        hK.account_of_undelegateCoins hrun hacc hv hf
      refine ⟨acc', hacc', hterms, fun d => ?_⟩
      have hspend : Pot.Step (vesting.amountOf d) (h.pot K a acc d) _ :=
        .spend (amountAt a moduleAccAddr amt d) (amountAt_nonneg hvalid)
          (hunlocked.le hacc hvesting (h0 d) (hv0 d))
      refine (Relation.ReflTransGen.single hspend).tail ?_
      convert Pot.Step.undelegate (amountAt a delegatorAddr amt d) (amountAt_nonneg hvalid) using 1
      have hfreed := hfree d
      have hvestd := hvest d
      ext <;> simp [Holding.pot, BankCall.spent, BankCall.received, hbalance, hfreed, hvestd,
        Pot.toVesting, Pot.toFree, BankKeeper.delegated, hacc, hacc']
      ring

end Steps

/-! ### Runs -/

/-- The original coins are within what their ratios round to. -/
def LazyGradedVestingAccount.VestsWithin (lgva : LazyGradedVestingAccount) : Prop :=
  lgva.originalVesting.IsValid
    ∧ ∀ d vs, lgva.getVestingSchedule d = some vs →
      Fixed.Fits decFormat (lgva.originalVesting.amountOf d * vs.totalRatio)
        ∧ SharesWithin vs.total (lgva.originalVesting.amountOf d)

/-- A validated account passes the validation with other delegated coins, within the original. -/
lemma validate_of_terms {B : String → Option AccAddress} {a lgva : LazyGradedVestingAccount}
    (hterms : a.terms = lgva.terms) (hvalid : lgva.validate B = .ok ())
    (hgte : a.originalVesting.IsAllGTE a.delegatedVesting) : a.validate B = .ok () := by
  cases a
  cases lgva
  obtain ⟨rfl, hterms⟩ := Prod.mk.inj hterms
  obtain ⟨rfl, rfl⟩ := Prod.mk.inj hterms
  obtain ⟨seen, hloop, hvalid⟩ := bind_eq_ok.mp hvalid
  obtain ⟨-, hbase⟩ := failIf_bind_eq_ok.mp hvalid
  exact bind_eq_ok.mpr ⟨seen, hloop, failIf_bind_eq_ok.mpr ⟨not_not.mpr hgte, hbase⟩⟩

/-- An address over a run from the balance `start`, at a block time: the account at it has the terms
of `lgva`, and every pot is covered. -/
def Holding.Sound {σ : Type} (K : BankKeeper σ) (a : AccAddress) (lgva : LazyGradedVestingAccount)
    (start : Coins) (blockTime : Int64) (h : Holding σ) : Prop :=
  ∃ acc vested, K.getAccount h.chain a = some acc ∧ acc.terms = lgva.terms
    ∧ lgva.getVestedCoins blockTime = .ok vested
    ∧ ∀ d, 0 ≤ vested.amountOf d ∧ vested.amountOf d ≤ lgva.originalVesting.amountOf d
      ∧ Pot.Covered (lgva.originalVesting.amountOf d)
        (lgva.originalVesting.amountOf d - vested.amountOf d) (start.amountOf d)
        (h.pot K a acc d)

section Run

variable {σ : Type} {K : BankKeeper σ} {a : AccAddress} {lgva : LazyGradedVestingAccount}
  {start : Coins} {blockTime blockTime' : Int64} {h h' : Holding σ}

/-- The vested and the vesting coins of an account with the same terms. -/
lemma getVestingCoins_of_terms {acc : LazyGradedVestingAccount} (hterms : acc.terms = lgva.terms)
    {vested : Coins} (hvested : lgva.getVestedCoins blockTime = .ok vested)
    (hle : ∀ d, vested.amountOf d ≤ lgva.originalVesting.amountOf d) :
    acc.getVestedCoins blockTime = .ok vested
      ∧ acc.getVestingCoins blockTime = .ok (lgva.originalVesting.safeSub vested) := by
  have horiginal : acc.originalVesting = lgva.originalVesting := congrArg (fun t => t.2.1) hterms
  have hvested' : acc.getVestedCoins blockTime = .ok vested := by
    rw [getVestedCoins_of_terms hterms, hvested]
  refine ⟨hvested', ?_⟩
  rw [← horiginal]
  exact getVestingCoins_eq_ok hvested' fun d => horiginal ▸ hle d

/-- The locked coins of a sound holding, denomination by denomination. -/
lemma Holding.Sound.lockedCoins (hs : h.Sound K a lgva start blockTime) :
    ∃ acc vested locked, K.getAccount h.chain a = some acc ∧ acc.terms = lgva.terms
      ∧ lgva.getVestedCoins blockTime = .ok vested
      ∧ acc.getVestedCoins blockTime = .ok vested ∧ acc.lockedCoins blockTime = .ok locked
      ∧ ∀ d, locked.amountOf d = max (lgva.originalVesting.amountOf d - vested.amountOf d
            - acc.delegatedVesting.amountOf d) 0
        ∧ locked.amountOf d ≤ (K.getAllBalances h.chain a).amountOf d
        ∧ Pot.Covered (lgva.originalVesting.amountOf d)
          (lgva.originalVesting.amountOf d - vested.amountOf d) (start.amountOf d)
          (h.pot K a acc d) := by
  obtain ⟨acc, vested, hacc, hterms, hvested, hpots⟩ := hs
  obtain ⟨hvested', hvesting⟩ :=
    getVestingCoins_of_terms hterms hvested fun d => (hpots d).2.1
  have hvesting0 : ∀ d, 0 ≤ (lgva.originalVesting.safeSub vested).amountOf d := fun d => by
    rw [CoinSet.amountOf_safeSub]
    exact sub_nonneg.mpr (hpots d).2.1
  obtain ⟨locked, hlocked⟩ := (lockedCoins_eq_ok_iff hvesting hvesting0).mpr fun d _ =>
    (hpots d).2.2.vesting_nonneg
  refine ⟨acc, vested, locked, hacc, hterms, hvested, hvested', hlocked, fun d => ?_⟩
  have hcovered := (hpots d).2.2
  have hamount := amountOf_lockedCoins hvesting hlocked (hvesting0 d) hcovered.vesting_nonneg
  rw [CoinSet.amountOf_safeSub] at hamount
  exact ⟨hamount, hamount ▸ hcovered.locked_le, hcovered⟩

/-- A call keeps a holding sound. -/
lemma Holding.Sound.call (hK : K.Lawful) (hs : h.Sound K a lgva start blockTime) {call : BankCall}
    (hcall : h.call K a (blockTime, call) = .ok h') : h'.Sound K a lgva start blockTime := by
  obtain ⟨acc, vested, hacc, hterms, hvested, hpots⟩ := hs
  obtain ⟨-, hvesting⟩ := getVestingCoins_of_terms hterms hvested fun d => (hpots d).2.1
  obtain ⟨acc', hacc', hterms', hsteps⟩ := Holding.pot_steps hK hcall hacc hvesting
    (fun d => by rw [CoinSet.amountOf_safeSub]; exact sub_nonneg.mpr (hpots d).2.1)
    (CoinSet.isValid_iff.mpr fun d => (hpots d).2.2.vesting_nonneg)
    (CoinSet.isValid_iff.mpr fun d => (hpots d).2.2.free_nonneg)
  refine ⟨acc', vested, hacc', hterms'.trans hterms, hvested, fun d => ?_⟩
  obtain ⟨h0, hle, hcovered⟩ := hpots d
  have hsteps' := hsteps d
  rw [CoinSet.amountOf_safeSub] at hsteps'
  exact ⟨h0, hle, hcovered.steps (by omega) hsteps'⟩

variable (hv : lgva.Valid)

include hv

/-- What has vested has vested later. -/
lemma amountOf_vested_le (htime : blockTime ≤ blockTime') {vested vested' : Coins}
    (hc : lgva.getVestedCoins blockTime = .ok vested)
    (hc' : lgva.getVestedCoins blockTime' = .ok vested') (d : Denom) :
    vested.amountOf d ≤ vested'.amountOf d := by
  obtain ⟨y, hy, hle⟩ := exists_vestedOf_le hv blockTime htime
    ((getVestedCoins_eq_ok_iff hv blockTime').mp hc' d)
  rwa [Except.ok.inj (((getVestedCoins_eq_ok_iff hv blockTime).mp hc d).symm.trans hy)]

variable (hwithin : lgva.VestsWithin)

include hwithin

/-- A sound holding is sound later: the pots are as they were, and no more is vesting. -/
lemma Holding.Sound.later (hs : h.Sound K a lgva start blockTime) (htime : blockTime ≤ blockTime') :
    h.Sound K a lgva start blockTime' := by
  obtain ⟨acc, vested, hacc, hterms, hvested, hpots⟩ := hs
  obtain ⟨vested', hvested', hbounds, -⟩ :=
    exists_getVestedCoins hv hwithin.1 hwithin.2 blockTime'
  refine ⟨acc, vested', hacc, hterms, hvested', fun d => ⟨(hbounds d).1, (hbounds d).2, ?_⟩⟩
  have hle := amountOf_vested_le hv htime hvested hvested' d
  exact (hpots d).2.2.mono (by omega)

/-- Every run keeps a holding sound. -/
lemma Holding.Sound.run (hK : K.Lawful) {calls : List (Int64 × BankCall)}
    (hs : h.Sound K a lgva start blockTime) (hfirst : ∀ c ∈ calls, blockTime ≤ c.1)
    (hsorted : calls.Pairwise fun c c' => c.1 ≤ c'.1) (htime : blockTime ≤ blockTime')
    (hlast : ∀ c ∈ calls, c.1 ≤ blockTime') :
    (h.run K a calls).Sound K a lgva start blockTime' := by
  induction calls generalizing h blockTime with
  | nil => exact hs.later hv hwithin htime
  | cons c calls ih =>
      rw [List.pairwise_cons] at hsorted
      have hnow := hs.later hv hwithin (hfirst c (by simp))
      have hafter : (keepOnError h (h.call K a c)).Sound K a lgva start c.1 := by
        cases hcall : h.call K a c with
        | ok h' => exact hnow.call hK hcall
        | error e => exact hnow
      exact ih hafter hsorted.1 hsorted.2 (hlast c (by simp))
        fun c' hc' => hlast c' (List.mem_cons_of_mem _ hc')

/-- A new account that starts with its original coins is sound at every time. -/
lemma Holding.sound_start {s : σ} (hacc : K.getAccount s a = some lgva)
    (hdv : lgva.delegatedVesting = ∅) (hdf : lgva.delegatedFree = ∅)
    (hstart : ∀ d, lgva.originalVesting.amountOf d ≤ (K.getAllBalances s a).amountOf d)
    (blockTime : Int64) :
    (Holding.start s).Sound K a lgva (K.getAllBalances s a) blockTime := by
  obtain ⟨vested, hvested, hbounds, -⟩ := exists_getVestedCoins hv hwithin.1 hwithin.2 blockTime
  refine ⟨lgva, vested, hacc, rfl, hvested, fun d => ⟨(hbounds d).1, (hbounds d).2, ?_⟩⟩
  have horiginal := CoinSet.isValid_iff.mp hwithin.1 d
  have hvested0 := (hbounds d).1
  have hle := hstart d
  constructor <;> simp [Holding.pot, Holding.start, hdv, hdf] <;> omega

end Run

section Main

variable {σ : Type} {K : BankKeeper σ} (hK : K.Lawful) {B : String → Option AccAddress}
  {baseAcc : BaseAccount} {originalVesting : Coins} {schedules : List VestingSchedule}
  (hvalid : (newLazyGradedVestingAccount baseAcc originalVesting schedules).validate B = .ok ())
  (hwithin : (newLazyGradedVestingAccount baseAcc originalVesting schedules).VestsWithin)
  {s : σ} {a : AccAddress}
  (hacc : K.getAccount s a = some (newLazyGradedVestingAccount baseAcc originalVesting schedules))
  (hbalance : ∀ d, originalVesting.amountOf d ≤ (K.getAllBalances s a).amountOf d)
  {calls : List (Int64 × BankCall)} (hsorted : calls.Pairwise fun c c' => c.1 ≤ c'.1)
  {blockTime : Int64} (hlast : ∀ c ∈ calls, c.1 ≤ blockTime)

include hK hvalid hwithin hacc hbalance hsorted hlast

lemma sound_of_run : ((Holding.start s).run K a calls).Sound K a
    (newLazyGradedVestingAccount baseAcc originalVesting schedules) (K.getAllBalances s a)
    blockTime := by
  have hv := LazyGradedVestingAccount.validate_eq_ok hvalid
  have hstart := Holding.sound_start hv hwithin hacc rfl rfl hbalance Int64.minValue
  exact hstart.run hv hwithin hK (fun c _ => Int64.minValue_le c.1) hsorted
    (Int64.minValue_le blockTime) hlast

/-- **Vesting coins are not spent.** A new account that is valid, whose original coins are within
what their ratios round to and whose balance has them, is after every run of calls of a lawful bank,
by anyone and at times that do not run backwards, still valid. What is locked of it is in its
balance, what has not vested is there or delegated as vesting, and what the address has spent,
together with its free delegations, is no more than what it received and what has vested, over what
it had besides the original coins. -/
theorem spent_le_vested :
    ∃ h acc vested locked, h = (Holding.start s).run K a calls
      ∧ K.getAccount h.chain a = some acc ∧ acc.validate B = .ok ()
      ∧ acc.getVestedCoins blockTime = .ok vested ∧ acc.lockedCoins blockTime = .ok locked
      ∧ ∀ d, locked.amountOf d ≤ (K.getAllBalances h.chain a).amountOf d
        ∧ originalVesting.amountOf d - vested.amountOf d
          ≤ (K.getAllBalances h.chain a).amountOf d + acc.delegatedVesting.amountOf d
        ∧ h.spent d + acc.delegatedFree.amountOf d
          ≤ ((K.getAllBalances s a).amountOf d - originalVesting.amountOf d) + h.received d
            + vested.amountOf d := by
  have hs := sound_of_run hK hvalid hwithin hacc hbalance hsorted hlast
  obtain ⟨acc, vested, locked, haccount, hterms, -, hvested, hlocked, hall⟩ := hs.lockedCoins
  refine ⟨_, acc, vested, locked, rfl, haccount, ?_, hvested, hlocked,
    fun d => ⟨(hall d).2.1, ?_⟩⟩
  · have horiginal : acc.originalVesting = originalVesting := congrArg (fun t => t.2.1) hterms
    refine validate_of_terms hterms hvalid ?_
    rw [horiginal]
    exact (CoinSet.isAllGTE_iff hwithin.1 (CoinSet.isValid_iff.mpr fun d =>
      (hall d).2.2.vesting_nonneg)).mpr fun d => (hall d).2.2.within
  · have hkept := (hall d).2.2.covered
    have hsum := (hall d).2.2.balanced
    simp only [Holding.pot, newLazyGradedVestingAccount] at hkept hsum
    exact ⟨hkept, by omega⟩

/-- **The locked coins fall.** After every such run, at any two later block times the locked coins are
defined; they are within the balance; no more is locked at the later time than at the earlier; and
where the amount times the sum of the ratios rounds to the amount, nothing is locked of it once its
schedules have ended. -/
theorem lockedCoins_fall {blockTime' : Int64} (htime : blockTime ≤ blockTime') :
    ∃ h acc locked locked', h = (Holding.start s).run K a calls
      ∧ K.getAccount h.chain a = some acc
      ∧ acc.lockedCoins blockTime = .ok locked ∧ acc.lockedCoins blockTime' = .ok locked'
      ∧ ∀ d, 0 ≤ locked'.amountOf d ∧ locked'.amountOf d ≤ locked.amountOf d
        ∧ locked.amountOf d ≤ (K.getAllBalances h.chain a).amountOf d
        ∧ ((∀ vs ∈ schedules, ∀ s ∈ vs.schedules, s.endTime ≤ blockTime') →
          (∀ vs ∈ schedules, vs.denom = d → SharesExactly vs.total (originalVesting.amountOf d)) →
          locked'.amountOf d = 0) := by
  have hv := LazyGradedVestingAccount.validate_eq_ok hvalid
  have hs := sound_of_run hK hvalid hwithin hacc hbalance hsorted hlast
  have hs' := hs.later hv hwithin htime
  obtain ⟨acc, vested, locked, haccount, hterms, hvested, -, hlocked, hall⟩ := hs.lockedCoins
  obtain ⟨acc', vested', locked', haccount', -, hvested', -, hlocked', hall'⟩ := hs'.lockedCoins
  obtain rfl := Option.some.inj (haccount.symm.trans haccount')
  refine ⟨_, acc, locked, locked', rfl, haccount, hlocked, hlocked', fun d => ?_⟩
  have hle := amountOf_vested_le hv htime hvested hvested' d
  have hamount := (hall d).1
  have hamount' := (hall' d).1
  refine ⟨by omega, by omega, (hall d).2.1, fun hend hexact => ?_⟩
  obtain ⟨-, hnone, hsome⟩ := vestedOf_of_ended hv hend hvested' d
  have hfull : vested'.amountOf d = originalVesting.amountOf d := by
    cases hvs : (newLazyGradedVestingAccount baseAcc originalVesting schedules).getVestingSchedule d
      with
    | none => exact hnone hvs
    | some vs =>
        have hdenom : vs.denom = d := by
          have hfound := List.find?_some hvs
          exact of_decide_eq_true hfound
        have h0 := CoinSet.isValid_iff.mp hwithin.1 d
        have htotal := (getVestingSchedule_valid hv hvs).total_ge
        rw [(hsome vs hvs).2]
        exact (halfEven_eq_iff decFormat.scale_pos (mul_nonneg h0 (by omega)) h0).mpr
          (hexact vs (List.mem_of_find?_eq_some hvs) hdenom)
  have hcovered := (hall' d).2.2.vesting_nonneg
  simp only [Holding.pot] at hcovered
  rw [hamount', hfull]
  simp only [newLazyGradedVestingAccount]
  omega

end Main

/-! ### A run -/

/-- The account at one address, and the balances. -/
abbrev Ledger := LazyGradedVestingAccount × (AccAddress → Coins)

namespace Ledger

/-- The balances after a transfer. -/
def moved (fromAddr toAddr : AccAddress) (amt : Coins) (balances : AccAddress → Coins)
    (a : AccAddress) : Coins :=
  let left := if fromAddr = a then (balances a).safeSub amt else balances a
  if toAddr = a then left.add amt else left

/-- The account after an undelegation. -/
def untracked (acc : LazyGradedVestingAccount) (amt : Coins) : LazyGradedVestingAccount :=
  let free := amt.pairMin acc.delegatedFree
  { acc with
    delegatedFree := acc.delegatedFree.safeSub free
    delegatedVesting := acc.delegatedVesting.safeSub
      ((amt.safeSub free).pairMin acc.delegatedVesting) }

/-- The coins are valid and within a balance without what is locked of it. -/
def covered (balance locked amt : Coins) : Outcome Unit :=
  failIf (¬ (amt.IsValid ∧ ∀ e ∈ amt.entries, e.2 ≤ balance.amountOf e.1 - locked.amountOf e.1))
    "insufficient funds"

/-- The locked coins of an address. -/
def locked (holder : AccAddress) (blockTime : Int64) (addr : AccAddress) (s : Ledger) :
    Outcome Coins :=
  if addr = holder then s.1.lockedCoins blockTime else pure ∅

/-- The account after a delegation. -/
def tracked (holder : AccAddress) (blockTime : Int64) (delegatorAddr : AccAddress) (amt : Coins)
    (s : Ledger) : Outcome LazyGradedVestingAccount :=
  if delegatorAddr = holder then s.1.trackDelegation blockTime (s.2 delegatorAddr) amt
  else pure s.1

/-- A bank with a vesting account at the address `holder`. -/
def bank (holder : AccAddress) : BankKeeper Ledger where
  getAccount s a := if a = holder then some s.1 else none
  getAllBalances s := s.2
  sendCoins blockTime fromAddr toAddr amt s := do
    let lockedCoins ← locked holder blockTime fromAddr s
    covered (s.2 fromAddr) lockedCoins amt
    pure (s.1, moved fromAddr toAddr amt s.2)
  delegateCoins blockTime delegatorAddr moduleAccAddr amt s := do
    covered (s.2 delegatorAddr) ∅ amt
    let acc ← tracked holder blockTime delegatorAddr amt s
    pure (acc, moved delegatorAddr moduleAccAddr amt s.2)
  undelegateCoins blockTime moduleAccAddr delegatorAddr amt s := do
    let lockedCoins ← locked holder blockTime moduleAccAddr s
    covered (s.2 moduleAccAddr) lockedCoins amt
    pure (if delegatorAddr = holder then untracked s.1 amt else s.1,
      moved moduleAccAddr delegatorAddr amt s.2)

lemma getAccount_eq_some_iff {holder a : AccAddress} {s : Ledger} {acc : LazyGradedVestingAccount} :
    (bank holder).getAccount s a = some acc ↔ a = holder ∧ s.1 = acc := by
  simp [bank]

lemma covered_eq_ok {balance lockedCoins amt : Coins} (h : covered balance lockedCoins amt = .ok ()) :
    amt.IsValid ∧ ∀ d, amt.amountOf d ≠ 0 →
      amt.amountOf d ≤ balance.amountOf d - lockedCoins.amountOf d := by
  obtain ⟨hvalid, hall⟩ := not_not.mp (failIf_eq_ok.mp h)
  exact ⟨hvalid, fun d hd => hall (d, amt.amountOf d) (Amounts.mem_entries_iff.mpr ⟨rfl, hd⟩)⟩

lemma amountOf_moved (fromAddr toAddr : AccAddress) (amt : Coins) (balances : AccAddress → Coins)
    (a : AccAddress) (d : Denom) : (moved fromAddr toAddr amt balances a).amountOf d
      = (balances a).amountOf d - amountAt a fromAddr amt d + amountAt a toAddr amt d := by
  rw [moved, amountAt, amountAt]
  split_ifs <;> simp

lemma untracked_spec {acc : LazyGradedVestingAccount} {amt : Coins} (hamt : amt.IsValid)
    (hv : acc.delegatedVesting.IsValid) (hf : acc.delegatedFree.IsValid) :
    Untracked amt acc (untracked acc amt) := by
  have hamt0 := CoinSet.isValid_iff.mp hamt
  have hv0 := CoinSet.isValid_iff.mp hv
  have hf0 := CoinSet.isValid_iff.mp hf
  have hfree : ∀ d, (amt.pairMin acc.delegatedFree).amountOf d
      = min (acc.delegatedFree.amountOf d) (amt.amountOf d) := fun d => by
    have h1 := hamt0 d
    have h2 := hf0 d
    rw [CoinSet.amountOf_pairMin]
    split_ifs <;> omega
  refine ⟨rfl, fun d => ?_, fun d => ?_⟩
  · rw [untracked, CoinSet.amountOf_safeSub, hfree]
  · have h1 := hamt0 d
    have h2 := hv0 d
    have h3 := hf0 d
    rw [untracked, CoinSet.amountOf_safeSub, CoinSet.amountOf_pairMin, CoinSet.amountOf_safeSub,
      hfree]
    split_ifs <;> omega

lemma unlocked_of_covered {holder addr : AccAddress} {blockTime : Int64} {s : Ledger}
    {lockedCoins amt : Coins} (hlocked : locked holder blockTime addr s = .ok lockedCoins)
    (h : covered (s.2 addr) lockedCoins amt = .ok ()) :
    (bank holder).Unlocked blockTime addr amt s := by
  intro acc hacc
  obtain ⟨rfl, rfl⟩ := getAccount_eq_some_iff.mp hacc
  rw [locked, if_pos rfl] at hlocked
  exact ⟨lockedCoins, hlocked, (covered_eq_ok h).2⟩

lemma lawful_bank (holder : AccAddress) : (bank holder).Lawful where
  sendCoins := by
    intro blockTime fromAddr toAddr amt s s' hrun
    obtain ⟨lockedCoins, hlocked, hrun⟩ := bind_eq_ok.mp hrun
    obtain ⟨_, hcovered, hrun⟩ := bind_eq_ok.mp hrun
    obtain rfl := Except.ok.inj hrun
    exact ⟨⟨(covered_eq_ok hcovered).1, amountOf_moved fromAddr toAddr amt s.2⟩,
      unlocked_of_covered hlocked hcovered, fun a => rfl⟩
  delegateCoins := by
    intro blockTime delegatorAddr moduleAccAddr amt s s' hrun
    obtain ⟨_, hcovered, hrun⟩ := bind_eq_ok.mp hrun
    obtain ⟨acc', htrack, hrun⟩ := bind_eq_ok.mp hrun
    obtain rfl := Except.ok.inj hrun
    obtain ⟨hvalid, hle⟩ := covered_eq_ok hcovered
    refine ⟨⟨hvalid, amountOf_moved delegatorAddr moduleAccAddr amt s.2⟩,
      fun d hd => by simpa [bank] using hle d hd, fun a ha => ?_, fun acc hacc => ?_⟩
    · by_cases hholder : a = holder
      · rw [tracked, if_neg fun h => ha (hholder.trans h.symm)] at htrack
        simp [bank, Except.ok.inj htrack]
      · simp [bank, hholder]
    · obtain ⟨rfl, rfl⟩ := getAccount_eq_some_iff.mp hacc
      rw [tracked, if_pos rfl] at htrack
      exact ⟨acc', _, htrack, if_pos rfl⟩
  undelegateCoins := by
    intro blockTime moduleAccAddr delegatorAddr amt s s' hrun
    obtain ⟨lockedCoins, hlocked, hrun⟩ := bind_eq_ok.mp hrun
    obtain ⟨_, hcovered, hrun⟩ := bind_eq_ok.mp hrun
    obtain rfl := Except.ok.inj hrun
    obtain ⟨hvalid, -⟩ := covered_eq_ok hcovered
    refine ⟨⟨hvalid, amountOf_moved moduleAccAddr delegatorAddr amt s.2⟩,
      unlocked_of_covered hlocked hcovered, fun a ha => ?_, fun acc hacc hv hf => ?_⟩
    · by_cases hholder : a = holder
      · have hne : delegatorAddr ≠ holder := fun h => ha (hholder.trans h.symm)
        simp [bank, hne]
      · simp [bank, hholder]
    · obtain ⟨rfl, rfl⟩ := getAccount_eq_some_iff.mp hacc
      exact ⟨untracked s.1 amt, untracked_spec hvalid hv hf, by simp [bank]⟩

end Ledger

/-- Two schedules of a half each, the second within the first. -/
def halves : List VestingSchedule :=
  [⟨"uluna", [⟨0, 300, newDecWithPrec 5 1⟩, ⟨100, 200, newDecWithPrec 5 1⟩]⟩]

/-- The original coins. -/
def grant : Coins := CoinSet.ofList [("uluna", 1001)]

lemma validate_halves :
    ((newLazyGradedVestingAccount ⟨"", none⟩ grant halves).validate fun _ => none) = .ok () := by
  obtain ⟨_, hok, -⟩ := exists_of_returns (p := fun _ : Unit => true)
    (x := (newLazyGradedVestingAccount ⟨"", none⟩ grant halves).validate fun _ => none)
    (by decide +kernel)
  exact hok

lemma vestsWithin_halves : (newLazyGradedVestingAccount ⟨"", none⟩ grant halves).VestsWithin := by
  refine ⟨by decide +kernel, fun d vs hvs => ?_⟩
  obtain rfl := List.mem_singleton.mp (List.mem_of_find?_eq_some hvs)
  have hd := List.find?_some hvs
  obtain rfl := of_decide_eq_true hd
  decide +kernel

/-- The account at the address `holder` has the original coins, and a friend has fifty. -/
def grantLedger : Ledger :=
  (newLazyGradedVestingAccount ⟨"", none⟩ grant halves,
    fun a => if a = "holder" then grant
      else if a = "friend" then CoinSet.ofList [("uluna", 50)] else ∅)

/-- The account delegates locked coins, then spends what has vested and what it gets. -/
def spendAll : List (Int64 × BankCall) :=
  [(101, .delegateCoins "holder" "bonded" (CoinSet.ofList [("uluna", 600)])),
    (150, .sendCoins "holder" "shop" (CoinSet.ofList [("uluna", 300)])),
    (150, .undelegateCoins "bonded" "holder" (CoinSet.ofList [("uluna", 600)])),
    (150, .sendCoins "friend" "holder" (CoinSet.ofList [("uluna", 50)])),
    (150, .sendCoins "holder" "shop" (CoinSet.ofList [("uluna", 250)]))]

lemma spendAll_sorted : spendAll.Pairwise fun c c' => c.1 ≤ c'.1 := by decide

lemma spendAll_until : ∀ c ∈ spendAll, c.1 ≤ 150 := by decide

/-- The ledger after this run. -/
def spentAll : Holding Ledger :=
  (Holding.start grantLedger).run (Ledger.bank "holder") "holder" spendAll

/-- At the end what has vested and been received is spent. -/
theorem spent_halves :
    ∃ acc vested, (Ledger.bank "holder").getAccount spentAll.chain "holder" = some acc
      ∧ acc.getVestedCoins 150 = .ok vested ∧ spentAll.spent "uluna" = 550
      ∧ spentAll.received "uluna" = 50 ∧ 500 ≤ vested.amountOf "uluna" := by
  obtain ⟨h, acc, vested, locked, hh, hacc, -, hvested, -, hall⟩ := spent_le_vested
    (Ledger.lawful_bank "holder") validate_halves vestsWithin_halves (s := grantLedger)
    (a := "holder") rfl (fun _ => le_rfl) spendAll_sorted spendAll_until
  rw [show h = spentAll from hh] at hacc hall
  have hspent : spentAll.spent "uluna" = 550 := by decide +kernel
  have hreceived : spentAll.received "uluna" = 50 := by decide +kernel
  have hfree : 0 ≤ acc.delegatedFree.amountOf "uluna" := by
    rw [← Option.some.inj hacc]
    decide +kernel
  have hle := (hall "uluna").2.2
  have hstart : (((Ledger.bank "holder").getAllBalances grantLedger "holder").amountOf "uluna" : ℤ)
      = grant.amountOf "uluna" := rfl
  exact ⟨acc, vested, hacc, hvested, hspent, hreceived, by omega⟩

/-- What is still locked then is unlocked when the schedules have ended. -/
theorem lockedCoins_halves :
    ∃ acc locked locked', (Ledger.bank "holder").getAccount spentAll.chain "holder" = some acc
      ∧ acc.lockedCoins 150 = .ok locked ∧ acc.lockedCoins 300 = .ok locked'
      ∧ locked'.amountOf "uluna" = 0 ∧ locked.amountOf "uluna"
        ≤ ((Ledger.bank "holder").getAllBalances spentAll.chain "holder").amountOf "uluna" := by
  obtain ⟨h, acc, locked, locked', hh, hacc, hlocked, hlocked', hall⟩ := lockedCoins_fall
    (Ledger.lawful_bank "holder") validate_halves vestsWithin_halves (s := grantLedger)
    (a := "holder") rfl (fun _ => le_rfl) spendAll_sorted spendAll_until
    (show (150 : Int64) ≤ 300 by decide)
  rw [show h = spentAll from hh] at hacc hall
  obtain ⟨-, -, hle, hend⟩ := hall "uluna"
  exact ⟨acc, locked, locked', hacc, hlocked, hlocked', hend (by decide +kernel) (by decide +kernel),
    hle⟩

end ColumbusCore.Vesting
