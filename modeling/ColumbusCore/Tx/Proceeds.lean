import Mathlib.Data.List.DropRight
import ColumbusCore.Tx.Charges
import ColumbusCore.Treasury.EndBlocker
import ColumbusCore.Market.Ledger

/-!
The tax proceeds of an epoch (`RecordEpochTaxProceeds` and `UpdateIndicators` of `x/treasury`).

The record is written by the post handler and by the servers of the taxed messages, and reset at the
end of an epoch. What they move is read off the bank: the keepers are run with a journal of what
accounts send to the fee collector.

* `journaled`: the keepers with a journal;
* `Recorded`: the record grows by what the journal shows, and `handle_recorded`,
  `collectTax_recorded`, that this is so for the two writers;
* `Step`, `Run`: transactions, messages that a block executes itself, and ends of blocks;
* `Run.proceeds`: the record of a state, from the events since the last end of an epoch;
* `epochTaxProceeds_of_run`: **what the end of an epoch reads, and that it leaves nothing**.
-/

namespace ColumbusCore.Tx

open Go
open Tax (Chain Keepers Context TaxedMsg isReverseCharge)
open Ante (Msg)

variable {β : Type}

/-! ### The journal -/

/-- The state behind the keepers, and what accounts sent to the fee collector, in order. -/
structure Journaled (β : Type) where
  state : β
  journal : List (AccAddress × Coins)

/-- A call that is not entered into the journal. -/
def Journaled.lift (s : Journaled β) (call : β → Outcome β) : Outcome (Journaled β) := do
  let state ← call s.state
  pure { s with state := state }

/-- The keepers with a journal. -/
def journaled (K : Keepers β) : Keepers (Journaled β) where
  accAddressFromBech32 := K.accAddressFromBech32
  accString := K.accString
  getModuleAddress := K.getModuleAddress
  hasAccount s := K.hasAccount s.state
  getBalance s := K.getBalance s.state
  sendCoinsFromAccountToModule s payer m coins := do
    let state ← K.sendCoinsFromAccountToModule s.state payer m coins
    pure ⟨state, if m = Tax.feeCollectorName then s.journal ++ [(payer, coins)] else s.journal⟩
  sendCoinsFromModuleToAccount s m a coins :=
    s.lift fun state => K.sendCoinsFromModuleToAccount state m a coins
  sendCoinsFromModuleToModule s m m' coins :=
    s.lift fun state => K.sendCoinsFromModuleToModule state m m' coins
  mintCoins s m coins := s.lift fun state => K.mintCoins state m coins
  getCommunityTax s := K.getCommunityTax s.state
  communityPool s := K.communityPool s.state
  setCommunityPool s pool := { s with state := K.setCommunityPool s.state pool }
  useGrantedFees := K.useGrantedFees.map fun useGrantedFees s granter grantee fee =>
    s.lift fun state => useGrantedFees state granter grantee fee
  bankSend ctx s msg := s.lift fun state => K.bankSend ctx state msg
  bankMultiSend ctx s msg := s.lift fun state => K.bankMultiSend ctx state msg
  marketSwapSend ctx s msg := do
    let (state, response) ← K.marketSwapSend ctx s.state msg
    pure ({ s with state := state }, response)

/-- The amount of the transfers in a denom. -/
def total (transfers : List (AccAddress × Coins)) (d : Denom) : ℤ :=
  (transfers.map fun e => e.2.amountOf d).sum

@[simp] lemma total_nil (d : Denom) : total [] d = 0 := rfl

@[simp] lemma total_append (l l' : List (AccAddress × Coins)) (d : Denom) :
    total (l ++ l') d = total l d + total l' d := by
  simp [total]

/-- What the journal shows between two states. -/
def movedBetween (c c' : Chain (Journaled β)) : List (AccAddress × Coins) :=
  c'.rest.journal.drop c.rest.journal.length

/-- The record of the treasury grows by what the journal shows. -/
def Recorded (c c' : Chain (Journaled β)) : Prop :=
  ∃ moved, c'.rest.journal = c.rest.journal ++ moved
    ∧ ∀ d, c'.treasury.epochTaxProceeds.amountOf d
      = c.treasury.epochTaxProceeds.amountOf d + total moved d

section Recorded

variable {K : Keepers β} {ctx : Context} {c c' c'' : Chain (Journaled β)}

lemma Recorded.of_eq (hjournal : c'.rest.journal = c.rest.journal)
    (htreasury : c'.treasury = c.treasury) : Recorded c c' :=
  ⟨[], by simpa using hjournal, fun d => by rw [htreasury, total_nil, add_zero]⟩

lemma Recorded.trans (h : Recorded c c') (h' : Recorded c' c'') : Recorded c c'' := by
  obtain ⟨moved, hjournal, hsum⟩ := h
  obtain ⟨moved', hjournal', hsum'⟩ := h'
  refine ⟨moved ++ moved', by rw [hjournal', hjournal, List.append_assoc], fun d => ?_⟩
  rw [hsum', hsum, total_append, add_assoc]

lemma Recorded.amountOf (h : Recorded c c') (d : Denom) :
    c'.treasury.epochTaxProceeds.amountOf d
      = c.treasury.epochTaxProceeds.amountOf d + total (movedBetween c c') d := by
  obtain ⟨moved, hjournal, hsum⟩ := h
  rw [hsum, movedBetween, hjournal, List.drop_left]

/-! ### The two writers -/

lemma sendShare_journal {s s' : Journaled β} {m : String} {coins : Coins}
    (h : Tax.sendShare (journaled K) s m coins = .ok s') : s'.journal = s.journal := by
  rw [Tax.sendShare] at h
  split_ifs at h
  · rw [← Except.ok.inj h]
  · obtain ⟨state, -, h⟩ := bind_eq_ok.mp h
    rw [← Except.ok.inj h]

lemma fundCommunityPool_journal {s s' : Journaled β} {coins : Coins}
    (h : Tax.fundCommunityPool (journaled K) s coins = .ok s') : s'.journal = s.journal := by
  rw [Tax.fundCommunityPool] at h
  split_ifs at h
  · rw [← Except.ok.inj h]
  · obtain ⟨s₁, hsend, h⟩ := bind_eq_ok.mp h
    obtain ⟨pool, -, h⟩ := bind_eq_ok.mp h
    obtain ⟨state, -, hsend⟩ := bind_eq_ok.mp hsend
    rw [← Except.ok.inj h, ← Except.ok.inj hsend]
    rfl

/-- The split of a tax moves what is in the fee collector. -/
lemma processTaxSplits_journal {taxes : Coins}
    (h : Tax.processTaxSplits (journaled K) c taxes = .ok c') :
    c'.rest.journal = c.rest.journal ∧ c'.treasury = c.treasury := by
  obtain ⟨split, -, h⟩ := bind_eq_ok.mp h
  obtain ⟨s₁, hcommunity, h⟩ := bind_eq_ok.mp h
  obtain ⟨s₂, horacle, h⟩ := bind_eq_ok.mp h
  obtain ⟨s₃, hburn, h⟩ := bind_eq_ok.mp h
  obtain rfl := Except.ok.inj h
  exact ⟨(sendShare_journal hburn).trans
    ((sendShare_journal horacle).trans (fundCommunityPool_journal hcommunity)), rfl⟩

/-- **A tax that is collected** is moved once and recorded once. -/
theorem collectTax_recorded {payer : AccAddress} {taxes : Coins}
    (h : Tax.collectTax (journaled K) c payer taxes = .ok c') : Recorded c c' := by
  obtain ⟨s, hsend, h⟩ := bind_eq_ok.mp h
  obtain ⟨c₁, hsplit, h⟩ := bind_eq_ok.mp h
  obtain ⟨state, -, hsend⟩ := bind_eq_ok.mp hsend
  have hsent : s.journal = c.rest.journal ++ [(payer, taxes)] := by
    simp [← Except.ok.inj hsend]
  obtain ⟨hjournal, htreasury⟩ := processTaxSplits_journal hsplit
  rw [← Except.ok.inj h]
  refine ⟨[(payer, taxes)], hjournal.trans hsent, fun d => ?_⟩
  rw [Treasury.Store.amountOf_recordEpochTaxProceeds, htreasury]
  simp [total]

lemma chargeSender_recorded {charge : Tax.InOut × Coins}
    (h : chargeSender (journaled K) c charge = .ok c') : Recorded c c' := by
  obtain ⟨addr, -, h⟩ := bind_eq_ok.mp h
  rw [Tax.chargeTax] at h
  by_cases hcond : ¬ charge.2.IsZero ∧ ¬ false = true
  · rw [if_pos hcond] at h
    exact collectTax_recorded h
  · rw [if_neg hcond] at h
    obtain rfl := Except.ok.inj h
    exact .of_eq rfl rfl

/-- The wrapped server records no tax. -/
lemma pass_treasury {K : Keepers β} {c c' : Chain β} {msg : TaxedMsg}
    (h : pass K ctx c msg = .ok c') : c'.treasury = c.treasury := by
  cases msg with
  | send msg =>
      obtain ⟨s, -, h⟩ := bind_eq_ok.mp h
      rw [← Except.ok.inj h]
  | multiSend msg =>
      obtain ⟨s, -, h⟩ := bind_eq_ok.mp h
      rw [← Except.ok.inj h]
  | swapSend msg =>
      obtain ⟨r, hr, rfl⟩ := map_eq_ok_iff.mp h
      obtain ⟨⟨s, response⟩, -, hr⟩ := bind_eq_ok.mp hr
      rw [← Except.ok.inj hr]

lemma pass_recorded {msg : TaxedMsg} (h : pass (journaled K) ctx c msg = .ok c') :
    Recorded c c' := by
  refine .of_eq ?_ (pass_treasury h)
  cases msg with
  | send msg =>
      obtain ⟨s, hs, h⟩ := bind_eq_ok.mp h
      obtain ⟨state, -, hs⟩ := bind_eq_ok.mp hs
      rw [← Except.ok.inj h, ← Except.ok.inj hs]
  | multiSend msg =>
      obtain ⟨s, hs, h⟩ := bind_eq_ok.mp h
      obtain ⟨state, -, hs⟩ := bind_eq_ok.mp hs
      rw [← Except.ok.inj h, ← Except.ok.inj hs]
  | swapSend msg =>
      obtain ⟨r, hr, rfl⟩ := map_eq_ok_iff.mp h
      obtain ⟨⟨s, response⟩, hs, hr⟩ := bind_eq_ok.mp hr
      obtain ⟨state, -, hs⟩ := bind_eq_ok.mp hs
      rw [← Except.ok.inj hr, ← (Prod.mk.inj (Except.ok.inj hs)).1]

lemma exists_isReverseCharge {K : Keepers β} {c c' : Chain β} {msg : TaxedMsg}
    (h : msg.handle K ctx c = .ok c') : ∃ reverse, isReverseCharge ctx = .ok reverse := by
  cases msg with
  | send msg =>
      obtain ⟨reverse, hrev, -⟩ := bind_eq_ok.mp h
      exact ⟨reverse, hrev⟩
  | multiSend msg =>
      obtain ⟨reverse, hrev, -⟩ := bind_eq_ok.mp h
      exact ⟨reverse, hrev⟩
  | swapSend msg =>
      obtain ⟨r, hr, -⟩ := map_eq_ok_iff.mp h
      obtain ⟨reverse, hrev, -⟩ := bind_eq_ok.mp hr
      exact ⟨reverse, hrev⟩

/-- **The server of a taxed message** records what it moves: the taxes of the senders, which the
outputs of a multi-send do not pay again. -/
theorem handle_recorded {msg : TaxedMsg} (h : msg.handle (journaled K) ctx c = .ok c') :
    Recorded c c' := by
  obtain ⟨reverse, hrev⟩ := exists_isReverseCharge h
  cases reverse with
  | false => exact pass_recorded (handle_of_not_reverse hrev h)
  | true =>
      cases hex : exempt c.exemption msg with
      | true => exact pass_recorded (handle_of_exempt hrev hex h)
      | false =>
          obtain ⟨taxes, -, msg', charged, hcharged, hpass⟩ := handle_of_taxed hrev hex h
          have hsenders : Recorded c charged := foldlM_invariant (Recorded c) hcharged
            (.of_eq rfl rfl) fun _ _ _ _ hc hround => hc.trans (chargeSender_recorded hround)
          exact hsenders.trans (pass_recorded hpass)

/-- **The post handler** records what it moves. -/
theorem postHandle_recorded (h : postHandle (journaled K) ctx c = .ok c') : Recorded c c' := by
  rcases postHandle_eq_ok h with ⟨-, rfl⟩ | ⟨text, payer, -, -, hcollect⟩
  · exact .of_eq rfl rfl
  · exact collectTax_recorded hcollect

end Recorded

/-! ### Transactions -/

section Transactions

variable {K : Keepers β}

/-- The state changes that are not modelled leave the record as it is: between the visits only. -/
def RecordKept (c : Chain (Journaled β)) :
    List (Visit (journaled K)) → Chain (Journaled β) → Prop
  | [], c' => c'.treasury.epochTaxProceeds = c.treasury.epochTaxProceeds
  | v :: visits, c' => v.before.treasury.epochTaxProceeds = c.treasury.epochTaxProceeds
      ∧ RecordKept v.after visits c'

/-- What the server of a message moved to the fee collector. -/
def Visit.moved (v : Visit (journaled K)) : List (AccAddress × Coins) :=
  movedBetween v.before v.after

/-- What the servers of the messages moved to the fee collector, and then the post handler. -/
def Transaction.moved (t : Transaction (journaled K)) : List (AccAddress × Coins) :=
  t.visits.flatMap Visit.moved ++ movedBetween t.ran t.final

/-- The messages record what their servers move. -/
lemma RecordKept.amountOf {visits : List (Visit (journaled K))} {c c' : Chain (Journaled β)}
    (h : RecordKept c visits c') (d : Denom) :
    c'.treasury.epochTaxProceeds.amountOf d
      = c.treasury.epochTaxProceeds.amountOf d + total (visits.flatMap Visit.moved) d := by
  induction visits generalizing c with
  | nil =>
      rw [show c'.treasury.epochTaxProceeds = c.treasury.epochTaxProceeds from h, List.flatMap_nil,
        total_nil, add_zero]
  | cons v visits ih =>
      obtain ⟨hbefore, hrest⟩ := h
      rw [ih hrest, (handle_recorded v.ran).amountOf, hbefore, List.flatMap_cons, total_append,
        Visit.moved, add_assoc]

/-- The fee decorator leaves the treasury as it is. -/
lemma anteHandle_treasury {K : Keepers β} {ctx ctx' : Context} {c c' : Chain β} {tx : Ante.FeeTx}
    (h : Ante.anteHandle K ctx c tx false = .ok (ctx', c')) : c'.treasury = c.treasury := by
  obtain ⟨taxes, nonTaxable, priority, check, ctx₁, -, -, hdeduct, -⟩ := Ante.anteHandle_eq_ok h
  obtain ⟨payer, s, s', -, -, rfl⟩ := Ante.checkDeductFee_eq_ok hdeduct
  rfl

/-- **A transaction** records what is moved by the servers of its messages and by the post handler. -/
theorem Transaction.proceeds (t : Transaction (journaled K))
    (h : RecordKept { t.anteChain with rest := t.start } t.visits t.ran) (d : Denom) :
    t.final.treasury.epochTaxProceeds.amountOf d
      = t.chain.treasury.epochTaxProceeds.amountOf d + total t.moved d := by
  rw [(postHandle_recorded t.post).amountOf, h.amountOf, anteHandle_treasury t.ante,
    Transaction.moved, total_append, add_assoc]

end Transactions

/-! ### Runs -/

/-- The state of the chain: that of the tax modules, and that of the treasury over the rest. -/
structure World (β : Type) where
  params : Tax.Params
  exemption : Tax.ExemptionStore
  treasury : Treasury.State β

/-- What the transactions see. -/
def World.chain (w : World β) : Chain β := ⟨w.params, w.treasury.store, w.exemption, w.treasury.ext⟩

/-- What happens to the chain. -/
inductive Event (K : Keepers β) where
  /-- A transaction that succeeded. -/
  | tx (t : Transaction (journaled K))
  /-- Messages that a block executes itself, as those of a proposal that passed. -/
  | msgs (visits : List (Visit (journaled K)))
  /-- The end of a block in the treasury. -/
  | endBlock (height : ℕ)
  /-- A transaction that failed, or the work of another module. -/
  | other

section Runs

variable {K : Keepers β} {KT : Treasury.Keepers (Journaled β)}

/-- The taxes moved to the fee collector. -/
def Event.moved : Event K → List (AccAddress × Coins)
  | .tx t => t.moved
  | .msgs visits => visits.flatMap Visit.moved
  | .endBlock _ | .other => []

/-- The end of an epoch. -/
def Event.endsEpoch : Event K → Bool
  | .endBlock height => Oracle.IsPeriodLast height Treasury.blocksPerWeek
  | _ => false

/-- The events since the last end of an epoch. -/
def sinceEpochEnd (events : List (Event K)) : List (Event K) :=
  events.rtakeWhile fun e => !e.endsEpoch

lemma sinceEpochEnd_concat (events : List (Event K)) (e : Event K) :
    sinceEpochEnd (events ++ [e]) = if e.endsEpoch then [] else sinceEpochEnd events ++ [e] := by
  rw [sinceEpochEnd, List.rtakeWhile_concat]
  cases e.endsEpoch <;> rfl

variable (K KT) in
/-- One event. Only the servers of the taxed messages, the post handler and the end of an epoch
write the record. -/
inductive Step : World (Journaled β) → Event K → World (Journaled β) → Prop where
  | tx {w w'} (t : Transaction (journaled K)) : w.chain = t.chain → w'.chain = t.final →
      RecordKept { t.anteChain with rest := t.start } t.visits t.ran → Step w (.tx t) w'
  | msgs {w w' b ctx msgs visits} : Runs (journaled K) b ctx w.chain msgs visits w'.chain →
      RecordKept w.chain visits w'.chain → Step w (.msgs visits) w'
  | endBlock {w height treasury} : Treasury.endBlocker KT height w.treasury = .ok treasury →
      Step w (.endBlock height) { w with treasury := treasury }
  | other {w w' : World (Journaled β)} :
      w'.treasury.store.epochTaxProceeds = w.treasury.store.epochTaxProceeds → Step w .other w'

variable (K KT) in
/-- A sequence of events. -/
inductive Run (w₀ : World (Journaled β)) : List (Event K) → World (Journaled β) → Prop where
  | start : Run w₀ [] w₀
  | step {events w e w'} : Run w₀ events w → Step K KT w e w' → Run w₀ (events ++ [e]) w'

/-! ### The end of an epoch -/

/-- A block that closes an epoch hands the record it finds to `UpdateIndicators`, and leaves none. -/
lemma endBlocker_proceeds {height : ℕ} {st st' : Treasury.State (Journaled β)}
    (hlast : Oracle.IsPeriodLast height Treasury.blocksPerWeek)
    (h : Treasury.endBlocker KT height st = .ok st') :
    ∃ burnt mid, Treasury.burnCoinsFromBurnAccount KT st = .ok burnt
      ∧ Treasury.updateIndicators KT height burnt = .ok mid
      ∧ burnt.store.epochTaxProceeds = st.store.epochTaxProceeds
      ∧ mid.store.epochTaxProceeds = ∅ ∧ st'.store.epochTaxProceeds = ∅ := by
  rw [Treasury.endBlocker_of_last hlast] at h
  obtain ⟨burnt, hburn, hclose⟩ := bind_eq_ok.mp h
  obtain ⟨mid, hmid, hclose⟩ := bind_eq_ok.mp hclose
  obtain ⟨final, hfinal, hissuance⟩ := bind_eq_ok.mp hclose
  rw [← Except.ok.inj hissuance]
  obtain ⟨ext, rfl⟩ := Treasury.burnCoinsFromBurnAccount_eq_ok hburn
  obtain ⟨tr, sr, -, -, rfl⟩ := Treasury.updateIndicators_eq_ok hmid
  refine ⟨_, _, hburn, hmid, rfl, rfl, ?_⟩
  rw [Treasury.updatePolicies] at hfinal
  split_ifs at hfinal
  · rw [← Except.ok.inj hfinal]
    rfl
  · obtain ⟨st₁, htax, hfinal⟩ := bind_eq_ok.mp hfinal
    obtain ⟨st₂, hreward, hfinal⟩ := bind_eq_ok.mp hfinal
    obtain ⟨_, _, -, rfl⟩ := Treasury.updateTaxPolicy_eq_ok htax
    obtain ⟨_, _, -, rfl⟩ := Treasury.updateRewardPolicy_eq_ok hreward
    obtain ⟨taxCaps, rfl⟩ := Treasury.updateTaxCap_eq_ok hfinal
    rfl

/-- **One event**: the end of an epoch empties the record, and another event adds what it moved. -/
theorem Step.proceeds {w w' : World (Journaled β)} {e : Event K} (h : Step K KT w e w')
    (d : Denom) : w'.treasury.store.epochTaxProceeds.amountOf d
      = if e.endsEpoch then 0
        else w.treasury.store.epochTaxProceeds.amountOf d + total e.moved d := by
  cases h with
  | tx t hbefore hafter hkept =>
      have hsum := t.proceeds hkept d
      rw [← hbefore, ← hafter] at hsum
      exact hsum
  | msgs _ hkept => exact hkept.amountOf d
  | @endBlock height treasury hend =>
      rw [Event.endsEpoch, Event.moved, total_nil, add_zero]
      by_cases hlast : Oracle.IsPeriodLast height Treasury.blocksPerWeek
      · obtain ⟨_, _, -, -, -, -, hempty⟩ := endBlocker_proceeds hlast hend
        simp [hlast, hempty]
      · rw [Treasury.endBlocker_of_not_last hlast] at hend
        obtain ⟨ext, rfl⟩ := Treasury.burnCoinsFromBurnAccount_eq_ok hend
        simp [hlast]
  | other hkept =>
      rw [hkept, Event.moved, total_nil, add_zero]
      rfl

/-- **The record** is what was moved since the last end of an epoch; before the first one, on top of
what the chain started with. -/
theorem Run.proceeds {w₀ w : World (Journaled β)} {events : List (Event K)}
    (h : Run K KT w₀ events w) (d : Denom) : w.treasury.store.epochTaxProceeds.amountOf d
      = (if events.any Event.endsEpoch then 0 else w₀.treasury.store.epochTaxProceeds.amountOf d)
        + total ((sinceEpochEnd events).flatMap Event.moved) d := by
  induction h with
  | start => simp [sinceEpochEnd]
  | @step events w e w' hrun hstep ih =>
      rw [hstep.proceeds, ih, sinceEpochEnd_concat]
      cases hends : e.endsEpoch with
      | true => simp [hends]
      | false => simp [hends, add_assoc]

/-- **The tax proceeds of an epoch.** Along every run of transactions and blocks, the record that
`UpdateIndicators` reads at the end of an epoch is, in every denom, the sum of the taxes that the post
handler and the deductions under reverse charge moved to the fee collector since the last end of an
epoch, each of them once; and the record is empty right after it. -/
theorem epochTaxProceeds_of_run {w₀ w : World (Journaled β)} {events : List (Event K)}
    (hrun : Run K KT w₀ events w) {height : ℕ} {treasury : Treasury.State (Journaled β)}
    (hlast : Oracle.IsPeriodLast height Treasury.blocksPerWeek)
    (hend : Treasury.endBlocker KT height w.treasury = .ok treasury) :
    ∃ burnt mid, Treasury.burnCoinsFromBurnAccount KT w.treasury = .ok burnt
      ∧ Treasury.updateIndicators KT height burnt = .ok mid
      ∧ (∀ d, burnt.store.epochTaxProceeds.amountOf d
        = (if events.any Event.endsEpoch then 0
            else w₀.treasury.store.epochTaxProceeds.amountOf d)
          + total ((sinceEpochEnd events).flatMap Event.moved) d)
      ∧ mid.store.epochTaxProceeds = ∅ ∧ treasury.store.epochTaxProceeds = ∅ := by
  obtain ⟨burnt, mid, hburn, hmid, hread, hempty, hfinal⟩ := endBlocker_proceeds hlast hend
  refine ⟨burnt, mid, hburn, hmid, fun d => ?_, hempty, hfinal⟩
  rw [hread]
  exact hrun.proceeds d

end Runs

/-- A chain with the balances of `accounts`, at the start of its first epoch. -/
def firstEpoch : World (Journaled Tax.Ledger) where
  params := accounts.params
  exemption := accounts.exemption
  treasury :=
    { store := accounts.treasury
      taxRate := none
      rewardWeight := none
      epochInitialIssuance := ∅
      tr := ∅
      sr := ∅
      tsl := ∅
      oracle := Market.ratesStore ∅
      ext := ⟨accounts.rest, []⟩ }

/-- A treasury to which no other module has anything to say. -/
def idleTreasury : Treasury.Keepers (Journaled Tax.Ledger) where
  burnAccountBalances _ := ∅
  burnCoins s _ _ := .ok s
  getSupply _ _ := 0
  totalBondedTokens _ := 0

/-- The run of `transferAndCall` with a journal. -/
def journaledRun : Outcome (Context × Chain (Journaled Tax.Ledger) × Chain (Journaled Tax.Ledger)
    × Chain (Journaled Tax.Ledger) × Chain (Journaled Tax.Ledger)) :=
  let K := journaled Tax.ledgerKeepers
  Ante.anteHandle K (Tax.contextWith []) firstEpoch.chain transferAndCall false >>= fun r =>
  (dollars "alice" "bob" 100000000).handle K r.1 r.2 >>= fun c₁ =>
  (dollars "contract" "carol" 10000000).handle K (dispatchContext r.1) c₁ >>= fun c₂ =>
  postHandle K r.1 c₂ >>= fun c₃ => pure (r.1, r.2, c₁, c₂, c₃)

/-- The week ends with the taxes of the transaction: that of the transfer, which the post handler
moves, and that of the transfer which the contract dispatches. -/
theorem transferAndCall_proceeds :
    ∃ (t : Transaction (journaled Tax.ledgerKeepers)) (w : World (Journaled Tax.Ledger))
      (burnt treasury : Treasury.State (Journaled Tax.Ledger)),
      t.tx = transferAndCall ∧ t.moved.length = 2
      ∧ Run Tax.ledgerKeepers idleTreasury firstEpoch [.tx t] w
      ∧ Treasury.burnCoinsFromBurnAccount idleTreasury w.treasury = .ok burnt
      ∧ burnt.store.epochTaxProceeds.amountOf "uusd" = 550000
      ∧ Treasury.endBlocker idleTreasury 100799 w.treasury = .ok treasury
      ∧ treasury.store.epochTaxProceeds = ∅ := by
  obtain ⟨⟨ctx, c₀, c₁, c₂, c₃⟩, hrun, htest⟩ := exists_of_returns
    (p := fun r : Context × Chain (Journaled Tax.Ledger) × Chain (Journaled Tax.Ledger)
      × Chain (Journaled Tax.Ledger) × Chain (Journaled Tax.Ledger) =>
      decide ((movedBetween r.2.1 r.2.2.1 ++ movedBetween r.2.2.1 r.2.2.2.1
          ++ movedBetween r.2.2.2.1 r.2.2.2.2).length = 2
        ∧ total (movedBetween r.2.1 r.2.2.1 ++ movedBetween r.2.2.1 r.2.2.2.1
          ++ movedBetween r.2.2.2.1 r.2.2.2.2) "uusd" = 550000)
      && returns (fun _ => true) (Treasury.endBlocker idleTreasury 100799
        { firstEpoch.treasury with store := r.2.2.2.2.treasury, ext := r.2.2.2.2.rest }))
    (x := journaledRun) (by decide +kernel)
  obtain ⟨r, hante, hrun⟩ := bind_eq_ok.mp hrun
  obtain ⟨c₁', hsend, hrun⟩ := bind_eq_ok.mp hrun
  obtain ⟨c₂', hdispatch, hrun⟩ := bind_eq_ok.mp hrun
  obtain ⟨c₃', hpost, hrun⟩ := bind_eq_ok.mp hrun
  obtain ⟨rfl, rfl, rfl, rfl, rfl⟩ : r.1 = ctx ∧ r.2 = c₀ ∧ c₁' = c₁ ∧ c₂' = c₂ ∧ c₃' = c₃ := by
    simpa using hrun
  obtain ⟨hmoved, hend⟩ := (Bool.and_eq_true _ _).mp htest
  obtain ⟨hlength, htotal⟩ := of_decide_eq_true hmoved
  obtain ⟨treasury, hend, -⟩ := exists_of_returns hend
  let t := transferAndCallTransaction hante hsend hdispatch hpost
  let w : World (Journaled Tax.Ledger) :=
    ⟨c₃'.params, c₃'.exemption,
      { firstEpoch.treasury with store := c₃'.treasury, ext := c₃'.rest }⟩
  have hmoved : t.moved = movedBetween r.2 c₁' ++ movedBetween c₁' c₂' ++ movedBetween c₂' c₃' := by
    simp [t, transferAndCallTransaction, Transaction.moved, Visit.moved]
  have hreached : Run Tax.ledgerKeepers idleTreasury firstEpoch [.tx t] w :=
    .step .start (.tx t rfl rfl ⟨rfl, rfl, rfl⟩)
  obtain ⟨burnt, mid, hburn, -, hread, -, hempty⟩ :=
    epochTaxProceeds_of_run hreached (by decide) hend
  refine ⟨t, w, burnt, treasury, rfl, hmoved ▸ hlength, hreached, hburn, ?_, hend, hempty⟩
  have hfirst : firstEpoch.treasury.store.epochTaxProceeds.amountOf "uusd" = 0 := by decide +kernel
  have hsum := hread "uusd"
  rw [hfirst, ite_self, zero_add] at hsum
  have hsince : (sinceEpochEnd [Event.tx t]).flatMap Event.moved = t.moved := List.append_nil _
  rw [hsum, hsince, hmoved]
  exact htotal

end ColumbusCore.Tx
