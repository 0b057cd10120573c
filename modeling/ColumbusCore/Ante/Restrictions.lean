import ColumbusCore.Lib.MsgTree
import ColumbusCore.Market.Types
import ColumbusCore.Ante.Fee

/-!
Restrictions of the ante handler on governance proposals and on IBC transfers
(`custom/auth/ante/min_initial_deposit.go`, `custom/auth/ante/ibc_spamming_prevention.go`).

Both decorators go through the messages of the transaction and pass over those of `authz`, whose
messages are executed all the same.

* `handleCheckMinInitialDeposit`, `MinInitialDeposit.anteHandle`,
  `IBCTransferSpamPrevention.anteHandle`: the code;
* `Restricted.Conforms`: what the decorators are there for;
* `anteRestrictions_eq_ok_iff`: **the decorators accept exactly where the messages at top level
  conform**;
* `restricted_iff`: **what is accepted conforms exactly where the nested messages do on their
  own**.
-/

namespace ColumbusCore.Ante

open Go

/-! ### Messages -/

/-- `MsgSubmitProposal` of both versions of the governance module, after its `ValidateBasic`. -/
structure MsgSubmitProposal where
  initialDeposit : Coins
  valid : initialDeposit.IsValid

/-- `ibctransfertypes.MsgTransfer`. -/
structure MsgTransfer where
  memo : String
  receiver : String

/-- The messages the decorators tell apart. -/
inductive Restricted where
  /-- `govv1beta1.MsgSubmitProposal`. -/
  | submitProposalV1beta1 (msg : MsgSubmitProposal)
  /-- `govv1.MsgSubmitProposal`. -/
  | submitProposalV1 (msg : MsgSubmitProposal)
  | transfer (msg : MsgTransfer)
  | other

/-- The messages of a transaction; the wrapper is `authz.MsgExec`. -/
abbrev RestrictedTree := MsgTree Unit Restricted

/-! ### The minimum initial deposit -/

/-- What the decorator reads of the parameters of the governance and of the treasury module. Both
are validated. -/
structure DepositParams where
  minDeposit : List Coin
  minInitialDepositRatio : Dec
  minDeposit_nonneg : ∀ c ∈ minDeposit, 0 ≤ c.2
  ratio_nonneg : 0 ≤ minInitialDepositRatio.raw

/-- `IsMsgSubmitProposal`. -/
def isMsgSubmitProposal : Restricted → Bool
  | .submitProposalV1beta1 _ => true
  | .submitProposalV1 _ => true
  | _ => false

/-- `GetInitialDeposit`, where the message is a proposal. -/
def initialDepositCoins : Restricted → Outcome Coins
  | .submitProposalV1beta1 msg => .ok msg.initialDeposit
  | .submitProposalV1 msg => .ok msg.initialDeposit
  | _ => failed "could not dereference msg as MsgSubmitProposal"

/-- The amount of luna a proposal needs: a share of the first coin of the minimum deposit. -/
def requiredAmount (p : DepositParams) : Outcome ℤ :=
  match p.minDeposit with
  | [] => panicked .outOfRange
  | coin :: _ => do
      let amount ← (Fixed.ofInt coin.2).mul p.minInitialDepositRatio
      amount.truncateInt

/-- `HandleCheckMinInitialDeposit`. -/
def handleCheckMinInitialDeposit (p : DepositParams) (msg : Restricted) : Outcome Unit := do
  let deposit ← initialDepositCoins msg
  let required ← requiredAmount p
  let requiredCoin ← newCoin Market.microLunaDenom required
  let requiredDepositCoins := CoinSet.ofList [requiredCoin]
  failIf (¬ deposit.IsAllGTE requiredDepositCoins)
    ("not enough initial deposit provided. Expected \"" ++ coinsString requiredDepositCoins.entries
      ++ "\"; got \"" ++ coinsString deposit.entries ++ "\"")

/-- One round of the loop over the messages: a check of the messages at top level. -/
def atTopLevel (check : Restricted → Outcome Unit) : Unit → RestrictedTree → Outcome Unit
  | _, .leaf msg => check msg
  | _, .node _ _ => pure ()

/-- The check of one message by `MinInitialDepositDecorator`. -/
def checkInitialDeposit (p : DepositParams) (msg : Restricted) : Outcome Unit :=
  if isMsgSubmitProposal msg then unauthorized (handleCheckMinInitialDeposit p msg) else pure ()

/-- `MinInitialDepositDecorator.AnteHandle`, up to the next decorator. -/
def MinInitialDeposit.anteHandle (p : DepositParams) (simulate : Bool)
    (msgs : List RestrictedTree) : Outcome Unit :=
  if simulate then pure () else msgs.foldlM (atTopLevel (checkInitialDeposit p)) ()

/-! ### Transfers -/

/-- `DefaultMaxMemoLength`, in bytes. -/
def defaultMaxMemoLength : ℕ := 1024

/-- `DefaultMaxReceiverLength`, in bytes. -/
def defaultMaxReceiverLength : ℕ := 128

/-- The check of one message by `IBCTransferSpamPreventionDecorator`. -/
def checkTransfer : Restricted → Outcome Unit
  | .transfer msg => do
      failIf (defaultMaxMemoLength < msg.memo.utf8ByteSize) "memo too long"
      failIf (defaultMaxReceiverLength < msg.receiver.utf8ByteSize) "receiver too long"
  | _ => pure ()

/-- `IBCTransferSpamPreventionDecorator.AnteHandle`, up to the next decorator. -/
def IBCTransferSpamPrevention.anteHandle (isReCheckTx : Bool) (msgs : List RestrictedTree) :
    Outcome Unit :=
  if isReCheckTx then pure () else msgs.foldlM (atTopLevel checkTransfer) ()

/-- The two decorators, in the order of `NewAnteHandler`. -/
def anteRestrictions (p : DepositParams) (isReCheckTx simulate : Bool)
    (msgs : List RestrictedTree) : Outcome Unit := do
  IBCTransferSpamPrevention.anteHandle isReCheckTx msgs
  MinInitialDeposit.anteHandle p simulate msgs

/-! ### What is accepted -/

/-- What the decorators are there for: a proposal carries the required deposit, and a transfer
keeps to the length limits. -/
def Restricted.Conforms (p : DepositParams) : Restricted → Prop
  | .submitProposalV1beta1 msg | .submitProposalV1 msg =>
      ∃ required, requiredAmount p = .ok required
        ∧ required ≤ msg.initialDeposit.amountOf Market.microLunaDenom
  | .transfer msg => msg.memo.utf8ByteSize ≤ defaultMaxMemoLength
      ∧ msg.receiver.utf8ByteSize ≤ defaultMaxReceiverLength
  | .other => True

/-- The required amount is not negative. -/
lemma requiredAmount_nonneg {p : DepositParams} {required : ℤ}
    (h : requiredAmount p = .ok required) : 0 ≤ required := by
  rw [requiredAmount] at h
  cases hmin : p.minDeposit with
  | nil =>
      rw [hmin] at h
      exact absurd h panicked_ne_ok
  | cons coin rest =>
      rw [hmin] at h
      obtain ⟨amount, hmul, h⟩ := bind_eq_ok.mp h
      rw [Fixed.ofInt_mul] at hmul
      obtain ⟨-, rfl⟩ := Fixed.checked_eq_ok_iff.mp hmul
      obtain ⟨-, rfl⟩ := Fixed.checkedInt_eq_ok_iff.mp h
      have hcoin := p.minDeposit_nonneg coin (by rw [hmin]; simp)
      exact Int.tdiv_nonneg (mul_nonneg hcoin p.ratio_nonneg) (by positivity)

/-- The check of a deposit compares the amounts of luna. -/
lemma isAllGTE_required {deposit : Coins} (hvalid : deposit.IsValid) {required : ℤ}
    (h0 : 0 ≤ required) :
    deposit.IsAllGTE (CoinSet.ofList [(Market.microLunaDenom, required)])
      ↔ required ≤ deposit.amountOf Market.microLunaDenom := by
  have hrequired : (CoinSet.ofList [(Market.microLunaDenom, required)]).IsValid := by
    refine CoinSet.isValid_iff.mpr fun d => ?_
    rw [CoinSet.amountOf_single]
    split_ifs
    · exact h0
    · exact le_rfl
  rw [CoinSet.isAllGTE_iff hvalid hrequired]
  constructor
  · intro h
    have hluna := h Market.microLunaDenom
    rwa [CoinSet.amountOf_single, if_pos rfl] at hluna
  · intro h d
    rw [CoinSet.amountOf_single]
    split_ifs with hd
    · exact hd ▸ h
    · exact CoinSet.isValid_iff.mp hvalid d

/-- A proposal passes exactly when its deposit is the required one or more. -/
lemma handleCheckMinInitialDeposit_eq_ok_iff {p : DepositParams} {msg : Restricted}
    {deposit : Coins} (hdeposit : initialDepositCoins msg = .ok deposit)
    (hvalid : deposit.IsValid) :
    handleCheckMinInitialDeposit p msg = .ok () ↔ ∃ required, requiredAmount p = .ok required
      ∧ required ≤ deposit.amountOf Market.microLunaDenom := by
  rw [handleCheckMinInitialDeposit, hdeposit, ok_bind, bind_eq_ok]
  refine exists_congr fun required => and_congr_right fun hrequired => ?_
  have h0 := requiredAmount_nonneg hrequired
  rw [newCoin_eq_ok_iff.mpr ⟨h0, rfl⟩, ok_bind, failIf_eq_ok, not_not,
    isAllGTE_required hvalid h0]

/-- One message passes both checks exactly when it conforms. -/
lemma checks_eq_ok_iff {p : DepositParams} (msg : Restricted) :
    checkTransfer msg = .ok () ∧ checkInitialDeposit p msg = .ok () ↔ msg.Conforms p := by
  cases msg with
  | submitProposalV1beta1 msg =>
      simp only [checkTransfer, pure_eq_ok, true_and, checkInitialDeposit, isMsgSubmitProposal,
        if_true, unauthorized_eq_ok]
      exact handleCheckMinInitialDeposit_eq_ok_iff rfl msg.valid
  | submitProposalV1 msg =>
      simp only [checkTransfer, pure_eq_ok, true_and, checkInitialDeposit, isMsgSubmitProposal,
        if_true, unauthorized_eq_ok]
      exact handleCheckMinInitialDeposit_eq_ok_iff rfl msg.valid
  | transfer msg =>
      simp [checkTransfer, checkInitialDeposit, isMsgSubmitProposal, Restricted.Conforms,
        failIf_bind_eq_ok, failIf_eq_ok]
  | other => simp [checkTransfer, checkInitialDeposit, isMsgSubmitProposal, Restricted.Conforms]

/-- A loop over the messages checks those at top level. -/
lemma foldlM_atTopLevel_eq_ok_iff {check : Restricted → Outcome Unit}
    {msgs : List RestrictedTree} : msgs.foldlM (atTopLevel check) () = .ok ()
      ↔ ∀ msg, .leaf msg ∈ msgs → check msg = .ok () := by
  induction msgs with
  | nil => simp
  | cons t msgs ih =>
      rw [List.foldlM_cons, unit_bind_eq_ok, ih]
      cases t with
      | leaf msg => simp [atTopLevel]
      | node k inner => simp [atTopLevel]

/-- **The decorators accept exactly where the messages at top level conform.** -/
theorem anteRestrictions_eq_ok_iff {p : DepositParams} {msgs : List RestrictedTree} :
    anteRestrictions p false false msgs = .ok ()
      ↔ ∀ msg, .leaf msg ∈ msgs → msg.Conforms p := by
  rw [anteRestrictions, unit_bind_eq_ok]
  simp only [IBCTransferSpamPrevention.anteHandle, MinInitialDeposit.anteHandle,
    Bool.false_eq_true, if_false, foldlM_atTopLevel_eq_ok_iff, ← checks_eq_ok_iff]
  exact ⟨fun h msg hmsg => ⟨h.1 msg hmsg, h.2 msg hmsg⟩,
    fun h => ⟨fun msg hmsg => (h msg hmsg).1, fun msg hmsg => (h msg hmsg).2⟩⟩

/-- **Nesting.** That every message of an accepted transaction conforms, whatever its depth, holds
exactly for the transactions that have a message at top level to be rejected for, or whose nested
messages conform on their own. -/
theorem restricted_iff (p : DepositParams) (msgs : List RestrictedTree) :
    (anteRestrictions p false false msgs = .ok () →
        ∀ msg ∈ MsgTree.leavesOf msgs, msg.Conforms p)
      ↔ ((∀ msg, .leaf msg ∈ msgs → msg.Conforms p) →
        ∀ msg ∈ MsgTree.nestedIn msgs, msg.Conforms p) := by
  rw [anteRestrictions_eq_ok_iff]
  refine forall_congr' fun htop => ?_
  constructor
  · intro h msg hmsg
    exact h msg (MsgTree.mem_leavesOf_iff.mpr (.inr hmsg))
  · intro h msg hmsg
    rcases MsgTree.mem_leavesOf_iff.mp hmsg with htop' | hnested
    · exact htop msg htop'
    · exact h msg hnested

/-! ### A way around the restrictions -/

/-- A minimum deposit of a million luna, half of which has to come with the proposal. -/
def halfDeposit : DepositParams where
  minDeposit := [(Market.microLunaDenom, 1000000)]
  minInitialDepositRatio := newDecWithPrec 5 1
  minDeposit_nonneg := by simp
  ratio_nonneg := by decide

/-- A proposal without a deposit and a transfer with a memo that is too long are refused at top
level, and accepted in a message of `authz`. -/
theorem nested_accepted :
    let proposal := Restricted.submitProposalV1 ⟨∅, CoinSet.isValid_empty⟩
    let transfer := Restricted.transfer ⟨String.ofList (List.replicate 1025 'x'), "receiver"⟩
    anteRestrictions halfDeposit false false [.node () [.leaf proposal, .leaf transfer]] = .ok ()
      ∧ ¬ proposal.Conforms halfDeposit ∧ ¬ transfer.Conforms halfDeposit
      ∧ anteRestrictions halfDeposit false false [.leaf proposal] ≠ .ok ()
      ∧ anteRestrictions halfDeposit false false [.leaf transfer] ≠ .ok () := by
  intro proposal transfer
  have hproposal : ¬ proposal.Conforms halfDeposit := by
    rintro ⟨required, hrequired, hle⟩
    obtain ⟨amount, hamount, hpos⟩ := exists_of_returns (p := fun amount : ℤ => decide (0 < amount))
      (x := requiredAmount halfDeposit) (by decide +kernel)
    obtain rfl := Except.ok.inj (hamount.symm.trans hrequired)
    exact absurd (of_decide_eq_true hpos) (not_lt.mpr (by simpa using hle))
  have htransfer : ¬ transfer.Conforms halfDeposit := by
    rintro ⟨hmemo, -⟩
    exact absurd hmemo (by decide +kernel)
  refine ⟨anteRestrictions_eq_ok_iff.mpr (by simp), hproposal, htransfer, ?_, ?_⟩
  · exact fun h => hproposal (anteRestrictions_eq_ok_iff.mp h _ (by simp))
  · exact fun h => htransfer (anteRestrictions_eq_ok_iff.mp h _ (by simp))

end ColumbusCore.Ante
