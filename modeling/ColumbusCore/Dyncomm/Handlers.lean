import ColumbusCore.Lib.MsgTree
import ColumbusCore.Dyncomm.Keeper

/-!
The ante and the post handler of the dynamic commission (`x/dyncomm/ante/ante.go`,
`x/dyncomm/post/post.go`).

The ante handler looks for edits of a validator at any depth, in messages of `authz` and in packets
for interchain accounts, and refuses a rate below the minimum stored under the address as the
message spells it. The post handler stores the target rates of the messages at top level, under
the address as they spell it.

* `Ante.filterMsgs`, `Post.filterMsgs`: the code;
* `Ante.not_below_of_filterMsg`: **an edit below the minimum of its own spelling is refused at any
  depth**;
* `minimum_enforced_iff`: **the minimum is enforced exactly where no spelling of an address has a
  smaller one**;
* `getTargetCommissionRate_filterMsgs_eq_iff`: **what the post handler stores**;
* `Delivered.agrees_iff`: **which transactions store the rates they asked for**.
-/

namespace ColumbusCore.Dyncomm

open Go
open Std (ExtTreeMap)

/-! ### Messages -/

/-- `stakingtypes.MsgEditValidator`. -/
structure MsgEditValidator where
  validatorAddress : String
  commissionRate : Option Dec
deriving DecidableEq

/-- `stakingtypes.MsgCreateValidator`. -/
structure MsgCreateValidator where
  validatorAddress : String
  commissionRate : Dec
deriving DecidableEq

/-- The messages the handlers tell apart. -/
inductive Msg where
  | editValidator (msg : MsgEditValidator)
  | createValidator (msg : MsgCreateValidator)
  /-- `authz.MsgExec` with a message that does not unpack. -/
  | execInvalid
  /-- `channeltypes.MsgRecvPacket` with data that is not for interchain accounts, and the error of
  the decoder. -/
  | packetForeign (err : String)
  /-- `channeltypes.MsgRecvPacket` for interchain accounts, of another type than `EXECUTE_TX` or
  with messages that do not deserialize. -/
  | packetIgnored
  | other
deriving DecidableEq

/-- What holds messages: `authz.MsgExec`, and `channeltypes.MsgRecvPacket` with the messages of an
interchain account. -/
inductive Wrapper where
  | exec
  | packet

/-- The messages of a transaction. -/
abbrev Tree := MsgTree Wrapper Msg

/-! ### The ante handler -/

namespace Ante

/-- `DyncommDecorator.ProcessEditValidator`. -/
def processEditValidator (s : RateStore) (msg : MsgEditValidator) : Outcome Unit :=
  match msg.commissionRate with
  | none => pure ()
  | some newIntendedRate =>
      failIf (newIntendedRate < s.getDynCommissionRate msg.validatorAddress)
        ("commission for " ++ msg.validatorAddress ++ " must be at least "
          ++ floatString (s.getDynCommissionRate msg.validatorAddress))

/-- The end of a round that has checked a message: an error is returned. -/
def returnError (r : Outcome Unit) : Outcome (Option String) := do
  unauthorized r
  pure none

mutual

/-- One round of the loop: the variable `err` after it. The error of a packet that does not decode
stays in the variable, where a message of `authz` that does not unpack finds it. -/
def filterMsg (s : RateStore) (err : Option String) : Tree → Outcome (Option String)
  | .leaf (.editValidator msg) => returnError (processEditValidator s msg)
  | .leaf (.createValidator _) => pure err
  | .leaf .execInvalid => returnError (match err with | none => pure () | some msg => failed msg)
  | .leaf (.packetForeign msg) => pure (some msg)
  | .leaf .packetIgnored => pure none
  | .leaf .other => pure err
  | .node _ msgs => returnError (filterMsgs s none msgs)

/-- `DyncommDecorator.FilterMsgsAndProcessMsgs`. -/
def filterMsgs (s : RateStore) (err : Option String) : List Tree → Outcome Unit
  | [] => pure ()
  | msg :: msgs => do
      let err ← filterMsg s err msg
      filterMsgs s err msgs

end

/-- `DyncommDecorator.AnteHandle`. -/
def anteHandle {γ : Type} (s : RateStore) (simulate : Bool) (msgs : List Tree)
    (next : Outcome γ) : Outcome γ :=
  if simulate then next
  else do
    filterMsgs s none msgs
    next

variable {s : RateStore}

lemma returnError_eq_ok {r : Outcome Unit} {err : Option String} :
    returnError r = .ok err ↔ r = .ok () ∧ err = none := by
  rw [returnError, unit_bind_eq_ok, unauthorized_eq_ok]
  simp [eq_comm]

/-- A loop that gets past its messages has got past each of them. -/
lemma filterMsg_of_filterMsgs {msgs : List Tree} {err : Option String}
    (h : filterMsgs s err msgs = .ok ()) :
    ∀ msg ∈ msgs, ∃ err err', filterMsg s err msg = .ok err' := by
  induction msgs generalizing err with
  | nil => simp
  | cons msg msgs ih =>
      rw [filterMsgs] at h
      obtain ⟨err', hmsg, h⟩ := bind_eq_ok.mp h
      intro t ht
      rcases List.mem_cons.mp ht with rfl | ht
      · exact ⟨err, err', hmsg⟩
      · exact ih h t ht

/-- **An edit below the minimum stored under its own spelling** is refused, at any depth. -/
theorem not_below_of_filterMsg {t : Tree} :
    ∀ {err err' : Option String}, filterMsg s err t = .ok err' →
      ∀ msg, .editValidator msg ∈ t.leaves → processEditValidator s msg = .ok () := by
  induction t using MsgTree.induction with
  | leaf a =>
      intro err err' h msg hmsg
      obtain rfl := List.mem_singleton.mp hmsg
      rw [filterMsg] at h
      exact (returnError_eq_ok.mp h).1
  | node k msgs ih =>
      intro err err' h msg hmsg
      rw [filterMsg] at h
      obtain ⟨t, ht, hmem⟩ := MsgTree.mem_leavesOf.mp hmsg
      obtain ⟨e, e', hround⟩ := filterMsg_of_filterMsgs (returnError_eq_ok.mp h).1 t ht
      exact ih t ht hround msg hmem

lemma not_below_of_anteHandle {γ : Type} {msgs : List Tree} {next : Outcome γ} {x : γ}
    (h : anteHandle s false msgs next = .ok x) {msg : MsgEditValidator}
    (hmsg : .editValidator msg ∈ MsgTree.leavesOf msgs) {rate : Dec}
    (hrate : msg.commissionRate = some rate) :
    s.getDynCommissionRate msg.validatorAddress ≤ rate := by
  rw [anteHandle, if_neg Bool.false_ne_true, unit_bind_eq_ok] at h
  obtain ⟨t, ht, hmem⟩ := MsgTree.mem_leavesOf.mp hmsg
  obtain ⟨err, err', hround⟩ := filterMsg_of_filterMsgs h.1 t ht
  have hprocess := not_below_of_filterMsg hround msg hmem
  rw [processEditValidator, hrate] at hprocess
  exact not_lt.mp (failIf_eq_ok.mp hprocess)

end Ante

section Minimum

variable (parse : String → Option ValAddress) (valString : ValAddress → String) (s : RateStore)

/-- The message asks for a rate below the minimum stored for its validator, which is stored under
the address as the staking module writes it. -/
def RequestsBelow (msg : MsgEditValidator) : Prop :=
  ∃ rate v, msg.commissionRate = some rate ∧ parse msg.validatorAddress = some v
    ∧ rate < s.getDynCommissionRate (valString v)

/-- **The minimum.** Every transaction that asks for a rate below the minimum of a validator, at
any depth, is refused exactly where the minimum stored under no text for an address is below the
one of the validator. -/
theorem minimum_enforced_iff :
    (∀ msgs : List Tree, (∃ msg, .editValidator msg ∈ MsgTree.leavesOf msgs
        ∧ RequestsBelow parse valString s msg) →
      ∀ next : Outcome Unit, Ante.anteHandle s false msgs next ≠ .ok ())
    ↔ ∀ a v, parse a = some v →
      s.getDynCommissionRate (valString v) ≤ s.getDynCommissionRate a := by
  constructor
  · intro h a v ha
    by_contra hlt
    -- the edit that asks for the minimum of its own spelling
    refine h [.leaf (.editValidator ⟨a, some (s.getDynCommissionRate a)⟩)]
      ⟨_, List.mem_singleton.mpr rfl, _, v, rfl, ha, not_le.mp hlt⟩ (.ok ()) ?_
    have hprocess : Ante.processEditValidator s ⟨a, some (s.getDynCommissionRate a)⟩ = .ok () :=
      failIf_eq_ok.mpr (lt_irrefl _)
    rw [Ante.anteHandle, if_neg Bool.false_ne_true, Ante.filterMsgs, Ante.filterMsg,
      Ante.returnError_eq_ok.mpr ⟨hprocess, rfl⟩]
    rfl
  · rintro h msgs ⟨msg, hmsg, rate, v, hrate, hparse, hlt⟩ next haccepted
    have hle := Ante.not_below_of_anteHandle haccepted hmsg hrate
    exact absurd (hlt.trans_le (h _ v hparse)) (not_lt.mpr hle)

end Minimum

/-! ### The minimum of another spelling -/

/-- A parser of one address, in both spellings. -/
def oneValidator : String → Option ValAddress :=
  tableParse [(operatorText, "validator-a-of-terra"),
    (upperCase operatorText, "validator-a-of-terra")]

/-- The address as the staking module writes it. -/
def oneValidatorString (_ : ValAddress) : String := operatorText

lemma acceptsBothCases_oneValidator : AcceptsBothCases oneValidator :=
  acceptsBothCases_tableParse (by decide +kernel)

/-- A minimum and a target of ten percent. -/
def tenPercent : RateStore :=
  (∅ : RateStore).insert operatorText
    ⟨operatorText, newDecWithPrec 10 2, newDecWithPrec 10 2⟩

/-- One percent is asked for and accepted, in upper case. -/
theorem upperCase_evades_minimum :
    AcceptsBothCases oneValidator
      ∧ oneValidator (upperCase operatorText) = oneValidator operatorText
      ∧ RequestsBelow oneValidator oneValidatorString tenPercent
        ⟨upperCase operatorText, some (newDecWithPrec 1 2)⟩
      ∧ Ante.anteHandle tenPercent false
        [.leaf (.editValidator ⟨upperCase operatorText, some (newDecWithPrec 1 2)⟩)] (.ok ()) = .ok ()
      ∧ Ante.anteHandle tenPercent false
        [.leaf (.editValidator ⟨operatorText, some (newDecWithPrec 1 2)⟩)] (.ok ())
        ≠ .ok () := by
  refine ⟨acceptsBothCases_oneValidator, rfl,
    ⟨_, "validator-a-of-terra", rfl, by decide +kernel, by decide +kernel⟩, rfl, ?_⟩
  intro h
  exact absurd (Ante.not_below_of_anteHandle h (List.mem_singleton.mpr rfl) rfl)
    (by decide +kernel)

/-! ### The post handler -/

namespace Post

/-- The target rate a message at top level sets, with the address it is stored under: one round of
`DyncommDecorator.FilterMsgsAndProcessMsgs`, with `ProcessEditValidator` and
`ProcessCreateValidator`. -/
def writes : Tree → Option (String × Dec)
  | .leaf (.editValidator msg) => msg.commissionRate.map fun rate => (msg.validatorAddress, rate)
  | .leaf (.createValidator msg) => some (msg.validatorAddress, msg.commissionRate)
  | _ => none

/-- A rate is stored. -/
def store (s : RateStore) : Option (String × Dec) → RateStore
  | none => s
  | some (validator, rate) => s.setTargetCommissionRate validator rate

/-- `DyncommDecorator.FilterMsgsAndProcessMsgs`. -/
def filterMsgs (s : RateStore) (msgs : List Tree) : RateStore :=
  msgs.foldl (fun s msg => store s (writes msg)) s

/-- `DyncommDecorator.PostHandle`, up to the next decorator. -/
def postHandle (s : RateStore) (simulate isCheckTx : Bool) (msgs : List Tree) : RateStore :=
  if simulate then s else if isCheckTx then s else filterMsgs s msgs

end Post

/-- The last message at top level that sets a rate under the text `a` sets this one. -/
def LastWritten (a : String) (msgs : List Tree) (rate : Dec) : Prop :=
  ∃ pre msg post, msgs = pre ++ msg :: post ∧ Post.writes msg = some (a, rate)
    ∧ ∀ t ∈ post, ∀ rate', Post.writes t ≠ some (a, rate')

/-- No message at top level sets a rate under the text `a`. -/
def Unwritten (a : String) (msgs : List Tree) : Prop :=
  ∀ t ∈ msgs, ∀ rate, Post.writes t ≠ some (a, rate)

/-- One message under another text, or without a rate, leaves the target. -/
lemma getTargetCommissionRate_store {s : RateStore} {a : String} {w : Option (String × Dec)}
    (h : ∀ rate, w ≠ some (a, rate)) :
    (Post.store s w).getTargetCommissionRate a = s.getTargetCommissionRate a := by
  cases w with
  | none => rfl
  | some e =>
      obtain ⟨validator, rate⟩ := e
      rw [Post.store, RateStore.getTargetCommissionRate_setTargetCommissionRate]
      split_ifs with hv
      · exact absurd (by rw [hv]) (h rate)
      · rfl

lemma getTargetCommissionRate_of_unwritten {a : String} {msgs : List Tree}
    (h : Unwritten a msgs) (s : RateStore) :
    (Post.filterMsgs s msgs).getTargetCommissionRate a = s.getTargetCommissionRate a := by
  induction msgs generalizing s with
  | nil => rfl
  | cons t msgs ih =>
      obtain ⟨ht, hmsgs⟩ := List.forall_mem_cons.mp h
      rw [Post.filterMsgs, List.foldl_cons, ← Post.filterMsgs, ih hmsgs,
        getTargetCommissionRate_store ht]

lemma getTargetCommissionRate_of_lastWritten {a : String} {msgs : List Tree} {rate : Dec}
    (h : LastWritten a msgs rate) (s : RateStore) :
    (Post.filterMsgs s msgs).getTargetCommissionRate a = rate := by
  obtain ⟨pre, msg, post, rfl, hmsg, hpost⟩ := h
  rw [Post.filterMsgs, List.foldl_append, List.foldl_cons, ← Post.filterMsgs, ← Post.filterMsgs,
    getTargetCommissionRate_of_unwritten hpost, hmsg, Post.store,
    RateStore.getTargetCommissionRate_setTargetCommissionRate, if_pos rfl]

/-- Some message is the last to write under a text, or none does. -/
lemma lastWritten_or_unwritten (a : String) (msgs : List Tree) :
    (∃ rate, LastWritten a msgs rate) ∨ Unwritten a msgs := by
  induction msgs with
  | nil => exact .inr (by simp [Unwritten])
  | cons t msgs ih =>
      rcases ih with ⟨rate, pre, msg, post, rfl, hmsg, hpost⟩ | hnone
      · exact .inl ⟨rate, t :: pre, msg, post, rfl, hmsg, hpost⟩
      · by_cases ht : ∃ rate, Post.writes t = some (a, rate)
        · obtain ⟨rate, ht⟩ := ht
          exact .inl ⟨rate, [], t, msgs, rfl, ht, hnone⟩
        · exact .inr (List.forall_mem_cons.mpr ⟨not_exists.mp ht, hnone⟩)

/-- **The target after the post handler** is a rate exactly when the last message at top level
under the text sets it, or none does and it was the target before. -/
theorem getTargetCommissionRate_filterMsgs_eq_iff {a : String} {msgs : List Tree} {rate : Dec}
    {s : RateStore} : (Post.filterMsgs s msgs).getTargetCommissionRate a = rate
      ↔ LastWritten a msgs rate ∨ Unwritten a msgs ∧ s.getTargetCommissionRate a = rate := by
  constructor
  · intro h
    rcases lastWritten_or_unwritten a msgs with ⟨rate', hlast⟩ | hnone
    · rw [getTargetCommissionRate_of_lastWritten hlast] at h
      exact .inl (h ▸ hlast)
    · rw [getTargetCommissionRate_of_unwritten hnone] at h
      exact .inr ⟨hnone, h⟩
  · rintro (hlast | ⟨hnone, htarget⟩)
    · exact getTargetCommissionRate_of_lastWritten hlast s
    · rw [getTargetCommissionRate_of_unwritten hnone, htarget]

/-! ### Transactions -/

/-- `Executed msgs l`: a transaction with these messages that succeeds may have executed the
messages `l`. A message of `authz` executes all it holds. The messages of a packet are executed
together or not at all: their failure is acknowledged, and the transaction goes on. -/
inductive Executed : List Tree → List Msg → Prop where
  | nil : Executed [] []
  | leaf {a ts l} : Executed ts l → Executed (.leaf a :: ts) (a :: l)
  | exec {msgs ts l l'} : Executed msgs l → Executed ts l' →
      Executed (.node .exec msgs :: ts) (l ++ l')
  | packet {msgs ts l l'} : Executed msgs l → Executed ts l' →
      Executed (.node .packet msgs :: ts) (l ++ l')
  | packetFailed {msgs ts l} : Executed ts l → Executed (.node .packet msgs :: ts) l

/-- The ante handler has seen what is executed. -/
lemma Executed.subset {msgs : List Tree} {l : List Msg} (h : Executed msgs l) :
    l ⊆ MsgTree.leavesOf msgs := by
  induction h with
  | nil => exact List.nil_subset _
  | leaf _ ih =>
      rw [MsgTree.leavesOf, MsgTree.leaves]
      exact List.cons_subset_cons _ ih
  | exec _ _ ih ih' | packet _ _ ih ih' =>
      rw [MsgTree.leavesOf, MsgTree.leaves]
      exact List.append_subset.mpr
        ⟨List.subset_append_of_subset_left _ ih, List.subset_append_of_subset_right _ ih'⟩
  | packetFailed _ ih =>
      rw [MsgTree.leavesOf, MsgTree.leaves]
      exact List.subset_append_of_subset_right _ ih

/-- A transaction that was delivered and succeeded. -/
structure Delivered where
  before : State
  msgs : List Tree
  accepted : Ante.anteHandle before.rates false msgs (.ok ()) = .ok ()
  executed : List Msg
  runs : Executed msgs executed
  /-- The staking module after the messages. -/
  staking : Staking

namespace Delivered

/-- The state after the post handler. No message changes the store of the module. -/
def after (tx : Delivered) : State :=
  { tx.before with
    rates := Post.postHandle tx.before.rates false false tx.msgs
    staking := tx.staking }

end Delivered

/-- The rate asked for is the target of the validator, and the weekly update sets its commission to
the larger of this rate and of the dynamic minimum. -/
def Settled (st : State) (operatorAddress : String) (rate : Dec) : Prop :=
  st.rates.getTargetCommissionRate operatorAddress = rate
    ∧ ∀ validator st', st.staking.validators[operatorAddress]? = some validator →
      validator.bonded = true → updateAllBondedValidatorRates st = .ok st' →
      ∃ minRate updated, calculateDynCommission st.params st.staking validator = .ok minRate
        ∧ st'.staking.validators[operatorAddress]? = some updated
        ∧ updated.commission.rate = max rate minRate

lemma settled_iff {st : State} {operatorAddress : String} {rate : Dec} :
    Settled st operatorAddress rate
      ↔ st.rates.getTargetCommissionRate operatorAddress = rate := by
  refine ⟨And.left, fun htarget => ⟨htarget, ?_⟩⟩
  intro validator st' hvalidator hbonded hupdate
  obtain ⟨minRate, updated, hmin, hupdated, hrate, -⟩ :=
    (updateAllBondedValidatorRates_eq_ok hupdate).2 _ _ hvalidator hbonded
  exact ⟨minRate, updated, hmin, hupdated, by rw [hrate, htarget]⟩

/-- **Ante and post handler.** Every edit a transaction has executed is settled exactly when for
each of them the last message at top level that names the validator as the staking module does
asks for the same rate, or there is none and the rate was the target before. -/
theorem Delivered.agrees_iff (parse : String → Option ValAddress)
    (valString : ValAddress → String) (tx : Delivered) :
    (∀ msg rate v, .editValidator msg ∈ tx.executed → msg.commissionRate = some rate →
      parse msg.validatorAddress = some v → Settled tx.after (valString v) rate)
    ↔ ∀ msg rate v, .editValidator msg ∈ tx.executed → msg.commissionRate = some rate →
      parse msg.validatorAddress = some v →
      LastWritten (valString v) tx.msgs rate
        ∨ Unwritten (valString v) tx.msgs
          ∧ tx.before.rates.getTargetCommissionRate (valString v) = rate := by
  simp only [settled_iff, ← getTargetCommissionRate_filterMsgs_eq_iff]
  exact Iff.rfl

/-! ### A nested edit -/

/-- A validator with one percent of the voting power. -/
def onePercentValidator : Validator where
  operatorAddress := operatorText
  bonded := true
  tokens := 1000000
  commission := ⟨newDecWithPrec 20 2, newDecWithPrec 50 2, newDecWithPrec 50 2, 0⟩

/-- The staking module of this validator. -/
def onePercentStaking : Staking :=
  Staking.setValidator ⟨0, 100, 1000000, ∅, keyed_empty⟩ onePercentValidator

/-- An edit to twenty percent in a message of `authz`, where the target is ten percent. -/
def nestedEdit : Delivered where
  before := ⟨defaultParams, tenPercent, onePercentStaking⟩
  msgs := [.node .exec [.leaf (.editValidator ⟨operatorText, some (newDecWithPrec 20 2)⟩)]]
  accepted := by rfl
  executed := [.editValidator ⟨operatorText, some (newDecWithPrec 20 2)⟩]
  runs := .exec (.leaf .nil) .nil
  staking := onePercentStaking

/-- The target stays at ten percent, and the weekly update takes the commission back to it. -/
theorem nestedEdit_not_settled :
    .editValidator ⟨operatorText, some (newDecWithPrec 20 2)⟩ ∈ nestedEdit.executed
      ∧ nestedEdit.after.rates.getTargetCommissionRate operatorText = newDecWithPrec 10 2
      ∧ (∃ st', updateAllBondedValidatorRates nestedEdit.after = .ok st'
        ∧ (st'.staking.validators[operatorText]?.map fun v => v.commission.rate)
          = some (newDecWithPrec 10 2))
      ∧ ¬ Settled nestedEdit.after operatorText (newDecWithPrec 20 2) := by
  have htarget : nestedEdit.after.rates.getTargetCommissionRate operatorText
      = newDecWithPrec 10 2 := by decide +kernel
  obtain ⟨st', hupdate, hrate⟩ := exists_of_returns
    (p := fun st' : State => decide ((st'.staking.validators[operatorText]?.map
      fun v => v.commission.rate) = some (newDecWithPrec 10 2)))
    (x := updateAllBondedValidatorRates nestedEdit.after) (by decide +kernel)
  refine ⟨List.mem_singleton.mpr rfl, htarget, ⟨st', hupdate, of_decide_eq_true hrate⟩, ?_⟩
  rw [settled_iff, htarget]
  decide

end ColumbusCore.Dyncomm
