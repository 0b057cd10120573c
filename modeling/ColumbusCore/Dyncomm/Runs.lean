import ColumbusCore.Dyncomm.Genesis
import ColumbusCore.Dyncomm.Handlers

/-!
Commissions over whole runs: a genesis, transactions, moves of the staking module and weekly
updates, in any order.

Beside the state a run keeps the rate every validator last asked for, by the messages that were
executed. The transactions are those whose messages that create a validator or set its rate are at
top level and name it as the staking module does.

* `Staking.Performs`, `Staking.Moves`: what the staking module does with a message, and without
  one;
* `Reached`: the runs;
* `getTargetCommissionRate_filterMsgs`: the post handler stores what was asked for;
* `Reached.inv`: the invariant of every run;
* `commission_of_reached`: **after each update** the minimum, the commission, its limit and the
  target of every bonded validator are in order.
-/

namespace ColumbusCore.Dyncomm

open Go
open Std (ExtTreeMap)

/-! ### Requests -/

/-- The rate a message sets, with the validator as the message spells it. -/
def Msg.asks : Msg → Option (String × Dec)
  | .editValidator msg => msg.commissionRate.map fun rate => (msg.validatorAddress, rate)
  | .createValidator msg => some (msg.validatorAddress, msg.commissionRate)
  | _ => none

section Runs

variable (parse : String → Option ValAddress) (valString : ValAddress → String)

/-- The operator address of the validator a text stands for, as the staking module writes it. -/
def operatorOf (a : String) : Option String := (parse a).map valString

/-- The rates asked for, after one more message was executed. -/
def request (requested : String → Dec) (msg : Msg) : String → Dec :=
  match msg.asks with
  | none => requested
  | some (a, rate) =>
      match operatorOf parse valString a with
      | none => requested
      | some operatorAddress => Function.update requested operatorAddress rate

/-- The rates asked for, after a list of messages was executed. -/
def requestedAfter (requested : String → Dec) (msgs : List Msg) : String → Dec :=
  msgs.foldl (request parse valString) requested

/-- Validators are created and their rates are set at top level, under the address as the staking
module writes it. -/
structure Plain (msgs : List Tree) : Prop where
  topLevel : ∀ msg ∈ MsgTree.nestedIn msgs, msg.asks = none
  canonical : ∀ msg a rate, .leaf msg ∈ msgs → msg.asks = some (a, rate) →
    operatorOf parse valString a = some a

/-! ### The staking module -/

/-- The staking module sets no commission: shares and bonds change, and validators leave. -/
structure Staking.Moves (st st' : Staking) : Prop where
  minimum : 0 ≤ st'.minCommissionRate ∧ st'.minCommissionRate ≤ Fixed.one
  commission : ∀ (a : String) (v' : Validator), st'.validators[a]? = some v' →
    ∃ v, st.validators[a]? = some v ∧ v'.commission = v.commission

/-- What the staking module does with a message: it accepts a rate up to the largest rate of the
validator, and a largest rate up to one. -/
inductive Staking.Performs (st : Staking) : Msg → Staking → Prop where
  | create {msg : MsgCreateValidator} {validator : Validator} :
      operatorOf parse valString msg.validatorAddress = some validator.operatorAddress →
      st.validators[validator.operatorAddress]? = none →
      validator.commission.rate = msg.commissionRate →
      validator.commission.rate ≤ validator.commission.maxRate →
      validator.commission.maxRate ≤ Fixed.one →
      Performs st (.createValidator msg) (st.setValidator validator)
  | edit {msg : MsgEditValidator} {validator : Validator} {rate : Dec} {updateTime : ℤ} :
      msg.commissionRate = some rate →
      operatorOf parse valString msg.validatorAddress = some validator.operatorAddress →
      st.validators[validator.operatorAddress]? = some validator →
      rate ≤ validator.commission.maxRate →
      Performs st (.editValidator msg) (st.setValidator { validator with
        commission := { validator.commission with rate := rate, updateTime := updateTime } })
  | moves {msg : Msg} {st' : Staking} : msg.asks = none → st.Moves st' → Performs st msg st'

/-- The messages one after the other. -/
inductive Staking.PerformsAll : Staking → List Msg → Staking → Prop where
  | nil {st : Staking} : PerformsAll st [] st
  | cons {st st' st'' : Staking} {msg : Msg} {msgs : List Msg} :
      st.Performs parse valString msg st' → PerformsAll st' msgs st'' →
      PerformsAll st (msg :: msgs) st''

/-! ### Runs -/

/-- The rates the validators of a genesis have. -/
def genesisRates (staking : Staking) (a : String) : Dec :=
  match staking.validators[a]? with
  | none => 0
  | some v => v.commission.rate

/-- A staking module with a minimum between zero and one, and rates up to the largest rate of each
validator and to one. -/
structure Staking.Valid (staking : Staking) : Prop where
  minimum : 0 ≤ staking.minCommissionRate ∧ staking.minCommissionRate ≤ Fixed.one
  rates : ∀ (a : String) (v : Validator), staking.validators[a]? = some v →
    v.commission.rate ≤ v.commission.maxRate ∧ v.commission.maxRate ≤ Fixed.one

/-- The states of the runs, each with the rates the validators last asked for, or had at the
genesis. -/
inductive Reached : State → (String → Dec) → Prop where
  | genesis {staking : Staking} {data : GenesisState} {st : State} : staking.Valid →
      initGenesis staking data = .ok st → Reached st (genesisRates staking)
  | transaction {tx : Delivered} {requested : String → Dec} : Reached tx.before requested →
      Plain parse valString tx.msgs →
      tx.before.staking.PerformsAll parse valString tx.executed tx.staking →
      Reached tx.after (requestedAfter parse valString requested tx.executed)
  | moves {st : State} {requested : String → Dec} {staking : Staking} : Reached st requested →
      st.staking.Moves staking → Reached { st with staking := staking } requested
  | update {st st' : State} {requested : String → Dec} : Reached st requested →
      updateAllBondedValidatorRates st = .ok st' → Reached st' requested

end Runs

variable {parse : String → Option ValAddress} {valString : ValAddress → String}

/-! ### The post handler stores what was asked for -/

lemma Plain.tail {t : Tree} {msgs : List Tree} (h : Plain parse valString (t :: msgs)) :
    Plain parse valString msgs where
  topLevel msg hmsg := h.topLevel msg (by
    rw [MsgTree.nestedIn, List.flatMap_cons]
    exact List.mem_append_right _ hmsg)
  canonical msg a rate hmsg := h.canonical msg a rate (List.mem_cons_of_mem _ hmsg)

lemma Plain.nested {k : Wrapper} {nested msgs : List Tree} {msg : Msg}
    (h : Plain parse valString (.node k nested :: msgs)) (hmsg : msg ∈ MsgTree.leavesOf nested) :
    msg.asks = none := by
  refine h.topLevel msg ?_
  rw [MsgTree.nestedIn, List.flatMap_cons]
  exact List.mem_append_left _ hmsg

lemma request_of_asks_none {msg : Msg} (h : msg.asks = none) (requested : String → Dec) :
    request parse valString requested msg = requested := by
  rw [request, h]

lemma request_of_asks_some {msg : Msg} {a operatorAddress : String} {rate : Dec}
    (h : msg.asks = some (a, rate)) (ha : operatorOf parse valString a = some operatorAddress)
    (requested : String → Dec) :
    request parse valString requested msg = Function.update requested operatorAddress rate := by
  rw [request, h]
  simp only [ha]

lemma requestedAfter_of_asks_none {l : List Msg} (h : ∀ msg ∈ l, msg.asks = none)
    (requested : String → Dec) : requestedAfter parse valString requested l = requested := by
  induction l with
  | nil => rfl
  | cons msg l ih =>
      obtain ⟨hmsg, hl⟩ := List.forall_mem_cons.mp h
      rw [requestedAfter, List.foldl_cons, request_of_asks_none hmsg]
      exact ih hl

/-- One message at top level. -/
lemma getTargetCommissionRate_store_writes {msg : Msg} (s : RateStore)
    (hcanonical : ∀ a rate, msg.asks = some (a, rate) → operatorOf parse valString a = some a) :
    (Post.store s (Post.writes (.leaf msg))).getTargetCommissionRate
      = request parse valString s.getTargetCommissionRate msg := by
  have hwrites : Post.writes (.leaf msg) = msg.asks := by cases msg <;> rfl
  rw [hwrites]
  cases hasks : msg.asks with
  | none =>
      rw [request_of_asks_none hasks]
      rfl
  | some w =>
      rw [request_of_asks_some hasks (hcanonical w.1 w.2 hasks)]
      funext b
      rw [Post.store, RateStore.getTargetCommissionRate_setTargetCommissionRate,
        Function.update_apply]
      simp only [eq_comm (a := b)]

/-- **The post handler** stores the rates the executed messages asked for. -/
lemma getTargetCommissionRate_filterMsgs {msgs : List Tree} {executed : List Msg}
    (hruns : Executed msgs executed) :
    Plain parse valString msgs → ∀ s : RateStore,
      (Post.filterMsgs s msgs).getTargetCommissionRate
        = requestedAfter parse valString s.getTargetCommissionRate executed := by
  induction hruns with
  | nil => exact fun _ _ => rfl
  | leaf _ ih =>
      intro hplain s
      rw [requestedAfter, List.foldl_cons, ← requestedAfter,
        ← getTargetCommissionRate_store_writes s fun a rate =>
          hplain.canonical _ a rate List.mem_cons_self]
      exact ih hplain.tail _
  | exec hnested _ _ ih | packet hnested _ _ ih =>
      intro hplain s
      rw [requestedAfter, List.foldl_append, ← requestedAfter, ← requestedAfter,
        requestedAfter_of_asks_none fun msg hmsg => hplain.nested (hnested.subset hmsg)]
      exact ih hplain.tail s
  | packetFailed _ ih =>
      intro hplain s
      exact ih hplain.tail s

/-! ### The invariant -/

/-- A largest rate between the rate that was asked for and one, and a minimum between zero and
one. -/
structure Staking.Bounded (staking : Staking) (requested : String → Dec) : Prop where
  minimum : 0 ≤ staking.minCommissionRate ∧ staking.minCommissionRate ≤ Fixed.one
  rates : ∀ (a : String) (v : Validator), staking.validators[a]? = some v →
    requested a ≤ v.commission.maxRate ∧ v.commission.maxRate ≤ Fixed.one

/-- What every run keeps. -/
structure Inv (st : State) (requested : String → Dec) : Prop where
  params : st.params.validate = .ok ()
  bounded : st.staking.Bounded requested
  targets : st.rates.getTargetCommissionRate = requested

namespace Staking

variable {st st' : Staking} {requested : String → Dec}

lemma Bounded.moves (h : st.Bounded requested) (hmoves : st.Moves st') : st'.Bounded requested where
  minimum := hmoves.minimum
  rates a v' hv' := by
    obtain ⟨v, hv, hcommission⟩ := hmoves.commission a v' hv'
    rw [hcommission]
    exact h.rates a v hv

/-- A validator stored with the rate it asks for. -/
lemma Bounded.setValidator (h : st.Bounded requested) {validator : Validator} {rate : Dec}
    (hrate : rate ≤ validator.commission.maxRate) (hmax : validator.commission.maxRate ≤ Fixed.one) :
    (st.setValidator validator).Bounded
      (Function.update requested validator.operatorAddress rate) where
  minimum := h.minimum
  rates a v hv := by
    rw [Staking.setValidator, getElem?_insert_ite] at hv
    split_ifs at hv with ha
    · obtain rfl := Option.some.inj hv
      rw [← ha, Function.update_self]
      exact ⟨hrate, hmax⟩
    · rw [Function.update_of_ne (Ne.symm ha)]
      exact h.rates a v hv

/-- One message. -/
lemma Bounded.performs (h : st.Bounded requested) {msg : Msg}
    (hmsg : st.Performs parse valString msg st') :
    st'.Bounded (request parse valString requested msg) := by
  cases hmsg with
  | create hoperator _ hasked hrate hmax =>
      rw [request_of_asks_some rfl hoperator, ← hasked]
      exact h.setValidator hrate hmax
  | @edit msg validator rate updateTime hasked hoperator hv hrate =>
      have hasks : (Msg.editValidator msg).asks = some (msg.validatorAddress, rate) := by
        rw [Msg.asks, hasked]
        rfl
      rw [request_of_asks_some hasks hoperator]
      exact h.setValidator hrate (h.rates _ validator hv).2
  | moves hasks hmoves =>
      rw [request_of_asks_none hasks]
      exact h.moves hmoves

/-- And the messages of a transaction. -/
lemma Bounded.performsAll {msgs : List Msg} (hmsgs : st.PerformsAll parse valString msgs st') :
    ∀ {requested : String → Dec}, st.Bounded requested →
      st'.Bounded (requestedAfter parse valString requested msgs) := by
  induction hmsgs with
  | nil => exact id
  | cons hmsg _ ih => exact fun h => ih (h.performs hmsg)

end Staking

/-! ### The update -/

/-- The dynamic minimum is at most one: before it is divided by a hundred it is the larger of a
hundred times the staking module's minimum and of what the cap leaves. -/
lemma calculateDynCommission_le_one {p : Params} {staking : Staking} {v : Validator} {minRate : Dec}
    (hp : p.validate = .ok ()) (hmin : staking.minCommissionRate ≤ Fixed.one)
    (h : calculateDynCommission p staking v = .ok minRate) : minRate ≤ Fixed.one := by
  have hcap := (Params.validate_eq_ok hp).cap_le
  obtain ⟨cap, hcap', h⟩ := bind_eq_ok.mp h
  obtain ⟨x, -, h⟩ := bind_eq_ok.mp h
  obtain ⟨factorA, -, h⟩ := bind_eq_ok.mp h
  obtain ⟨quotient, -, h⟩ := bind_eq_ok.mp h
  obtain ⟨factorB, -, h⟩ := bind_eq_ok.mp h
  obtain ⟨minComm, hminComm, h⟩ := bind_eq_ok.mp h
  obtain ⟨y, -, h⟩ := bind_eq_ok.mp h
  obtain ⟨-, rfl⟩ := Fixed.checked_eq_ok_iff.mp hcap'
  obtain ⟨-, rfl⟩ := Fixed.checked_eq_ok_iff.mp hminComm
  rw [Fixed.quoInt_eq_ok (by decide), clamp_raw] at h
  obtain rfl := Except.ok.inj h
  rw [Fixed.le_def] at hcap hmin ⊢
  refine (Rounding.tdiv_le_iff (d := 100) (by decide) (by decide)).mpr ?_
  push_cast
  omega

lemma withRates_maxRate (validator : Validator) (minRate targetRate : Dec) :
    (withRates validator minRate targetRate).commission.maxRate
      = max validator.commission.maxRate minRate := by
  rw [max_def_lt]
  rfl

/-- A validator after the update: it is bonded and got its rates, or nothing about it changed. -/
lemma Inv.updated {st st' : State} {requested : String → Dec} (h : Inv st requested)
    (hupdate : updateAllBondedValidatorRates st = .ok st') {a : String} {v' : Validator}
    (hv' : st'.staking.validators[a]? = some v') :
    (∃ v minRate, st.staking.validators[a]? = some v ∧ v.bonded = true
      ∧ calculateDynCommission st.params st.staking v = .ok minRate
      ∧ v' = withRates v minRate (requested a)
      ∧ st'.rates.getDynCommissionRate a = minRate)
    ∨ st.staking.validators[a]? = some v' ∧ v'.bonded = false := by
  obtain ⟨-, hset, hkept⟩ := updateAllBondedValidatorRates_entry hupdate
  by_cases hbonded : ∃ v, st.staking.validators[a]? = some v ∧ v.bonded = true
  · obtain ⟨v, hv, hb⟩ := hbonded
    obtain ⟨minRate, hmin, hentry⟩ := hset a v hv hb
    have hfst : st'.staking.validators[a]? = _ := congrArg Prod.fst hentry
    rw [hv', h.targets] at hfst
    exact .inl ⟨v, minRate, hv, hb, hmin, Option.some.inj hfst, congrArg Prod.snd hentry⟩
  · have hidle : ∀ v, st.staking.validators[a]? = some v → v.bonded = false := fun v hv =>
      Bool.eq_false_iff.mpr fun hb => hbonded ⟨v, hv, hb⟩
    have hfst : st'.staking.validators[a]? = st.staking.validators[a]? :=
      congrArg Prod.fst (hkept a hidle)
    rw [hv'] at hfst
    exact .inr ⟨hfst.symm, hidle v' hfst.symm⟩

/-- The update keeps the invariant. -/
lemma Inv.update {st st' : State} {requested : String → Dec} (h : Inv st requested)
    (hupdate : updateAllBondedValidatorRates st = .ok st') : Inv st' requested := by
  have hterms := (updateAllBondedValidatorRates_entry hupdate).1
  refine ⟨hterms.params ▸ h.params, ⟨hterms.minCommissionRate ▸ h.bounded.minimum, ?_⟩,
    (funext hterms.targets).trans h.targets⟩
  intro a v' hv'
  rcases h.updated hupdate hv' with ⟨v, minRate, hv, -, hmin, rfl, -⟩ | ⟨hv, -⟩
  · obtain ⟨hrate, hmax⟩ := h.bounded.rates a v hv
    rw [withRates_maxRate]
    exact ⟨hrate.trans (le_max_left _ _),
      max_le hmax (calculateDynCommission_le_one h.params h.bounded.minimum.2 hmin)⟩
  · exact h.bounded.rates a v' hv

/-! ### Runs -/

/-- The genesis. -/
lemma Inv.genesis {staking : Staking} {data : GenesisState} {st : State} (hvalid : staking.Valid)
    (h : initGenesis staking data = .ok st) : Inv st (genesisRates staking) := by
  obtain ⟨hparams, hupdate, -⟩ := initGenesis_eq_ok h
  have hbefore : Inv ⟨data.params, setTargets ∅ staking, staking⟩ (genesisRates staking) := by
    refine ⟨hparams, ⟨hvalid.minimum, fun a v hv => ?_⟩, funext fun a => ?_⟩
    · rw [genesisRates, hv]
      exact hvalid.rates a v hv
    · rw [genesisRates]
      cases hv : staking.validators[a]? with
      | none =>
          rw [getTargetCommissionRate_setTargets_of_none hv]
          simp [RateStore.getTargetCommissionRate]
      | some v => exact getTargetCommissionRate_setTargets hv ∅
  exact hbefore.update hupdate

/-- **The invariant of every run.** -/
lemma Reached.inv {st : State} {requested : String → Dec}
    (h : Reached parse valString st requested) : Inv st requested := by
  induction h with
  | genesis hvalid h => exact Inv.genesis hvalid h
  | @transaction tx requested _ hplain hperforms ih =>
      refine ⟨ih.params, Staking.Bounded.performsAll hperforms ih.bounded, ?_⟩
      rw [← ih.targets]
      exact getTargetCommissionRate_filterMsgs tx.runs hplain _
  | moves _ hmoves ih => exact ⟨ih.params, ih.bounded.moves hmoves, ih.targets⟩
  | update _ hupdate ih => exact ih.update hupdate

/-- **After each update.** In every run, right after an update, the minimum of a bonded validator
is that of its share of the power, its commission is the larger of its target and of the minimum
and within its largest rate, which is at most one, and its target is the rate it last asked for, or
had at the genesis. -/
theorem commission_of_reached {st st' : State} {requested : String → Dec}
    (h : Reached parse valString st requested)
    (hupdate : updateAllBondedValidatorRates st = .ok st') (a : String) (v : Validator)
    (hv : st'.staking.validators[a]? = some v) (hbonded : v.bonded = true) :
    calculateDynCommission st'.params st'.staking v = .ok (st'.rates.getDynCommissionRate a)
    ∧ st'.rates.getDynCommissionRate a ≤ v.commission.rate
    ∧ v.commission.rate ≤ v.commission.maxRate
    ∧ v.commission.maxRate ≤ Fixed.one
    ∧ v.commission.rate
      = max (st'.rates.getTargetCommissionRate a) (st'.rates.getDynCommissionRate a)
    ∧ st'.rates.getTargetCommissionRate a = requested a := by
  have hafter := h.inv.update hupdate
  have htarget : st'.rates.getTargetCommissionRate a = requested a := congrFun hafter.targets a
  rcases h.inv.updated hupdate hv with ⟨w, minRate, hw, -, hmin, rfl, hdyn⟩ | ⟨-, hidle⟩
  · have hrate : (withRates w minRate (requested a)).commission.rate = max (requested a) minRate :=
      withRates_rate _ _ _
    have hrequested : requested a ≤ w.commission.maxRate := (h.inv.bounded.rates a w hw).1
    rw [htarget, hdyn, hrate]
    refine ⟨?_, le_max_right _ _, ?_, (hafter.bounded.rates a _ hv).2, rfl, rfl⟩
    · exact ((updateAllBondedValidatorRates_entry hupdate).1.minimum _).trans hmin
    · rw [withRates_maxRate]
      exact max_le_max hrequested le_rfl
  · exact absurd hbonded (Bool.eq_false_iff.mp hidle)

/-- The validator with the commission an edit sets. -/
def withCommissionRate (v : Validator) (rate : Dec) : Validator :=
  { v with commission := { v.commission with rate := rate, updateTime := 1 } }

/-- An edit to ten percent. -/
def editToTen : Msg := .editValidator ⟨operatorText, some (newDecWithPrec 10 2)⟩

lemma valid_fourPercent : (soleStaking fourPercentValidator).Valid := by
  refine ⟨by decide, fun a v hv => ?_⟩
  rw [soleStaking, Staking.setValidator, getElem?_insert_ite] at hv
  split_ifs at hv with ha
  · obtain rfl := Option.some.inj hv
    decide
  · exact absurd hv (by simp)

lemma plain_editToTen : Plain oneValidator oneValidatorString [.leaf editToTen] := by
  refine ⟨by simp [MsgTree.nestedIn], fun msg a rate hmsg hasks => ?_⟩
  obtain rfl := MsgTree.leaf.inj (List.mem_singleton.mp hmsg)
  obtain ⟨rfl, rfl⟩ := Prod.mk.inj (Option.some.inj hasks)
  rfl

/-- A genesis, an edit and an update. -/
theorem commission_of_edited :
    ∃ st requested st' v, Reached oneValidator oneValidatorString st requested
      ∧ requested operatorText = newDecWithPrec 10 2
      ∧ updateAllBondedValidatorRates st = .ok st'
      ∧ st'.staking.validators[operatorText]? = some v ∧ v.bonded = true
      ∧ st'.rates.getDynCommissionRate operatorText ≤ v.commission.rate
      ∧ v.commission.rate ≤ v.commission.maxRate ∧ v.commission.maxRate ≤ Fixed.one
      ∧ st'.rates.getTargetCommissionRate operatorText = requested operatorText := by
  obtain ⟨st, hst, h⟩ := exists_of_returns
    (p := fun st : State => st.staking.validators[operatorText]?.any fun v : Validator =>
      decide (v.operatorAddress = operatorText)
      && decide (newDecWithPrec 10 2 ≤ v.commission.maxRate)
      && returns (fun _ => true) (Ante.anteHandle st.rates false [.leaf editToTen] (.ok ()))
      && returns (fun st' : State => st'.staking.validators[operatorText]?.any Validator.bonded)
        (updateAllBondedValidatorRates { st with
          rates := Post.postHandle st.rates false false [.leaf editToTen]
          staking := st.staking.setValidator (withCommissionRate v (newDecWithPrec 10 2)) }))
    (x := initGenesis (soleStaking fourPercentValidator) ⟨defaultParams, []⟩) (by decide +kernel)
  obtain ⟨v, hv, h⟩ := (Option.any_eq_true _ _).mp h
  simp only [Bool.and_eq_true, decide_eq_true_eq] at h
  obtain ⟨⟨⟨hoperator, hmax⟩, haccepted⟩, hrun⟩ := h
  obtain ⟨_, haccepted, -⟩ := exists_of_returns haccepted
  obtain ⟨st', hupdate, hv'⟩ := exists_of_returns hrun
  obtain ⟨v', hv', hbonded⟩ := (Option.any_eq_true _ _).mp hv'
  let tx : Delivered :=
    { before := st, msgs := [.leaf editToTen], accepted := haccepted, executed := [editToTen],
      runs := .leaf .nil, staking := st.staking.setValidator (withCommissionRate v (newDecWithPrec 10 2)) }
  have hperforms : st.staking.Performs oneValidator oneValidatorString editToTen tx.staking :=
    .edit rfl (by rw [hoperator]; rfl) (by rw [hoperator]; exact hv) hmax
  have hreached : Reached oneValidator oneValidatorString tx.after
      (requestedAfter oneValidator oneValidatorString
        (genesisRates (soleStaking fourPercentValidator)) tx.executed) :=
    .transaction (.genesis valid_fourPercent hst) plain_editToTen (.cons hperforms .nil)
  obtain ⟨-, hmin, hrate, hone, -, htarget⟩ :=
    commission_of_reached hreached hupdate operatorText v' hv' hbonded
  exact ⟨tx.after, _, st', v', hreached, rfl, hupdate, hv', hbonded, hmin, hrate,
    hone, htarget⟩

end ColumbusCore.Dyncomm
