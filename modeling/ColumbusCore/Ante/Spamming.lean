import ColumbusCore.Ante.Fee
import ColumbusCore.Lib.LastSeen
import ColumbusCore.Oracle.StaticChain

/-!
The decorator against oracle spam (`custom/auth/ante/spamming_prevention.go`).

Oracle transactions are free. When a transaction enters the mempool, the decorator records for each
validator the heights of its last prevote and of its last vote, and refuses a second one at the same
height. The maps have the text of the validator as their key, and they are written message by message
inside the loop that may still fail.

* `checkOracleSpamming_spec`: the messages of a call that are recorded, and where it fails;
* `checkOracleSpamming_eq_ok_iff`: the calls that are accepted;
* `rateLimited_iff`: **one prevote and one vote per validator and height are accepted, exactly where
  every validator is submitted under one text**;
* `keepsQuota_iff`: **a refused transaction leaves the maps as they are exactly when its first
  message is refused**.
-/

namespace ColumbusCore.Ante

open Go LastSeen
open Oracle (Host World MsgAggregateExchangeRatePrevote MsgAggregateExchangeRateVote validateFeeder
  accAddress valAddress)
open Std (ExtTreeMap)

variable {σ : Type}

/-! ### The decorator -/

/-- `SpammingPreventionDecorator`: the heights of the last prevote and of the last vote by the text of
the validator. -/
structure SpammingPreventionDecorator where
  oraclePrevoteMap : ExtTreeMap String ℕ
  oracleVoteMap : ExtTreeMap String ℕ

/-- `NewSpammingPreventionDecorator`. -/
def newSpammingPreventionDecorator : SpammingPreventionDecorator := ⟨∅, ∅⟩

/-- What the decorator reads of a message. -/
inductive CheckedMsg where
  | prevote (msg : MsgAggregateExchangeRatePrevote)
  | vote (msg : MsgAggregateExchangeRateVote)
  /-- Any other message. -/
  | other

/-- The message as the fee decorator sees it. -/
def CheckedMsg.toMsg : CheckedMsg → Msg
  | .prevote _ => .oracle
  | .vote _ => .oracle
  | .other => .other

/-- A case of the switch: a message that passes is recorded in the map. -/
def submit (K : Oracle.Keepers σ) (H : Host) (w : World σ) (curHeight : ℕ) (feeder validator : String)
    (refusal : String) (heights : ExtTreeMap String ℕ) : Outcome (ExtTreeMap String ℕ) := do
  let feederAddr ← accAddress H feeder "decoding bech32 failed"
  let valAddr ← valAddress H validator "decoding bech32 failed"
  validateFeeder K H w feederAddr valAddr
  failIf (heights[validator]? = some curHeight) refusal
  pure (heights.insert validator curHeight)

/-- `CheckOracleSpamming`. The maps are written in place, also where a later message fails; the first
message that is not of the oracle ends the loop. -/
def checkOracleSpamming (K : Oracle.Keepers σ) (H : Host) (w : World σ) (curHeight : ℕ) :
    SpammingPreventionDecorator → List CheckedMsg → SpammingPreventionDecorator × Outcome Unit
  | spd, [] => (spd, pure ())
  | spd, .prevote msg :: msgs =>
      match submit K H w curHeight msg.feeder msg.validator
        "the validator has already been submitted prevote at the current height: invalid request"
        spd.oraclePrevoteMap with
      | .error e => (spd, .error e)
      | .ok heights =>
          checkOracleSpamming K H w curHeight { spd with oraclePrevoteMap := heights } msgs
  | spd, .vote msg :: msgs =>
      match submit K H w curHeight msg.feeder msg.validator
        "the validator has already been submitted vote at the current height: invalid request"
        spd.oracleVoteMap with
      | .error e => (spd, .error e)
      | .ok heights =>
          checkOracleSpamming K H w curHeight { spd with oracleVoteMap := heights } msgs
  | spd, .other :: _ => (spd, pure ())

/-- A call of the decorator: the context, the messages, and what the next decorators answer. -/
structure Call (σ : Type) where
  world : World σ
  height : ℕ
  isCheckTx : Bool
  isReCheckTx : Bool
  simulate : Bool
  msgs : List CheckedMsg
  next : Outcome Unit

/-- `AnteHandle`. -/
def SpammingPreventionDecorator.anteHandle (K : Oracle.Keepers σ) (H : Host)
    (spd : SpammingPreventionDecorator) (call : Call σ) :
    SpammingPreventionDecorator × Outcome Unit :=
  if call.isReCheckTx then (spd, call.next)
  else if !call.simulate && call.isCheckTx then
    match checkOracleSpamming K H call.world call.height spd call.msgs with
    | (spd, .error e) => (spd, .error e)
    | (spd, .ok ()) => (spd, call.next)
  else (spd, call.next)

/-! ### Submissions -/

/-- The two kinds of oracle messages. -/
inductive Kind where
  | prevote
  | vote
  deriving DecidableEq

/-- What the loop reads of an oracle message. -/
structure Submission where
  kind : Kind
  feeder : String
  validator : String

/-- A submission is recorded under its kind and the text of the validator. -/
def Submission.key (s : Submission) : Kind × String := (s.kind, s.validator)

/-- The submission of an oracle message. -/
def CheckedMsg.submission : CheckedMsg → Option Submission
  | .prevote msg => some ⟨.prevote, msg.feeder, msg.validator⟩
  | .vote msg => some ⟨.vote, msg.feeder, msg.validator⟩
  | .other => none

/-- The submissions before the first message that is not of the oracle. -/
def leading : List CheckedMsg → List Submission
  | [] => []
  | msg :: msgs =>
      match msg.submission with
      | some s => s :: leading msgs
      | none => []

/-- In an oracle transaction all messages are submissions. -/
lemma leading_of_isOracleTx {msgs : List CheckedMsg}
    (h : isOracleTx (msgs.map CheckedMsg.toMsg) = true) :
    leading msgs = msgs.filterMap CheckedMsg.submission := by
  have hall : ∀ msg ∈ msgs, msg.toMsg.isOracle = true := by
    simpa using ((Bool.and_eq_true _ _).mp h).2
  clear h
  induction msgs with
  | nil => rfl
  | cons msg msgs ih =>
      obtain ⟨hmsg, hmsgs⟩ := List.forall_mem_cons.mp hall
      cases msg with
      | prevote msg => exact congrArg (List.cons _) (ih hmsgs)
      | vote msg => exact congrArg (List.cons _) (ih hmsgs)
      | other => exact absurd hmsg Bool.false_ne_true

namespace SpammingPreventionDecorator

/-- The map of a kind. -/
def heights (spd : SpammingPreventionDecorator) : Kind → ExtTreeMap String ℕ
  | .prevote => spd.oraclePrevoteMap
  | .vote => spd.oracleVoteMap

/-- The decorator with another map of a kind. -/
def withHeights (spd : SpammingPreventionDecorator) (kind : Kind) (heights : ExtTreeMap String ℕ) :
    SpammingPreventionDecorator :=
  match kind with
  | .prevote => { spd with oraclePrevoteMap := heights }
  | .vote => { spd with oracleVoteMap := heights }

/-- The height recorded under a key. -/
def last (spd : SpammingPreventionDecorator) (key : Kind × String) : Option ℕ :=
  (spd.heights key.1)[key.2]?

/-- A decorator is what it has recorded. -/
lemma last_injective : Function.Injective last := by
  intro spd spd' h
  have hheights : ∀ kind, spd.heights kind = spd'.heights kind := fun kind =>
    ExtTreeMap.ext_getElem? fun validator => congrFun h (kind, validator)
  cases spd
  cases spd'
  exact congrArg₂ mk (hheights .prevote) (hheights .vote)

/-- A record is the only thing that changes. -/
lemma last_withHeights (spd : SpammingPreventionDecorator) (kind : Kind) (validator : String)
    (height : ℕ) : (spd.withHeights kind ((spd.heights kind).insert validator height)).last
      = Function.update spd.last (kind, validator) (some height) := by
  funext ⟨kind', validator'⟩
  simp only [Function.update_apply, Prod.mk.injEq, last]
  cases kind <;> cases kind' <;>
    simp [withHeights, heights, getElem?_insert_ite, eq_comm (a := validator)]

end SpammingPreventionDecorator

/-! ### A chain with two validators -/

/-- The first validator, in its two spellings, and its feeder. -/
def firstOperator : String := "terravaloper1weskc6tyv96x7u3dvykk7e3dw3jhyunpwz6935"

@[inherit_doc firstOperator]
def firstOperatorUpper : String := "TERRAVALOPER1WESKC6TYV96X7U3DVYKK7E3DW3JHYUNPWZ6935"

@[inherit_doc firstOperator]
def firstFeeder : String := "terra1weskc6tyv96x7u3dvykk7e3dw3jhyunpwdkcp8"

/-- A host that reads the addresses of two validators, and the first operator in upper case too. -/
def bothCasesHost : Host :=
  Oracle.tableHost ⟨Oracle.twoAccounts
    ++ [("validator-a-of-terra", firstOperatorUpper, upperCase firstFeeder)], [], []⟩

/-- A chain on which it is bonded. -/
def bondedWorld : World (List Oracle.Validator) where
  store := Oracle.emptyStore Oracle.defaultParams
  ext := Oracle.twoValidators

/-- A prevote of the validator. -/
def firstPrevote : CheckedMsg :=
  .prevote ⟨String.ofList (List.replicate 40 '0'), firstFeeder, firstOperator⟩

/-! ### One call -/

section Call

variable {K : Oracle.Keepers σ} {H : Host} {w : World σ} {height : ℕ}
  {spd : SpammingPreventionDecorator} {msgs : List CheckedMsg} {s : Submission}

/-- The texts of the submission are addresses, and the feeder may submit for the validator. -/
def Submission.Permitted (K : Oracle.Keepers σ) (H : Host) (w : World σ) (s : Submission) : Prop :=
  ∃ feeder validator, H.accAddressFromBech32 s.feeder = some feeder
    ∧ H.valAddressFromBech32 s.validator = some validator
    ∧ validateFeeder K H w feeder validator = .ok ()

/-- A submission that passes the loop in a state. -/
def Submission.Admissible (K : Oracle.Keepers σ) (H : Host) (w : World σ) (height : ℕ)
    (spd : SpammingPreventionDecorator) (s : Submission) : Prop :=
  s.Permitted K H w ∧ spd.last s.key ≠ some height

/-- The message of a second submission. -/
def Kind.refusal : Kind → String
  | .prevote =>
      "the validator has already been submitted prevote at the current height: invalid request"
  | .vote =>
      "the validator has already been submitted vote at the current height: invalid request"

/-- The case of the switch for a submission. -/
def Submission.submitted (K : Oracle.Keepers σ) (H : Host) (w : World σ) (height : ℕ)
    (spd : SpammingPreventionDecorator) (s : Submission) : Outcome (ExtTreeMap String ℕ) :=
  submit K H w height s.feeder s.validator s.kind.refusal (spd.heights s.kind)

lemma submitted_eq_ok_iff {map : ExtTreeMap String ℕ} :
    s.submitted K H w height spd = .ok map
      ↔ s.Admissible K H w height spd ∧ map = (spd.heights s.kind).insert s.validator height := by
  constructor
  · intro h
    obtain ⟨feeder, hfeeder, h⟩ := bind_eq_ok.mp h
    obtain ⟨validator, hvalidator, h⟩ := bind_eq_ok.mp h
    obtain ⟨hpermission, h⟩ := unit_bind_eq_ok.mp h
    obtain ⟨hfresh, h⟩ := failIf_bind_eq_ok.mp h
    exact ⟨⟨⟨feeder, validator, Oracle.accAddress_eq_ok.mp hfeeder,
      Oracle.valAddress_eq_ok.mp hvalidator, hpermission⟩, hfresh⟩, (Except.ok.inj h).symm⟩
  · rintro ⟨⟨⟨feeder, validator, hfeeder, hvalidator, hpermission⟩, hfresh⟩, rfl⟩
    refine bind_eq_ok.mpr ⟨feeder, Oracle.accAddress_eq_ok.mpr hfeeder, ?_⟩
    refine bind_eq_ok.mpr ⟨validator, Oracle.valAddress_eq_ok.mpr hvalidator, ?_⟩
    exact unit_bind_eq_ok.mpr ⟨hpermission, failIf_bind_eq_ok.mpr ⟨hfresh, rfl⟩⟩

/-- The loop, one message at a time. -/
lemma checkOracleSpamming_cons (msg : CheckedMsg) :
    checkOracleSpamming K H w height spd (msg :: msgs) =
      match msg.submission with
      | none => (spd, pure ())
      | some s =>
          match s.submitted K H w height spd with
          | .error e => (spd, .error e)
          | .ok map => checkOracleSpamming K H w height (spd.withHeights s.kind map) msgs := by
  cases msg <;> rfl

/-- What a call does with its submissions: some of them pass and are recorded; either these are all,
or the next one is refused. -/
structure Recorded (K : Oracle.Keepers σ) (H : Host) (w : World σ) (height : ℕ)
    (spd spd' : SpammingPreventionDecorator) (r : Outcome Unit) (passed rest : List Submission) :
    Prop where
  permitted : ∀ s ∈ passed, s.Permitted K H w
  recorded : Passed spd.last (passed.map fun s => (s.key, height)) spd'.last
  result : (rest = [] ∧ r = .ok ())
    ∨ ∃ s after e, rest = s :: after ∧ r = .error e ∧ ¬ s.Admissible K H w height spd'

/-- **The loop** splits the submissions before the first other message. -/
theorem checkOracleSpamming_spec (K : Oracle.Keepers σ) (H : Host) (w : World σ) (height : ℕ)
    (spd : SpammingPreventionDecorator) (msgs : List CheckedMsg) :
    ∃ passed rest, leading msgs = passed ++ rest
      ∧ Recorded K H w height spd (checkOracleSpamming K H w height spd msgs).1
        (checkOracleSpamming K H w height spd msgs).2 passed rest := by
  induction msgs generalizing spd with
  | nil => exact ⟨[], [], rfl, by simp, .nil _, .inl ⟨rfl, rfl⟩⟩
  | cons msg msgs ih =>
      rw [checkOracleSpamming_cons, leading]
      cases msg.submission with
      | none => exact ⟨[], [], rfl, by simp, .nil _, .inl ⟨rfl, rfl⟩⟩
      | some s =>
          dsimp only
          cases hs : s.submitted K H w height spd with
          | error e =>
              refine ⟨[], s :: leading msgs, rfl, by simp, .nil _, .inr ⟨s, _, e, rfl, rfl, ?_⟩⟩
              intro hadm
              rw [submitted_eq_ok_iff.mpr ⟨hadm, rfl⟩] at hs
              cases hs
          | ok map =>
              obtain ⟨⟨hpermitted, hfresh⟩, rfl⟩ := submitted_eq_ok_iff.mp hs
              obtain ⟨passed, rest, hsplit, hrec⟩ := ih (spd.withHeights s.kind
                ((spd.heights s.kind).insert s.validator height))
              have hrecorded := hrec.recorded
              rw [SpammingPreventionDecorator.last_withHeights] at hrecorded
              refine ⟨s :: passed, rest, congrArg (List.cons s) hsplit, ?_, .cons hfresh hrecorded,
                hrec.result⟩
              exact List.forall_mem_cons.mpr ⟨hpermitted, hrec.permitted⟩

section Recorded

variable {spd' : SpammingPreventionDecorator} {r : Outcome Unit} {passed rest : List Submission}

/-- The submissions that pass are distinct and new, and the height is recorded for them. -/
lemma Recorded.passed_at (h : Recorded K H w height spd spd' r passed rest) :
    (∀ k ∈ passed.map Submission.key, spd.last k ≠ some height)
      ∧ (passed.map Submission.key).Nodup
      ∧ (∀ k ∈ passed.map Submission.key, spd'.last k = some height)
      ∧ ∀ k ∉ passed.map Submission.key, spd'.last k = spd.last k := by
  have hrecorded := h.recorded
  rw [← Function.comp_def (fun k => (k, height)), ← List.map_map, passed_at_iff] at hrecorded
  obtain ⟨hfresh, hnodup, hlast⟩ := hrecorded
  exact ⟨hfresh, hnodup, fun k hk => (congrFun hlast k).trans (if_pos hk),
    fun k hk => (congrFun hlast k).trans (if_neg hk)⟩

lemma Recorded.admissible (h : Recorded K H w height spd spd' r passed rest) (hs : s ∈ passed) :
    s.Admissible K H w height spd :=
  ⟨h.permitted s hs, h.passed_at.1 _ (List.mem_map_of_mem hs)⟩

/-- A call changes the maps exactly when a submission passes. -/
lemma Recorded.eq_iff (h : Recorded K H w height spd spd' r passed rest) :
    spd' = spd ↔ passed = [] := by
  obtain ⟨hfresh, -, hnew, hold⟩ := h.passed_at
  constructor
  · rintro rfl
    refine List.eq_nil_iff_forall_not_mem.mpr fun s hs => ?_
    have hmem : s.key ∈ passed.map Submission.key := List.mem_map_of_mem hs
    exact hfresh s.key hmem (hnew s.key hmem)
  · rintro rfl
    exact SpammingPreventionDecorator.last_injective (funext fun k => hold k List.not_mem_nil)

/-- A submission that is refused was not admissible before the call, or repeats one that passed. -/
lemma Recorded.refused (h : Recorded K H w height spd spd' r passed rest)
    (hs : ¬ s.Admissible K H w height spd') :
    ¬ s.Admissible K H w height spd ∨ s.key ∈ passed.map Submission.key := by
  by_cases hmem : s.key ∈ passed.map Submission.key
  · exact .inr hmem
  · refine .inl fun hadm => hs ⟨hadm.1, ?_⟩
    rw [h.passed_at.2.2.2 s.key hmem]
    exact hadm.2

end Recorded

/-- A call is accepted exactly when its submissions before the first other message are admissible and
no two of them have the same key. -/
theorem checkOracleSpamming_eq_ok_iff : (checkOracleSpamming K H w height spd msgs).2 = .ok ()
    ↔ (∀ s ∈ leading msgs, s.Admissible K H w height spd)
      ∧ ((leading msgs).map Submission.key).Nodup := by
  obtain ⟨passed, rest, hsplit, hrec⟩ := checkOracleSpamming_spec K H w height spd msgs
  rw [hsplit]
  rcases hrec.result with ⟨rfl, hr⟩ | ⟨s, after, e, rfl, hr, hs⟩
  · rw [List.append_nil]
    exact iff_of_true hr ⟨fun s hs => hrec.admissible hs, hrec.passed_at.2.1⟩
  · refine iff_of_false (fun hok => by cases hr.symm.trans hok) ?_
    rintro ⟨hadm, hnodup⟩
    rcases hrec.refused hs with hs | hs
    · exact hs (hadm s (by simp))
    · rw [List.map_append, List.map_cons] at hnodup
      exact (List.nodup_append.mp hnodup).2.2 _ hs _ List.mem_cons_self rfl

/-- A call that is refused leaves the maps as they are: a message that would have been accepted before
is still accepted at that height. -/
def KeepsQuota (K : Oracle.Keepers σ) (H : Host) (w : World σ) (height : ℕ)
    (spd : SpammingPreventionDecorator) (msgs : List CheckedMsg) : Prop :=
  ∀ spd' e, checkOracleSpamming K H w height spd msgs = (spd', .error e) →
    spd' = spd ∧ ∀ w' msg, (checkOracleSpamming K H w' height spd [msg]).2 = .ok () →
      (checkOracleSpamming K H w' height spd' [msg]).2 = .ok ()

/-- **The quota of a refused transaction.** The maps stay as they are exactly when the first
submission is refused, or when none is: all are admissible in the state before, and no two of them
are of one kind and one validator text. -/
theorem keepsQuota_iff (K : Oracle.Keepers σ) (H : Host) (w : World σ) (height : ℕ)
    (spd : SpammingPreventionDecorator) (msgs : List CheckedMsg) :
    KeepsQuota K H w height spd msgs ↔
      (∃ s ∈ (leading msgs).head?, ¬ s.Admissible K H w height spd)
      ∨ (∀ s ∈ leading msgs, s.Admissible K H w height spd)
        ∧ ((leading msgs).map Submission.key).Nodup := by
  obtain ⟨passed, rest, hsplit, hrec⟩ := checkOracleSpamming_spec K H w height spd msgs
  rw [← checkOracleSpamming_eq_ok_iff]
  rcases hrec.result with ⟨-, hr⟩ | ⟨s, after, e, rfl, hr, hs⟩
  · refine iff_of_true (fun spd' e h => ?_) (.inr hr)
    rw [h] at hr
    cases hr
  · -- the call is refused, so it keeps the quota exactly when nothing passed before
    have hkeeps : KeepsQuota K H w height spd msgs ↔ passed = [] := by
      rw [← hrec.eq_iff]
      constructor
      · intro h
        exact (h _ e (Prod.ext rfl hr)).1
      · intro h spd' e' hrun
        obtain rfl : spd' = spd := (congrArg Prod.fst hrun).symm.trans h
        exact ⟨rfl, fun _ _ hmsg => hmsg⟩
    have hno : ¬ (checkOracleSpamming K H w height spd msgs).2 = .ok () := fun hok => by
      cases hr.symm.trans hok
    rw [hkeeps, or_iff_left hno, hsplit]
    cases passed with
    | nil =>
        rcases hrec.refused hs with hs | hs
        · exact iff_of_true rfl ⟨s, rfl, hs⟩
        · cases hs
    | cons first passed =>
        refine iff_of_false (List.cons_ne_nil _ _) ?_
        rintro ⟨s, hhead, hs⟩
        obtain rfl := Option.some.inj hhead
        exact hs (hrec.admissible List.mem_cons_self)

/-- A transaction with the same prevote twice is refused. The prevote alone was accepted before it,
and is refused after it. -/
theorem repeatedPrevote_uses_quota :
    ¬ KeepsQuota Oracle.staticKeepers bothCasesHost bondedWorld 5 newSpammingPreventionDecorator
      [firstPrevote, firstPrevote]
    ∧ (checkOracleSpamming Oracle.staticKeepers bothCasesHost bondedWorld 5
        newSpammingPreventionDecorator [firstPrevote]).2 = .ok ()
    ∧ (checkOracleSpamming Oracle.staticKeepers bothCasesHost bondedWorld 5
        (checkOracleSpamming Oracle.staticKeepers bothCasesHost bondedWorld 5
          newSpammingPreventionDecorator [firstPrevote, firstPrevote]).1 [firstPrevote]).2
      = .error (.error (Kind.refusal .prevote)) := by
  have htwice : (checkOracleSpamming Oracle.staticKeepers bothCasesHost bondedWorld 5
      newSpammingPreventionDecorator [firstPrevote, firstPrevote]).2
      = .error (.error (Kind.refusal .prevote)) := eq_of_failsWith (by decide +kernel)
  have hafter : (checkOracleSpamming Oracle.staticKeepers bothCasesHost bondedWorld 5
      (checkOracleSpamming Oracle.staticKeepers bothCasesHost bondedWorld 5
        newSpammingPreventionDecorator [firstPrevote, firstPrevote]).1 [firstPrevote]).2
      = .error (.error (Kind.refusal .prevote)) := eq_of_failsWith (by decide +kernel)
  obtain ⟨⟨⟩, hbefore, -⟩ := exists_of_returns (p := fun _ : Unit => true)
    (x := (checkOracleSpamming Oracle.staticKeepers bothCasesHost bondedWorld 5
      newSpammingPreventionDecorator [firstPrevote]).2) (by decide +kernel)
  refine ⟨fun h => ?_, hbefore, hafter⟩
  have hstill := (h _ _ (Prod.ext rfl htwice)).2 bondedWorld firstPrevote hbefore
  cases hafter.symm.trans hstill

end Call

/-! ### Sequences of calls -/

section Runs

variable {K : Oracle.Keepers σ} {H : Host} {spd : SpammingPreventionDecorator} {call : Call σ}
  {calls : List (Call σ)}

/-- The check of a transaction that enters the mempool. -/
def Call.isNew (call : Call σ) : Bool := !call.isReCheckTx && (!call.simulate && call.isCheckTx)

/-- The submissions of a transaction. -/
def Call.submissions (call : Call σ) : List Submission :=
  call.msgs.filterMap CheckedMsg.submission

/-- The submissions of a call that accepts a new oracle transaction, with their height. -/
def acceptedSubmissions (K : Oracle.Keepers σ) (H : Host) (spd : SpammingPreventionDecorator)
    (call : Call σ) : List (Submission × ℕ) :=
  match (spd.anteHandle K H call).2 with
  | .ok () =>
      if call.isNew && isOracleTx (call.msgs.map CheckedMsg.toMsg)
      then call.submissions.map fun s => (s, call.height) else []
  | .error _ => []

/-- The submissions that are accepted along a sequence of calls. -/
def acceptedRun (K : Oracle.Keepers σ) (H : Host) :
    SpammingPreventionDecorator → List (Call σ) → List (Submission × ℕ)
  | _, [] => []
  | spd, call :: calls =>
      acceptedSubmissions K H spd call ++ acceptedRun K H (spd.anteHandle K H call).1 calls

lemma anteHandle_new (h : call.isNew = true) : spd.anteHandle K H call
    = ((checkOracleSpamming K H call.world call.height spd call.msgs).1,
      (checkOracleSpamming K H call.world call.height spd call.msgs).2 >>= fun _ => call.next) := by
  obtain ⟨hrecheck, hcheck⟩ := (Bool.and_eq_true _ _).mp h
  rw [SpammingPreventionDecorator.anteHandle, if_neg (by simpa using hrecheck), if_pos hcheck]
  rcases checkOracleSpamming K H call.world call.height spd call.msgs with ⟨spd', _ | ⟨⟩⟩ <;> rfl

lemma anteHandle_of_not_new (h : ¬ call.isNew = true) :
    spd.anteHandle K H call = (spd, call.next) := by
  rw [SpammingPreventionDecorator.anteHandle]
  by_cases hrecheck : call.isReCheckTx = true
  · rw [if_pos hrecheck]
  · rw [if_neg hrecheck, if_neg fun hcheck => h ?_]
    rw [Call.isNew, hcheck, Bool.eq_false_iff.mpr hrecheck]
    rfl

/-- A call that accepts submissions is the check of a new oracle transaction, and passes. -/
lemma mem_acceptedSubmissions {e : Submission × ℕ} (he : e ∈ acceptedSubmissions K H spd call) :
    call.isNew = true ∧ isOracleTx (call.msgs.map CheckedMsg.toMsg) = true
      ∧ (spd.anteHandle K H call).2 = .ok ()
      ∧ acceptedSubmissions K H spd call = call.submissions.map fun s => (s, call.height) := by
  rw [acceptedSubmissions] at he ⊢
  cases hr : (spd.anteHandle K H call).2 with
  | error e => simp [hr] at he
  | ok u =>
      rw [hr] at he
      dsimp only at he ⊢
      by_cases hcond : (call.isNew && isOracleTx (call.msgs.map CheckedMsg.toMsg)) = true
      · obtain ⟨hnew, horacle⟩ := (Bool.and_eq_true _ _).mp hcond
        exact ⟨hnew, horacle, rfl, if_pos hcond⟩
      · rw [if_neg hcond] at he
        cases he

/-- What a call records contains what it accepts. -/
lemma exists_passed_of_call (spd : SpammingPreventionDecorator) (call : Call σ) :
    ∃ passed : List Submission,
      Passed spd.last (passed.map fun s => (s.key, call.height)) (spd.anteHandle K H call).1.last
      ∧ (acceptedSubmissions K H spd call).Sublist (passed.map fun s => (s, call.height))
      ∧ ∀ s ∈ passed, s.Permitted K H call.world := by
  by_cases hnew : call.isNew = true
  · obtain ⟨passed, rest, hsplit, hrec⟩ :=
      checkOracleSpamming_spec K H call.world call.height spd call.msgs
    rw [anteHandle_new hnew]
    refine ⟨passed, hrec.recorded, ?_, hrec.permitted⟩
    rcases (acceptedSubmissions K H spd call).eq_nil_or_concat with hnil | ⟨l, e, hl⟩
    · rw [hnil]
      exact List.nil_sublist _
    · -- the call accepts, so that all submissions passed
      obtain ⟨-, horacle, hok, hacc⟩ := mem_acceptedSubmissions (e := e) (by rw [hl]; simp)
      rw [anteHandle_new hnew] at hok
      obtain ⟨hcheck, -⟩ := unit_bind_eq_ok.mp hok
      rcases hrec.result with ⟨rfl, -⟩ | ⟨s, after, e, -, hr, -⟩
      · rw [hacc, Call.submissions, ← leading_of_isOracleTx horacle, hsplit, List.append_nil]
      · cases hr.symm.trans hcheck
  · rw [anteHandle_of_not_new hnew]
    refine ⟨[], .nil _, ?_, by simp⟩
    rw [List.map_nil, List.sublist_nil]
    refine List.eq_nil_iff_forall_not_mem.mpr fun e he => hnew (mem_acceptedSubmissions he).1

/-- What a sequence of calls records, in order, with the heights of the calls. -/
structure RecordedRun (H : Host) (spd : SpammingPreventionDecorator) (calls : List (Call σ))
    (passed : List (Submission × ℕ)) : Prop where
  recorded : ∃ last', Passed spd.last (passed.map fun e => (e.1.key, e.2)) last'
  height : ∀ e ∈ passed, ∃ call ∈ calls, e.2 = call.height
  operator : ∀ e ∈ passed, ∃ operator, H.valAddressFromBech32 e.1.validator = some operator
  sorted : calls.Pairwise (fun call call' => call.height ≤ call'.height) →
    passed.Pairwise fun e e' => e.2 ≤ e'.2

/-- What a sequence of calls records contains what it accepts. -/
lemma exists_recordedRun (K : Oracle.Keepers σ) (H : Host) (spd : SpammingPreventionDecorator)
    (calls : List (Call σ)) :
    ∃ passed, RecordedRun H spd calls passed ∧ (acceptedRun K H spd calls).Sublist passed := by
  induction calls generalizing spd with
  | nil => exact ⟨[], ⟨⟨_, .nil _⟩, by simp, by simp, fun _ => .nil⟩, List.nil_sublist _⟩
  | cons call calls ih =>
      obtain ⟨first, hfirst, hsub, hpermitted⟩ := exists_passed_of_call (K := K) (H := H) spd call
      obtain ⟨later, hlater, hsub'⟩ := ih (spd.anteHandle K H call).1
      obtain ⟨last', hlast'⟩ := hlater.recorded
      refine ⟨first.map (fun s => (s, call.height)) ++ later, ⟨⟨last', ?_⟩, ?_, ?_, ?_⟩,
        hsub.append hsub'⟩
      · rw [List.map_append, List.map_map]
        exact hfirst.append hlast'
      · intro e he
        rcases List.mem_append.mp he with he | he
        · obtain ⟨s, -, rfl⟩ := List.mem_map.mp he
          exact ⟨call, List.mem_cons_self, rfl⟩
        · obtain ⟨call', hcall', heq⟩ := hlater.height e he
          exact ⟨call', List.mem_cons_of_mem _ hcall', heq⟩
      · intro e he
        rcases List.mem_append.mp he with he | he
        · obtain ⟨s, hs, rfl⟩ := List.mem_map.mp he
          obtain ⟨-, operator, -, hoperator, -⟩ := hpermitted s hs
          exact ⟨operator, hoperator⟩
        · exact hlater.operator e he
      · intro hsorted
        obtain ⟨hhead, hsorted⟩ := List.pairwise_cons.mp hsorted
        refine List.pairwise_append.mpr ⟨?_, hlater.sorted hsorted, ?_⟩
        · exact List.pairwise_map.mpr (List.pairwise_of_forall fun _ _ => le_rfl)
        · intro e he e' he'
          obtain ⟨s, -, rfl⟩ := List.mem_map.mp he
          obtain ⟨call', hcall', heq⟩ := hlater.height e' he'
          rw [heq]
          exact hhead call' hcall'

/-- The submissions accepted are those of the calls. -/
lemma mem_acceptedRun {e : Submission × ℕ} (he : e ∈ acceptedRun K H spd calls) :
    ∃ call ∈ calls, e.1 ∈ call.submissions := by
  induction calls generalizing spd with
  | nil => cases he
  | cons call calls ih =>
      rcases List.mem_append.mp he with he | he
      · obtain ⟨-, -, -, hacc⟩ := mem_acceptedSubmissions he
        rw [hacc] at he
        obtain ⟨s, hs, rfl⟩ := List.mem_map.mp he
        exact ⟨call, List.mem_cons_self, hs⟩
      · obtain ⟨call', hcall', hs⟩ := ih he
        exact ⟨call', List.mem_cons_of_mem _ hcall', hs⟩

/-- The rate limit, for transactions that write their validators with some texts: along every sequence
of calls with heights in order, no two submissions that are accepted are of one kind, one operator
and one height. -/
def RateLimited (K : Oracle.Keepers σ) (H : Host) (texts : Set String) : Prop :=
  ∀ calls : List (Call σ), calls.Pairwise (fun call call' => call.height ≤ call'.height) →
    (∀ call ∈ calls, ∀ s ∈ call.submissions, s.validator ∈ texts) →
    ((acceptedRun K H newSpammingPreventionDecorator calls).map fun e =>
      (e.1.kind, H.valAddressFromBech32 e.1.validator, e.2)).Nodup

/-- Where every operator has one text, the limit on texts is one on operators. -/
lemma rateLimited_of_unique {texts : Set String}
    (hunique : ∀ a ∈ texts, ∀ b ∈ texts, SameAddress H.valAddressFromBech32 a b → a = b) :
    RateLimited K H texts := by
  intro calls hsorted htexts
  obtain ⟨passed, hrun, hsub⟩ := exists_recordedRun K H newSpammingPreventionDecorator calls
  obtain ⟨last', hpassed⟩ := hrun.recorded
  have hnodup : ((acceptedRun K H newSpammingPreventionDecorator calls).map
      fun e => (e.1.key, e.2)).Nodup :=
    (hpassed.nodup (List.pairwise_map.mpr (hrun.sorted hsorted))).sublist (hsub.map _)
  refine List.pairwise_map.mpr ((List.pairwise_map.mp hnodup).imp_of_mem ?_)
  intro e e' he he' hne heq
  obtain ⟨hkind, hoperator, hheight⟩ : e.1.kind = e'.1.kind
      ∧ H.valAddressFromBech32 e.1.validator = H.valAddressFromBech32 e'.1.validator
      ∧ e.2 = e'.2 := by simpa using heq
  obtain ⟨operator, hparse⟩ := hrun.operator e (hsub.subset he)
  obtain ⟨call, hcall, hs⟩ := mem_acceptedRun he
  obtain ⟨call', hcall', hs'⟩ := mem_acceptedRun he'
  have hvalidator : e.1.validator = e'.1.validator := hunique _ (htexts call hcall _ hs)
    _ (htexts call' hcall' _ hs') ⟨operator, hparse, hoperator ▸ hparse⟩
  exact hne (Prod.ext (Prod.ext hkind hvalidator) hheight)

lemma acceptedRun_singleton (hnew : call.isNew = true)
    (horacle : isOracleTx (call.msgs.map CheckedMsg.toMsg) = true) (hnext : call.next = .ok ())
    (hok : (checkOracleSpamming K H call.world call.height spd call.msgs).2 = .ok ()) :
    acceptedRun K H spd [call] = call.submissions.map fun s => (s, call.height) := by
  rw [acceptedRun, acceptedRun, List.append_nil, acceptedSubmissions, anteHandle_new hnew, hok, hnext]
  simp only [ok_bind, hnew, horacle, Bool.and_self, if_true]

/-- A transaction with a prevote for each of some texts, when it enters the mempool. -/
def prevoteCall (w : World σ) (height : ℕ) (feeder : String) (validators : List String) :
    Call σ where
  world := w
  height := height
  isCheckTx := true
  isReCheckTx := false
  simulate := false
  msgs := validators.map fun validator =>
    .prevote ⟨String.ofList (List.replicate 40 '0'), feeder, validator⟩
  next := .ok ()

/-- A chain on which an account feeds for an operator. -/
def delegatedWorld (operator : ValAddress) (account : AccAddress) (s : σ) : World σ where
  store := { Oracle.emptyStore Oracle.defaultParams with
    feederDelegations := (∅ : ExtTreeMap ValAddress AccAddress).insert operator account }
  ext := s

lemma validateFeeder_delegatedWorld {s : σ} {operator : ValAddress} {v : Oracle.Validator}
    (hv : K.validator s operator = some v) (hbonded : v.bonded = true) (account : AccAddress) :
    validateFeeder K H (delegatedWorld operator account s) account operator = .ok () := by
  refine failIf_bind_eq_ok.mpr ⟨?_, ?_⟩
  · rintro ⟨-, hother⟩
    exact hother (by rw [delegatedWorld, getD_insert_ite, if_pos rfl])
  · rw [delegatedWorld]
    dsimp only
    rw [hv]
    exact if_pos hbonded

/-- Two texts of one operator pass in one transaction. -/
lemma acceptedRun_two_texts {w : World σ} {feeder a b : String} (hne : a ≠ b)
    (ha : (⟨.prevote, feeder, a⟩ : Submission).Permitted K H w)
    (hb : (⟨.prevote, feeder, b⟩ : Submission).Permitted K H w) :
    acceptedRun K H newSpammingPreventionDecorator [prevoteCall w 0 feeder [a, b]]
      = [(⟨.prevote, feeder, a⟩, 0), (⟨.prevote, feeder, b⟩, 0)] := by
  have hnew : ∀ key, newSpammingPreventionDecorator.last key ≠ some 0 := by
    rintro ⟨_ | _, validator⟩ <;> exact fun h => by
      simp [SpammingPreventionDecorator.last, SpammingPreventionDecorator.heights,
        newSpammingPreventionDecorator] at h
  refine acceptedRun_singleton rfl rfl rfl (checkOracleSpamming_eq_ok_iff.mpr ⟨fun s hs => ?_, ?_⟩)
  · rcases List.mem_pair.mp hs with rfl | rfl
    · exact ⟨ha, hnew _⟩
    · exact ⟨hb, hnew _⟩
  · refine List.nodup_cons.mpr ⟨fun hmem => ?_, List.nodup_singleton _⟩
    exact hne (Prod.mk.inj (List.mem_singleton.mp hmem)).2

/-- **The rate limit.** At most one prevote and one vote per operator and height are accepted exactly
when the texts in use have at most one text for each operator. -/
theorem rateLimited_iff {feeder : String} {account : AccAddress}
    (hfeeder : H.accAddressFromBech32 feeder = some account)
    (hbonded : ∀ operator, ∃ s v, K.validator s operator = some v ∧ v.bonded = true)
    (texts : Set String) :
    RateLimited K H texts
      ↔ ∀ a ∈ texts, ∀ b ∈ texts, SameAddress H.valAddressFromBech32 a b → a = b := by
  refine ⟨fun h a ha b hb hab => ?_, rateLimited_of_unique⟩
  by_contra hne
  obtain ⟨operator, hpa, hpb⟩ := hab
  obtain ⟨s, v, hv, hbond⟩ := hbonded operator
  -- one transaction with a prevote under each text
  have hpermitted : ∀ text, H.valAddressFromBech32 text = some operator →
      (⟨.prevote, feeder, text⟩ : Submission).Permitted K H (delegatedWorld operator account s) :=
    fun text htext =>
      ⟨account, operator, hfeeder, htext, validateFeeder_delegatedWorld hv hbond account⟩
  have htexts : ∀ call ∈ [prevoteCall (delegatedWorld operator account s) 0 feeder [a, b]],
      ∀ s ∈ call.submissions, s.validator ∈ texts := by
    intro call hcall s hs
    obtain rfl := List.mem_singleton.mp hcall
    rcases List.mem_pair.mp hs with rfl | rfl
    · exact ha
    · exact hb
  have hnodup := h _ (List.pairwise_singleton _ _) htexts
  rw [acceptedRun_two_texts hne (hpermitted a hpa) (hpermitted b hpb)] at hnodup
  refine (List.nodup_cons.mp hnodup).1 (List.mem_singleton.mpr ?_)
  dsimp only
  rw [hpa, hpb]

/-- Among transactions that write their validators in lower case the limit holds. -/
theorem rateLimited_lowerCase :
    RateLimited Oracle.staticKeepers bothCasesHost {s | lowerCase s = s} := by
  have hfeeder : bothCasesHost.accAddressFromBech32 firstFeeder
      = some "validator-a-of-terra" := by decide
  refine (rateLimited_iff hfeeder (fun operator => ?_) _).mpr fun a ha b hb hab => ?_
  · exact ⟨[⟨operator, 0, true, false, none⟩], ⟨operator, 0, true, false, none⟩,
      by simp [Oracle.staticKeepers], rfl⟩
  · have hlower : lowerCase firstOperatorUpper ≠ firstOperatorUpper := by decide +kernel
    have hunique : ∀ e ∈ Oracle.twoAccounts, ∀ e' ∈ Oracle.twoAccounts, e.1 = e'.1 → e = e' := by
      decide
    -- a text in lower case stands in the table of lower case
    have htext : ∀ {text operator : String}, lowerCase text = text →
        bothCasesHost.valAddressFromBech32 text = some operator →
        ∃ e ∈ Oracle.twoAccounts, e.1 = operator ∧ e.2.1 = text := by
      intro text operator htext hparse
      obtain ⟨e, he, hop⟩ := Option.map_eq_some_iff.mp hparse
      obtain rfl : e.2.1 = text := by simpa using List.find?_some he
      rcases List.mem_append.mp (List.mem_of_find?_eq_some he) with hmem | hmem
      · exact ⟨e, hmem, hop, rfl⟩
      · obtain rfl := List.mem_singleton.mp hmem
        exact absurd htext hlower
    obtain ⟨operator, hpa, hpb⟩ := hab
    obtain ⟨e, he, hop, rfl⟩ := htext ha hpa
    obtain ⟨e', he', hop', rfl⟩ := htext hb hpb
    rw [hunique e he e' he' (hop.trans hop'.symm)]

/-- Two transactions with the two spellings of one validator are accepted at one height. -/
theorem bothCases_not_rateLimited :
    upperCase firstOperator = firstOperatorUpper
    ∧ (acceptedRun Oracle.staticKeepers bothCasesHost newSpammingPreventionDecorator
        [prevoteCall bondedWorld 5 firstFeeder [firstOperator],
          prevoteCall bondedWorld 5 firstFeeder [firstOperatorUpper]]).map
        (fun e => (e.1.kind, bothCasesHost.valAddressFromBech32 e.1.validator, e.2))
      = [(.prevote, some "validator-a-of-terra", 5), (.prevote, some "validator-a-of-terra", 5)]
    ∧ ¬ RateLimited Oracle.staticKeepers bothCasesHost Set.univ := by
  have hrun : (acceptedRun Oracle.staticKeepers bothCasesHost newSpammingPreventionDecorator
        [prevoteCall bondedWorld 5 firstFeeder [firstOperator],
          prevoteCall bondedWorld 5 firstFeeder [firstOperatorUpper]]).map
        (fun e => (e.1.kind, bothCasesHost.valAddressFromBech32 e.1.validator, e.2))
      = [(.prevote, some "validator-a-of-terra", 5),
        (.prevote, some "validator-a-of-terra", 5)] := by decide +kernel
  refine ⟨by decide +kernel, hrun, fun h => ?_⟩
  have hnodup := h [prevoteCall bondedWorld 5 firstFeeder [firstOperator],
    prevoteCall bondedWorld 5 firstFeeder [firstOperatorUpper]]
    (List.pairwise_pair.mpr le_rfl) fun _ _ _ _ => trivial
  rw [hrun] at hnodup
  exact (List.nodup_cons.mp hnodup).1 List.mem_cons_self

end Runs

end ColumbusCore.Ante
