import ColumbusCore.Oracle.StaticChain

/-!
Who may feed, over runs.

A prevote and a vote are signed by a feeder, and `ValidateFeeder` reads from the store whether the
feeder may speak for the validator. What the store knows are the consents executed so far, and a
consent is signed by the operator itself.

* `FeedMsg`: the three messages with their signers and their execution;
* `SignedRun`: the states of the chain with the messages accepted on the way, in order;
* `LastConsent`: the latest consent an operator signed names this delegate;
* `SignedRun.feederDelegations_iff`: the store holds the latest consents, and for operators without
  one what it held at the start;
* `feeder_authority`: **every accepted prevote and vote was signed by the operator or by its
  delegate at that time**, and those are at any time the feeders that `ValidateFeeder` lets through,
  if the validator is bonded.
-/

namespace ColumbusCore.Oracle

open Go
open Std (ExtTreeMap)

variable {σ : Type}

/-! ### Signers -/

/-- The only signer of a message. An address that does not parse panics with the decoder's error. -/
def onlySigner (address : Option AccAddress) : Outcome (List AccAddress) :=
  match address with
  | some signer => pure [signer]
  | none => panicked (.raised "decoding bech32 failed")

/-- `MsgAggregateExchangeRatePrevote.GetSigners`. -/
def MsgAggregateExchangeRatePrevote.getSigners (H : Host) (msg : MsgAggregateExchangeRatePrevote) :
    Outcome (List AccAddress) :=
  onlySigner (H.accAddressFromBech32 msg.feeder)

/-- `MsgAggregateExchangeRateVote.GetSigners`. -/
def MsgAggregateExchangeRateVote.getSigners (H : Host) (msg : MsgAggregateExchangeRateVote) :
    Outcome (List AccAddress) :=
  onlySigner (H.accAddressFromBech32 msg.feeder)

/-- `MsgDelegateFeedConsent.GetSigners`: the account of the operator. -/
def MsgDelegateFeedConsent.getSigners (H : Host) (msg : MsgDelegateFeedConsent) :
    Outcome (List AccAddress) :=
  onlySigner (H.valAddressFromBech32 msg.operator)

lemma onlySigner_eq_ok {address : Option AccAddress} {a : AccAddress} :
    onlySigner address = .ok [a] ↔ address = some a := by
  cases address with
  | none => simp [onlySigner]
  | some b => simp [onlySigner]

/-- A message of the module. -/
inductive FeedMsg where
  | prevote (msg : MsgAggregateExchangeRatePrevote)
  | vote (msg : MsgAggregateExchangeRateVote)
  | consent (msg : MsgDelegateFeedConsent)

def FeedMsg.getSigners (H : Host) : FeedMsg → Outcome (List AccAddress)
  | .prevote msg => msg.getSigners H
  | .vote msg => msg.getSigners H
  | .consent msg => msg.getSigners H

/-- The validator a message speaks for. -/
def FeedMsg.validator (H : Host) : FeedMsg → Option ValAddress
  | .prevote msg => H.valAddressFromBech32 msg.validator
  | .vote msg => H.valAddressFromBech32 msg.validator
  | .consent msg => H.valAddressFromBech32 msg.operator

/-- A message, checked and executed. -/
def FeedMsg.deliver (K : Keepers σ) (H : Host) (height : ℕ) (w : World σ) :
    FeedMsg → Outcome (World σ)
  | .prevote msg => deliverPrevote K H height w msg
  | .vote msg => deliverVote K H height w msg
  | .consent msg => do
      msg.validateBasic H
      delegateFeedConsent K H w msg

/-- The message is a consent that `a` signed, for the delegate `f`. -/
def FeedMsg.Consents (H : Host) (a : ValAddress) (f : AccAddress) (m : FeedMsg) : Prop :=
  ∃ msg, m = .consent msg ∧ m.getSigners H = .ok [a] ∧ H.accAddressFromBech32 msg.delegate = some f

/-- The latest consent that `a` signed is for the delegate `f`. -/
def LastConsent (H : Host) (history : List FeedMsg) (a : ValAddress) (f : AccAddress) : Prop :=
  ∃ before m after, history = before ++ m :: after ∧ m.Consents H a f
    ∧ ∀ later ∈ after, ∀ f', ¬ later.Consents H a f'

/-- `f` is the delegate of `a` after the messages of `history`: the latest consent of `a` names it,
or there is none and the delegations at the start do. -/
def DelegateOf (H : Host) (start : ExtTreeMap ValAddress AccAddress) (history : List FeedMsg)
    (f : AccAddress) (a : ValAddress) : Prop :=
  LastConsent H history a f
    ∨ (start[a]? = some f ∧ ∀ m ∈ history, ∀ f', ¬ m.Consents H a f')

/-- `f` speaks for `a`: it is `a` itself, or the delegate. -/
def SpeaksFor (H : Host) (start : ExtTreeMap ValAddress AccAddress) (history : List FeedMsg)
    (f : AccAddress) (a : ValAddress) : Prop :=
  f = a ∨ DelegateOf H start history f a

/-! ### Runs -/

/-- The states that admitted messages, changes of the parameters and of the other modules, and ends
of blocks lead to, with the messages accepted on the way. -/
inductive SignedRun (K : Keepers σ) (H : Host) (x₀ : ℕ × World σ) :
    ℕ × World σ → List FeedMsg → Prop where
  | start : SignedRun K H x₀ x₀ []
  | deliver {h w w' history} (hrun : SignedRun K H x₀ (h, w) history) (m : FeedMsg)
      (hmsg : m.deliver K H h w = .ok w') : SignedRun K H x₀ (h, w') (history ++ [m])
  | params {h w history} (hrun : SignedRun K H x₀ (h, w) history) (p : Params) :
      SignedRun K H x₀ (h, { w with store := { w.store with params := p } }) history
  | other {h w history} (hrun : SignedRun K H x₀ (h, w) history) (ext : σ) :
      SignedRun K H x₀ (h, { w with ext := ext }) history
  | endBlock {h w w' history} (hrun : SignedRun K H x₀ (h, w) history) (S : Schedule)
      (hend : endBlocker K H S h w = .ok w') : SignedRun K H x₀ (h + 1, w') history

/-! ### What a message does to the delegations -/

lemma consents_iff {H : Host} {msg : MsgDelegateFeedConsent} {a : ValAddress} {f : AccAddress} :
    (FeedMsg.consent msg).Consents H a f ↔
      H.valAddressFromBech32 msg.operator = some a ∧ H.accAddressFromBech32 msg.delegate = some f := by
  constructor
  · rintro ⟨_, ⟨⟩, hsigned, hdelegate⟩
    exact ⟨onlySigner_eq_ok.mp hsigned, hdelegate⟩
  · rintro ⟨hoperator, hdelegate⟩
    exact ⟨msg, rfl, onlySigner_eq_ok.mpr hoperator, hdelegate⟩

lemma not_prevote_consents {H : Host} {msg : MsgAggregateExchangeRatePrevote} {a : ValAddress}
    {f : AccAddress} : ¬ (FeedMsg.prevote msg).Consents H a f := by
  rintro ⟨_, ⟨⟩, -⟩

lemma not_vote_consents {H : Host} {msg : MsgAggregateExchangeRateVote} {a : ValAddress}
    {f : AccAddress} : ¬ (FeedMsg.vote msg).Consents H a f := by
  rintro ⟨_, ⟨⟩, -⟩

/-- A message of a history with one more is the last one, or one of the history. -/
lemma split_append_singleton {α : Type} {l before after : List α} {x y : α}
    (h : l ++ [x] = before ++ y :: after) :
    (after = [] ∧ before = l ∧ y = x) ∨ ∃ init, after = init ++ [x] ∧ l = before ++ y :: init := by
  rcases List.eq_nil_or_concat' after with rfl | ⟨init, last, rfl⟩
  · obtain ⟨rfl, hlast⟩ := List.append_inj' h rfl
    exact Or.inl ⟨rfl, rfl, (List.head_eq_of_cons_eq hlast).symm⟩
  · rw [← List.cons_append, ← List.append_assoc] at h
    obtain ⟨rfl, hlast⟩ := List.append_inj' h rfl
    exact Or.inr ⟨init, by rw [hlast], rfl⟩

/-- After one more message, the latest consent is that message or still the one before it. -/
lemma lastConsent_append {H : Host} {history : List FeedMsg} {m : FeedMsg} {a : ValAddress}
    {f : AccAddress} : LastConsent H (history ++ [m]) a f ↔
      m.Consents H a f ∨ (LastConsent H history a f ∧ ∀ f', ¬ m.Consents H a f') := by
  constructor
  · rintro ⟨before, c, after, heq, hc, hlater⟩
    rcases split_append_singleton heq with ⟨-, -, rfl⟩ | ⟨init, rfl, rfl⟩
    · exact Or.inl hc
    · exact Or.inr ⟨⟨before, c, init, rfl, hc,
        fun x hx => hlater x (List.mem_append_left _ hx)⟩, hlater m (by simp)⟩
  · rintro (hm | ⟨⟨before, c, after, rfl, hc, hlater⟩, hm⟩)
    · exact ⟨history, m, [], rfl, hm, by simp⟩
    · refine ⟨before, c, after ++ [m], by simp, hc, fun x hx => ?_⟩
      rcases List.mem_append.mp hx with hx | hx
      · exact hlater x hx
      · obtain rfl := List.mem_singleton.mp hx
        exact hm

/-- So the delegate is the one the message names, or still the one before it. -/
lemma delegateOf_append {H : Host} {start : ExtTreeMap ValAddress AccAddress}
    {history : List FeedMsg} {m : FeedMsg} {f : AccAddress} {a : ValAddress} :
    DelegateOf H start (history ++ [m]) f a ↔
      m.Consents H a f ∨ (DelegateOf H start history f a ∧ ∀ f', ¬ m.Consents H a f') := by
  simp only [DelegateOf, lastConsent_append, List.forall_mem_append, List.forall_mem_singleton]
  tauto

/-- Only a consent writes a delegation, that of its signer. -/
lemma feederDelegations_deliver {K : Keepers σ} {H : Host} {height : ℕ} {w w' : World σ}
    {m : FeedMsg} (h : m.deliver K H height w = .ok w') (a : ValAddress) (f : AccAddress) :
    w'.store.feederDelegations[a]? = some f ↔
      m.Consents H a f
        ∨ (w.store.feederDelegations[a]? = some f ∧ ∀ f', ¬ m.Consents H a f') := by
  cases m with
  | prevote msg =>
      obtain ⟨_, -, hrun⟩ := bind_eq_ok.mp h
      obtain ⟨_, rfl⟩ := aggregateExchangeRatePrevote_eq_ok hrun
      simp [not_prevote_consents]
  | vote msg =>
      obtain ⟨_, -, hrun⟩ := bind_eq_ok.mp h
      obtain ⟨_, _, -, rfl⟩ := aggregateExchangeRateVote_eq_ok hrun
      simp [not_vote_consents]
  | consent msg =>
      obtain ⟨_, -, hrun⟩ := bind_eq_ok.mp h
      obtain ⟨operator, delegate, hoperator, hdelegate, rfl⟩ := delegateFeedConsent_spec hrun
      simp only [getElem?_insert_ite, consents_iff, hoperator, hdelegate, Option.some.injEq]
      by_cases ha : a = operator
      · simp [ha]
      · simp [Ne.symm ha]

/-- The end of a block keeps the delegations. -/
lemma feederDelegations_endBlocker {K : Keepers σ} {H : Host} {S : Schedule} {height : ℕ}
    {w w' : World σ} (h : endBlocker K H S height w = .ok w') :
    w'.store.feederDelegations = w.store.feederDelegations := by
  by_cases hlast : IsPeriodLast height w.store.params.votePeriod.toNat
  · obtain ⟨_, _, _, _, _, -, -, hstore⟩ := endBlocker_store_of_last hlast h
    rw [hstore]
  · obtain ⟨-, _, hstore⟩ := endBlocker_store_of_not_last hlast h
    rw [hstore]

/-- The store holds the delegates. -/
lemma SignedRun.feederDelegations_iff {K : Keepers σ} {H : Host} {x₀ x : ℕ × World σ}
    {history : List FeedMsg} (hrun : SignedRun K H x₀ x history) (a : ValAddress)
    (f : AccAddress) :
    x.2.store.feederDelegations[a]? = some f ↔
      DelegateOf H x₀.2.store.feederDelegations history f a := by
  induction hrun with
  | start => simp [DelegateOf, LastConsent]
  | deliver hrun m hmsg ih => rw [feederDelegations_deliver hmsg, delegateOf_append, ih]
  | params hrun p ih => exact ih
  | other hrun ext ih => exact ih
  | endBlock hrun S hend ih => rw [feederDelegations_endBlocker hend, ih]

/-! ### Authority -/

/-- `ValidateFeeder` accepts the validator itself and its delegate, while the validator is
bonded. -/
lemma validateFeeder_eq_ok_iff {K : Keepers σ} {H : Host} {w : World σ} {f : AccAddress}
    {a : ValAddress} : validateFeeder K H w f a = .ok () ↔
      (∃ v, K.validator w.ext a = some v ∧ v.bonded = true)
        ∧ (f = a ∨ w.store.feederDelegations[a]? = some f) := by
  rw [validateFeeder, failIf_bind_eq_ok, ExtTreeMap.getD_eq_getD_getElem?]
  rw [and_comm, not_and_not_right]
  refine and_congr ?_ ?_
  · cases K.validator w.ext a with
    | none => simp
    | some v => cases hv : v.bonded <;> simp [hv]
  · cases w.store.feederDelegations[a]? with
    | none => simp [eq_comm]
    | some d => simp [or_iff_not_imp_left]

/-- An accepted prevote or vote passed `ValidateFeeder` for its signer. -/
lemma FeedMsg.signer_of_deliver {K : Keepers σ} {H : Host} {height : ℕ} {w w' : World σ}
    {m : FeedMsg} (h : m.deliver K H height w = .ok w') :
    ∃ a f, m.validator H = some a ∧ m.getSigners H = .ok [f]
      ∧ (f = a ∨ validateFeeder K H w f a = .ok ()) := by
  cases m with
  | prevote msg =>
      obtain ⟨_, -, hrun⟩ := bind_eq_ok.mp h
      obtain ⟨a, hval, hrun⟩ := bind_eq_ok.mp hrun
      obtain ⟨f, hfeeder, hrun⟩ := bind_eq_ok.mp hrun
      obtain ⟨_, hauth, -⟩ := bind_eq_ok.mp hrun
      exact ⟨a, f, valAddress_eq_ok.mp hval, onlySigner_eq_ok.mpr (accAddress_eq_ok.mp hfeeder),
        Or.inr hauth⟩
  | vote msg =>
      obtain ⟨_, -, hrun⟩ := bind_eq_ok.mp h
      obtain ⟨a, f, _, _, hval, hfeeder, hauth, -⟩ := aggregateExchangeRateVote_spec hrun
      exact ⟨a, f, hval, onlySigner_eq_ok.mpr (accAddress_eq_ok.mp hfeeder), Or.inr hauth⟩
  | consent msg =>
      obtain ⟨_, -, hrun⟩ := bind_eq_ok.mp h
      obtain ⟨a, _, hoperator, -, -⟩ := delegateFeedConsent_spec hrun
      exact ⟨a, a, hoperator, onlySigner_eq_ok.mpr hoperator, Or.inl rfl⟩

/-- The messages of a history were each signed by someone who spoke for their validator. -/
def SignedHistory (H : Host) (start : ExtTreeMap ValAddress AccAddress) (history : List FeedMsg) :
    Prop :=
  ∀ before m after, history = before ++ m :: after →
    ∃ a f, m.validator H = some a ∧ m.getSigners H = .ok [f] ∧ SpeaksFor H start before f a

lemma SignedHistory.append {H : Host} {start : ExtTreeMap ValAddress AccAddress}
    {history : List FeedMsg} (h : SignedHistory H start history) {m : FeedMsg}
    (hm : ∃ a f, m.validator H = some a ∧ m.getSigners H = .ok [f]
      ∧ SpeaksFor H start history f a) : SignedHistory H start (history ++ [m]) := by
  intro before c after heq
  rcases split_append_singleton heq with ⟨-, rfl, rfl⟩ | ⟨init, -, rfl⟩
  · exact hm
  · exact h before c init rfl

/-- **Who may feed.** Every accepted message of a run was signed by the operator of its validator or
by its delegate at that time, which is the one of the latest consent that the operator itself had
signed. `ValidateFeeder` accepts exactly these feeders, for bonded validators. -/
theorem feeder_authority {K : Keepers σ} {H : Host} {x₀ x : ℕ × World σ} {history : List FeedMsg}
    (hrun : SignedRun K H x₀ x history) :
    SignedHistory H x₀.2.store.feederDelegations history
      ∧ ∀ f a, validateFeeder K H x.2 f a = .ok () ↔
          (∃ v, K.validator x.2.ext a = some v ∧ v.bonded = true)
            ∧ SpeaksFor H x₀.2.store.feederDelegations history f a := by
  refine ⟨?_, fun f a => ?_⟩
  · induction hrun with
    | start =>
        intro before m after heq
        simp at heq
    | deliver hrun m hmsg ih =>
        obtain ⟨a, f, hval, hsigned, hauth⟩ := FeedMsg.signer_of_deliver hmsg
        refine ih.append ⟨a, f, hval, hsigned, ?_⟩
        rcases hauth with rfl | hauth
        · exact Or.inl rfl
        · have hfeeder := (validateFeeder_eq_ok_iff.mp hauth).2
          rwa [hrun.feederDelegations_iff] at hfeeder
    | params hrun p ih => exact ih
    | other hrun ext ih => exact ih
    | endBlock hrun S hend ih => exact ih
  · rw [validateFeeder_eq_ok_iff, hrun.feederDelegations_iff, SpeaksFor]

/-- The first validator lets the second feed for it. -/
def lendFeed : FeedMsg := .consent
  ⟨"terravaloper1weskc6tyv96x7u3dvykk7e3dw3jhyunpwz6935",
    "terra1weskc6tyv96x7u3dvgkk7e3dw3jhyunpdrjvd8"⟩

/-- The prevote of the second validator for the first. -/
def lentPrevote : FeedMsg := .prevote
  ⟨"79853d131af1b28df84cfd8bb0156f43b74297da", "terra1weskc6tyv96x7u3dvgkk7e3dw3jhyunpdrjvd8",
    "terravaloper1weskc6tyv96x7u3dvykk7e3dw3jhyunpwz6935"⟩

/-- After the consent and the prevote the second validator speaks for the first, and the prevote
was signed with that authority. -/
theorem feeder_authority_lent :
    ∃ w, SignedRun staticKeepers (tableHost ⟨twoAccounts, [], []⟩)
        (1, ⟨emptyStore blockParams, twoValidators⟩) (1, w) [lendFeed, lentPrevote]
      ∧ SignedHistory (tableHost ⟨twoAccounts, [], []⟩) ∅ [lendFeed, lentPrevote]
      ∧ SpeaksFor (tableHost ⟨twoAccounts, [], []⟩) ∅ [lendFeed, lentPrevote]
          "validator-b-of-terra" "validator-a-of-terra" := by
  obtain ⟨w, hrun, htest⟩ := exists_of_returns
    (p := fun w => returns (fun _ => true) (validateFeeder staticKeepers
      (tableHost ⟨twoAccounts, [], []⟩) w "validator-b-of-terra" "validator-a-of-terra"))
    (x := lendFeed.deliver staticKeepers (tableHost ⟨twoAccounts, [], []⟩) 1
        ⟨emptyStore blockParams, twoValidators⟩
      >>= fun w => lentPrevote.deliver staticKeepers (tableHost ⟨twoAccounts, [], []⟩) 1 w)
    (by decide +kernel)
  obtain ⟨_, hlend, hprevote⟩ := bind_eq_ok.mp hrun
  obtain ⟨_, hfeeder, -⟩ := exists_of_returns htest
  have hsigned := (SignedRun.start.deliver _ hlend).deliver _ hprevote
  obtain ⟨hhistory, hauthority⟩ := feeder_authority hsigned
  exact ⟨w, hsigned, hhistory, ((hauthority _ _).mp hfeeder).2⟩

end ColumbusCore.Oracle
