import ColumbusCore.Ante.Fee

/-!
The run of a transaction: the fee decorator, the messages, the post handler
(`x/tax/post/post.go`).

The messages of a transaction are executed one after the other. A message of `authz` executes
the messages it holds in its own context; a contract dispatches messages, to any depth, in a
context that is always reverse charged (`SDKMessageHandler.DispatchMsg` of
`custom/wasm/keeper/handler_plugin.go`).

* `Runs`: the runs of a list of messages, with a `Visit` for every send, multi-send and swap-send
  that is executed;
* `Transaction`: a transaction that succeeded;
* `Runs.leaves`: **the visits that no contract dispatched are the messages the fee decorator
  found**, in the same order;
* `Runs.flag`: what a message sees of the reverse charge.
-/

namespace ColumbusCore.Tx

open Go
open Tax (Chain Keepers Context TaxedMsg isReverseCharge)
open Ante (Msg FeeTx leavesOf)

variable {β : Type}

/-! ### The post handler -/

/-- The payer of the due tax, which is asserted to be a text. -/
def taxPayer (ctx : Context) : Outcome String :=
  match ctx.value Tax.contextKeyTaxPayer with
  | some (.str payer) => .ok payer
  | _ => panicked .typeAssertion

/-- The due tax is deducted from its payer, split and recorded. -/
def payTax (K : Keepers β) (c : Chain β) (payer : AccAddress) (dueTax : Coins) :
    Outcome (Chain β) := do
  failIf (¬ K.hasAccount c.rest payer)
    ("fee payer address: " ++ K.accString payer ++ " does not exist: unknown address")
  let s ← Ante.deductFees K c.rest payer dueTax
  let c ← Tax.processTaxSplits K { c with rest := s } dueTax
  pure { c with treasury := c.treasury.recordEpochTaxProceeds dueTax }

/-- `TaxDecorator.PostHandle`, up to the next decorator. -/
def postHandle (K : Keepers β) (ctx : Context) (c : Chain β) : Outcome (Chain β) :=
  if ctx.taxDue.IsZero then pure c
  else do
    let text ← taxPayer ctx
    match K.accAddressFromBech32 text with
    | none => failed "tax payer address not found: invalid address"
    | some payer => payTax K c payer ctx.taxDue

/-- The tax in the context is charged to the payer in the context. -/
lemma postHandle_eq_ok {K : Keepers β} {ctx : Context} {c c' : Chain β}
    (h : postHandle K ctx c = .ok c') :
    ctx.taxDue.IsZero ∧ c' = c ∨ ∃ text payer, ctx.value Tax.contextKeyTaxPayer = some (.str text)
      ∧ K.accAddressFromBech32 text = some payer
      ∧ Tax.collectTax K c payer ctx.taxDue = .ok c' := by
  rw [postHandle] at h
  split_ifs at h with hzero
  · exact Or.inl ⟨hzero, (Except.ok.inj h).symm⟩
  · right
    obtain ⟨text, htext, h⟩ := bind_eq_ok.mp h
    rw [taxPayer] at htext
    split at htext
    · obtain rfl := Except.ok.inj htext
      split at h
      · exact absurd h (by simp [failed])
      · obtain ⟨⟨⟩, -, h⟩ := bind_eq_ok.mp h
        obtain ⟨s, hs, h⟩ := bind_eq_ok.mp h
        refine ⟨_, _, by assumption, by assumption, ?_⟩
        rw [Tax.collectTax, Ante.deductFees_eq_ok hs, ok_bind]
        exact h
    · exact absurd htext (by simp [panicked])

/-! ### The run of the messages -/

/-- The context of the messages a contract dispatches. -/
def dispatchContext (ctx : Context) : Context :=
  ctx.withValue Tax.contextKeyTaxReverseCharge (.bool true)

lemma isReverseCharge_dispatchContext (ctx : Context) :
    isReverseCharge (dispatchContext ctx) = .ok true := by
  rw [isReverseCharge, dispatchContext, Tax.Context.value_withValue_self]

/-- A message whose own effect is not modelled: it changes the state, and may run contracts. -/
def isOpaque : Msg → Bool
  | .taxed _ | .exec _ | .execInvalid => false
  | _ => true

/-- A send, a multi-send or a swap-send that was executed. -/
structure Visit (K : Keepers β) where
  msg : TaxedMsg
  /-- The message, or one it is nested in, was dispatched by a contract. -/
  dispatched : Bool
  ctx : Context
  before : Chain β
  after : Chain β
  ran : msg.handle K ctx before = .ok after

/-- `Runs K dispatched ctx c msgs visits c'`: the messages, executed in the context from `c`, lead
to `c'` with these visits. An opaque message changes the state and dispatches messages as often as
it likes, and is done. -/
inductive Runs (K : Keepers β) :
    Bool → Context → Chain β → List Msg → List (Visit K) → Chain β → Prop where
  | nil {b ctx c} : Runs K b ctx c [] [] c
  | taxed {b ctx c c₁ c' msg msgs visits} (ran : TaxedMsg.handle K ctx c msg = .ok c₁) :
      Runs K b ctx c₁ msgs visits c' →
      Runs K b ctx c (.taxed msg :: msgs) (⟨msg, b, ctx, c, c₁, ran⟩ :: visits) c'
  | exec {b ctx c c₁ c' inner msgs visits visits'} :
      Runs K b ctx c inner visits c₁ → Runs K b ctx c₁ msgs visits' c' →
      Runs K b ctx c (.exec inner :: msgs) (visits ++ visits') c'
  | change {b ctx c c₁ c' msg msgs visits} : isOpaque msg = true →
      Runs K b ctx c₁ (msg :: msgs) visits c' → Runs K b ctx c (msg :: msgs) visits c'
  | dispatch {b ctx c c₁ c' msg msgs dispatched visits visits'} : isOpaque msg = true →
      Runs K true (dispatchContext ctx) c dispatched visits c₁ →
      Runs K b ctx c₁ (msg :: msgs) visits' c' →
      Runs K b ctx c (msg :: msgs) (visits ++ visits') c'
  | done {b ctx c c' msg msgs visits} : isOpaque msg = true →
      Runs K b ctx c msgs visits c' → Runs K b ctx c (msg :: msgs) visits c'

/-- A transaction that succeeded and is not a simulation. -/
structure Transaction (K : Keepers β) where
  ctx : Context
  chain : Chain β
  tx : FeeTx
  anteCtx : Context
  anteChain : Chain β
  /-- The state the decorators after the fee decorator leave. -/
  start : β
  visits : List (Visit K)
  ran : Chain β
  final : Chain β
  fresh : ctx.value Tax.contextKeyTaxDue = none
  ante : Ante.anteHandle K ctx chain tx false = .ok (anteCtx, anteChain)
  runs : Runs K false anteCtx { anteChain with rest := start } tx.msgs visits ran
  post : postHandle K anteCtx ran = .ok final

/-! ### The visits -/

section Runs

variable {K : Keepers β} {b : Bool} {ctx : Context} {c c' : Chain β} {msgs : List Msg}
  {visits : List (Visit K)}

lemma leaves_of_isOpaque {msg : Msg} (h : isOpaque msg = true) : msg.leaves = [] := by
  cases msg with
  | taxed msg => simp [isOpaque] at h
  | exec msgs => simp [isOpaque] at h
  | execInvalid => rfl
  | instantiateContract funds => rfl
  | instantiateContract2 funds => rfl
  | executeContract sender contract funds => rfl
  | oracle => rfl
  | other => rfl

/-- **The visits no contract dispatched** are the messages the fee decorator found. -/
theorem Runs.leaves (h : Runs K b ctx c msgs visits c') :
    (visits.filter fun v => !v.dispatched).map Visit.msg = if b then [] else leavesOf msgs := by
  induction h with
  | nil => simp [leavesOf]
  | @taxed b ctx c c₁ c' msg msgs visits ran _ ih =>
      cases b with
      | false => simpa [leavesOf, Ante.Msg.leaves] using ih
      | true => simpa using ih
  | exec _ _ ih ih' =>
      rw [List.filter_append, List.map_append, ih, ih']
      split_ifs <;> simp [leavesOf, Ante.Msg.leaves]
  | change _ _ ih => exact ih
  | dispatch _ _ _ ih ih' =>
      rw [List.filter_append, List.map_append, ih, ih']
      simp
  | done hmsg _ ih => simp [ih, leavesOf, leaves_of_isOpaque hmsg]

/-- A message runs with the flag of the transaction, or with that of a contract. -/
lemma Runs.flag (h : Runs K b ctx c msgs visits c') :
    ∀ v ∈ visits, v.dispatched = b ∧ isReverseCharge v.ctx = isReverseCharge ctx
      ∨ v.dispatched = true ∧ isReverseCharge v.ctx = .ok true := by
  induction h with
  | nil => simp
  | taxed ran _ ih =>
      intro v hv
      rcases List.mem_cons.mp hv with rfl | hv
      · exact Or.inl ⟨rfl, rfl⟩
      · exact ih v hv
  | exec _ _ ih ih' =>
      intro v hv
      rcases List.mem_append.mp hv with hv | hv
      · exact ih v hv
      · exact ih' v hv
  | change _ _ ih => exact ih
  | @dispatch b ctx _ _ _ _ _ _ _ _ _ _ _ ih ih' =>
      intro v hv
      rcases List.mem_append.mp hv with hv | hv
      · -- the context of a contract is reverse charged
        have hctx := isReverseCharge_dispatchContext ctx
        rcases ih v hv with ⟨hb, hflag⟩ | hflag
        · exact Or.inr ⟨hb, hflag.trans hctx⟩
        · exact Or.inr hflag
      · exact ih' v hv
  | done _ _ ih => exact ih

end Runs

end ColumbusCore.Tx
