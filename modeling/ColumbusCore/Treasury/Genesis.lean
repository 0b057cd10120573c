import ColumbusCore.Treasury.Levers

/-!
The genesis of the treasury (`x/treasury/genesis.go`), and the burn tax exemption list of its store
(`x/treasury/keeper/keeper.go`, `x/treasury/keeper/gov.go`).

The export lists the levers, the caps, the proceeds, the issuance at the start of the epoch and the
indicators of the epochs that are over. Three things do not come back: the exemption list, which is
no part of a genesis, the indicators of an epoch that is not over, and an issuance of nothing, which
the import takes for a missing one and replaces by the supply.

* `exportGenesis`: the code;
* `ChainStep`, `ReachedChain`: the runs of the module, with the exemption list and the height;
* `Closed.step`, `closed_of_initGenesis`: **no step records an indicator the export leaves out**,
  so that only a genesis can have one;
* `initGenesis_exportGenesis`: what the import of an export stores;
* `sameAnswers_iff`: **which states an export and an import restore**.
-/

namespace ColumbusCore.Treasury

open Go
open Std (ExtTreeMap)
open Market (microLunaDenom)

variable {σ : Type}

/-! ### The exemption list -/

/-- The burn tax exemption list, by the text of the address. -/
abbrev ExemptionList := ExtTreeMap String Unit

/-- `AddBurnTaxExemptionAddress`; a text that is no address is a panic. -/
def addBurnTaxExemptionAddress (parse : String → Option AccAddress) (list : ExemptionList)
    (address : String) : Outcome ExemptionList :=
  match parse address with
  | none => panicked (.raised "decoding bech32 failed")
  | some _ => pure (list.insert address ())

/-- `RemoveBurnTaxExemptionAddress`. -/
def removeBurnTaxExemptionAddress (parse : String → Option AccAddress) (list : ExemptionList)
    (address : String) : Outcome ExemptionList :=
  match parse address with
  | none => panicked (.raised "decoding bech32 failed")
  | some _ => do
      failIf (address ∉ list) ("address = " ++ address ++ ": no such address in extemption list")
      pure (list.erase address)

/-- `HandleAddBurnTaxExemptionAddressProposal`. -/
def handleAddBurnTaxExemptionAddressProposal (parse : String → Option AccAddress)
    (list : ExemptionList) (addresses : List String) : Outcome ExemptionList :=
  addresses.foldlM (addBurnTaxExemptionAddress parse) list

/-- `HandleRemoveBurnTaxExemptionAddressProposal`. -/
def handleRemoveBurnTaxExemptionAddressProposal (parse : String → Option AccAddress)
    (list : ExemptionList) (addresses : List String) : Outcome ExemptionList :=
  addresses.foldlM (removeBurnTaxExemptionAddress parse) list

/-! ### The export -/

/-- The epochs of the loop of the export: those before the current one, and the current one at its
last block. -/
def exportedEpochs (height : ℕ) : List ℕ :=
  List.range (getEpoch height)
    ++ if Oracle.IsPeriodLast height blocksPerWeek then [getEpoch height] else []

/-- The indicators of one epoch. -/
def State.epochState (st : State σ) (e : ℕ) : EpochState where
  epoch := UInt64.ofNat e
  taxReward := st.getTR e
  seigniorageReward := st.getSR e
  totalStakedLuna := st.getTSL e

/-- `ExportGenesis`. -/
def exportGenesis (height : ℕ) (st : State σ) : GenesisState where
  params := st.store.params
  taxRate := st.getTaxRate
  rewardWeight := st.getRewardWeight
  taxCaps := st.store.taxCaps.toList
  taxProceeds := st.store.epochTaxProceeds
  epochInitialIssuance := st.epochInitialIssuance
  epochStates := (exportedEpochs height).map st.epochState

/-! ### Runs -/

/-- The state of the module at a height, with the exemption list. -/
structure Chain (σ : Type) where
  height : ℕ
  state : State σ
  exemptions : ExemptionList

/-- One step of a run: a change of the state, a change of the parameters that passes their checks,
a proposal on the exemption list, the end of a block, or the next block. -/
inductive ChainStep (K : Keepers σ) (parse : String → Option AccAddress) :
    Chain σ → Chain σ → Prop where
  | op {c : Chain σ} {st' : State σ} (op : Op σ) (h : op.apply c.state = .ok st') :
      ChainStep K parse c { c with state := st' }
  | params {c : Chain σ} {st' : State σ} (p : Params) (h : setParams c.state p = .ok st') :
      ChainStep K parse c { c with state := st' }
  | add {c : Chain σ} {list : ExemptionList} (addresses : List String)
      (h : handleAddBurnTaxExemptionAddressProposal parse c.exemptions addresses = .ok list) :
      ChainStep K parse c { c with exemptions := list }
  | remove {c : Chain σ} {list : ExemptionList} (addresses : List String)
      (h : handleRemoveBurnTaxExemptionAddressProposal parse c.exemptions addresses = .ok list) :
      ChainStep K parse c { c with exemptions := list }
  | endBlock {c : Chain σ} {st' : State σ} (h : endBlocker K c.height c.state = .ok st') :
      ChainStep K parse c { c with state := st' }
  | nextBlock {c : Chain σ} (h : c.height + 1 < 2 ^ 63) :
      ChainStep K parse c { c with height := c.height + 1 }

/-- The chains that began with some genesis at some height; a height is an `int64`. -/
inductive ReachedChain (K : Keepers σ) (parse : String → Option AccAddress) : Chain σ → Prop where
  | genesis {height : ℕ} {oracle : Oracle.Store} {ext : σ} {data : GenesisState} {st : State σ}
      (hheight : height < 2 ^ 63) (h : initGenesis K oracle ext data = .ok st) :
      ReachedChain K parse ⟨height, st, ∅⟩
  | step {c c' : Chain σ} (hc : ReachedChain K parse c) (hstep : ChainStep K parse c c') :
      ReachedChain K parse c'

/-- The two chains answer alike: the levers, the cap of every denom, the proceeds, the issuance, the
indicators of every epoch, and who is exempted. -/
structure SameAnswers (c c' : Chain σ) : Prop where
  taxRate : c'.state.getTaxRate = c.state.getTaxRate
  rewardWeight : c'.state.getRewardWeight = c.state.getRewardWeight
  taxCap : ∀ d, c'.state.store.getTaxCap d = c.state.store.getTaxCap d
  taxProceeds : c'.state.store.epochTaxProceeds = c.state.store.epochTaxProceeds
  issuance : c'.state.epochInitialIssuance = c.state.epochInitialIssuance
  tr : ∀ e, c'.state.getTR e = c.state.getTR e
  sr : ∀ e, c'.state.getSR e = c.state.getSR e
  tsl : ∀ e, c'.state.getTSL e = c.state.getTSL e
  exempted : ∀ a, a ∈ c'.exemptions ↔ a ∈ c.exemptions

/-- The three indicators of an epoch. -/
def State.indicators (st : State σ) (e : ℕ) : Dec × Dec × ℤ :=
  (st.getTR e, st.getSR e, st.getTSL e)

/-- Nothing is recorded for the epochs the export leaves out. -/
def Closed (c : Chain σ) : Prop :=
  ∀ e, e ∉ exportedEpochs c.height → c.state.indicators e = (0, 0, 0)

section Steps

variable {K : Keepers σ} {parse : String → Option AccAddress} {st st' : State σ} {c c' : Chain σ}
  {height e : ℕ}

lemma mem_exportedEpochs : e ∈ exportedEpochs height
    ↔ e < getEpoch height ∨ (e = getEpoch height ∧ Oracle.IsPeriodLast height blocksPerWeek) := by
  rw [exportedEpochs, List.mem_append, List.mem_range]
  split_ifs with hlast
  · simp [hlast]
  · simp [hlast]

/-- After the last block of an epoch the epoch is an earlier one. -/
lemma mem_exportedEpochs_succ (hheight : height + 1 < 2 ^ 63) (he : e ∈ exportedEpochs height) :
    e ∈ exportedEpochs (height + 1) := by
  rw [mem_exportedEpochs] at he ⊢
  have hwrap : (height + 1) % 2 ^ 64 = height + 1 := Nat.mod_eq_of_lt (by omega)
  simp only [getEpoch, Oracle.IsPeriodLast, blocksPerWeek, hwrap] at he ⊢
  omega

lemma updatePolicies_keeps (h : updatePolicies height st = .ok st') :
    st'.store.params = st.store.params ∧ st'.indicators = st.indicators := by
  rw [updatePolicies] at h
  split_ifs at h
  · obtain rfl := Except.ok.inj h
    exact ⟨rfl, rfl⟩
  · obtain ⟨st₁, h₁, h⟩ := bind_eq_ok.mp h
    obtain ⟨st₂, h₂, h₃⟩ := bind_eq_ok.mp h
    obtain ⟨_, rate, -, rfl⟩ := updateTaxPolicy_eq_ok h₁
    obtain ⟨_, weight, -, rfl⟩ := updateRewardPolicy_eq_ok h₂
    obtain ⟨taxCaps, rfl⟩ := updateTaxCap_eq_ok h₃
    exact ⟨rfl, rfl⟩

lemma indicators_withIndicators (tr sr : Dec) (he : e ≠ getEpoch height) :
    (withIndicators K height st tr sr).indicators e = st.indicators e := by
  simp [State.indicators, withIndicators, State.getTR, State.getSR, State.getTSL,
    getD_insert_ite, he.symm]

lemma closeEpoch_keeps (h : closeEpoch K height st = .ok st') :
    st'.store.params = st.store.params
      ∧ ∀ e, e ≠ getEpoch height → st'.indicators e = st.indicators e := by
  obtain ⟨st₁, h₁, h⟩ := bind_eq_ok.mp h
  obtain ⟨st₂, h₂, h⟩ := bind_eq_ok.mp h
  obtain rfl := Except.ok.inj h
  obtain ⟨tr, sr, -, -, rfl⟩ := updateIndicators_eq_ok h₁
  obtain ⟨hparams, hindicators⟩ := updatePolicies_keeps h₂
  refine ⟨hparams, fun e he => ?_⟩
  calc (recordEpochInitialIssuance K st₂).indicators e
      = st₂.indicators e := rfl
    _ = (withIndicators K height st tr sr).indicators e := by rw [hindicators]
    _ = st.indicators e := indicators_withIndicators tr sr he

/-- The end of a block leaves the parameters, and writes the indicators of an epoch that it
closes. -/
lemma endBlocker_keeps (h : endBlocker K height st = .ok st') :
    st'.store.params = st.store.params
      ∧ ∀ e, ¬ (e = getEpoch height ∧ Oracle.IsPeriodLast height blocksPerWeek) →
        st'.indicators e = st.indicators e := by
  by_cases hlast : Oracle.IsPeriodLast height blocksPerWeek
  · rw [endBlocker_of_last hlast] at h
    obtain ⟨st₁, h₁, h⟩ := bind_eq_ok.mp h
    obtain ⟨ext, rfl⟩ := burnCoinsFromBurnAccount_eq_ok h₁
    obtain ⟨hparams, hindicators⟩ := closeEpoch_keeps h
    exact ⟨hparams, fun e he => hindicators e fun heq => he ⟨heq, hlast⟩⟩
  · rw [endBlocker_of_not_last hlast] at h
    obtain ⟨ext, rfl⟩ := burnCoinsFromBurnAccount_eq_ok h
    exact ⟨rfl, fun _ _ => rfl⟩

/-- A change between two ends of blocks leaves the indicators, and parameters that pass their
checks are left or replaced by such. -/
lemma Op.keeps {op : Op σ} (h : op.apply st = .ok st') : st'.indicators = st.indicators
    ∧ (st.store.params.validatePairs = .ok () → st'.store.params.validatePairs = .ok ()) := by
  cases op with
  | recordEpochTaxProceeds delta =>
      obtain rfl := Except.ok.inj h
      rw [Store.recordEpochTaxProceeds]
      split_ifs <;> exact ⟨rfl, id⟩
  | outside oracle ext =>
      obtain rfl := Except.ok.inj h
      exact ⟨rfl, id⟩
  | upgrade =>
      obtain ⟨hvalid, rfl⟩ := setParams_eq_ok_iff.mp h
      exact ⟨rfl, fun _ => hvalid⟩

/-- **No step opens an epoch**: what is recorded stays among the epochs the export lists. -/
theorem Closed.step (hc : Closed c) (h : ChainStep K parse c c') : Closed c' := by
  intro e he
  cases h with
  | op op h =>
      rw [(Op.keeps h).1]
      exact hc e he
  | params p h =>
      obtain ⟨-, rfl⟩ := setParams_eq_ok_iff.mp h
      exact hc e he
  | add addresses h => exact hc e he
  | remove addresses h => exact hc e he
  | endBlock h =>
      rw [(endBlocker_keeps h).2 e fun hclosed => he (mem_exportedEpochs.mpr (.inr hclosed))]
      exact hc e he
  | nextBlock h => exact hc e fun hbefore => he (mem_exportedEpochs_succ h hbefore)

lemma validatePairs_of_initGenesis {oracle : Oracle.Store} {ext : σ} {data : GenesisState}
    (h : initGenesis K oracle ext data = .ok st) : st.store.params.validatePairs = .ok () := by
  obtain ⟨hvalid, rfl⟩ := initGenesis_eq_ok_iff.mp h
  rw [(foldl_setEpochState data.epochStates _).1]
  exact hvalid

/-- In every run the height is an `int64` and the parameters pass their checks. -/
lemma ReachedChain.spec (h : ReachedChain K parse c) :
    c.height < 2 ^ 63 ∧ c.state.store.params.validatePairs = .ok () := by
  induction h with
  | genesis hheight h => exact ⟨hheight, validatePairs_of_initGenesis h⟩
  | step _ hstep ih =>
      obtain ⟨hheight, hvalid⟩ := ih
      cases hstep with
      | op op h => exact ⟨hheight, (Op.keeps h).2 hvalid⟩
      | params p h =>
          obtain ⟨hp, rfl⟩ := setParams_eq_ok_iff.mp h
          exact ⟨hheight, hp⟩
      | add addresses h => exact ⟨hheight, hvalid⟩
      | remove addresses h => exact ⟨hheight, hvalid⟩
      | endBlock h => exact ⟨hheight, (endBlocker_keeps h).1 ▸ hvalid⟩
      | nextBlock h => exact ⟨h, hvalid⟩

end Steps

/-! ### The round trip -/

section RoundTrip

variable {K : Keepers σ} {parse : String → Option AccAddress} {oracle : Oracle.Store} {ext : σ}
  {st src : State σ} {c : Chain σ} {height e : ℕ}

lemma indicators_setEpochState (s : EpochState) :
    (st.setEpochState s).indicators e
      = if s.epoch.toNat = e then (s.taxReward, s.seigniorageReward, s.totalStakedLuna)
        else st.indicators e := by
  simp only [State.indicators, State.setEpochState, State.getTR, State.getSR, State.getTSL,
    getD_insert_ite]
  split_ifs <;> rfl

/-- An epoch that is not listed keeps its indicators. -/
lemma indicators_foldl_of_forall_ne {l : List EpochState} (he : ∀ s ∈ l, s.epoch.toNat ≠ e) :
    (l.foldl State.setEpochState st).indicators e = st.indicators e := by
  induction l generalizing st with
  | nil => rfl
  | cons s l ih =>
      rw [List.foldl_cons, ih fun s' hs' => he s' (List.mem_cons_of_mem s hs'),
        indicators_setEpochState, if_neg (he s List.mem_cons_self)]

/-- Epochs that are exported from one state and imported into another. -/
lemma indicators_foldl_epochState {es : List ℕ} (hes : ∀ e ∈ es, e < 2 ^ 64) :
    ((es.map src.epochState).foldl State.setEpochState st).indicators e
      = if e ∈ es then src.indicators e else st.indicators e := by
  induction es generalizing st with
  | nil => rfl
  | cons e' es ih =>
      have hepoch : (UInt64.ofNat e').toNat = e' :=
        UInt64.toNat_ofNat_of_lt' (hes e' List.mem_cons_self)
      rw [List.map_cons, List.foldl_cons, ih fun x hx => hes x (List.mem_cons_of_mem e' hx),
        indicators_setEpochState, State.epochState, hepoch]
      by_cases he : e' = e
      · subst he
        simp [State.indicators]
      · simp [he, Ne.symm he]

lemma indicators_loaded (data : GenesisState) :
    (data.loaded K oracle ext).indicators e = (0, 0, 0) := by
  simp [State.indicators, State.getTR, State.getSR, State.getTSL, GenesisState.loaded]

/-- **A genesis without open epochs** starts a closed chain. -/
theorem closed_of_initGenesis {data : GenesisState} {exemptions : ExemptionList}
    (h : initGenesis K oracle ext data = .ok st)
    (hdata : ∀ s ∈ data.epochStates, s.epoch.toNat ∈ exportedEpochs height) :
    Closed ⟨height, st, exemptions⟩ := by
  intro e he
  obtain ⟨-, rfl⟩ := initGenesis_eq_ok_iff.mp h
  have hnot : ∀ s ∈ data.epochStates, s.epoch.toNat ≠ e := by
    rintro s hs rfl
    exact he (hdata s hs)
  exact (indicators_foldl_of_forall_ne hnot).trans (indicators_loaded data)

/-- The supply gives nothing exactly where it has nothing of every denom it is asked for. -/
lemma supplyIssuance_isZero_iff : (supplyIssuance K oracle ext).IsZero
    ↔ ∀ d ∈ microLunaDenom :: oracle.params.whitelist.map (·.name), K.getSupply ext d = 0 := by
  simp only [supplyIssuance, Amounts.isZero_iff, Amounts.amountOf_foldl_setAmount,
    Amounts.amountOf_empty, ite_eq_right_iff]

/-- **What the import of an export stores**: everything but the indicators of the epochs that are
not over, and an issuance of nothing. -/
lemma initGenesis_exportGenesis (K : Keepers σ) (oracle : Oracle.Store) (ext : σ)
    (hheight : height < 2 ^ 63) (hvalid : st.store.params.validatePairs = .ok ()) :
    ∃ st', initGenesis K oracle ext (exportGenesis height st) = .ok st'
      ∧ st'.store = st.store ∧ SameLevers st st'
      ∧ st'.epochInitialIssuance = (if st.epochInitialIssuance.IsZero
          then supplyIssuance K oracle ext else st.epochInitialIssuance)
      ∧ ∀ e, st'.indicators e
          = if e ∈ exportedEpochs height then st.indicators e else (0, 0, 0) := by
  have hes : ∀ e ∈ exportedEpochs height, e < 2 ^ 64 := by
    intro e he
    have hepoch : getEpoch height ≤ height := Nat.div_le_self height blocksPerWeek
    rcases mem_exportedEpochs.mp he with he | he <;> omega
  have hloaded : ((exportGenesis height st).loaded K oracle ext).store = st.store := by
    rw [GenesisState.loaded, exportGenesis, storeEntries_toList]
  obtain ⟨hstore, hlevers, hissuance⟩ := foldl_setEpochState (exportGenesis height st).epochStates
    ((exportGenesis height st).loaded K oracle ext)
  refine ⟨_, initGenesis_eq_ok_iff.mpr ⟨hvalid, rfl⟩, hstore.trans hloaded, hlevers, hissuance,
    fun e => ?_⟩
  rw [exportGenesis, indicators_foldl_epochState hes, indicators_loaded]

/-- An issuance is restored exactly where it is something, or the supply gives nothing. -/
lemma restoredIssuance_iff (issuance : Coins) :
    (if issuance.IsZero then supplyIssuance K oracle ext else issuance) = issuance
      ↔ (issuance.IsZero → ∀ d ∈ microLunaDenom :: oracle.params.whitelist.map (·.name),
        K.getSupply ext d = 0) := by
  rw [← supplyIssuance_isZero_iff]
  split_ifs with hzero
  · refine ⟨fun h _ => h ▸ hzero, fun h => Amounts.ext_amountOf fun d => ?_⟩
    rw [Amounts.isZero_iff.mp (h hzero), Amounts.isZero_iff.mp hzero]
  · exact iff_of_true rfl fun h => absurd h hzero

/-- The indicators are restored exactly where nothing is recorded for an open epoch. -/
lemma restoredIndicators_iff :
    (∀ e, (if e ∈ exportedEpochs c.height then c.state.indicators e else (0, 0, 0))
      = c.state.indicators e) ↔ Closed c := by
  refine forall_congr' fun e => ?_
  split_ifs with he
  · exact iff_of_true rfl fun hno => absurd he hno
  · exact ⟨fun h _ => h.symm, fun h => (h he).symm⟩

/-- **Which states survive**: in every run, the import of an export answers as before exactly where
no address is exempted, nothing is recorded for an epoch that is not over, and an issuance of
nothing meets a supply of nothing. -/
theorem sameAnswers_iff (hc : ReachedChain K parse c) :
    (∃ st', initGenesis K oracle ext (exportGenesis c.height c.state) = .ok st'
      ∧ SameAnswers c ⟨c.height, st', ∅⟩)
    ↔ (∀ a, a ∉ c.exemptions) ∧ Closed c
      ∧ (c.state.epochInitialIssuance.IsZero →
        ∀ d ∈ microLunaDenom :: oracle.params.whitelist.map (·.name), K.getSupply ext d = 0) := by
  obtain ⟨hheight, hvalid⟩ := hc.spec
  obtain ⟨st₁, h₁, hstore, hlevers, hissuance, hindicators⟩ :=
    initGenesis_exportGenesis K oracle ext hheight hvalid
  rw [← restoredIssuance_iff, ← restoredIndicators_iff, ← hissuance]
  simp only [← hindicators]
  constructor
  · rintro ⟨st', h', hsame⟩
    obtain rfl := Except.ok.inj (h₁.symm.trans h')
    refine ⟨fun a ha => ?_, fun e => ?_, hsame.issuance⟩
    · exact absurd ((hsame.exempted a).mpr ha) (by simp)
    · rw [State.indicators, hsame.tr, hsame.sr, hsame.tsl, State.indicators]
  · rintro ⟨hexempted, hepochs, hsame⟩
    refine ⟨st₁, h₁, hlevers.1, hlevers.2, fun d => ?_, ?_, hsame, fun e => ?_, fun e => ?_,
      fun e => ?_, fun a => ?_⟩
    · rw [hstore]
    · rw [hstore]
    · exact (Prod.mk.inj (hepochs e)).1
    · exact (Prod.mk.inj (Prod.mk.inj (hepochs e)).2).1
    · exact (Prod.mk.inj (Prod.mk.inj (hepochs e)).2).2
    · exact iff_of_false (by simp) (hexempted a)

end RoundTrip

/-! ### Two chains -/

/-- Modules that stand still, with a supply of every denom. -/
def Keepers.minted : Keepers Unit := { Keepers.idle with getSupply := fun _ _ => 1000000 }

/-- The default genesis survives an export and an import. -/
theorem sameAnswers_defaultGenesis : ∃ st,
    initGenesis Keepers.minted (Market.ratesStore ∅) () defaultGenesisState = .ok st
      ∧ ∃ st', initGenesis Keepers.minted (Market.ratesStore ∅) () (exportGenesis 0 st) = .ok st'
        ∧ SameAnswers ⟨0, st, ∅⟩ ⟨0, st', ∅⟩ := by
  obtain ⟨st, hst, hissued⟩ := exists_of_returns
    (p := fun st : State Unit => decide ¬ st.epochInitialIssuance.IsZero)
    (x := initGenesis Keepers.minted (Market.ratesStore ∅) () defaultGenesisState)
    (by decide +kernel)
  have hreached : ReachedChain Keepers.minted some ⟨0, st, ∅⟩ := .genesis (by norm_num) hst
  refine ⟨st, hst, (sameAnswers_iff hreached).mpr ⟨by simp, ?_, fun hzero => ?_⟩⟩
  · exact closed_of_initGenesis hst (by simp [defaultGenesisState])
  · exact absurd hzero (of_decide_eq_true hissued)

/-- The address of an exchange. -/
def exchangeAddress : String := "terra1v4uxx6rpdenk2tt0vckkxmmvw4kkyatndvp5lv"

/-- A parser of this address. -/
def parseExchange : String → Option AccAddress :=
  tableParse [(exchangeAddress, "exchange-of-columbus")]

/-- An address that a proposal puts on the exemption list is not on it after an export and an
import. -/
theorem not_sameAnswers_exempted : ∃ c : Chain Unit, ReachedChain Keepers.minted parseExchange c
    ∧ ¬ ∃ st', initGenesis Keepers.minted c.state.oracle c.state.ext
        (exportGenesis c.height c.state) = .ok st' ∧ SameAnswers c ⟨c.height, st', ∅⟩ := by
  obtain ⟨st, hst, -⟩ := exists_of_returns (p := fun _ : State Unit => true)
    (x := initGenesis Keepers.minted (Market.ratesStore ∅) () defaultGenesisState)
    (by decide +kernel)
  have hreached : ReachedChain Keepers.minted parseExchange ⟨0, st, ∅⟩ := .genesis (by norm_num) hst
  refine ⟨_, hreached.step (.add [exchangeAddress] rfl), ?_⟩
  rintro ⟨st', -, hsame⟩
  exact absurd ((hsame.exempted exchangeAddress).mpr (by simp)) (by simp)

end ColumbusCore.Treasury
