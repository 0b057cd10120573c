import ColumbusCore.Oracle.FairSlashing
import ColumbusCore.Oracle.StaticChain

/-!
The genesis of the oracle module (`x/oracle/genesis.go`, `types/params.go`).

The export lists every map of the store, with addresses as texts; the import reads the texts back.
The one list that is not read as it was written is that of the tobin taxes: an empty list is taken
for a missing one, and the whitelist of the parameters is stored in its place.

* `Params.validatePairs`: the checks of single parameters, which a change of a parameter passes;
* `initGenesis`, `exportGenesis`: the code;
* `ReachedFromGenesis`: the states of a chain that began with some genesis;
* `exportable_of_reached`: in every such state the texts of the export can be read;
* `initGenesis_exportGenesis`: **what the import of an export stores**;
* `initGenesis_restores_iff`: **which states an export and an import restore**.
-/

namespace ColumbusCore.Oracle

open Go
open Std (ExtTreeMap)

variable {σ : Type}

/-! ### The parameters -/

/-- The check of a number of blocks. -/
def checkWindow (name : String) (v : UInt64) : Outcome Unit :=
  failIf (v = 0) (name ++ " must be positive: 0")

/-- The check of a share. -/
def checkShare (name : String) (v : Dec) : Outcome Unit := do
  failIf (v.raw < 0) (name ++ " must be positive: " ++ decString v)
  failIf (Fixed.one < v) (name ++ " is too large: " ++ decString v)

/-- `validateVotePeriod`. -/
def validateVotePeriod (v : UInt64) : Outcome Unit := checkWindow "vote period" v

/-- `validateVoteThreshold`. -/
def validateVoteThreshold (v : Dec) : Outcome Unit := do
  failIf (v < newDecWithPrec 33 2) ("vote threshold must be bigger than 33%: " ++ decString v)
  failIf (Fixed.one < v) ("vote threshold too large: " ++ decString v)

/-- `validateRewardBand`. -/
def validateRewardBand (v : Dec) : Outcome Unit := checkShare "reward band" v

/-- `validateRewardDistributionWindow`. -/
def validateRewardDistributionWindow (v : UInt64) : Outcome Unit :=
  checkWindow "reward distribution window" v

/-- `validateWhitelist`. -/
def validateWhitelist (v : List DenomItem) : Outcome Unit := v.forM validateDenomItem

/-- `validateSlashFraction`. -/
def validateSlashFraction (v : Dec) : Outcome Unit := checkShare "slash fraction" v

/-- `validateSlashWindow`. -/
def validateSlashWindow (v : UInt64) : Outcome Unit := checkWindow "slash window" v

/-- `validateMinValidPerWindow`. -/
def validateMinValidPerWindow (v : Dec) : Outcome Unit := checkShare "min valid per window" v

/-- The checks of `ParamSetPairs`, in its order. -/
def Params.validatePairs (p : Params) : Outcome Unit := do
  validateVotePeriod p.votePeriod
  validateVoteThreshold p.voteThreshold
  validateRewardBand p.rewardBand
  validateRewardDistributionWindow p.rewardDistributionWindow
  validateWhitelist p.whitelist
  validateSlashFraction p.slashFraction
  validateSlashWindow p.slashWindow
  validateMinValidPerWindow p.minValidPerWindow

/-! ### The code -/

/-- `FeederDelegation`. -/
structure FeederDelegation where
  feederAddress : String
  validatorAddress : String
deriving DecidableEq, Repr

/-- `MissCounter`. -/
structure MissCounter where
  validatorAddress : String
  missCounter : ℕ
deriving DecidableEq, Repr

/-- `TobinTax`. -/
structure TobinTax where
  denom : Denom
  tobinTax : Dec
deriving DecidableEq, Repr

/-- `GenesisState`. -/
structure GenesisState where
  params : Params
  feederDelegations : List FeederDelegation
  exchangeRates : List ExchangeRateTuple
  missCounters : List MissCounter
  aggregateExchangeRatePrevotes : List AggregateExchangeRatePrevote
  aggregateExchangeRateVotes : List AggregateExchangeRateVote
  tobinTaxes : List TobinTax

/-- The host, with the texts of accounts. -/
structure GenesisHost extends Host where
  /-- `AccAddress.String`. -/
  accString : AccAddress → String

/-- The keepers, with the account keeper. -/
structure GenesisKeepers (σ : Type) extends Keepers σ where
  /-- `GetOracleAccount` finds the module account. -/
  hasOracleAccount : σ → Bool

/-- The operator a genesis names; a text that is none is a panic. -/
def genesisVal (H : GenesisHost) (s : String) : Outcome ValAddress :=
  match H.valAddressFromBech32 s with
  | none => panicked (.raised "decoding bech32 failed")
  | some a => pure a

/-- The account a genesis names. -/
def genesisAcc (H : GenesisHost) (s : String) : Outcome AccAddress :=
  match H.accAddressFromBech32 s with
  | none => panicked (.raised "decoding bech32 failed")
  | some a => pure a

/-- A feeder delegation of a genesis. -/
def readFeederDelegation (H : GenesisHost) (d : FeederDelegation) :
    Outcome (ValAddress × AccAddress) := do
  let voter ← genesisVal H d.validatorAddress
  let feeder ← genesisAcc H d.feederAddress
  pure (voter, feeder)

/-- An item of a genesis that is stored under the operator it names. -/
def readUnderVal {γ ν : Type} (H : GenesisHost) (name : γ → String) (value : γ → ν) (x : γ) :
    Outcome (ValAddress × ν) := do
  let valAddr ← genesisVal H (name x)
  pure (valAddr, value x)

/-- A miss counter of a genesis. -/
def readMissCounter (H : GenesisHost) : MissCounter → Outcome (ValAddress × ℕ) :=
  readUnderVal H MissCounter.validatorAddress MissCounter.missCounter

/-- A prevote of a genesis. -/
def readPrevote (H : GenesisHost) :
    AggregateExchangeRatePrevote → Outcome (ValAddress × AggregateExchangeRatePrevote) :=
  readUnderVal H AggregateExchangeRatePrevote.voter id

/-- A vote of a genesis. -/
def readVote (H : GenesisHost) :
    AggregateExchangeRateVote → Outcome (ValAddress × AggregateExchangeRateVote) :=
  readUnderVal H AggregateExchangeRateVote.voter id

/-- The tobin taxes of a genesis; without any, those of the whitelist. -/
def genesisTobinTaxes (data : GenesisState) : TargetMap :=
  if 0 < data.tobinTaxes.length then
    storeEntries (data.tobinTaxes.map fun tt => (tt.denom, tt.tobinTax))
  else whitelistTargets data.params.whitelist

/-- `InitGenesis`, into an empty store and next to the other modules. -/
def initGenesis (K : GenesisKeepers σ) (H : GenesisHost) (ext : σ) (data : GenesisState) :
    Outcome (World σ) := do
  let feederDelegations ← readEntries (readFeederDelegation H) data.feederDelegations
  let exchangeRates := storeEntries (data.exchangeRates.map fun ex => (ex.denom, ex.exchangeRate))
  let missCounters ← readEntries (readMissCounter H) data.missCounters
  let prevotes ← readEntries (readPrevote H) data.aggregateExchangeRatePrevotes
  let votes ← readEntries (readVote H) data.aggregateExchangeRateVotes
  let tobinTaxes := genesisTobinTaxes data
  panicOnError "value from ParamSetPair is invalid: " data.params.validatePairs
  if K.hasOracleAccount ext then
    pure ⟨⟨data.params, exchangeRates, feederDelegations, missCounters, prevotes, votes, tobinTaxes⟩,
      ext⟩
  else panicked (.raised "oracle module account has not been set")

/-- `ExportGenesis`. -/
def exportGenesis (H : GenesisHost) (s : Store) : GenesisState where
  params := s.params
  feederDelegations := s.feederDelegations.toList.map fun e => ⟨H.accString e.2, H.valString e.1⟩
  exchangeRates := s.exchangeRates.toList.map fun e => ⟨e.1, e.2⟩
  missCounters := s.missCounters.toList.map fun e => ⟨H.valString e.1, e.2⟩
  aggregateExchangeRatePrevotes := s.prevotes.toList.map Prod.snd
  aggregateExchangeRateVotes := s.votes.toList.map Prod.snd
  tobinTaxes := s.tobinTaxes.toList.map fun e => ⟨e.1, e.2⟩

/-! ### Runs -/

/-- The states of a chain that began with some genesis, with the height of the block being
executed: a genesis that was imported, a step that leaves the parameters, or a change of the
parameters, each of which passes its own check. -/
inductive ReachedFromGenesis (K : GenesisKeepers σ) (H : GenesisHost) : ℕ × World σ → Prop where
  | genesis {h : ℕ} {ext : σ} {data : GenesisState} {w : World σ}
      (hinit : initGenesis K H ext data = .ok w) : ReachedFromGenesis K H (h, w)
  | step {x y : ℕ × World σ} (hx : ReachedFromGenesis K H x)
      (hstep : Step K.toKeepers H.toHost x y) (hparams : y.2.store.params = x.2.store.params) :
      ReachedFromGenesis K H y
  | params {h : ℕ} {w : World σ} (hx : ReachedFromGenesis K H (h, w)) (p : Params)
      (hvalid : p.validatePairs = .ok ()) :
      ReachedFromGenesis K H (h, { w with store := { w.store with params := p } })

/-! ### Texts that can be read -/

/-- The operator is read back from its text. -/
def GenesisHost.IsVal (H : GenesisHost) (a : ValAddress) : Prop :=
  H.valAddressFromBech32 (H.valString a) = some a

/-- The account is read back from its text. -/
def GenesisHost.IsAcc (H : GenesisHost) (a : AccAddress) : Prop :=
  H.accAddressFromBech32 (H.accString a) = some a

/-- An address that was read has a text of its own, and so have the operators of the staking
module. -/
structure AddressesLawful (K : GenesisKeepers σ) (H : GenesisHost) : Prop where
  val : ∀ s a, H.valAddressFromBech32 s = some a → H.IsVal a
  acc : ∀ s a, H.accAddressFromBech32 s = some a → H.IsAcc a
  operator : ∀ ext a v, K.validator ext a = some v → H.IsVal v.operator

/-- An export of the store can be read: its parameters pass their checks and its addresses their
texts, and votes are stored under the address of their voter. -/
structure Exportable (H : GenesisHost) (s : Store) : Prop where
  params : s.params.validatePairs = .ok ()
  feeder : ∀ a f, s.feederDelegations[a]? = some f → H.IsVal a ∧ H.IsAcc f
  missCounter : ∀ a n, s.missCounters[a]? = some n → H.IsVal a
  prevote : ∀ a p, s.prevotes[a]? = some p → H.valAddressFromBech32 p.voter = some a
  vote : ∀ a v, s.votes[a]? = some v → H.valAddressFromBech32 v.voter = some a

section Reading

variable {H : GenesisHost} {a : String} {s : String}

lemma genesisVal_eq_ok_iff : genesisVal H s = .ok a ↔ H.valAddressFromBech32 s = some a := by
  rw [genesisVal]
  cases H.valAddressFromBech32 s <;> simp

lemma genesisAcc_eq_ok_iff : genesisAcc H s = .ok a ↔ H.accAddressFromBech32 s = some a := by
  rw [genesisAcc]
  cases H.accAddressFromBech32 s <;> simp

lemma readFeederDelegation_eq_ok_iff {d : FeederDelegation} {e : ValAddress × AccAddress} :
    readFeederDelegation H d = .ok e ↔ H.valAddressFromBech32 d.validatorAddress = some e.1
      ∧ H.accAddressFromBech32 d.feederAddress = some e.2 := by
  rw [readFeederDelegation, bind_eq_ok]
  simp only [bind_eq_ok, genesisVal_eq_ok_iff, genesisAcc_eq_ok_iff, pure_eq_ok, Except.ok.injEq]
  constructor
  · rintro ⟨voter, hvoter, feeder, hfeeder, rfl⟩
    exact ⟨hvoter, hfeeder⟩
  · rintro ⟨hvoter, hfeeder⟩
    exact ⟨e.1, hvoter, e.2, hfeeder, rfl⟩

lemma readUnderVal_eq_ok_iff {γ ν : Type} {name : γ → String} {value : γ → ν} {x : γ}
    {e : ValAddress × ν} :
    readUnderVal H name value x = .ok e
      ↔ H.valAddressFromBech32 (name x) = some e.1 ∧ value x = e.2 := by
  rw [readUnderVal, bind_eq_ok]
  simp only [genesisVal_eq_ok_iff, pure_eq_ok, Except.ok.injEq]
  constructor
  · rintro ⟨valAddr, hval, rfl⟩
    exact ⟨hval, rfl⟩
  · rintro ⟨hval, hvalue⟩
    exact ⟨e.1, hval, by rw [hvalue]⟩

end Reading

section Runs

variable {K : GenesisKeepers σ} {H : GenesisHost}

/-- What a genesis that was imported leaves can be exported. -/
lemma exportable_initGenesis (hlaw : AddressesLawful K H) {ext : σ} {data : GenesisState}
    {w : World σ} (h : initGenesis K H ext data = .ok w) : Exportable H w.store := by
  obtain ⟨feeders, hfeeders, h⟩ := bind_eq_ok.mp h
  obtain ⟨counters, hcounters, h⟩ := bind_eq_ok.mp h
  obtain ⟨prevotes, hprevotes, h⟩ := bind_eq_ok.mp h
  obtain ⟨votes, hvotes, h⟩ := bind_eq_ok.mp h
  obtain ⟨_, hparams, h⟩ := bind_eq_ok.mp h
  split_ifs at h
  · obtain rfl := Except.ok.inj h
    refine ⟨panicOnError_eq_ok.mp hparams, fun a f hf => ?_, fun a n hn => ?_, fun a p hp => ?_,
      fun a v hv => ?_⟩
    · obtain ⟨d, -, hd⟩ := exists_of_readEntries hfeeders hf
      obtain ⟨hval, hacc⟩ := readFeederDelegation_eq_ok_iff.mp hd
      exact ⟨hlaw.val _ _ hval, hlaw.acc _ _ hacc⟩
    · obtain ⟨mc, -, hmc⟩ := exists_of_readEntries hcounters hn
      exact hlaw.val _ _ (readUnderVal_eq_ok_iff.mp hmc).1
    · obtain ⟨ap, -, hap⟩ := exists_of_readEntries hprevotes hp
      obtain ⟨hval, rfl⟩ := readUnderVal_eq_ok_iff.mp hap
      exact hval
    · obtain ⟨av, -, hav⟩ := exists_of_readEntries hvotes hv
      obtain ⟨hval, rfl⟩ := readUnderVal_eq_ok_iff.mp hav
      exact hval
  · exact absurd h (by simp)

/-- The miss counters of a tally are those before it, and those of active validators. -/
lemma isVal_countMisses {S : Schedule} {t : Tallied} {counters : ExtTreeMap ValAddress ℕ}
    (hcounters : ∀ a n, counters[a]? = some n → H.IsVal a)
    (ht : ∀ (k : String) (c : Claim), t.claims[k]? = some c → H.IsVal c.recipient) :
    ∀ a n, (countMisses S t counters)[a]? = some n → H.IsVal a := by
  refine List.foldlRecOn (motive := fun cur : ExtTreeMap ValAddress ℕ =>
    ∀ a n, cur[a]? = some n → H.IsVal a) _ _ hcounters ?_
  intro cur hcur e he a n hn
  rw [countMiss] at hn
  split_ifs at hn with hwon
  · exact hcur a n hn
  · rw [getElem?_insert_ite] at hn
    split_ifs at hn with ha
    · rw [← ha]
      exact ht e.1 e.2 ((S.rangeMiss.mem_visit_toList t.claims).mp he)
    · exact hcur a n hn

/-- Every claim of a tally is that of an operator of the staking module. -/
lemma isVal_of_tallyVotes (hlaw : AddressesLawful K H) {S : Schedule} {w : World σ}
    (hw : Exportable H w.store) {t : Tallied}
    (h : tallyVotes K.toKeepers H.toHost S w = .ok t) {k : String} {c : Claim}
    (hc : t.claims[k]? = some c) : H.IsVal c.recipient := by
  obtain ⟨claims, hclaims, -⟩ := bind_eq_ok.mp h
  have hoperator : ∀ (k : String) (c : Claim), claims[k]? = some c →
      H.valString c.recipient = k ∧ H.IsVal c.recipient :=
    collectClaims_forall (P := fun k c => H.valString c.recipient = k ∧ H.IsVal c.recipient)
      (fun a v _ hv _ => ⟨rfl, hlaw.operator _ a v hv⟩) hclaims fun k c hkc => by simp at hkc
  -- a voter whose text has a claim has the text of that claim's operator
  have hvoter : ∀ (a : ValAddress) u, w.store.votes[a]? = some u → u.voter ∈ claims →
      u.voter = H.valString a := by
    intro a u hu hmem
    obtain ⟨c, hc⟩ := Option.isSome_iff_exists.mp (ExtTreeMap.mem_iff_isSome_getElem?.mp hmem)
    obtain ⟨hname, hval⟩ := hoperator _ c hc
    have hread := hw.vote a u hu
    rw [← hname, hval] at hread
    rw [← Option.some.inj hread, hname]
  obtain ⟨c₀, hc₀, hrec⟩ := recipient_of_tallyVotes hclaims hvoter h hc
  rw [hrec]
  exact (hoperator k c₀ hc₀).2

/-- The end of a block. -/
lemma Exportable.endBlocker (hlaw : AddressesLawful K H) {S : Schedule} {height : ℕ}
    {w w' : World σ} (hw : Exportable H w.store)
    (h : endBlocker K.toKeepers H.toHost S height w = .ok w') : Exportable H w'.store := by
  obtain ⟨w₁, hperiod, h⟩ := bind_eq_ok.mp h
  have hw₁ : Exportable H w₁.store := by
    obtain ⟨last, -, hperiod⟩ := bind_eq_ok.mp hperiod
    split_ifs at hperiod
    · obtain ⟨t, ht, hsettle⟩ := bind_eq_ok.mp hperiod
      obtain ⟨_, _, taxes, -, hstore⟩ := settlePeriod_eq_ok hsettle
      rw [hstore]
      exact ⟨hw.params, hw.feeder,
        isVal_countMisses hw.missCounter fun k c hc => isVal_of_tallyVotes hlaw hw ht hc,
        fun a p hp => hw.prevote a p (getElem?_of_clearPrevotes hp),
        fun a v hv => absurd hv (by simp)⟩
    · obtain rfl := Except.ok.inj hperiod
      exact hw
  obtain ⟨counters, hcounters, hstore⟩ := closeSlashWindow_eq_ok h
  rw [hstore]
  refine ⟨hw₁.params, hw₁.feeder, fun a n hn => ?_, hw₁.prevote, hw₁.vote⟩
  rcases hcounters with rfl | rfl
  · exact hw₁.missCounter a n hn
  · exact absurd hn (by simp)

/-- Every step that leaves the parameters. -/
lemma Exportable.step (hlaw : AddressesLawful K H) {x y : ℕ × World σ}
    (hx : Exportable H x.2.store) (hstep : Step K.toKeepers H.toHost x y)
    (hparams : y.2.store.params = x.2.store.params) : Exportable H y.2.store := by
  cases hstep with
  | prevote msg hbasic hrun =>
      obtain ⟨valAddr, hash, hval, -, rfl⟩ := aggregateExchangeRatePrevote_spec hrun
      refine ⟨hx.params, hx.feeder, hx.missCounter, fun a p hp => ?_, hx.vote⟩
      rw [getElem?_insert_ite] at hp
      split_ifs at hp with ha
      · obtain rfl := Option.some.inj hp
        exact ha ▸ hlaw.val _ _ hval
      · exact hx.prevote a p hp
  | vote msg hbasic hrun =>
      obtain ⟨valAddr, _, _, tuples, hval, -, -, -, -, -, -, rfl⟩ :=
        aggregateExchangeRateVote_spec hrun
      refine ⟨hx.params, hx.feeder, hx.missCounter, fun a p hp => ?_, fun a v hv => ?_⟩
      · rw [getElem?_erase_ite] at hp
        split_ifs at hp
        exact hx.prevote a p hp
      · rw [getElem?_insert_ite] at hv
        split_ifs at hv with ha
        · obtain rfl := Option.some.inj hv
          exact ha ▸ hlaw.val _ _ hval
        · exact hx.vote a v hv
  | delegate msg hbasic hrun =>
      obtain ⟨operator, delegate, hoperator, hdelegate, rfl⟩ := delegateFeedConsent_spec hrun
      refine ⟨hx.params, fun a f hf => ?_, hx.missCounter, hx.prevote, hx.vote⟩
      rw [getElem?_insert_ite] at hf
      split_ifs at hf with ha
      · obtain rfl := Option.some.inj hf
        exact ⟨ha ▸ hlaw.val _ _ hoperator, hlaw.acc _ _ hdelegate⟩
      · exact hx.feeder a f hf
  | params p hvalid => exact ⟨hparams ▸ hx.params, hx.feeder, hx.missCounter, hx.prevote, hx.vote⟩
  | other ext => exact hx
  | endBlock S hrun => exact hx.endBlocker hlaw hrun

/-- **Every state of a chain can be exported.** -/
theorem exportable_of_reached (hlaw : AddressesLawful K H) {x : ℕ × World σ}
    (hx : ReachedFromGenesis K H x) : Exportable H x.2.store := by
  induction hx with
  | genesis hinit => exact exportable_initGenesis hlaw hinit
  | step _ hstep hparams ih => exact ih.step hlaw hstep hparams
  | params _ p hvalid ih => exact ⟨hvalid, ih.feeder, ih.missCounter, ih.prevote, ih.vote⟩

end Runs

/-! ### The round trip -/

section RoundTrip

variable {K : GenesisKeepers σ} {H : GenesisHost} {s : Store} {ext : σ}

/-- The tobin taxes of an export that is imported. -/
lemma genesisTobinTaxes_exportGenesis :
    genesisTobinTaxes (exportGenesis H s)
      = if s.tobinTaxes = ∅ then whitelistTargets s.params.whitelist else s.tobinTaxes := by
  have hstored : storeEntries ((exportGenesis H s).tobinTaxes.map fun tt => (tt.denom, tt.tobinTax))
      = s.tobinTaxes := by
    rw [exportGenesis, List.map_map]
    exact (congrArg storeEntries (List.map_id _)).trans (storeEntries_toList s.tobinTaxes)
  have hlength : 0 < (exportGenesis H s).tobinTaxes.length ↔ s.tobinTaxes ≠ ∅ := by
    rw [List.length_pos_iff, not_iff_not]
    constructor
    · intro hnil
      rw [← hstored, hnil]
      rfl
    · intro hempty
      rw [exportGenesis, hempty]
      rfl
  rw [genesisTobinTaxes, hstored]
  by_cases hempty : s.tobinTaxes = ∅
  · rw [if_neg (fun hpos => hlength.mp hpos hempty), if_pos hempty]
    rfl
  · rw [if_pos (hlength.mpr hempty), if_neg hempty]

/-- **The import of an export** stores what was exported, but for an empty list of tobin taxes. -/
theorem initGenesis_exportGenesis (hs : Exportable H s) (hacc : K.hasOracleAccount ext = true) :
    initGenesis K H ext (exportGenesis H s)
      = .ok ⟨{ s with tobinTaxes := genesisTobinTaxes (exportGenesis H s) }, ext⟩ := by
  have hfeeders : readEntries (readFeederDelegation H) (exportGenesis H s).feederDelegations
      = .ok s.feederDelegations :=
    readEntries_toList fun a f hf => readFeederDelegation_eq_ok_iff.mpr (hs.feeder a f hf)
  have hrates : storeEntries ((exportGenesis H s).exchangeRates.map fun ex =>
      (ex.denom, ex.exchangeRate)) = s.exchangeRates := by
    rw [exportGenesis, List.map_map]
    exact (congrArg storeEntries (List.map_id _)).trans (storeEntries_toList s.exchangeRates)
  have hcounters : readEntries (readMissCounter H) (exportGenesis H s).missCounters
      = .ok s.missCounters :=
    readEntries_toList fun a n hn => readUnderVal_eq_ok_iff.mpr ⟨hs.missCounter a n hn, rfl⟩
  have hprevotes : readEntries (readPrevote H) (exportGenesis H s).aggregateExchangeRatePrevotes
      = .ok s.prevotes :=
    readEntries_toList fun a p hp => readUnderVal_eq_ok_iff.mpr ⟨hs.prevote a p hp, rfl⟩
  have hvotes : readEntries (readVote H) (exportGenesis H s).aggregateExchangeRateVotes
      = .ok s.votes :=
    readEntries_toList fun a v hv => readUnderVal_eq_ok_iff.mpr ⟨hs.vote a v hv, rfl⟩
  have hparams : panicOnError "value from ParamSetPair is invalid: "
      (exportGenesis H s).params.validatePairs = .ok () := panicOnError_eq_ok.mpr hs.params
  rw [initGenesis, hfeeders, ok_bind, hcounters, ok_bind, hprevotes, ok_bind, hvotes, ok_bind,
    hparams, ok_bind, if_pos hacc, hrates]
  rfl

lemma whitelistTargets_eq_empty_iff {whitelist : List DenomItem} :
    whitelistTargets whitelist = ∅ ↔ whitelist = [] := by
  constructor
  · intro hempty
    rcases List.eq_nil_or_concat whitelist with rfl | ⟨items, item, rfl⟩
    · rfl
    · have hlast : (whitelistTargets (items.concat item))[item.name]? = some item.tobinTax := by
        rw [whitelistTargets, List.concat_eq_append, List.foldl_append]
        exact ExtTreeMap.getElem?_insert_self
      rw [hempty] at hlast
      exact absurd hlast (by simp)
  · rintro rfl
    rfl

/-- **The oracle genesis round trip.** An export of a state of the chain can always be imported, and
the import restores the state exactly when there are tobin taxes, or the whitelist is empty too. -/
theorem initGenesis_restores_iff (hlaw : AddressesLawful K H) {h : ℕ} {w : World σ}
    (hw : ReachedFromGenesis K H (h, w)) (hacc : K.hasOracleAccount ext = true) :
    (∃ w', initGenesis K H ext (exportGenesis H w.store) = .ok w' ∧ w'.store = w.store)
      ↔ (w.store.tobinTaxes = ∅ → w.store.params.whitelist = []) := by
  rw [initGenesis_exportGenesis (exportable_of_reached hlaw hw) hacc, genesisTobinTaxes_exportGenesis]
  constructor
  · rintro ⟨w', h, hstore⟩ hempty
    obtain rfl := Except.ok.inj h
    have htaxes := congrArg Store.tobinTaxes hstore
    rw [if_pos hempty, hempty] at htaxes
    exact whitelistTargets_eq_empty_iff.mp htaxes
  · intro hcond
    refine ⟨_, rfl, ?_⟩
    split_ifs with hempty
    · rw [whitelistTargets_eq_empty_iff.mpr (hcond hempty), ← hempty]
    · rfl

end RoundTrip

/-! ### Two chains -/

/-- A host on which every text is an address. -/
def literalHost : GenesisHost :=
  { tableHost ⟨[], [], []⟩ with
    valString := id
    valAddressFromBech32 := some
    accAddressFromBech32 := some
    accString := id }

/-- Modules that stand still, and the account of the oracle. -/
def literalKeepers : GenesisKeepers (List Validator) :=
  { staticKeepers with hasOracleAccount := fun _ => true }

lemma addressesLawful_literal : AddressesLawful literalKeepers literalHost :=
  ⟨fun _ _ _ => rfl, fun _ _ _ => rfl, fun _ _ _ _ => rfl⟩

/-- A genesis with the given parameters and nothing else. -/
def bareGenesis (p : Params) : GenesisState := ⟨p, [], [], [], [], [], []⟩

/-- The default genesis survives an export and an import. -/
theorem restores_defaultGenesis : ∃ w,
    initGenesis literalKeepers literalHost [] (bareGenesis defaultParams) = .ok w
      ∧ ∃ w', initGenesis literalKeepers literalHost [] (exportGenesis literalHost w.store) = .ok w'
        ∧ w'.store = w.store := by
  have hgenesis : ∀ w,
      initGenesis literalKeepers literalHost [] (bareGenesis defaultParams) = .ok w →
        ReachedFromGenesis literalKeepers literalHost (0, w) := fun _ h => .genesis h
  refine ⟨_, rfl, (initGenesis_restores_iff addressesLawful_literal (hgenesis _ rfl) rfl).mpr
    fun hempty => ?_⟩
  exact absurd (whitelistTargets_eq_empty_iff.mp hempty) (by decide)

/-- The default parameters without a whitelist. -/
def noTargets : Params := { defaultParams with whitelist := [] }

/-- A whitelist that has been voted in and not been applied yet. -/
def pendingWhitelist : World (List Validator) :=
  ⟨⟨defaultParams, ∅, ∅, ∅, ∅, ∅, ∅⟩, []⟩

/-- A chain without vote targets gets a whitelist. Exported before the end of the vote period and
imported again, it has the targets of the whitelist. -/
theorem not_restores_pendingWhitelist :
    ReachedFromGenesis literalKeepers literalHost (0, pendingWhitelist)
      ∧ ¬ ∃ w', initGenesis literalKeepers literalHost []
          (exportGenesis literalHost pendingWhitelist.store) = .ok w'
            ∧ w'.store = pendingWhitelist.store := by
  constructor
  · have hinit : initGenesis literalKeepers literalHost [] (bareGenesis noTargets)
        = .ok ⟨⟨noTargets, ∅, ∅, ∅, ∅, ∅, ∅⟩, []⟩ := rfl
    exact (ReachedFromGenesis.genesis hinit).params defaultParams rfl
  · rintro ⟨w', h, hstore⟩
    obtain ⟨w₁, h₁, htaxed⟩ := exists_of_returns
      (p := fun w₁ : World (List Validator) => w₁.store.tobinTaxes.contains "uusd")
      (x := initGenesis literalKeepers literalHost []
        (exportGenesis literalHost pendingWhitelist.store))
      (by decide +kernel)
    rw [Except.ok.inj (h₁.symm.trans h), hstore] at htaxed
    exact absurd htaxed (by decide +kernel)

end ColumbusCore.Oracle
