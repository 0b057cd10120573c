import ColumbusCore.Oracle.StaticChain

/-!
The end of a slash window (`keeper/slash.go`).

* `operatorsToSlash`: the operators that exist, are bonded, are not jailed and whose valid rate is
  below the minimum;
* `SlashesApart`: no slash of the window changes whether another operator exists, is bonded or is
  jailed;
* `foldlM_judgeMissCounter_eq_ok_iff`: the loop over the miss counters is one over these operators;
* `slashAndReset_iff`: **the window ends as intended exactly when every operator below the minimum
  still has a validator, and staking slashes and jails those to slash**. A counter outlives a
  validator that is removed from staking, and the lookup of the removed one is dereferenced.

`stakingLedger` is a staking module in which validators are slashed and jailed, to run the
model on.
-/

namespace ColumbusCore.Oracle

open Go
open Std (ExtTreeMap)

variable {σ : Type}

/-! ### Who is slashed -/

/-- The operators a window that ends in the state `s` punishes. -/
def operatorsToSlash (K : Keepers σ) (s : σ) (p : Params) (counters : List (ValAddress × ℕ)) :
    List ValAddress :=
  (counters.filter fun e => decide (BelowMinimum p e.2) && isActive K s e.1).map Prod.fst

/-- Whether an operator exists and, if so, is bonded and is jailed. -/
def status (K : Keepers σ) (s : σ) (operator : ValAddress) : Option (Bool × Bool) :=
  (K.validator s operator).map fun v => (v.bonded, v.jailed)

/-- The operators are slashed and jailed one after the other, from the state `s₀` on, and no turn
that succeeds changes whether another of the watched operators exists, is bonded or is jailed. It
may change everything else of it. A slash reaches another validator through its redelegations: they
are unbonded there, which may leave that validator below its own minimum, and this is excluded. -/
def SlashesApart (K : Keepers σ) (height : ℕ) (p : Params) (s₀ : σ)
    (operators watched : List ValAddress) : Prop :=
  ∀ before a after s s', operators = before ++ a :: after →
    before.foldlM (slashOperator K height p) s₀ = .ok s → slashOperator K height p s a = .ok s' →
    ∀ b ∈ watched, b ≠ a → status K s' b = status K s b

/-! ### One miss counter -/

/-- Without a vote period in the window the first counter divides by zero. -/
lemma judgeMissCounter_eq_error (K : Keepers σ) (height : ℕ) {p : Params}
    (hn : votePeriodsPerWindow p = 0) (s : σ) (e : ValAddress × ℕ) :
    judgeMissCounter K height p (votePeriodsPerWindow p % 2 ^ 64).toNat s e
      = .error (.panic .divisionByZero) := by
  rw [judgeMissCounter, hn]
  rfl

/-! ### All miss counters -/

lemma operatorsToSlash_cons (K : Keepers σ) (s : σ) (p : Params) (e : ValAddress × ℕ)
    (l : List (ValAddress × ℕ)) :
    operatorsToSlash K s p (e :: l) = operatorsToSlash K s p [e] ++ operatorsToSlash K s p l := by
  rw [operatorsToSlash, operatorsToSlash, operatorsToSlash, ← List.map_append, ← List.filter_append]
  rfl

lemma isActive_congr {K : Keepers σ} {s s' : σ} {a : ValAddress}
    (h : status K s' a = status K s a) : isActive K s' a = isActive K s a := by
  have hstatus : ∀ s, isActive K s a = (status K s a).any fun x => x.1 && !x.2 := fun s => by
    rw [isActive, status, Option.any_map]
  rw [hstatus, hstatus, h]

/-- A counter has at most its own operator to slash. -/
lemma eq_of_mem_operatorsToSlash {K : Keepers σ} {s : σ} {p : Params} {e : ValAddress × ℕ}
    {a : ValAddress} (h : a ∈ operatorsToSlash K s p [e]) : a = e.1 := by
  obtain ⟨e', he', rfl⟩ := List.mem_map.mp h
  rw [List.mem_singleton.mp (List.mem_filter.mp he').1]

section Loop

variable {K : Keepers σ} {height : ℕ} {p : Params} {s₀ : σ} {operators watched : List ValAddress}

/-- The slashes so far have not changed the status of an operator they were not of. -/
lemma SlashesApart.status_eq (h : SlashesApart K height p s₀ operators watched) {b : ValAddress}
    (hb : b ∈ watched) {before after : List ValAddress} {s : σ}
    (hsplit : operators = before ++ after) (hnot : b ∉ before)
    (hrun : before.foldlM (slashOperator K height p) s₀ = .ok s) : status K s b = status K s₀ b := by
  induction before using List.reverseRecOn generalizing after s with
  | nil => rw [← Except.ok.inj hrun]
  | append_singleton before a ih =>
      rw [List.foldlM_append] at hrun
      obtain ⟨s₁, hrun₁, hlast⟩ := bind_eq_ok.mp hrun
      rw [List.foldlM_cons] at hlast
      obtain ⟨s₂, hslash, hlast⟩ := bind_eq_ok.mp hlast
      obtain rfl := Except.ok.inj hlast
      rw [List.append_assoc, List.singleton_append] at hsplit
      rw [List.mem_append, List.mem_singleton, not_or] at hnot
      rw [h before a after s₁ _ hsplit hrun₁ hslash b hb hnot.2, ih hsplit hnot.1 hrun₁]

variable (hp : ValidParams p) (hn : votePeriodsPerWindow p ≠ 0)
  (hapart : SlashesApart K height p s₀ operators watched)

include hp hn hapart

/-- One round of the loop, in a state the slashes before have reached: it returns where an operator
below the minimum had a validator at the start, and slashes the operator if it is to be slashed. -/
lemma judgeMissCounter_eq_ok_iff {e : ValAddress × ℕ} (he : e.1 ∈ watched)
    {before after : List ValAddress} {s s' : σ} (hsplit : operators = before ++ after)
    (hnot : e.1 ∉ before) (hrun : before.foldlM (slashOperator K height p) s₀ = .ok s) :
    judgeMissCounter K height p (votePeriodsPerWindow p % 2 ^ 64).toNat s e = .ok s'
      ↔ (BelowMinimum p e.2 → ∃ v, K.validator s₀ e.1 = some v)
        ∧ (operatorsToSlash K s₀ p [e]).foldlM (slashOperator K height p) s = .ok s' := by
  have hstatus := hapart.status_eq he hsplit hnot hrun
  have hnone : (K.validator s e.1).isNone = (K.validator s₀ e.1).isNone := by
    simpa only [status, Option.isNone_map] using congrArg Option.isNone hstatus
  rw [judgeMissCounter_eq K height hp hn, hnone, isActive_congr hstatus, operatorsToSlash]
  by_cases hbelow : BelowMinimum p e.2
  · cases hv : K.validator s₀ e.1 with
    | none => simp [hbelow]
    | some v =>
        have hlast : (slashOperator K height p s e.1 >>= fun s => Except.ok s)
            = slashOperator K height p s e.1 := bind_pure _
        by_cases hactive : isActive K s₀ e.1 = true <;> simp [hbelow, hactive, hlast]
  · simp [hbelow]

/-- **The loop over the miss counters.** From a state the slashes before have reached, it returns
exactly where every operator below the minimum had a validator at the start and the operators to
slash that are left are slashed and jailed, and it does nothing else. -/
theorem foldlM_judgeMissCounter_eq_ok_iff {l : List (ValAddress × ℕ)}
    (hnodup : (l.map Prod.fst).Nodup) (hwatched : ∀ e ∈ l, e.1 ∈ watched)
    {before : List ValAddress} {s s' : σ} (hsplit : operators = before ++ operatorsToSlash K s₀ p l)
    (hnot : ∀ e ∈ l, e.1 ∉ before)
    (hrun : before.foldlM (slashOperator K height p) s₀ = .ok s) :
    l.foldlM (judgeMissCounter K height p (votePeriodsPerWindow p % 2 ^ 64).toNat) s = .ok s'
      ↔ (∀ e ∈ l, BelowMinimum p e.2 → ∃ v, K.validator s₀ e.1 = some v)
        ∧ (operatorsToSlash K s₀ p l).foldlM (slashOperator K height p) s = .ok s' := by
  induction l generalizing before s with
  | nil => simp [operatorsToSlash]
  | cons e l ih =>
      rw [List.map_cons, List.nodup_cons] at hnodup
      rw [List.forall_mem_cons] at hwatched hnot
      have hround : ∀ s₁, judgeMissCounter K height p (votePeriodsPerWindow p % 2 ^ 64).toNat s e
            = .ok s₁ ↔ _ := fun s₁ =>
        judgeMissCounter_eq_ok_iff hp hn hapart hwatched.1 hsplit hnot.1 hrun
      rw [operatorsToSlash_cons K s₀ p e l, ← List.append_assoc] at hsplit
      -- the operators to come are those of before the round
      have hrest : ∀ s₁, (operatorsToSlash K s₀ p [e]).foldlM (slashOperator K height p) s = .ok s₁ →
          (l.foldlM (judgeMissCounter K height p (votePeriodsPerWindow p % 2 ^ 64).toNat) s₁ = .ok s'
            ↔ _) := fun s₁ hs₁ => by
        refine ih hnodup.2 hwatched.2 hsplit (fun e' he' hmem => ?_)
          (by rw [List.foldlM_append, hrun, ok_bind, hs₁])
        rcases List.mem_append.mp hmem with hbefore | hnow
        · exact hnot.2 e' he' hbefore
        · exact hnodup.1 (List.mem_map.mpr ⟨e', he', eq_of_mem_operatorsToSlash hnow⟩)
      rw [foldlM_cons_eq_ok, operatorsToSlash_cons K s₀ p e l, List.foldlM_append,
        List.forall_mem_cons, bind_eq_ok]
      constructor
      · rintro ⟨s₁, hjudge, hloop⟩
        obtain ⟨hfound, hslash⟩ := (hround s₁).mp hjudge
        obtain ⟨hall, hslashes⟩ := (hrest s₁ hslash).mp hloop
        exact ⟨⟨hfound, hall⟩, s₁, hslash, hslashes⟩
      · rintro ⟨⟨hfound, hall⟩, s₁, hslash, hslashes⟩
        exact ⟨s₁, (hround s₁).mpr ⟨hfound, hslash⟩, (hrest s₁ hslash).mpr ⟨hall, hslashes⟩⟩

end Loop

/-! ### The end of a window -/

/-- **The end of a slash window**, where no slash of it changes whether another operator with a
counter exists, is bonded or is jailed. It returns with every miss counter removed, and with exactly
the operators that exist, are bonded, are not jailed and are below the minimum slashed and jailed,
if and only if, for every counter, there are vote periods in the window and an operator below the
minimum has a validator, and staking slashes and jails these operators in turn without a fault. -/
theorem slashAndReset_iff (K : Keepers σ) (height : ℕ) {w : World σ}
    (hp : w.store.params.validate = .ok ())
    (hapart : SlashesApart K height w.store.params w.ext
      (operatorsToSlash K w.ext w.store.params w.store.missCounters.toList)
      w.store.missCounters.keys) :
    (∃ ext, slashAndResetMissCounters K height w
        = .ok { store := { w.store with missCounters := ∅ }, ext := ext }
      ∧ (operatorsToSlash K w.ext w.store.params w.store.missCounters.toList).foldlM
          (slashOperator K height w.store.params) w.ext = .ok ext)
      ↔ (∀ (a : ValAddress) (m : ℕ), w.store.missCounters[a]? = some m →
          votePeriodsPerWindow w.store.params ≠ 0
            ∧ (BelowMinimum w.store.params m → ∃ v, K.validator w.ext a = some v))
        ∧ ∃ ext, (operatorsToSlash K w.ext w.store.params w.store.missCounters.toList).foldlM
          (slashOperator K height w.store.params) w.ext = .ok ext := by
  have hvalid := validParams_of_validate hp
  have hget : ∀ a m, w.store.missCounters[a]? = some m ↔ (a, m) ∈ w.store.missCounters.toList :=
    fun a m => ExtTreeMap.mem_toList_iff_getElem?_eq_some.symm
  have hloop : votePeriodsPerWindow w.store.params ≠ 0 → ∀ ext, w.store.missCounters.toList.foldlM
      (judgeMissCounter K height w.store.params
        (votePeriodsPerWindow w.store.params % 2 ^ 64).toNat) w.ext = .ok ext ↔ _ := fun hn ext =>
    foldlM_judgeMissCounter_eq_ok_iff hvalid hn hapart (nodup_keys_toList w.store.missCounters)
      (fun e he => ExtTreeMap.mem_keys.mpr (mem_of_getElem?_eq_some ((hget e.1 e.2).mpr he)))
      (List.nil_append _).symm (by simp) rfl
  rw [slashAndReset_eq_foldlM hvalid]
  constructor
  · rintro ⟨ext, hrun, hslash⟩
    obtain ⟨ext', hrun, -⟩ := bind_eq_ok.mp hrun
    refine ⟨fun a m ham => ?_, ext, hslash⟩
    rw [hget] at ham
    have hn : votePeriodsPerWindow w.store.params ≠ 0 := by
      intro h0
      obtain ⟨c, c', hround⟩ := exists_round_of_foldlM hrun _ ham
      rw [judgeMissCounter_eq_error K height h0] at hround
      exact absurd hround (by simp)
    exact ⟨hn, ((hloop hn ext').mp hrun).1 (a, m) ham⟩
  · rintro ⟨hall, ext, hslash⟩
    refine ⟨ext, ?_, hslash⟩
    cases hlist : w.store.missCounters.toList with
    | nil =>
        rw [hlist] at hslash
        rw [← Except.ok.inj hslash]
        rfl
    | cons e l =>
        have hn := (hall e.1 e.2 ((hget e.1 e.2).mpr (by rw [hlist]; simp))).1
        have hrun := (hloop hn ext).mpr
          ⟨fun e' he' => (hall e'.1 e'.2 ((hget e'.1 e'.2).mpr he')).2, hslash⟩
        rw [hlist] at hrun
        rw [hrun, ok_bind]

/-! ### A staking module -/

/-- A validator of the ledger. -/
structure Staked where
  tokens : UInt64
  bonded : Bool
  jailed : Bool
deriving DecidableEq

/-- What the ledger knows of the operator `a`, whose consensus address is its own. -/
def Staked.validator (a : ValAddress) (v : Staked) : Validator :=
  ⟨a, v.tokens.toNat, v.bonded, v.jailed, some a⟩

/-- A staking module that slashes and jails; no balances, all denoms registered. -/
def stakingLedger : Keepers (ExtTreeMap ValAddress Staked) where
  validator s a := s[a]?.map (Staked.validator a)
  totalBondedTokens s :=
    ((s.toList.filter fun e => e.2.bonded).map fun e => (e.2.tokens.toNat : ℤ)).sum
  slash s c _ power f :=
    match s[c]? with
    | none => .ok s
    | some v =>
        let burned := min v.tokens.toNat (power * 10 ^ 6 * f.raw / 10 ^ 18).toNat
        .ok (s.insert c { v with tokens := v.tokens - UInt64.ofNat burned })
  jail s c :=
    match s[c]? with
    | none => panicked (.raised "validator record not found")
    | some v =>
        if v.jailed then panicked (.raised "cannot jail already jailed validator")
        else .ok (s.insert c { v with jailed := true })
  validatorsByPower s :=
    ((s.toList.filter fun e => !e.2.jailed).insertionSort
      fun e e' => e'.2.tokens ≤ e.2.tokens).map Prod.fst
  maxValidators _ := 130
  powerReduction _ := 10 ^ 6
  allocateTokensToValidator s _ _ := .ok s
  getBalance _ _ _ := 0
  sendCoinsFromModuleToModule s _ _ _ := .ok s
  getDenomMetaData _ d := some ⟨[], [], goString d, goString d, goString d, goString d⟩
  setDenomMetaData s _ := s
  toUpper := asciiUpper

lemma validator_stakingLedger_insert (s : ExtTreeMap ValAddress Staked) {a b : ValAddress}
    (hab : b ≠ a) (v : Staked) :
    stakingLedger.validator (s.insert a v) b = stakingLedger.validator s b := by
  show (s.insert a v)[b]?.map _ = _
  rw [getElem?_insert_ite, if_neg hab.symm]
  rfl

/-- Slashes and jailings of the ledger change one record. -/
lemma slashesApart_stakingLedger (height : ℕ) (p : Params) (s₀ : ExtTreeMap ValAddress Staked)
    (operators watched : List ValAddress) :
    SlashesApart stakingLedger height p s₀ operators watched := by
  intro before a after s s' _ _ h b _ hb
  have hsame : stakingLedger.validator s' b = stakingLedger.validator s b := by
    cases hv : s[a]? with
    | none =>
        have hnone : stakingLedger.validator s a = none := by simp [stakingLedger, hv]
        simp [slashOperator, hnone] at h
    | some v =>
        have hsome : stakingLedger.validator s a = some (v.validator a) := by
          simp [stakingLedger, hv]
        simp only [slashOperator, hsome, Staked.validator] at h
        obtain ⟨x, -, h⟩ := bind_eq_ok.mp h
        obtain ⟨s₁, hslash, hjail⟩ := bind_eq_ok.mp h
        simp only [stakingLedger, hv] at hslash
        obtain rfl := Except.ok.inj hslash
        simp only [stakingLedger, ExtTreeMap.getElem?_insert_self] at hjail
        split_ifs at hjail
        · simp [panicked] at hjail
        · obtain rfl := Except.ok.inj hjail
          rw [validator_stakingLedger_insert _ hb, validator_stakingLedger_insert _ hb]
  rw [status, status, hsame]

/-- A window that ends with the default parameters and these miss counters, over these
validators. -/
def windowEnd (counters : List (ValAddress × ℕ)) (validators : List (ValAddress × Staked)) :
    World (ExtTreeMap ValAddress Staked) where
  store := ⟨defaultParams, ∅, ∅, .ofList counters, ∅, ∅, ∅⟩
  ext := .ofList validators

/-- A counter of an operator that is no longer in staking stops the chain. -/
theorem slashAndReset_removed :
    (windowEnd [("removed", 20160)] []).store.params.validate = .ok ()
      ∧ stakingLedger.validator (windowEnd [("removed", 20160)] []).ext "removed" = none
      ∧ slashAndResetMissCounters stakingLedger 100799 (windowEnd [("removed", 20160)] [])
        = .error (.panic .nilDereference) :=
  ⟨defaultParams_validate, by decide +kernel, eq_of_panicsWith (by decide +kernel)⟩

/-- Two validators, of which one has missed every vote of the window. -/
def twoStaked : World (ExtTreeMap ValAddress Staked) :=
  windowEnd [("absent", 20160), ("present", 3)]
    [("absent", ⟨1000000000000, true, false⟩), ("present", ⟨1000000000000, true, false⟩)]

/-- The one is slashed and jailed. -/
theorem slashAndReset_twoStaked :
    operatorsToSlash stakingLedger twoStaked.ext twoStaked.store.params
        twoStaked.store.missCounters.toList = ["absent"]
      ∧ ∃ ext, slashAndResetMissCounters stakingLedger 100799 twoStaked
          = .ok { store := { twoStaked.store with missCounters := ∅ }, ext := ext }
        ∧ (operatorsToSlash stakingLedger twoStaked.ext twoStaked.store.params
            twoStaked.store.missCounters.toList).foldlM
            (slashOperator stakingLedger 100799 twoStaked.store.params) twoStaked.ext = .ok ext := by
  obtain ⟨ext, hslash, -⟩ := exists_of_returns (p := fun _ => true)
    (x := (operatorsToSlash stakingLedger twoStaked.ext twoStaked.store.params
      twoStaked.store.missCounters.toList).foldlM
        (slashOperator stakingLedger 100799 twoStaked.store.params) twoStaked.ext)
    (by decide +kernel)
  refine ⟨by decide +kernel, (slashAndReset_iff stakingLedger 100799 defaultParams_validate
    (slashesApart_stakingLedger _ _ _ _ _)).mpr
    ⟨fun a m ham => ⟨by decide +kernel, fun _ => ?_⟩, ext, hslash⟩⟩
  have hall : ∀ e ∈ twoStaked.store.missCounters.toList,
      (stakingLedger.validator twoStaked.ext e.1).isSome = true := by decide +kernel
  exact Option.isSome_iff_exists.mp
    (hall (a, m) (ExtTreeMap.mem_toList_iff_getElem?_eq_some.mpr ham))

end ColumbusCore.Oracle
