import ColumbusCore.Treasury.Levers

/-!
When the end of an epoch completes.

The reward weight is updated by the quotient of the target of the seigniorage burden and of the
burden itself, the seigniorage over all rewards of the short window. The burden is not zero where
the seigniorage is not, but its decimal is, when the rewards are more than `2 * 10 ^ 18` times the
seigniorage: the update then divides by zero. The other divisors are guarded, up to exchange rates
of the oracle.

* `DividesByZero`: a conversion at an exchange rate of zero;
* `Burdened`: the burden of a window has a decimal other than zero;
* `seigniorageOf`, `rewardsOf`: the sums of the short window at the end of the epoch, from the
  state before the block;
* `proposedRewardWeight_eq_ok`, `faultsIn_proposedRewardWeight`: the update of the reward weight;
* `endBlocker_completes_iff`: **an end of an epoch without overflow completes exactly when** the
  burden has a decimal other than zero and no conversion divides by zero.
-/

namespace ColumbusCore.Treasury

open Go
open Std (ExtTreeMap)
open Market (microLunaDenom microSDRDenom computeInternalSwap getLunaExchangeRate
  effectivePrice_eq_ok_iff effectivePrice_ne_panic)

variable {σ : Type}

/-- The fault of a decimal past its bit limit. -/
abbrev IsOverflow (e : Fault) : Prop := e = .panic .overflow

/-! ### Conversions -/

/-- A conversion between two denoms with prices, the first of which is zero. -/
def DividesByZero (s : Oracle.Store) (offerDenom askDenom : Denom) : Prop :=
  offerDenom ≠ askDenom ∧ getLunaExchangeRate s offerDenom = .ok 0
    ∧ ∃ askRate, getLunaExchangeRate s askDenom = .ok askRate

/-- What a conversion adds to an aligned amount: nothing where there is no price. -/
def convertedRaw (s : Oracle.Store) (denom : Denom) (coin : DecCoin) : ℤ :=
  match computeInternalSwap s coin denom with
  | .ok swapped => swapped.2.raw
  | .error _ => 0

section Conversions

variable {s : Oracle.Store} {coin : DecCoin} {denom : Denom}

/-- A conversion panics by an overflow only, where it does not divide by zero. -/
lemma computeInternalSwap_panic
    (hvalid : ∀ rate, getLunaExchangeRate s denom = .ok rate → validDenom denom = true)
    (hdiv : ¬ DividesByZero s coin.1 denom) {p : Panic}
    (h : computeInternalSwap s coin denom = .error (.panic p)) : p = .overflow := by
  rw [computeInternalSwap] at h
  split_ifs at h with hne
  obtain ⟨offerRate, hoffer, h⟩ := (bind_eq_error.mp h).resolve_left effectivePrice_ne_panic
  obtain ⟨askRate, hask, h⟩ := (bind_eq_error.mp h).resolve_left effectivePrice_ne_panic
  rcases bind_eq_error.mp h with h | ⟨amount, -, h⟩
  · exact Fault.panic.inj (Fixed.faultsIn_checked _ _ h)
  rcases bind_eq_error.mp h with h | ⟨retAmount, -, h⟩
  · refine Fault.panic.inj (Fixed.faultsIn_quo (fun hzero => hdiv ⟨hne, ?_, askRate, ?_⟩) _ h)
    · rw [← hzero]
      exact effectivePrice_eq_ok_iff.mp hoffer
    · exact effectivePrice_eq_ok_iff.mp hask
  · obtain ⟨⟨⟩, hpos, h⟩ := (bind_eq_error.mp h).resolve_left failIf_ne_panic
    rw [DecCoin.ofDec_eq_ok_iff.mpr ⟨hvalid askRate (effectivePrice_eq_ok_iff.mp hask),
      (not_le.mp (failIf_eq_ok.mp hpos)).le, rfl⟩] at h
    exact absurd h (by simp)

/-- A conversion that divides by zero neither returns a coin nor an error. -/
lemma DividesByZero.panics (hdiv : DividesByZero s coin.1 denom) (r : Option DecCoin) :
    attempt (computeInternalSwap s coin denom) ≠ .ok r := by
  obtain ⟨hne, hoffer, askRate, hask⟩ := hdiv
  intro h
  rw [computeInternalSwap, if_neg hne, effectivePrice_eq_ok_iff.mpr hoffer, ok_bind,
    effectivePrice_eq_ok_iff.mpr hask, ok_bind] at h
  cases hmul : coin.2.mul askRate with
  | error e =>
      rw [hmul] at h
      obtain rfl := Fixed.faultsIn_checked _ _ hmul
      simp [attempt] at h
  | ok amount =>
      rw [hmul, ok_bind, Fixed.quo, if_pos Fixed.zero_raw] at h
      simp [attempt, panicked] at h

lemma faultsIn_attempt
    (hvalid : ∀ rate, getLunaExchangeRate s denom = .ok rate → validDenom denom = true)
    (hdiv : ¬ DividesByZero s coin.1 denom) :
    FaultsIn IsOverflow (attempt (computeInternalSwap s coin denom)) :=
  .attempt fun _ h => computeInternalSwap_panic hvalid hdiv h

lemma convertedRaw_nonneg (h : 0 ≤ coin.2.raw) : 0 ≤ convertedRaw s denom coin := by
  rw [convertedRaw]
  cases hswap : computeInternalSwap s coin denom with
  | error e => exact le_rfl
  | ok swapped =>
      rcases (Market.computeInternalSwap_spec hswap).2 with rfl | hpos
      · exact h
      · exact hpos.le

/-- One coin of an alignment. -/
lemma alignCoin_eq_ok {alignedAmt x : Dec} (h : alignCoin s denom alignedAmt coin = .ok x) :
    x.raw = alignedAmt.raw + convertedRaw s denom coin ∧ ¬ DividesByZero s coin.1 denom := by
  rw [alignCoin] at h
  split_ifs at h with hne
  · obtain ⟨r, hr, h⟩ := bind_eq_ok.mp h
    refine ⟨?_, fun hdiv => hdiv.panics r hr⟩
    rcases attempt_eq_ok_iff.mp hr with ⟨swapped, hswap, rfl⟩ | ⟨msg, hswap, rfl⟩
    · obtain ⟨-, rfl⟩ := Fixed.checked_eq_ok_iff.mp h
      rw [convertedRaw, hswap]
    · obtain rfl := Except.ok.inj h
      rw [convertedRaw, hswap]
      exact (add_zero _).symm
  · obtain ⟨-, rfl⟩ := Fixed.checked_eq_ok_iff.mp h
    have heq := not_not.mp hne
    refine ⟨?_, fun hdiv => hdiv.1 heq⟩
    rw [convertedRaw, computeInternalSwap, if_pos heq]

lemma faultsIn_alignCoin (hvalid : validDenom denom = true) (hdiv : ¬ DividesByZero s coin.1 denom)
    (alignedAmt : Dec) : FaultsIn IsOverflow (alignCoin s denom alignedAmt coin) := by
  rw [alignCoin]
  split_ifs
  · refine (faultsIn_attempt (fun _ _ => hvalid) hdiv).bind fun r _ => ?_
    cases r with
    | none => exact faultsIn_ok _
    | some swapped => exact Fixed.faultsIn_checked _
  · exact Fixed.faultsIn_checked _

/-- Aligned coins are the sum of the converted ones, and no conversion divided by zero. -/
lemma alignCoins_eq_ok {coins : List DecCoin} {x : Dec} (h : alignCoins s coins denom = .ok x) :
    x.raw = (coins.map (convertedRaw s denom)).sum
      ∧ ∀ coin ∈ coins, ¬ DividesByZero s coin.1 denom := by
  refine foldlM_induction (fun pre (x : Dec) => x.raw = (pre.map (convertedRaw s denom)).sum
    ∧ ∀ coin ∈ pre, ¬ DividesByZero s coin.1 denom) h ⟨rfl, by simp⟩ ?_
  intro pre coin post x x' _ ⟨hx, hpre⟩ hround
  obtain ⟨hx', hdiv⟩ := alignCoin_eq_ok hround
  refine ⟨by rw [hx', hx]; simp, fun c hc => ?_⟩
  rcases List.mem_append.mp hc with hc | hc
  · exact hpre c hc
  · rwa [List.mem_singleton.mp hc]

lemma faultsIn_alignCoins (hvalid : validDenom denom = true) {coins : List DecCoin}
    (hdiv : ∀ coin ∈ coins, ¬ DividesByZero s coin.1 denom) :
    FaultsIn IsOverflow (alignCoins s coins denom) :=
  .foldlM fun coin hcoin alignedAmt => faultsIn_alignCoin hvalid (hdiv coin hcoin) alignedAmt

end Conversions

/-! ### The rewards of the epoch -/

/-- The tax rewards of the running epoch. -/
def currentTR (st : State σ) : ℤ :=
  (st.store.epochTaxProceeds.entries.map fun e =>
    convertedRaw st.oracle microSDRDenom (e.1, Fixed.ofInt e.2)).sum

/-- The seigniorage of the running epoch, once the burn account is emptied. -/
def currentSeigniorage (K : Keepers σ) (st : State σ) : ℤ :=
  max 0 (st.epochInitialIssuance.amountOf microLunaDenom
    - (K.getSupply st.ext microLunaDenom
      - (K.burnAccountBalances st.ext).amountOf microLunaDenom))

/-- The seigniorage rewards of the running epoch. -/
def currentSR (K : Keepers σ) (st : State σ) : ℤ :=
  convertedRaw st.oracle microSDRDenom
    (microLunaDenom, ⟨st.getRewardWeight.raw * currentSeigniorage K st⟩)

/-- A sum over the epochs of the short window. -/
def windowSum (height : ℕ) (p : Params) (g : ℕ → ℤ) : ℤ :=
  ((windowEpochs height (toInt64 p.windowShort.toNat)).map g).sum

/-- The sum over the short window of an indicator that is `current` in the running epoch and
`past` before. -/
def shortSum (height : ℕ) (p : Params) (current : ℤ) (past : ℕ → ℤ) : ℤ :=
  windowSum height p fun epoch => if getEpoch height = epoch then current else past epoch

/-- The seigniorage rewards of the short window. -/
def seigniorageOf (K : Keepers σ) (height : ℕ) (st : State σ) : ℤ :=
  shortSum height st.store.params (currentSR K st) fun epoch => (st.getSR epoch).raw

/-- All rewards of the short window. -/
def rewardsOf (K : Keepers σ) (height : ℕ) (st : State σ) : ℤ :=
  shortSum height st.store.params (currentTR st + currentSR K st) fun epoch =>
    (st.getTR epoch).raw + (st.getSR epoch).raw

/-- There is no seigniorage, or its quotient by the rewards does not round to zero. -/
def Burdened (seigniorage rewards : ℤ) : Prop :=
  seigniorage = 0
    ∨ ((decFormat.scale / 2 : ℕ) + 1 : ℤ) * rewards ≤ seigniorage * decFormat.scale ^ 2

instance (seigniorage rewards : ℤ) : Decidable (Burdened seigniorage rewards) :=
  inferInstanceAs (Decidable (_ ∨ _))

/-- The supply is smaller by what was in the burn account. -/
def Burned (K : Keepers σ) (s s' : σ) : Prop :=
  ∀ d, K.getSupply s' d = K.getSupply s d - (K.burnAccountBalances s).amountOf d

/-- The burn of the block succeeds, and takes what was in the burn account out of the supply. An
account without coins is not burned from. -/
def BurnLawful (K : Keepers σ) (s : σ) : Prop :=
  ¬ (K.burnAccountBalances s).IsZero →
    ∃ s', K.burnCoins s burnModuleName (K.burnAccountBalances s) = .ok s' ∧ Burned K s s'

/-- A state with validated parameters, a reward weight, proceeds and indicators that are not
negative, and rates of coins. -/
structure Healthy (st : State σ) : Prop where
  params : st.store.params.validate = .ok ()
  rewardWeight : 0 ≤ st.getRewardWeight.raw
  tr : ∀ epoch, 0 ≤ (st.getTR epoch).raw
  sr : ∀ epoch, 0 ≤ (st.getSR epoch).raw
  proceeds : ∀ e ∈ st.store.epochTaxProceeds.entries, Coin.isValid e = true
  denoms : ∀ denom rate, st.oracle.exchangeRates[denom]? = some rate → validDenom denom = true

/-- A denom with a price is one of coins. -/
lemma validDenom_of_price {s : Oracle.Store}
    (hdenoms : ∀ denom rate, s.exchangeRates[denom]? = some rate → validDenom denom = true)
    {denom : Denom} {rate : Dec} (h : getLunaExchangeRate s denom = .ok rate) :
    validDenom denom = true := by
  rw [getLunaExchangeRate] at h
  split_ifs at h with hluna
  · rw [hluna]
    decide
  · cases hrate : s.exchangeRates[denom]? with
    | none =>
        rw [hrate] at h
        exact absurd h failed_ne_ok
    | some r => exact hdenoms denom r hrate

section Rewards

variable {K : Keepers σ} {st : State σ} {height : ℕ}

lemma mapM_ofCoin {l : List Coin} (h : ∀ c ∈ l, Coin.isValid c = true) :
    l.mapM DecCoin.ofCoin = .ok (l.map fun c => (c.1, Fixed.ofInt c.2)) := by
  induction l with
  | nil => rfl
  | cons c l ih =>
      obtain ⟨hc, hl⟩ := List.forall_mem_cons.mp h
      exact mapM_cons_eq_ok.mpr ⟨_, _, DecCoin.ofCoin_eq_ok_iff.mpr ⟨hc, rfl⟩, ih hl, rfl⟩

lemma taxRewards_eq (hst : Healthy st) : taxRewards st = alignCoins st.oracle
    (st.store.epochTaxProceeds.entries.map fun e => (e.1, Fixed.ofInt e.2)) microSDRDenom := by
  rw [taxRewards, mapM_ofCoin hst.proceeds, ok_bind]

lemma taxRewards_eq_ok (hst : Healthy st) {tr : Dec} (h : taxRewards st = .ok tr) :
    tr.raw = currentTR st
      ∧ ∀ e ∈ st.store.epochTaxProceeds.entries, ¬ DividesByZero st.oracle e.1 microSDRDenom := by
  rw [taxRewards_eq hst] at h
  obtain ⟨hraw, hdiv⟩ := alignCoins_eq_ok h
  refine ⟨by rw [hraw, List.map_map]; rfl, fun e he => ?_⟩
  exact hdiv (e.1, Fixed.ofInt e.2) (List.mem_map_of_mem he)

lemma faultsIn_taxRewards (hst : Healthy st) (hdiv : ∀ e ∈ st.store.epochTaxProceeds.entries,
    ¬ DividesByZero st.oracle e.1 microSDRDenom) : FaultsIn IsOverflow (taxRewards st) := by
  rw [taxRewards_eq hst]
  refine faultsIn_alignCoins (by decide) fun coin hcoin => ?_
  obtain ⟨e, he, rfl⟩ := List.mem_map.mp hcoin
  exact hdiv e he

/-- The burn leaves a state in which the supply is smaller by what was burned. -/
lemma exists_burn (hK : BurnLawful K st.ext) :
    ∃ ext, burnCoinsFromBurnAccount K st = .ok { st with ext := ext } ∧ Burned K st.ext ext := by
  rw [burnCoinsFromBurnAccount]
  split_ifs with hzero
  · refine ⟨st.ext, rfl, fun d => ?_⟩
    rw [Amounts.isZero_iff.mp hzero d, sub_zero]
  · obtain ⟨ext, hburn, hsupply⟩ := hK hzero
    refine ⟨ext, ?_, hsupply⟩
    rw [hburn]
    rfl

lemma peekEpochSeigniorage_burned {ext : σ}
    (hsupply : Burned K st.ext ext) :
    peekEpochSeigniorage K { st with ext := ext } = currentSeigniorage K st := by
  simp only [peekEpochSeigniorage, currentSeigniorage, hsupply _]
  split_ifs <;> omega

/-- The luna has the price one, in itself. -/
lemma not_dividesByZero_luna (s : Oracle.Store) (denom : Denom) :
    ¬ DividesByZero s microLunaDenom denom := by
  rintro ⟨-, hprice, -⟩
  rw [getLunaExchangeRate, if_pos rfl] at hprice
  exact absurd (congrArg Fixed.raw (Except.ok.inj hprice)) (by decide)

lemma currentSR_nonneg (hst : Healthy st) : 0 ≤ currentSR K st :=
  convertedRaw_nonneg (mul_nonneg (hst.rewardWeight) (le_max_left 0 _))

lemma currentTR_nonneg (hst : Healthy st) : 0 ≤ currentTR st := by
  refine List.sum_nonneg fun x hx => ?_
  obtain ⟨e, he, rfl⟩ := List.mem_map.mp hx
  have hvalid := hst.proceeds e he
  rw [Coin.isValid, Bool.and_eq_true, decide_eq_true_iff] at hvalid
  exact convertedRaw_nonneg (mul_nonneg hvalid.2 (by positivity))

/-- The seigniorage rewards after the burn. -/
lemma seigniorageRewards_burned (hst : Healthy st) {ext : σ}
    (hsupply : Burned K st.ext ext) :
    seigniorageRewards K { st with ext := ext } = (do
      let amount ← st.getRewardWeight.mulInt (currentSeigniorage K st)
      alignCoins st.oracle [(microLunaDenom, amount)] microSDRDenom) := by
  rw [seigniorageRewards, peekEpochSeigniorage_burned hsupply]
  show st.getRewardWeight.mulInt (currentSeigniorage K st) >>= _ = _
  cases hmul : st.getRewardWeight.mulInt (currentSeigniorage K st) with
  | error e => rfl
  | ok amount =>
      obtain ⟨-, rfl⟩ := Fixed.checked_eq_ok_iff.mp hmul
      have hamount : 0 ≤ st.getRewardWeight.raw * currentSeigniorage K st :=
        mul_nonneg (hst.rewardWeight) (le_max_left 0 _)
      have hvalid : validDenom microLunaDenom = true := by decide
      rw [ok_bind, ok_bind, DecCoin.ofDec_eq_ok_iff.mpr ⟨hvalid, hamount, rfl⟩, ok_bind]

lemma faultsIn_seigniorageRewards (hst : Healthy st) {ext : σ}
    (hsupply : Burned K st.ext ext) :
    FaultsIn IsOverflow (seigniorageRewards K { st with ext := ext }) := by
  rw [seigniorageRewards_burned hst hsupply]
  refine (Fixed.faultsIn_checked _).bind fun amount _ => faultsIn_alignCoins (by decide) ?_
  intro coin hcoin
  rw [List.mem_singleton.mp hcoin]
  exact not_dividesByZero_luna _ _

lemma seigniorageRewards_eq_ok (hst : Healthy st) {ext : σ}
    (hsupply : Burned K st.ext ext)
    {sr : Dec} (h : seigniorageRewards K { st with ext := ext } = .ok sr) :
    sr.raw = currentSR K st := by
  rw [seigniorageRewards_burned hst hsupply] at h
  obtain ⟨amount, hmul, h⟩ := bind_eq_ok.mp h
  obtain ⟨-, rfl⟩ := Fixed.checked_eq_ok_iff.mp hmul
  rw [(alignCoins_eq_ok h).1]
  exact add_zero _

end Rewards

/-! ### The updates -/

section Updates

variable {K : Keepers σ} {st st' : State σ} {height : ℕ}

lemma sumIndicator_raw {epochs : ℤ} {indicator : ℕ → Outcome Dec} {g : ℕ → ℤ} {sum : Dec}
    (hg : ∀ epoch x, indicator epoch = .ok x → x.raw = g epoch)
    (h : sumIndicator height epochs indicator = .ok sum) :
    sum.raw = ((windowEpochs height epochs).map g).sum := by
  rw [sumIndicator_eq] at h
  refine foldlM_induction (fun pre (sum : Dec) => sum.raw = (pre.map g).sum) h rfl ?_
  intro pre epoch post sum sum' _ hsum hround
  obtain ⟨x, hx, hround⟩ := bind_eq_ok.mp hround
  obtain ⟨-, rfl⟩ := Fixed.checked_eq_ok_iff.mp hround
  rw [hsum, hg epoch x hx]
  simp

lemma faultsIn_sumIndicator {epochs : ℤ} {indicator : ℕ → Outcome Dec}
    (h : ∀ epoch, FaultsIn IsOverflow (indicator epoch)) :
    FaultsIn IsOverflow (sumIndicator height epochs indicator) := by
  rw [sumIndicator_eq]
  exact .foldlM fun epoch _ _ => (h epoch).bind fun _ _ => Fixed.faultsIn_checked _

lemma faultsIn_rollingAverageIndicator {epochs : ℤ} {indicator : ℕ → Outcome Dec}
    (h : ∀ epoch, FaultsIn IsOverflow (indicator epoch)) :
    FaultsIn IsOverflow (rollingAverageIndicator height epochs indicator) := by
  rw [rollingAverageIndicator_eq]
  refine (faultsIn_sumIndicator h).bind fun sum _ => ?_
  dsimp only
  split_ifs with hzero
  · exact faultsIn_ok _
  · rw [Fixed.quoInt_eq_ok (by exact_mod_cast hzero)]
    exact faultsIn_ok _

lemma faultsIn_trl (st : State σ) (epoch : ℕ) : FaultsIn IsOverflow (st.trl epoch) := by
  rw [State.trl]
  split_ifs with hzero
  · exact faultsIn_ok _
  · rw [Fixed.quoInt_eq_ok (not_or.mp hzero).2]
    exact faultsIn_ok _

lemma faultsIn_clamp (pc : PolicyConstraints) (prevRate newRate : Dec) :
    FaultsIn IsOverflow (pc.clamp prevRate newRate) := by
  refine (Fixed.faultsIn_checked _).bind fun delta _ => FaultsIn.bind ?_ fun _ _ => faultsIn_ok _
  rw [PolicyConstraints.cutMove]
  split_ifs
  · exact Fixed.faultsIn_checked _
  · exact faultsIn_ok _
  · exact Fixed.faultsIn_checked _
  · exact faultsIn_ok _

/-- The update of the tax rate is guarded: a month without revenues is no divisor. -/
lemma faultsIn_updateTaxPolicy (height : ℕ) (st : State σ) :
    FaultsIn IsOverflow (updateTaxPolicy height st) := by
  refine (faultsIn_rollingAverageIndicator (faultsIn_trl st)).bind fun tlYear _ =>
    (faultsIn_rollingAverageIndicator (faultsIn_trl st)).bind fun tlMonth _ =>
    FaultsIn.bind ?_ fun _ _ => (faultsIn_clamp _ _ _).bind fun _ _ => faultsIn_ok _
  rw [proposedTaxRate]
  split_ifs with hzero
  · exact faultsIn_ok _
  · exact (Fixed.faultsIn_checked _).bind fun _ _ => (Fixed.faultsIn_checked _).bind fun _ _ =>
      Fixed.faultsIn_quo hzero

/-- The quotient of the burden is zero exactly where the window is not `Burdened`. -/
lemma quoRaw_burden_eq_zero {seigniorage rewards : ℤ} (h0 : 0 < seigniorage)
    (hle : seigniorage ≤ rewards) :
    Fixed.quoRaw decFormat seigniorage rewards = 0 ↔ ¬ Burdened seigniorage rewards := by
  have hpos := Fixed.quoRaw_pos_iff (F := decFormat) h0.le (h0.trans_le hle)
  have hnn := Fixed.quoRaw_nonneg (F := decFormat) h0.le (h0.le.trans hle)
  rw [Burdened, ← hpos]
  omega

lemma proposedRewardWeight_eq_ok {p : Params} {oldWeight seigniorageSum totalSum weight : Dec}
    (h0 : 0 ≤ seigniorageSum.raw) (hle : seigniorageSum.raw ≤ totalSum.raw)
    (h : proposedRewardWeight p oldWeight seigniorageSum totalSum = .ok weight) :
    Burdened seigniorageSum.raw totalSum.raw := by
  by_contra hno
  have hpos : 0 < seigniorageSum.raw := lt_of_le_of_ne h0 fun hz => hno (.inl hz.symm)
  have hne : ¬ (totalSum = 0 ∨ seigniorageSum = 0) := by
    rintro (rfl | rfl)
    · exact absurd (hpos.trans_le hle) (lt_irrefl _)
    · exact absurd hpos (lt_irrefl _)
  rw [proposedRewardWeight, if_neg hne] at h
  obtain ⟨sb, hsb, h⟩ := bind_eq_ok.mp h
  obtain ⟨-, -, rfl⟩ := Fixed.quo_eq_ok_iff.mp hsb
  obtain ⟨ratio, hratio, -⟩ := bind_eq_ok.mp h
  exact (Fixed.quo_eq_ok_iff.mp hratio).1 ((quoRaw_burden_eq_zero hpos hle).mpr hno)

lemma faultsIn_proposedRewardWeight {p : Params} {oldWeight seigniorageSum totalSum : Dec}
    (h0 : 0 ≤ seigniorageSum.raw) (hle : seigniorageSum.raw ≤ totalSum.raw)
    (hb : Burdened seigniorageSum.raw totalSum.raw) :
    FaultsIn IsOverflow (proposedRewardWeight p oldWeight seigniorageSum totalSum) := by
  rw [proposedRewardWeight]
  split_ifs with hzero
  · exact faultsIn_ok _
  · obtain ⟨htotal, hseigniorage⟩ := not_or.mp hzero
    have hpos : 0 < seigniorageSum.raw :=
      lt_of_le_of_ne h0 fun hz => hseigniorage (Fixed.ext hz.symm)
    refine (Fixed.faultsIn_quo htotal).bind fun sb hsb => FaultsIn.bind ?_ fun _ _ =>
      Fixed.faultsIn_checked _
    obtain ⟨-, -, rfl⟩ := Fixed.quo_eq_ok_iff.mp hsb
    refine Fixed.faultsIn_quo fun hz => ?_
    exact (quoRaw_burden_eq_zero hpos hle).mp (congrArg Fixed.raw hz) hb

lemma raw_of_mr {epoch : ℕ} {x : Dec} (h : st.mr epoch = .ok x) :
    x.raw = (st.getTR epoch).raw + (st.getSR epoch).raw := by
  rw [State.mr, Fixed.add] at h
  obtain ⟨-, rfl⟩ := Fixed.checked_eq_ok_iff.mp h
  rfl

lemma faultsIn_mr (epoch : ℕ) : FaultsIn IsOverflow (st.mr epoch) := by
  rw [State.mr, Fixed.add]
  exact Fixed.faultsIn_checked _

/-- The two sums the reward weight is updated from. -/
lemma sums_of_updateRewardPolicy (htr : ∀ epoch, 0 ≤ (st.getTR epoch).raw)
    (hsr : ∀ epoch, 0 ≤ (st.getSR epoch).raw) {seigniorageSum totalSum : Dec}
    (hS : sumIndicator height (toInt64 st.store.params.windowShort.toNat)
      (fun epoch => pure (st.getSR epoch)) = .ok seigniorageSum)
    (hT : sumIndicator height (toInt64 st.store.params.windowShort.toNat) st.mr = .ok totalSum) :
    seigniorageSum.raw = windowSum height st.store.params (fun epoch => (st.getSR epoch).raw)
      ∧ totalSum.raw = windowSum height st.store.params
        (fun epoch => (st.getTR epoch).raw + (st.getSR epoch).raw)
      ∧ 0 ≤ seigniorageSum.raw ∧ seigniorageSum.raw ≤ totalSum.raw := by
  have hS' := sumIndicator_raw (g := fun epoch => (st.getSR epoch).raw)
    (fun epoch x hx => by rw [Except.ok.inj hx]) hS
  have hT' := sumIndicator_raw (g := fun epoch => (st.getTR epoch).raw + (st.getSR epoch).raw)
    (fun _ _ => raw_of_mr) hT
  refine ⟨hS', hT', ?_, ?_⟩
  · rw [hS']
    refine List.sum_nonneg fun x hx => ?_
    obtain ⟨epoch, -, rfl⟩ := List.mem_map.mp hx
    exact hsr epoch
  · rw [hS', hT']
    exact List.sum_le_sum fun epoch _ => by linarith [htr epoch]

/-- The burden of the short window in a state. -/
def State.Burdened (height : ℕ) (st : State σ) : Prop :=
  Treasury.Burdened (windowSum height st.store.params fun epoch => (st.getSR epoch).raw)
    (windowSum height st.store.params fun epoch => (st.getTR epoch).raw + (st.getSR epoch).raw)

lemma burdened_of_updateRewardPolicy (h : updateRewardPolicy height st = .ok st')
    (htr : ∀ epoch, 0 ≤ (st.getTR epoch).raw) (hsr : ∀ epoch, 0 ≤ (st.getSR epoch).raw) :
    st.Burdened height := by
  obtain ⟨seigniorageSum, hS, h⟩ := bind_eq_ok.mp h
  obtain ⟨totalSum, hT, h⟩ := bind_eq_ok.mp h
  obtain ⟨weight, hweight, -⟩ := bind_eq_ok.mp h
  obtain ⟨hS', hT', h0, hle⟩ := sums_of_updateRewardPolicy htr hsr hS hT
  rw [State.Burdened, ← hS', ← hT']
  exact proposedRewardWeight_eq_ok h0 hle hweight

lemma faultsIn_updateRewardPolicy (htr : ∀ epoch, 0 ≤ (st.getTR epoch).raw)
    (hsr : ∀ epoch, 0 ≤ (st.getSR epoch).raw) (hb : st.Burdened height) :
    FaultsIn IsOverflow (updateRewardPolicy height st) := by
  refine (faultsIn_sumIndicator fun _ => faultsIn_ok _).bind fun seigniorageSum hS =>
    (faultsIn_sumIndicator faultsIn_mr).bind fun totalSum hT =>
    FaultsIn.bind ?_ fun _ _ => (faultsIn_clamp _ _ _).bind fun _ _ => faultsIn_ok _
  obtain ⟨hS', hT', h0, hle⟩ := sums_of_updateRewardPolicy htr hsr hS hT
  rw [State.Burdened, ← hS', ← hT'] at hb
  exact faultsIn_proposedRewardWeight h0 hle hb

lemma faultsIn_truncateDecimal {c : DecCoin} (h : 0 ≤ c.2.raw) :
    FaultsIn IsOverflow c.truncateDecimal := by
  have hscale : (0 : ℤ) < decFormat.scale := by exact_mod_cast decFormat.scale_pos
  refine (Fixed.faultsIn_truncateInt _).bind fun truncated htruncated =>
    (Fixed.faultsIn_checked _).bind fun change hchange => ?_
  obtain ⟨-, rfl⟩ := Fixed.checkedInt_eq_ok_iff.mp htruncated
  obtain ⟨-, rfl⟩ := Fixed.checked_eq_ok_iff.mp hchange
  have hnn : 0 ≤ c.2.raw.tdiv decFormat.scale := Int.tdiv_nonneg h hscale.le
  have hrest : 0 ≤ c.2.raw - (Fixed.ofInt (c.2.raw.tdiv decFormat.scale) : Dec).raw := by
    rw [Int.tdiv_eq_ediv_of_nonneg h]
    exact sub_nonneg.mpr (Int.ediv_mul_le _ hscale.ne')
  rw [newCoin_eq_ok_iff.mpr ⟨hnn, rfl⟩, ok_bind, DecCoins.newDecCoin, if_neg (not_lt.mpr hrest)]
  exact faultsIn_ok _

lemma updateTaxCapOf_eq_ok {s : Oracle.Store} {cap : DecCoin} {taxCaps taxCaps' : ExtTreeMap Denom ℤ}
    {denom : Denom} (h : updateTaxCapOf s cap taxCaps denom = .ok taxCaps') :
    ¬ DividesByZero s cap.1 denom := by
  intro hdiv
  rw [updateTaxCapOf, if_neg hdiv.1.symm] at h
  obtain ⟨r, hr, -⟩ := bind_eq_ok.mp h
  exact hdiv.panics r hr

lemma faultsIn_updateTaxCapOf {s : Oracle.Store} {cap : DecCoin} (hcap : 0 ≤ cap.2.raw)
    {denom : Denom} (hvalid : ∀ rate, getLunaExchangeRate s denom = .ok rate →
      validDenom denom = true) (hdiv : ¬ DividesByZero s cap.1 denom)
    (taxCaps : ExtTreeMap Denom ℤ) : FaultsIn IsOverflow (updateTaxCapOf s cap taxCaps denom) := by
  rw [updateTaxCapOf]
  split_ifs
  · exact faultsIn_ok _
  refine (faultsIn_attempt hvalid hdiv).bind fun r hr => ?_
  cases r with
  | none => exact faultsIn_ok _
  | some newDecCap =>
      refine (faultsIn_truncateDecimal ?_).bind fun _ _ => faultsIn_ok _
      obtain ⟨c, hswap, hc⟩ | ⟨_, _, hnone⟩ := attempt_eq_ok_iff.mp hr
      · obtain rfl := Option.some.inj hc
        rcases (Market.computeInternalSwap_spec hswap).2 with rfl | hpos
        · exact hcap
        · exact hpos.le
      · exact absurd hnone (by simp)

lemma not_dividesByZero_of_updateTaxCap (h : updateTaxCap st = .ok st') :
    ∀ item ∈ st.oracle.params.whitelist,
      ¬ DividesByZero st.oracle st.store.params.taxPolicy.cap.1 item.name := by
  intro item hitem
  obtain ⟨cap, hcap, h⟩ := bind_eq_ok.mp h
  obtain ⟨taxCaps, hcaps, -⟩ := bind_eq_ok.mp h
  obtain ⟨-, rfl⟩ := DecCoin.ofCoin_eq_ok_iff.mp hcap
  obtain ⟨_, _, hround⟩ := exists_round_of_foldlM hcaps item.name (List.mem_map_of_mem hitem)
  exact updateTaxCapOf_eq_ok hround

lemma faultsIn_updateTaxCap (hparams : st.store.params.validate = .ok ())
    (hdenoms : ∀ denom rate, st.oracle.exchangeRates[denom]? = some rate → validDenom denom = true)
    (hdiv : ∀ item ∈ st.oracle.params.whitelist,
      ¬ DividesByZero st.oracle st.store.params.taxPolicy.cap.1 item.name) :
    FaultsIn IsOverflow (updateTaxCap st) := by
  simp only [Params.validate, failIf_bind_eq_ok, not_not] at hparams
  have hcap : Coin.isValid st.store.params.taxPolicy.cap = true := hparams.2.2.1
  have hamount : 0 ≤ st.store.params.taxPolicy.cap.2 := by
    rw [Coin.isValid, Bool.and_eq_true, decide_eq_true_iff] at hcap
    exact hcap.2
  rw [updateTaxCap, DecCoin.ofCoin_eq_ok_iff.mpr ⟨hcap, rfl⟩, ok_bind]
  refine (FaultsIn.foldlM fun denom hdenom taxCaps => ?_).bind fun _ _ => faultsIn_ok _
  obtain ⟨item, hitem, rfl⟩ := List.mem_map.mp hdenom
  refine faultsIn_updateTaxCapOf (mul_nonneg hamount (by positivity)) (fun rate hrate => ?_)
    (hdiv item hitem) taxCaps
  exact validDenom_of_price hdenoms hrate

end Updates

/-! ### The end of an epoch -/

section Epoch

variable {K : Keepers σ} {st st' : State σ} {height : ℕ} {tr sr : Dec}

lemma getTR_withIndicators (epoch : ℕ) : (withIndicators K height st tr sr).getTR epoch
    = if getEpoch height = epoch then tr else st.getTR epoch := getD_insert_ite _ _ _ _ _

lemma getSR_withIndicators (epoch : ℕ) : (withIndicators K height st tr sr).getSR epoch
    = if getEpoch height = epoch then sr else st.getSR epoch := getD_insert_ite _ _ _ _ _

/-- With the indicators of the epoch no indicator is negative. -/
lemma withIndicators_nonneg (K : Keepers σ) (height : ℕ) (hst : Healthy st) (htr : 0 ≤ tr.raw)
    (hsr : 0 ≤ sr.raw) :
    (∀ epoch, 0 ≤ ((withIndicators K height st tr sr).getTR epoch).raw)
      ∧ ∀ epoch, 0 ≤ ((withIndicators K height st tr sr).getSR epoch).raw := by
  refine ⟨fun epoch => ?_, fun epoch => ?_⟩
  · rw [getTR_withIndicators]
    split_ifs
    · exact htr
    · exact hst.tr epoch
  · rw [getSR_withIndicators]
    split_ifs
    · exact hsr
    · exact hst.sr epoch

/-- The burden the reward weight is updated from, in terms of the state before the block. -/
lemma burdened_withIndicators {ext : σ} (htr : tr.raw = currentTR st)
    (hsr : sr.raw = currentSR K st) :
    (withIndicators K height { st with ext := ext } tr sr).Burdened height
      ↔ Burdened (seigniorageOf K height st) (rewardsOf K height st) := by
  have hS : (fun epoch => ((withIndicators K height { st with ext := ext } tr sr).getSR epoch).raw)
      = fun epoch => if getEpoch height = epoch then currentSR K st else (st.getSR epoch).raw := by
    funext epoch
    rw [getSR_withIndicators, apply_ite Fixed.raw, hsr]
    rfl
  have hT : (fun epoch => ((withIndicators K height { st with ext := ext } tr sr).getTR epoch).raw
        + ((withIndicators K height { st with ext := ext } tr sr).getSR epoch).raw)
      = fun epoch => if getEpoch height = epoch then currentTR st + currentSR K st
        else (st.getTR epoch).raw + (st.getSR epoch).raw := by
    funext epoch
    rw [getTR_withIndicators, getSR_withIndicators]
    split_ifs
    · rw [htr, hsr]
    · rfl
  rw [State.Burdened, hS, hT]
  rfl

/-- The updates of the policies complete, up to overflow, where the burden has a decimal and the
caps can be converted. -/
lemma faultsIn_updatePolicies (hst : Healthy st) (htr : 0 ≤ tr.raw) (hsr : 0 ≤ sr.raw)
    (h : OnProbation height st.store.params ∨ ((withIndicators K height st tr sr).Burdened height
      ∧ ∀ item ∈ st.oracle.params.whitelist,
        ¬ DividesByZero st.oracle st.store.params.taxPolicy.cap.1 item.name)) :
    FaultsIn IsOverflow (updatePolicies height (withIndicators K height st tr sr)) := by
  obtain ⟨hTR, hSR⟩ := withIndicators_nonneg K height hst htr hsr
  rw [updatePolicies]
  split_ifs with hprobation
  · exact faultsIn_ok _
  obtain ⟨hburdened, hdiv⟩ := h.resolve_left hprobation
  refine (faultsIn_updateTaxPolicy _ _).bind fun st₁ h₁ => FaultsIn.bind ?_ fun st₂ h₂ => ?_
  · obtain ⟨_, rate, -, rfl⟩ := updateTaxPolicy_eq_ok h₁
    exact faultsIn_updateRewardPolicy hTR hSR hburdened
  · obtain ⟨_, rate, -, rfl⟩ := updateTaxPolicy_eq_ok h₁
    obtain ⟨_, weight, -, rfl⟩ := updateRewardPolicy_eq_ok h₂
    exact faultsIn_updateTaxCap hst.params hst.denoms hdiv

lemma updatePolicies_eq_ok (hst : Healthy st) (htr : 0 ≤ tr.raw) (hsr : 0 ≤ sr.raw)
    (h : updatePolicies height (withIndicators K height st tr sr) = .ok st') :
    OnProbation height st.store.params ∨ ((withIndicators K height st tr sr).Burdened height
      ∧ ∀ item ∈ st.oracle.params.whitelist,
        ¬ DividesByZero st.oracle st.store.params.taxPolicy.cap.1 item.name) := by
  obtain ⟨hTR, hSR⟩ := withIndicators_nonneg K height hst htr hsr
  rw [updatePolicies] at h
  split_ifs at h with hprobation
  · exact .inl hprobation
  obtain ⟨st₁, h₁, h⟩ := bind_eq_ok.mp h
  obtain ⟨st₂, h₂, h₃⟩ := bind_eq_ok.mp h
  obtain ⟨_, rate, -, rfl⟩ := updateTaxPolicy_eq_ok h₁
  have hburdened := burdened_of_updateRewardPolicy h₂ hTR hSR
  refine .inr ⟨hburdened, ?_⟩
  obtain ⟨_, weight, -, rfl⟩ := updateRewardPolicy_eq_ok h₂
  have hdiv := not_dividesByZero_of_updateTaxCap h₃
  exact hdiv

lemma faultsIn_updateIndicators (hst : Healthy st) {ext : σ}
    (hsupply : Burned K st.ext ext)
    (hdiv : ∀ e ∈ st.store.epochTaxProceeds.entries,
      ¬ DividesByZero st.oracle e.1 microSDRDenom) :
    FaultsIn IsOverflow (updateIndicators K height { st with ext := ext }) := by
  rw [updateIndicators_eq]
  exact (faultsIn_taxRewards hst hdiv).bind fun tr _ =>
    (faultsIn_seigniorageRewards hst hsupply).bind fun sr _ => faultsIn_ok _

/-- **When an end of an epoch completes**: without an overflow, exactly when no tax proceeds are
converted at a rate of zero and, once the probation is over, the seigniorage burden of the short
window does not round to zero and the cap of the tax policy is not converted at a rate of zero. -/
theorem endBlocker_completes_iff (hK : BurnLawful K st.ext) (hst : Healthy st)
    (hlast : Oracle.IsPeriodLast height blocksPerWeek)
    (hno : endBlocker K height st ≠ .error (.panic .overflow)) :
    (∃ st', endBlocker K height st = .ok st')
      ↔ (∀ e ∈ st.store.epochTaxProceeds.entries, ¬ DividesByZero st.oracle e.1 microSDRDenom)
        ∧ (OnProbation height st.store.params
          ∨ (Burdened (seigniorageOf K height st) (rewardsOf K height st)
            ∧ ∀ item ∈ st.oracle.params.whitelist,
              ¬ DividesByZero st.oracle st.store.params.taxPolicy.cap.1 item.name)) := by
  obtain ⟨ext, hburn, hsupply⟩ := exists_burn hK
  have hst₁ : Healthy { st with ext := ext } :=
    ⟨hst.params, hst.rewardWeight, hst.tr, hst.sr, hst.proceeds, hst.denoms⟩
  rw [endBlocker_of_last hlast, hburn, ok_bind] at hno ⊢
  constructor
  · rintro ⟨st', h⟩
    obtain ⟨st₁, h₁, h⟩ := bind_eq_ok.mp h
    obtain ⟨st₂, h₂, -⟩ := bind_eq_ok.mp h
    obtain ⟨tr, sr, htr, hsr, rfl⟩ := updateIndicators_eq_ok h₁
    obtain ⟨htr', hdiv⟩ := taxRewards_eq_ok hst htr
    have hsr' := seigniorageRewards_eq_ok hst hsupply hsr
    have htr0 : 0 ≤ tr.raw := htr'.symm ▸ currentTR_nonneg hst
    have hsr0 : 0 ≤ sr.raw := hsr'.symm ▸ currentSR_nonneg hst
    refine ⟨hdiv, ?_⟩
    rw [← burdened_withIndicators htr' hsr']
    have hpolicies := updatePolicies_eq_ok hst₁ htr0 hsr0 h₂
    exact hpolicies
  · rintro ⟨hdiv, hpolicies⟩
    have hfaults : FaultsIn IsOverflow (closeEpoch K height { st with ext := ext }) := by
      refine (faultsIn_updateIndicators hst hsupply hdiv).bind fun st₁ h₁ =>
        FaultsIn.bind ?_ fun _ _ => faultsIn_ok _
      obtain ⟨tr, sr, htr, hsr, rfl⟩ := updateIndicators_eq_ok h₁
      obtain ⟨htr', -⟩ := taxRewards_eq_ok hst htr
      have hsr' := seigniorageRewards_eq_ok hst hsupply hsr
      have htr0 : 0 ≤ tr.raw := htr'.symm ▸ currentTR_nonneg hst
      have hsr0 : 0 ≤ sr.raw := hsr'.symm ▸ currentSR_nonneg hst
      refine faultsIn_updatePolicies hst₁ htr0 hsr0 ?_
      rw [burdened_withIndicators htr' hsr']
      exact hpolicies
    cases hrun : closeEpoch K height { st with ext := ext } with
    | ok st' => exact ⟨st', rfl⟩
    | error e =>
        rw [hrun] at hno
        exact absurd (congrArg _ (hfaults e hrun)) hno

end Epoch

/-! ### A burden too small -/

/-- A bank that holds a supply of luna and nothing in the burn account, without staking. -/
def lunaKeepers : Keepers ℤ where
  burnAccountBalances _ := ∅
  burnCoins s _ _ := .ok s
  getSupply s denom := if denom = microLunaDenom then s else 0
  totalBondedTokens _ := 0

/-- An epoch under the default parameters in which one `uluna` disappeared and `proceeds` were
collected in `usdr`, at 0.00006 `usdr` for a luna. -/
def burdenState (proceeds : ℤ) : State ℤ where
  store := ⟨defaultParams, ∅, CoinSet.ofList [(microSDRDenom, proceeds)]⟩
  taxRate := none
  rewardWeight := none
  epochInitialIssuance := CoinSet.ofList [(microLunaDenom, 1000000000000)]
  tr := ∅
  sr := ∅
  tsl := ∅
  oracle := Market.ratesStore
    ((∅ : ExtTreeMap Denom Dec).insert microSDRDenom (newDecWithPrec 6 5))
  ext := 999999999999

lemma burnLawful_lunaKeepers (s : ℤ) : BurnLawful lunaKeepers s := by
  intro hburns
  exact absurd (Amounts.isZero_iff.mpr fun d => Amounts.amountOf_empty d) hburns

lemma healthy_burdenState {proceeds : ℤ}
    (h : ∀ e ∈ (burdenState proceeds).store.epochTaxProceeds.entries, Coin.isValid e = true) :
    Healthy (burdenState proceeds) where
  params := defaultParams_validate
  rewardWeight := by
    show 0 ≤ defaultRewardWeight.raw
    decide
  tr epoch := by simp [State.getTR, burdenState]
  sr epoch := by simp [State.getSR, burdenState]
  proceeds := h
  denoms denom rate hrate := by
    have hstored : ((∅ : ExtTreeMap Denom Dec).insert microSDRDenom (newDecWithPrec 6 5))[denom]?
        = some rate := hrate
    rw [getElem?_insert_ite] at hstored
    split_ifs at hstored with hsdr
    · rw [← hsdr]
      decide
    · simp at hstored

/-- **A division by zero at the end of an epoch**: under the default parameters, with ten million
SDR of taxes and a seigniorage of one `uluna`, the burden rounds to zero. -/
theorem endBlocker_divides_by_zero :
    Healthy (burdenState 10000000000000)
      ∧ BurnLawful lunaKeepers (burdenState 10000000000000).ext
      ∧ Oracle.IsPeriodLast 1310399 blocksPerWeek ∧ ¬ OnProbation 1310399 defaultParams
      ∧ endBlocker lunaKeepers 1310399 (burdenState 10000000000000)
        = .error (.panic .divisionByZero) :=
  ⟨healthy_burdenState (by decide +kernel), burnLawful_lunaKeepers _, by decide, by decide,
    eq_of_panicsWith (by decide +kernel)⟩

/-- With a tenth of the taxes the epoch ends, and the burden has a decimal. -/
theorem burdened_of_completed_epoch :
    (∃ st', endBlocker lunaKeepers 1310399 (burdenState 1000000000000) = .ok st')
      ∧ Burdened (seigniorageOf lunaKeepers 1310399 (burdenState 1000000000000))
        (rewardsOf lunaKeepers 1310399 (burdenState 1000000000000)) := by
  obtain ⟨st', hend, -⟩ := exists_of_returns (p := fun _ => true)
    (x := endBlocker lunaKeepers 1310399 (burdenState 1000000000000)) (by decide +kernel)
  have hno : endBlocker lunaKeepers 1310399 (burdenState 1000000000000)
      ≠ .error (.panic .overflow) := by
    rw [hend]
    simp
  obtain ⟨-, hpolicies⟩ := (endBlocker_completes_iff (burnLawful_lunaKeepers _)
    (healthy_burdenState (by decide +kernel)) (by decide) hno).mp ⟨st', hend⟩
  exact ⟨⟨st', hend⟩, (hpolicies.resolve_left (by decide)).1⟩

end ColumbusCore.Treasury
