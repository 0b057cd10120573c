import ColumbusCore.Market.Ledger

/-!
The terra pool over whole runs of the market: swaps that succeed, replenishments, other modules at
the bank, and new oracle rates at the end of a block.

The delta falls by what is left of the priced amount after the spread. The spread is rounded to
eighteen decimals, so for an offer of `10 ^ 18` times the pool it is one unit below one and no
less, and what is left is as much as the whole pool.

* `PoolRun`: the runs from a zero delta, over the messages that are admitted;
* `spread_rounds`: the rounded spread of such an offer;
* `drain`: a run of one swap that empties the pool, whatever the base pool;
* `poolsStayPositive_iff`: without a bound on the offers the pool stays positive exactly where no
  swap with luna can succeed: the minimum spread is one, or the square of the base pool is past
  the bit limit;
* `poolRun_drained`: the default parameters, where the next swap then divides by zero.
-/

namespace ColumbusCore.Market

open Go Rounding
open Std (ExtTreeMap)

variable {σ : Type}

/-! ### Runs -/

/-- Every exchange rate is positive. -/
def RatesPositive (s : Oracle.Store) : Prop :=
  ∀ (denom : Denom) (rate : Dec), s.exchangeRates[denom]? = some rate → 0 < rate.raw

/-- The states of the market on its runs with the parameters `p`: it starts without a delta,
takes messages that are admitted, pass `ValidateBasic` and succeed, and replenishes its pools at
the end of a block, where the oracle also sets new rates. Other modules move coins at any time. -/
inductive PoolRun (K : Keepers σ) (p : Params) (Admits : State σ → SwapMsg → Prop) :
    State σ → Prop where
  | start {st} (hparams : st.params = p) (hdelta : st.terraPoolDelta = 0)
      (hrates : RatesPositive st.oracle) : PoolRun K p Admits st
  | swap {st st'} (hrun : PoolRun K p Admits st) (msg : SwapMsg) (hadmits : Admits st msg)
      (hbasic : msg.validateBasic K.accAddressFromBech32 = .ok ())
      (h : msg.handle K st = .ok st') : PoolRun K p Admits st'
  | others {st} (hrun : PoolRun K p Admits st) (bank : σ) :
      PoolRun K p Admits { st with bank := bank }
  | endBlock {st st'} (hrun : PoolRun K p Admits st) (h : replenishPools st = .ok st')
      (oracle : Oracle.Store) (hrates : RatesPositive oracle) :
      PoolRun K p Admits { st' with oracle := oracle }

/-- The terra pool is positive in every state of every run that admits all messages, whatever the
bank. -/
def PoolsStayPositive (p : Params) : Prop :=
  ∀ (σ : Type) (K : Keepers σ) (st : State σ), PoolRun K p (fun _ _ => True) st →
    0 < p.basePool.raw + st.terraPoolDelta.raw

/-- No delta is replenished to no delta. -/
lemma replenishPools_of_zero {st st' : State σ} (hdelta : st.terraPoolDelta = 0)
    (h : replenishPools st = .ok st') : st'.params = st.params ∧ st'.terraPoolDelta = 0 := by
  obtain ⟨regression, hquo, h⟩ := bind_eq_ok.mp h
  obtain ⟨delta, hsub, h⟩ := bind_eq_ok.mp h
  obtain rfl := Except.ok.inj h
  rw [Fixed.quoInt] at hquo
  split_ifs at hquo
  · simp at hquo
  · obtain rfl := Except.ok.inj hquo
    obtain ⟨-, rfl⟩ := Fixed.checked_eq_ok_iff.mp hsub
    refine ⟨rfl, Fixed.ext ?_⟩
    show st.terraPoolDelta.raw - st.terraPoolDelta.raw.tdiv _ = 0
    rw [hdelta, Fixed.zero_raw, Int.zero_tdiv, sub_zero]

/-- Where no swap with luna can succeed, a run keeps its parameters and stays without a delta. -/
lemma PoolRun.delta_eq_zero {K : Keepers σ} {p : Params} {Admits : State σ → SwapMsg → Prop}
    (hp : p.minStabilitySpread.raw = decFormat.scale
      ∨ ¬ Fixed.Fits decFormat (halfEven (p.basePool.raw * p.basePool.raw) decFormat.scale))
    {st : State σ} (hrun : PoolRun K p Admits st) : st.params = p ∧ st.terraPoolDelta = 0 := by
  induction hrun with
  | start hparams hdelta _ => exact ⟨hparams, hdelta⟩
  | swap _ msg _ _ h ih =>
      obtain ⟨rfl, hdelta⟩ := ih
      obtain ⟨trader, receiver, res, hreq⟩ := SwapMsg.handle_eq_ok h
      obtain ⟨hparams, -, hkeep⟩ := handleSwapRequest_frame hreq
      by_cases hluna : msg.offerCoin.1 = microLunaDenom ∨ msg.askDenom = microLunaDenom
      · -- such a request has failed
        obtain ⟨⟨cp, hcp⟩, hmin⟩ := handleSwapRequest_of_luna hluna hreq
        exact absurd hp (not_or.mpr
          ⟨hmin.ne, not_not.mpr (Fixed.checked_eq_ok_iff.mp hcp).1⟩)
      · obtain ⟨hoffer, hask⟩ := not_or.mp hluna
        exact ⟨hparams, (hkeep hoffer hask).trans hdelta⟩
  | others _ _ ih => exact ih
  | endBlock _ h _ _ ih =>
      obtain ⟨rfl, hdelta⟩ := ih
      obtain ⟨hparams, hzero⟩ := replenishPools_of_zero hdelta h
      exact ⟨hparams, hzero⟩

/-! ### The rounded spread -/

lemma scale_eq : (decFormat.scale : ℤ) = 10 ^ 18 := rfl

section Rounded

variable {b : ℤ}

/-- The constant product of the base pool `b`, rounded up or down. -/
lemma square_le (hb : 0 < b) : halfEven (b * b) decFormat.scale * (decFormat.scale : ℤ) ^ 2
    ≤ (b + decFormat.scale) * (decFormat.scale * b) := by
  have hbound := (halfEven_bounds decFormat.scale_pos (mul_nonneg hb.le hb.le)).2
  rw [scale_eq] at hbound ⊢
  nlinarith

/-- A base pool whose square is within the bit limit leaves room for the rates below. -/
lemma lt_of_fits_square (hb : 0 < b)
    (hfit : Fixed.Fits decFormat (halfEven (b * b) decFormat.scale)) : b < 2 ^ 190 := by
  have hbound := (halfEven_bounds decFormat.scale_pos (mul_nonneg hb.le hb.le)).1
  have hcp : halfEven (b * b) decFormat.scale < 2 ^ 129 * 2 ^ 186 := by
    have hbits : decFormat.decBits = 129 + 186 := rfl
    have h : (halfEven (b * b) decFormat.scale).natAbs < 2 ^ (129 + 186) := hbits ▸ hfit
    rw [pow_add] at h
    zify at h
    exact (le_abs_self _).trans_lt h
  by_contra hlt
  have hsquare : (2 : ℤ) ^ 190 * 2 ^ 190 ≤ b * b :=
    mul_le_mul (not_lt.mp hlt) (not_lt.mp hlt) (by positivity) hb.le
  rw [scale_eq] at hbound
  generalize b * b = x at *
  generalize halfEven x decFormat.scale = c at *
  norm_num at *
  omega

/-- The luna pool without a delta: the base pool up to rounding. -/
lemma lunaPool_bounds (hb : 0 < b) :
    0 ≤ Fixed.quoRaw decFormat (halfEven (b * b) decFormat.scale) b
      ∧ Fixed.quoRaw decFormat (halfEven (b * b) decFormat.scale) b ≤ b + decFormat.scale := by
  have hcp := halfEven_nonneg (d := decFormat.scale) (mul_nonneg hb.le hb.le)
  have hnum : 0 ≤ halfEven (b * b) decFormat.scale * (decFormat.scale : ℤ) ^ 2 := by positivity
  refine ⟨Fixed.quoRaw_nonneg hcp hb.le, ?_⟩
  refine halfEven_le_of_le_mul decFormat.scale_pos (Int.tdiv_nonneg hnum hb.le) ?_
  rw [Int.tdiv_eq_ediv_of_nonneg hnum]
  refine Int.ediv_le_of_le_mul hb ?_
  calc _ ≤ (b + decFormat.scale) * (decFormat.scale * b) := square_le hb
    _ = _ := by ring

/-- A luna pool filled with `10 ^ 18` times the base leaves less than half of the base in the
terra pool. -/
lemma remaining_bounds {o : ℤ} (hb : 0 < b) (ho : decFormat.scale * b ≤ o) :
    0 ≤ Fixed.quoRaw decFormat (halfEven (b * b) decFormat.scale) o
      ∧ 2 * Fixed.quoRaw decFormat (halfEven (b * b) decFormat.scale) o < b := by
  have hscale : (0 : ℤ) < decFormat.scale := by exact_mod_cast decFormat.scale_pos
  have ho0 : 0 < o := (mul_pos hscale hb).trans_le ho
  have hcp := halfEven_nonneg (d := decFormat.scale) (mul_nonneg hb.le hb.le)
  have hnum : 0 ≤ halfEven (b * b) decFormat.scale * (decFormat.scale : ℤ) ^ 2 := by positivity
  have hsquare := (square_le hb).trans
    (mul_le_mul_of_nonneg_left ho (by positivity : 0 ≤ b + (decFormat.scale : ℤ)))
  refine ⟨Fixed.quoRaw_nonneg hcp ho0.le, ?_⟩
  rcases hcp.eq_or_lt with hzero | hpos
  · rw [← hzero, Fixed.quoRaw_eq_of_eq_mul ho0.ne' (q := 0) (by ring)]
    omega
  · -- a square of at least one unit needs a base of more than nine
    have hten : 10 ≤ b := by
      have hbound := (halfEven_bounds decFormat.scale_pos (mul_nonneg hb.le hb.le)).2
      rw [scale_eq] at hbound
      by_contra hlt
      have hsmall : b * b ≤ 9 * 9 := mul_le_mul (by omega) (by omega) hb.le (by omega)
      omega
    have hquarter : Fixed.quoRaw decFormat (halfEven (b * b) decFormat.scale) o ≤ b / 4 := by
      refine halfEven_le_of_le_mul decFormat.scale_pos (Int.tdiv_nonneg hnum ho0.le) ?_
      rw [Int.tdiv_eq_ediv_of_nonneg hnum]
      refine (Int.ediv_le_of_le_mul ho0 hsquare).trans ?_
      rw [scale_eq]
      omega
    omega

/-- **The spread of an offer of `10 ^ 18` times the base is rounded to one unit below one**, where
less than half of the base remains. -/
lemma spread_rounds {q : ℤ} (hb : 0 < b) (hq : 0 ≤ q) (hqb : 2 * q < b) :
    Fixed.quoRaw decFormat (decFormat.scale * b - (b - q)) (decFormat.scale * b)
      = decFormat.scale - 1 := by
  have hscale : (0 : ℤ) < decFormat.scale := by exact_mod_cast decFormat.scale_pos
  have hone : (0 : ℤ) ≤ decFormat.scale - 1 := by omega
  have hnum : (decFormat.scale * b - (b - q)) * (decFormat.scale : ℤ) ^ 2
      = (q * decFormat.scale + (decFormat.scale - 1) * decFormat.scale * b) * decFormat.scale := by
    ring
  have hpart : 0 ≤ q * (decFormat.scale : ℤ) / b
      ∧ 2 * (q * (decFormat.scale : ℤ) / b) < decFormat.scale := by
    refine ⟨by positivity, ?_⟩
    have hle := Int.ediv_mul_le (q * (decFormat.scale : ℤ)) hb.ne'
    nlinarith
  have hdiv : ((decFormat.scale * b - (b - q)) * (decFormat.scale : ℤ) ^ 2).tdiv
        (decFormat.scale * b)
      = q * decFormat.scale / b + (decFormat.scale - 1) * decFormat.scale := by
    rw [hnum, mul_comm (decFormat.scale : ℤ) b, Int.mul_tdiv_mul_of_pos_left _ _ hscale,
      Int.tdiv_eq_ediv_of_nonneg (by positivity), Int.add_mul_ediv_right _ _ hb.ne']
  have hsum : 0 ≤ q * decFormat.scale / b + (decFormat.scale - 1) * (decFormat.scale : ℤ) :=
    add_nonneg hpart.1 (by positivity)
  rw [Fixed.quoRaw, hdiv, halfEven_eq_iff decFormat.scale_pos hsum hone, add_sub_cancel_right,
    abs_of_nonneg (by omega)]
  exact .inl hpart.2

end Rounded

/-! ### A run that empties the pool -/

/-- Rates at which one unit of luna is worth `10 ^ 18` times the base pool `b`, and `10 ^ 18`
units of dollar. -/
def drainRates (b : ℤ) : Oracle.Store :=
  ratesStore (((∅ : ExtTreeMap Denom Dec).insert microSDRDenom ⟨decFormat.scale * b⟩).insert "uusd"
    ⟨(decFormat.scale : ℤ) ^ 2⟩)

lemma drainRates_sdr (b : ℤ) :
    getLunaExchangeRate (drainRates b) microSDRDenom = .ok ⟨decFormat.scale * b⟩ := rfl

lemma drainRates_usd (b : ℤ) :
    getLunaExchangeRate (drainRates b) "uusd" = .ok ⟨(decFormat.scale : ℤ) ^ 2⟩ := rfl

lemma ratesPositive_drainRates {b : ℤ} (hb : 0 < b) : RatesPositive (drainRates b) := by
  have hscale : (0 : ℤ) < decFormat.scale := by exact_mod_cast decFormat.scale_pos
  intro denom rate h
  rw [drainRates, ratesStore, ExtTreeMap.getElem?_insert, ExtTreeMap.getElem?_insert] at h
  split_ifs at h
  · obtain rfl := Option.some.inj h
    show 0 < (decFormat.scale : ℤ) ^ 2
    positivity
  · obtain rfl := Option.some.inj h
    exact mul_pos hscale hb
  · simp at h

section Drain

variable {p : Params} (hb : 0 < p.basePool.raw)
  (hfit : Fixed.Fits decFormat (halfEven (p.basePool.raw * p.basePool.raw) decFormat.scale))
  (hmin : p.minStabilitySpread.raw < decFormat.scale)

include hb hfit in
/-- The amounts of the run are within the bit limit. -/
lemma fits_drain {x : ℤ} (h0 : 0 ≤ x) (hx : x ≤ 10 ^ 37 * p.basePool.raw) :
    Fixed.Fits decFormat x := by
  have hlt := lt_of_fits_square hb hfit
  refine fits_of_le h0 ?_
  norm_num at *
  omega

include hb hfit hmin in
/-- The spread of an offer of `10 ^ 18` times the base pool is one unit below one. -/
lemma poolSpread_drain :
    poolSpread p 0 true ⟨decFormat.scale * p.basePool.raw⟩ = .ok ⟨decFormat.scale - 1⟩ := by
  have hfits := fun x => fits_drain (x := x) hb hfit
  obtain ⟨⟨b⟩, period, minSpread⟩ := p
  dsimp only at hb hfit hmin hfits ⊢
  have hS := scale_eq
  have hoffer : (decFormat.scale : ℤ) * b = 10 ^ 18 * b := rfl
  obtain ⟨hluna0, hluna1⟩ := lunaPool_bounds hb
  generalize hluna : Fixed.quoRaw decFormat (halfEven (b * b) decFormat.scale) b = luna
    at hluna0 hluna1
  obtain ⟨hrem0, hrem1⟩ := remaining_bounds hb
    (show decFormat.scale * b ≤ luna + decFormat.scale * b by omega)
  generalize hrem : Fixed.quoRaw decFormat (halfEven (b * b) decFormat.scale)
    (luna + decFormat.scale * b) = rem at hrem0 hrem1
  have hnot : ¬ (⟨decFormat.scale - 1⟩ : Dec) < minSpread :=
    not_lt.mpr (Int.le_sub_one_of_lt hmin)
  rw [poolSpread, Fixed.mul, Fixed.checked_eq_ok_iff.mpr ⟨hfit, rfl⟩, ok_bind,
    show (⟨b⟩ : Dec).add 0 = .ok ⟨b + 0⟩ from Fixed.mk_add (hfits _ (by omega) (by omega)),
    ok_bind, add_zero, Fixed.mk_quo hb.ne' hluna (hfits _ hluna0 (by omega)), ok_bind]
  simp only [if_true]
  rw [Fixed.mk_add (hfits _ (by omega) (by omega)), ok_bind,
    Fixed.mk_quo (by omega) hrem (hfits _ hrem0 (by omega)), ok_bind,
    Fixed.mk_sub (hfits _ (by omega) (by omega)), ok_bind,
    Fixed.mk_sub (hfits _ (by omega) (by omega)), ok_bind,
    Fixed.mk_quo (by omega) (spread_rounds hb hrem0 hrem1) (hfits _ (by omega) (by omega)),
    ok_bind, if_neg hnot]
  rfl

/-- The market before the swap: without a delta, at the rates above, and a trader with one unit
of luna. -/
def drainState (p : Params) : State Ledger where
  params := p
  terraPoolDelta := 0
  oracle := drainRates p.basePool.raw
  bank := lunaLedger "trader" 1

include hb hfit hmin in
/-- One unit of luna is priced at `10 ^ 18` dollar units, nearly all of it spread. -/
lemma computeSwap_drain : computeSwap (drainState p) (microLunaDenom, 1) "uusd"
    = .ok (("uusd", ⟨(decFormat.scale : ℤ) ^ 2⟩), ⟨decFormat.scale - 1⟩) := by
  have hfits := fun x => fits_drain (x := x) hb hfit
  have hS := scale_eq
  have hoffer : (decFormat.scale : ℤ) * p.basePool.raw = 10 ^ 18 * p.basePool.raw := rfl
  have hproduct : (decFormat.scale : ℤ) ^ 2 * p.basePool.raw = 10 ^ 36 * p.basePool.raw := rfl
  have hbase : computeInternalSwap (drainRates p.basePool.raw) (microLunaDenom, Fixed.ofInt 1)
      microSDRDenom = .ok (microSDRDenom, ⟨decFormat.scale * p.basePool.raw⟩) :=
    computeInternalSwap_eq_ok (by decide) (by decide) rfl (drainRates_sdr _) (by decide)
      (y := decFormat.scale * p.basePool.raw) (by simp [Fixed.ofInt]; ring)
      (hfits _ (by omega) (by omega)) (by simp [Fixed.one]) (hfits _ (by omega) (by omega))
      (by omega)
  have hret : computeInternalSwap (drainRates p.basePool.raw)
      (microSDRDenom, ⟨decFormat.scale * p.basePool.raw⟩) "uusd"
      = .ok ("uusd", ⟨(decFormat.scale : ℤ) ^ 2⟩) :=
    computeInternalSwap_eq_ok (by decide) (by decide) (drainRates_sdr _) (drainRates_usd _)
      (show decFormat.scale * p.basePool.raw ≠ 0 by omega)
      (y := (decFormat.scale : ℤ) ^ 2 * p.basePool.raw) (by ring)
      (hfits _ (by omega) (by omega)) (by ring) (fits_of_le (by positivity) (by norm_num [hS]))
      (by decide)
  have hspread : swapSpread (drainState p) microLunaDenom "uusd"
      ⟨decFormat.scale * p.basePool.raw⟩ = .ok ⟨decFormat.scale - 1⟩ := by
    rw [swapSpread, if_neg (by simp)]
    exact poolSpread_drain hb hfit hmin
  rw [computeSwap, failIf_eq_ok.mpr (by decide), ok_bind,
    DecCoin.ofCoin_eq_ok_iff.mpr ⟨by decide, rfl⟩, ok_bind]
  show computeInternalSwap (drainRates p.basePool.raw) (microLunaDenom, Fixed.ofInt 1) _ >>= _ = _
  rw [hbase, ok_bind]
  show computeInternalSwap (drainRates p.basePool.raw) _ _ >>= _ = _
  rw [hret, ok_bind, hspread]
  rfl

include hb hfit in
/-- What is left of it is worth the whole base pool. -/
lemma applySwapToPool_drain :
    applySwapToPool (drainState p) (microLunaDenom, 1) ("uusd", ⟨decFormat.scale⟩)
      = .ok { drainState p with terraPoolDelta := ⟨-p.basePool.raw⟩ } := by
  have hfits := fun x => fits_drain (x := x) hb hfit
  have hoffer : (decFormat.scale : ℤ) * p.basePool.raw = 10 ^ 18 * p.basePool.raw := rfl
  have hask : computeInternalSwap (drainRates p.basePool.raw) ("uusd", ⟨decFormat.scale⟩)
      microSDRDenom = .ok (microSDRDenom, ⟨p.basePool.raw⟩) :=
    computeInternalSwap_eq_ok (by decide) (by decide) (drainRates_usd _) (drainRates_sdr _)
      (by decide) (y := decFormat.scale * p.basePool.raw) (by ring)
      (hfits _ (by omega) (by omega)) (by ring) (hfits _ hb.le (by omega)) hb
  have hdelta : (0 : Dec).sub ⟨p.basePool.raw⟩ = .ok ⟨-p.basePool.raw⟩ := by
    refine Fixed.checked_eq_ok_iff.mpr ⟨?_, by simp⟩
    have hpool : Fixed.Fits decFormat p.basePool.raw := hfits _ hb.le (by omega)
    rwa [Fixed.Fits, Fixed.zero_raw, zero_sub, Int.natAbs_neg]
  rw [applySwapToPool, if_neg (by simp), movedDelta, if_neg (by decide), if_pos (by decide)]
  show (computeInternalSwap (drainRates p.basePool.raw) _ _ >>= _) >>= _ = _
  rw [hask, ok_bind]
  show (0 : Dec).sub _ >>= _ = _
  rw [hdelta, ok_bind]
  rfl

include hb hfit hmin in
/-- **One swap empties the pool**, whatever the base pool and the minimum spread. -/
lemma drain : ∃ st, PoolRun ledgerKeepers p (fun _ _ => True) st
    ∧ p.basePool.raw + st.terraPoolDelta.raw = 0 := by
  obtain ⟨⟨bank, res⟩, hsettle, -⟩ := exists_of_returns
    (p := fun _ : Ledger × MsgSwapResponse => true)
    (x := settleSwap ledgerKeepers (lunaLedger "trader" 1) "trader" "trader" (microLunaDenom, 1)
      ("uusd", ⟨decFormat.scale⟩) ("uusd", ⟨(decFormat.scale - 1) * decFormat.scale⟩))
    (by decide +kernel)
  have hfee : spreadFee ("uusd", ⟨(decFormat.scale : ℤ) ^ 2⟩) ⟨decFormat.scale - 1⟩
      = .ok ("uusd", ⟨(decFormat.scale - 1) * decFormat.scale⟩) := by
    rw [spreadFee, if_pos (by decide),
      Fixed.mul_eq_of_eq_mul (q := (decFormat.scale - 1) * decFormat.scale) (by ring),
      Fixed.checked_eq_ok_iff.mpr ⟨fits_of_le (by decide) (by norm_num [scale_eq]), rfl⟩, ok_bind]
    exact DecCoin.ofDec_eq_ok_iff.mpr ⟨by decide, by decide, rfl⟩
  have hsub : (⟨(decFormat.scale : ℤ) ^ 2⟩ : Dec).sub ⟨(decFormat.scale - 1) * decFormat.scale⟩
      = .ok ⟨decFormat.scale⟩ :=
    Fixed.checked_eq_ok_iff.mpr ⟨fits_of_le (by decide) (by norm_num [scale_eq]), by simp; ring⟩
  have hreq : handleSwapRequest ledgerKeepers (drainState p) "trader" "trader"
      (microLunaDenom, 1) "uusd"
      = .ok ({ drainState p with terraPoolDelta := ⟨-p.basePool.raw⟩, bank := bank }, res) := by
    rw [handleSwapRequest, computeSwap_drain hb hfit hmin, ok_bind]
    dsimp only
    rw [hfee, ok_bind]
    dsimp only
    rw [hsub, ok_bind, applySwapToPool_drain hb hfit, ok_bind]
    show settleSwap ledgerKeepers (lunaLedger "trader" 1) _ _ _ _ _ >>= _ = _
    rw [hsettle]
    rfl
  have hstart : PoolRun ledgerKeepers p (fun _ _ => True) (drainState p) :=
    .start rfl rfl (ratesPositive_drainRates hb)
  refine ⟨{ drainState p with terraPoolDelta := ⟨-p.basePool.raw⟩, bank := bank },
    hstart.swap (.swap ⟨"trader", (microLunaDenom, 1), "uusd"⟩) trivial rfl ?_,
    add_neg_cancel _⟩
  have haddr : accAddress ledgerKeepers.accAddressFromBech32 "trader" "decoding bech32 failed"
      = .ok "trader" := rfl
  rw [SwapMsg.handle, Market.swap, haddr, ok_bind, hreq]
  rfl

end Drain

/-- **The pool stays positive exactly where no swap with luna can succeed**: the minimum spread
takes the whole amount, or the square of the base pool overflows. Everywhere else one swap empties
it. -/
theorem poolsStayPositive_iff {p : Params} (hvalid : p.validate = .ok ())
    (hbase : 0 < p.basePool.raw) :
    PoolsStayPositive p ↔ p.minStabilitySpread = Fixed.one
      ∨ ¬ Fixed.Fits decFormat (halfEven (p.basePool.raw * p.basePool.raw) decFormat.scale) := by
  obtain ⟨-, -, -, hspread⟩ := Params.validate_eq_ok_iff.mp hvalid
  constructor
  · intro hpos
    by_contra hcond
    obtain ⟨hone, hfit⟩ := not_or.mp hcond
    have hlt : p.minStabilitySpread.raw < decFormat.scale :=
      hspread.lt_of_ne fun heq => hone (Fixed.ext heq)
    obtain ⟨st, hrun, hzero⟩ := drain hbase (not_not.mp hfit) hlt
    exact (hpos Ledger ledgerKeepers st hrun).ne' hzero
  · intro hcond σ K st hrun
    obtain ⟨-, hdelta⟩ := hrun.delta_eq_zero (hcond.imp_left fun hone => congrArg Fixed.raw hone)
    rwa [hdelta, Fixed.zero_raw, add_zero]

/-- Rates of one SDR for a luna. -/
def parityRates : Oracle.Store := ratesStore ((∅ : ExtTreeMap Denom Dec).insert "usdr" Fixed.one)

lemma ratesPositive_parityRates : RatesPositive parityRates := by
  intro denom rate h
  rw [parityRates, ratesStore, ExtTreeMap.getElem?_insert] at h
  split_ifs at h
  · obtain rfl := Option.some.inj h
    decide
  · simp at h

/-- The market with the default parameters at these rates, and a trader with `2 * 10 ^ 30` units of
luna. -/
def parityState : State Ledger where
  params := defaultParams
  terraPoolDelta := 0
  oracle := parityRates
  bank := lunaLedger "trader" (2 * 10 ^ 30)

/-- With the default parameters and a luna at one SDR, an offer of `10 ^ 30` units of luna, which has
100 bits, passes `ValidateBasic` and takes the whole terra pool; the next swap divides by zero. -/
theorem poolRun_drained :
    defaultParams.validate = .ok () ∧ RatesPositive parityRates
      ∧ ∃ st, PoolRun ledgerKeepers defaultParams (fun _ _ => True) st
        ∧ defaultParams.basePool.raw + st.terraPoolDelta.raw = 0
        ∧ Market.swap ledgerKeepers st ⟨"trader", ("uluna", 1), "usdr"⟩
          = .error (.panic .divisionByZero) := by
  obtain ⟨st, hst, hcheck⟩ := exists_of_returns
    (p := fun st : State Ledger =>
      decide (defaultParams.basePool.raw + st.terraPoolDelta.raw = 0)
        && panicsWith .divisionByZero
          (Market.swap ledgerKeepers st ⟨"trader", ("uluna", 1), "usdr"⟩))
    (x := SwapMsg.handle ledgerKeepers parityState (.swap ⟨"trader", ("uluna", 10 ^ 30), "usdr"⟩))
    (by decide +kernel)
  obtain ⟨hzero, hpanic⟩ := Bool.and_eq_true_iff.mp hcheck
  have hstart : PoolRun ledgerKeepers defaultParams (fun _ _ => True) parityState :=
    .start rfl rfl ratesPositive_parityRates
  exact ⟨rfl, ratesPositive_parityRates, st,
    hstart.swap (.swap ⟨"trader", ("uluna", 10 ^ 30), "usdr"⟩) trivial rfl hst,
    of_decide_eq_true hzero, eq_of_panicsWith hpanic⟩

end ColumbusCore.Market
