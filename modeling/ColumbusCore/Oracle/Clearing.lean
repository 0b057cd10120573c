import ColumbusCore.Oracle.CommitReveal

/-!
Which prevotes the end of a vote period leaves (`keeper/ballot.go`).

A vote is accepted in the period after its prevote, so that of the prevotes stored at the last block
of a period those of the period itself are still of use (`revealable_iff`). `ClearBallots` compares
blocks instead: it keeps a prevote up to one period after its submission (`getElem?_clearBallots`).
The two agree except at the last block of the period before, whose prevotes are kept one period too
long, and where the sum of block and period leaves the signed 64-bit integers
(`clearBallots_exact_iff`, **exact clearing**).
-/

namespace ColumbusCore.Oracle

open Go
open Std (ExtTreeMap)

variable {σ : Type}

/-! ### The clearing -/

/-- `ClearBallots`. -/
def clearBallots (height votePeriod : ℕ) (s : Store) : Store :=
  { s with prevotes := clearPrevotes height votePeriod s.prevotes, votes := ∅ }

/-- The end of a vote period clears the ballots. -/
lemma endBlocker_clears {K : Keepers σ} {H : Host} {S : Schedule} {height : ℕ} {w w' : World σ}
    (hlast : IsPeriodLast height w.store.params.votePeriod.toNat)
    (h : endBlocker K H S height w = .ok w') :
    w'.store.prevotes = (clearBallots height w.store.params.votePeriod.toNat w.store).prevotes
      ∧ w'.store.votes = (clearBallots height w.store.params.votePeriod.toNat w.store).votes := by
  obtain ⟨_, _, _, _, _, -, -, hstore⟩ := endBlocker_store_of_last hlast h
  rw [hstore]
  exact ⟨rfl, rfl⟩

/-- A vote for a prevote of the block `submitBlock` can be accepted in the period after the one
that ends at `height`. -/
def Revealable (height votePeriod submitBlock : ℕ) : Prop :=
  ∃ height', height < height' ∧ height' ≤ height + votePeriod
    ∧ checkRevealPeriod height' submitBlock votePeriod = .ok ()

/-- The clearing is exact: no vote is left, and the prevotes that are left are those submitted in
the period just ended, which are those that can still be revealed in the next one. -/
structure ClearsExactly (height votePeriod : ℕ) (s : Store) : Prop where
  votes : (clearBallots height votePeriod s).votes = ∅
  ended : ∀ (a : ValAddress) p, (clearBallots height votePeriod s).prevotes[a]? = some p
    ↔ s.prevotes[a]? = some p ∧ p.submitBlock / votePeriod = height / votePeriod
  revealable : ∀ (a : ValAddress) p, (clearBallots height votePeriod s).prevotes[a]? = some p
    ↔ s.prevotes[a]? = some p ∧ Revealable height votePeriod p.submitBlock

/-! ### Periods and blocks -/

section Period

variable {height votePeriod submitBlock : ℕ}

/-- A block lies in the period of number `k`. -/
lemma div_eq_iff_mem_period (hpos : votePeriod ≠ 0) {block k : ℕ} :
    block / votePeriod = k ↔ votePeriod * k ≤ block ∧ block < votePeriod * k + votePeriod := by
  rw [Nat.div_eq_iff (Nat.pos_of_ne_zero hpos), Nat.mul_comm k]
  omega

/-- The period that ends at `height`. -/
lemma add_one_eq_of_dvd (hpos : votePeriod ≠ 0) (hdvd : votePeriod ∣ height + 1) :
    height + 1 = votePeriod * (height / votePeriod) + votePeriod := by
  obtain ⟨k, hk⟩ := hdvd
  cases k with
  | zero => exact absurd hk (by simp)
  | succ k =>
      rw [Nat.mul_succ] at hk
      rw [(div_eq_iff_mem_period hpos (k := k)).mpr (by omega), hk]

/-- The blocks of the period that ends at `height`. -/
lemma samePeriod_iff (hpos : votePeriod ≠ 0) (hdvd : votePeriod ∣ height + 1)
    (hle : submitBlock ≤ height) :
    submitBlock / votePeriod = height / votePeriod ↔ height < submitBlock + votePeriod := by
  have hend := add_one_eq_of_dvd hpos hdvd
  rw [div_eq_iff_mem_period hpos]
  omega

/-- The blocks of the period after it. -/
lemma nextPeriod_div {height' : ℕ} (hpos : votePeriod ≠ 0) (hdvd : votePeriod ∣ height + 1)
    (hlt : height < height') (hle : height' ≤ height + votePeriod) :
    height' / votePeriod = height / votePeriod + 1 := by
  have hend := add_one_eq_of_dvd hpos hdvd
  rw [div_eq_iff_mem_period hpos, Nat.mul_succ]
  omega

/-- **What the vote handler can still accept** are the prevotes of the period just ended. -/
lemma revealable_iff (hpos : votePeriod ≠ 0) (hdvd : votePeriod ∣ height + 1)
    (hh : height + 1 < 2 ^ 63) (hle : submitBlock ≤ height) :
    Revealable height votePeriod submitBlock
      ↔ submitBlock / votePeriod = height / votePeriod := by
  have hcheck : ∀ height', height < height' → height' ≤ height + votePeriod →
      (checkRevealPeriod height' submitBlock votePeriod = .ok ()
        ↔ submitBlock / votePeriod = height / votePeriod) := by
    intro height' hlt hle'
    have hdiv := Nat.div_le_div_right (c := votePeriod) hle
    have hself := Nat.div_le_self height votePeriod
    rw [checkRevealPeriod, if_neg hpos, failIf_eq_ok, nextPeriod_div hpos hdvd hlt hle', not_not]
    generalize height / votePeriod = k at *
    generalize submitBlock / votePeriod = m at *
    omega
  constructor
  · rintro ⟨height', hlt, hle', hok⟩
    exact (hcheck height' hlt hle').mp hok
  · intro hsame
    exact ⟨height + 1, by omega, by omega, (hcheck (height + 1) (by omega) (by omega)).mpr hsame⟩

end Period

/-! ### What is kept -/

/-- The comparison of the source keeps a prevote up to one period after it, while the sum is a
signed integer. -/
lemma getElem?_clearBallots {height votePeriod : ℕ} {s : Store} (hh : height + 1 < 2 ^ 63)
    (hperiod : votePeriod ≤ height + 1) {a : ValAddress} {p : AggregateExchangeRatePrevote}
    (hpast : s.prevotes[a]? = some p → p.submitBlock ≤ height) :
    (clearBallots height votePeriod s).prevotes[a]? = some p
      ↔ s.prevotes[a]? = some p ∧ height ≤ p.submitBlock + votePeriod
        ∧ p.submitBlock + votePeriod < 2 ^ 63 := by
  rw [clearBallots, clearPrevotes, ExtTreeMap.getElem?_filter', Option.filter_eq_some_iff]
  refine and_congr_right fun hp => ?_
  have hle := hpast hp
  rw [decide_eq_true_iff, toInt64]
  split_ifs <;> omega

/-- **Exact clearing.** At the last block of a vote period, with all prevotes submitted up to it,
`ClearBallots` leaves no vote and exactly the prevotes of the period just ended, that is those that
can be revealed in the next one, if and only if no prevote was submitted at the last block of the
period before and none of the period just ended has a block that leaves the signed integers one
period later. -/
theorem clearBallots_exact_iff {height votePeriod : ℕ} {s : Store} (hh : height + 1 < 2 ^ 63)
    (hlast : IsPeriodLast height votePeriod)
    (hpast : ∀ (a : ValAddress) p, s.prevotes[a]? = some p → p.submitBlock ≤ height) :
    ClearsExactly height votePeriod s
      ↔ ∀ (a : ValAddress) p, s.prevotes[a]? = some p → p.submitBlock + votePeriod ≠ height
        ∧ (height < p.submitBlock + votePeriod → p.submitBlock + votePeriod < 2 ^ 63) := by
  obtain ⟨hpos, hdvd⟩ := (isPeriodLast_iff_dvd hh).mp hlast
  have hperiod : votePeriod ≤ height + 1 := Nat.le_of_dvd (by omega) hdvd
  have hkept := fun (a : ValAddress) p => getElem?_clearBallots hh hperiod (hpast a p)
  constructor
  · intro h a p hp
    have hsame := samePeriod_iff hpos hdvd (hpast a p hp)
    have hiff := (hkept a p).symm.trans (h.ended a p)
    rw [hsame] at hiff
    simp only [hp, true_and] at hiff
    omega
  · intro h
    have hended : ∀ (a : ValAddress) p, (clearBallots height votePeriod s).prevotes[a]? = some p
        ↔ s.prevotes[a]? = some p ∧ p.submitBlock / votePeriod = height / votePeriod := by
      intro a p
      rw [hkept a p]
      refine and_congr_right fun hp => ?_
      have hcond := h a p hp
      rw [samePeriod_iff hpos hdvd (hpast a p hp)]
      omega
    refine ⟨rfl, hended, fun a p => ?_⟩
    rw [hended a p]
    exact and_congr_right fun hp => (revealable_iff hpos hdvd hh (hpast a p hp)).symm

/-! ### A prevote that outlives its period -/

/-- A store with one prevote. -/
def onePrevote (submitBlock : ℕ) : Store :=
  { emptyStore defaultParams with
    prevotes := (∅ : ExtTreeMap ValAddress AggregateExchangeRatePrevote).insert
      "validator-a-of-terra"
      ⟨"0000", "terravaloper1weskc6tyv96x7u3dvykk7e3dw3jhyunpwz6935", submitBlock⟩ }

lemma submitBlock_of_onePrevote {submitBlock : ℕ} {a : ValAddress}
    {p : AggregateExchangeRatePrevote} (h : (onePrevote submitBlock).prevotes[a]? = some p) :
    p.submitBlock = submitBlock := by
  rw [onePrevote, getElem?_insert_ite] at h
  split_ifs at h
  · rw [← Option.some.inj h]
  · simp at h

/-- With periods of five blocks a prevote of block 4 is still there after the last block of the
next period, when it can never be revealed again. -/
theorem clearBallots_keeps_stale : defaultParams.votePeriod.toNat = 5 ∧ IsPeriodLast 9 5
    ∧ "validator-a-of-terra" ∈ (clearBallots 9 5 (onePrevote 4)).prevotes
    ∧ 4 / 5 ≠ 9 / 5 ∧ ¬ Revealable 9 5 4 := by
  refine ⟨by decide, by decide, by decide +kernel, by decide, fun h => ?_⟩
  exact absurd ((revealable_iff (by decide) (by decide) (by decide) (by decide)).mp h) (by decide)

/-- A prevote of block 7 is kept as it should be. -/
theorem clearsExactly_onePrevote : ClearsExactly 9 5 (onePrevote 7) := by
  refine (clearBallots_exact_iff (by decide) (by decide) fun a p hp => ?_).mpr fun a p hp => ?_
  · rw [submitBlock_of_onePrevote hp]
    decide
  · rw [submitBlock_of_onePrevote hp]
    decide

end ColumbusCore.Oracle
