import ColumbusCore.Treasury.EndBlocker

/-!
Indicators over a window of epochs (`sumIndicator` and `rollingAverageIndicator` of
`x/treasury/keeper/indicator.go`).

Both loops count down from the current epoch and stop at the end of the window or at the first
epoch; the average divides by the difference of the current epoch and of the loop variable where it
stopped.

* `windowEpochs_eq`: the epochs that are visited;
* `Values`: the values of an indicator in the last epochs;
* `indicators_over_window`: **the sum and the average over the last epochs, and its bounds**.
-/

namespace ColumbusCore.Treasury

open Go

/-! ### The window -/

/-- The epochs from `i` down, by their distance to `i`. -/
lemma epochsFrom_eq (curEpoch : ℕ) (epochs : ℤ) (i : ℕ) :
    epochsFrom curEpoch epochs i
      = (List.range (min ((i : ℤ) - 1 - addInt64 curEpoch (-epochs)).toNat i)).map
        fun k => i - 1 - k := by
  induction i with
  | zero => simp [epochsFrom]
  | succ i ih =>
      rw [epochsFrom_succ, ih]
      split_ifs with h
      · have hcount : min (((i + 1 : ℕ) : ℤ) - 1 - addInt64 curEpoch (-epochs)).toNat (i + 1)
            = min ((i : ℤ) - 1 - addInt64 curEpoch (-epochs)).toNat i + 1 := by omega
        rw [hcount, List.range_succ_eq_map, List.map_cons, List.map_map]
        refine congrArg₂ List.cons (by omega) (List.map_congr_left fun k hk => ?_)
        show i - 1 - k = i + 1 - 1 - (k + 1)
        omega
      · -- the end of the window
        have hcount :
            min (((i + 1 : ℕ) : ℤ) - 1 - addInt64 curEpoch (-epochs)).toNat (i + 1) = 0 := by
          omega
        rw [hcount]
        rfl

section Window

variable {height window : ℕ} (hheight : height < 2 ^ 63) (hwindow : window ≤ 2 ^ 62)

include hheight hwindow

/-- The window is that of the last epochs, or of all of them. -/
lemma windowEpochs_eq : windowEpochs height window
    = (List.range (min window (getEpoch height + 1))).map fun k => getEpoch height - k := by
  have hepoch : getEpoch height < 2 ^ 62 := by
    rw [getEpoch, blocksPerWeek]
    omega
  have hbound : addInt64 (getEpoch height) (-(window : ℤ)) = getEpoch height - window := by
    rw [addInt64_eq (by omega) (by omega)]
    ring
  have hcount : min (((getEpoch height + 1 : ℕ) : ℤ) - 1 - ((getEpoch height : ℤ) - window)).toNat
      (getEpoch height + 1) = min window (getEpoch height + 1) := by omega
  rw [windowEpochs, epochsFrom_eq, hbound, hcount]
  exact List.map_congr_left fun k _ => by omega

end Window

/-! ### The values of an indicator -/

/-- The values of an indicator in the last `n` epochs, by their age, with partial sums within the bit
limit. -/
structure Values (height n : ℕ) (indicator : ℕ → Outcome Dec) (v : ℕ → Dec) : Prop where
  value : ∀ k < n, indicator (getEpoch height - k) = .ok (v k)
  fits : ∀ m ≤ n, Fixed.Fits decFormat (∑ k ∈ Finset.range m, (v k).raw)

section Averages

variable {height window n : ℕ} {indicator : ℕ → Outcome Dec} {v : ℕ → Dec}

/-- The values are those of the indicator. -/
lemma Values.sum_eq {v' : ℕ → Dec} (h : Values height n indicator v)
    (h' : Values height n indicator v') :
    ∑ k ∈ Finset.range n, (v k).raw = ∑ k ∈ Finset.range n, (v' k).raw := by
  refine Finset.sum_congr rfl fun k hk => ?_
  have hk := Finset.mem_range.mp hk
  exact congrArg Fixed.raw (Except.ok.inj ((h.value k hk).symm.trans (h'.value k hk)))

/-- The average of nonnegative values is between the smallest and the largest of them. -/
lemma Values.average_bounds (hn : 0 < n) (h0 : ∀ k < n, 0 ≤ v k) {a : Dec}
    (ha : a.raw = (∑ k ∈ Finset.range n, (v k).raw).tdiv n) :
    ∃ i < n, ∃ j < n, (∀ k < n, v i ≤ v k ∧ v k ≤ v j) ∧ v i ≤ a ∧ a ≤ v j := by
  have hne : (Finset.range n).Nonempty := Finset.nonempty_range_iff.mpr hn.ne'
  obtain ⟨i, hi, hmin⟩ := Finset.exists_min_image _ (fun k => (v k).raw) hne
  obtain ⟨j, hj, hmax⟩ := Finset.exists_max_image _ (fun k => (v k).raw) hne
  have hcard : (0 : ℤ) < n := Int.natCast_pos.mpr hn
  have hlow : (n : ℤ) * (v i).raw ≤ ∑ k ∈ Finset.range n, (v k).raw := by
    simpa using Finset.card_nsmul_le_sum _ _ _ hmin
  have hhigh : ∑ k ∈ Finset.range n, (v k).raw ≤ (n : ℤ) * (v j).raw := by
    simpa using Finset.sum_le_card_nsmul _ _ _ hmax
  have hsum : 0 ≤ ∑ k ∈ Finset.range n, (v k).raw :=
    Finset.sum_nonneg fun k hk => h0 k (Finset.mem_range.mp hk)
  rw [Int.tdiv_eq_ediv_of_nonneg hsum] at ha
  refine ⟨i, Finset.mem_range.mp hi, j, Finset.mem_range.mp hj, fun k hk => ?_, ?_, ?_⟩
  · exact ⟨hmin k (Finset.mem_range.mpr hk), hmax k (Finset.mem_range.mpr hk)⟩
  · rw [Fixed.le_def, ha]
    exact (Int.le_ediv_iff_mul_le hcard).mpr (by linarith)
  · rw [Fixed.le_def, ha]
    exact Int.ediv_le_of_le_mul hcard (by linarith)

section Bounded

variable (hheight : height < 2 ^ 63) (hwindow : window ≤ 2 ^ 62)

include hheight hwindow

/-- The sum over a window. -/
lemma sumIndicator_eq_ok_iff {s : Dec} : sumIndicator height window indicator = .ok s
    ↔ ∃ v, Values height (min window (getEpoch height + 1)) indicator v
      ∧ s.raw = ∑ k ∈ Finset.range (min window (getEpoch height + 1)), (v k).raw := by
  rw [sumIndicator_eq, windowEpochs_eq hheight hwindow, List.foldlM_map,
    Fixed.foldlM_range_add_eq_ok_iff]
  constructor
  · rintro ⟨hall, hfits, hs⟩
    refine ⟨fun k => ⟨Fixed.termRaw (fun k => indicator (getEpoch height - k)) k⟩,
      ⟨fun k hk => ?_, hfits⟩, hs⟩
    obtain ⟨x, hx⟩ := hall k hk
    exact hx.trans (congrArg Except.ok (Fixed.ext (Fixed.termRaw_eq hx).symm))
  · rintro ⟨v, hv, hs⟩
    have hterm : ∀ m ≤ min window (getEpoch height + 1),
        ∑ k ∈ Finset.range m, Fixed.termRaw (fun k => indicator (getEpoch height - k)) k
          = ∑ k ∈ Finset.range m, (v k).raw := by
      intro m hm
      refine Finset.sum_congr rfl fun k hk => Fixed.termRaw_eq (hv.value k ?_)
      exact (Finset.mem_range.mp hk).trans_le hm
    refine ⟨fun k hk => ⟨v k, hv.value k hk⟩, fun m hm => ?_, hs.trans (hterm _ le_rfl).symm⟩
    rw [hterm m hm]
    exact hv.fits m hm

/-- The average over a window. -/
lemma rollingAverageIndicator_eq_ok_iff {a : Dec} :
    rollingAverageIndicator height window indicator = .ok a
    ↔ ∃ v, Values height (min window (getEpoch height + 1)) indicator v
      ∧ a.raw = if min window (getEpoch height + 1) = 0 then 0 else
        (∑ k ∈ Finset.range (min window (getEpoch height + 1)), (v k).raw).tdiv
          (min window (getEpoch height + 1) : ℕ) := by
  have hlength : (windowEpochs height window).length = min window (getEpoch height + 1) := by
    rw [windowEpochs_eq hheight hwindow, List.length_map, List.length_range]
  rw [rollingAverageIndicator_eq, bind_eq_ok]
  simp only [sumIndicator_eq_ok_iff hheight hwindow, hlength]
  by_cases hn : min window (getEpoch height + 1) = 0
  · -- an empty window
    simp only [hn, if_true, Finset.range_zero, Finset.sum_empty, pure_eq_ok, Except.ok.injEq]
    constructor
    · rintro ⟨s, ⟨v, hv, hs⟩, rfl⟩
      exact ⟨v, hv, hs⟩
    · rintro ⟨v, hv, hs⟩
      exact ⟨a, ⟨v, hv, hs⟩, rfl⟩
  · simp only [hn, if_false, Fixed.quoInt_eq_ok (Int.natCast_ne_zero.mpr hn), Except.ok.injEq]
    constructor
    · rintro ⟨s, ⟨v, hv, hs⟩, rfl⟩
      exact ⟨v, hv, by rw [← hs]⟩
    · rintro ⟨v, hv, ha⟩
      exact ⟨⟨_⟩, ⟨v, hv, rfl⟩, Fixed.ext ha.symm⟩

end Bounded

end Averages

/-- **The indicators over a window.** The sum and the average are over the last epochs, as many as
the window has or as there are; the average is truncated, and zero for an empty window. A window past
the first epoch is that of all epochs. The average of a nonnegative indicator is between its smallest
and its largest value. -/
theorem indicators_over_window {height window : ℕ} (hheight : height < 2 ^ 63)
    (hwindow : window ≤ 2 ^ 62) (indicator : ℕ → Outcome Dec) :
    let n := min window (getEpoch height + 1)
    (∀ s, sumIndicator height window indicator = .ok s
      ↔ ∃ v, Values height n indicator v ∧ s.raw = ∑ k ∈ Finset.range n, (v k).raw)
    ∧ (∀ a, rollingAverageIndicator height window indicator = .ok a
      ↔ ∃ v, Values height n indicator v
        ∧ a.raw = if n = 0 then 0 else (∑ k ∈ Finset.range n, (v k).raw).tdiv n)
    ∧ (getEpoch height + 1 ≤ window →
      sumIndicator height window indicator
        = sumIndicator height (getEpoch height + 1 : ℕ) indicator
      ∧ rollingAverageIndicator height window indicator
        = rollingAverageIndicator height (getEpoch height + 1 : ℕ) indicator)
    ∧ ∀ v a, 0 < n → Values height n indicator v → (∀ k < n, 0 ≤ v k) →
      rollingAverageIndicator height window indicator = .ok a →
      ∃ i < n, ∃ j < n, (∀ k < n, v i ≤ v k ∧ v k ≤ v j) ∧ v i ≤ a ∧ a ≤ v j := by
  intro n
  refine ⟨fun s => sumIndicator_eq_ok_iff hheight hwindow,
    fun a => rollingAverageIndicator_eq_ok_iff hheight hwindow, fun hlong => ?_,
    fun v a hn hv h0 ha => ?_⟩
  · have hsame : windowEpochs height window = windowEpochs height (getEpoch height + 1 : ℕ) := by
      rw [windowEpochs_eq hheight hwindow, windowEpochs_eq hheight (hlong.trans hwindow),
        min_eq_right hlong, min_self]
    simp only [rollingAverageIndicator_eq, sumIndicator_eq, hsame, and_self]
  · obtain ⟨v', hv', ha⟩ := (rollingAverageIndicator_eq_ok_iff hheight hwindow).mp ha
    rw [if_neg hn.ne', hv'.sum_eq hv] at ha
    exact Values.average_bounds hn h0 ha

/-- An indicator that is 100 in the first epoch and grows by that. -/
def hundreds (epoch : ℕ) : Dec := Fixed.ofInt (100 * (epoch + 1))

/-- A window of ten epochs in the fourth one, with values from 100 to 400. -/
theorem hundreds_average :
    sumIndicator 302400 (10 : ℕ) (fun epoch => .ok (hundreds epoch)) = .ok (Fixed.ofInt 1000)
    ∧ rollingAverageIndicator 302400 (10 : ℕ) (fun epoch => .ok (hundreds epoch))
      = .ok (Fixed.ofInt 250)
    ∧ ∃ i < 4, ∃ j < 4, hundreds (3 - i) ≤ Fixed.ofInt 250 ∧ Fixed.ofInt 250 ≤ hundreds (3 - j) := by
  obtain ⟨hsum, haverage, -, hbounds⟩ := indicators_over_window (show 302400 < 2 ^ 63 by decide)
    (show 10 ≤ 2 ^ 62 by decide) fun epoch => .ok (hundreds epoch)
  have hn : min 10 (getEpoch 302400 + 1) = 4 := by decide
  have hepoch : getEpoch 302400 = 3 := by decide
  rw [hn] at hsum haverage hbounds
  have hv : Values 302400 4 (fun epoch => .ok (hundreds epoch)) fun k => hundreds (3 - k) :=
    ⟨fun k _ => by rw [hepoch], fun m hm => by interval_cases m <;> decide +kernel⟩
  have ha := (haverage (Fixed.ofInt 250)).mpr ⟨_, hv, by decide +kernel⟩
  obtain ⟨i, hi, j, hj, -, hlow, hhigh⟩ := hbounds _ _ (by decide) hv
    (fun k hk => by interval_cases k <;> decide) ha
  exact ⟨(hsum _).mpr ⟨_, hv, by decide +kernel⟩, ha, i, hi, j, hj, hlow, hhigh⟩

end ColumbusCore.Treasury
