import ColumbusCore.Sdk

/-!
Vesting schedules (`x/vesting/types/schedule.go`).

A schedule vests its ratio of an amount in equal parts between its start and its end. The schedules
of a denom are valid when their ratios sum to one at nine decimals.

* `vestedRaw`: the ratio one schedule has vested at a time, its bounds, and that it does not fall;
* `VestingSchedule.validate_eq_ok`: what the validation guarantees: the sum of the ratios is within
  `5 * 10 ^ 8` units of the last decimal of one;
* `getVestedRatio_eq`: **the vested ratio of valid schedules** is the sum of those of its schedules,
  and `getVestedRatio_of_ended`: after their end it is the sum of the ratios.
-/

namespace ColumbusCore.Vesting

open Go Rounding

/-! ### Schedules -/

/-- `Schedule`. -/
structure Schedule where
  startTime : Int64
  endTime : Int64
  ratio : Dec
deriving DecidableEq

/-- `Schedule.Validate`. -/
def Schedule.validate (s : Schedule) : Outcome Unit := do
  failIf (s.startTime < 0) "vesting start-time cannot be negative"
  failIf (s.endTime < s.startTime) "vesting start-time cannot be before end-time"
  failIf (s.ratio.raw ≤ 0) "vesting ratio cannot be smaller than or equal with zero"

/-- `VestingSchedule`. -/
structure VestingSchedule where
  denom : Denom
  schedules : List Schedule
deriving DecidableEq

/-- One round of `GetVestedRatio`. -/
def addVested (blockTime : Int64) (sumRatio : Dec) (s : Schedule) : Outcome Dec :=
  if blockTime < s.startTime then pure sumRatio
  else if blockTime < s.endTime then do
    let scaled ← s.ratio.mulInt (blockTime - s.startTime).toInt
    let ratio ← scaled.quoInt (s.endTime - s.startTime).toInt
    sumRatio.add ratio
  else sumRatio.add s.ratio

/-- `GetVestedRatio`. -/
def VestingSchedule.getVestedRatio (vs : VestingSchedule) (blockTime : Int64) : Outcome Dec :=
  vs.schedules.foldlM (addVested blockTime) 0

/-- One round of the sum of `VestingSchedule.Validate`. -/
def addRatio (sumRatio : Dec) (s : Schedule) : Outcome Dec := do
  s.validate
  sumRatio.add s.ratio

/-- `VestingSchedule.Validate`: the sum of the ratios is compared with one at nine decimals. -/
def VestingSchedule.validate (vs : VestingSchedule) : Outcome Unit := do
  let sumRatio ← vs.schedules.foldlM addRatio 0
  let scaled ← sumRatio.mulInt 1000000000
  let rounded ← scaled.roundInt
  let rounded ← int64 rounded
  let total ← (Fixed.ofInt rounded : Dec).quoInt 1000000000
  failIf (total ≠ Fixed.one) "vesting total ratio must be one"

/-! ### One schedule -/

/-- What the validation of a schedule guarantees. -/
structure Schedule.Valid (s : Schedule) : Prop where
  start_nonneg : 0 ≤ s.startTime
  start_le : s.startTime ≤ s.endTime
  ratio_pos : 0 < s.ratio.raw

lemma Schedule.validate_eq_ok {s : Schedule} (h : s.validate = .ok ()) : s.Valid := by
  obtain ⟨_, h1, h⟩ := bind_eq_ok.mp h
  obtain ⟨_, h2, h3⟩ := bind_eq_ok.mp h
  exact ⟨Int64.not_lt.mp (failIf_eq_ok.mp h1), Int64.not_lt.mp (failIf_eq_ok.mp h2),
    not_le.mp (failIf_eq_ok.mp h3)⟩

/-- The ratio a schedule has vested, in units of the last decimal. -/
def vestedRaw (blockTime : Int64) (s : Schedule) : ℤ :=
  if blockTime < s.startTime then 0
  else if blockTime < s.endTime then
    (s.ratio.raw * (blockTime.toInt - s.startTime.toInt)).tdiv
      (s.endTime.toInt - s.startTime.toInt)
  else s.ratio.raw

lemma vestedRaw_bounds {s : Schedule} (hs : s.Valid) (blockTime : Int64) :
    0 ≤ vestedRaw blockTime s ∧ vestedRaw blockTime s ≤ s.ratio.raw := by
  have hratio := hs.ratio_pos
  rw [vestedRaw]
  split_ifs with h1 h2
  · exact ⟨le_rfl, hratio.le⟩
  · have hstart := Int64.le_iff_toInt_le.mp (Int64.not_lt.mp h1)
    have hend := Int64.lt_iff_toInt_lt.mp h2
    have hspan : 0 < s.endTime.toInt - s.startTime.toInt := by omega
    have hnum : 0 ≤ s.ratio.raw * (blockTime.toInt - s.startTime.toInt) :=
      mul_nonneg hratio.le (by omega)
    rw [Int.tdiv_eq_ediv_of_nonneg hnum]
    refine ⟨Int.ediv_nonneg hnum hspan.le, Int.ediv_le_of_le_mul hspan ?_⟩
    exact mul_le_mul_of_nonneg_left (by omega) hratio.le
  · exact ⟨hratio.le, le_rfl⟩

/-- After its end a schedule has vested its ratio. -/
lemma vestedRaw_of_ended {s : Schedule} (hs : s.Valid) {blockTime : Int64}
    (h : s.endTime ≤ blockTime) : vestedRaw blockTime s = s.ratio.raw := by
  rw [vestedRaw, if_neg (Int64.not_lt.mpr (Int64.le_trans hs.start_le h)),
    if_neg (Int64.not_lt.mpr h)]

/-- Before its start a schedule has vested nothing. -/
lemma vestedRaw_of_neg {s : Schedule} (hs : s.Valid) {blockTime : Int64} (h : blockTime < 0) :
    vestedRaw blockTime s = 0 := by
  rw [vestedRaw, if_pos (Int64.lt_of_lt_of_le h hs.start_nonneg)]

/-- A schedule does not take back what has vested: within its span the division keeps the order, and
on either side it vests nothing, or everything. -/
lemma vestedRaw_mono {s : Schedule} (hs : s.Valid) {blockTime blockTime' : Int64}
    (h : blockTime ≤ blockTime') : vestedRaw blockTime s ≤ vestedRaw blockTime' s := by
  have hbounds := vestedRaw_bounds hs blockTime
  have hbounds' := vestedRaw_bounds hs blockTime'
  by_cases hstart : blockTime < s.startTime
  · rw [vestedRaw, if_pos hstart]
    exact hbounds'.1
  by_cases hend : s.endTime ≤ blockTime'
  · rw [vestedRaw_of_ended hs hend]
    exact hbounds.2
  have htime := Int64.le_iff_toInt_le.mp h
  have hbefore := Int64.le_iff_toInt_le.mp (Int64.not_lt.mp hstart)
  have hafter := Int64.lt_iff_toInt_lt.mp (Int64.not_le.mp hend)
  have hratio := hs.ratio_pos
  rw [vestedRaw, vestedRaw, if_neg hstart, if_pos (Int64.lt_iff_toInt_lt.mpr (by omega)),
    if_neg (Int64.not_lt.mpr (Int64.le_iff_toInt_le.mpr (by omega))), if_pos (Int64.not_le.mp hend),
    Int.tdiv_eq_ediv_of_nonneg (mul_nonneg hratio.le (by omega)),
    Int.tdiv_eq_ediv_of_nonneg (mul_nonneg hratio.le (by omega))]
  refine Int.ediv_le_ediv (by omega) (mul_le_mul_of_nonneg_left (by omega) hratio.le)

/-- One round of the vested ratio. -/
lemma addVested_eq {s : Schedule} (hs : s.Valid) (hratio : s.ratio.raw < 2 ^ 100) (blockTime : Int64)
    {sum : Dec} (h0 : 0 ≤ sum.raw) (hsum : sum.raw + vestedRaw blockTime s < 2 ^ 200) :
    addVested blockTime sum s = .ok ⟨sum.raw + vestedRaw blockTime s⟩ := by
  have hbounds := vestedRaw_bounds hs blockTime
  have hadd : ∀ x : Dec, x.raw = vestedRaw blockTime s →
      sum.add x = .ok ⟨sum.raw + vestedRaw blockTime s⟩ := by
    intro x hx
    rw [Fixed.add, hx]
    exact Fixed.checked_eq_ok_iff.mpr ⟨fits_of_le (by omega) (by omega), rfl⟩
  rw [addVested]
  rw [vestedRaw] at hadd ⊢
  split_ifs at hadd ⊢ with h1 h2
  · rw [add_zero, pure_eq_ok]
  · have hstart := Int64.not_lt.mp h1
    have hle := Int64.le_iff_toInt_le.mp hstart
    have hlt := Int64.lt_iff_toInt_lt.mp h2
    have hn0 := Int64.le_iff_toInt_le.mp hs.start_nonneg
    have htime := Int64.toInt_lt blockTime
    rw [Int64.toInt_sub_of_le _ _ hs.start_nonneg hstart,
      Int64.toInt_sub_of_le _ _ hs.start_nonneg hs.start_le]
    have hspan : s.endTime.toInt - s.startTime.toInt ≠ 0 := by omega
    have hscaled : s.ratio.mulInt (blockTime.toInt - s.startTime.toInt)
        = .ok ⟨s.ratio.raw * (blockTime.toInt - s.startTime.toInt)⟩ := by
      refine Fixed.checked_eq_ok_iff.mpr ⟨fits_of_le ?_ ?_, rfl⟩
      · exact mul_nonneg hs.ratio_pos.le (by omega)
      · have hdt : blockTime.toInt - s.startTime.toInt < 2 ^ 63 := by
          have : (0 : Int64).toInt = 0 := rfl
          omega
        calc s.ratio.raw * (blockTime.toInt - s.startTime.toInt)
            ≤ 2 ^ 100 * 2 ^ 63 := mul_le_mul hratio.le hdt.le (by omega) (by norm_num)
          _ ≤ 2 ^ 255 * 10 ^ 18 := by norm_num
    rw [hscaled, ok_bind, Fixed.quoInt_eq_ok hspan, ok_bind]
    exact hadd _ rfl
  · exact hadd _ rfl

/-! ### All schedules of a denom -/

/-- The sum of the ratios, in units of the last decimal. -/
def VestingSchedule.totalRatio (vs : VestingSchedule) : ℤ :=
  (vs.schedules.map fun s => s.ratio.raw).sum

/-- What the validation of the schedules of a denom guarantees. -/
structure VestingSchedule.Valid (vs : VestingSchedule) : Prop where
  schedules : ∀ s ∈ vs.schedules, s.Valid
  total_ge : 10 ^ 18 - 5 * 10 ^ 8 ≤ vs.totalRatio
  total_le : vs.totalRatio ≤ 10 ^ 18 + 5 * 10 ^ 8

/-- The loop of the validation goes through valid schedules, and adds up their ratios. -/
lemma foldlM_addRatio_eq_ok {vs : VestingSchedule} {sum : Dec}
    (h : vs.schedules.foldlM addRatio 0 = .ok sum) :
    (∀ s ∈ vs.schedules, s.Valid) ∧ sum.raw = vs.totalRatio := by
  refine foldlM_induction (fun (pre : List Schedule) (sum : Dec) =>
    (∀ s ∈ pre, s.Valid) ∧ sum.raw = (pre.map fun s => s.ratio.raw).sum) h ⟨by simp, rfl⟩ ?_
  intro pre s post a a' _ ⟨hpre, ha⟩ hround
  obtain ⟨_, hs, hround⟩ := bind_eq_ok.mp hround
  obtain ⟨-, rfl⟩ := Fixed.checked_eq_ok_iff.mp hround
  refine ⟨fun s' hs' => ?_, by simp [ha]⟩
  rcases List.mem_append.mp hs' with hs' | hs'
  · exact hpre s' hs'
  · exact List.mem_singleton.mp hs' ▸ Schedule.validate_eq_ok hs

/-- **The validation of the schedules of a denom.** Rounded to nine decimals, the sum of the ratios
is one. -/
theorem VestingSchedule.validate_eq_ok {vs : VestingSchedule} (h : vs.validate = .ok ()) :
    vs.Valid := by
  obtain ⟨sum, hsum, h⟩ := bind_eq_ok.mp h
  obtain ⟨scaled, hscaled, h⟩ := bind_eq_ok.mp h
  obtain ⟨rounded, hrounded, h⟩ := bind_eq_ok.mp h
  obtain ⟨rounded', hint, h⟩ := bind_eq_ok.mp h
  obtain ⟨total, htotal, h⟩ := bind_eq_ok.mp h
  obtain ⟨hvalid, hraw⟩ := foldlM_addRatio_eq_ok hsum
  obtain ⟨-, rfl⟩ := Fixed.checked_eq_ok_iff.mp hscaled
  obtain ⟨-, rfl⟩ := Fixed.checkedInt_eq_ok_iff.mp hrounded
  obtain ⟨-, rfl⟩ := int64_eq_ok_iff.mp hint
  rw [Fixed.quoInt_eq_ok (by norm_num)] at htotal
  obtain rfl := Except.ok.inj htotal
  have hone := congrArg Fixed.raw (not_not.mp (failIf_eq_ok.mp h))
  -- the rounded sum is a billion
  have hbillion : halfEven (sum.raw * 1000000000) decFormat.scale = 1000000000 := by
    have heq : (halfEven (sum.raw * 1000000000) decFormat.scale * (10 ^ 18 : ℕ)).tdiv 1000000000
        = 10 ^ 18 := hone
    have hcancel : ∀ x : ℤ, (x * (10 ^ 18 : ℕ)).tdiv 1000000000 = x * 10 ^ 9 := fun x => by
      rw [show x * (10 ^ 18 : ℕ) = x * 10 ^ 9 * 1000000000 by push_cast; ring,
        Int.mul_tdiv_cancel _ (by norm_num)]
    rw [hcancel] at heq
    omega
  have hnn : 0 ≤ sum.raw := by
    rw [hraw]
    exact List.sum_nonneg (List.forall_mem_map.mpr fun s hs => (hvalid s hs).ratio_pos.le)
  have hbounds := halfEven_bounds decFormat.scale_pos
    (mul_nonneg hnn (show (0 : ℤ) ≤ 1000000000 by norm_num))
  have hscale : ((decFormat.scale : ℕ) : ℤ) = 10 ^ 18 := rfl
  rw [hbillion, hscale] at hbounds
  exact ⟨hvalid, by omega, by omega⟩

section Ratio

variable {vs : VestingSchedule} (hvs : vs.Valid) (blockTime : Int64)

include hvs

lemma VestingSchedule.Valid.ratio_lt {s : Schedule} (hs : s ∈ vs.schedules) :
    s.ratio.raw < 2 ^ 100 := by
  have hle : s.ratio.raw ≤ vs.totalRatio := List.single_le_sum
    (List.forall_mem_map.mpr fun s hs => (hvs.schedules s hs).ratio_pos.le) _
    (List.mem_map.mpr ⟨s, hs, rfl⟩)
  have htotal := hvs.total_le
  omega

/-- The ratio vested at a time lies between nothing and the sum of the ratios. -/
lemma sum_vestedRaw_bounds :
    0 ≤ (vs.schedules.map (vestedRaw blockTime)).sum
      ∧ (vs.schedules.map (vestedRaw blockTime)).sum ≤ vs.totalRatio :=
  ⟨List.sum_nonneg (List.forall_mem_map.mpr fun s hs =>
      (vestedRaw_bounds (hvs.schedules s hs) blockTime).1),
    List.sum_le_sum fun s hs => (vestedRaw_bounds (hvs.schedules s hs) blockTime).2⟩

/-- The vested ratio does not fall, however the schedules overlap. -/
lemma sum_vestedRaw_mono {blockTime' : Int64} (h : blockTime ≤ blockTime') :
    (vs.schedules.map (vestedRaw blockTime)).sum
      ≤ (vs.schedules.map (vestedRaw blockTime')).sum :=
  List.sum_le_sum fun s hs => vestedRaw_mono (hvs.schedules s hs) h

/-- **The vested ratio** of valid schedules is defined, and is the sum over the schedules. -/
theorem getVestedRatio_eq :
    vs.getVestedRatio blockTime = .ok ⟨(vs.schedules.map (vestedRaw blockTime)).sum⟩ := by
  have hloop : ∀ (l : List Schedule) (sum : Dec), (∀ s ∈ l, s ∈ vs.schedules) → 0 ≤ sum.raw →
      sum.raw + (l.map (vestedRaw blockTime)).sum < 2 ^ 200 →
      l.foldlM (addVested blockTime) sum = .ok ⟨sum.raw + (l.map (vestedRaw blockTime)).sum⟩ := by
    intro l
    induction l with
    | nil =>
        intro sum _ _ _
        simp
    | cons s l ih =>
        intro sum hl h0 hlt
        obtain ⟨hs, hl⟩ := List.forall_mem_cons.mp hl
        have hbounds := vestedRaw_bounds (hvs.schedules s hs) blockTime
        have hrest : 0 ≤ (l.map (vestedRaw blockTime)).sum :=
          List.sum_nonneg (List.forall_mem_map.mpr fun s' hs' =>
            (vestedRaw_bounds (hvs.schedules s' (hl s' hs')) blockTime).1)
        rw [List.map_cons, List.sum_cons] at hlt ⊢
        rw [List.foldlM_cons, addVested_eq (hvs.schedules s hs) (hvs.ratio_lt hs) blockTime h0
          (by omega), ok_bind, ih _ hl (show 0 ≤ sum.raw + _ by omega)
          (show sum.raw + _ + _ < _ by omega)]
        exact congrArg (fun x => Except.ok (Fixed.mk x)) (add_assoc _ _ _)
  have hbounds := sum_vestedRaw_bounds hvs blockTime
  have htotal := hvs.total_le
  have hzero := hloop vs.schedules 0 (fun s hs => hs) le_rfl (by rw [Fixed.zero_raw]; omega)
  rw [Fixed.zero_raw, zero_add] at hzero
  exact hzero

/-- After the end of all schedules the vested ratio is the sum of the ratios. -/
lemma sum_vestedRaw_of_ended (hend : ∀ s ∈ vs.schedules, s.endTime ≤ blockTime) :
    (vs.schedules.map (vestedRaw blockTime)).sum = vs.totalRatio :=
  congrArg List.sum (List.map_congr_left fun s hs =>
    vestedRaw_of_ended (hvs.schedules s hs) (hend s hs))

/-- Before time zero nothing has vested. -/
lemma sum_vestedRaw_of_neg (hneg : blockTime < 0) :
    (vs.schedules.map (vestedRaw blockTime)).sum = 0 := by
  refine List.sum_eq_zero (List.forall_mem_map.mpr fun s hs => ?_)
  exact vestedRaw_of_neg (hvs.schedules s hs) hneg

end Ratio

end ColumbusCore.Vesting
