import Mathlib.Tactic

/-!
Division of integers rounded half to even (banker's rounding), the rounding of decimal
fixed-point libraries.

* `roundNat`, `halfEven`: the quotient rounded to the nearest integer, a tie going to the even
  neighbour; on a negative numerator the rounding is mirrored;
* `roundNat_le_iff` (**the characterisation**): the rounded quotient is at most `m` exactly when
  the numerator is below `(m + 1/2)d`, or at it with `m` even. The error bound and the zero test
  follow from it.
-/

namespace Rounding

/-- `n / d` rounded half to even. -/
def roundNat (n d : ℕ) : ℕ :=
  if 2 * (n % d) < d then n / d
  else if d < 2 * (n % d) then n / d + 1
  else if n / d % 2 = 0 then n / d else n / d + 1

/-- `n / d` rounded half to even, symmetrically about `0`. -/
def halfEven (n : ℤ) (d : ℕ) : ℤ :=
  if n < 0 then -(roundNat n.natAbs d : ℤ) else (roundNat n.natAbs d : ℤ)

/-- **Characterisation of the rounded quotient.** -/
theorem roundNat_le_iff {n d m : ℕ} (hd : 0 < d) :
    roundNat n d ≤ m ↔ 2 * n < (2 * m + 1) * d ∨ (2 * n = (2 * m + 1) * d ∧ m % 2 = 0) := by
  have hn := Nat.div_add_mod n d
  have hr := Nat.mod_lt n hd
  set q := n / d with hq
  set r := n % d with hr'
  have hexp : (2 * m + 1) * d = 2 * (d * m) + d := by ring
  -- the whole part of the quotient is below, at or above `m`
  rcases lt_trichotomy q m with hlt | heq | hgt
  · have h1 : d * (q + 1) ≤ d * m := Nat.mul_le_mul_left d hlt
    have h2 : d * (q + 1) = d * q + d := by ring
    have hle : roundNat n d ≤ m := by
      simp only [roundNat, ← hq, ← hr']
      split_ifs <;> omega
    exact ⟨fun _ => Or.inl (by omega), fun _ => hle⟩
  · subst heq
    simp only [roundNat, ← hq, ← hr']
    split_ifs <;> omega
  · have h1 : d * (m + 1) ≤ d * q := Nat.mul_le_mul_left d hgt
    have h2 : d * (m + 1) = d * m + d := by ring
    have hnle : ¬ roundNat n d ≤ m := by
      simp only [roundNat, ← hq, ← hr']
      split_ifs <;> omega
    exact ⟨fun h => absurd h hnle, fun h => by omega⟩

lemma lt_roundNat_iff {n d m : ℕ} (hd : 0 < d) :
    m < roundNat n d ↔ (2 * m + 1) * d < 2 * n ∨ (2 * n = (2 * m + 1) * d ∧ m % 2 = 1) := by
  rw [← not_le, roundNat_le_iff hd]
  omega

/-- The rounded quotient vanishes exactly up to half the divisor. -/
lemma roundNat_eq_zero_iff {n d : ℕ} (hd : 0 < d) : roundNat n d = 0 ↔ 2 * n ≤ d := by
  rw [← Nat.le_zero, roundNat_le_iff hd]
  omega

/-- A numerator below a multiple of the divisor stays below it. -/
lemma roundNat_le_of_le_mul {n d m : ℕ} (hd : 0 < d) (h : n ≤ m * d) : roundNat n d ≤ m := by
  rw [roundNat_le_iff hd]
  left
  have hexp : (2 * m + 1) * d = 2 * (m * d) + d := by ring
  omega

/-- An exact quotient is not rounded. -/
lemma roundNat_mul {q d : ℕ} (hd : 0 < d) : roundNat (q * d) d = q := by
  have hle := roundNat_le_of_le_mul hd (le_refl (q * d))
  rcases Nat.eq_zero_or_pos q with h0 | hpos
  · omega
  · obtain ⟨p, rfl⟩ : ∃ p, q = p + 1 := ⟨q - 1, by omega⟩
    have hlt : p < roundNat ((p + 1) * d) d := by
      rw [lt_roundNat_iff hd]
      left
      have h1 : 2 * ((p + 1) * d) = 2 * (p * d) + 2 * d := by ring
      have h2 : (2 * p + 1) * d = 2 * (p * d) + d := by ring
      omega
    omega

section Int

variable {n : ℤ} {d : ℕ}

lemma halfEven_natCast (n d : ℕ) : halfEven (n : ℤ) d = (roundNat n d : ℤ) := by
  rw [halfEven, if_neg (by omega), Int.natAbs_natCast]

lemma halfEven_of_nonneg (h : 0 ≤ n) : halfEven n d = (roundNat n.toNat d : ℤ) := by
  lift n to ℕ using h
  rw [halfEven_natCast, Int.toNat_natCast]

lemma halfEven_nonneg (h : 0 ≤ n) : 0 ≤ halfEven n d := by
  rw [halfEven_of_nonneg h]
  exact Int.natCast_nonneg _

/-- An exact quotient is not rounded. -/
@[simp] lemma halfEven_mul (q : ℤ) (hd : 0 < d) : halfEven (q * (d : ℤ)) d = q := by
  have habs : (q * (d : ℤ)).natAbs = q.natAbs * d := by
    rw [Int.natAbs_mul, Int.natAbs_natCast]
  rw [halfEven, habs, roundNat_mul hd]
  by_cases hq : q < 0
  · have hneg : q * (d : ℤ) < 0 := mul_neg_of_neg_of_pos hq (by exact_mod_cast hd)
    rw [if_pos hneg]
    omega
  · have hnn : 0 ≤ q * (d : ℤ) := mul_nonneg (by omega) (by omega)
    rw [if_neg (by omega)]
    omega

lemma halfEven_le_of_le_mul {m : ℤ} (hd : 0 < d) (h0 : 0 ≤ n) (h : n ≤ m * (d : ℤ)) :
    halfEven n d ≤ m := by
  have hm : 0 ≤ m := by
    by_contra hneg
    have : m * (d : ℤ) < 0 := mul_neg_of_neg_of_pos (by omega) (by exact_mod_cast hd)
    omega
  lift n to ℕ using h0
  lift m to ℕ using hm
  rw [halfEven_natCast]
  exact_mod_cast roundNat_le_of_le_mul hd (by exact_mod_cast h)

/-- Characterisation of the rounded quotient, against a nonnegative bound. -/
lemma halfEven_le_iff {m : ℤ} (hd : 0 < d) (hm : 0 ≤ m) :
    halfEven n d ≤ m
      ↔ 2 * n < (2 * m + 1) * d ∨ (2 * n = (2 * m + 1) * d ∧ m % 2 = 0) := by
  have hpos : 0 < (2 * m + 1) * (d : ℤ) := by positivity
  rcases le_or_gt 0 n with h0 | hneg
  · lift n to ℕ using h0
    lift m to ℕ using hm
    rw [halfEven_natCast, Nat.cast_le, roundNat_le_iff hd]
    exact_mod_cast Iff.rfl
  · have hle : halfEven n d ≤ 0 := by
      rw [halfEven, if_pos hneg]
      omega
    exact iff_of_true (hle.trans hm) (Or.inl (by omega))

/-- Rounding keeps the order. -/
lemma halfEven_mono {n' : ℤ} (hd : 0 < d) (h0 : 0 ≤ n') (h : n ≤ n') :
    halfEven n d ≤ halfEven n' d := by
  have hnn := halfEven_nonneg (d := d) h0
  have hself := (halfEven_le_iff (n := n') hd hnn).mp le_rfl
  rw [halfEven_le_iff hd hnn]
  omega

@[simp] lemma halfEven_zero (d : ℕ) : halfEven 0 d = 0 := by
  simp [halfEven, roundNat]

/-- The rounding is mirrored at zero. -/
@[simp] lemma halfEven_neg (n : ℤ) (d : ℕ) : halfEven (-n) d = -halfEven n d := by
  rcases lt_trichotomy n 0 with h | rfl | h
  · rw [halfEven, halfEven, if_neg (by omega), if_pos h, Int.natAbs_neg, neg_neg]
  · rw [neg_zero, halfEven_zero, neg_zero]
  · rw [halfEven, halfEven, if_pos (by omega), if_neg (by omega), Int.natAbs_neg]

/-- Rounding keeps the order, on both sides of zero. -/
lemma halfEven_monotone (hd : 0 < d) : Monotone fun n => halfEven n d := by
  intro n n' h
  rcases le_or_gt 0 n' with h0 | hneg
  · exact halfEven_mono hd h0 h
  · have hle : halfEven (-n') d ≤ halfEven (-n) d := halfEven_mono hd (by omega) (by omega)
    rw [halfEven_neg, halfEven_neg] at hle
    exact neg_le_neg_iff.mp hle

/-- Characterisation of the rounded quotient, of nonnegative numbers: it is nearest, and even where
it is half away. -/
lemma halfEven_eq_iff {m : ℤ} (hd : 0 < d) (h0 : 0 ≤ n) (hm : 0 ≤ m) :
    halfEven n d = m
      ↔ |2 * (n - m * d)| < d ∨ (|2 * (n - m * d)| = d ∧ m % 2 = 0) := by
  have hle := halfEven_le_iff (n := n) hd hm
  have hpos : (0 : ℤ) < d := by exact_mod_cast hd
  have hnn := halfEven_nonneg (d := d) h0
  have hexp : (2 * m + 1) * (d : ℤ) = 2 * (m * d) + d := by ring
  rw [hexp] at hle
  rcases hm.eq_or_lt with rfl | hm
  · rw [zero_mul] at hle ⊢
    rw [abs_of_nonneg (by omega)]
    omega
  · have hlt := halfEven_le_iff (n := n) (m := m - 1) hd (by omega)
    have hexp' : (2 * (m - 1) + 1) * (d : ℤ) = 2 * (m * d) - d := by ring
    rw [hexp'] at hlt
    generalize m * (d : ℤ) = x at *
    rcases abs_cases (2 * (n - x)) with ⟨habs, hsign⟩ | ⟨habs, hsign⟩
    · rw [habs]
      omega
    · rw [habs]
      omega

/-- The rounded quotient is within half a divisor of the numerator. -/
lemma halfEven_bounds (hd : 0 < d) (h0 : 0 ≤ n) :
    2 * n ≤ 2 * ((d : ℤ) * halfEven n d) + d ∧ 2 * ((d : ℤ) * halfEven n d) ≤ 2 * n + d := by
  lift n to ℕ using h0
  have key : 2 * n ≤ 2 * (d * roundNat n d) + d ∧ 2 * (d * roundNat n d) ≤ 2 * n + d := by
    have hn := Nat.div_add_mod n d
    have hr := Nat.mod_lt n hd
    have hsucc : d * (n / d + 1) = d * (n / d) + d := by ring
    rw [roundNat]
    split_ifs <;> omega
  rw [halfEven_natCast]
  exact_mod_cast key

/-- A numerator at or above a multiple of the divisor stays above it. -/
lemma le_halfEven_of_mul_le {m : ℤ} (hd : 0 < d) (h0 : 0 ≤ n) (h : m * (d : ℤ) ≤ n) :
    m ≤ halfEven n d := by
  have hpos : (0 : ℤ) < d := by exact_mod_cast hd
  by_contra hlt
  have hprev : (d : ℤ) * halfEven n d ≤ d * (m - 1) :=
    mul_le_mul_of_nonneg_left (by omega) hpos.le
  have hbound := (halfEven_bounds hd h0).1
  have hexp : (d : ℤ) * (m - 1) = m * d - d := by ring
  omega

/-- **The rounding error** is at most one half. -/
theorem abs_halfEven_sub_le (hd : 0 < d) (h0 : 0 ≤ n) :
    |(halfEven n d : ℚ) - n / d| ≤ 1 / 2 := by
  have hd' : (0 : ℚ) < d := by exact_mod_cast hd
  obtain ⟨hlow, hhigh⟩ := halfEven_bounds hd h0
  have hlow' : 2 * (n : ℚ) ≤ 2 * (d * halfEven n d) + d := by exact_mod_cast hlow
  have hhigh' : 2 * ((d : ℚ) * halfEven n d) ≤ 2 * n + d := by exact_mod_cast hhigh
  rw [abs_le, neg_le_sub_iff_le_add, sub_le_iff_le_add, div_le_iff₀ hd', ← sub_le_iff_le_add',
    le_div_iff₀ hd']
  constructor <;> linarith

/-- Rounding moves a quotient by less than one. -/
lemma halfEven_natAbs_le (n : ℤ) (d : ℕ) : (halfEven n d).natAbs ≤ n.natAbs / d + 1 := by
  have h : roundNat n.natAbs d ≤ n.natAbs / d + 1 := by
    rw [roundNat]
    split_ifs <;> omega
  rw [halfEven]
  split_ifs <;> omega

/-- The rounded quotient of a nonnegative numerator is positive exactly above half the
divisor. -/
lemma halfEven_pos_iff (hd : 0 < d) (h0 : 0 ≤ n) : 0 < halfEven n d ↔ (d : ℤ) < 2 * n := by
  lift n to ℕ using h0
  rw [halfEven_natCast, Int.natCast_pos, Nat.pos_iff_ne_zero, ne_eq, roundNat_eq_zero_iff hd]
  omega

end Int

/-! ### Truncation -/

/-- A number is truncated to a nonnegative one exactly above minus one. -/
lemma tdiv_nonneg_iff {n : ℤ} {d : ℕ} (hd : 0 < d) : 0 ≤ n.tdiv d ↔ -(d : ℤ) < n := by
  rcases le_or_gt 0 n with h0 | hneg
  · exact iff_of_true (Int.tdiv_nonneg h0 (by positivity)) (by omega)
  · have hflip : n.tdiv d = -((-n) / d) := by
      rw [← Int.tdiv_eq_ediv_of_nonneg (by omega), Int.neg_tdiv, neg_neg]
    rw [hflip, neg_nonneg, ← Int.lt_add_one_iff, zero_add,
      Int.ediv_lt_iff_lt_mul (by exact_mod_cast hd)]
    omega

/-- A number is truncated to at most a nonnegative bound exactly below the next integer. -/
lemma tdiv_le_iff {n m : ℤ} {d : ℕ} (hd : 0 < d) (hm : 0 ≤ m) : n.tdiv d ≤ m ↔ n < (m + 1) * d := by
  rcases le_or_gt 0 n with h0 | hneg
  · rw [Int.tdiv_eq_ediv_of_nonneg h0, ← Int.lt_add_one_iff,
      Int.ediv_lt_iff_lt_mul (by exact_mod_cast hd)]
  · have hpos : 0 ≤ (m + 1) * (d : ℤ) := by positivity
    refine iff_of_true (le_trans ?_ hm) (by omega)
    have hflip : n.tdiv d = -((-n) / d) := by
      rw [← Int.tdiv_eq_ediv_of_nonneg (by omega), Int.neg_tdiv, neg_neg]
    rw [hflip, neg_nonpos]
    exact Int.ediv_nonneg (by omega) (by positivity)

/-- A factor taken out again after a truncated division does not change the quotient. -/
lemma tdiv_mul_tdiv (a b : ℤ) {d : ℕ} (hd : 0 < d) : ((a * d).tdiv b).tdiv d = a.tdiv b := by
  obtain ⟨m, rfl | rfl⟩ := a.eq_nat_or_neg <;> obtain ⟨n, rfl | rfl⟩ := b.eq_nat_or_neg <;>
    simp only [Int.neg_mul, Int.neg_tdiv, Int.tdiv_neg, ← Int.natCast_mul, ← Int.ofNat_tdiv,
      Nat.div_div_eq_div_mul, Nat.mul_div_mul_right _ _ hd]

/-! ### Shares of a whole -/

/-- The truncated quotients of the parts of a whole sum to at most one. -/
lemma sum_tdiv_le {S : ℤ} (hS : 0 < S) {d : ℕ} {l : List ℤ} (h0 : ∀ w ∈ l, 0 ≤ w) :
    S * (l.map fun w : ℤ => (w * d).tdiv S).sum ≤ l.sum * d := by
  induction l with
  | nil => simp
  | cons w l ih =>
      obtain ⟨hw, hl⟩ := List.forall_mem_cons.mp h0
      have hround : S * (w * d).tdiv S ≤ w * d := by
        rw [Int.tdiv_eq_ediv_of_nonneg (by positivity)]
        exact Int.mul_ediv_self_le hS.ne'
      rw [List.map_cons, List.sum_cons, List.sum_cons]
      linarith [ih hl]

/-- The shares `q` of an amount `R`, in units of the last decimal, rounded and truncated to whole
coins: each of them is too large by at most half a unit of the last decimal. -/
lemma sum_shares_le {d : ℕ} (hd : 0 < d) {R : ℤ} (hR : 0 ≤ R) {l : List ℤ}
    (h0 : ∀ q ∈ l, 0 ≤ q) :
    2 * (d * (d * (l.map fun q => (halfEven (R * q) d).tdiv d).sum))
      ≤ 2 * (R * l.sum) + l.length * d := by
  induction l with
  | nil => simp
  | cons q l ih =>
      obtain ⟨hq, hl⟩ := List.forall_mem_cons.mp h0
      have hnn : 0 ≤ R * q := mul_nonneg hR hq
      have hbound := (halfEven_bounds hd hnn).2
      have htrunc : (d : ℤ) * (halfEven (R * q) d).tdiv d ≤ halfEven (R * q) d := by
        rw [Int.tdiv_eq_ediv_of_nonneg (halfEven_nonneg hnn)]
        exact Int.mul_ediv_self_le (by omega)
      have hscaled := mul_le_mul_of_nonneg_left htrunc (Int.natCast_nonneg d)
      rw [List.map_cons, List.sum_cons, List.sum_cons, List.length_cons]
      push_cast
      linarith [ih hl]

/-- **Fewer than `2 * d` rounded shares of an amount below `B` whole coins are at most `B`.** -/
theorem sum_shares_le_of_le {d : ℕ} (hd : 0 < d) {R B : ℤ} (hR : 0 ≤ R) (hB : R ≤ B * d)
    {l : List ℤ} (h0 : ∀ q ∈ l, 0 ≤ q) (hsum : l.sum ≤ d) (hlen : l.length < 2 * d) :
    (l.map fun q => (halfEven (R * q) d).tdiv d).sum ≤ B := by
  have hshares := sum_shares_le hd hR h0
  have hpos : (0 : ℤ) < d := by exact_mod_cast hd
  generalize (l.map fun q => (halfEven (R * q) d).tdiv d).sum = x at *
  have hlen' : (l.length : ℤ) < 2 * d := by exact_mod_cast hlen
  -- all of it over `2 * d * d`
  have hlt : d * (d * x) < d * (d * (B + 1)) := by
    have h1 : R * l.sum ≤ B * d * d :=
      (mul_le_mul_of_nonneg_left hsum hR).trans (mul_le_mul_of_nonneg_right hB hpos.le)
    have h2 : (l.length : ℤ) * d < 2 * d * d := mul_lt_mul_of_pos_right hlen' hpos
    linarith
  have hlt' := lt_of_mul_lt_mul_left (lt_of_mul_lt_mul_left hlt hpos.le) hpos.le
  omega

end Rounding
