import ColumbusCore.Lib.Outcome
import ColumbusCore.Lib.HalfEven

/-!
Bounded decimal fixed-point numbers.

A number of the format `F` is an integer `raw`, read as `raw / F.scale`. Products and quotients
are rounded half to even, a quotient after a first truncation at twice the precision; integer
quotients are truncated. A result of more than `F.decBits` bits is a panic, and so is an integer
read off a decimal that has more than `F.intBits` bits.

* `Fixed.add`, `Fixed.sub`, `Fixed.mul`, `Fixed.quo`, `Fixed.mulInt`, `Fixed.quoInt`,
  `Fixed.roundInt`, `Fixed.truncateInt`, `Fixed.ceil`: the operations;
* `quo_eq_ok_iff`, `quoRaw_pos_iff`: when a quotient is defined, and when it does not vanish;
* `ofInt_mul`: the product with an integer is exact;
* `abs_mul_sub_le`, `abs_quo_sub_le`: the rounding errors of a product and of a quotient;
* `foldlM_add_perm`: a sum of nonnegative terms stays in the bit limit or leaves it whatever
  the order of its terms;
* `foldlM_range_add_eq_ok_iff`: a sum of terms of either sign.
-/

open Go Rounding

/-- A decimal format: the scale, and the bit limits of decimals and of integers. -/
structure Format where
  scale : ℕ
  decBits : ℕ
  intBits : ℕ
  scale_pos : 0 < scale

/-- A decimal of the format `F`: `raw` units of `1 / F.scale`. -/
@[ext] structure Fixed (F : Format) where
  raw : ℤ
deriving DecidableEq, Repr

namespace Fixed

variable {F : Format}

lemma raw_injective : Function.Injective (Fixed.raw : Fixed F → ℤ) := fun _ _ h => Fixed.ext h

instance : LinearOrder (Fixed F) := LinearOrder.lift' Fixed.raw raw_injective

lemma le_def {a b : Fixed F} : a ≤ b ↔ a.raw ≤ b.raw := Iff.rfl

lemma lt_def {a b : Fixed F} : a < b ↔ a.raw < b.raw := Iff.rfl

instance : Zero (Fixed F) := ⟨⟨0⟩⟩

@[simp] lemma zero_raw : (0 : Fixed F).raw = 0 := rfl

/-- The number one. -/
def one : Fixed F := ⟨F.scale⟩

/-- An integer as a decimal; the conversion is not bounded. -/
def ofInt (n : ℤ) : Fixed F := ⟨n * F.scale⟩

/-- The number a decimal stands for. -/
def toRat (a : Fixed F) : ℚ := a.raw / F.scale

/-- Strict positivity. -/
def IsPositive (a : Fixed F) : Prop := 0 < a.raw

instance (a : Fixed F) : Decidable a.IsPositive := inferInstanceAs (Decidable (0 < a.raw))

/-! ### Bit limits -/

/-- A raw result within the bit limit of decimals. -/
def Fits (F : Format) (x : ℤ) : Prop := x.natAbs < 2 ^ F.decBits

instance (x : ℤ) : Decidable (Fits F x) := inferInstanceAs (Decidable (x.natAbs < 2 ^ F.decBits))

/-- A raw result as a decimal, a panic past the bit limit. -/
def checked (x : ℤ) : Outcome (Fixed F) :=
  if Fits F x then .ok ⟨x⟩ else panicked .overflow

/-- An integer result, a panic past the bit limit of integers. -/
def checkedInt (F : Format) (x : ℤ) : Outcome ℤ :=
  if x.natAbs < 2 ^ F.intBits then .ok x else panicked .overflow

lemma checked_eq_ok_iff {x : ℤ} {c : Fixed F} : checked x = .ok c ↔ Fits F x ∧ c = ⟨x⟩ := by
  rw [checked]
  split_ifs with h
  · simp [h, eq_comm]
  · simp [h, panicked]

lemma checked_eq_error_iff {x : ℤ} {e : Fault} :
    (checked x : Outcome (Fixed F)) = .error e ↔ ¬ Fits F x ∧ e = .panic .overflow := by
  rw [checked]
  split_ifs with h
  · simp [h]
  · simp [h, panicked, eq_comm]

lemma checkedInt_eq_ok_iff {x y : ℤ} :
    checkedInt F x = .ok y ↔ x.natAbs < 2 ^ F.intBits ∧ y = x := by
  rw [checkedInt]
  split_ifs with h
  · simp [h, eq_comm]
  · simp [h, panicked]

lemma checkedInt_eq_error_iff {x : ℤ} {e : Fault} :
    checkedInt F x = .error e ↔ ¬ x.natAbs < 2 ^ F.intBits ∧ e = .panic .overflow := by
  rw [checkedInt]
  split_ifs with h
  · simp [h]
  · simp [h, panicked, eq_comm]

lemma Fits.of_le {x y : ℤ} (hy : Fits F y) (h0 : 0 ≤ x) (h : x ≤ y) : Fits F x := by
  have hy' : y.natAbs < 2 ^ F.decBits := hy
  show x.natAbs < 2 ^ F.decBits
  omega

/-! ### Operations -/

def add (a b : Fixed F) : Outcome (Fixed F) := checked (a.raw + b.raw)

def sub (a b : Fixed F) : Outcome (Fixed F) := checked (a.raw - b.raw)

def mul (a b : Fixed F) : Outcome (Fixed F) := checked (halfEven (a.raw * b.raw) F.scale)

def mulInt (a : Fixed F) (n : ℤ) : Outcome (Fixed F) := checked (a.raw * n)

/-- The raw quotient: truncated at twice the precision, then rounded to the precision. -/
def quoRaw (F : Format) (a b : ℤ) : ℤ := halfEven ((a * F.scale ^ 2).tdiv b) F.scale

def quo (a b : Fixed F) : Outcome (Fixed F) :=
  if b.raw = 0 then panicked .divisionByZero else checked (quoRaw F a.raw b.raw)

/-- The quotient by an integer, truncated toward zero. -/
def quoInt (a : Fixed F) (n : ℤ) : Outcome (Fixed F) :=
  if n = 0 then panicked .divisionByZero else .ok ⟨a.raw.tdiv n⟩

def roundInt (a : Fixed F) : Outcome ℤ := checkedInt F (halfEven a.raw F.scale)

def truncateInt (a : Fixed F) : Outcome ℤ := checkedInt F (a.raw.tdiv F.scale)

/-- The absolute value. -/
def abs (a : Fixed F) : Fixed F := ⟨|a.raw|⟩

/-- The smallest integer at or above the number, as a decimal. -/
def ceil (a : Fixed F) : Fixed F := ⟨-((-a.raw) / F.scale) * F.scale⟩

/-! ### The rules of the operations -/

lemma quo_eq_ok_iff {a b c : Fixed F} :
    quo a b = .ok c ↔ b.raw ≠ 0 ∧ Fits F (quoRaw F a.raw b.raw) ∧ c = ⟨quoRaw F a.raw b.raw⟩ := by
  rw [quo]
  split_ifs with h
  · simp [h, panicked]
  · rw [checked_eq_ok_iff]
    simp [h]

lemma quo_eq_error_iff {a b : Fixed F} {e : Fault} :
    quo a b = .error e ↔ (b.raw = 0 ∧ e = .panic .divisionByZero)
      ∨ (b.raw ≠ 0 ∧ ¬ Fits F (quoRaw F a.raw b.raw) ∧ e = .panic .overflow) := by
  rw [quo]
  split_ifs with h
  · simp [h, panicked, eq_comm]
  · rw [checked_eq_error_iff]
    simp [h]

/-- The operations without a division can only overflow. -/
lemma faultsIn_checked (x : ℤ) :
    FaultsIn (· = .panic .overflow) (checked x : Outcome (Fixed F)) := fun _ h =>
  (checked_eq_error_iff.mp h).2

/-- And so can a division by another number than zero. -/
lemma faultsIn_quo {a b : Fixed F} (hb : b ≠ 0) : FaultsIn (· = .panic .overflow) (a.quo b) := by
  have hraw : b.raw ≠ 0 := fun h => hb (Fixed.ext h)
  rw [quo, if_neg hraw]
  exact faultsIn_checked _

lemma faultsIn_truncateInt (a : Fixed F) :
    FaultsIn (· = .panic .overflow) a.truncateInt := fun _ h => (checkedInt_eq_error_iff.mp h).2

lemma mk_add {x y : ℤ} (h : Fits F (x + y)) : (⟨x⟩ : Fixed F).add ⟨y⟩ = .ok ⟨x + y⟩ :=
  checked_eq_ok_iff.mpr ⟨h, rfl⟩

lemma mk_sub {x y : ℤ} (h : Fits F (x - y)) : (⟨x⟩ : Fixed F).sub ⟨y⟩ = .ok ⟨x - y⟩ :=
  checked_eq_ok_iff.mpr ⟨h, rfl⟩

lemma mk_quo {x y z : ℤ} (hy : y ≠ 0) (hz : quoRaw F x y = z) (h : Fits F z) :
    (⟨x⟩ : Fixed F).quo ⟨y⟩ = .ok ⟨z⟩ :=
  quo_eq_ok_iff.mpr ⟨hy, hz.symm ▸ h, congrArg Fixed.mk hz.symm⟩

lemma quoRaw_nonneg {a b : ℤ} (ha : 0 ≤ a) (hb : 0 ≤ b) : 0 ≤ quoRaw F a b :=
  halfEven_nonneg (Int.tdiv_nonneg (by positivity) hb)

/-- A quotient stays below `q` while the one at twice the precision does. -/
lemma quoRaw_le_of_lt {a b q : ℤ} (hb : 0 < b) (hq : 0 ≤ q)
    (h : a * (F.scale : ℤ) ^ 2 < (q * F.scale + 1) * b) : quoRaw F a b ≤ q := by
  have hS : (0 : ℤ) < F.scale := by exact_mod_cast F.scale_pos
  have htrunc : (a * (F.scale : ℤ) ^ 2).tdiv b ≤ q * F.scale := by
    lift b to ℕ using hb.le
    exact (tdiv_le_iff (by exact_mod_cast hb) (by positivity)).mpr h
  rw [quoRaw, halfEven_le_iff F.scale_pos hq]
  have hexp : (2 * q + 1) * (F.scale : ℤ) = 2 * (q * F.scale) + F.scale := by ring
  omega

lemma quoRaw_le_of_le_mul {a b q : ℤ} (hb : 0 < b) (hq : 0 ≤ q) (h : a * F.scale ≤ q * b) :
    quoRaw F a b ≤ q := by
  have hS : (0 : ℤ) < F.scale := by exact_mod_cast F.scale_pos
  refine quoRaw_le_of_lt hb hq ?_
  calc a * (F.scale : ℤ) ^ 2 = a * F.scale * F.scale := by ring
    _ ≤ q * b * F.scale := mul_le_mul_of_nonneg_right h hS.le
    _ < (q * F.scale + 1) * b := by linarith

/-- A larger dividend gives a larger quotient. -/
lemma quoRaw_mono {a a' b : ℤ} (hb : 0 < b) (ha : 0 ≤ a) (haa : a ≤ a') :
    quoRaw F a b ≤ quoRaw F a' b := by
  have hscale : (0 : ℤ) ≤ (F.scale : ℤ) ^ 2 := by positivity
  have hle : a * (F.scale : ℤ) ^ 2 ≤ a' * (F.scale : ℤ) ^ 2 := mul_le_mul_of_nonneg_right haa hscale
  refine halfEven_monotone F.scale_pos ?_
  rw [Int.tdiv_eq_ediv_of_nonneg (mul_nonneg ha hscale),
    Int.tdiv_eq_ediv_of_nonneg (mul_nonneg (ha.trans haa) hscale)]
  exact Int.ediv_le_ediv hb hle

/-- A larger divisor gives a smaller quotient. -/
lemma quoRaw_antitone {a b b' : ℤ} (ha : 0 ≤ a) (hb : 0 < b) (hbb : b ≤ b') :
    quoRaw F a b' ≤ quoRaw F a b := by
  have hnum : 0 ≤ a * (F.scale : ℤ) ^ 2 := by positivity
  refine halfEven_mono F.scale_pos (Int.tdiv_nonneg hnum hb.le) ?_
  rw [Int.tdiv_eq_ediv_of_nonneg hnum, Int.tdiv_eq_ediv_of_nonneg hnum]
  generalize a * (F.scale : ℤ) ^ 2 = x at *
  refine Int.le_ediv_of_mul_le hb ?_
  calc x / b' * b ≤ x / b' * b' :=
        mul_le_mul_of_nonneg_left hbb (Int.ediv_nonneg hnum (hb.le.trans hbb))
    _ ≤ x := Int.ediv_mul_le x (hb.trans_le hbb).ne'

/-- A quotient falls short of the exact one by less than half a unit and a unit at twice the
precision. -/
lemma lt_quoRaw_mul {a b : ℤ} (ha : 0 ≤ a) (hb : 0 < b) :
    2 * (a * (F.scale : ℤ) ^ 2) < (2 * (F.scale * quoRaw F a b) + F.scale + 2) * b := by
  have hnum : 0 ≤ a * (F.scale : ℤ) ^ 2 := by positivity
  have hround := (halfEven_bounds F.scale_pos (Int.tdiv_nonneg hnum hb.le)).1
  rw [← quoRaw, Int.tdiv_eq_ediv_of_nonneg hnum] at hround
  calc 2 * (a * (F.scale : ℤ) ^ 2) < 2 * ((a * (F.scale : ℤ) ^ 2 / b + 1) * b) := by
        have := Int.lt_ediv_add_one_mul_self (a * (F.scale : ℤ) ^ 2) hb
        linarith
    _ = (2 * (a * (F.scale : ℤ) ^ 2 / b) + 2) * b := by ring
    _ ≤ (2 * (F.scale * quoRaw F a b) + F.scale + 2) * b :=
        mul_le_mul_of_nonneg_right (by linarith) hb.le

/-- A quotient exceeds the exact one by half a unit at most. -/
lemma quoRaw_mul_le {a b : ℤ} (ha : 0 ≤ a) (hb : 0 < b) :
    2 * (quoRaw F a b * b) ≤ 2 * (a * F.scale) + b := by
  have hS : (0 : ℤ) < F.scale := by exact_mod_cast F.scale_pos
  have hnum : 0 ≤ a * (F.scale : ℤ) ^ 2 := by positivity
  have htrunc : (a * (F.scale : ℤ) ^ 2).tdiv b * b ≤ a * (F.scale : ℤ) ^ 2 := by
    rw [Int.tdiv_eq_ediv_of_nonneg hnum]
    exact Int.ediv_mul_le _ hb.ne'
  have hround := (halfEven_bounds F.scale_pos (Int.tdiv_nonneg hnum hb.le)).2
  refine le_of_mul_le_mul_left ?_ hS
  calc (F.scale : ℤ) * (2 * (quoRaw F a b * b))
      = 2 * (F.scale * quoRaw F a b) * b := by ring
    _ ≤ (2 * (a * (F.scale : ℤ) ^ 2).tdiv b + F.scale) * b := mul_le_mul_of_nonneg_right hround hb.le
    _ = 2 * ((a * (F.scale : ℤ) ^ 2).tdiv b * b) + F.scale * b := by ring
    _ ≤ 2 * (a * (F.scale : ℤ) ^ 2) + F.scale * b := by linarith
    _ = F.scale * (2 * (a * F.scale) + b) := by ring

/-- A quotient is within the bit limit exactly when the exact one is half a unit below it: the limit
is even, so that the half itself is rounded up to it. -/
lemma fits_quoRaw_iff {a b : ℤ} (ha : 0 ≤ a) (hb : 0 < b) (heven : F.scale % 2 = 0)
    (hbits : F.decBits ≠ 0) :
    Fits F (quoRaw F a b) ↔ 2 * F.scale * a < (2 ^ (F.decBits + 1) - 1) * b := by
  obtain ⟨k, hk⟩ : ∃ k : ℕ, F.scale = 2 * k := ⟨F.scale / 2, by omega⟩
  have hk0 : (0 : ℤ) < k := by
    have := F.scale_pos
    omega
  have hlimit : ((2 : ℤ) ^ F.decBits - 1) % 2 = 1 := by
    obtain ⟨n, hn⟩ := Nat.exists_eq_succ_of_ne_zero hbits
    rw [hn, pow_succ]
    omega
  have hlimit0 : (0 : ℤ) ≤ 2 ^ F.decBits - 1 := by
    have : (0 : ℤ) < 2 ^ F.decBits := by positivity
    omega
  have hfits : Fits F (quoRaw F a b) ↔ quoRaw F a b ≤ 2 ^ F.decBits - 1 := by
    have hnonneg := quoRaw_nonneg (F := F) ha hb.le
    rw [Fits]
    zify
    rw [abs_of_nonneg hnonneg, Int.le_sub_one_iff]
  have hscale : ((F.scale : ℕ) : ℤ) = 2 * k := by exact_mod_cast hk
  rw [hfits, quoRaw, halfEven_le_iff F.scale_pos hlimit0, hlimit,
    Int.tdiv_eq_ediv_of_nonneg (by positivity), hscale]
  have hdiv := Int.ediv_lt_iff_lt_mul (a := a * (2 * k) ^ 2)
    (b := (2 * (2 ^ F.decBits - 1) + 1) * k) hb
  have hpow : (2 : ℤ) ^ (F.decBits + 1) - 1 = 2 * (2 ^ F.decBits - 1) + 1 := by
    rw [pow_succ]
    ring
  rw [hpow]
  generalize 2 * ((2 : ℤ) ^ F.decBits - 1) + 1 = M at *
  have hcancel : a * (2 * k) ^ 2 < M * k * b ↔ 2 * (2 * k) * a < M * b := by
    rw [show a * (2 * (k : ℤ)) ^ 2 = 2 * (2 * k) * a * k by ring,
      show M * k * b = M * b * k by ring]
    exact mul_lt_mul_iff_of_pos_right hk0
  rw [← hcancel, ← hdiv]
  generalize a * (2 * (k : ℤ)) ^ 2 / b = q
  rw [show M * (2 * (k : ℤ)) = 2 * (M * k) by ring]
  omega

/-- A quotient of a nonnegative by a positive number is positive exactly when the truncated
quotient at twice the precision passes half a unit. -/
lemma quoRaw_pos_iff {a b : ℤ} (ha : 0 ≤ a) (hb : 0 < b) :
    0 < quoRaw F a b ↔ ((F.scale / 2 : ℕ) + 1 : ℤ) * b ≤ a * F.scale ^ 2 := by
  have hnum : 0 ≤ a * (F.scale : ℤ) ^ 2 := by positivity
  rw [quoRaw, halfEven_pos_iff F.scale_pos (Int.tdiv_nonneg hnum hb.le), Int.tdiv_eq_ediv_of_nonneg hnum,
    ← Int.le_ediv_iff_mul_le hb]
  omega

lemma quoInt_eq_ok {a : Fixed F} {n : ℤ} (hn : n ≠ 0) : quoInt a n = .ok ⟨a.raw.tdiv n⟩ := by
  rw [quoInt, if_neg hn]

/-- A product without remainder is not rounded. -/
lemma mul_eq_of_eq_mul {a b : Fixed F} {q : ℤ} (h : a.raw * b.raw = q * F.scale) :
    a.mul b = checked q := by
  rw [mul, h, halfEven_mul _ F.scale_pos]

/-- The product of an integer with a decimal is exact. -/
lemma ofInt_mul (n : ℤ) (a : Fixed F) : (ofInt n).mul a = checked (n * a.raw) :=
  mul_eq_of_eq_mul (mul_right_comm n _ _)

/-- A quotient without remainder is not rounded. -/
lemma quoRaw_eq_of_eq_mul {a b q : ℤ} (hb : b ≠ 0) (h : a * F.scale = q * b) :
    quoRaw F a b = q := by
  have hnum : a * (F.scale : ℤ) ^ 2 = q * F.scale * b := by linear_combination F.scale * h
  rw [quoRaw, hnum, Int.mul_tdiv_cancel _ hb, halfEven_mul _ F.scale_pos]

/-! ### Rounding errors -/

/-- Half a unit is the error of a product. -/
lemma abs_mul_sub_le {a b c : Fixed F} (h0 : 0 ≤ a.raw * b.raw) (h : a.mul b = .ok c) :
    |c.toRat - a.toRat * b.toRat| ≤ 1 / (2 * F.scale) := by
  have hS : (0 : ℚ) < F.scale := by exact_mod_cast F.scale_pos
  obtain ⟨-, rfl⟩ := checked_eq_ok_iff.mp h
  have herror := abs_halfEven_sub_le F.scale_pos h0
  have hscaled : (⟨halfEven (a.raw * b.raw) F.scale⟩ : Fixed F).toRat - a.toRat * b.toRat
      = (halfEven (a.raw * b.raw) F.scale - ((a.raw * b.raw : ℤ) : ℚ) / F.scale) / F.scale := by
    rw [toRat, toRat, toRat]
    push_cast
    field_simp
  rw [hscaled, abs_div, abs_of_pos hS, div_le_iff₀ hS]
  calc |(halfEven (a.raw * b.raw) F.scale : ℚ) - ((a.raw * b.raw : ℤ) : ℚ) / F.scale| ≤ 1 / 2 := herror
    _ = 1 / (2 * F.scale) * F.scale := by field_simp

/-- Half a unit, and a unit at twice the precision, is the error of a quotient. -/
lemma abs_quo_sub_le {a b c : Fixed F} (ha : 0 ≤ a.raw) (hb : 0 < b.raw) (h : a.quo b = .ok c) :
    |c.toRat - a.toRat / b.toRat| ≤ (1 / 2 + 1 / F.scale) / F.scale := by
  have hS : (0 : ℚ) < F.scale := by exact_mod_cast F.scale_pos
  have hb' : (0 : ℚ) < b.raw := by exact_mod_cast hb
  obtain ⟨-, -, rfl⟩ := quo_eq_ok_iff.mp h
  have hhigh : 2 * ((quoRaw F a.raw b.raw : ℚ) * b.raw) ≤ 2 * (a.raw * F.scale) + b.raw := by
    exact_mod_cast quoRaw_mul_le ha hb
  have hlow : 2 * ((a.raw : ℚ) * F.scale ^ 2)
      < (2 * (F.scale * quoRaw F a.raw b.raw) + F.scale + 2) * b.raw := by
    exact_mod_cast lt_quoRaw_mul ha hb
  have hdiff : (⟨quoRaw F a.raw b.raw⟩ : Fixed F).toRat - a.toRat / b.toRat
      = (quoRaw F a.raw b.raw * b.raw - a.raw * F.scale) / (F.scale * b.raw) := by
    rw [toRat, toRat, toRat, div_div_div_cancel_right₀ hS.ne', div_sub_div _ _ hS.ne' hb'.ne']
    ring
  have hbound : (1 / 2 + 1 / (F.scale : ℚ)) / F.scale * (F.scale * b.raw)
      = b.raw / 2 + b.raw / F.scale := by field_simp
  rw [hdiff, abs_div, abs_of_pos (mul_pos hS hb'), div_le_iff₀ (mul_pos hS hb'), hbound, abs_le]
  constructor
  · have h' : (a.raw : ℚ) * F.scale
        ≤ (2 * (F.scale * quoRaw F a.raw b.raw) + F.scale + 2) * b.raw / (2 * F.scale) := by
      rw [le_div_iff₀ (by positivity)]
      calc (a.raw : ℚ) * F.scale * (2 * F.scale) = 2 * (a.raw * F.scale ^ 2) := by ring
        _ ≤ _ := hlow.le
    have hsplit : (2 * ((F.scale : ℚ) * quoRaw F a.raw b.raw) + F.scale + 2) * b.raw / (2 * F.scale)
        = quoRaw F a.raw b.raw * b.raw + b.raw / 2 + b.raw / F.scale := by field_simp
    linarith
  · have : 0 ≤ (b.raw : ℚ) / F.scale := by positivity
    linarith

/-- The product of a nonnegative decimal with one of the unit interval stays below it. -/
lemma exists_mul_unit {a u : Fixed F} (h0 : 0 ≤ a.raw) (hfit : Fits F a.raw) (hu0 : 0 ≤ u.raw)
    (hu1 : u.raw ≤ F.scale) : ∃ c, a.mul u = .ok c ∧ 0 ≤ c.raw ∧ c.raw ≤ a.raw := by
  have hprod : a.raw * u.raw ≤ a.raw * F.scale := mul_le_mul_of_nonneg_left hu1 h0
  have hnn : 0 ≤ halfEven (a.raw * u.raw) F.scale := halfEven_nonneg (mul_nonneg h0 hu0)
  have hle := halfEven_le_of_le_mul F.scale_pos (mul_nonneg h0 hu0) hprod
  exact ⟨_, checked_eq_ok_iff.mpr ⟨hfit.of_le hnn hle, rfl⟩, hnn, hle⟩

/-! ### Sums of computed terms -/

section Sum

variable {α : Type} {f : α → Outcome (Fixed F)}

/-- The raw value of a term, zero where it faults. -/
def termRaw (f : α → Outcome (Fixed F)) (a : α) : ℤ :=
  match f a with
  | .ok x => x.raw
  | .error _ => 0

lemma termRaw_eq {a : α} {x : Fixed F} (h : f a = .ok x) : termRaw f a = x.raw := by
  rw [termRaw, h]

/-- A sum of nonnegative terms returns exactly when every term does and the total is within
the bit limit: the partial sums only grow. -/
lemma foldlM_add_eq_ok_iff (hf : ∀ a x, f a = .ok x → 0 ≤ x.raw) {l : List α} :
    ∀ {acc s : Fixed F}, 0 ≤ acc.raw → Fits F acc.raw →
      (l.foldlM (fun s a => f a >>= s.add) acc = .ok s ↔
        (∀ a ∈ l, ∃ x, f a = .ok x) ∧ s.raw = acc.raw + (l.map (termRaw f)).sum
          ∧ Fits F s.raw) := by
  induction l with
  | nil =>
      intro acc s _ hfit
      simp only [List.foldlM_nil, pure_eq_ok, Except.ok.injEq, List.not_mem_nil, false_imp_iff,
        implies_true, List.map_nil, List.sum_nil, add_zero, true_and]
      constructor
      · rintro rfl
        exact ⟨rfl, hfit⟩
      · rintro ⟨hs, -⟩
        exact Fixed.ext hs.symm
  | cons a l ih =>
      intro acc s hacc hfit
      rw [foldlM_cons_eq_ok]
      constructor
      · rintro ⟨c, hc, hrest⟩
        obtain ⟨x, hx, hadd⟩ := bind_eq_ok.mp hc
        obtain ⟨hcfit, rfl⟩ := checked_eq_ok_iff.mp hadd
        have hx0 := hf a x hx
        obtain ⟨hall, hs, hsfit⟩ := (ih (by show 0 ≤ acc.raw + x.raw; omega) hcfit).mp hrest
        refine ⟨fun b hb => ?_, ?_, hsfit⟩
        · rcases List.mem_cons.mp hb with rfl | hb
          · exact ⟨x, hx⟩
          · exact hall b hb
        · rw [hs, List.map_cons, List.sum_cons, termRaw_eq hx]
          ring
      · rintro ⟨hall, hs, hsfit⟩
        obtain ⟨x, hx⟩ := hall a (by simp)
        have hx0 := hf a x hx
        have hrest : 0 ≤ (l.map (termRaw f)).sum := by
          refine List.sum_nonneg fun y hy => ?_
          obtain ⟨b, hb, rfl⟩ := List.mem_map.mp hy
          obtain ⟨z, hz⟩ := hall b (List.mem_cons_of_mem a hb)
          rw [termRaw_eq hz]
          exact hf b z hz
        rw [List.map_cons, List.sum_cons, termRaw_eq hx] at hs
        have hcfit : Fits F (acc.raw + x.raw) := hsfit.of_le (by omega) (by omega)
        refine ⟨⟨acc.raw + x.raw⟩, bind_eq_ok.mpr ⟨x, hx, checked_eq_ok_iff.mpr ⟨hcfit, rfl⟩⟩, ?_⟩
        refine (ih (by show 0 ≤ acc.raw + x.raw; omega) hcfit).mpr ⟨fun b hb => ?_, ?_, hsfit⟩
        · exact hall b (List.mem_cons_of_mem a hb)
        · rw [hs]
          ring

/-- The order of the terms of a sum does not matter. -/
lemma foldlM_add_perm (hf : ∀ a x, f a = .ok x → 0 ≤ x.raw) {l l' : List α} (hp : l.Perm l')
    {s : Fixed F} (h : l.foldlM (fun s a => f a >>= s.add) 0 = .ok s) :
    l'.foldlM (fun s a => f a >>= s.add) 0 = .ok s := by
  have hfit : Fits F (0 : Fixed F).raw := by show (0 : ℤ).natAbs < _; simp
  have h0 : 0 ≤ (0 : Fixed F).raw := le_rfl
  rw [foldlM_add_eq_ok_iff hf h0 hfit] at h ⊢
  refine ⟨fun a ha => h.1 a (hp.mem_iff.mpr ha), ?_, h.2.2⟩
  rw [← (hp.map (termRaw f)).sum_eq]
  exact h.2.1

/-- A sum of terms of either sign, from the first one on: every term returns, and every partial sum
is within the bit limit. -/
lemma foldlM_range_add_eq_ok_iff {f : ℕ → Outcome (Fixed F)} {n : ℕ} {s : Fixed F} :
    (List.range n).foldlM (fun s k => f k >>= s.add) 0 = .ok s ↔ (∀ k < n, ∃ x, f k = .ok x)
      ∧ (∀ m ≤ n, Fits F (∑ k ∈ Finset.range m, termRaw f k))
      ∧ s.raw = ∑ k ∈ Finset.range n, termRaw f k := by
  induction n generalizing s with
  | zero =>
      have hfit : Fits F 0 := by show (0 : ℤ).natAbs < _; simp
      rw [List.range_zero, List.foldlM_nil, pure_eq_ok, Except.ok.injEq]
      constructor
      · rintro rfl
        exact ⟨by simp, fun m hm => by simpa [Nat.le_zero.mp hm] using hfit, rfl⟩
      · rintro ⟨-, -, hs⟩
        exact Fixed.ext hs.symm
  | succ n ih =>
      have hlast : ∀ s' : Fixed F,
          List.foldlM (fun s k => f k >>= s.add) s' [n] = f n >>= s'.add := fun s' => by
        simp only [List.foldlM_cons, List.foldlM_nil, bind_pure]
      rw [List.range_succ, List.foldlM_append]
      constructor
      · intro h
        obtain ⟨s', hs', h⟩ := bind_eq_ok.mp h
        obtain ⟨hall, hfits, hsum⟩ := ih.mp hs'
        rw [hlast] at h
        obtain ⟨x, hx, hadd⟩ := bind_eq_ok.mp h
        obtain ⟨hfit, rfl⟩ := checked_eq_ok_iff.mp hadd
        have hnew : ∑ k ∈ Finset.range (n + 1), termRaw f k = s'.raw + x.raw := by
          rw [Finset.sum_range_succ, termRaw_eq hx, hsum]
        refine ⟨fun k hk => ?_, fun m hm => ?_, hnew.symm⟩
        · rcases Nat.lt_succ_iff_lt_or_eq.mp hk with hk | rfl
          · exact hall k hk
          · exact ⟨x, hx⟩
        · rcases Nat.le_succ_iff.mp hm with hm | rfl
          · exact hfits m hm
          · rw [hnew]
            exact hfit
      · rintro ⟨hall, hfits, hsum⟩
        obtain ⟨x, hx⟩ := hall n (by omega)
        have hfit := hfits (n + 1) le_rfl
        rw [Finset.sum_range_succ, termRaw_eq hx] at hfit hsum
        have hs' := ih.mpr ⟨fun k hk => hall k (by omega), fun m hm => hfits m (by omega),
          (rfl : (⟨∑ k ∈ Finset.range n, termRaw f k⟩ : Fixed F).raw = _)⟩
        rw [hs', ok_bind, hlast, hx, ok_bind]
        exact checked_eq_ok_iff.mpr ⟨hfit, Fixed.ext hsum⟩

end Sum

end Fixed
