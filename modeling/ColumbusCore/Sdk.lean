import Mathlib.Data.String.Basic
import ColumbusCore.Lib.Fixed
import ColumbusCore.Lib.Coins
import ColumbusCore.Lib.Maps

/-!
The value types of the Cosmos SDK the modules compute with, as instances of the libraries:
`sdk.Dec` (18 decimals, results of at most 315 bits, integers of at most 256), `sdk.Coins` and
`sdk.DecCoins`, and the conversions between the machine integers of Go.

Sums of coin amounts are sums of integers; the 256-bit limit of `math.Int` is kept where a
decimal is turned into an integer.
-/

namespace ColumbusCore

open Go Rounding

/-- The format of `sdk.Dec`. -/
def decFormat : Format where
  scale := 10 ^ 18
  decBits := 315
  intBits := 256
  scale_pos := by norm_num

/-- `sdk.Dec`. -/
abbrev Dec := Fixed decFormat

/-- A decimal within its bit limit is truncated to an integer within the limit of integers. -/
lemma truncateInt_eq_ok {x : Dec} (hx : Fixed.Fits decFormat x.raw) :
    x.truncateInt = .ok (x.raw.tdiv decFormat.scale) := by
  refine Fixed.checkedInt_eq_ok_iff.mpr ⟨?_, rfl⟩
  rw [Int.natAbs_tdiv, Int.natAbs_natCast]
  refine Nat.div_lt_of_lt_mul (lt_of_lt_of_le hx ?_)
  have hbits : decFormat.decBits = 59 + 256 := rfl
  rw [hbits, pow_add]
  exact Nat.mul_le_mul_right _ (by norm_num [decFormat])

/-- And so it is rounded. -/
lemma roundInt_eq_ok {x : Dec} (hx : Fixed.Fits decFormat x.raw) :
    x.roundInt = .ok (halfEven x.raw decFormat.scale) := by
  refine Fixed.checkedInt_eq_ok_iff.mpr ⟨?_, rfl⟩
  have hdiv : x.raw.natAbs / decFormat.scale < 2 ^ 256 - 1 := by
    refine Nat.div_lt_of_lt_mul (lt_of_lt_of_le hx ?_)
    have hbits : decFormat.decBits = 60 + 255 := rfl
    rw [hbits, pow_add]
    norm_num [decFormat]
  have hle := halfEven_natAbs_le x.raw decFormat.scale
  show _ < 2 ^ 256
  omega

lemma fits_zero : Fixed.Fits decFormat 0 := by show (0 : ℤ).natAbs < _; simp

lemma fits_of_le {x : ℤ} (h0 : 0 ≤ x) (h : x ≤ 2 ^ 255 * 10 ^ 18) : Fixed.Fits decFormat x := by
  have hbits : decFormat.decBits = 255 + 60 := rfl
  have hle : x.natAbs ≤ 2 ^ 255 * 10 ^ 18 := by omega
  rw [Fixed.Fits, hbits]
  calc x.natAbs ≤ 2 ^ 255 * 10 ^ 18 := hle
    _ < 2 ^ 255 * 2 ^ 60 := Nat.mul_lt_mul_of_pos_left (by norm_num) (by positivity)
    _ = 2 ^ (255 + 60) := by rw [← pow_add]

/-- The rate takes no more than `x` of `x`, rounding included: it exceeds one by no more than
half a unit of `x`. -/
def SharesWithin (rate : Dec) (x : ℤ) : Prop :=
  2 * ((rate.raw - decFormat.scale) * x) < decFormat.scale
    ∨ (2 * ((rate.raw - decFormat.scale) * x) = decFormat.scale ∧ x % 2 = 0)

instance (rate : Dec) (x : ℤ) : Decidable (SharesWithin rate x) :=
  inferInstanceAs (Decidable (_ ∨ _))

lemma halfEven_le_iff_sharesWithin {rate : Dec} {x : ℤ} (hx : 0 ≤ x) :
    halfEven (rate.raw * x) decFormat.scale ≤ x ↔ SharesWithin rate x := by
  have hexp : 2 * ((rate.raw - decFormat.scale) * x)
      = 2 * (rate.raw * x) - (2 * x + 1) * decFormat.scale + decFormat.scale := by ring
  rw [halfEven_le_iff decFormat.scale_pos hx, SharesWithin, hexp]
  omega

/-- A rate of at most one is within every coin. -/
lemma sharesWithin_of_le_one {rate : Dec} {x : ℤ} (h : rate.raw ≤ decFormat.scale)
    (hx : 0 ≤ x) : SharesWithin rate x := by
  have hle : (rate.raw - decFormat.scale) * x ≤ 0 :=
    mul_nonpos_of_nonpos_of_nonneg (by linarith) hx
  have hS : (0 : ℤ) < decFormat.scale := by exact_mod_cast decFormat.scale_pos
  left
  linarith

/-- `sdk.NewDecWithPrec(n, k)`: `n` units of the `k`-th decimal. -/
def newDecWithPrec (n : ℤ) (k : ℕ) : Dec := ⟨n * 10 ^ (18 - k)⟩

/-- `Dec.String`: the integer part and the eighteen decimals. -/
def decString (x : Dec) : String :=
  (if x.raw < 0 then "-" else "") ++ toString (x.raw.natAbs / 10 ^ 18) ++ "."
    ++ String.ofList ((toString (x.raw.natAbs % 10 ^ 18)).toList.leftpad 18 '0')

/-- A decimal that is not negative, `raw` units of the last decimal, as the nearest number `m * 2 ^ e`
with a mantissa of 53 bits: what `Dec.MustFloat64` returns. -/
def float64 (raw : ℕ) : ℕ × ℤ :=
  let quotient (e : ℤ) : ℕ × ℕ := (raw * 2 ^ (-e).toNat, 10 ^ 18 * 2 ^ e.toNat)
  let e₀ : ℤ := Nat.log2 raw - Nat.log2 (10 ^ 18) - 52
  let e := if (quotient e₀).1 / (quotient e₀).2 < 2 ^ 52 then e₀ - 1 else e₀
  (roundNat (quotient e).1 (quotient e).2, e)

/-- The verb `%f` on `Dec.MustFloat64`: the binary number, rounded to six decimals. -/
def floatString (x : Dec) : String :=
  let (m, e) := float64 x.raw.natAbs
  let n := roundNat (m * 10 ^ 6 * 2 ^ e.toNat) (2 ^ (-e).toNat)
  (if x.raw < 0 then "-" else "") ++ toString (n / 10 ^ 6) ++ "."
    ++ String.ofList ((toString (n % 10 ^ 6)).toList.leftpad 6 '0')

/-- Half of the last decimal that is printed: the binary number next to it is above it. -/
example : floatString (newDecWithPrec 1000005 7) = "0.100001" := by decide +kernel

/-- Denominations. -/
abbrev Denom := String

/-- The characters of a denomination after its first letter. -/
def isDenomChar (c : Char) : Bool :=
  c.isAlphanum || c = '/' || c = ':' || c = '.' || c = '_' || c = '-'

/-- `sdk.ValidateDenom`: a letter, followed by 2 to 127 further characters. -/
def validDenom (d : Denom) : Bool :=
  match d.toList with
  | [] => false
  | c :: l => c.isAlpha && decide (2 ≤ l.length) && decide (l.length ≤ 127) && l.all isDenomChar

/-- A hexadecimal digit. -/
def isHexDigit (c : Char) : Bool :=
  c.isDigit || (decide ('a' ≤ c) && decide (c ≤ 'f')) || (decide ('A' ≤ c) && decide (c ≤ 'F'))

/-- `sdk.Coin`. -/
abbrev Coin := Denom × ℤ

/-- `Coin.IsValid`. -/
def Coin.isValid (c : Coin) : Bool := validDenom c.1 && decide (0 ≤ c.2)

/-- `sdk.Coins`. -/
abbrev Coins := CoinSet Denom

/-- Operator and account addresses, as the byte strings they are. -/
abbrev ValAddress := String

@[inherit_doc ValAddress] abbrev AccAddress := String

/-- Two texts a parser takes for the same address. -/
def SameAddress (parse : String → Option AccAddress) (a b : String) : Prop :=
  ∃ address, parse a = some address ∧ parse b = some address

lemma SameAddress.symm {parse : String → Option AccAddress} {a b : String}
    (h : SameAddress parse a b) : SameAddress parse b a := by
  obtain ⟨address, ha, hb⟩ := h
  exact ⟨address, hb, ha⟩

/-- The text in lower case. -/
def lowerCase (s : String) : String := String.ofList (s.toList.map Char.toLower)

/-- The text in upper case. -/
def upperCase (s : String) : String := String.ofList (s.toList.map Char.toUpper)

/-- Bech32 admits two spellings: an address that is accepted is also accepted in lower and in
upper case, for the same bytes. -/
structure AcceptsBothCases (parse : String → Option AccAddress) : Prop where
  lower : ∀ a, SameAddress parse a a → SameAddress parse a (lowerCase a)
  upper : ∀ a, SameAddress parse a a → SameAddress parse a (upperCase a)

/-- A parser of the texts of a table. -/
def tableParse (table : List (String × AccAddress)) (s : String) : Option AccAddress :=
  (table.find? fun e => e.1 = s).map Prod.snd

/-- A table with both spellings of its addresses. -/
lemma acceptsBothCases_tableParse {table : List (String × AccAddress)}
    (h : ∀ e ∈ table, tableParse table e.1 = some e.2 ∧ tableParse table (lowerCase e.1) = some e.2
      ∧ tableParse table (upperCase e.1) = some e.2) : AcceptsBothCases (tableParse table) := by
  have haccepted : ∀ a, SameAddress (tableParse table) a a → ∃ e ∈ table, e.1 = a := by
    rintro a ⟨address, ha, -⟩
    obtain ⟨e, he, -⟩ := Option.map_eq_some_iff.mp ha
    exact ⟨e, List.mem_of_find?_eq_some he, by simpa using List.find?_some he⟩
  constructor
  · intro a ha
    obtain ⟨e, he, rfl⟩ := haccepted a ha
    exact ⟨e.2, (h e he).1, (h e he).2.1⟩
  · intro a ha
    obtain ⟨e, he, rfl⟩ := haccepted a ha
    exact ⟨e.2, (h e he).1, (h e he).2.2⟩

/-- An error of a check as a decorator returns it, wrapped in `sdkerrors.ErrUnauthorized`. -/
def unauthorized : Outcome Unit → Outcome Unit
  | .error (.error msg) => failed (msg ++ ": unauthorized")
  | r => r

lemma unauthorized_eq_ok {r : Outcome Unit} : unauthorized r = .ok () ↔ r = .ok () := by
  rcases r with (_ | _) | ⟨⟩ <;> simp [unauthorized, failed]

/-! ### Machine integers -/

/-- The `int64` a 64-bit word is read as. -/
def toInt64 (n : ℕ) : ℤ :=
  if n % 2 ^ 64 < 2 ^ 63 then (n % 2 ^ 64 : ℕ) else (n % 2 ^ 64 : ℕ) - 2 ^ 64

lemma toInt64_of_lt {n : ℕ} (h : n < 2 ^ 63) : toInt64 n = n := by
  rw [toInt64, Nat.mod_eq_of_lt (by omega), if_pos h]

/-- `math.Int.Int64`: an integer past 64 bits is a panic. -/
def int64 (x : ℤ) : Outcome ℤ :=
  if -2 ^ 63 ≤ x ∧ x < 2 ^ 63 then .ok x else panicked (.raised "Int64() out of bound")

lemma int64_eq_ok_iff {x y : ℤ} : int64 x = .ok y ↔ (-2 ^ 63 ≤ x ∧ x < 2 ^ 63) ∧ x = y := by
  rw [int64]
  split_ifs with h
  · rw [Except.ok.injEq, and_iff_right h]
  · exact iff_of_false panicked_ne_ok fun hx => h hx.1

/-- One round of a sum of `int64`. -/
def addInt64 (total x : ℤ) : ℤ := (total + x).bmod (2 ^ 64)

/-- A sum within the bounds of an `int64` does not wrap. -/
lemma addInt64_eq {total x : ℤ} (h0 : -2 ^ 63 ≤ total + x) (h : total + x < 2 ^ 63) :
    addInt64 total x = total + x := by
  rw [addInt64, Int.bmod_eq_of_le] <;> omega

/-- The running total, while it stays a 64-bit integer. -/
lemma foldl_addInt64 {l : List ℤ} (h : ∀ x ∈ l, 0 ≤ x) {acc : ℤ} (h0 : 0 ≤ acc)
    (hfit : acc + l.sum < 2 ^ 63) : l.foldl addInt64 acc = acc + l.sum := by
  induction l generalizing acc with
  | nil => simp
  | cons x l ih =>
      obtain ⟨hx, hl⟩ := List.forall_mem_cons.mp h
      have hrest := List.sum_nonneg hl
      rw [List.sum_cons] at hfit ⊢
      rw [List.foldl_cons, addInt64_eq (by omega) (by omega), ih hl (by omega) (by omega)]
      omega

/-- `sdk.TokensToConsensusPower`. -/
def tokensToConsensusPower (tokens powerReduction : ℤ) : Outcome ℤ :=
  if powerReduction = 0 then panicked .divisionByZero else int64 (tokens.tdiv powerReduction)

/-! ### Decimal coins -/

/-- `sdk.DecCoin`. -/
abbrev DecCoin := Denom × Dec

/-- `sdk.DecCoins`. -/
abbrev DecCoins := Amounts Denom Dec

namespace DecCoins

/-- One decimal coin added. -/
def addCoin (c : DecCoins) (e : Denom × Dec) : Outcome DecCoins := do
  let x ← (c.amountOf e.1).add e.2
  pure (c.setAmount e.1 x)

/-- `DecCoins.Add`. -/
def add (a b : DecCoins) : Outcome DecCoins := b.entries.foldlM addCoin a

/-- `sdk.NewDecCoinsFromCoins`. -/
def ofCoins (c : Coins) : DecCoins :=
  c.entries.foldl (fun a e => a.setAmount e.1 (Fixed.ofInt e.2)) ∅

/-- `sdk.NewDecCoinFromDec`: a negative amount is a panic. -/
def newDecCoin (d : Denom) (x : Dec) : Outcome (Denom × Dec) :=
  if x.raw < 0 then panicked .negativeAmount else .ok (d, x)

/-- `DecCoins.MulDec`. -/
def mulDec (c : DecCoins) (x : Dec) : Outcome DecCoins :=
  c.entries.foldlM (fun a e => do
    let y ← e.2.mul x
    pure (a.setAmount e.1 y)) ∅

/-- The integer part of `DecCoins.TruncateDecimal`. -/
def truncateDecimal (c : DecCoins) : Outcome Coins :=
  c.entries.foldlM (fun a e => do
    let y ← e.2.truncateInt
    let coin ← newCoin e.1 y
    pure (a.addCoin coin)) ∅

/-! ### The sum with coins -/

/-- Integer coins as decimal coins, at one denomination. -/
lemma amountOf_ofCoins (c : Coins) (d : Denom) :
    (ofCoins c).amountOf d = Fixed.ofInt (c.amountOf d) := by
  have hloop : c.entries.foldlM
      (fun a e => (.ok (Fixed.ofInt e.2) : Outcome Dec) >>= fun y => pure (a.setAmount e.1 y)) ∅
      = .ok (ofCoins c) := List.foldlM_pure
  obtain ⟨hzero, hne⟩ := Amounts.amountOf_foldlM_setAmount hloop d
  by_cases h : c.amountOf d = 0
  · rw [hzero h, h]
    exact Fixed.ext (zero_mul _).symm
  · exact (Except.ok.inj (hne h)).symm

/-- One round of a sum of decimal coins. -/
lemma amountOf_addCoin {a a' : DecCoins} {e : Denom × Dec} (h : addCoin a e = .ok a')
    (d : Denom) :
    (a'.amountOf d).raw = (a.amountOf d).raw + if e.1 = d then e.2.raw else 0 := by
  obtain ⟨x, hx, h⟩ := bind_eq_ok.mp h
  obtain ⟨-, rfl⟩ := Fixed.checked_eq_ok_iff.mp hx
  obtain rfl := Except.ok.inj h
  rw [Amounts.amountOf_setAmount]
  split_ifs with hd
  · rw [hd]
  · rw [add_zero]

/-- A sum of decimal coins, at one denomination. -/
lemma amountOf_add {a b c : DecCoins} (h : add a b = .ok c) (d : Denom) :
    (c.amountOf d).raw = (a.amountOf d).raw + (b.amountOf d).raw := by
  rw [← Amounts.sum_entries_ite b (fun e => e.2.raw) d rfl]
  refine foldlM_induction (fun pre (c : DecCoins) => (c.amountOf d).raw = (a.amountOf d).raw
    + (pre.map fun e : Denom × Dec => if e.1 = d then e.2.raw else 0).sum) h (by simp) ?_
  intro pre e post c c' _ hc hround
  rw [amountOf_addCoin hround, hc]
  simp [add_assoc]

/-- A sum that fits at every denomination is defined. -/
lemma exists_add {a b : DecCoins}
    (h : ∀ d, Fixed.Fits decFormat ((a.amountOf d).raw + (b.amountOf d).raw)) :
    ∃ c, add a b = .ok c := by
  cases hadd : add a b with
  | ok c => exact ⟨c, rfl⟩
  | error x =>
      -- the faulting coin is the first of its denomination
      obtain ⟨pre, e, post, c, hl, hc, he⟩ := exists_of_foldlM_error
        (fun pre (c : DecCoins) => ∀ d, (∀ e' ∈ pre, e'.1 ≠ d) → c.amountOf d = a.amountOf d)
        hadd (by simp) (by
          intro pre e post c c' _ hc hround d hd
          refine Fixed.ext ?_
          rw [amountOf_addCoin hround, if_neg (hd e (by simp)), add_zero,
            hc d fun e' he' => hd e' (List.mem_append_left _ he')])
      have hfresh : ∀ e' ∈ pre, e'.1 ≠ e.1 := fun e' he' =>
        (List.pairwise_append.mp (hl ▸ b.entries_pairwise)).2.2 e' he' e (by simp)
      obtain ⟨h1, -⟩ := Amounts.mem_entries_iff.mp
        (show (e.1, e.2) ∈ b.entries by rw [hl]; simp)
      have hfit := h e.1
      rw [h1, ← hc e.1 hfresh] at hfit
      rw [addCoin, Fixed.add, Fixed.checked_eq_ok_iff.mpr ⟨hfit, rfl⟩, ok_bind] at he
      exact absurd he (by simp)

end DecCoins

namespace DecCoin

/-- `sdk.NewDecCoinFromCoin`: an invalid coin is a panic. -/
def ofCoin (c : Coin) : Outcome DecCoin :=
  if c.isValid then .ok (c.1, Fixed.ofInt c.2) else panicked (.raised "invalid coin")

/-- `sdk.NewDecCoinFromDec`, with its check of the denomination. -/
def ofDec (d : Denom) (x : Dec) : Outcome DecCoin :=
  if validDenom d then DecCoins.newDecCoin d x else panicked (.raised ("invalid denom: " ++ d))

/-- `DecCoin.TruncateDecimal`: the integer part, and what is cut off. -/
def truncateDecimal (c : DecCoin) : Outcome (Coin × DecCoin) := do
  let truncated ← c.2.truncateInt
  let change ← c.2.sub (Fixed.ofInt truncated)
  let coin ← newCoin c.1 truncated
  let rest ← DecCoins.newDecCoin c.1 change
  pure (coin, rest)

/-- `DecCoin.Sub`: a negative amount is a panic, and so is another denom. -/
def sub (c c' : DecCoin) : Outcome DecCoin :=
  if c.1 ≠ c'.1 then panicked (.raised ("coin denom different: " ++ c.1 ++ " " ++ c'.1))
  else do
    let amount ← c.2.sub c'.2
    if amount.raw < 0 then panicked (.raised "negative decimal coin amount")
    else pure (c.1, amount)

lemma ofCoin_eq_ok_iff {c : Coin} {a : DecCoin} :
    ofCoin c = .ok a ↔ c.isValid = true ∧ a = (c.1, Fixed.ofInt c.2) := by
  rw [ofCoin]
  split_ifs with h
  · simp [h, eq_comm]
  · simp [h]

lemma ofDec_eq_ok_iff {d : Denom} {x : Dec} {a : DecCoin} :
    ofDec d x = .ok a ↔ validDenom d = true ∧ 0 ≤ x.raw ∧ a = (d, x) := by
  rw [ofDec, DecCoins.newDecCoin]
  split_ifs with h hx
  · simp [hx]
  · simp [h, not_lt.mp hx, eq_comm]
  · simp [h]

lemma sub_eq_ok_iff {c c' a : DecCoin} :
    c.sub c' = .ok a ↔ c.1 = c'.1 ∧ ∃ amount, c.2.sub c'.2 = .ok amount ∧ 0 ≤ amount.raw
      ∧ a = (c.1, amount) := by
  rw [sub]
  split_ifs with hdenom
  · simp [hdenom]
  · rw [bind_eq_ok, and_iff_right (not_not.mp hdenom)]
    refine exists_congr fun amount => and_congr_right fun _ => ?_
    split_ifs with hneg
    · simp [hneg]
    · simp [not_lt.mp hneg, eq_comm]

/-- The integer part is that of the amount, in its denomination, and not negative. -/
lemma truncateDecimal_fst {c : DecCoin} {coin : Coin} {rest : DecCoin}
    (h : c.truncateDecimal = .ok (coin, rest)) :
    coin = (c.1, c.2.raw.tdiv decFormat.scale) ∧ 0 ≤ coin.2 := by
  obtain ⟨n, hn, h⟩ := bind_eq_ok.mp h
  obtain ⟨x, -, h⟩ := bind_eq_ok.mp h
  obtain ⟨e, he, h⟩ := bind_eq_ok.mp h
  obtain ⟨r, -, h⟩ := bind_eq_ok.mp h
  obtain ⟨rfl, -⟩ := Prod.ext_iff.mp (Except.ok.inj h)
  obtain ⟨-, rfl⟩ := Fixed.checkedInt_eq_ok_iff.mp hn
  obtain ⟨h0, rfl⟩ := newCoin_eq_ok_iff.mp he
  exact ⟨rfl, h0⟩

/-- What is cut off is the rest of the amount. -/
lemma truncateDecimal_snd {c : DecCoin} {coin : Coin} {rest : DecCoin}
    (h : c.truncateDecimal = .ok (coin, rest)) :
    rest.2.raw = c.2.raw - coin.2 * decFormat.scale := by
  obtain ⟨n, hn, h⟩ := bind_eq_ok.mp h
  obtain ⟨x, hx, h⟩ := bind_eq_ok.mp h
  obtain ⟨e, he, h⟩ := bind_eq_ok.mp h
  obtain ⟨r, hr, h⟩ := bind_eq_ok.mp h
  obtain ⟨rfl, rfl⟩ := Prod.ext_iff.mp (Except.ok.inj h)
  obtain ⟨-, rfl⟩ := newCoin_eq_ok_iff.mp he
  obtain ⟨-, rfl⟩ := Fixed.checked_eq_ok_iff.mp hx
  rw [DecCoins.newDecCoin] at hr
  split_ifs at hr
  · exact absurd hr panicked_ne_ok
  · obtain rfl := Except.ok.inj hr
    rfl

/-- A decimal that is not negative has an integer part. -/
lemma exists_truncateDecimal {c : DecCoin} (h0 : 0 ≤ c.2.raw)
    (hfit : Fixed.Fits decFormat c.2.raw) :
    ∃ rest, c.truncateDecimal = .ok ((c.1, c.2.raw.tdiv decFormat.scale), rest) := by
  have hS : (0 : ℤ) < decFormat.scale := by exact_mod_cast decFormat.scale_pos
  have hpart : 0 ≤ c.2.raw.tdiv decFormat.scale := Int.tdiv_nonneg h0 hS.le
  have hle : c.2.raw.tdiv decFormat.scale * decFormat.scale ≤ c.2.raw := by
    rw [Int.tdiv_eq_ediv_of_nonneg h0]
    exact Int.ediv_mul_le _ hS.ne'
  have hchange : c.2.sub (Fixed.ofInt (c.2.raw.tdiv decFormat.scale))
      = .ok ⟨c.2.raw - c.2.raw.tdiv decFormat.scale * decFormat.scale⟩ :=
    Fixed.checked_eq_ok_iff.mpr
      ⟨hfit.of_le (sub_nonneg.mpr hle) (sub_le_self _ (mul_nonneg hpart hS.le)), rfl⟩
  rw [truncateDecimal, truncateInt_eq_ok hfit, ok_bind, hchange, ok_bind,
    newCoin_eq_ok_iff.mpr ⟨hpart, rfl⟩, ok_bind, DecCoins.newDecCoin,
    if_neg (not_lt.mpr (sub_nonneg.mpr hle)), ok_bind]
  exact ⟨_, rfl⟩

end DecCoin

end ColumbusCore
