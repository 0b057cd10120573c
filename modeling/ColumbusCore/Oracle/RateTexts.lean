import ColumbusCore.Oracle.Binding

/-!
The texts of exchange rates (`ParseExchangeRateTuples` in `types/vote.go`).

* `decCoinString`, `ratesString`: a coin as the SDK prints it, and rates joined by commas;
* `segments_ratesString`: printed rates are split where they were joined, since no printed coin
  holds a comma or white space;
* `parseDecCoin`: how the SDK reads a decimal coin, and `parseDecCoin_decCoinString`: it reads what
  it prints; `parsesNonneg_withSdkCoins`: it reads no negative rate;
* `parseExchangeRateTuples_texts` (**what is read**): which texts are accepted, what is read from
  them, and that printed rates are read back.
-/

namespace ColumbusCore.Oracle

open Go

/-! ### Printed coins -/

/-- `DecCoin.String`. -/
def decCoinString (d : Denom) (x : Dec) : String := decString x ++ d

/-- The parser of decimal coins reads the coin of a tuple back from its printing. -/
def Host.ReadsBack (H : Host) (t : ExchangeRateTuple) : Prop :=
  H.parseDecCoin (decCoinString t.denom t.exchangeRate) = some t.coin

/-- The rates as coins, joined by commas. -/
def ratesString (tuples : List ExchangeRateTuple) : String :=
  ",".intercalate (tuples.map fun t => decCoinString t.denom t.exchangeRate)

/-- The eighteen decimals of `Dec.String`. -/
def decimals (x : Dec) : List Char :=
  (Nat.toDigits 10 (x.raw.natAbs % 10 ^ 18)).leftpad 18 '0'

lemma toList_decString {x : Dec} (hx : 0 ≤ x.raw) :
    (decString x).toList = Nat.toDigits 10 (x.raw.natAbs / 10 ^ 18) ++ '.' :: decimals x := by
  rw [decString, if_neg (not_lt.mpr hx), decimals]
  simp [String.toList_append, Nat.toString_eq_repr]

lemma isDigit_of_mem_decimals {x : Dec} {c : Char} (hc : c ∈ decimals x) : c.isDigit = true := by
  rw [decimals, List.leftpad, List.mem_append] at hc
  rcases hc with hc | hc
  · rw [List.eq_of_mem_replicate hc]
    rfl
  · exact Nat.isDigit_of_mem_toDigits (by decide) (by decide) hc

lemma length_decimals (x : Dec) : (decimals x).length = 18 := by
  have hlt : x.raw.natAbs % 10 ^ 18 < 10 ^ 18 := Nat.mod_lt _ (by decide)
  have hle := (Nat.length_toDigits_le_iff (b := 10) (k := 18) (by decide) (by decide)).mpr hlt
  rw [decimals, List.length_leftpad, max_eq_left hle]

/-- An amount is printed with digits and a point. -/
lemma mem_toList_decString {x : Dec} (hx : 0 ≤ x.raw) {c : Char} (hc : c ∈ (decString x).toList) :
    c.isDigit = true ∨ c = '.' := by
  rw [toList_decString hx, List.mem_append, List.mem_cons] at hc
  rcases hc with hc | rfl | hc
  · exact .inl (Nat.isDigit_of_mem_toDigits (by decide) (by decide) hc)
  · exact .inr rfl
  · exact .inl (isDigit_of_mem_decimals hc)

/-- A valid denom starts with a letter, and has no other characters than those of denoms. -/
lemma exists_of_validDenom {d : Denom} (h : validDenom d = true) :
    ∃ c l, d.toList = c :: l ∧ c.isAlpha = true ∧ ∀ c ∈ d.toList, isDenomChar c = true := by
  rw [validDenom] at h
  cases hd : d.toList with
  | nil => simp [hd] at h
  | cons c l =>
      simp only [hd, Bool.and_eq_true, List.all_eq_true] at h
      obtain ⟨⟨⟨halpha, -⟩, -⟩, hall⟩ := h
      refine ⟨c, l, rfl, halpha, fun c' hc' => ?_⟩
      rcases List.mem_cons.mp hc' with rfl | hc'
      · simp [isDenomChar, Char.isAlphanum, halpha]
      · exact hall c' hc'

/-- The characters of a printed coin are some that a denom may have as well. -/
lemma isDenomChar_of_mem_decCoinString {d : Denom} {x : Dec} (hd : validDenom d = true)
    (hx : 0 ≤ x.raw) {c : Char} (hc : c ∈ (decCoinString d x).toList) : isDenomChar c = true := by
  rw [decCoinString, String.toList_append, List.mem_append] at hc
  rcases hc with hc | hc
  · rcases mem_toList_decString hx hc with hdigit | rfl
    · simp [isDenomChar, Char.isAlphanum, hdigit]
    · rfl
  · obtain ⟨-, -, -, -, hall⟩ := exists_of_validDenom hd
    exact hall c hc

/-- The code points of letters. -/
lemma toNat_of_isAlpha {c : Char} (h : c.isAlpha = true) :
    (65 ≤ c.toNat ∧ c.toNat ≤ 90) ∨ (97 ≤ c.toNat ∧ c.toNat ≤ 122) := by
  rcases Bool.or_eq_true_iff.mp h with h | h
  · have hupper : 'A'.val ≤ c.val ∧ c.val ≤ 'Z'.val := of_decide_eq_true h
    exact .inl ⟨UInt32.le_iff_toNat_le.mp hupper.1, UInt32.le_iff_toNat_le.mp hupper.2⟩
  · obtain ⟨hlow, hhigh⟩ := Bool.and_eq_true_iff.mp h
    exact .inr ⟨UInt32.le_iff_toNat_le.mp (of_decide_eq_true hlow),
      UInt32.le_iff_toNat_le.mp (of_decide_eq_true hhigh)⟩

lemma toNat_of_isDenomChar {c : Char} (h : isDenomChar c = true) :
    45 ≤ c.toNat ∧ c.toNat ≤ 122 := by
  simp only [isDenomChar, Bool.or_eq_true, decide_eq_true_eq] at h
  rcases h with ((((h | rfl) | rfl) | rfl) | rfl) | rfl
  · rcases Bool.or_eq_true_iff.mp h with h | h
    · have := toNat_of_isAlpha h
      omega
    · obtain ⟨hlow, hhigh⟩ : 48 ≤ c.toNat ∧ c.toNat ≤ 57 := Char.isDigit_iff_toNat.mp h
      omega
  all_goals decide

lemma isSpace_of_isDenomChar {c : Char} (h : isDenomChar c = true) : isSpace c = false := by
  obtain ⟨hlow, hhigh⟩ := toNat_of_isDenomChar h
  simp only [isSpace, Bool.or_eq_false_iff, Bool.and_eq_false_iff, decide_eq_false_iff_not,
    beq_eq_false_iff_ne]
  omega

lemma ne_comma_of_isDenomChar {c : Char} (h : isDenomChar c = true) : c ≠ ',' := by
  rintro rfl
  exact absurd h (by decide)

/-! ### Splitting what was joined -/

lemma dropWhile_eq_self {α : Type} {p : α → Bool} {l : List α} (h : ∀ c ∈ l, p c = false) :
    l.dropWhile p = l := by
  cases l with
  | nil => rfl
  | cons c l => simp [h c List.mem_cons_self]

lemma trimSpace_eq_self {s : List Char} (h : ∀ c ∈ s, isSpace c = false) : trimSpace s = s := by
  have hreverse : ∀ c ∈ s.reverse, isSpace c = false := fun c hc => h c (List.mem_reverse.mp hc)
  rw [trimSpace, dropWhile_eq_self h, dropWhile_eq_self hreverse, List.reverse_reverse]

section Printed

variable {tuples : List ExchangeRateTuple}
  (hdenoms : ∀ t ∈ tuples, validDenom t.denom = true)
  (hrates : ∀ t ∈ tuples, 0 ≤ t.exchangeRate.raw)

include hdenoms hrates

/-- Printed rates split into the printed coins. -/
lemma splitOn_ratesString (hne : tuples ≠ []) :
    (ratesString tuples).toList.splitOn ','
      = tuples.map fun t => (decCoinString t.denom t.exchangeRate).toList := by
  rw [ratesString, String.toList_intercalate, List.map_map]
  refine List.splitOn_intercalate ',' (fun text htext hcomma => ?_) (by simpa using hne)
  obtain ⟨t, ht, rfl⟩ := List.mem_map.mp htext
  exact ne_comma_of_isDenomChar
    (isDenomChar_of_mem_decCoinString (hdenoms t ht) (hrates t ht) hcomma) rfl

/-- Printed rates have no white space. -/
lemma trimSpace_ratesString (hne : tuples ≠ []) :
    trimSpace (ratesString tuples).toList = (ratesString tuples).toList := by
  refine trimSpace_eq_self fun c hc => ?_
  rcases mem_or_mem_splitOn (x := ',') hc with rfl | ⟨text, htext, hc⟩
  · rfl
  · rw [splitOn_ratesString hdenoms hrates hne] at htext
    obtain ⟨t, ht, rfl⟩ := List.mem_map.mp htext
    exact isSpace_of_isDenomChar
      (isDenomChar_of_mem_decCoinString (hdenoms t ht) (hrates t ht) hc)

lemma segments_ratesString (hne : tuples ≠ []) :
    segments (ratesString tuples) = tuples.map fun t => decCoinString t.denom t.exchangeRate := by
  rw [segments, trimSpace_ratesString hdenoms hrates hne, splitOn_ratesString hdenoms hrates hne,
    List.map_map]
  simp [Function.comp_def]

/-- There is a point in every amount that is printed, so that printed rates are not empty. -/
lemma ratesString_ne_nil (hne : tuples ≠ []) : (ratesString tuples).toList ≠ [] := by
  intro hnil
  obtain ⟨t, ht⟩ := List.exists_mem_of_ne_nil tuples hne
  have hmem : (decCoinString t.denom t.exchangeRate).toList
      ∈ (ratesString tuples).toList.splitOn ',' := by
    rw [splitOn_ratesString hdenoms hrates hne]
    exact List.mem_map_of_mem ht
  rw [hnil, List.splitOn_nil, List.mem_singleton, decCoinString, String.toList_append,
    toList_decString (hrates t ht)] at hmem
  simp at hmem

/-- Rates that are printed are read back where each of their coins is. -/
lemma parseExchangeRateTuples_ratesString {H : Host}
    (hnodup : (tuples.map ExchangeRateTuple.denom).Nodup)
    (hreads : ∀ t ∈ tuples, H.ReadsBack t) :
    parseExchangeRateTuples H (ratesString tuples) = .ok tuples := by
  rw [parseExchangeRateTuples_eq_ok_iff]
  by_cases hne : tuples = []
  · subst hne
    exact .inl ⟨by decide, rfl⟩
  · refine .inr ⟨?_, ?_, hnodup⟩
    · rw [trimSpace_ratesString hdenoms hrates hne]
      exact ratesString_ne_nil hdenoms hrates hne
    · rw [segments_ratesString hdenoms hrates hne, List.map_map]
      exact List.map_congr_left hreads

end Printed

/-! ### The parser of the SDK -/

/-- The digits of `NewDecFromStr`: at most eighteen decimals, filled up with zeros, and a number
of at most 315 bits. -/
def decOfDigits (whole decimals : List Char) : Option Dec :=
  let raw := Nat.ofDigitChars 10 (whole ++ decimals ++ List.replicate (18 - decimals.length) '0') 0
  if decimals.length ≤ 18 ∧ Fixed.Fits decFormat raw then some ⟨raw⟩ else none

/-- `sdk.NewDecFromStr`, on an amount of digits and points. -/
def newDecFromStr (amount : List Char) : Option Dec :=
  match amount.splitOn '.' with
  | [whole] => if whole = [] then none else decOfDigits whole []
  | [whole, decimals] => if whole = [] ∨ decimals = [] then none else decOfDigits whole decimals
  | _ => none

/-- The characters of an amount. -/
def isAmountChar (c : Char) : Bool := c.isDigit || c = '.'

/-- `[[:space:]]` of the regular expressions. -/
def isRegexpSpace (c : Char) : Bool :=
  (decide (0x09 ≤ c.toNat) && decide (c.toNat ≤ 0x0D)) || c = ' '

/-- `sdk.ParseDecCoin`. A denom starts with a letter, so the amount that its expression matches is
all there is of digits and points at the beginning. -/
def parseDecCoin (coinStr : String) : Option (Denom × Dec) :=
  let s := trimSpace coinStr.toList
  let denom := String.ofList ((s.dropWhile isAmountChar).dropWhile isRegexpSpace)
  if validDenom denom then (newDecFromStr (s.takeWhile isAmountChar)).map fun x => (denom, x)
  else none

lemma isSpace_of_isRegexpSpace {c : Char} (h : isRegexpSpace c = true) : isSpace c = true := by
  rw [isRegexpSpace, Bool.or_eq_true, decide_eq_true_eq] at h
  rcases h with h | rfl
  · simp [isSpace, h]
  · rfl

/-- A letter belongs neither to an amount nor to the space behind it. -/
lemma ends_amount_of_isAlpha {c : Char} (h : c.isAlpha = true) :
    isAmountChar c = false ∧ isRegexpSpace c = false := by
  have hspace : isSpace c = false :=
    isSpace_of_isDenomChar (by simp [isDenomChar, Char.isAlphanum, h])
  have hcode := toNat_of_isAlpha h
  refine ⟨Bool.eq_false_iff.mpr fun hc => ?_, Bool.eq_false_iff.mpr fun hc => ?_⟩
  · rw [isAmountChar, Bool.or_eq_true, decide_eq_true_eq] at hc
    rcases hc with hc | rfl
    · obtain ⟨-, hhigh⟩ : 48 ≤ c.toNat ∧ c.toNat ≤ 57 := Char.isDigit_iff_toNat.mp hc
      omega
    · exact absurd h (by decide)
  · rw [isSpace_of_isRegexpSpace hc] at hspace
    exact absurd hspace (by decide)

lemma parseDecCoin_eq_some {s : String} {d : Denom} {x : Dec}
    (h : parseDecCoin s = some (d, x)) :
    d.toList = ((trimSpace s.toList).dropWhile isAmountChar).dropWhile isRegexpSpace
      ∧ newDecFromStr ((trimSpace s.toList).takeWhile isAmountChar) = some x := by
  simp only [parseDecCoin] at h
  split_ifs at h
  obtain ⟨y, hy, hcoin⟩ := Option.map_eq_some_iff.mp h
  obtain ⟨rfl, rfl⟩ := Prod.mk.inj hcoin
  exact ⟨String.toList_ofList, hy⟩

lemma nonneg_of_decOfDigits {whole decimals : List Char} {x : Dec}
    (h : decOfDigits whole decimals = some x) : 0 ≤ x.raw := by
  simp only [decOfDigits] at h
  split_ifs at h
  obtain rfl := Option.some.inj h
  exact Int.natCast_nonneg _

lemma nonneg_of_newDecFromStr {amount : List Char} {x : Dec} (h : newDecFromStr amount = some x) :
    0 ≤ x.raw := by
  rw [newDecFromStr] at h
  split at h
  · split_ifs at h
    exact nonneg_of_decOfDigits h
  · split_ifs at h
    exact nonneg_of_decOfDigits h
  · exact absurd h (by simp)

/-- The number is read back from its digits. -/
lemma decOfDigits_toDigits {x : Dec} (hx : 0 ≤ x.raw) (hfits : Fixed.Fits decFormat x.raw) :
    decOfDigits (Nat.toDigits 10 (x.raw.natAbs / 10 ^ 18)) (decimals x) = some x := by
  have hdecimals : Nat.ofDigitChars 10 (decimals x) 0 = x.raw.natAbs % 10 ^ 18 := by
    rw [decimals, List.leftpad, Nat.ofDigitChars_append, Nat.ofDigitChars_replicate_zero, mul_zero,
      Nat.ofDigitChars_ten_toDigits]
  have hvalue : Nat.ofDigitChars 10
      (Nat.toDigits 10 (x.raw.natAbs / 10 ^ 18) ++ decimals x) 0 = x.raw.natAbs := by
    rw [Nat.ofDigitChars_append, Nat.ofDigitChars_ten_toDigits,
      Nat.ofDigitChars_eq_ofDigitChars_zero, hdecimals, length_decimals]
    exact Nat.div_add_mod _ _
  simp only [decOfDigits, length_decimals, Nat.sub_self, List.replicate_zero, List.append_nil,
    hvalue, Int.natAbs_of_nonneg hx, le_refl, true_and, if_pos hfits]

lemma newDecFromStr_decString {x : Dec} (hx : 0 ≤ x.raw) (hfits : Fixed.Fits decFormat x.raw) :
    newDecFromStr (decString x).toList = some x := by
  have hsplit : (decString x).toList.splitOn '.'
      = [Nat.toDigits 10 (x.raw.natAbs / 10 ^ 18), decimals x] := by
    have hjoin : (decString x).toList
        = ['.'].intercalate [Nat.toDigits 10 (x.raw.natAbs / 10 ^ 18), decimals x] := by
      rw [toList_decString hx]
      simp [List.intercalate]
    rw [hjoin]
    refine List.splitOn_intercalate '.' (fun part hpart hpoint => ?_) (by simp)
    have hdigit : ('.').isDigit = true := by
      rcases List.mem_pair.mp hpart with rfl | rfl
      · exact Nat.isDigit_of_mem_toDigits (by decide) (by decide) hpoint
      · exact isDigit_of_mem_decimals hpoint
    exact absurd hdigit (by decide)
  have hne : decimals x ≠ [] := List.ne_nil_of_length_pos (by rw [length_decimals]; decide)
  rw [newDecFromStr, hsplit]
  simp only [Nat.toDigits_ne_nil, hne, or_self, if_false]
  exact decOfDigits_toDigits hx hfits

/-- **The round trip of a coin.** The SDK reads every decimal coin that it prints. -/
theorem parseDecCoin_decCoinString {d : Denom} {x : Dec} (hd : validDenom d = true)
    (hx : 0 ≤ x.raw) (hfits : Fixed.Fits decFormat x.raw) :
    parseDecCoin (decCoinString d x) = some (d, x) := by
  have htrim : trimSpace (decCoinString d x).toList = (decString x).toList ++ d.toList := by
    rw [← String.toList_append, ← decCoinString]
    exact trimSpace_eq_self fun c hc =>
      isSpace_of_isDenomChar (isDenomChar_of_mem_decCoinString hd hx hc)
  have hamount : ∀ c ∈ (decString x).toList, isAmountChar c = true := by
    intro c hc
    simpa [isAmountChar] using mem_toList_decString hx hc
  -- the first letter of the denom ends the amount, and no space stands before it
  obtain ⟨c, l, hcons, halpha, -⟩ := exists_of_validDenom hd
  have hletter : isAmountChar c = false ∧ isRegexpSpace c = false := ends_amount_of_isAlpha halpha
  have htake : d.toList.takeWhile isAmountChar = [] := by simp [hcons, hletter]
  have hdrop : (d.toList.dropWhile isAmountChar).dropWhile isRegexpSpace = d.toList := by
    simp [hcons, hletter]
  simp only [parseDecCoin, htrim, List.takeWhile_append_of_pos hamount,
    List.dropWhile_append_of_pos hamount, htake, hdrop, List.append_nil, String.ofList_toList,
    hd, if_true, newDecFromStr_decString hx hfits, Option.map_some]

/-- A host that reads coins as the SDK does. -/
def Host.withSdkCoins (H : Host) : Host := { H with parseDecCoin := Oracle.parseDecCoin }

lemma withSdkCoins_parseDecCoin (H : Host) (s : String) :
    H.withSdkCoins.parseDecCoin s = parseDecCoin s := by
  simp only [Host.withSdkCoins]

lemma parsesNonneg_withSdkCoins (H : Host) : H.withSdkCoins.ParsesNonneg := by
  intro s d x h
  rw [withSdkCoins_parseDecCoin] at h
  exact nonneg_of_newDecFromStr (parseDecCoin_eq_some h).2

lemma readsBack_withSdkCoins (H : Host) {t : ExchangeRateTuple} (hd : validDenom t.denom = true)
    (hx : 0 ≤ t.exchangeRate.raw) (hfits : Fixed.Fits decFormat t.exchangeRate.raw) :
    H.withSdkCoins.ReadsBack t := by
  rw [Host.ReadsBack, withSdkCoins_parseDecCoin]
  exact parseDecCoin_decCoinString hd hx hfits

/-! ### What is read -/

lemma succeeds_iff {H : Host} (str : String) :
    (∃ tuples, parseExchangeRateTuples H str = .ok tuples) ↔
      trimSpace str.toList = [] ∨ ∃ coins : List (Denom × Dec),
        (segments str).map H.parseDecCoin = coins.map some ∧ (coins.map Prod.fst).Nodup := by
  constructor
  · rintro ⟨tuples, h⟩
    rcases parseExchangeRateTuples_eq_ok_iff.mp h with ⟨hempty, -⟩ | ⟨-, hread, hnodup⟩
    · exact .inl hempty
    · refine .inr ⟨tuples.map ExchangeRateTuple.coin, ?_, ?_⟩
      · rw [hread, List.map_map]
        rfl
      · rw [List.map_map]
        exact hnodup
  · intro h
    by_cases hempty : trimSpace str.toList = []
    · exact ⟨[], parseExchangeRateTuples_eq_ok_iff.mpr (.inl ⟨hempty, rfl⟩)⟩
    · obtain ⟨coins, hread, hnodup⟩ := h.resolve_left hempty
      refine ⟨coins.map fun coin => ⟨coin.1, coin.2⟩,
        parseExchangeRateTuples_eq_ok_iff.mpr (.inr ⟨hempty, ?_, ?_⟩)⟩
      · rw [hread, List.map_map]
        rfl
      · rw [List.map_map]
        exact hnodup

/-- **The texts of rates.** A text is read exactly when it is blank or each of its segments is the
text of a coin, of distinct denoms. What is read are the coins of the segments in their order, none
of a negative rate; and rates for distinct valid denoms are read back from their printing, where
the parser of decimal coins reads back what is printed. -/
theorem parseExchangeRateTuples_texts {H : Host} (hH : H.ParsesNonneg) :
    (∀ str, (∃ tuples, parseExchangeRateTuples H str = .ok tuples) ↔
      trimSpace str.toList = [] ∨ ∃ coins : List (Denom × Dec),
        (segments str).map H.parseDecCoin = coins.map some ∧ (coins.map Prod.fst).Nodup)
    ∧ (∀ str tuples, parseExchangeRateTuples H str = .ok tuples →
      (trimSpace str.toList = [] → tuples = [])
      ∧ (trimSpace str.toList ≠ [] →
        (segments str).map H.parseDecCoin = tuples.map fun t => some (t.denom, t.exchangeRate))
      ∧ ∀ t ∈ tuples, 0 ≤ t.exchangeRate.raw)
    ∧ ∀ tuples : List ExchangeRateTuple, (tuples.map ExchangeRateTuple.denom).Nodup →
      (∀ t ∈ tuples, validDenom t.denom = true) → (∀ t ∈ tuples, 0 ≤ t.exchangeRate.raw) →
      (∀ t ∈ tuples, H.ReadsBack t) →
      parseExchangeRateTuples H (ratesString tuples) = .ok tuples := by
  refine ⟨succeeds_iff, fun str tuples h => ⟨fun hempty => ?_, fun hne => ?_, fun t ht => ?_⟩,
    fun tuples hnodup hdenoms hrates hreads =>
      parseExchangeRateTuples_ratesString hdenoms hrates hnodup hreads⟩
  · rcases parseExchangeRateTuples_eq_ok_iff.mp h with ⟨-, hnil⟩ | ⟨hne, -⟩
    · exact hnil
    · exact absurd hempty hne
  · rcases parseExchangeRateTuples_eq_ok_iff.mp h with ⟨hempty, -⟩ | ⟨-, hread, -⟩
    · exact absurd hempty hne
    · exact hread
  · obtain ⟨s, hs⟩ := (parseExchangeRateTuples_eq_ok h).2 t ht
    exact hH s _ _ hs

/-- Two rates. -/
def twoRates : List ExchangeRateTuple := [⟨"uusd", ⟨15 * 10 ^ 17⟩⟩, ⟨"ukrw", ⟨1000 * 10 ^ 18⟩⟩]

/-- They are printed, and read back as the SDK reads coins. -/
theorem twoRates_texts :
    (tableHost ⟨twoAccounts, [], []⟩).withSdkCoins.ParsesNonneg
    ∧ ratesString twoRates = "1.500000000000000000uusd,1000.000000000000000000ukrw"
    ∧ parseExchangeRateTuples (tableHost ⟨twoAccounts, [], []⟩).withSdkCoins
        (ratesString twoRates) = .ok twoRates := by
  have hvalid : ∀ t ∈ twoRates, validDenom t.denom = true := by decide +kernel
  have hnonneg : ∀ t ∈ twoRates, 0 ≤ t.exchangeRate.raw := by decide +kernel
  have hfits : ∀ t ∈ twoRates, Fixed.Fits decFormat t.exchangeRate.raw := by decide +kernel
  have hH := parsesNonneg_withSdkCoins (tableHost ⟨twoAccounts, [], []⟩)
  refine ⟨hH, by decide +kernel, ?_⟩
  exact (parseExchangeRateTuples_texts hH).2.2 twoRates (by decide +kernel) hvalid hnonneg
    fun t ht => readsBack_withSdkCoins _ (hvalid t ht) (hnonneg t ht) (hfits t ht)

end ColumbusCore.Oracle
