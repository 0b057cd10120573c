import ColumbusCore.Ante.Fee

/-!
The priority of a transaction (`getTxPriority` of `custom/auth/ante/fee.go`).

The loop over the fee keeps the smallest price per gas so far, and takes zero for "none yet". Zero
is also the price of a coin that pays less than one unit per gas, so that the loop forgets what it
has seen at every such coin.

* `gasPrice`: the price of a coin, truncated and capped;
* `slicePriority`: the loop over the coins of a fee in any order;
* `slicePriority_smallest_iff`: the fees whose priority is their smallest price;
* `smallestPriority_iff`: **the priority is the smallest price of every fee, in any order, exactly
  where no coin of the fees has a price of zero, or none has a positive one**.
-/

namespace ColumbusCore.Ante

open Go

/-! ### Prices -/

/-- The price of a coin per gas, truncated; the largest `int64` where it is none. -/
def gasPrice (gas : ℤ) (coin : Coin) : ℤ :=
  if -2 ^ 63 ≤ coin.2.tdiv gas ∧ coin.2.tdiv gas < 2 ^ 63 then coin.2.tdiv gas else 2 ^ 63 - 1

section Price

variable {gas : ℤ} {coin : Coin}

/-- The price of an amount that is not negative is capped at the largest `int64`. -/
lemma gasPrice_of_nonneg (hgas : 0 < gas) (h : 0 ≤ coin.2) :
    gasPrice gas coin = min (coin.2 / gas) (2 ^ 63 - 1) := by
  have hprice : 0 ≤ coin.2 / gas := Int.ediv_nonneg h hgas.le
  rw [gasPrice, Int.tdiv_eq_ediv_of_nonneg h]
  split_ifs with hfit
  · exact (min_eq_left (by omega)).symm
  · exact (min_eq_right (by omega)).symm

/-- A price is zero when the amount is less than the gas. -/
lemma gasPrice_eq_zero_iff (hgas : 0 < gas) : gasPrice gas coin = 0 ↔ |coin.2| < gas := by
  have hzero : coin.2.tdiv gas = 0 ↔ |coin.2| < gas := by
    have habs : (coin.2.tdiv gas).natAbs = coin.2.natAbs / gas.natAbs := Int.natAbs_tdiv _ _
    rw [← Int.natAbs_eq_zero, habs, Nat.div_eq_zero_iff, Int.abs_eq_natAbs]
    omega
  rw [← hzero, gasPrice]
  split_ifs with hfit
  · rfl
  · refine iff_of_false (by norm_num) fun h => hfit ?_
    rw [h]
    norm_num

/-- A price is not positive when the amount is less than the gas, and not far below zero. -/
lemma gasPrice_nonpos_iff (hgas : 0 < gas) :
    gasPrice gas coin ≤ 0 ↔ coin.2 < gas ∧ -(2 ^ 63 + 1) * gas < coin.2 := by
  rcases le_or_gt 0 coin.2 with h | h
  · have hprice : coin.2 / gas ≤ 0 ↔ coin.2 < gas := by
      rw [← Int.lt_add_one_iff, zero_add, Int.ediv_lt_iff_lt_mul hgas, one_mul]
    rw [gasPrice_of_nonneg hgas h, ← hprice, min_le_iff]
    have hfar : -(2 ^ 63 + 1) * gas < coin.2 := by linarith
    exact ⟨fun h => ⟨h.resolve_right (by norm_num), hfar⟩, fun h => .inl h.1⟩
  · -- the price of a negative amount, and the one of its absolute value
    have hneg : coin.2.tdiv gas = -(-coin.2 / gas) := by
      rw [← Int.tdiv_eq_ediv_of_nonneg (by omega), Int.neg_tdiv, neg_neg]
    have hquot : 0 ≤ -coin.2 / gas := Int.ediv_nonneg (by omega) hgas.le
    have hfar : -coin.2 / gas < 2 ^ 63 + 1 ↔ -(2 ^ 63 + 1) * gas < coin.2 := by
      rw [Int.ediv_lt_iff_lt_mul hgas]
      constructor <;> intro h <;> linarith
    rw [← hfar, and_iff_right (h.trans hgas), gasPrice, hneg]
    split_ifs with hfit <;> omega

end Price

/-! ### The loop -/

/-- The smaller price, where zero stands for none. -/
def takeSmaller (priority p : ℤ) : ℤ := if priority = 0 ∨ p < priority then p else priority

/-- `getTxPriority` of the coins in the order they have in the slice. -/
def slicePriority (fee : List Coin) (gas : ℤ) : Outcome ℤ := fee.foldlM (priorityRound gas) 0

lemma getTxPriority_eq_slicePriority (fee : Coins) (gas : ℤ) :
    getTxPriority fee gas = slicePriority fee.entries gas := rfl

/-- The loop goes through the prices. -/
lemma slicePriority_eq {gas : ℤ} (hgas : 0 < gas) (fee : List Coin) :
    slicePriority fee gas = .ok ((fee.map (gasPrice gas)).foldl takeSmaller 0) := by
  rw [slicePriority]
  generalize (0 : ℤ) = priority
  induction fee generalizing priority with
  | nil => rfl
  | cons coin fee ih =>
      have hround : priorityRound gas priority coin
          = .ok (takeSmaller priority (gasPrice gas coin)) := if_neg hgas.ne'
      rw [List.foldlM_cons, hround, ok_bind, ih, List.map_cons, List.foldl_cons]

/-- The smallest value of a list. -/
def IsSmallest (p : ℤ) (l : List ℤ) : Prop := p ∈ l ∧ ∀ q ∈ l, p ≤ q

lemma IsSmallest.eq {p q : ℤ} {l : List ℤ} (hp : IsSmallest p l) (hq : IsSmallest q l) : p = q :=
  le_antisymm (hp.2 q hq.1) (hq.2 p hp.1)

lemma isSmallest_foldl_min (p : ℤ) (l : List ℤ) : IsSmallest (l.foldl min p) (p :: l) := by
  induction l generalizing p with
  | nil => exact ⟨List.mem_cons_self, by simp⟩
  | cons q l ih =>
      obtain ⟨hmem, hle⟩ := ih (min p q)
      have hmin := hle (min p q) List.mem_cons_self
      refine ⟨?_, fun r hr => ?_⟩
      · rcases List.mem_cons.mp hmem with heq | hmem
        · rw [List.foldl_cons, heq]
          rcases min_choice p q with h | h <;> simp [h]
        · exact List.mem_cons_of_mem _ (List.mem_cons_of_mem _ hmem)
      · rcases List.mem_cons.mp hr with rfl | hr
        · exact hmin.trans (min_le_left _ _)
        · rcases List.mem_cons.mp hr with rfl | hr
          · exact hmin.trans (min_le_right _ _)
          · exact hle r (List.mem_cons_of_mem _ hr)

lemma takeSmaller_eq_min {priority p : ℤ} (h : priority ≠ 0) :
    takeSmaller priority p = min priority p := by
  rw [takeSmaller]
  split_ifs with hcond <;> omega

/-- While the loop does not come to zero it keeps the smaller price. -/
lemma foldl_takeSmaller_eq_min {priority : ℤ} {l : List ℤ}
    (h : (priority ≠ 0 ∧ 0 ∉ l) ∨ priority < 0) :
    l.foldl takeSmaller priority = l.foldl min priority := by
  induction l generalizing priority with
  | nil => rfl
  | cons p l ih =>
      rw [List.mem_cons, not_or] at h
      rw [List.foldl_cons, List.foldl_cons, takeSmaller_eq_min (by omega)]
      refine ih ?_
      rcases h with ⟨h0, hp, hl⟩ | h
      · exact .inl ⟨by omega, hl⟩
      · exact .inr (by omega)

lemma isSmallest_foldl_takeSmaller {p : ℤ} {l : List ℤ} (h : (p ≠ 0 ∧ 0 ∉ l) ∨ p < 0) :
    IsSmallest (l.foldl takeSmaller p) (p :: l) := by
  rw [foldl_takeSmaller_eq_min h]
  exact isSmallest_foldl_min p l

/-- Without a price of zero the loop ends with the smallest price. -/
lemma isSmallest_of_zero_notMem {l : List ℤ} (hne : l ≠ []) (h : 0 ∉ l) :
    IsSmallest (l.foldl takeSmaller 0) l := by
  cases l with
  | nil => exact absurd rfl hne
  | cons p l =>
      have hstart : takeSmaller 0 p = p := if_pos (.inl rfl)
      rw [List.mem_cons, not_or] at h
      rw [List.foldl_cons, hstart]
      exact isSmallest_foldl_takeSmaller (.inl ⟨fun heq => h.1 heq.symm, h.2⟩)

/-- A negative price is not forgotten. -/
lemma isSmallest_of_neg {priority : ℤ} (h0 : 0 ≤ priority) {l : List ℤ} (h : ∃ p ∈ l, p < 0) :
    IsSmallest (l.foldl takeSmaller priority) l := by
  induction l generalizing priority with
  | nil => simp at h
  | cons p l ih =>
      rw [List.foldl_cons]
      rcases lt_or_ge p 0 with hp | hp
      · have htake : takeSmaller priority p = p := if_pos (by omega)
        rw [htake]
        exact isSmallest_foldl_takeSmaller (.inr hp)
      · have hround : 0 ≤ takeSmaller priority p := by
          rw [takeSmaller]
          split_ifs <;> omega
        obtain ⟨q, hq, hneg⟩ := h
        have hmem : q ∈ l := (List.mem_cons.mp hq).resolve_left (by omega)
        obtain ⟨hsmallest, hle⟩ := ih hround ⟨q, hmem, hneg⟩
        refine ⟨List.mem_cons_of_mem _ hsmallest, List.forall_mem_cons.mpr ⟨?_, hle⟩⟩
        have := hle q hmem
        omega

lemma foldl_takeSmaller_nonneg {priority : ℤ} (h0 : 0 ≤ priority) {l : List ℤ}
    (h : ∀ p ∈ l, 0 ≤ p) : 0 ≤ l.foldl takeSmaller priority := by
  induction l generalizing priority with
  | nil => exact h0
  | cons p l ih =>
      obtain ⟨hp, hl⟩ := List.forall_mem_cons.mp h
      refine ih ?_ hl
      rw [takeSmaller]
      split_ifs <;> assumption

/-- The loop ends with the smallest price exactly when a price is negative, none is zero, or the
last one is. -/
lemma isSmallest_foldl_takeSmaller_iff {l : List ℤ} (hne : l ≠ []) :
    IsSmallest (l.foldl takeSmaller 0) l ↔ (∃ p ∈ l, p < 0) ∨ 0 ∉ l ∨ l.getLast hne = 0 := by
  by_cases hneg : ∃ p ∈ l, p < 0
  · exact iff_of_true (isSmallest_of_neg le_rfl hneg) (.inl hneg)
  by_cases hzero : 0 ∈ l
  · -- what counts is the last price: the loop comes to it with a price that is not negative
    have hnonneg : ∀ p ∈ l, 0 ≤ p := fun p hp => not_lt.mp fun hlt => hneg ⟨p, hp, hlt⟩
    have hlast : 0 ≤ l.getLast hne := hnonneg _ (List.getLast_mem hne)
    have hbefore : 0 ≤ l.dropLast.foldl takeSmaller 0 :=
      foldl_takeSmaller_nonneg le_rfl fun p hp => hnonneg p (List.mem_of_mem_dropLast hp)
    have hrun : l.foldl takeSmaller 0
        = takeSmaller (l.dropLast.foldl takeSmaller 0) (l.getLast hne) := by
      conv_lhs => rw [← List.dropLast_append_getLast hne]
      rw [List.foldl_append]
      rfl
    have hiff : l.foldl takeSmaller 0 = 0 ↔ l.getLast hne = 0 := by
      rw [hrun, takeSmaller]
      split_ifs <;> omega
    simp only [hneg, hzero, not_true_eq_false, false_or]
    rw [← hiff]
    constructor
    · exact fun h => h.eq ⟨hzero, hnonneg⟩
    · intro h
      rw [h]
      exact ⟨hzero, hnonneg⟩
  · exact iff_of_true (isSmallest_of_zero_notMem hne hzero) (.inr (.inl hzero))

/-! ### The priority of a fee -/

/-- **The priority of a fee** is the smallest price of its coins exactly when one of them has a
negative price, none has a price of zero, or the last one has. -/
theorem slicePriority_smallest_iff {gas : ℤ} (hgas : 0 < gas) {fee : List Coin} (hne : fee ≠ []) :
    (∃ p, slicePriority fee gas = .ok p ∧ IsSmallest p (fee.map (gasPrice gas)))
      ↔ (∃ coin ∈ fee, gasPrice gas coin < 0) ∨ (∀ coin ∈ fee, gasPrice gas coin ≠ 0)
        ∨ gasPrice gas (fee.getLast hne) = 0 := by
  have hprices : fee.map (gasPrice gas) ≠ [] := by simpa using hne
  have hiff := isSmallest_foldl_takeSmaller_iff hprices
  rw [List.getLast_map] at hiff
  rw [slicePriority_eq hgas]
  simp only [Except.ok.injEq, exists_eq_left', hiff]
  simp

/-- The priority is a smallest price, for the fees whose coins are among some coins: it is the
smallest price of the fee, it depends neither on the order nor on the number of the coins, and a
further coin does not raise it, wherever it is put. -/
structure SmallestPriority (gas : ℤ) (coins : Set Coin) : Prop where
  smallest : ∀ fee : List Coin, fee ≠ [] → (∀ coin ∈ fee, coin ∈ coins) →
    ∃ p, slicePriority fee gas = .ok p ∧ IsSmallest p (fee.map (gasPrice gas))
  order : ∀ fee fee' : List Coin, (∀ coin ∈ fee, coin ∈ coins) →
    (∀ coin, coin ∈ fee ↔ coin ∈ fee') → slicePriority fee gas = slicePriority fee' gas
  further : ∀ (fee fee' : List Coin) (coin : Coin), fee ≠ [] → (∀ coin ∈ fee, coin ∈ coins) →
    coin ∈ coins → (coin :: fee).Perm fee' →
    ∀ p p', slicePriority fee gas = .ok p → slicePriority fee' gas = .ok p' → p' ≤ p

/-- A priority that is always the smallest price depends on the set of the coins, and falls as this
grows. -/
lemma smallestPriority_of_smallest {gas : ℤ} {coins : Set Coin}
    (h : ∀ fee : List Coin, fee ≠ [] → (∀ coin ∈ fee, coin ∈ coins) →
      ∃ p, slicePriority fee gas = .ok p ∧ IsSmallest p (fee.map (gasPrice gas))) :
    SmallestPriority gas coins := by
  refine ⟨h, fun fee fee' hfee hsame => ?_,
    fun fee fee' coin hne hfee hcoin hperm p p' hp hp' => ?_⟩
  · cases fee with
    | nil =>
        have hnil : fee' = [] := List.eq_nil_iff_forall_not_mem.mpr fun coin hmem =>
          List.not_mem_nil ((hsame coin).mpr hmem)
        rw [hnil]
    | cons first rest =>
        have hne' : fee' ≠ [] := List.ne_nil_of_mem ((hsame first).mp List.mem_cons_self)
        obtain ⟨p, hp, hsmallest⟩ := h (first :: rest) (List.cons_ne_nil _ _) hfee
        have hfee' : ∀ coin ∈ fee', coin ∈ coins := fun coin hmem =>
          hfee coin ((hsame coin).mpr hmem)
        obtain ⟨p', hp', hsmallest'⟩ := h fee' hne' hfee'
        have hprices : ∀ q, q ∈ (first :: rest).map (gasPrice gas)
            ↔ q ∈ fee'.map (gasPrice gas) := by
          intro q
          simp only [List.mem_map, hsame]
        have heq : p = p' := le_antisymm (hsmallest.2 p' ((hprices p').mpr hsmallest'.1))
          (hsmallest'.2 p ((hprices p).mp hsmallest.1))
        rw [hp, hp', heq]
  · have hmem : ∀ c, c ∈ fee' ↔ c = coin ∨ c ∈ fee := fun c => by
      rw [← hperm.mem_iff, List.mem_cons]
    have hne' : fee' ≠ [] := List.ne_nil_of_mem ((hmem coin).mpr (.inl rfl))
    have hfee' : ∀ c ∈ fee', c ∈ coins := by
      intro c hc
      rcases (hmem c).mp hc with rfl | hc
      · exact hcoin
      · exact hfee c hc
    obtain ⟨q, hq, hsmallest⟩ := h fee hne hfee
    obtain ⟨q', hq', hsmallest'⟩ := h fee' hne' hfee'
    obtain rfl := Except.ok.inj (hp.symm.trans hq)
    obtain rfl := Except.ok.inj (hp'.symm.trans hq')
    obtain ⟨c, hc, hprice⟩ := List.mem_map.mp hsmallest.1
    rw [← hprice]
    exact hsmallest'.2 _ (List.mem_map_of_mem ((hmem c).mpr (.inr hc)))

/-- **The smallest price.** The priority of every fee made of some coins is its smallest price
exactly when all these coins pay at least one unit per gas, or none does. Amounts of a fee are not
negative; for others, the first case takes the absolute value, and the second excludes those whose
price is below every `int64`. -/
theorem smallestPriority_iff {gas : ℤ} (hgas : 0 < gas) (coins : Set Coin) :
    SmallestPriority gas coins ↔ (∀ coin ∈ coins, gas ≤ |coin.2|)
      ∨ ∀ coin ∈ coins, coin.2 < gas ∧ -(2 ^ 63 + 1) * gas < coin.2 := by
  have hzero : ∀ coin : Coin, gas ≤ |coin.2| ↔ gasPrice gas coin ≠ 0 := fun coin => by
    rw [Ne, gasPrice_eq_zero_iff hgas, not_lt]
  simp only [hzero, ← gasPrice_nonpos_iff hgas]
  constructor
  · intro h
    by_contra hnot
    obtain ⟨⟨low, hlow, hprice⟩, ⟨high, hhigh, hpos⟩⟩ :
        (∃ low ∈ coins, gasPrice gas low = 0) ∧ ∃ high ∈ coins, 0 < gasPrice gas high := by
      simpa [not_or] using hnot
    -- the loop forgets the first of two coins
    have hmem : ∀ coin ∈ [low, high], coin ∈ coins := by
      simp [hlow, hhigh]
    have hiff := slicePriority_smallest_iff hgas (List.cons_ne_nil low [high])
    rcases hiff.mp (h.smallest _ (List.cons_ne_nil _ _) hmem) with ⟨coin, hcoin, hneg⟩ | hne | hlast
    · rcases List.mem_pair.mp hcoin with rfl | rfl <;> omega
    · exact hne low List.mem_cons_self hprice
    · exact hpos.ne' hlast
  · intro h
    refine smallestPriority_of_smallest fun fee hne hfee => ?_
    rw [slicePriority_smallest_iff hgas hne]
    rcases h with h | h
    · exact .inr (.inl fun coin hcoin => h coin (hfee coin hcoin))
    · by_cases hneg : ∃ coin ∈ fee, gasPrice gas coin < 0
      · exact .inl hneg
      · have hlast := List.getLast_mem hne
        have hle := h _ (hfee _ hlast)
        have hge := not_lt.mp fun hlt => hneg ⟨_, hlast, hlt⟩
        exact .inr (.inr (le_antisymm hle hge))

/-- Fees that pay at least one unit per gas in each of their coins. -/
theorem smallestPriority_wholeUnits : SmallestPriority 200000 {coin | 200000 ≤ coin.2} :=
  (smallestPriority_iff (by decide) _).mpr (.inl fun _ hcoin => le_trans hcoin (le_abs_self _))

/-- One unit of luna has a price of zero. With dollars added to the fee the priority rises to their
price, unless they come first in the slice. -/
theorem dust_forgotten :
    getTxPriority (CoinSet.ofList [("uluna", 1)]) 200000 = .ok 0
    ∧ getTxPriority (CoinSet.ofList [("uluna", 1), ("uusd", 2000000)]) 200000 = .ok 10
    ∧ slicePriority [("uusd", 2000000), ("uluna", 1)] 200000 = .ok 0
    ∧ ¬ SmallestPriority 200000 Set.univ := by
  obtain ⟨_, halone, hzero⟩ := exists_of_returns (p := fun p : ℤ => p = 0)
    (x := getTxPriority (CoinSet.ofList [("uluna", 1)]) 200000) (by decide +kernel)
  obtain ⟨_, hboth, hten⟩ := exists_of_returns (p := fun p : ℤ => p = 10)
    (x := getTxPriority (CoinSet.ofList [("uluna", 1), ("uusd", 2000000)]) 200000)
    (by decide +kernel)
  obtain rfl := of_decide_eq_true hzero
  obtain rfl := of_decide_eq_true hten
  refine ⟨halone, hboth, rfl, fun h => ?_⟩
  have hraised := h.further [("uluna", 1)] [("uluna", 1), ("uusd", 2000000)] ("uusd", 2000000)
    (List.cons_ne_nil _ _) (fun _ _ => trivial) trivial (List.Perm.swap _ _ _) 0 10 rfl rfl
  exact absurd hraised (by decide)

end ColumbusCore.Ante
