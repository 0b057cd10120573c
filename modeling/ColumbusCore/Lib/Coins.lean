import Std.Data.ExtTreeMap.Lemmas
import ColumbusCore.Lib.Outcome

/-!
Amounts by denomination.

An `Amounts δ ν` is a finite map from denominations to nonzero amounts, listed in the order of
the denominations. Amounts are equal exactly when they agree at every denomination (`ext_amountOf`),
so an operation is known once its amount at each denomination is. `CoinSet δ` are integer amounts,
without a limit of bits.

* `CoinSet.add`, `CoinSet.neg`, `CoinSet.sub`: the sum, and the difference that panics when an amount
  turns negative;
* `CoinSet.IsAllGTE`: the comparison of coin sets;
* `amountOf_add`, `amountOf_neg`, `sub_eq_ok_iff`: the operations at one denomination;
* `amountOf_foldl_addCoin`: a loop that adds one coin per round, at one denomination;
* `coinwise_eq_ok_iff`: **a loop that computes one amount per coin, at every denomination**;
* `exists_foldlM_entries`: **a loop that changes a coin set coin by coin, at every denomination**;
* `foldlM_entries_separate`: **a loop whose rounds change only what the state has for their own
  denomination, at every denomination**.
-/

open Go
open Std (ExtTreeMap TransOrd LawfulEqOrd)

/-- Finitely many nonzero amounts, by denomination. -/
structure Amounts (δ ν : Type) [Ord δ] [TransOrd δ] [Zero ν] where
  amounts : ExtTreeMap δ ν
  nonzero : ∀ d : δ, amounts[d]? ≠ some 0

namespace Amounts

section Generic

variable {δ ν : Type} [Ord δ] [TransOrd δ] [LawfulEqOrd δ] [Zero ν]

/-- The amount of a denomination, `0` where there is none. -/
def amountOf (c : Amounts δ ν) (d : δ) : ν := c.amounts.getD d 0

/-- The coins in the order of their denominations. -/
def entries (c : Amounts δ ν) : List (δ × ν) := c.amounts.toList

/-- No coins. -/
def empty : Amounts δ ν := ⟨∅, fun d => by simp⟩

instance : EmptyCollection (Amounts δ ν) := ⟨empty⟩

instance : Inhabited (Amounts δ ν) := ⟨∅⟩

/-- There are no coins. -/
def IsZero (c : Amounts δ ν) : Prop := c.entries = []

instance (c : Amounts δ ν) : Decidable c.IsZero :=
  match h : c.entries with
  | [] => isTrue h
  | e :: l => isFalse (by simp [IsZero, h])

omit [LawfulEqOrd δ] in
@[simp] lemma amountOf_empty (d : δ) : (∅ : Amounts δ ν).amountOf d = 0 :=
  ExtTreeMap.getD_empty

lemma mem_entries {c : Amounts δ ν} {d : δ} {x : ν} :
    (d, x) ∈ c.entries ↔ c.amounts[d]? = some x :=
  ExtTreeMap.mem_toList_iff_getElem?_eq_some

/-- The listed coins are the denominations with a nonzero amount. -/
lemma mem_entries_iff {c : Amounts δ ν} {d : δ} {x : ν} :
    (d, x) ∈ c.entries ↔ c.amountOf d = x ∧ x ≠ 0 := by
  rw [mem_entries, amountOf, ExtTreeMap.getD_eq_getD_getElem?]
  have hnz := c.nonzero d
  cases h : c.amounts[d]? with
  | none =>
      simp only [reduceCtorEq, Option.getD_none, false_iff, not_and, not_not]
      exact fun h0 => h0.symm
  | some y =>
      rw [h] at hnz
      simp only [Option.some.injEq, Option.getD_some]
      exact ⟨fun hyx => ⟨hyx, fun h0 => hnz (by rw [hyx, h0])⟩, fun hyx => hyx.1⟩

lemma getElem?_eq {c : Amounts δ ν} [DecidableEq ν] (d : δ) :
    c.amounts[d]? = if c.amountOf d = 0 then none else some (c.amountOf d) := by
  by_cases h : c.amountOf d = 0
  · rw [if_pos h]
    cases hx : c.amounts[d]? with
    | none => rfl
    | some x => exact absurd h (by
        obtain ⟨h1, h2⟩ := mem_entries_iff.mp (mem_entries.mpr hx)
        rwa [h1])
  · rw [if_neg h]
    exact mem_entries.mp (mem_entries_iff.mpr ⟨rfl, h⟩)

/-- **Amounts are determined by the amount of each denomination.** -/
theorem ext_amountOf {a b : Amounts δ ν} (h : ∀ d, a.amountOf d = b.amountOf d) : a = b := by
  classical
  have hmap : a.amounts = b.amounts := ExtTreeMap.ext_getElem? fun d => by
    rw [getElem?_eq, getElem?_eq, h d]
  cases a
  cases b
  simpa using hmap

/-- No denomination is listed twice. -/
lemma entries_pairwise (c : Amounts δ ν) : c.entries.Pairwise fun a b => a.1 ≠ b.1 :=
  (ExtTreeMap.distinct_keys_toList (t := c.amounts)).imp fun h heq =>
    h (by rw [heq]; exact Std.ReflCmp.compare_self)

lemma isZero_iff {c : Amounts δ ν} : c.IsZero ↔ ∀ d, c.amountOf d = 0 := by
  constructor
  · intro h d
    by_contra hne
    have hmem : (d, c.amountOf d) ∈ c.entries := mem_entries_iff.mpr ⟨rfl, hne⟩
    rw [show c.entries = [] from h] at hmem
    exact absurd hmem (by simp)
  · intro h
    refine List.eq_nil_iff_forall_not_mem.mpr fun e he => ?_
    obtain ⟨h1, h2⟩ := mem_entries_iff.mp (show (e.1, e.2) ∈ c.entries from he)
    exact h2 (by rw [← h1, h])

variable [DecidableEq ν]

/-- The amount of one denomination replaced; a zero amount is not listed. -/
def setAmount (c : Amounts δ ν) (d : δ) (x : ν) : Amounts δ ν :=
  if h : x = 0 then
    ⟨c.amounts.erase d, fun d' => by
      rw [ExtTreeMap.getElem?_erase]
      split_ifs
      · simp
      · exact c.nonzero d'⟩
  else
    ⟨c.amounts.insert d x, fun d' => by
      rw [ExtTreeMap.getElem?_insert]
      split_ifs
      · simpa using h
      · exact c.nonzero d'⟩

lemma amountOf_setAmount [DecidableEq δ] (c : Amounts δ ν) (d : δ) (x : ν) (d' : δ) :
    (c.setAmount d x).amountOf d' = if d = d' then x else c.amountOf d' := by
  rw [setAmount]
  split_ifs with hx hd hd
  · subst hd
    simp [amountOf, hx]
  · simp [amountOf, ExtTreeMap.getD_erase, hd]
  · subst hd
    simp [amountOf]
  · simp [amountOf, ExtTreeMap.getD_insert, hd]

end Generic

section SetAmount

variable {δ ν μ : Type} [Ord δ] [TransOrd δ] [LawfulEqOrd δ] [DecidableEq δ] [Zero ν] [Zero μ]
  [DecidableEq μ]

/-- **A loop that sets the amount of every listed denomination** to a function of it. -/
theorem amountOf_foldl_setAmount (f : δ → μ) (l : List δ) (c : Amounts δ μ) (d : δ) :
    (l.foldl (fun c d => c.setAmount d (f d)) c).amountOf d
      = if d ∈ l then f d else c.amountOf d := by
  induction l generalizing c with
  | nil => simp
  | cons d' l ih =>
      rw [List.foldl_cons, ih, amountOf_setAmount]
      by_cases hd : d' = d
      · simp [hd]
      · simp [hd, Ne.symm hd]

/-- **A loop that computes a new amount for every listed coin**, at one denomination: no
denomination comes twice, so the last amount set is the only one. -/
theorem amountOf_foldlM_setAmount {c : Amounts δ ν} {g : δ × ν → Outcome μ} {a : Amounts δ μ}
    (h : c.entries.foldlM (fun a e => g e >>= fun y => pure (a.setAmount e.1 y)) ∅ = .ok a) (d : δ) :
    (c.amountOf d = 0 → a.amountOf d = 0)
      ∧ (c.amountOf d ≠ 0 → g (d, c.amountOf d) = .ok (a.amountOf d)) := by
  have key := foldlM_induction (fun (pre : List (δ × ν)) (a : Amounts δ μ) =>
    (∀ e ∈ pre, g e = .ok (a.amountOf e.1)) ∧ ((∀ e ∈ pre, e.1 ≠ d) → a.amountOf d = 0)) h
    ⟨by simp, by simp⟩ (by
      intro pre e post a a' hl ⟨hin, hout⟩ hround
      have hfresh : ∀ e' ∈ pre, e'.1 ≠ e.1 := fun e' he' =>
        (List.pairwise_append.mp (hl ▸ c.entries_pairwise)).2.2 e' he' e (by simp)
      obtain ⟨y, hy, hround⟩ := bind_eq_ok.mp hround
      obtain rfl := Except.ok.inj hround
      refine ⟨fun e' he' => ?_, fun hd => ?_⟩
      · rw [amountOf_setAmount]
        rcases List.mem_append.mp he' with he' | he'
        · rw [if_neg (hfresh e' he').symm, hin e' he']
        · obtain rfl := List.mem_singleton.mp he'
          rw [if_pos rfl, hy]
      · rw [amountOf_setAmount, if_neg (hd e (by simp))]
        exact hout fun e' he' => hd e' (List.mem_append_left _ he'))
  constructor
  · intro hzero
    refine key.2 fun e he hed => ?_
    obtain ⟨h1, h2⟩ := mem_entries_iff.mp (show (e.1, e.2) ∈ c.entries from he)
    exact h2 (by rw [← h1, hed, hzero])
  · intro hne
    exact key.1 _ (mem_entries_iff.mpr ⟨rfl, hne⟩)

end SetAmount

section Sums

variable {δ ν : Type} [DecidableEq δ]

/-- The amounts of one denomination in a list without repetitions. -/
lemma sum_ite_of_pairwise {l : List (δ × ν)} (hl : l.Pairwise fun a b => a.1 ≠ b.1)
    (f : δ × ν → ℤ) {d : δ} {x : ν} (h : (d, x) ∈ l) :
    (l.map fun e => if e.1 = d then f e else 0).sum = f (d, x) := by
  induction l with
  | nil => exact absurd h (by simp)
  | cons e l ih =>
      obtain ⟨hne, hl'⟩ := List.pairwise_cons.mp hl
      rw [List.map_cons, List.sum_cons]
      rcases List.mem_cons.mp h with rfl | hmem
      · have hrest : (l.map fun e => if e.1 = d then f e else 0).sum = 0 := by
          refine List.sum_eq_zero fun y hy => ?_
          obtain ⟨e', he', rfl⟩ := List.mem_map.mp hy
          rw [if_neg fun heq => hne e' he' heq.symm]
        rw [if_pos rfl, hrest, add_zero]
      · rw [if_neg fun heq => hne (d, x) hmem heq, ih hl' hmem, zero_add]

/-- A sum over the coins of one denomination is a function of its amount. -/
lemma sum_entries_ite [Ord δ] [TransOrd δ] [LawfulEqOrd δ] [Zero ν] (c : Amounts δ ν)
    (f : δ × ν → ℤ) (d : δ) (hf : f (d, 0) = 0) :
    (c.entries.map fun e => if e.1 = d then f e else 0).sum = f (d, c.amountOf d) := by
  by_cases h : c.amountOf d = 0
  · rw [h, hf]
    refine List.sum_eq_zero fun y hy => ?_
    obtain ⟨e, he, rfl⟩ := List.mem_map.mp hy
    obtain ⟨h1, h2⟩ := mem_entries_iff.mp (show (e.1, e.2) ∈ c.entries from he)
    rw [if_neg fun heq => h2 (by rw [← h1, heq, h])]
  · exact sum_ite_of_pairwise c.entries_pairwise f (mem_entries_iff.mpr ⟨rfl, h⟩)

end Sums

section Separate

variable {δ ν σ τ : Type} {f : σ → δ × ν → Outcome σ}

/-- Rounds for different denominations, each of which changes only what the state has for its own,
do not see each other. -/
lemma foldlM_separate {look : σ → δ → τ} {R : δ × ν → τ → τ → Prop} {l : List (δ × ν)}
    (hl : l.Pairwise fun a b => a.1 ≠ b.1)
    (hstep : ∀ e ∈ l, ∀ s s', f s e = .ok s' → R e (look s e.1) (look s' e.1)
      ∧ ∀ d, e.1 ≠ d → look s' d = look s d)
    {s s' : σ} (hrun : l.foldlM f s = .ok s') :
    (∀ e ∈ l, R e (look s e.1) (look s' e.1))
      ∧ ∀ d, (∀ e ∈ l, e.1 ≠ d) → look s' d = look s d := by
  induction l generalizing s with
  | nil =>
      obtain rfl := Except.ok.inj hrun
      exact ⟨by simp, fun _ _ => rfl⟩
  | cons e l ih =>
      obtain ⟨hne, hl⟩ := List.pairwise_cons.mp hl
      obtain ⟨c, hc, hrun⟩ := foldlM_cons_eq_ok.mp hrun
      obtain ⟨hround, hframe⟩ := hstep e List.mem_cons_self s c hc
      obtain ⟨hrest, hothers⟩ := ih hl (fun e' he' => hstep e' (List.mem_cons_of_mem _ he')) hrun
      refine ⟨fun e' he' => ?_, fun d hd => ?_⟩
      · rcases List.mem_cons.mp he' with rfl | hmem
        · rw [hothers e'.1 fun e he heq => hne e he heq.symm]
          exact hround
        · rw [← hframe e'.1 (hne e' hmem)]
          exact hrest e' hmem
      · rw [hothers d fun e' he' => hd e' (List.mem_cons_of_mem _ he'),
          hframe d (hd e List.mem_cons_self)]

variable [Ord δ] [TransOrd δ] [LawfulEqOrd δ] [Zero ν] {x : Amounts δ ν}

/-- **The loop over separate denominations.** A loop over the coins of a set whose rounds change
only what the state has for their own denomination does, at each of them, one round for its
amount. -/
theorem foldlM_entries_separate (look : σ → δ → τ) (R : δ × ν → τ → τ → Prop)
    (hzero : ∀ d a, R (d, 0) a a)
    (hstep : ∀ e ∈ x.entries, ∀ s s', f s e = .ok s' → R e (look s e.1) (look s' e.1)
      ∧ ∀ d, e.1 ≠ d → look s' d = look s d)
    {s s' : σ} (hrun : x.entries.foldlM f s = .ok s') (d : δ) :
    R (d, x.amountOf d) (look s d) (look s' d) := by
  obtain ⟨hall, hframe⟩ := foldlM_separate x.entries_pairwise hstep hrun
  by_cases h : x.amountOf d = 0
  · rw [h, hframe d fun e he heq => (mem_entries_iff.mp he).2 ?_]
    · exact hzero d _
    · rw [← (mem_entries_iff.mp he).1, heq, h]
  · exact hall _ (mem_entries_iff.mpr ⟨rfl, h⟩)

end Separate

end Amounts

/-! ### Coins -/

/-- Integer amounts by denomination. -/
abbrev CoinSet (δ : Type) [Ord δ] [TransOrd δ] := Amounts δ ℤ

/-- `NewCoin`: a coin of a negative amount is a panic. -/
def newCoin {δ : Type} (d : δ) (x : ℤ) : Outcome (δ × ℤ) :=
  if x < 0 then panicked .negativeAmount else .ok (d, x)

lemma newCoin_eq_ok_iff {δ : Type} {d : δ} {x : ℤ} {e : δ × ℤ} :
    newCoin d x = .ok e ↔ 0 ≤ x ∧ e = (d, x) := by
  rw [newCoin]
  split_ifs with h
  · simp [panicked]; omega
  · simp [eq_comm]; omega

namespace CoinSet

open Amounts

variable {δ : Type} [Ord δ] [TransOrd δ] [LawfulEqOrd δ]

/-- One coin added. -/
def addCoin (c : CoinSet δ) (e : δ × ℤ) : CoinSet δ := c.setAmount e.1 (c.amountOf e.1 + e.2)

/-- The sum of two coin sets. -/
def add (a b : CoinSet δ) : CoinSet δ := b.entries.foldl addCoin a

/-- The coin set of a list of coins. -/
def ofList (l : List (δ × ℤ)) : CoinSet δ := l.foldl addCoin ∅

/-- Every amount negated. -/
def neg (c : CoinSet δ) : CoinSet δ := ofList (c.entries.map fun e => (e.1, -e.2))

/-- Some amount is negative. -/
def IsAnyNegative (c : CoinSet δ) : Prop := ∃ e ∈ c.entries, e.2 < 0

instance (c : CoinSet δ) : Decidable c.IsAnyNegative :=
  inferInstanceAs (Decidable (∃ e ∈ c.entries, e.2 < 0))

/-- A valid coin set: every amount is positive. -/
def IsValid (c : CoinSet δ) : Prop := ∀ e ∈ c.entries, 0 < e.2

instance (c : CoinSet δ) : Decidable c.IsValid :=
  inferInstanceAs (Decidable (∀ e ∈ c.entries, 0 < e.2))

/-- The difference, possibly with negative amounts. -/
def safeSub (a b : CoinSet δ) : CoinSet δ := a.add b.neg

/-- The difference; a negative amount in it is a panic. -/
def sub (a b : CoinSet δ) : Outcome (CoinSet δ) :=
  if (safeSub a b).IsAnyNegative then panicked .negativeDifference else .ok (safeSub a b)

/-- The smaller amount of every denomination both sets have. -/
def pairMin (a b : CoinSet δ) : CoinSet δ :=
  ofList (a.entries.map fun e =>
    (e.1, if b.amountOf e.1 = 0 then 0 else Min.min e.2 (b.amountOf e.1)))

/-- The smaller amounts; a negative one is a panic. -/
def min (a b : CoinSet δ) : Outcome (CoinSet δ) :=
  if (pairMin a b).IsAnyNegative then panicked (.raised "coin amount is not positive")
  else .ok (pairMin a b)

/-- `b` is nowhere more than `a`. An empty `a` covers nothing but the empty set. -/
def IsAllGTE (a b : CoinSet δ) : Prop :=
  b.entries = [] ∨ (a.entries ≠ [] ∧ ∀ e ∈ b.entries, ¬ a.amountOf e.1 < e.2)

instance (a b : CoinSet δ) : Decidable (a.IsAllGTE b) :=
  haveI : Decidable (b.entries = []) := inferInstanceAs (Decidable b.IsZero)
  haveI : Decidable (a.entries = []) := inferInstanceAs (Decidable a.IsZero)
  inferInstanceAs (Decidable (_ ∨ _))

section Lemmas

variable [DecidableEq δ]

@[simp] lemma amountOf_addCoin (c : CoinSet δ) (e : δ × ℤ) (d : δ) :
    (c.addCoin e).amountOf d = c.amountOf d + if e.1 = d then e.2 else 0 := by
  rw [addCoin, amountOf_setAmount]
  split_ifs with h
  · rw [h]
  · rw [add_zero]

/-- A loop that adds one coin per round, at one denomination. -/
lemma amountOf_foldl_addCoin (l : List (δ × ℤ)) (c : CoinSet δ) (d : δ) :
    (l.foldl addCoin c).amountOf d
      = c.amountOf d + (l.map fun e => if e.1 = d then e.2 else 0).sum := by
  induction l generalizing c with
  | nil => simp
  | cons e l ih =>
      rw [List.foldl_cons, ih, amountOf_addCoin, List.map_cons, List.sum_cons, add_assoc]

@[simp] lemma amountOf_add (a b : CoinSet δ) (d : δ) :
    (a.add b).amountOf d = a.amountOf d + b.amountOf d := by
  rw [add, amountOf_foldl_addCoin, sum_entries_ite b (fun e => e.2) d rfl]

/-- A loop that adds a coin set in every round, at one denomination. -/
lemma amountOf_foldl_add {α : Type} (t : α → CoinSet δ) (l : List α) (a : CoinSet δ) (d : δ) :
    (l.foldl (fun acc x => acc.add (t x)) a).amountOf d
      = a.amountOf d + (l.map fun x => (t x).amountOf d).sum := by
  induction l generalizing a with
  | nil => simp
  | cons x l ih =>
      rw [List.foldl_cons, ih, amountOf_add, List.map_cons, List.sum_cons]
      ring

@[simp] lemma add_empty (a : CoinSet δ) : a.add ∅ = a := ext_amountOf fun d => by simp

@[simp] lemma empty_add (a : CoinSet δ) : add ∅ a = a := ext_amountOf fun d => by simp

lemma add_assoc' (a b c : CoinSet δ) : (a.add b).add c = a.add (b.add c) :=
  ext_amountOf fun d => by simp [add_assoc]

lemma amountOf_ofList (l : List (δ × ℤ)) (d : δ) :
    (ofList l).amountOf d = (l.map fun e => if e.1 = d then e.2 else 0).sum := by
  rw [ofList, amountOf_foldl_addCoin, amountOf_empty, zero_add]

lemma amountOf_single (e : δ × ℤ) (d : δ) :
    (ofList [e]).amountOf d = if e.1 = d then e.2 else 0 := by
  simp [amountOf_ofList]

@[simp] lemma amountOf_neg (c : CoinSet δ) (d : δ) : c.neg.amountOf d = -c.amountOf d := by
  rw [neg, amountOf_ofList, List.map_map]
  exact sum_entries_ite c (fun e => -e.2) d (by simp)

@[simp] lemma amountOf_safeSub (a b : CoinSet δ) (d : δ) :
    (safeSub a b).amountOf d = a.amountOf d - b.amountOf d := by
  rw [safeSub, amountOf_add, amountOf_neg, sub_eq_add_neg]

omit [DecidableEq δ] in
lemma isAnyNegative_iff {c : CoinSet δ} : c.IsAnyNegative ↔ ∃ d, c.amountOf d < 0 := by
  constructor
  · rintro ⟨e, he, hneg⟩
    obtain ⟨h1, -⟩ := mem_entries_iff.mp (show (e.1, e.2) ∈ c.entries from he)
    exact ⟨e.1, by rw [h1]; exact hneg⟩
  · rintro ⟨d, hd⟩
    exact ⟨(d, c.amountOf d), mem_entries_iff.mpr ⟨rfl, by omega⟩, hd⟩

omit [DecidableEq δ] in
lemma isValid_iff {c : CoinSet δ} : c.IsValid ↔ ∀ d, 0 ≤ c.amountOf d := by
  constructor
  · intro h d
    by_contra hneg
    have := h (d, c.amountOf d) (mem_entries_iff.mpr ⟨rfl, by omega⟩)
    exact hneg (by simpa using this.le)
  · intro h e he
    obtain ⟨h1, h2⟩ := mem_entries_iff.mp (show (e.1, e.2) ∈ c.entries from he)
    have := h e.1
    omega

lemma IsValid.add {a b : CoinSet δ} (ha : a.IsValid) (hb : b.IsValid) : (a.add b).IsValid :=
  isValid_iff.mpr fun d => by
    rw [amountOf_add]
    exact add_nonneg (isValid_iff.mp ha d) (isValid_iff.mp hb d)

omit [DecidableEq δ] in
lemma isValid_empty : (∅ : CoinSet δ).IsValid := isValid_iff.mpr fun d => (amountOf_empty d).ge

/-- The difference is defined exactly when it is nowhere negative. -/
lemma sub_eq_ok_iff {a b c : CoinSet δ} :
    a.sub b = .ok c ↔ (∀ d, b.amountOf d ≤ a.amountOf d) ∧ c = safeSub a b := by
  have hneg : (safeSub a b).IsAnyNegative ↔ ¬ ∀ d, b.amountOf d ≤ a.amountOf d := by
    simp only [isAnyNegative_iff, amountOf_safeSub, not_forall, not_le, sub_neg]
  rw [sub]
  split_ifs with h
  · simp [panicked, hneg.mp h]
  · simp [not_not.mp (mt hneg.mpr h), eq_comm]

lemma sub_eq_error_iff {a b : CoinSet δ} {e : Fault} :
    a.sub b = .error e ↔ (∃ d, a.amountOf d < b.amountOf d) ∧ e = .panic .negativeDifference := by
  have hneg : (safeSub a b).IsAnyNegative ↔ ∃ d, a.amountOf d < b.amountOf d := by
    simp only [isAnyNegative_iff, amountOf_safeSub, sub_neg]
  rw [sub]
  split_ifs with h
  · simp [panicked, hneg.mp h, eq_comm]
  · simp [mt hneg.mpr h]

lemma amountOf_pairMin (a b : CoinSet δ) (d : δ) :
    (pairMin a b).amountOf d = if a.amountOf d = 0 ∨ b.amountOf d = 0 then 0
      else Min.min (a.amountOf d) (b.amountOf d) := by
  have hsum := sum_entries_ite a (fun e => if e.2 = 0 ∨ b.amountOf e.1 = 0 then 0
    else Min.min e.2 (b.amountOf e.1)) d (by simp)
  rw [pairMin, amountOf_ofList, List.map_map, ← hsum]
  refine congrArg List.sum (List.map_congr_left fun e he => ?_)
  have hne := (mem_entries_iff.mp (show (e.1, e.2) ∈ a.entries from he)).2
  simp [hne]

omit [DecidableEq δ] in
/-- The smaller amounts are defined exactly when none of them is negative. -/
lemma min_eq_ok_iff {a b c : CoinSet δ} :
    a.min b = .ok c ↔ (∀ d, 0 ≤ (pairMin a b).amountOf d) ∧ c = pairMin a b := by
  have hneg : (pairMin a b).IsAnyNegative ↔ ¬ ∀ d, 0 ≤ (pairMin a b).amountOf d := by
    simp only [isAnyNegative_iff, not_forall, not_le]
  rw [min]
  split_ifs with h
  · simp [panicked, hneg.mp h]
  · simp [not_not.mp (mt hneg.mpr h), eq_comm]

omit [DecidableEq δ] in
/-- Between valid coin sets, `IsAllGTE` is the comparison at every denomination. -/
lemma isAllGTE_iff {a b : CoinSet δ} (ha : a.IsValid) (hb : b.IsValid) :
    a.IsAllGTE b ↔ ∀ d, b.amountOf d ≤ a.amountOf d := by
  constructor
  · rintro (h | ⟨-, h⟩) d
    · have h0 := isZero_iff.mp h d
      have := isValid_iff.mp ha d
      omega
    · by_cases hd : b.amountOf d = 0
      · have := isValid_iff.mp ha d
        omega
      · exact not_lt.mp (h (d, b.amountOf d) (mem_entries_iff.mpr ⟨rfl, hd⟩))
  · intro h
    by_cases hb0 : b.entries = []
    · exact Or.inl hb0
    · obtain ⟨e, he⟩ := List.exists_mem_of_ne_nil _ hb0
      have hpos := hb e he
      obtain ⟨h1, h2⟩ := mem_entries_iff.mp (show (e.1, e.2) ∈ b.entries from he)
      have hle := h e.1
      refine Or.inr ⟨fun ha0 => ?_, fun e' he' => ?_⟩
      · have h0 := isZero_iff.mp ha0 e.1
        omega
      · obtain ⟨h1', -⟩ := mem_entries_iff.mp (show (e'.1, e'.2) ∈ b.entries from he')
        have := h e'.1
        omega

/-! ### Loops over the coins of a set -/

@[simp] lemma addCoin_zero (c : CoinSet δ) (d : δ) : c.addCoin (d, 0) = c :=
  ext_amountOf fun d' => by simp

/-- A round that leaves out an amount of zero adds the amount in any case. -/
lemma addCoin_unless_zero (c : CoinSet δ) (d : δ) (x : ℤ) :
    (if x = 0 then pure c
      else newCoin d x >>= fun e => pure (c.addCoin e) : Outcome (CoinSet δ))
      = (if x < 0 then panicked .negativeAmount else .ok x) >>= fun y =>
        .ok (c.addCoin (d, y)) := by
  rw [newCoin]
  split_ifs with hz hneg hneg
  · exact absurd hneg (by omega)
  · rw [hz, ok_bind, addCoin_zero, pure_eq_ok]
  · rfl
  · rfl

section Coinwise

variable {g : CoinSet δ → δ × ℤ → Outcome (CoinSet δ)} {f : δ × ℤ → Outcome ℤ}

omit [LawfulEqOrd δ] [DecidableEq δ] in
/-- A loop that computes one amount per coin and adds it to the result. -/
lemma foldlM_addCoin_eq_ok_iff {l : List (δ × ℤ)}
    (hg : ∀ acc, ∀ e ∈ l, g acc e = f e >>= fun y => .ok (acc.addCoin (e.1, y)))
    {acc c : CoinSet δ} :
    l.foldlM g acc = .ok c ↔ (∀ e ∈ l, f e = .ok ((f e).toOption.getD 0))
      ∧ c = (l.map fun e => (e.1, (f e).toOption.getD 0)).foldl addCoin acc := by
  induction l generalizing acc with
  | nil => simp [eq_comm]
  | cons e l ih =>
      have hg' : ∀ acc, ∀ e' ∈ l, g acc e' = f e' >>= fun y => .ok (acc.addCoin (e'.1, y)) :=
        fun acc e' he' => hg acc e' (List.mem_cons_of_mem _ he')
      rw [foldlM_cons_eq_ok, hg acc e (by simp)]
      cases hf : f e with
      | error x => simp [hf]
      | ok y => simp [hf, ih hg', Except.toOption]

/-- **The coin-wise loop.** A loop over the coins of a set that leaves zero at zero computes, at
every denomination, the amount of its body. -/
theorem coinwise_eq_ok_iff {coins c : CoinSet δ}
    (hg : ∀ acc, ∀ e ∈ coins.entries, g acc e = f e >>= fun y => .ok (acc.addCoin (e.1, y)))
    (hf : ∀ d, f (d, 0) = .ok 0) :
    coins.entries.foldlM g ∅ = .ok c ↔ ∀ d, f (d, coins.amountOf d) = .ok (c.amountOf d) := by
  have hsum : ∀ d, ((coins.entries.map fun e => (e.1, (f e).toOption.getD 0)).foldl addCoin
      ∅).amountOf d = (f (d, coins.amountOf d)).toOption.getD 0 := by
    intro d
    rw [amountOf_foldl_addCoin, amountOf_empty, zero_add, List.map_map]
    exact sum_entries_ite coins (fun e => (f e).toOption.getD 0) d (by rw [hf]; rfl)
  rw [foldlM_addCoin_eq_ok_iff hg]
  constructor
  · rintro ⟨hall, rfl⟩ d
    rw [hsum]
    by_cases hd : coins.amountOf d = 0
    · rw [hd, hf]
      rfl
    · exact hall _ (mem_entries_iff.mpr ⟨rfl, hd⟩)
  · intro hall
    refine ⟨fun e he => ?_, ext_amountOf fun d => ?_⟩
    · obtain ⟨h1, -⟩ := mem_entries_iff.mp (show (e.1, e.2) ∈ coins.entries from he)
      have he' := hall e.1
      rw [h1] at he'
      rw [show f e = _ from he']
      rfl
    · rw [hsum, hall d]
      rfl

omit [LawfulEqOrd δ] [DecidableEq δ] in
/-- A fault of the coin-wise loop is a fault of its body at some coin. -/
lemma coinwise_eq_error {coins : CoinSet δ}
    (hg : ∀ acc, ∀ e ∈ coins.entries, g acc e = f e >>= fun y => .ok (acc.addCoin (e.1, y)))
    {x : Fault} (h : coins.entries.foldlM g ∅ = .error x) :
    ∃ e ∈ coins.entries, f e = .error x := by
  obtain ⟨pre, e, post, acc, hl, -, he⟩ := exists_of_foldlM_error (fun _ _ => True) h trivial
    fun _ _ _ _ _ _ _ _ => trivial
  rw [hg acc e (by simp [hl])] at he
  refine ⟨e, by simp [hl], ?_⟩
  rcases bind_eq_error.mp he with he | ⟨y, -, he⟩
  · exact he
  · exact absurd he (by simp)

end Coinwise

section Adjust

variable {step : CoinSet δ → δ × ℤ → Outcome (CoinSet δ)} {g : δ × ℤ → ℤ → ℤ}

/-- A loop over coins of different denominations, each of which changes the amount of its own. -/
lemma exists_foldlM_adjust {l : List (δ × ℤ)} (hl : l.Pairwise fun a b => a.1 ≠ b.1)
    (hpos : ∀ e ∈ l, ∀ y, 0 ≤ y → 0 ≤ y + g e y)
    (hstep : ∀ c : CoinSet δ, c.IsValid → ∀ e ∈ l,
      step c e = .ok (c.addCoin (e.1, g e (c.amountOf e.1)))) {c : CoinSet δ} (hc : c.IsValid) :
    ∃ r, l.foldlM step c = .ok r ∧ r.IsValid ∧ ∀ d, r.amountOf d
      = c.amountOf d + (l.map fun e => if e.1 = d then g e (c.amountOf d) else 0).sum := by
  induction l generalizing c with
  | nil => exact ⟨c, rfl, hc, fun d => by simp⟩
  | cons e l ih =>
      obtain ⟨hne, hl⟩ := List.pairwise_cons.mp hl
      have hnn := isValid_iff.mp hc
      have hc' : (c.addCoin (e.1, g e (c.amountOf e.1))).IsValid := isValid_iff.mpr fun d => by
        rw [amountOf_addCoin]
        split_ifs with hd
        · rw [← hd]
          exact hpos e List.mem_cons_self _ (hnn e.1)
        · rw [add_zero]
          exact hnn d
      obtain ⟨r, hr, hv, hsum⟩ := ih hl (fun e' he' => hpos e' (List.mem_cons_of_mem _ he'))
        (fun c hc e' he' => hstep c hc e' (List.mem_cons_of_mem _ he')) hc'
      refine ⟨r, ?_, hv, fun d => ?_⟩
      · rw [List.foldlM_cons, hstep c hc e List.mem_cons_self, ok_bind, hr]
      · rw [hsum, amountOf_addCoin, List.map_cons, List.sum_cons]
        by_cases hd : e.1 = d
        · -- the later coins are of other denominations
          have hrest : ∀ f : δ × ℤ → ℤ, (l.map fun e => if e.1 = d then f e else 0).sum = 0 := by
            refine fun f => List.sum_eq_zero fun y hy => ?_
            obtain ⟨e', he', rfl⟩ := List.mem_map.mp hy
            rw [if_neg fun heq => hne e' he' (hd.trans heq.symm)]
          rw [hrest, hrest, if_pos hd, if_pos hd, hd]
          ring
        · simp only [if_neg hd, add_zero, zero_add]

/-- **The adjusting loop.** A loop over the coins of a set that changes, for each of them, the amount
of its denomination, and nothing for a coin of zero, changes every amount once. -/
theorem exists_foldlM_entries {x : CoinSet δ} (hzero : ∀ d y, 0 ≤ y → g (d, 0) y = 0)
    (hpos : ∀ e ∈ x.entries, ∀ y, 0 ≤ y → 0 ≤ y + g e y)
    (hstep : ∀ c : CoinSet δ, c.IsValid → ∀ e ∈ x.entries,
      step c e = .ok (c.addCoin (e.1, g e (c.amountOf e.1)))) {c : CoinSet δ} (hc : c.IsValid) :
    ∃ r, x.entries.foldlM step c = .ok r ∧ r.IsValid
      ∧ ∀ d, r.amountOf d = c.amountOf d + g (d, x.amountOf d) (c.amountOf d) := by
  obtain ⟨r, hr, hv, hsum⟩ := exists_foldlM_adjust x.entries_pairwise hpos hstep hc
  refine ⟨r, hr, hv, fun d => ?_⟩
  rw [hsum, sum_entries_ite x (fun e => g e (c.amountOf d)) d (hzero d _ (isValid_iff.mp hc d))]

end Adjust

end Lemmas

end CoinSet
