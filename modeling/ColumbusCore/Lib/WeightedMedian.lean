import Mathlib.Tactic

/-!
The weighted median of a sorted list of weighted values.

The median is the first value at which the running weight reaches a given level (half of the
total, say). For a sorted list with nonnegative weights it is characterised by thresholds:
it is at most `t` exactly when some value is at most `t` and the values at most `t` carry the
level (`firstReaching_le_iff`), and the same holds with any lower set in the place of the values
up to `t` (`firstReaching_lower_iff`). Everything a program needs to know about a weighted median
is a consequence of this equivalence, and the right-hand side does not look at the order of the
list; in particular whether the median lies in an interval that holds a majority
(`firstReaching_mem_iff`).
The median as such is the least threshold that carries the level (`IsMedian`), whatever the
order (`isMedian_of_firstReaching`, `isMedian_perm`); the values below it stay under the level and
it has weight itself (`firstReaching_splits`).
-/

namespace WeightedMedian

variable {α : Type} [LinearOrder α]

/-- The total weight. -/
def weight (l : List (α × ℤ)) : ℤ := (l.map Prod.snd).sum

/-- The weight of the values up to `t`. -/
def weightUpTo (t : α) (l : List (α × ℤ)) : ℤ :=
  (l.map fun v => if v.1 ≤ t then v.2 else 0).sum

/-- The weight of the values with the property `p`. -/
def weightOf (p : α → Prop) [DecidablePred p] (l : List (α × ℤ)) : ℤ :=
  (l.map fun v => if p v.1 then v.2 else 0).sum

/-- `x` lies below every value of the list in `I`. -/
def IsBelow (I : Set α) (l : List (α × ℤ)) (x : α) : Prop := ∀ u ∈ l, u.1 ∈ I → x < u.1

instance (I : Set α) [DecidablePred (· ∈ I)] (l : List (α × ℤ)) : DecidablePred (IsBelow I l) :=
  fun x => inferInstanceAs (Decidable (∀ u ∈ l, u.1 ∈ I → x < u.1))

/-- The first value at which the running weight, starting at `acc`, reaches `h`. -/
def firstReaching (h : ℤ) : ℤ → List (α × ℤ) → Option α
  | _, [] => none
  | acc, v :: l => if h ≤ acc + v.2 then some v.1 else firstReaching h (acc + v.2) l

/-- The values up to `t` are there and carry the weight `h`. -/
def Reaches (h : ℤ) (l : List (α × ℤ)) (t : α) : Prop :=
  (∃ v ∈ l, v.1 ≤ t) ∧ h ≤ weightUpTo t l

instance (h : ℤ) (l : List (α × ℤ)) (t : α) : Decidable (Reaches h l t) :=
  inferInstanceAs (Decidable (_ ∧ _))

/-- The least threshold that carries the weight `h`. -/
def IsMedian (h : ℤ) (l : List (α × ℤ)) (m : α) : Prop := IsLeast {t | Reaches h l t} m

section Weights

variable {l : List (α × ℤ)}

section Property

omit [LinearOrder α]

variable {p q : α → Prop} [DecidablePred p] [DecidablePred q]

@[simp] lemma weightOf_cons (v : α × ℤ) (l : List (α × ℤ)) :
    weightOf p (v :: l) = (if p v.1 then v.2 else 0) + weightOf p l := by
  rw [weightOf, List.map_cons, List.sum_cons, weightOf]

/-- A property that holds of more values has more weight. -/
lemma weightOf_mono (hw : ∀ v ∈ l, 0 ≤ v.2) (hpq : ∀ v ∈ l, p v.1 → q v.1) :
    weightOf p l ≤ weightOf q l := by
  refine List.sum_le_sum fun v hv => ?_
  have hv0 := hw v hv
  by_cases hpv : p v.1
  · rw [if_pos hpv, if_pos (hpq v hv hpv)]
  · rw [if_neg hpv]
    split_ifs <;> omega

/-- Where `p` holds of no value, its weight vanishes. -/
lemma weightOf_eq_zero (h : ∀ v ∈ l, ¬ p v.1) : weightOf p l = 0 := by
  refine List.sum_eq_zero fun x hx => ?_
  obtain ⟨v, hv, rfl⟩ := List.mem_map.mp hx
  rw [if_neg (h v hv)]

lemma weightOf_nonneg (hw : ∀ v ∈ l, 0 ≤ v.2) : 0 ≤ weightOf p l := by
  refine List.sum_nonneg fun x hx => ?_
  obtain ⟨v, hv, rfl⟩ := List.mem_map.mp hx
  have := hw v hv
  split_ifs <;> omega

/-- What makes the weight of `q` larger than that of `p` is a value with weight of its own. -/
lemma exists_pos_of_weightOf_lt (hw : ∀ v ∈ l, 0 ≤ v.2) (h : weightOf p l < weightOf q l) :
    ∃ v ∈ l, q v.1 ∧ ¬ p v.1 ∧ 0 < v.2 := by
  by_contra hno
  push Not at hno
  refine absurd h (not_lt.mpr (List.sum_le_sum fun v hv => ?_))
  have hv0 := hw v hv
  have hle := hno v hv
  split_ifs with hq hp
  · exact le_rfl
  · exact hle hq hp
  · exact hv0
  · exact le_rfl

/-- Two properties that exclude each other share the total weight. -/
lemma weightOf_add_le (hw : ∀ v ∈ l, 0 ≤ v.2) (hpq : ∀ v ∈ l, p v.1 → ¬ q v.1) :
    weightOf p l + weightOf q l ≤ weight l := by
  rw [weightOf, weightOf, weight, ← List.sum_map_add]
  refine List.sum_le_sum fun v hv => ?_
  have hv0 := hw v hv
  have hv1 := hpq v hv
  split_ifs with hp hq <;> first | omega | exact absurd hq (hv1 hp)

end Property

lemma IsBelow.lower (I : Set α) (l : List (α × ℤ)) (x y : α) (hxy : x ≤ y)
    (hy : IsBelow I l y) : IsBelow I l x :=
  fun u hu huI => hxy.trans_lt (hy u hu huI)

omit [LinearOrder α] in
@[simp] lemma weight_cons (v : α × ℤ) (l : List (α × ℤ)) :
    weight (v :: l) = v.2 + weight l := by
  rw [weight, List.map_cons, List.sum_cons, weight]

omit [LinearOrder α] in
lemma weight_nonneg (hw : ∀ v ∈ l, 0 ≤ v.2) : 0 ≤ weight l := by
  refine List.sum_nonneg fun x hx => ?_
  obtain ⟨v, hv, rfl⟩ := List.mem_map.mp hx
  exact hw v hv

/-- The order of the list does not matter. -/
lemma weightUpTo_perm {l' : List (α × ℤ)} (h : l.Perm l') (t : α) :
    weightUpTo t l = weightUpTo t l' :=
  (h.map _).sum_eq

lemma reaches_perm {l' : List (α × ℤ)} (hp : l.Perm l') {h : ℤ} {t : α} :
    Reaches h l t ↔ Reaches h l' t := by
  rw [Reaches, Reaches, weightUpTo_perm hp]
  simp only [hp.mem_iff]

lemma isMedian_perm {l' : List (α × ℤ)} (hp : l.Perm l') {h : ℤ} {m : α} :
    IsMedian h l m ↔ IsMedian h l' m := by
  rw [IsMedian, IsMedian]
  simp only [reaches_perm hp]

/-- With nonnegative weights a higher threshold carries more. -/
lemma Reaches.mono (hw : ∀ v ∈ l, 0 ≤ v.2) {h : ℤ} {s t : α} (hr : Reaches h l s) (hst : s ≤ t) :
    Reaches h l t := by
  obtain ⟨⟨v, hv, hvs⟩, hle⟩ := hr
  exact ⟨⟨v, hv, hvs.trans hst⟩,
    hle.trans (weightOf_mono (p := (· ≤ s)) (q := (· ≤ t)) hw fun u _ hus => hus.trans hst)⟩

/-- The median is below exactly the thresholds that carry the weight. -/
lemma IsMedian.le_iff (hw : ∀ v ∈ l, 0 ≤ v.2) {h : ℤ} {m t : α} (hm : IsMedian h l m) :
    m ≤ t ↔ Reaches h l t :=
  ⟨fun hmt => hm.1.mono hw hmt, fun hr => hm.2 hr⟩

end Weights

/-- **Characterisation of the median by lower sets.** In a sorted list with nonnegative weights the
running weight reaches `h` at a value of the lower set `p` exactly when `p` holds of some value
and the values of `p` carry `h` on top of the starting weight. -/
theorem firstReaching_lower_iff {h : ℤ} {p : α → Prop} [DecidablePred p]
    (hp : ∀ x y, x ≤ y → p y → p x) : ∀ {l : List (α × ℤ)} {acc : ℤ},
    l.Pairwise (fun v w => v.1 ≤ w.1) → (∀ v ∈ l, 0 ≤ v.2) →
    ((∃ x, firstReaching h acc l = some x ∧ p x)
      ↔ (∃ v ∈ l, p v.1) ∧ h ≤ acc + weightOf p l)
  | [], acc, _, _ => by simp [firstReaching]
  | v :: l, acc, hs, hw => by
      obtain ⟨hle, hs'⟩ := List.pairwise_cons.mp hs
      have hw' : ∀ u ∈ l, 0 ≤ u.2 := fun u hu => hw u (List.mem_cons_of_mem v hu)
      have hnn := weightOf_nonneg (p := p) hw'
      -- `v` carries the least value, so it decides whether `p` holds of any value
      have hex : (∃ u ∈ v :: l, p u.1) ↔ p v.1 := by
        constructor
        · rintro ⟨u, hu, hpu⟩
          rcases List.mem_cons.mp hu with rfl | hu'
          · exact hpu
          · exact hp _ _ (hle u hu') hpu
        · exact fun hpv => ⟨v, by simp, hpv⟩
      rw [hex, weightOf_cons, firstReaching]
      by_cases hreach : h ≤ acc + v.2
      · rw [if_pos hreach]
        constructor
        · rintro ⟨x, hx, hpx⟩
          obtain rfl := Option.some.inj hx
          exact ⟨hpx, by rw [if_pos hpx]; omega⟩
        · rintro ⟨hpv, -⟩
          exact ⟨v.1, rfl, hpv⟩
      · rw [if_neg hreach, firstReaching_lower_iff hp hs' hw']
        by_cases hpv : p v.1
        · rw [if_pos hpv]
          constructor
          · rintro ⟨-, hge⟩
            exact ⟨hpv, by omega⟩
          · rintro ⟨-, hge⟩
            refine ⟨?_, by omega⟩
            -- the level is passed after `v`, so the rest has weight in `p`
            by_contra hnone
            have hzero := weightOf_eq_zero (l := l) (p := p) fun u hu hpu => hnone ⟨u, hu, hpu⟩
            omega
        · rw [if_neg hpv]
          constructor
          · rintro ⟨⟨u, hu, hpu⟩, -⟩
            exact absurd (hp _ _ (hle u hu) hpu) hpv
          · rintro ⟨hpv', -⟩
            exact absurd hpv' hpv

/-- **Threshold characterisation of the median.** In a sorted list with nonnegative weights the
running weight reaches `h` at a value `≤ t` exactly when the values `≤ t` are there and carry
`h` on top of the starting weight. -/
theorem firstReaching_le_iff {h : ℤ} {t : α} {l : List (α × ℤ)} {acc : ℤ}
    (hs : l.Pairwise fun v w => v.1 ≤ w.1) (hw : ∀ v ∈ l, 0 ≤ v.2) :
    (∃ x, firstReaching h acc l = some x ∧ x ≤ t)
      ↔ (∃ v ∈ l, v.1 ≤ t) ∧ h ≤ acc + weightUpTo t l :=
  firstReaching_lower_iff (fun _ _ hxy hy => hxy.trans hy) hs hw

/-- **Majorities.** In a sorted list with nonnegative weights, let the values of the interval `I`
carry at least the level `h` and occur. The running weight reaches `h` in `I` unless some value
lies below all of `I` in the list, and the values there carry `h` already. -/
theorem firstReaching_mem_iff {h : ℤ} {l : List (α × ℤ)} {x : α}
    (hs : l.Pairwise fun v w => v.1 ≤ w.1) (hw : ∀ v ∈ l, 0 ≤ v.2)
    (hx : firstReaching h 0 l = some x) (hmem : ∃ v ∈ l, v.1 = x) {I : Set α}
    [DecidablePred (· ∈ I)] (hI : I.OrdConnected) (hne : ∃ v ∈ l, v.1 ∈ I)
    (hmaj : h ≤ weightOf (· ∈ I) l) :
    x ∈ I ↔ ¬ ((∃ v ∈ l, IsBelow I l v.1) ∧ h ≤ weightOf (IsBelow I l) l) := by
  have hbelow : IsBelow I l x ↔ (∃ v ∈ l, IsBelow I l v.1) ∧ h ≤ weightOf (IsBelow I l) l := by
    rw [← zero_add (weightOf _ l), ← firstReaching_lower_iff (IsBelow.lower I l) hs hw, hx]
    simp
  -- the values up to the interval carry the level, so the median is not above it
  have hupto : ∃ u ∈ l, u.1 ∈ I ∧ x ≤ u.1 := by
    have hreach : ∃ y, firstReaching h 0 l = some y ∧ ∃ u ∈ l, u.1 ∈ I ∧ y ≤ u.1 := by
      obtain ⟨v, hv, hvI⟩ := hne
      refine (firstReaching_lower_iff ?_ hs hw).mpr ⟨⟨v, hv, v, hv, hvI, le_rfl⟩, ?_⟩
      · rintro y z hyz ⟨u, hu, huI, hzu⟩
        exact ⟨u, hu, huI, hyz.trans hzu⟩
      · rw [zero_add]
        exact hmaj.trans (weightOf_mono hw fun u hu huI => ⟨u, hu, huI, le_rfl⟩)
    obtain ⟨y, hy, hyI⟩ := hreach
    obtain rfl := Option.some.inj (hx.symm.trans hy)
    exact hyI
  rw [← hbelow]
  constructor
  · intro hxI hlt
    obtain ⟨v, hv, rfl⟩ := hmem
    exact lt_irrefl _ (hlt v hv hxI)
  · intro hnot
    rw [IsBelow] at hnot
    push Not at hnot
    obtain ⟨u, hu, huI, hux⟩ := hnot
    obtain ⟨w, hw', hwI, hxw⟩ := hupto
    exact hI.out huI hwI ⟨hux, hxw⟩

/-- The first value that reaches the level in a sorted list is the median. -/
lemma isMedian_of_firstReaching {h : ℤ} {l : List (α × ℤ)} {x : α}
    (hs : l.Pairwise fun v w => v.1 ≤ w.1) (hw : ∀ v ∈ l, 0 ≤ v.2)
    (hx : firstReaching h 0 l = some x) : IsMedian h l x := by
  have hle : ∀ t, x ≤ t ↔ Reaches h l t := fun t => by
    rw [Reaches, ← zero_add (weightUpTo t l), ← firstReaching_le_iff hs hw, hx]
    simp
  exact ⟨(hle x).mp le_rfl, fun t ht => (hle t).mpr ht⟩

/-- **The median splits the weight.** A positive level is first reached at a value with weight of
its own: the values below it stay under the level, and with it they carry the level. -/
theorem firstReaching_splits {h : ℤ} (hpos : 0 < h) {l : List (α × ℤ)} {x : α}
    (hs : l.Pairwise fun v w => v.1 ≤ w.1) (hw : ∀ v ∈ l, 0 ≤ v.2)
    (hx : firstReaching h 0 l = some x) :
    weightOf (· < x) l < h ∧ h ≤ weightOf (· ≤ x) l ∧ ∃ v ∈ l, v.1 = x ∧ 0 < v.2 := by
  have hupto : h ≤ weightOf (· ≤ x) l := (isMedian_of_firstReaching hs hw hx).1.2
  have hbelow : weightOf (· < x) l < h := by
    by_contra hge
    have hex : ∃ v ∈ l, v.1 < x := by
      by_contra hnone
      push Not at hnone
      have hzero := weightOf_eq_zero (l := l) (p := (· < x)) fun v hv => not_lt.mpr (hnone v hv)
      omega
    have hreach : h ≤ 0 + weightOf (· < x) l := by omega
    -- otherwise the level was reached before `x`
    obtain ⟨y, hy, hyx⟩ := (firstReaching_lower_iff
      (fun _ _ hyz hz => hyz.trans_lt hz) hs hw).mpr ⟨hex, hreach⟩
    obtain rfl := Option.some.inj (hx.symm.trans hy)
    exact lt_irrefl _ hyx
  obtain ⟨v, hv, hle, hnlt, hv0⟩ := exists_pos_of_weightOf_lt hw (hbelow.trans_le hupto)
  exact ⟨hbelow, hupto, v, hv, le_antisymm hle (not_lt.mp hnlt), hv0⟩

omit [LinearOrder α] in
/-- The level is reached in a nonempty list that carries it. -/
lemma exists_firstReaching {h : ℤ} : ∀ {l : List (α × ℤ)} {acc : ℤ}, l ≠ [] →
    h ≤ acc + weight l → ∃ v ∈ l, firstReaching h acc l = some v.1
  | [], _, hne, _ => absurd rfl hne
  | v :: l, acc, _, hreach => by
      rw [firstReaching]
      by_cases hv : h ≤ acc + v.2
      · exact ⟨v, by simp, by rw [if_pos hv]⟩
      · rw [if_neg hv]
        rw [weight_cons] at hreach
        have hne : l ≠ [] := by
          rintro rfl
          simp [weight] at hreach
          omega
        have hrest : h ≤ acc + v.2 + weight l := by omega
        obtain ⟨u, hu, hx⟩ := exists_firstReaching hne hrest
        exact ⟨u, List.mem_cons_of_mem v hu, hx⟩

end WeightedMedian
