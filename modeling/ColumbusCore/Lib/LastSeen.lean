import Mathlib.Tactic

/-!
Limits by the time last seen.

A limiter keeps, for each key, the time it last let the key through, and lets a key through at any
time but that one.

* `Passed`: a sequence of keys with their times, all let through;
* `passed_at_iff`: a sequence at one time;
* `Passed.nodup`: **in the order of time, no key passes twice at one time**.
-/

namespace LastSeen

variable {κ τ : Type} [DecidableEq κ] {last last' last'' : κ → Option τ} {k : κ} {t : τ}
  {l l' : List (κ × τ)}

/-- The keys of the list pass at their times, one after the other. -/
inductive Passed : (κ → Option τ) → List (κ × τ) → (κ → Option τ) → Prop where
  | nil (last : κ → Option τ) : Passed last [] last
  | cons {last last' : κ → Option τ} {k : κ} {t : τ} {l : List (κ × τ)} (fresh : last k ≠ some t)
      (rest : Passed (Function.update last k (some t)) l last') : Passed last ((k, t) :: l) last'

lemma Passed.append (h : Passed last l last') (h' : Passed last' l' last'') :
    Passed last (l ++ l') last'' := by
  induction h with
  | nil => exact h'
  | cons fresh _ ih => exact .cons fresh (ih h')

/-- A sequence at one time: the keys are distinct, none of them was last seen at that time, and all of
them are afterwards. -/
lemma passed_at_iff {keys : List κ} : Passed last (keys.map fun k => (k, t)) last'
    ↔ (∀ k ∈ keys, last k ≠ some t) ∧ keys.Nodup
      ∧ last' = fun k => if k ∈ keys then some t else last k := by
  induction keys generalizing last with
  | nil =>
      constructor
      · rintro ⟨⟩
        simp
      · rintro ⟨-, -, rfl⟩
        simpa using Passed.nil last
  | cons key keys ih =>
      have hlast : (fun k => if k ∈ keys then some t else Function.update last key (some t) k)
          = fun k => if k ∈ key :: keys then some t else last k := by
        funext k
        by_cases hk : k = key
        · simp [hk]
        · simp [hk]
      constructor
      · intro h
        cases h with
        | cons fresh rest =>
            obtain ⟨hfresh, hnodup, rfl⟩ := ih.mp rest
            have hkey : key ∉ keys := fun hmem => hfresh key hmem (Function.update_self ..)
            refine ⟨fun k hk => ?_, List.nodup_cons.mpr ⟨hkey, hnodup⟩, hlast⟩
            rcases List.mem_cons.mp hk with rfl | hk
            · exact fresh
            · have hne : k ≠ key := fun h => hkey (h ▸ hk)
              simpa [Function.update_of_ne hne] using hfresh k hk
      · rintro ⟨hfresh, hnodup, rfl⟩
        obtain ⟨hkey, hnodup⟩ := List.nodup_cons.mp hnodup
        refine .cons (hfresh key List.mem_cons_self) (ih.mpr ⟨fun k hk => ?_, hnodup, hlast.symm⟩)
        have hne : k ≠ key := fun h => hkey (h ▸ hk)
        rw [Function.update_of_ne hne]
        exact hfresh k (List.mem_cons_of_mem _ hk)

section Order

variable [PartialOrder τ]

/-- A key that was last seen at a time does not pass at that time while time does not go back. -/
lemma Passed.notMem (h : Passed last l last') (hlast : last k = some t) (hfrom : ∀ e ∈ l, t ≤ e.2)
    (hsorted : l.Pairwise fun e e' => e.2 ≤ e'.2) : (k, t) ∉ l := by
  induction h with
  | nil => exact List.not_mem_nil
  | @cons last last' k' t' l fresh rest ih =>
      obtain ⟨hhead, hsorted⟩ := List.pairwise_cons.mp hsorted
      intro hmem
      rcases List.mem_cons.mp hmem with heq | hmem
      · obtain ⟨rfl, rfl⟩ := Prod.mk.inj heq
        exact fresh hlast
      · by_cases hk : k = k'
        · -- the key passed at a later time
          obtain rfl : t' = t := le_antisymm (hhead _ hmem) (hfrom _ List.mem_cons_self)
          exact fresh (hk ▸ hlast)
        · exact ih (by rwa [Function.update_of_ne hk])
            (fun e he => hfrom e (List.mem_cons_of_mem _ he)) hsorted hmem

/-- **The limit.** In the order of time, no key passes twice at one time. -/
theorem Passed.nodup (h : Passed last l last') (hsorted : l.Pairwise fun e e' => e.2 ≤ e'.2) :
    l.Nodup := by
  induction h with
  | nil => exact List.nodup_nil
  | cons fresh rest ih =>
      obtain ⟨hhead, hsorted⟩ := List.pairwise_cons.mp hsorted
      exact List.nodup_cons.mpr
        ⟨rest.notMem (Function.update_self ..) hhead hsorted, ih hsorted⟩

end Order

end LastSeen
