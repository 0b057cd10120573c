import Mathlib.Data.List.Count
import Mathlib.Data.Fintype.BigOperators
import Mathlib.Logic.Function.Basic

/-!
Threads on a shared state.

Each thread has a state of its own and takes one atomic step at a time on the state they share. A
schedule says whose turn it is, so that the schedules are the interleavings; a thread that cannot
take a step lets its turn pass.

* `Threads.turn`, `Threads.run`: one turn, and the turns of a schedule;
* `Threads.run_invariant`: **what every step keeps holds after every schedule**;
* `Threads.Alone`: the turns of one thread, which compose (`Threads.Alone.tail`,
  `Threads.Alone.trans`) and leave the others where they were;
* `Threads.measure_run_le`: a measure that every step of a thread lowers falls by one in each of
  its turns, whatever the others do;
* `Threads.sum_step`: a sum over the threads after a step of one of them.
-/

/-- The state the threads share, and the state of each. -/
structure Threads (ι σ τ : Type) where
  shared : σ
  own : ι → τ

namespace Threads

variable {ι σ τ : Type} [DecidableEq ι] (step : σ → τ → Option (σ × τ))

/-- The turn of a thread. -/
def turn (c : Threads ι σ τ) (i : ι) : Threads ι σ τ :=
  match step c.shared (c.own i) with
  | some (s, t) => ⟨s, Function.update c.own i t⟩
  | none => c

/-- The turns of a schedule. -/
def run (c : Threads ι σ τ) (schedule : List ι) : Threads ι σ τ := schedule.foldl (turn step) c

variable {step} {c : Threads ι σ τ}

lemma turn_of_some {i : ι} {s : σ} {t : τ} (h : step c.shared (c.own i) = some (s, t)) :
    c.turn step i = ⟨s, Function.update c.own i t⟩ := by
  rw [turn, h]

lemma turn_of_none {i : ι} (h : step c.shared (c.own i) = none) : c.turn step i = c := by
  rw [turn, h]

lemma run_cons_of_some {i : ι} {s : σ} {t : τ} (h : step c.shared (c.own i) = some (s, t))
    (schedule : List ι) : c.run step (i :: schedule)
      = (⟨s, Function.update c.own i t⟩ : Threads ι σ τ).run step schedule := by
  rw [run, List.foldl_cons, turn_of_some h, run]

/-- Further steps of the thread whose turn it was. -/
lemma run_update_of_some {s s' : σ} {own : ι → τ} {i : ι} {t t' : τ} (h : step s t = some (s', t'))
    (schedule : List ι) :
    (⟨s, Function.update own i t⟩ : Threads ι σ τ).run step (i :: schedule)
      = (⟨s', Function.update own i t'⟩ : Threads ι σ τ).run step schedule := by
  have hstep : step s (Function.update own i t i) = some (s', t') := by rwa [Function.update_self]
  rw [run_cons_of_some hstep, Function.update_idem]

lemma run_append (schedule schedule' : List ι) :
    c.run step (schedule ++ schedule') = (c.run step schedule).run step schedule' :=
  List.foldl_append

theorem run_invariant {I : Threads ι σ τ → Prop}
    (hstep : ∀ (c : Threads ι σ τ) (i : ι) (s : σ) (t : τ), I c →
      step c.shared (c.own i) = some (s, t) → I ⟨s, Function.update c.own i t⟩)
    (h : I c) (schedule : List ι) : I (c.run step schedule) := by
  induction schedule generalizing c with
  | nil => exact h
  | cons i schedule ih =>
      refine ih ?_
      cases hi : step c.shared (c.own i) with
      | none =>
          rw [turn_of_none hi]
          exact h
      | some r =>
          rw [turn_of_some hi]
          exact hstep c i r.1 r.2 h hi

section Alone

variable (step) in
/-- Turns of one thread alone lead to the shared state `s` and its own state `t`. -/
def Alone (c : Threads ι σ τ) (i : ι) (s : σ) (t : τ) : Prop :=
  ∃ n, c.run step (List.replicate n i) = ⟨s, Function.update c.own i t⟩

variable {i : ι} {s s' : σ} {t t' : τ}

variable (step) in
lemma alone_refl (c : Threads ι σ τ) (i : ι) : c.Alone step i c.shared (c.own i) :=
  ⟨0, by rw [Function.update_eq_self]; rfl⟩

lemma Alone.tail (h : c.Alone step i s t) (hstep : step s t = some (s', t')) :
    c.Alone step i s' t' := by
  obtain ⟨n, hn⟩ := h
  refine ⟨n + 1, ?_⟩
  rw [List.replicate_succ', run_append, hn, run_update_of_some hstep]
  rfl

lemma Alone.trans (h : c.Alone step i s t)
    (h' : (⟨s, Function.update c.own i t⟩ : Threads ι σ τ).Alone step i s' t') :
    c.Alone step i s' t' := by
  obtain ⟨n, hn⟩ := h
  obtain ⟨m, hm⟩ := h'
  refine ⟨n + m, ?_⟩
  rw [List.replicate_add, run_append, hn, hm, Function.update_idem]

/-- The others are where they were. -/
lemma Alone.exists_run (h : c.Alone step i s t) :
    ∃ schedule c', c.run step schedule = c' ∧ c'.shared = s ∧ c'.own i = t
      ∧ ∀ j, j ≠ i → c'.own j = c.own j := by
  obtain ⟨n, hn⟩ := h
  exact ⟨_, _, hn, rfl, Function.update_self _ _ _, fun j hj => Function.update_of_ne hj _ _⟩

end Alone

section Measure

variable {μ : τ → ℕ} (hdown : ∀ s t s' t', step s t = some (s', t') → μ t' < μ t)
  (hstuck : ∀ s t, step s t = none → μ t = 0)

include hdown hstuck

lemma measure_turn_le (c : Threads ι σ τ) (i j : ι) :
    μ ((c.turn step j).own i) ≤ μ (c.own i) - [j].count i := by
  cases hj : step c.shared (c.own j) with
  | none =>
      rw [turn_of_none hj]
      by_cases hij : j = i
      · subst hij
        simp [hstuck _ _ hj]
      · simp [hij]
  | some r =>
      rw [turn_of_some hj]
      by_cases hij : j = i
      · subst hij
        have hlt := hdown _ _ _ _ hj
        simp only [Function.update_self, List.count_singleton_self]
        omega
      · simp [Function.update_of_ne (Ne.symm hij), hij]

/-- After its turns a thread has at least that much less to do. -/
theorem measure_run_le (c : Threads ι σ τ) (schedule : List ι) (i : ι) :
    μ ((c.run step schedule).own i) ≤ μ (c.own i) - schedule.count i := by
  induction schedule generalizing c with
  | nil => exact le_of_eq (by simp [run])
  | cons j schedule ih =>
      have hturn := measure_turn_le hdown hstuck c i j
      have hrest := ih (c.turn step j)
      have hrun : c.run step (j :: schedule) = (c.turn step j).run step schedule := rfl
      have hcount : (j :: schedule).count i = [j].count i + schedule.count i := by
        rw [← List.count_append, List.singleton_append]
      rw [hrun, hcount]
      omega

end Measure

/-- A sum over the threads, after a step of one of them. -/
lemma sum_step [Fintype ι] (own : ι → τ) (i : ι) (t : τ) (f : τ → ℕ) :
    ∑ j, f (Function.update own i t j) + f (own i) = ∑ j, f (own j) + f t := by
  have hnew : ∑ j, f (Function.update own i t j)
      = f t + ∑ j ∈ Finset.univ.erase i, f (own j) := by
    rw [← Finset.add_sum_erase _ _ (Finset.mem_univ i), Function.update_self]
    refine congrArg _ (Finset.sum_congr rfl fun j hj => ?_)
    rw [Function.update_of_ne (Finset.ne_of_mem_erase hj)]
  have hold := Finset.add_sum_erase Finset.univ (fun j => f (own j)) (Finset.mem_univ i)
  omega

end Threads
