import Mathlib.Tactic

/-!
Outcomes of Go calls, as results in `Except`.

A call either returns a value, returns an error, or panics; a panic and a returned error are
two different faults, and only the first is caught by `recover`. The rules below are the ones
every loop of a Go program is proved with:

* `bind_eq_ok`, `bind_eq_error`: a sequence of two calls taken apart;
* `foldlM_induction` (**the loop rule**): what one round of a loop preserves, the whole loop
  preserves, with the part of the list already visited at hand;
* `foldl_keepOnError` (**the history rule**): the same for a sequence of calls whose errors are
  dropped;
* `foldlM_op_eq_ok_iff`: a loop that adds up what its rounds compute;
* `exists_of_foldlM_error`: a loop that faults faults in one of its rounds;
* `FaultsIn.bind`, `FaultsIn.foldlM`: which faults a sequence of calls, or a loop, can end with;
* `foldlM_perm` (**the order rule**): a loop whose rounds commute does not see the order of its
  list, up to which of several faults comes first (`Agrees`).

The order in which a `range` loop visits a map is not specified; a `RangeOrder` is one choice
of it.
-/

namespace Go

/-- The causes of a panic. -/
inductive Panic where
  | overflow
  | divisionByZero
  | negativeAmount
  | negativeDifference
  | typeAssertion
  | outOfRange
  | nilDereference
  | raised (msg : String)
deriving DecidableEq, Repr

/-- How a call can fail: by a panic, or by a returned error. -/
inductive Fault where
  | panic (p : Panic)
  | error (msg : String)
deriving DecidableEq, Repr

/-- The outcome of a call. -/
abbrev Outcome := Except Fault

/-- A panic as an outcome. -/
def panicked {α : Type*} (p : Panic) : Outcome α := .error (.panic p)

/-- A returned error as an outcome. -/
def failed {α : Type*} (msg : String) : Outcome α := .error (.error msg)

/-- The description put before the text of a returned error; a panic passes. -/
def wrapError {α : Type*} (description : String) : Outcome α → Outcome α
  | .ok a => .ok a
  | .error (.error msg) => failed (description ++ ": " ++ msg)
  | .error (.panic p) => panicked p

@[simp] lemma wrapError_eq_ok_iff {α : Type*} {description : String} {x : Outcome α} {a : α} :
    wrapError description x = .ok a ↔ x = .ok a := by
  cases x with
  | ok a' => rfl
  | error e => cases e <;> simp [wrapError, failed, panicked]

/-- A check that returns an error where `bad` holds. -/
def failIf (bad : Prop) [Decidable bad] (msg : String) : Outcome Unit :=
  if bad then failed msg else .ok ()

/-- The state after a call whose error is dropped: that of a call that fails is kept. -/
def keepOnError {α : Type*} (s : α) : Outcome α → α
  | .ok s' => s'
  | .error _ => s

/-- An error is raised as a panic, with a text before its own. -/
def panicOnError {α : Type*} (msg : String) : Outcome α → Outcome α
  | .error (.error err) => .error (.panic (.raised (msg ++ err)))
  | r => r

/-- A call whose error the caller looks at and drops; a panic passes through. -/
def attempt {α : Type*} : Outcome α → Outcome (Option α)
  | .ok a => .ok (some a)
  | .error (.error _) => .ok none
  | .error (.panic p) => .error (.panic p)

/-- The outcome is a panic. -/
def Panics {α : Type*} (r : Outcome α) : Prop := ∃ p, r = .error (.panic p)

/-- Every fault the call can end with satisfies `P`. -/
def FaultsIn {α : Type*} (P : Fault → Prop) (x : Outcome α) : Prop := ∀ e, x = .error e → P e

/-- The outcome is a value that passes the test `p`. -/
def returns {α : Type*} (p : α → Bool) : Outcome α → Bool
  | .ok a => p a
  | .error _ => false

/-- The outcome is the panic `p`. -/
def panicsWith {α : Type*} (p : Panic) : Outcome α → Bool
  | .error (.panic p') => decide (p = p')
  | _ => false

/-- The outcome is the returned error `msg`. -/
def failsWith {α : Type*} (msg : String) : Outcome α → Bool
  | .error (.error msg') => decide (msg = msg')
  | _ => false

lemma panicOnError_eq_ok {α : Type*} {msg : String} {x : Outcome α} {a : α} :
    panicOnError msg x = .ok a ↔ x = .ok a := by
  cases x with
  | ok b => rfl
  | error e => cases e <;> simp [panicOnError]

lemma exists_of_returns {α : Type*} {p : α → Bool} {x : Outcome α} (h : returns p x = true) :
    ∃ a, x = .ok a ∧ p a = true := by
  cases x with
  | ok a => exact ⟨a, rfl, h⟩
  | error e => simp [returns] at h

lemma eq_of_panicsWith {α : Type*} {p : Panic} {x : Outcome α} (h : panicsWith p x = true) :
    x = .error (.panic p) := by
  cases x with
  | ok a => simp [panicsWith] at h
  | error e =>
      cases e with
      | panic p' => rw [of_decide_eq_true h]
      | error msg => simp [panicsWith] at h

lemma eq_of_failsWith {α : Type*} {msg : String} {x : Outcome α} (h : failsWith msg x = true) :
    x = .error (.error msg) := by
  cases x with
  | ok a => simp [failsWith] at h
  | error e =>
      cases e with
      | panic p => simp [failsWith] at h
      | error msg' => rw [of_decide_eq_true h]

/-- One order in which `range` may visit the entries of a map. -/
structure RangeOrder (α : Type) where
  visit : List α → List α
  perm : ∀ l, (visit l).Perm l

/-- The entries in the order they are listed in. -/
def RangeOrder.listed (α : Type) : RangeOrder α := ⟨id, fun l => List.Perm.refl l⟩

section Bind

universe u
variable {α β : Type u} {x : Outcome α} {f : α → Outcome β}

@[simp] lemma ok_bind (a : α) : ((.ok a : Outcome α) >>= f) = f a := rfl

@[simp] lemma error_bind (e : Fault) : ((.error e : Outcome α) >>= f) = .error e := rfl

@[simp] lemma pure_eq_ok (a : α) : (pure a : Outcome α) = .ok a := rfl

@[simp] lemma failed_ne_ok {msg : String} {a : α} : (failed msg : Outcome α) ≠ .ok a := by
  simp [failed]

@[simp] lemma panicked_ne_ok {p : Panic} {a : α} : (panicked p : Outcome α) ≠ .ok a := by
  simp [panicked]

lemma failIf_eq_ok {bad : Prop} [Decidable bad] {msg : String} :
    failIf bad msg = .ok () ↔ ¬ bad := by
  rw [failIf]
  split_ifs with h <;> simp [h]

/-- A check returns an error and does not panic. -/
lemma failIf_ne_panic {bad : Prop} [Decidable bad] {msg : String} {p : Panic} :
    failIf bad msg ≠ .error (.panic p) := by
  rw [failIf]
  split_ifs <;> simp [failed]

/-- A sequence of calls returns a value exactly when both calls do. -/
lemma bind_eq_ok {b : β} : (x >>= f) = .ok b ↔ ∃ a, x = .ok a ∧ f a = .ok b := by
  cases x with
  | error e => simp
  | ok a => simp

/-- A call without a result, and one after it. -/
lemma unit_bind_eq_ok {γ : Type} {x : Outcome Unit} {f : Unit → Outcome γ} {b : γ} :
    (x >>= f) = .ok b ↔ x = .ok () ∧ f () = .ok b := by
  rw [bind_eq_ok]
  exact ⟨fun ⟨_, hx, hf⟩ => ⟨hx, hf⟩, fun ⟨hx, hf⟩ => ⟨(), hx, hf⟩⟩

/-- A call after a check returns a value exactly when the check passes and the call does. -/
lemma failIf_bind_eq_ok {γ : Type} {bad : Prop} [Decidable bad] {msg : String}
    {f : Unit → Outcome γ} {b : γ} : (failIf bad msg >>= f) = .ok b ↔ ¬ bad ∧ f () = .ok b := by
  rw [failIf]
  split_ifs with h
  · simp [h, failed]
  · simp [h]

/-- A sequence of calls faults exactly when the first call does, or the second does on the
value of the first. -/
lemma bind_eq_error {e : Fault} :
    (x >>= f) = .error e ↔ x = .error e ∨ ∃ a, x = .ok a ∧ f a = .error e := by
  cases x with
  | error e' => simp
  | ok a => simp

/-- A sequence of calls does not end with `e` where neither call does. -/
lemma bind_ne_error {e : Fault} (hx : x ≠ .error e) (hf : ∀ a, x = .ok a → f a ≠ .error e) :
    (x >>= f) ≠ .error e := by
  intro h
  rcases bind_eq_error.mp h with h | ⟨a, ha, h⟩
  · exact hx h
  · exact hf a ha h

lemma faultsIn_ok {P : Fault → Prop} (a : α) : FaultsIn P (.ok a : Outcome α) := by
  intro e h
  exact absurd h (by simp)

/-- The faults of a sequence of calls are those of the calls. -/
lemma FaultsIn.bind {P : Fault → Prop} (hx : FaultsIn P x)
    (hf : ∀ a, x = .ok a → FaultsIn P (f a)) : FaultsIn P (x >>= f) := by
  intro e h
  rcases bind_eq_error.mp h with h | ⟨a, ha, h⟩
  · exact hx e h
  · exact hf a ha e h

/-- A caller that drops errors is left with the panics. -/
lemma FaultsIn.attempt {p : Panic} (hx : ∀ p', x = .error (.panic p') → p' = p) :
    FaultsIn (· = .panic p) (attempt x) := by
  intro e h
  cases x with
  | ok a => simp [Go.attempt] at h
  | error e' =>
      cases e' with
      | error msg => simp [Go.attempt] at h
      | panic p' =>
          obtain rfl := Except.error.inj h
          rw [hx p' rfl]

lemma attempt_eq_ok_iff {r : Option α} :
    attempt x = .ok r
      ↔ (∃ a, x = .ok a ∧ r = some a) ∨ (∃ msg, x = .error (.error msg) ∧ r = none) := by
  cases x with
  | ok a => simp [attempt, eq_comm]
  | error e => cases e <;> simp [attempt, eq_comm]

lemma map_eq_ok_iff {f : α → β} {b : β} : x.map f = .ok b ↔ ∃ a, x = .ok a ∧ f a = b := by
  cases x with
  | error e => simp [Except.map]
  | ok a => simp [Except.map]

lemma map_eq_error_iff {f : α → β} {e : Fault} : x.map f = .error e ↔ x = .error e := by
  cases x with
  | error e => simp [Except.map]
  | ok a => simp [Except.map]

end Bind

/-! ### Loops -/

section Loop

variable {α β : Type} {f : β → α → Outcome β}

lemma foldlM_cons_eq_ok {a : α} {l : List α} {b b' : β} :
    (a :: l).foldlM f b = .ok b' ↔ ∃ c, f b a = .ok c ∧ l.foldlM f c = .ok b' := by
  rw [List.foldlM_cons, bind_eq_ok]

/-- **The loop rule.** A property of the visited part of the list and of the state, true
before the loop and kept by every round, holds after the loop. -/
theorem foldlM_induction (P : List α → β → Prop) {l : List α} {b b' : β}
    (hrun : l.foldlM f b = .ok b') (h0 : P [] b)
    (hstep : ∀ pre a post c c', l = pre ++ a :: post → P pre c → f c a = .ok c' →
      P (pre ++ [a]) c') : P l b' := by
  -- induction on the part still to visit, the visited part growing to the right
  have key : ∀ (post pre : List α) (c : β), l = pre ++ post → P pre c →
      post.foldlM f c = .ok b' → P l b' := by
    intro post
    induction post with
    | nil =>
        intro pre c hl hc hr
        rw [List.append_nil] at hl
        rw [List.foldlM_nil, pure_eq_ok, Except.ok.injEq] at hr
        rw [hl, ← hr]
        exact hc
    | cons a post ih =>
        intro pre c hl hc hr
        obtain ⟨c', hca, hr'⟩ := foldlM_cons_eq_ok.mp hr
        exact ih (pre ++ [a]) c' (by simp [hl]) (hstep pre a post c c' hl hc hca) hr'
  exact key l [] b rfl h0 hrun

/-- The loop rule for a loop that cannot fault. -/
theorem foldl_induction {f : β → α → β} (P : List α → β → Prop) {l : List α} {b : β}
    (h0 : P [] b)
    (hstep : ∀ pre a post c, l = pre ++ a :: post → P pre c → P (pre ++ [a]) (f c a)) :
    P l (l.foldl f b) := by
  have hrun : l.foldlM (fun c a => (.ok (f c a) : Outcome β)) b = .ok (l.foldl f b) :=
    List.foldlM_pure
  refine foldlM_induction P hrun h0 fun pre a post c c' hl hc hca => ?_
  obtain rfl := Except.ok.inj hca
  exact hstep pre a post c hl hc

/-- The loop rule for a property of the state alone. -/
theorem foldlM_invariant (P : β → Prop) {l : List α} {b b' : β}
    (hrun : l.foldlM f b = .ok b') (h0 : P b)
    (hstep : ∀ a ∈ l, ∀ c c', P c → f c a = .ok c' → P c') : P b' :=
  foldlM_induction (fun _ c => P c) hrun h0 fun pre a post c c' hl hc hca =>
    hstep a (by simp [hl]) c c' hc hca

/-- **The history rule.** What every call that succeeds preserves holds after a history of calls, of
which some may fail. -/
theorem foldl_keepOnError (P : β → Prop) {l : List α} {b : β} (h0 : P b)
    (hstep : ∀ a ∈ l, ∀ c c', P c → f c a = .ok c' → P c') :
    P (l.foldl (fun c a => keepOnError c (f c a)) b) := by
  refine List.foldlRecOn l _ h0 fun c hc a ha => ?_
  cases hrun : f c a with
  | error e => exact hc
  | ok c' => exact hstep a ha c c' hc hrun

/-- A loop that returns returned in each of its rounds. -/
lemma exists_round_of_foldlM {l : List α} {b b' : β} (hrun : l.foldlM f b = .ok b') :
    ∀ a ∈ l, ∃ c c', f c a = .ok c' := by
  refine foldlM_induction (fun pre _ => ∀ a ∈ pre, ∃ c c', f c a = .ok c') hrun (by simp) ?_
  intro pre a post c c' _ hpre hca a' ha'
  rcases List.mem_append.mp ha' with h | h
  · exact hpre a' h
  · rw [List.mem_singleton.mp h]
    exact ⟨c, c', hca⟩

/-- A loop that faults faults in one of its rounds, entered in a state the loop rule
describes. -/
theorem exists_of_foldlM_error (P : List α → β → Prop) {l : List α} {b : β} {e : Fault}
    (hrun : l.foldlM f b = .error e) (h0 : P [] b)
    (hstep : ∀ pre a post c c', l = pre ++ a :: post → P pre c → f c a = .ok c' →
      P (pre ++ [a]) c') :
    ∃ pre a post c, l = pre ++ a :: post ∧ P pre c ∧ f c a = .error e := by
  have key : ∀ (post pre : List α) (c : β), l = pre ++ post → P pre c →
      post.foldlM f c = .error e →
      ∃ pre a post c, l = pre ++ a :: post ∧ P pre c ∧ f c a = .error e := by
    intro post
    induction post with
    | nil => intro pre c _ _ hr; simp at hr
    | cons a post ih =>
        intro pre c hl hc hr
        rw [List.foldlM_cons, bind_eq_error] at hr
        rcases hr with hr | ⟨c', hca, hr⟩
        · exact ⟨pre, a, post, c, hl, hc, hr⟩
        · exact ih (pre ++ [a]) c' (by simp [hl]) (hstep pre a post c c' hl hc hca) hr
  exact key l [] b rfl h0 hrun

/-- A loop none of whose rounds faults with `e` does not fault with `e`. -/
theorem foldlM_ne_error (P : β → Prop) {l : List α} {b : β} {e : Fault} (h0 : P b)
    (hstep : ∀ a ∈ l, ∀ c c', P c → f c a = .ok c' → P c')
    (hne : ∀ a ∈ l, ∀ c, P c → f c a ≠ .error e) : l.foldlM f b ≠ .error e := by
  intro hrun
  obtain ⟨pre, a, post, c, hl, hc, he⟩ := exists_of_foldlM_error (fun _ c => P c) hrun h0
    fun pre a post c c' hl hc hca => hstep a (by simp [hl]) c c' hc hca
  exact hne a (by simp [hl]) c hc he

/-- A loop none of whose rounds faults with `e`, in the state the rounds before it leave, does not
fault with `e`. -/
theorem foldlM_ne_error_of_rounds {l : List α} {b : β} {e : Fault}
    (hne : ∀ pre a post c, l = pre ++ a :: post → pre.foldlM f b = .ok c → f c a ≠ .error e) :
    l.foldlM f b ≠ .error e := by
  intro hrun
  obtain ⟨pre, a, post, c, hl, hc, he⟩ :=
    exists_of_foldlM_error (fun pre c => pre.foldlM f b = .ok c) hrun rfl
      fun pre a post c c' _ hc hca => by
        rw [List.foldlM_append, hc, ok_bind, List.foldlM_cons, hca, ok_bind]
        rfl
  exact hne pre a post c hl hc he

/-- The faults of a loop are those of its rounds. -/
theorem FaultsIn.foldlM {P : Fault → Prop} {l : List α} {b : β}
    (h : ∀ a ∈ l, ∀ c, FaultsIn P (f c a)) : FaultsIn P (l.foldlM f b) := by
  intro e hrun
  obtain ⟨pre, a, post, c, hl, -, he⟩ := exists_of_foldlM_error (fun _ _ => True) hrun trivial
    fun _ _ _ _ _ _ _ _ => trivial
  exact h a (by simp [hl]) c e he

end Loop

/-! ### Loops that accumulate -/

section Accumulate

variable {α β : Type} {op : β → β → β} {body : α → Outcome β} {step : β → α → Outcome β}

/-- A loop that adds up starts from anywhere. -/
lemma foldlM_op (hassoc : ∀ a b c, op (op a b) c = op a (op b c))
    (hstep : ∀ acc x, step acc x = (body x).map (op acc)) (a b : β) (l : List α) :
    l.foldlM step (op a b) = (l.foldlM step b).map (op a) := by
  induction l generalizing b with
  | nil => rfl
  | cons x l ih =>
      rw [List.foldlM_cons, List.foldlM_cons, hstep, hstep]
      cases body x with
      | error e => rfl
      | ok y =>
          show l.foldlM step (op (op a b) y) = (l.foldlM step (op b y)).map (op a)
          rw [hassoc, ih]

/-- **A loop that adds up** returns exactly when the body of every round does, and then the sum of
their results. -/
theorem foldlM_op_eq_ok_iff (hstep : ∀ acc x, step acc x = (body x).map (op acc)) {l : List α}
    {acc r : β} : l.foldlM step acc = .ok r ↔ ∃ t : α → β, (∀ x ∈ l, body x = .ok (t x))
      ∧ r = l.foldl (fun acc x => op acc (t x)) acc := by
  have hrun : ∀ (t : α → β) (l : List α), (∀ x ∈ l, body x = .ok (t x)) → ∀ acc,
      l.foldlM step acc = .ok (l.foldl (fun acc x => op acc (t x)) acc) := by
    intro t l ht
    induction l with
    | nil => intro acc; rfl
    | cons x l ih =>
        intro acc
        rw [List.foldlM_cons, hstep, ht x List.mem_cons_self]
        exact ih (fun y hy => ht y (List.mem_cons_of_mem x hy)) (op acc (t x))
  have hbody : ∀ (l : List α) (acc : β), l.foldlM step acc = .ok r →
      ∀ x ∈ l, ∃ y, body x = .ok y := by
    intro l
    induction l with
    | nil => simp
    | cons x l ih =>
        intro acc h y hy
        obtain ⟨acc₁, hx, h⟩ := foldlM_cons_eq_ok.mp h
        rw [hstep] at hx
        obtain ⟨z, hz, -⟩ := map_eq_ok_iff.mp hx
        rcases List.mem_cons.mp hy with rfl | hy
        · exact ⟨z, hz⟩
        · exact ih acc₁ h y hy
  constructor
  · intro h
    have : Nonempty β := ⟨acc⟩
    choose! t ht using hbody l acc h
    rw [hrun t l ht] at h
    exact ⟨t, ht, (Except.ok.inj h).symm⟩
  · rintro ⟨t, ht, rfl⟩
    exact hrun t l ht acc

end Accumulate

/-! ### Loops in another order -/

section Agree

universe u
variable {α β : Type u}

/-- Two outcomes agree: both are the same value, or both are faults. -/
def Agrees (x y : Outcome α) : Prop := ∀ a, x = .ok a ↔ y = .ok a

lemma Agrees.refl (x : Outcome α) : Agrees x x := fun _ => Iff.rfl

lemma Agrees.symm {x y : Outcome α} (h : Agrees x y) : Agrees y x := fun a => (h a).symm

lemma Agrees.trans {x y z : Outcome α} (h : Agrees x y) (h' : Agrees y z) : Agrees x z :=
  fun a => (h a).trans (h' a)

lemma Agrees.of_eq {x y : Outcome α} (h : x = y) : Agrees x y := h ▸ Agrees.refl x

/-- Two faults agree. -/
lemma agrees_error (e e' : Fault) : Agrees (.error e : Outcome α) (.error e') := by
  simp [Agrees]

/-- A call that is followed by a fault agrees with any fault. -/
lemma agrees_bind_error {x : Outcome α} {f : α → Outcome β} {e : Fault}
    (hf : ∀ a, x = .ok a → Agrees (f a) (.error e)) : Agrees (x >>= f) (.error e) := by
  cases x with
  | ok a => exact hf a rfl
  | error e' => exact agrees_error e' e

/-- Calls that agree, followed by calls that agree on every value of the first, agree. -/
lemma Agrees.bind {x y : Outcome α} {f g : α → Outcome β} (h : Agrees x y)
    (hfg : ∀ a, x = .ok a → Agrees (f a) (g a)) : Agrees (x >>= f) (y >>= g) := by
  intro b
  rw [bind_eq_ok, bind_eq_ok]
  constructor
  · rintro ⟨a, ha, hb⟩
    exact ⟨a, (h a).mp ha, (hfg a ha b).mp hb⟩
  · rintro ⟨a, ha, hb⟩
    exact ⟨a, (h a).mpr ha, (hfg a ((h a).mpr ha) b).mpr hb⟩

/-- Two calls whose values are not used by one another may be exchanged. -/
lemma agrees_bind_comm {γ : Type u} (x : Outcome α) (y : Outcome β) (f : α → β → Outcome γ) :
    Agrees (x >>= fun a => y >>= fun b => f a b) (y >>= fun b => x >>= fun a => f a b) := by
  cases x with
  | ok a => exact Agrees.refl _
  | error e =>
      cases y with
      | ok b => exact Agrees.refl _
      | error e' => exact agrees_error e e'

end Agree

/-- Loops over the same list whose rounds agree, agree. -/
lemma foldlM_agrees {α β : Type} {f g : β → α → Outcome β} {l : List α}
    (h : ∀ a ∈ l, ∀ b, Agrees (f b a) (g b a)) (b : β) :
    Agrees (l.foldlM f b) (l.foldlM g b) := by
  induction l generalizing b with
  | nil => exact Agrees.refl _
  | cons a l ih =>
      rw [List.foldlM_cons, List.foldlM_cons]
      exact (h a (by simp) b).bind fun c _ => ih (fun a' ha' => h a' (List.mem_cons_of_mem a ha')) c

/-- **The order rule.** Where any two rounds of a loop can be exchanged, the loop gives the same
value in every order of the list, or faults in every order. -/
theorem foldlM_perm {α β : Type} {f : β → α → Outcome β} {l l' : List α} (hp : l.Perm l')
    (hcomm : l.Pairwise fun a a' => ∀ b, Agrees (f b a >>= fun c => f c a')
      (f b a' >>= fun c => f c a)) (b : β) : Agrees (l.foldlM f b) (l'.foldlM f b) := by
  induction hp generalizing b with
  | nil => exact Agrees.refl _
  | cons a _ ih =>
      rw [List.foldlM_cons, List.foldlM_cons]
      exact (Agrees.refl _).bind fun c _ => ih (List.pairwise_cons.mp hcomm).2 c
  | swap a a' l =>
      rw [List.foldlM_cons, List.foldlM_cons]
      simp only [List.foldlM_cons, ← bind_assoc]
      refine Agrees.bind ?_ fun c _ => Agrees.refl _
      exact (List.pairwise_cons.mp hcomm).1 a (by simp) b
  | trans h₁ _ ih₁ ih₂ =>
      refine (ih₁ hcomm b).trans (ih₂ (h₁.pairwise hcomm fun hab c => (hab c).symm) b)

/-! ### Loops that check or build a list -/

section Collect

variable {α β : Type}

/-- A check made on every element of a list that returns held for each of them. -/
lemma forM_eq_ok {f : α → Outcome Unit} {l : List α} (h : l.forM f = .ok ()) :
    ∀ a ∈ l, f a = .ok () := by
  induction l with
  | nil => simp
  | cons a l ih =>
      obtain ⟨_, ha, hl⟩ := bind_eq_ok.mp h
      intro b hb
      rcases List.mem_cons.mp hb with rfl | hb
      · exact ha
      · exact ih hl b hb

/-- And one that holds for each of them returns. -/
lemma forM_eq_ok_of_forall {f : α → Outcome Unit} {l : List α} (h : ∀ a ∈ l, f a = .ok ()) :
    l.forM f = .ok () := by
  induction l with
  | nil => rfl
  | cons a l ih =>
      obtain ⟨ha, hl⟩ := List.forall_mem_cons.mp h
      exact bind_eq_ok.mpr ⟨(), ha, ih hl⟩

/-- A loop that collects results faults at one of its elements. -/
lemma exists_of_mapM_error {f : α → Outcome β} {l : List α} {e : Fault}
    (h : l.mapM f = .error e) : ∃ a ∈ l, f a = .error e := by
  induction l with
  | nil => exact absurd h (by simp)
  | cons a l ih =>
      rw [List.mapM_cons] at h
      rcases bind_eq_error.mp h with h | ⟨b, -, h⟩
      · exact ⟨a, by simp, h⟩
      · rcases bind_eq_error.mp h with h | ⟨bs, -, h⟩
        · obtain ⟨a', ha', he⟩ := ih h
          exact ⟨a', List.mem_cons_of_mem _ ha', he⟩
        · exact absurd h (by simp)

lemma mapM_cons_eq_ok {f : α → Outcome β} {a : α} {l : List α} {cs : List β} :
    (a :: l).mapM f = .ok cs ↔ ∃ b bs, f a = .ok b ∧ l.mapM f = .ok bs ∧ cs = b :: bs := by
  rw [List.mapM_cons, bind_eq_ok]
  constructor
  · rintro ⟨b, hb, h⟩
    obtain ⟨bs, hbs, h⟩ := bind_eq_ok.mp h
    exact ⟨b, bs, hb, hbs, (Except.ok.inj h).symm⟩
  · rintro ⟨b, bs, hb, hbs, rfl⟩
    exact ⟨b, hb, bind_eq_ok.mpr ⟨bs, hbs, rfl⟩⟩

/-- The collected results are results of elements of the list. -/
lemma exists_of_mem_mapM {f : α → Outcome β} {l : List α} {bs : List β} (h : l.mapM f = .ok bs) :
    ∀ b ∈ bs, ∃ a ∈ l, f a = .ok b := by
  induction l generalizing bs with
  | nil =>
      obtain rfl := Except.ok.inj h
      simp
  | cons a l ih =>
      obtain ⟨b, bs', hb, hbs', rfl⟩ := mapM_cons_eq_ok.mp h
      refine List.forall_mem_cons.mpr ⟨⟨a, by simp, hb⟩, fun c hc => ?_⟩
      obtain ⟨a', ha', hc⟩ := ih hbs' c hc
      exact ⟨a', List.mem_cons_of_mem a ha', hc⟩

/-- The same elements in another order give the same results in another order. -/
lemma exists_mapM_perm {f : α → Outcome β} {l l' : List α} (hp : l.Perm l') {bs : List β}
    (h : l.mapM f = .ok bs) : ∃ bs', l'.mapM f = .ok bs' ∧ bs.Perm bs' := by
  induction hp generalizing bs with
  | nil => exact ⟨bs, h, List.Perm.refl bs⟩
  | cons a _ ih =>
      obtain ⟨b, cs, hb, hcs, rfl⟩ := mapM_cons_eq_ok.mp h
      obtain ⟨cs', hcs', hperm⟩ := ih hcs
      exact ⟨b :: cs', mapM_cons_eq_ok.mpr ⟨b, cs', hb, hcs', rfl⟩, hperm.cons b⟩
  | swap a a' l =>
      obtain ⟨b', cs, hb', hcs, rfl⟩ := mapM_cons_eq_ok.mp h
      obtain ⟨b, ds, hb, hds, rfl⟩ := mapM_cons_eq_ok.mp hcs
      exact ⟨b :: b' :: ds, mapM_cons_eq_ok.mpr ⟨b, b' :: ds, hb,
        mapM_cons_eq_ok.mpr ⟨b', ds, hb', hds, rfl⟩, rfl⟩, List.Perm.swap b b' ds⟩
  | trans _ _ ih₁ ih₂ =>
      obtain ⟨cs, hcs, hperm⟩ := ih₁ h
      obtain ⟨ds, hds, hperm'⟩ := ih₂ hcs
      exact ⟨ds, hds, hperm.trans hperm'⟩

/-- A loop whose rounds compute something of their own and then update the state: the computations
can be made first. -/
lemma foldlM_eq_mapM {γ : Type} {f : β → α → Outcome β} {g : α → Outcome γ} {u : β → γ → β}
    (hf : ∀ b a, f b a = g a >>= fun c => .ok (u b c)) (l : List α) (b : β) :
    l.foldlM f b = l.mapM g >>= fun cs => .ok (cs.foldl u b) := by
  induction l generalizing b with
  | nil => rfl
  | cons a l ih =>
      rw [List.foldlM_cons, List.mapM_cons, hf]
      cases g a with
      | error e => rfl
      | ok c =>
          rw [ok_bind, ok_bind, ok_bind, ih]
          cases l.mapM g with
          | error e => rfl
          | ok cs => rfl

/-- A loop that collects one result for each element, where every round returns under a
condition and otherwise ends with the same fault. -/
lemma mapM_of_ite {f : α → Outcome β} {p : α → Prop} [DecidablePred p] {g : α → β} {e : Fault}
    (hf : ∀ a, f a = if p a then .ok (g a) else .error e) (l : List α) :
    l.mapM f = if ∀ a ∈ l, p a then .ok (l.map g) else .error e := by
  induction l with
  | nil => simp
  | cons a l ih =>
      rw [List.mapM_cons, hf a, ih]
      by_cases ha : p a
      · by_cases hl : ∀ b ∈ l, p b
        · have hall : ∀ b ∈ a :: l, p b := List.forall_mem_cons.mpr ⟨ha, hl⟩
          rw [if_pos ha, if_pos hl, if_pos hall]
          rfl
        · have hall : ¬ ∀ b ∈ a :: l, p b := fun h => hl (List.forall_mem_cons.mp h).2
          rw [if_pos ha, if_neg hl, if_neg hall]
          rfl
      · have hall : ¬ ∀ b ∈ a :: l, p b := fun h => ha (List.forall_mem_cons.mp h).1
        rw [if_neg ha, if_neg hall]
        rfl

end Collect

end Go
