import Mathlib.Tactic

/-!
Messages that hold messages.

A message of a transaction either has an effect of its own or wraps a list of messages, which may
wrap messages in turn. Leaves are of a type `α`, wrappers of a kind in `κ`.

* `MsgTree.leaves`, `MsgTree.leavesOf`: the messages at any depth, in the order of execution;
* `MsgTree.induction`: a wrapper has a property that its messages hand on to it;
* `MsgTree.mem_leavesOf_iff`: a message of a list is at top level or nested in one of its
  wrappers.
-/

/-- A message, or a wrapper of messages. -/
inductive MsgTree (κ α : Type) where
  | leaf (a : α)
  | node (k : κ) (msgs : List (MsgTree κ α))

namespace MsgTree

variable {κ α : Type}

/-- Induction over messages: a wrapper may use the property of the messages it holds. -/
@[elab_as_elim] theorem induction {P : MsgTree κ α → Prop} (leaf : ∀ a, P (.leaf a))
    (node : ∀ k msgs, (∀ t ∈ msgs, P t) → P (.node k msgs)) : ∀ t, P t :=
  @MsgTree.rec κ α P (fun ts => ∀ t ∈ ts, P t) leaf (fun k msgs ih => node k msgs ih)
    (by simp) (fun t ts ht hts => by simpa using ⟨ht, hts⟩)

mutual

/-- The messages in a message, at any depth. -/
def leaves : MsgTree κ α → List α
  | .leaf a => [a]
  | .node _ msgs => leavesOf msgs

/-- The messages in a list of messages, at any depth. -/
def leavesOf : List (MsgTree κ α) → List α
  | [] => []
  | t :: ts => leaves t ++ leavesOf ts

end

lemma leavesOf_eq_flatMap (ts : List (MsgTree κ α)) : leavesOf ts = ts.flatMap leaves := by
  induction ts with
  | nil => rfl
  | cons t ts ih => rw [leavesOf, ih, List.flatMap_cons]

lemma mem_leavesOf {a : α} {ts : List (MsgTree κ α)} :
    a ∈ leavesOf ts ↔ ∃ t ∈ ts, a ∈ t.leaves := by
  rw [leavesOf_eq_flatMap, List.mem_flatMap]

/-- The messages of a list that are wrapped. -/
def nestedIn (ts : List (MsgTree κ α)) : List α :=
  ts.flatMap fun t => match t with
    | .leaf _ => []
    | .node _ msgs => leavesOf msgs

/-- A message of a list is at top level or nested in one of its wrappers. -/
theorem mem_leavesOf_iff {a : α} {ts : List (MsgTree κ α)} :
    a ∈ leavesOf ts ↔ .leaf a ∈ ts ∨ a ∈ nestedIn ts := by
  rw [mem_leavesOf, nestedIn, List.mem_flatMap]
  constructor
  · rintro ⟨t, ht, ha⟩
    cases t with
    | leaf b =>
        obtain rfl := List.mem_singleton.mp ha
        exact .inl ht
    | node k msgs => exact .inr ⟨_, ht, ha⟩
  · rintro (ht | ⟨t, ht, ha⟩)
    · exact ⟨_, ht, List.mem_singleton.mpr rfl⟩
    · cases t with
      | leaf b => simp at ha
      | node k msgs => exact ⟨_, ht, ha⟩

end MsgTree
