import ColumbusCore.Lib.Maps

/-!
Queues with an index.

A linked list of elements with a map from keys to elements. An element is known by its identity,
that of the place it is stored at, and its value never changes; the map tells nothing about
elements it does not hold. Storing an element under a key that is in the map takes the earlier one
out of the map and not out of the list.

* `IndexedQueue.push`, `IndexedQueue.take`: an element added at the end, and the element of a key
  removed;
* `IndexedQueue.Valid`: what holds in every queue: an indexed element is in the list, under its
  own key;
* `IndexedQueue.Matched`: every element is indexed; `matched_iff_oneToOne`: the map is then in
  one-to-one correspondence with the list;
* `IndexedQueue.matched_push_iff`, `IndexedQueue.matched_take_iff`: **an element once out of the
  map stays out of it**;
* `IndexedQueue.take_of_matched`: an indexed element can be removed by its key;
* `IndexedQueue.values_take`: where the keys are distinct, taking a key removes its value and keeps
  the order of the others;
* `IndexedQueue.pushBack`, `IndexedQueue.store`, `IndexedQueue.unindex`, `IndexedQueue.unlink`: the
  list and the map on their own, of which `push` and `take` are made.
-/

open Std (ExtTreeMap TransOrd LawfulEqOrd)

/-- An element of a queue. -/
structure Elem (α : Type) where
  id : ℕ
  value : α

/-- A queue, its index, and the identity of the next element. -/
structure IndexedQueue (κ α : Type) [Ord κ] where
  elems : List (Elem α)
  index : ExtTreeMap κ (Elem α)
  fresh : ℕ

namespace IndexedQueue

variable {κ α : Type} [Ord κ]

/-- The queue without elements. -/
def empty : IndexedQueue κ α := ⟨[], ∅, 0⟩

/-- The values in the queue, the oldest first. -/
def values (q : IndexedQueue κ α) : List α := q.elems.map Elem.value

variable [TransOrd κ]

/-- A value at the end of the queue, indexed under a key. -/
def push (q : IndexedQueue κ α) (k : κ) (a : α) : IndexedQueue κ α :=
  ⟨q.elems ++ [⟨q.fresh, a⟩], q.index.insert k ⟨q.fresh, a⟩, q.fresh + 1⟩

/-- The element of a key removed from the map and from the list. -/
def take (q : IndexedQueue κ α) (k : κ) : Option (IndexedQueue κ α) :=
  q.index[k]?.map fun e =>
    ⟨q.elems.filter fun x => x.id ≠ e.id, q.index.erase k, q.fresh⟩

/-- What holds in every queue whose values are stored under their keys. -/
structure Valid (key : α → κ) (q : IndexedQueue κ α) : Prop where
  lt_fresh : ∀ e ∈ q.elems, e.id < q.fresh
  distinct : (q.elems.map Elem.id).Nodup
  indexed : ∀ (k : κ) (e : Elem α), q.index[k]? = some e → e ∈ q.elems ∧ key e.value = k

/-- Every element is indexed under its key. -/
def Matched (key : α → κ) (q : IndexedQueue κ α) : Prop :=
  ∀ e ∈ q.elems, q.index[key e.value]? = some e

/-- The map and the list are in one-to-one correspondence: the map holds elements of the list, and
every element of the list under exactly one key. -/
def OneToOne (q : IndexedQueue κ α) : Prop :=
  (∀ (k : κ) (e : Elem α), q.index[k]? = some e → e ∈ q.elems)
    ∧ ∀ e ∈ q.elems, ∃! k : κ, q.index[k]? = some e

variable {key : α → κ} {q q' : IndexedQueue κ α} {k : κ}

lemma take_eq_some (h : q.take k = some q') : ∃ e, q.index[k]? = some e
    ∧ q' = ⟨q.elems.filter fun x => x.id ≠ e.id, q.index.erase k, q.fresh⟩ := by
  obtain ⟨e, he, rfl⟩ := Option.map_eq_some_iff.mp h
  exact ⟨e, he, rfl⟩

lemma matched_iff_oneToOne (h : q.Valid key) : q.Matched key ↔ q.OneToOne := by
  constructor
  · intro hm
    refine ⟨fun k e he => (h.indexed k e he).1, fun e he => ⟨_, hm e he, fun k hk => ?_⟩⟩
    exact (h.indexed k e hk).2.symm
  · rintro ⟨-, hunique⟩ e he
    obtain ⟨k, hk, -⟩ := hunique e he
    rw [(h.indexed k e hk).2, hk]

/-- Two elements with one identity are one. -/
lemma Valid.eq_of_id (h : q.Valid key) {a b : Elem α} (ha : a ∈ q.elems) (hb : b ∈ q.elems)
    (hid : a.id = b.id) : a = b :=
  List.inj_on_of_nodup_map h.distinct ha hb hid

lemma valid_empty : (empty : IndexedQueue κ α).Valid key where
  lt_fresh e he := by simp [empty] at he
  distinct := List.nodup_nil
  indexed k e h := by simp [empty] at h

lemma matched_empty : (empty : IndexedQueue κ α).Matched key := by simp [Matched, empty]

variable [LawfulEqOrd κ]

lemma Valid.push (h : q.Valid key) (a : α) : (q.push (key a) a).Valid key := by
  classical
  have hnew : q.fresh ∉ q.elems.map Elem.id := by
    intro hmem
    obtain ⟨e, he, hid⟩ := List.mem_map.mp hmem
    exact (h.lt_fresh e he).ne hid
  refine ⟨fun e he => ?_, ?_, fun k e he => ?_⟩
  · rcases List.mem_append.mp he with he | he
    · exact (h.lt_fresh e he).trans (Nat.lt_succ_self _)
    · rw [List.mem_singleton.mp he]
      exact Nat.lt_succ_self _
  · rw [IndexedQueue.push, List.map_append]
    exact (List.nodup_append_comm).mp (List.nodup_cons.mpr ⟨hnew, h.distinct⟩)
  · rw [IndexedQueue.push, Go.getElem?_insert_ite] at he
    split_ifs at he with hk
    · obtain rfl := Option.some.inj he
      exact ⟨List.mem_append_right _ (List.mem_singleton.mpr rfl), hk⟩
    · obtain ⟨hmem, hkey⟩ := h.indexed k e he
      exact ⟨List.mem_append_left _ hmem, hkey⟩

lemma Valid.take (h : q.Valid key) (htake : q.take k = some q') : q'.Valid key := by
  classical
  obtain ⟨e, he, rfl⟩ := take_eq_some htake
  obtain ⟨hmem, hkey⟩ := h.indexed k e he
  refine ⟨fun x hx => h.lt_fresh x (List.mem_of_mem_filter hx),
    h.distinct.sublist (List.filter_sublist.map _), fun k' x hx => ?_⟩
  rw [Go.getElem?_erase_ite] at hx
  split_ifs at hx with hk
  obtain ⟨hxmem, hxkey⟩ := h.indexed k' x hx
  refine ⟨List.mem_filter.mpr ⟨hxmem, decide_eq_true fun hid => hk ?_⟩, hxkey⟩
  rw [← hkey, ← hxkey, h.eq_of_id hxmem hmem hid]

/-- **A push keeps the correspondence exactly where no value has its key.** Otherwise the element
of that key is left in the list. -/
theorem matched_push_iff (h : q.Valid key) {a : α} :
    (q.push (key a) a).Matched key ↔ q.Matched key ∧ ∀ b ∈ q.values, key b ≠ key a := by
  classical
  constructor
  · intro hm
    have hold : ∀ e ∈ q.elems, key a ≠ key e.value ∧ q.index[key e.value]? = some e := by
      intro e he
      have hpushed := hm e (List.mem_append_left _ he)
      rw [push, Go.getElem?_insert_ite] at hpushed
      split_ifs at hpushed with hk
      · -- the new element is not the old one
        obtain rfl := Option.some.inj hpushed
        exact absurd (h.lt_fresh _ he) (lt_irrefl _)
      · exact ⟨hk, hpushed⟩
    refine ⟨fun e he => (hold e he).2, fun b hb => ?_⟩
    obtain ⟨e, he, rfl⟩ := List.mem_map.mp hb
    exact (hold e he).1.symm
  · rintro ⟨hm, hfree⟩ e he
    rw [push, Go.getElem?_insert_ite]
    rcases List.mem_append.mp he with he | he
    · have hk : key a ≠ key e.value := (hfree e.value (List.mem_map.mpr ⟨e, he, rfl⟩)).symm
      rw [if_neg hk, hm e he]
    · rw [List.mem_singleton.mp he, if_pos rfl]

/-- A removal keeps the correspondence, and does not restore it. -/
theorem matched_take_iff (h : q.Valid key) (htake : q.take k = some q') :
    q'.Matched key ↔ q.Matched key := by
  classical
  obtain ⟨e, he, rfl⟩ := take_eq_some htake
  obtain ⟨hmem, hkey⟩ := h.indexed k e he
  constructor
  · intro hm x hx
    by_cases hid : x.id = e.id
    · rw [h.eq_of_id hx hmem hid, hkey, he]
    · have hleft := hm x (List.mem_filter.mpr ⟨hx, decide_eq_true hid⟩)
      rw [Go.getElem?_erase_ite] at hleft
      split_ifs at hleft
      exact hleft
  · intro hm x hx
    obtain ⟨hxmem, hid⟩ := List.mem_filter.mp hx
    rw [Go.getElem?_erase_ite, if_neg, hm x hxmem]
    rintro rfl
    rw [hm x hxmem] at he
    exact of_decide_eq_true hid (congrArg Elem.id (Option.some.inj he))

omit [Ord κ] [TransOrd κ] [LawfulEqOrd κ] in
/-- A list without repeated identities is one of its elements and the others. -/
lemma perm_cons_filter {l : List (Elem α)} (hn : (l.map Elem.id).Nodup) {e : Elem α}
    (he : e ∈ l) : l.Perm (e :: l.filter fun x => x.id ≠ e.id) := by
  induction l with
  | nil => exact absurd he List.not_mem_nil
  | cons x l ih =>
      obtain ⟨hx, hl⟩ := List.nodup_cons.mp hn
      rcases List.mem_cons.mp he with rfl | he
      · have hothers : l.filter (fun x => x.id ≠ e.id) = l := by
          refine List.filter_eq_self.mpr fun y hy => decide_eq_true fun hid => hx ?_
          exact List.mem_map.mpr ⟨y, hy, hid⟩
        rw [List.filter_cons_of_neg (by simp), hothers]
      · have hne : x.id ≠ e.id := fun hid => hx (List.mem_map.mpr ⟨e, he, hid.symm⟩)
        rw [List.filter_cons_of_pos (by simpa using hne)]
        exact ((ih hl he).cons x).trans (List.Perm.swap e x _)

omit [LawfulEqOrd κ] in
/-- An indexed element can be removed by its key. -/
lemma take_of_matched (hm : q.Matched key) {e : Elem α} (he : e ∈ q.elems) :
    q.take (key e.value)
      = some ⟨q.elems.filter fun x => x.id ≠ e.id, q.index.erase (key e.value), q.fresh⟩ := by
  rw [take, hm e he, Option.map_some]

omit [LawfulEqOrd κ] in
lemma values_take [DecidableEq κ] (h : q.Valid key) (hkeys : (q.values.map key).Nodup)
    (htake : q.take k = some q') : q'.values = q.values.filter fun a => key a ≠ k := by
  obtain ⟨e, he, rfl⟩ := take_eq_some htake
  obtain ⟨hmem, hkey⟩ := h.indexed k e he
  rw [values, List.map_map] at hkeys
  rw [values, values, List.filter_map]
  refine congrArg (List.map Elem.value) (List.filter_congr fun x hx => ?_)
  -- the element of the key is the only one with its identity, and the only one with the key
  have hiff : x.id = e.id ↔ key x.value = k := by
    constructor
    · intro hid
      rw [h.eq_of_id hx hmem hid, hkey]
    · intro hxk
      rw [List.inj_on_of_nodup_map hkeys hx hmem (hxk.trans hkey.symm)]
  simp [hiff]

/-! ### The list and the map on their own -/

/-- A value at the end of the list, not in the map. -/
def pushBack (q : IndexedQueue κ α) (a : α) : IndexedQueue κ α :=
  ⟨q.elems ++ [⟨q.fresh, a⟩], q.index, q.fresh + 1⟩

/-- An element put into the map. -/
def store (q : IndexedQueue κ α) (k : κ) (e : Elem α) : IndexedQueue κ α :=
  { q with index := q.index.insert k e }

/-- The element of a key taken out of the map, and left in the list. -/
def unindex (q : IndexedQueue κ α) (k : κ) : IndexedQueue κ α :=
  { q with index := q.index.erase k }

/-- An element taken out of the list. -/
def unlink (q : IndexedQueue κ α) (e : Elem α) : IndexedQueue κ α :=
  { q with elems := q.elems.filter fun x => x.id ≠ e.id }

omit [LawfulEqOrd κ] in
lemma take_eq_unlink (q : IndexedQueue κ α) (k : κ) :
    q.take k = q.index[k]?.map fun e => (q.unindex k).unlink e := rfl

omit [LawfulEqOrd κ] in
lemma Valid.pushBack (h : q.Valid key) (a : α) : (q.pushBack a).Valid key := by
  refine ⟨fun e he => ?_, ?_, fun k e he => ?_⟩
  · rcases List.mem_append.mp he with he | he
    · exact (h.lt_fresh e he).trans (Nat.lt_succ_self _)
    · rw [List.mem_singleton.mp he]
      exact Nat.lt_succ_self _
  · have hnew : q.fresh ∉ q.elems.map Elem.id := by
      intro hmem
      obtain ⟨e, he, hid⟩ := List.mem_map.mp hmem
      exact (h.lt_fresh e he).ne hid
    rw [IndexedQueue.pushBack, List.map_append]
    exact (List.nodup_append_comm).mp (List.nodup_cons.mpr ⟨hnew, h.distinct⟩)
  · obtain ⟨hmem, hkey⟩ := h.indexed k e he
    exact ⟨List.mem_append_left _ hmem, hkey⟩

lemma Valid.store (h : q.Valid key) {e : Elem α} (he : e ∈ q.elems) :
    (q.store (key e.value) e).Valid key := by
  classical
  refine ⟨h.lt_fresh, h.distinct, fun k x hx => ?_⟩
  rw [IndexedQueue.store, Go.getElem?_insert_ite] at hx
  split_ifs at hx with hk
  · obtain rfl := Option.some.inj hx
    exact ⟨he, hk⟩
  · exact h.indexed k x hx

lemma Valid.unindex (h : q.Valid key) (k : κ) : (q.unindex k).Valid key := by
  classical
  refine ⟨h.lt_fresh, h.distinct, fun k' x hx => ?_⟩
  rw [IndexedQueue.unindex, Go.getElem?_erase_ite] at hx
  split_ifs at hx
  exact h.indexed k' x hx

omit [LawfulEqOrd κ] in
/-- An element that is not in the map can leave the list. -/
lemma Valid.unlink (h : q.Valid key) {e : Elem α} (he : e ∈ q.elems)
    (hfree : ∀ k : κ, q.index[k]? ≠ some e) : (q.unlink e).Valid key := by
  refine ⟨fun x hx => h.lt_fresh x (List.mem_of_mem_filter hx),
    h.distinct.sublist (List.filter_sublist.map _), fun k x hx => ?_⟩
  obtain ⟨hmem, hkey⟩ := h.indexed k x hx
  refine ⟨List.mem_filter.mpr ⟨hmem, decide_eq_true fun hid => hfree k ?_⟩, hkey⟩
  rwa [← h.eq_of_id hmem he hid]

omit [TransOrd κ] [LawfulEqOrd κ] in
lemma length_pushBack (q : IndexedQueue κ α) (a : α) :
    (q.pushBack a).elems.length = q.elems.length + 1 := List.length_append

omit [LawfulEqOrd κ] in
lemma length_unlink (h : q.Valid key) {e : Elem α} (he : e ∈ q.elems) :
    (q.unlink e).elems.length + 1 = q.elems.length := by
  have hperm := (perm_cons_filter h.distinct he).length_eq
  rw [List.length_cons] at hperm
  exact hperm.symm

end IndexedQueue
