import ColumbusCore.Lib.Outcome

/-!
Go maps as tree maps, and loops that range over them.

A `range` loop visits the entries of a map in an order of its own (`RangeOrder`); whatever the
order, it visits each entry once (`RangeOrder.mem_visit_toList`, `RangeOrder.nodup_visit_keys`),
so that in a round of the loop the key at hand has not been visited before
(`not_mem_keys_of_append`). A loop whose rounds write under their own key does each write once
(`foldlM_own_key`). Since the order is free, any entry may come first
(`RangeOrder.first`). A map can be listed and read back (`storeEntries_toList`,
`readEntries_toList`). It can also be the index of a list (`IndexOf`): it is built from the list
by one store an element, and used up by one lookup an element.
-/

namespace Go

open Std (ExtTreeMap TransOrd LawfulEqOrd)

variable {α β : Type}

/-- In a list without repeated keys the key of an entry is not among the earlier ones. -/
lemma not_mem_keys_of_append {l pre post : List (α × β)} {e : α × β}
    (hn : (l.map Prod.fst).Nodup) (hl : l = pre ++ e :: post) : e.1 ∉ pre.map Prod.fst := by
  rw [hl, List.map_append, List.nodup_append] at hn
  exact fun hmem => hn.2.2 _ hmem e.1 (by simp) rfl

/-- **The own-key rule.** In a loop over entries of different keys whose rounds write under their
own key only, the round of an entry finds what the loop found under its key, and what it leaves
there stays. The other keys are left alone. -/
theorem foldlM_own_key {σ τ : Type} {f : σ → α × β → Outcome σ} (look : σ → α → τ) (P : σ → Prop)
    {l : List (α × β)} {s s' : σ} (hl : (l.map Prod.fst).Nodup) (hrun : l.foldlM f s = .ok s')
    (h0 : P s)
    (hstep : ∀ e ∈ l, ∀ c c', P c → f c e = .ok c' → P c' ∧ ∀ a, a ≠ e.1 → look c' a = look c a) :
    P s'
    ∧ (∀ e ∈ l, ∃ c c', P c ∧ f c e = .ok c' ∧ look c e.1 = look s e.1 ∧ look s' e.1 = look c' e.1)
    ∧ ∀ a ∉ l.map Prod.fst, look s' a = look s a := by
  refine foldlM_induction (fun pre cur => P cur
    ∧ (∀ e ∈ pre, ∃ c c', P c ∧ f c e = .ok c' ∧ look c e.1 = look s e.1
      ∧ look cur e.1 = look c' e.1)
    ∧ ∀ a ∉ pre.map Prod.fst, look cur a = look s a) hrun ⟨h0, by simp, fun _ _ => rfl⟩ ?_
  rintro pre e post cur cur' rfl ⟨hP, hvisited, hother⟩ hround
  obtain ⟨hP', hframe⟩ := hstep e (by simp) cur cur' hP hround
  have hnew : e.1 ∉ pre.map Prod.fst := not_mem_keys_of_append hl rfl
  refine ⟨hP', fun x hx => ?_, fun a ha => ?_⟩
  · rcases List.mem_append.mp hx with hx | hx
    · obtain ⟨c, c', hc, hcx, hbefore, hafter⟩ := hvisited x hx
      refine ⟨c, c', hc, hcx, hbefore, (hframe x.1 fun heq => hnew ?_).trans hafter⟩
      exact heq ▸ List.mem_map_of_mem hx
    · obtain rfl := List.mem_singleton.mp hx
      exact ⟨cur, cur', hP, hround, hother x.1 hnew, rfl⟩
  · rw [List.map_append, List.mem_append, not_or] at ha
    refine (hframe a fun heq => ha.2 ?_).trans (hother a ha.1)
    rw [heq]
    exact List.mem_map_of_mem (List.mem_singleton_self e)

/-- The order that visits the entries of the key `k` before the others. -/
def RangeOrder.first [DecidableEq α] (k : α) : RangeOrder (α × β) where
  visit l := l.filter (fun e => e.1 = k) ++ l.filter (fun e => ¬ e.1 = k)
  perm l := by
    have h := List.filter_append_perm (fun e : α × β => decide (e.1 = k)) l
    simpa using h

lemma RangeOrder.visit_first [DecidableEq α] {k : α} {v : β} {l : List (α × β)}
    (h : (k, v) ∈ l) : ∃ e rest, (RangeOrder.first k).visit l = e :: rest ∧ e.1 = k := by
  have hmem : (k, v) ∈ l.filter fun e => e.1 = k := List.mem_filter.mpr ⟨h, by simp⟩
  cases hf : l.filter (fun e => e.1 = k) with
  | nil => simp [hf] at hmem
  | cons e rest =>
      refine ⟨e, rest ++ l.filter fun e => ¬ e.1 = k, ?_, ?_⟩
      · show l.filter (fun e => e.1 = k) ++ _ = _
        rw [hf]
        rfl
      · have he : e ∈ l.filter fun e => e.1 = k := by rw [hf]; simp
        simpa using (List.mem_filter.mp he).2

variable [Ord α] [TransOrd α] [LawfulEqOrd α]

/-- A map has no key twice. -/
lemma nodup_keys_toList (t : ExtTreeMap α β) : (t.toList.map Prod.fst).Nodup := by
  refine List.pairwise_map.mpr (ExtTreeMap.distinct_keys_toList.imp ?_)
  intro a b hab heq
  exact hab (Std.LawfulEqCmp.compare_eq_iff_eq.mpr heq)

/-- A `range` loop visits the entries of the map, -/
lemma RangeOrder.mem_visit_toList (o : RangeOrder (α × β)) (t : ExtTreeMap α β) {k : α} {v : β} :
    (k, v) ∈ o.visit t.toList ↔ t[k]? = some v := by
  rw [(o.perm t.toList).mem_iff]
  exact ExtTreeMap.mem_toList_iff_getElem?_eq_some

/-- and each of them once. -/
lemma RangeOrder.nodup_visit_keys (o : RangeOrder (α × β)) (t : ExtTreeMap α β) :
    ((o.visit t.toList).map Prod.fst).Nodup :=
  ((o.perm t.toList).map Prod.fst).nodup_iff.mpr (nodup_keys_toList t)

/-- Entries of different keys can be set in either order. -/
lemma insert_comm (t : ExtTreeMap α β) {k k' : α} (hk : k ≠ k') (v v' : β) :
    (t.insert k v).insert k' v' = (t.insert k' v').insert k v := by
  refine ExtTreeMap.ext_getElem? fun x => ?_
  simp only [ExtTreeMap.getElem?_insert]
  by_cases h : compare k x = .eq
  · have h' : ¬ compare k' x = .eq := fun h' => hk
      ((Std.LawfulEqCmp.compare_eq_iff_eq.mp h).trans (Std.LawfulEqCmp.compare_eq_iff_eq.mp h').symm)
    rw [if_pos h, if_neg h', if_pos h]
  · rw [if_neg h, if_neg h]

/-- A map with one entry set, at every key. -/
lemma getElem?_insert_ite [DecidableEq α] (t : ExtTreeMap α β) (k a : α) (v : β) :
    (t.insert k v)[a]? = if k = a then some v else t[a]? := by
  rw [ExtTreeMap.getElem?_insert]
  simp only [Std.LawfulEqCmp.compare_eq_iff_eq]

/-- The same with a default. -/
lemma getD_insert_ite [DecidableEq α] (t : ExtTreeMap α β) (k a : α) (v b : β) :
    (t.insert k v).getD a b = if k = a then v else t.getD a b := by
  rw [ExtTreeMap.getD_insert]
  simp only [Std.LawfulEqCmp.compare_eq_iff_eq]

/-- A map with one entry removed, at every key. -/
lemma getElem?_erase_ite [DecidableEq α] (t : ExtTreeMap α β) (k a : α) :
    (t.erase k)[a]? = if k = a then none else t[a]? := by
  rw [ExtTreeMap.getElem?_erase]
  simp only [Std.LawfulEqCmp.compare_eq_iff_eq]

omit [LawfulEqOrd α] in
/-- A key with a value is a key of the map. -/
lemma mem_of_getElem?_eq_some {t : ExtTreeMap α β} {k : α} {v : β} (h : t[k]? = some v) :
    k ∈ t := by
  rw [ExtTreeMap.mem_iff_isSome_getElem?, h]
  rfl

/-! ### Entries stored one after the other -/

section Entries

variable {γ : Type} {decode : γ → Outcome (α × β)} {encode : α × β → γ} {l : List (α × β)}
  {t : ExtTreeMap α β} {k : α} {v : β}

omit [LawfulEqOrd α] in
/-- The entries of a list, stored one after the other. -/
def storeEntries (l : List (α × β)) : ExtTreeMap α β := l.foldl (fun t e => t.insert e.1 e.2) ∅

omit [LawfulEqOrd α] in
/-- The entries of a list, each decoded and then stored. -/
def readEntries (decode : γ → Outcome (α × β)) (l : List γ) : Outcome (ExtTreeMap α β) :=
  l.foldlM (fun t x => decode x >>= fun e => pure (t.insert e.1 e.2)) ∅

/-- Where no key comes twice, the entries are those of the list. -/
lemma getElem?_storeEntries (hl : (l.map Prod.fst).Nodup) :
    (storeEntries l)[k]? = some v ↔ (k, v) ∈ l := by
  classical
  refine foldl_induction (f := fun (t : ExtTreeMap α β) (e : α × β) => t.insert e.1 e.2)
    (fun pre (t : ExtTreeMap α β) => t[k]? = some v ↔ (k, v) ∈ pre)
    (b := (∅ : ExtTreeMap α β)) (by simp) ?_
  rintro pre e post t hsplit ht
  rw [getElem?_insert_ite, List.mem_append, List.mem_singleton, ← ht]
  have hnew := not_mem_keys_of_append hl hsplit
  split_ifs with hk
  · have hnone : ¬ t[k]? = some v := fun h => hnew (hk ▸ List.mem_map_of_mem (ht.mp h))
    rw [or_iff_right hnone, Option.some.injEq, Prod.ext_iff]
    exact ⟨fun h => ⟨hk.symm, h.symm⟩, fun h => h.2.symm⟩
  · exact (or_iff_left fun h => hk (Prod.ext_iff.mp h).1.symm).symm

/-- **A map that is listed and stored again** is the map. -/
lemma storeEntries_toList (t : ExtTreeMap α β) : storeEntries t.toList = t := by
  refine ExtTreeMap.ext_getElem? fun k => Option.ext fun v => ?_
  rw [getElem?_storeEntries (nodup_keys_toList t), ExtTreeMap.mem_toList_iff_getElem?_eq_some]

omit [LawfulEqOrd α] in
/-- Entries that decode to what was encoded. -/
lemma readEntries_map (h : ∀ e ∈ l, decode (encode e) = .ok e) :
    readEntries decode (l.map encode) = .ok (storeEntries l) := by
  rw [readEntries, storeEntries]
  generalize (∅ : ExtTreeMap α β) = t
  induction l generalizing t with
  | nil => rfl
  | cons e l ih =>
      rw [List.map_cons, List.foldlM_cons, h e List.mem_cons_self, ok_bind, pure_eq_ok, ok_bind,
        ih (fun e' he' => h e' (List.mem_cons_of_mem e he')), List.foldl_cons]

/-- **A map that is listed and read again** is the map. -/
lemma readEntries_toList (h : ∀ k v, t[k]? = some v → decode (encode (k, v)) = .ok (k, v)) :
    readEntries decode (t.toList.map encode) = .ok t := by
  rw [readEntries_map fun e he => h e.1 e.2 (ExtTreeMap.mem_toList_iff_getElem?_eq_some.mp he),
    storeEntries_toList]

/-- An entry that was read was decoded. -/
lemma exists_of_readEntries {xs : List γ} (h : readEntries decode xs = .ok t)
    (hk : t[k]? = some v) : ∃ x ∈ xs, decode x = .ok (k, v) := by
  classical
  rw [readEntries] at h
  refine foldlM_invariant (fun t : ExtTreeMap α β =>
    ∀ k v, t[k]? = some v → ∃ x ∈ xs, decode x = .ok (k, v)) h (by simp) ?_ k v hk
  intro x hx t t' ht hround k v hk
  obtain ⟨e, he, hround⟩ := bind_eq_ok.mp hround
  obtain rfl := Except.ok.inj hround
  rw [getElem?_insert_ite] at hk
  split_ifs at hk with hkey
  · obtain rfl := Option.some.inj hk
    exact ⟨x, hx, hkey ▸ he⟩
  · exact ht k v hk

end Entries

/-! ### Indices of lists -/

/-- The map holds the values of the list, each under its key, and no others. -/
def IndexOf (key : β → α) (t : ExtTreeMap α β) (l : List β) : Prop :=
  ∀ (k : α) (b : β), t[k]? = some b ↔ b ∈ l ∧ key b = k

section IndexOf

variable {key : β → α} {t : ExtTreeMap α β} {l : List β} {b : β}

omit [LawfulEqOrd α] in
lemma indexOf_empty : IndexOf key (∅ : ExtTreeMap α β) [] := by simp [IndexOf]

omit [LawfulEqOrd α] in
/-- The index of no values is empty. -/
lemma IndexOf.getElem?_nil (h : IndexOf key t []) (k : α) : t[k]? = none :=
  Option.eq_none_iff_forall_ne_some.mpr fun b hb => List.not_mem_nil ((h k b).mp hb).1

/-- A value whose key is new, stored. -/
lemma IndexOf.concat (h : IndexOf key t l) (hb : key b ∉ l.map key) :
    IndexOf key (t.insert (key b) b) (l ++ [b]) := by
  classical
  intro k x
  rw [getElem?_insert_ite, List.mem_append, List.mem_singleton]
  split_ifs with hk
  · constructor
    · intro hx
      obtain rfl := Option.some.inj hx
      exact ⟨.inr rfl, hk⟩
    · rintro ⟨hx | rfl, hxk⟩
      · exact absurd (List.mem_map.mpr ⟨x, hx, hxk.trans hk.symm⟩) hb
      · rfl
  · rw [h k x]
    refine ⟨fun hx => ⟨.inl hx.1, hx.2⟩, ?_⟩
    rintro ⟨hx | rfl, hxk⟩
    · exact ⟨hx, hxk⟩
    · exact absurd hxk hk

/-- A list has one index. -/
lemma IndexOf.unique {t' : ExtTreeMap α β} (h : IndexOf key t l)
    (h' : IndexOf key t' l) : t = t' := by
  refine ExtTreeMap.ext_getElem? fun k => Option.ext fun x => ?_
  rw [h k x, h' k x]

/-- The values of a map are indexed by it when each is stored under its key. -/
lemma indexOf_values (hkey : ∀ (k : α) (x : β), t[k]? = some x → key x = k) :
    IndexOf key t (t.toList.map Prod.snd) := by
  intro k x
  constructor
  · intro hx
    have hmem : (k, x) ∈ t.toList := ExtTreeMap.mem_toList_iff_getElem?_eq_some.mpr hx
    exact ⟨List.mem_map_of_mem hmem, hkey k x hx⟩
  · rintro ⟨hx, rfl⟩
    obtain ⟨⟨k', x'⟩, hmem, rfl⟩ := List.mem_map.mp hx
    have hx' : t[k']? = some x' := ExtTreeMap.mem_toList_iff_getElem?_eq_some.mp hmem
    rw [hkey k' x' hx']
    exact hx'

/-- The first value, looked up and removed. -/
lemma IndexOf.erase_cons (h : IndexOf key t (b :: l)) (hb : key b ∉ l.map key) :
    t[key b]? = some b ∧ IndexOf key (t.erase (key b)) l := by
  classical
  refine ⟨(h _ _).mpr ⟨List.mem_cons_self, rfl⟩, fun k x => ?_⟩
  rw [getElem?_erase_ite]
  split_ifs with hk
  · refine ⟨fun hx => absurd hx (by simp), fun hx => absurd ?_ hb⟩
    exact List.mem_map.mpr ⟨x, hx.1, hx.2.trans hk.symm⟩
  · rw [h k x, List.mem_cons]
    refine ⟨?_, fun hx => ⟨.inr hx.1, hx.2⟩⟩
    rintro ⟨rfl | hx, hxk⟩
    · exact absurd hxk hk
    · exact ⟨hx, hxk⟩

end IndexOf

end Go
