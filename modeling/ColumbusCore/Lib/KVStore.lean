import ColumbusCore.Lib.Maps

/-!
Tables in a store of bytes.

A store maps byte strings to byte strings, in the order of the keys. A table takes the keys that
begin with a byte of its own: the rest of the key is made of the key of an entry, the value of its
value, and both are read back from the bytes. A store can hold several tables, as long as their
first bytes differ.

* `Table.get`, `Table.set`, `Table.delete`, `Table.iterate`, `Table.clear`: the accessors of a table,
  on bytes;
* `Table.Holds`: the part of the store that belongs to a table is a given map;
* `Holds.get_eq`, `Holds.iterate_eq`: **the table answers as the map does**, an iteration in the order
  of the bytes of the keys;
* `Holds.set`, `Holds.delete`, `holds_clear`: what a write does to its map; `getElem?_set_other`,
  `getElem?_delete_other`, `getElem?_clear_other` and `Holds.congr`: nothing to the maps of the other
  tables.
-/

open Std (ExtTreeMap TransOrd LawfulEqOrd)

/-- A store of bytes. -/
abbrev KVStore := ExtTreeMap (List UInt8) (List UInt8)

/-- A table: its first byte, how keys and values are written and read, and those for which this is
without loss. -/
structure Table (κ α : Type) where
  header : UInt8
  KeyOk : κ → Prop
  ValueOk : α → Prop
  key : κ → List UInt8
  unkey : List UInt8 → κ
  encode : α → List UInt8
  decode : List UInt8 → Option α
  unkey_key : ∀ k, KeyOk k → unkey (header :: key k) = k
  decode_encode : ∀ a, ValueOk a → decode (encode a) = some a

namespace Table

open Go

variable {κ α : Type}

/-- The whole key of an entry. -/
def path (T : Table κ α) (k : κ) : List UInt8 := T.header :: T.key k

/-- A stored value that must be readable. -/
def mustDecode (T : Table κ α) (b : List UInt8) : Outcome α :=
  match T.decode b with
  | some a => pure a
  | none => panicked (.raised "unmarshal")

/-- The value of a key, where there is one. -/
def get (T : Table κ α) (kv : KVStore) (k : κ) : Outcome (Option α) :=
  match kv[T.path k]? with
  | none => pure none
  | some b => do
      let a ← T.mustDecode b
      pure (some a)

/-- An entry stored. -/
def set (T : Table κ α) (kv : KVStore) (k : κ) (a : α) : KVStore := kv.insert (T.path k) (T.encode a)

/-- An entry deleted. -/
def delete (T : Table κ α) (kv : KVStore) (k : κ) : KVStore := kv.erase (T.path k)

/-- The pairs of bytes of a table, in the order of the store. -/
def pairs (T : Table κ α) (kv : KVStore) : List (List UInt8 × List UInt8) :=
  kv.toList.filter fun e => e.1.head? == some T.header

/-- The entries an iterator over the table visits. -/
def iterate (T : Table κ α) (kv : KVStore) : Outcome (List (κ × α)) :=
  (T.pairs kv).mapM fun e => do
    let a ← T.mustDecode e.2
    pure (T.unkey e.1, a)

/-- Every key an iterator over the table visits is deleted. -/
def clear (T : Table κ α) (kv : KVStore) : KVStore :=
  (T.pairs kv).foldl (fun kv e => kv.erase e.1) kv

lemma mustDecode_encode (T : Table κ α) {a : α} (ha : T.ValueOk a) :
    T.mustDecode (T.encode a) = .ok a := by
  rw [mustDecode, T.decode_encode a ha]
  rfl

lemma path_injective (T : Table κ α) {k k' : κ} (hk : T.KeyOk k) (hk' : T.KeyOk k')
    (h : T.path k = T.path k') : k = k' := by
  rw [← T.unkey_key k hk, ← T.unkey_key k' hk']
  exact congrArg T.unkey h

variable [Ord κ] [TransOrd κ] [LawfulEqOrd κ]

/-- The part of a store that belongs to a table is a map. -/
structure Holds (T : Table κ α) (kv : KVStore) (m : ExtTreeMap κ α) : Prop where
  ok : ∀ k a, m[k]? = some a → T.KeyOk k ∧ T.ValueOk a
  stored : ∀ k a, m[k]? = some a → kv[T.path k]? = some (T.encode a)
  only : ∀ p b, kv[p]? = some b → p.head? = some T.header → ∃ k a, m[k]? = some a ∧ p = T.path k

/-- The entries of a map, in the order of the bytes of their keys. -/
def ordered (T : Table κ α) (m : ExtTreeMap κ α) : List (κ × α) :=
  m.toList.mergeSort fun e e' => (compare (T.path e.1) (T.path e'.1)).isLE

variable {T : Table κ α} {kv : KVStore} {m : ExtTreeMap κ α} {k : κ} {a : α}

omit [LawfulEqOrd κ] in
/-- A key that is not in the map is not in the store. -/
lemma Holds.getElem?_path (h : T.Holds kv m) (hk : T.KeyOk k) :
    kv[T.path k]? = m[k]?.map T.encode := by
  cases hm : m[k]? with
  | some a => exact h.stored k a hm
  | none =>
      cases hkv : kv[T.path k]? with
      | none => rfl
      | some b =>
          obtain ⟨k', a, hk', hpath⟩ := h.only _ b hkv rfl
          rw [T.path_injective hk (h.ok k' a hk').1 hpath, hk'] at hm
          cases hm

omit [LawfulEqOrd κ] in
/-- **A key is looked up as in the map.** -/
theorem Holds.get_eq (h : T.Holds kv m) (hk : T.KeyOk k) : T.get kv k = .ok m[k]? := by
  rw [Table.get, h.getElem?_path hk]
  cases hm : m[k]? with
  | none => rfl
  | some a =>
      show (T.mustDecode (T.encode a) >>= fun a => pure (some a)) = _
      rw [T.mustDecode_encode (h.ok k a hm).2]
      rfl

/-- An entry stored is an entry of the map. -/
theorem Holds.set (h : T.Holds kv m) (hk : T.KeyOk k) (ha : T.ValueOk a) :
    T.Holds (T.set kv k a) (m.insert k a) := by
  classical
  have hinsert : ∀ k', (m.insert k a)[k']? = if k = k' then some a else m[k']? :=
    fun k' => getElem?_insert_ite m k k' a
  have hpath : ∀ p, (T.set kv k a)[p]? = if T.path k = p then some (T.encode a) else kv[p]? :=
    fun p => getElem?_insert_ite kv (T.path k) p (T.encode a)
  refine ⟨fun k' a' hk' => ?_, fun k' a' hk' => ?_, fun p b hp hheader => ?_⟩
  · rw [hinsert] at hk'
    split_ifs at hk' with hkk
    · obtain rfl := Option.some.inj hk'
      exact ⟨hkk ▸ hk, ha⟩
    · exact h.ok k' a' hk'
  · rw [hinsert] at hk'
    rw [hpath]
    split_ifs at hk' with hkk
    · obtain rfl := Option.some.inj hk'
      rw [if_pos (congrArg T.path hkk)]
    · rw [if_neg fun hp => hkk (T.path_injective hk (h.ok k' a' hk').1 hp), h.stored k' a' hk']
  · rw [hpath] at hp
    split_ifs at hp with hkp
    · exact ⟨k, a, by rw [hinsert, if_pos rfl], hkp.symm⟩
    · obtain ⟨k', a', hk', rfl⟩ := h.only p b hp hheader
      exact ⟨k', a', by rw [hinsert, if_neg fun hkk => hkp (congrArg T.path hkk), hk'], rfl⟩

/-- An entry deleted is no entry of the map. -/
theorem Holds.delete (h : T.Holds kv m) (hk : T.KeyOk k) :
    T.Holds (T.delete kv k) (m.erase k) := by
  classical
  have herase : ∀ k', (m.erase k)[k']? = if k = k' then none else m[k']? :=
    fun k' => getElem?_erase_ite m k k'
  have hpath : ∀ p, (T.delete kv k)[p]? = if T.path k = p then none else kv[p]? :=
    fun p => getElem?_erase_ite kv (T.path k) p
  refine ⟨fun k' a' hk' => ?_, fun k' a' hk' => ?_, fun p b hp hheader => ?_⟩
  · rw [herase] at hk'
    split_ifs at hk'
    exact h.ok k' a' hk'
  · rw [herase] at hk'
    split_ifs at hk' with hkk
    rw [hpath, if_neg fun hp => hkk (T.path_injective hk (h.ok k' a' hk').1 hp), h.stored k' a' hk']
  · rw [hpath] at hp
    split_ifs at hp with hkp
    obtain ⟨k', a', hk', rfl⟩ := h.only p b hp hheader
    exact ⟨k', a', by rw [herase, if_neg fun hkk => hkp (congrArg T.path hkk), hk'], rfl⟩

/-! ### Clearing a table -/

omit [Ord κ] [TransOrd κ] [LawfulEqOrd κ] in
lemma getElem?_foldl_erase (l : List (List UInt8 × List UInt8)) (kv : KVStore) (p : List UInt8) :
    (l.foldl (fun kv e => kv.erase e.1) kv)[p]? = if p ∈ l.map Prod.fst then none else kv[p]? := by
  induction l generalizing kv with
  | nil => simp
  | cons e l ih =>
      have hmem : p ∈ (e :: l).map Prod.fst ↔ e.1 = p ∨ p ∈ l.map Prod.fst := by
        rw [List.map_cons, List.mem_cons, eq_comm]
      rw [List.foldl_cons, ih, getElem?_erase_ite]
      by_cases hl : p ∈ l.map Prod.fst
      · rw [if_pos hl, if_pos (hmem.mpr (.inr hl))]
      · rw [if_neg hl]
        by_cases hp : e.1 = p
        · rw [if_pos hp, if_pos (hmem.mpr (.inl hp))]
        · rw [if_neg hp, if_neg fun h => (hmem.mp h).elim hp hl]

omit [Ord κ] [TransOrd κ] [LawfulEqOrd κ] in
lemma mem_pairs {e : List UInt8 × List UInt8} :
    e ∈ T.pairs kv ↔ kv[e.1]? = some e.2 ∧ e.1.head? = some T.header := by
  rw [pairs, List.mem_filter, ExtTreeMap.mem_toList_iff_getElem?_eq_some, beq_iff_eq]

omit [Ord κ] [TransOrd κ] [LawfulEqOrd κ] in
/-- Clearing deletes the keys of the table and no other. -/
lemma getElem?_clear (kv : KVStore) (p : List UInt8) :
    (T.clear kv)[p]? = if p.head? = some T.header then none else kv[p]? := by
  rw [clear, getElem?_foldl_erase]
  by_cases hheader : p.head? = some T.header
  · rw [if_pos hheader]
    split_ifs with hmem
    · rfl
    · cases hp : kv[p]? with
      | none => rfl
      | some b =>
          have hpair : (p, b) ∈ T.pairs kv := mem_pairs.mpr ⟨hp, hheader⟩
          exact absurd (List.mem_map.mpr ⟨_, hpair, rfl⟩) hmem
  · rw [if_neg hheader, if_neg]
    intro hmem
    obtain ⟨e, he, rfl⟩ := List.mem_map.mp hmem
    exact hheader (mem_pairs.mp he).2

omit [LawfulEqOrd κ] in
/-- A table that is cleared holds the empty map. -/
theorem holds_clear (kv : KVStore) : T.Holds (T.clear kv) (∅ : ExtTreeMap κ α) := by
  refine ⟨fun k a h => by simp at h, fun k a h => by simp at h, fun p b hp hheader => ?_⟩
  rw [getElem?_clear, if_pos hheader] at hp
  cases hp

/-! ### Tables side by side -/

omit [LawfulEqOrd κ] in
/-- A table sees its own keys only. -/
lemma Holds.congr {kv' : KVStore} (h : T.Holds kv m)
    (hsame : ∀ p : List UInt8, p.head? = some T.header → kv'[p]? = kv[p]?) : T.Holds kv' m := by
  refine ⟨h.ok, fun k a hk => ?_, fun p b hp hheader => ?_⟩
  · rw [hsame _ rfl, h.stored k a hk]
  · rw [hsame p hheader] at hp
    exact h.only p b hp hheader

section Others

omit [Ord κ] [TransOrd κ] [LawfulEqOrd κ]

variable {p : List UInt8} (hp : p.head? ≠ some T.header)

include hp

lemma getElem?_set_other (kv : KVStore) (k : κ) (a : α) : (T.set kv k a)[p]? = kv[p]? := by
  rw [Table.set, getElem?_insert_ite, if_neg]
  rintro rfl
  exact hp rfl

lemma getElem?_delete_other (kv : KVStore) (k : κ) : (T.delete kv k)[p]? = kv[p]? := by
  rw [Table.delete, getElem?_erase_ite, if_neg]
  rintro rfl
  exact hp rfl

lemma getElem?_clear_other (kv : KVStore) : (T.clear kv)[p]? = kv[p]? := by
  rw [getElem?_clear, if_neg hp]

end Others

/-! ### Iterating over a table -/

/-- An entry as it is stored. -/
def toBytes (T : Table κ α) (e : κ × α) : List UInt8 × List UInt8 := (T.path e.1, T.encode e.2)

lemma mem_ordered {e : κ × α} : e ∈ T.ordered m ↔ m[e.1]? = some e.2 := by
  rw [ordered, (List.mergeSort_perm _ _).mem_iff, ExtTreeMap.mem_toList_iff_getElem?_eq_some]

omit [LawfulEqOrd κ] in
lemma pairwise_ordered (T : Table κ α) (m : ExtTreeMap κ α) :
    (T.ordered m).Pairwise fun e e' => (compare (T.path e.1) (T.path e'.1)).isLE := by
  have htrans : ∀ e e' e'' : κ × α, (compare (T.path e.1) (T.path e'.1)).isLE →
      (compare (T.path e'.1) (T.path e''.1)).isLE → (compare (T.path e.1) (T.path e''.1)).isLE :=
    fun _ _ _ h h' => Std.TransCmp.isLE_trans h h'
  have htotal : ∀ e e' : κ × α, ((compare (T.path e.1) (T.path e'.1)).isLE
      || (compare (T.path e'.1) (T.path e.1)).isLE) = true := by
    intro e e'
    have hswap : compare (T.path e'.1) (T.path e.1) = (compare (T.path e.1) (T.path e'.1)).swap :=
      Std.OrientedCmp.eq_swap
    rw [hswap]
    cases compare (T.path e.1) (T.path e'.1) <;> rfl
  exact List.pairwise_mergeSort htrans htotal _

/-- The pairs of a table are the entries of its map. -/
lemma Holds.mem_pairs_iff (h : T.Holds kv m) {e : List UInt8 × List UInt8} :
    e ∈ T.pairs kv ↔ e ∈ (T.ordered m).map T.toBytes := by
  rw [mem_pairs, List.mem_map]
  constructor
  · rintro ⟨hkv, hheader⟩
    obtain ⟨k, a, hk, hpath⟩ := h.only e.1 e.2 hkv hheader
    rw [hpath, h.stored k a hk] at hkv
    exact ⟨(k, a), mem_ordered.mpr hk, Prod.ext hpath.symm (Option.some.inj hkv)⟩
  · rintro ⟨⟨k, a⟩, hk, rfl⟩
    exact ⟨h.stored k a (mem_ordered.mp hk), rfl⟩

lemma Holds.pairs_perm (h : T.Holds kv m) : (T.pairs kv).Perm ((T.ordered m).map T.toBytes) := by
  have hstore : (T.pairs kv).Nodup := (List.Nodup.of_map _ (nodup_keys_toList kv)).filter _
  have hmap : (T.ordered m).Nodup :=
    (List.mergeSort_perm _ _).nodup_iff.mpr (List.Nodup.of_map _ (nodup_keys_toList m))
  refine (List.perm_ext_iff_of_nodup hstore (hmap.map_on fun e he e' he' heq => ?_)).mpr fun e =>
    h.mem_pairs_iff
  have hm := mem_ordered.mp he
  have hm' := mem_ordered.mp he'
  have hkey : e.1 = e'.1 := T.path_injective (h.ok _ _ hm).1 (h.ok _ _ hm').1 (Prod.ext_iff.mp heq).1
  rw [← hkey, hm] at hm'
  exact Prod.ext hkey (Option.some.inj hm')

lemma Holds.pairs_eq (h : T.Holds kv m) : T.pairs kv = (T.ordered m).map T.toBytes := by
  have hstore : (T.pairs kv).Pairwise fun e e' => (compare e.1 e'.1).isLE :=
    (ExtTreeMap.ordered_keys_toList.imp fun hlt => by rw [hlt]; rfl).sublist List.filter_sublist
  have hmap : ((T.ordered m).map T.toBytes).Pairwise fun e e' => (compare e.1 e'.1).isLE :=
    List.pairwise_map.mpr (T.pairwise_ordered m)
  refine h.pairs_perm.eq_of_pairwise (fun e e' he he' hle hge => ?_) hstore hmap
  have hkey : e.1 = e'.1 :=
    Std.LawfulEqCmp.compare_eq_iff_eq.mp (Std.OrientedCmp.isLE_antisymm hle hge)
  have hm := (mem_pairs.mp he).1
  have hm' := (mem_pairs.mp (h.mem_pairs_iff.mpr he')).1
  rw [← hkey, hm] at hm'
  exact Prod.ext hkey (Option.some.inj hm')

/-- **An iteration visits the entries of the map, in the order of the bytes of their keys.** -/
theorem Holds.iterate_eq (h : T.Holds kv m) : T.iterate kv = .ok (T.ordered m) := by
  rw [iterate, h.pairs_eq]
  have hread : ∀ e ∈ T.ordered m, (T.mustDecode (T.toBytes e).2 >>= fun a =>
      pure (T.unkey (T.toBytes e).1, a)) = (.ok e : Outcome (κ × α)) := by
    intro e he
    have hok := h.ok e.1 e.2 (mem_ordered.mp he)
    rw [toBytes, T.mustDecode_encode hok.2, ok_bind, path, T.unkey_key e.1 hok.1]
    rfl
  generalize T.ordered m = l at hread
  induction l with
  | nil => rfl
  | cons e l ih =>
      obtain ⟨he, hl⟩ := List.forall_mem_cons.mp hread
      exact mapM_cons_eq_ok.mpr ⟨e, l, he, ih hl, rfl⟩

end Table
