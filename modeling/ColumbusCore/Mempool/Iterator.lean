import ColumbusCore.Mempool.Fifo

/-!
Iteration over the mempool (`app/mempool/mempool_fifo.go`).

`Select` copies the keys of the pool in a list and its elements in two maps, and `Next` works on
these copies alone: it takes the next key and the element of that key, from the map of the oracle
where there is one and else from the other.

* `FifoMempool.select`, `FifoIterator.next`, `FifoIterator.tx`: the code;
* `iterate`: the loop of a caller that reads each transaction, makes calls of its own to the pool,
  and moves on;
* `heldAfter`: what a history of calls leaves in the pool, said of the history alone, and
  `visitOrder`, the order in which it should be visited;
* `values_eq_group`: **the queues hold what the history leaves**;
* `iterate_advance`: **the iterator uses up its copies in order**;
* `iterate_select`: **an iteration visits the transactions held when it started, those of the oracle
  first, each once**, whatever is removed from the pool meanwhile.
-/

namespace ColumbusCore.Mempool

open Go
open Std (ExtTreeMap)
open Ante (isOracleTx)

/-! ### The iterator -/

/-- `fifoIterator`, as a call has returned it. -/
structure FifoIterator where
  currentTx : Elem Tx
  listTxKey : List TxKey
  mapTxs : ExtTreeMap TxKey (Elem Tx)
  mapTxsOracle : ExtTreeMap TxKey (Elem Tx)

/-- The body of `Next` over the fields it reads. A key that neither map holds is passed over. -/
def advance (mapTxs mapTxsOracle : ExtTreeMap TxKey (Elem Tx)) :
    List TxKey → Option FifoIterator
  | [] => none
  | txKey :: listTxKey =>
      match mapTxsOracle[txKey]? with
      | some elem => some ⟨elem, listTxKey, mapTxs, mapTxsOracle.erase txKey⟩
      | none =>
          match mapTxs[txKey]? with
          | some elem => some ⟨elem, listTxKey, mapTxs.erase txKey, mapTxsOracle⟩
          | none => advance mapTxs mapTxsOracle listTxKey

/-- `Next`. -/
def FifoIterator.next (it : FifoIterator) : Option FifoIterator :=
  advance it.mapTxs it.mapTxsOracle it.listTxKey

/-- `Tx`. -/
def FifoIterator.tx (it : FifoIterator) : Tx := it.currentTx.value

/-- The key `Select` lists for a transaction: an error of `getTxKey` is dropped. -/
def listedKey (tx : Tx) : Outcome TxKey :=
  match getTxKey tx with
  | .error (.error _) => pure ⟨"", 0⟩
  | outcome => outcome

/-- A loop of `Select` over the elements of one list. -/
def snapshot (listTxKey : List TxKey) (elems : List (Elem Tx)) :
    Outcome (List TxKey × ExtTreeMap TxKey (Elem Tx)) :=
  elems.foldlM (fun copy e => do
    let txKey ← listedKey e.value
    pure (copy.1 ++ [txKey], copy.2.insert txKey e)) (listTxKey, ∅)

/-- `Select`. -/
def FifoMempool.select (mp : FifoMempool) : Outcome (Option FifoIterator) := do
  let (listTxKey, newMapTxsOracle) ← snapshot [] mp.txsOracle.elems
  let (listTxKey, newMapTxs) ← snapshot listTxKey mp.txs.elems
  pure (advance newMapTxs newMapTxsOracle listTxKey)

/-- The transactions a caller reads that makes calls to the pool before each call of `Next`, as
far as the iteration ends within `fuel` rounds. -/
def iterate (calls : ℕ → List Op) : ℕ → ℕ → FifoMempool → Option FifoIterator →
    Option (List Tx)
  | 0, _, _, _ => none
  | _ + 1, _, _, none => some []
  | fuel + 1, round, mp, some it => do
      let mp' := mp.after (calls round)
      let rest ← iterate calls fuel (round + 1) mp' it.next
      pure (it.tx :: rest)

/-! ### What a history leaves in the pool -/

/-- The transactions held after one more call that succeeds, in the order they were inserted in.
A pool with a negative capacity holds none. -/
def heldStep (maxTx : ℤ) (held : List Tx) : Op → List Tx
  | .insert tx => if maxTx < 0 then held else held ++ [tx]
  | .remove tx => held.filter fun t =>
      ¬ (isOracleTx t.msgs = isOracleTx tx.msgs ∧ keyOf t = keyOf tx)

/-- The transactions held after a history of calls that succeed. -/
def heldAfter (maxTx : ℤ) (ops : List Op) : List Tx := ops.foldl (heldStep maxTx) []

/-- The transactions of the oracle, or the others. -/
def group (oracle : Bool) (held : List Tx) : List Tx :=
  held.filter fun tx => isOracleTx tx.msgs = oracle

/-- The transactions of the oracle in insertion order, and then the others in insertion order. -/
def visitOrder (held : List Tx) : List Tx := group true held ++ group false held

/-- The transactions of each group have distinct keys. -/
def DistinctKeys (held : List Tx) : Prop := ∀ b, ((group b held).map keyOf).Nodup

lemma heldAfter_concat (maxTx : ℤ) (ops : List Op) (op : Op) :
    heldAfter maxTx (ops ++ [op]) = heldStep maxTx (heldAfter maxTx ops) op := by
  rw [heldAfter, List.foldl_append]
  rfl

/-- The order of visit has every held transaction once. -/
lemma visitOrder_perm (held : List Tx) : (visitOrder held).Perm held := by
  have hsplit := List.filter_append_perm (fun tx => decide (isOracleTx tx.msgs = true)) held
  rw [visitOrder, group, group]
  simpa using hsplit

lemma nodup_visitOrder {held : List Tx} (h : DistinctKeys held) : (visitOrder held).Nodup := by
  refine List.Nodup.append ((h true).of_map _) ((h false).of_map _) fun tx htrue hfalse => ?_
  have hkind := of_decide_eq_true (List.mem_filter.mp htrue).2
  rw [of_decide_eq_true (List.mem_filter.mp hfalse).2] at hkind
  exact Bool.false_ne_true hkind

/-- Adding a transaction to the held ones changes its group alone, -/
lemma group_concat (b : Bool) (held : List Tx) (tx : Tx) : group b (held ++ [tx])
    = if isOracleTx tx.msgs = b then group b held ++ [tx] else group b held := by
  rw [group, List.filter_append]
  split_ifs with hb
  · rw [List.filter_cons_of_pos (by simpa using hb)]
    rfl
  · rw [List.filter_cons_of_neg (by simpa using hb), List.filter_nil, List.append_nil]
    rfl

/-- and so does removing one. -/
lemma group_remove (maxTx : ℤ) (b : Bool) (held : List Tx) (tx : Tx) :
    group b (heldStep maxTx held (.remove tx)) = if isOracleTx tx.msgs = b
      then (group b held).filter (fun t => keyOf t ≠ keyOf tx) else group b held := by
  rw [group, heldStep, group, List.filter_filter]
  split_ifs with hb
  · rw [List.filter_filter]
    refine List.filter_congr fun t _ => ?_
    by_cases ht : isOracleTx t.msgs = b <;> simp [ht, hb]
  · refine List.filter_congr fun t _ => ?_
    by_cases ht : isOracleTx t.msgs = b
    · simp [ht, Ne.symm hb]
    · simp [ht]

/-- One call that succeeds does to the queues what the history says. -/
lemma group_of_run {maxTx : ℤ} {held : List Tx} {mp mp' : FifoMempool} {op : Op}
    (hwf : mp.WellFormed) (hmax : mp.maxTx = maxTx) (hkeys : DistinctKeys held)
    (hheld : ∀ b, (mp.queue b).values = group b held) (hrun : op.run mp = .ok mp') (b : Bool) :
    (mp'.queue b).values = group b (heldStep maxTx held op) := by
  cases op with
  | insert tx =>
      rcases FifoMempool.insert_eq_ok hrun with ⟨hneg, rfl⟩ | ⟨hpos, -, rfl⟩
      · rw [heldStep, if_pos (hmax ▸ hneg), hheld b]
      · rw [heldStep, if_neg (not_lt.mpr (hmax ▸ hpos)), group_concat,
          FifoMempool.queue_withQueue]
        split_ifs with hb
        · rw [hb, ← hheld b, IndexedQueue.values, IndexedQueue.push, List.map_append]
          rfl
        · exact hheld b
  | remove tx =>
      obtain ⟨-, q, htake, rfl⟩ := FifoMempool.remove_eq_ok_iff.mp hrun
      rw [group_remove, FifoMempool.queue_withQueue]
      split_ifs with hb
      · rw [hb] at htake
        rw [IndexedQueue.values_take (hwf.valid b) (hheld b ▸ hkeys b) htake, hheld b]
      · exact hheld b

/-- **The queues hold what the history leaves**, where the keys of each group were distinct
throughout. -/
theorem values_eq_group {maxTx : ℤ} {ops : List Op} {mp : FifoMempool}
    (hrun : ops.foldlM Op.run (newFifoMempool maxTx) = .ok mp)
    (hkeys : ∀ pre, pre <+: ops → DistinctKeys (heldAfter maxTx pre)) :
    mp.WellFormed ∧ mp.maxTx = maxTx
      ∧ ∀ b, (mp.queue b).values = group b (heldAfter maxTx ops) := by
  refine foldlM_induction (fun pre mp => mp.WellFormed ∧ mp.maxTx = maxTx
    ∧ ∀ b, (mp.queue b).values = group b (heldAfter maxTx pre)) hrun
    ⟨FifoMempool.wellFormed_new maxTx, rfl, fun b => ?_⟩ ?_
  · cases b <;> rfl
  · rintro pre op post mp mp' rfl ⟨hwf, hmax, hheld⟩ hop
    refine ⟨hwf.run hop, (FifoMempool.maxTx_run hop).trans hmax, fun b => ?_⟩
    rw [heldAfter_concat]
    exact group_of_run hwf hmax (hkeys pre (List.prefix_append _ _)) hheld hop b

/-! ### The copies of `Select` -/

/-- The key of an element. -/
def elemKey (e : Elem Tx) : TxKey := keyOf e.value

/-- A loop of `Select` lists the keys in order and indexes the elements. -/
lemma snapshot_eq_ok {elems : List (Elem Tx)} (listTxKey : List TxKey)
    (hkeyed : ∀ e ∈ elems, getTxKey e.value = .ok (keyOf e.value))
    (hkeys : (elems.map elemKey).Nodup) :
    ∃ m, snapshot listTxKey elems = .ok (listTxKey ++ elems.map elemKey, m)
      ∧ IndexOf elemKey m elems := by
  -- the induction adds the last element, which is the last one copied
  induction elems using List.reverseRecOn with
  | nil => exact ⟨∅, by rw [List.map_nil, List.append_nil]; rfl, indexOf_empty⟩
  | append_singleton elems e ih =>
      rw [List.map_append, List.map_singleton] at hkeys
      obtain ⟨hnodup, -, hnew⟩ := List.nodup_append.mp hkeys
      obtain ⟨m, hcopy, hindex⟩ := ih (fun x hx => hkeyed x (List.mem_append_left _ hx)) hnodup
      have hlisted : listedKey e.value = .ok (elemKey e) := by
        rw [listedKey, hkeyed e (by simp)]
        rfl
      refine ⟨m.insert (elemKey e) e, ?_, hindex.concat fun hmem =>
        hnew _ hmem _ (List.mem_singleton.mpr rfl) rfl⟩
      rw [snapshot, List.foldlM_append, show elems.foldlM _ (listTxKey, ∅) = _ from hcopy, ok_bind,
        List.foldlM_cons, hlisted]
      simp [List.append_assoc]

/-- **The iterator uses up its copies in order**: while elements of the oracle are left it takes the
first of these, also where the other map holds the key, and then the others. -/
theorem iterate_advance (calls : ℕ → List Op) {oracle regular : List (Elem Tx)}
    {mapTxs mapTxsOracle : ExtTreeMap TxKey (Elem Tx)} (round : ℕ) (mp : FifoMempool)
    (horacle : IndexOf elemKey mapTxsOracle oracle) (hregular : IndexOf elemKey mapTxs regular)
    (hkeysOracle : (oracle.map elemKey).Nodup) (hkeys : (regular.map elemKey).Nodup) :
    iterate calls (oracle.length + regular.length + 1) round mp
        (advance mapTxs mapTxsOracle (oracle.map elemKey ++ regular.map elemKey))
      = some (oracle.map Elem.value ++ regular.map Elem.value) := by
  induction oracle generalizing mapTxsOracle round mp with
  | cons e oracle ih =>
      obtain ⟨hnew, hrest⟩ := List.nodup_cons.mp hkeysOracle
      obtain ⟨hfound, hindex⟩ := horacle.erase_cons hnew
      have hfuel : (e :: oracle).length + regular.length + 1
          = (oracle.length + regular.length + 1) + 1 := by
        rw [List.length_cons]
        omega
      rw [hfuel, List.map_cons, List.cons_append, advance, hfound, iterate, FifoIterator.next,
        ih _ _ hindex hrest]
      rfl
  | nil =>
      induction regular generalizing mapTxs round mp with
      | nil => rfl
      | cons e regular ih =>
          obtain ⟨hnew, hrest⟩ := List.nodup_cons.mp hkeys
          obtain ⟨hfound, hindex⟩ := hregular.erase_cons hnew
          rw [List.map_nil, List.nil_append] at ih ⊢
          rw [List.map_cons, advance, horacle.getElem?_nil, hfound, List.length_cons, ← add_assoc,
            iterate, FifoIterator.next, ih hindex hrest]
          rfl

/-- **Iteration.** After a history of calls that succeed, in which the transactions held of each
group always had distinct keys, `Select` returns and the iteration ends; it has visited the
transactions held when it started, those of the oracle first and each group in insertion order,
each transaction once, whatever calls were made to the pool in between. -/
theorem iterate_select {maxTx : ℤ} {ops : List Op} {mp : FifoMempool}
    (hrun : ops.foldlM Op.run (newFifoMempool maxTx) = .ok mp)
    (hkeys : ∀ pre, pre <+: ops → DistinctKeys (heldAfter maxTx pre)) (calls : ℕ → List Op) :
    ∃ it, mp.select = .ok it
      ∧ iterate calls (mp.countTx + 1) 0 mp it = some (visitOrder (heldAfter maxTx ops))
      ∧ (visitOrder (heldAfter maxTx ops)).Perm (heldAfter maxTx ops)
      ∧ (visitOrder (heldAfter maxTx ops)).Nodup := by
  obtain ⟨hwf, -, hheld⟩ := values_eq_group hrun hkeys
  have hdistinct := hkeys ops List.prefix_rfl
  have hnodup : ∀ b, ((mp.queue b).elems.map elemKey).Nodup := by
    intro b
    have hb := hdistinct b
    rw [← hheld b, IndexedQueue.values, List.map_map] at hb
    exact hb
  obtain ⟨mapTxsOracle, hcopyOracle, hindexOracle⟩ :=
    snapshot_eq_ok [] (hwf.keyed true) (hnodup true)
  obtain ⟨mapTxs, hcopy, hindex⟩ :=
    snapshot_eq_ok (mp.txsOracle.elems.map elemKey) (hwf.keyed false) (hnodup false)
  refine ⟨advance mapTxs mapTxsOracle
    (mp.txsOracle.elems.map elemKey ++ mp.txs.elems.map elemKey), ?_, ?_, visitOrder_perm _,
    nodup_visitOrder hdistinct⟩
  · rw [FifoMempool.select]
    exact bind_eq_ok.mpr ⟨_, hcopyOracle, bind_eq_ok.mpr ⟨_, hcopy, rfl⟩⟩
  · rw [FifoMempool.countTx, add_comm mp.txs.elems.length, visitOrder, ← hheld true,
      ← hheld false]
    exact iterate_advance calls 0 mp hindexOracle hindex (hnodup true) (hnodup false)

/-- Three insertions, of which two share a key, and a removal. -/
def sharedKey : List Op :=
  [.insert (signedBy "terra1x" 7 [.other]), .insert (signedBy "terra1y" 1 [.other]),
    .insert (signedBy "terra1x" 7 [.oracle]), .remove (signedBy "terra1y" 1 [.other])]

/-- A caller that removes all transactions before its first call of `Next`. -/
def removeAll : ℕ → List Op
  | 0 => [.remove (signedBy "terra1x" 7 [.oracle]), .remove (signedBy "terra1x" 7 [.other])]
  | _ => []

theorem iterate_select_sharedKey : ∃ mp it,
    sharedKey.foldlM Op.run (newFifoMempool defaultMaxTx) = .ok mp
      ∧ (∀ pre, pre <+: sharedKey → DistinctKeys (heldAfter defaultMaxTx pre))
      ∧ mp.select = .ok it
      ∧ iterate removeAll (mp.countTx + 1) 0 mp it
        = some [signedBy "terra1x" 7 [.oracle], signedBy "terra1x" 7 [.other]] := by
  obtain ⟨mp, hrun, -⟩ := exists_of_returns (p := fun _ : FifoMempool => true)
    (x := sharedKey.foldlM Op.run (newFifoMempool defaultMaxTx)) (by decide +kernel)
  have hinits : ∀ pre ∈ sharedKey.inits, ∀ b,
      ((group b (heldAfter defaultMaxTx pre)).map keyOf).Nodup := by decide +kernel
  have hkeys : ∀ pre, pre <+: sharedKey → DistinctKeys (heldAfter defaultMaxTx pre) :=
    fun pre hpre => hinits pre ((List.mem_inits _ _).mpr hpre)
  obtain ⟨it, hselect, hvisit, -⟩ := iterate_select hrun hkeys removeAll
  exact ⟨mp, it, hrun, hkeys, hselect, hvisit⟩

end ColumbusCore.Mempool
