import ColumbusCore.Lib.IndexedQueue
import ColumbusCore.Ante.Fee

/-!
The mempool (`app/mempool/mempool_fifo.go`).

Two queues, one for the transactions of the oracle and one for the others, each with a map from
the first signer and its sequence to the element of the queue. `Insert` does not look at the map
before it stores an element there.

* `FifoMempool.insert`, `FifoMempool.remove`, `FifoMempool.countTx`: the code;
* `poolAfter`: the pool after a history of calls;
* `WellFormed`: what holds after every history;
* `represented_iff`: **the maps represent the queues exactly where no transaction was added to a
  queue that held one with its key**; `replaced_not_represented`: one that was.
-/

namespace ColumbusCore.Mempool

open Go
open Std (ExtTreeMap TransCmp TransOrd LawfulEqOrd)
open Ante (isOracleTx)

/-! ### Transactions and their keys -/

/-- `customTxKey`. -/
structure TxKey where
  address : String
  nonce : UInt64
deriving DecidableEq, Repr

instance : Ord TxKey := ⟨compareLex (compareOn TxKey.address) (compareOn TxKey.nonce)⟩

instance : TransOrd TxKey :=
  inferInstanceAs (TransCmp (compareLex (compareOn TxKey.address) (compareOn TxKey.nonce)))

instance : LawfulEqOrd TxKey where
  eq_of_compare {a b} h := by
    obtain ⟨haddress, hnonce⟩ := compareLex_eq_eq.mp h
    cases a
    cases b
    congr
    · exact Std.LawfulEqCmp.compare_eq_iff_eq.mp haddress
    · exact Std.LawfulEqCmp.compare_eq_iff_eq.mp hnonce

/-- `signing.SignatureV2`: the account of the public key, where there is one, and the sequence. -/
structure SignatureV2 where
  pubKeyAddress : Option String
  sequence : UInt64

/-- What the mempool reads of a transaction: its messages, and the outcome of
`GetSignaturesV2`. -/
structure Tx where
  msgs : List Ante.Msg
  signatures : Outcome (List SignatureV2)

/-- `getTxKey`. -/
def getTxKey (tx : Tx) : Outcome TxKey := do
  let sigs ← tx.signatures
  match sigs with
  | [] => failed "tx must have at least one signer"
  | sig :: _ =>
      match sig.pubKeyAddress with
      | none => panicked .nilDereference
      | some sender => pure ⟨sender, sig.sequence⟩

/-- The key of a transaction, and the empty key where it has none. -/
def keyOf (tx : Tx) : TxKey :=
  match getTxKey tx with
  | .ok key => key
  | .error _ => ⟨"", 0⟩

lemma keyOf_eq {tx : Tx} {key : TxKey} (h : getTxKey tx = .ok key) : keyOf tx = key := by
  rw [keyOf, h]

/-! ### The pool -/

/-- `FifoMempool`: each list together with its map. -/
structure FifoMempool where
  txs : IndexedQueue TxKey Tx
  txsOracle : IndexedQueue TxKey Tx
  maxTx : ℤ

/-- `NewFifoMempool` with `FifoMaxTxOpt`. -/
def newFifoMempool (maxTx : ℤ) : FifoMempool := ⟨.empty, .empty, maxTx⟩

/-- `DefaultMaxTx`. -/
def defaultMaxTx : ℤ := 5000

namespace FifoMempool

/-- `CountTx`. -/
def countTx (mp : FifoMempool) : ℕ := mp.txs.elems.length + mp.txsOracle.elems.length

/-- `Insert`. -/
def insert (mp : FifoMempool) (tx : Tx) : Outcome FifoMempool :=
  if 0 ≤ mp.maxTx ∧ mp.maxTx ≤ mp.countTx then failed "pool reached max tx capacity"
  else if mp.maxTx < 0 then pure mp
  else do
    let txKey ← getTxKey tx
    pure (if isOracleTx tx.msgs then { mp with txsOracle := mp.txsOracle.push txKey tx }
      else { mp with txs := mp.txs.push txKey tx })

/-- `Remove`. -/
def remove (mp : FifoMempool) (tx : Tx) : Outcome FifoMempool := do
  let txKey ← getTxKey tx
  if isOracleTx tx.msgs then
    match mp.txsOracle.take txKey with
    | some queue => pure { mp with txsOracle := queue }
    | none => failed "tx not found in mempool"
  else
    match mp.txs.take txKey with
    | some queue => pure { mp with txs := queue }
    | none => failed "tx not found in mempool"

/-- The queue of the transactions of the oracle, or that of the others. -/
def queue (mp : FifoMempool) (oracle : Bool) : IndexedQueue TxKey Tx :=
  if oracle then mp.txsOracle else mp.txs

/-- The pool with one queue replaced. -/
def withQueue (mp : FifoMempool) (oracle : Bool) (q : IndexedQueue TxKey Tx) : FifoMempool :=
  if oracle then { mp with txsOracle := q } else { mp with txs := q }

/-- The transactions the pool holds, in the order of iteration. -/
def held (mp : FifoMempool) : List Tx := mp.txsOracle.values ++ mp.txs.values

end FifoMempool

/-- A call that changes the pool. -/
inductive Op where
  | insert (tx : Tx)
  | remove (tx : Tx)

/-- The outcome of a call. -/
def Op.run (mp : FifoMempool) : Op → Outcome FifoMempool
  | .insert tx => mp.insert tx
  | .remove tx => mp.remove tx

/-- The pool after calls, of which some may fail. -/
def FifoMempool.after (mp : FifoMempool) (ops : List Op) : FifoMempool :=
  ops.foldl (fun mp op => keepOnError mp (op.run mp)) mp

/-- The pool after a history of calls. -/
def poolAfter (maxTx : ℤ) (ops : List Op) : FifoMempool := (newFifoMempool maxTx).after ops

/-! ### What a call has done -/

namespace FifoMempool

variable {mp mp' : FifoMempool} {tx : Tx}

lemma queue_withQueue (mp : FifoMempool) (b b' : Bool) (q : IndexedQueue TxKey Tx) :
    (mp.withQueue b q).queue b' = if b = b' then q else mp.queue b' := by
  cases b <;> cases b' <;> rfl

lemma countTx_eq (mp : FifoMempool) : mp.countTx = mp.held.length := by
  rw [held, List.length_append, IndexedQueue.values, IndexedQueue.values, List.length_map,
    List.length_map, countTx, add_comm]

/-- An insertion that succeeds adds the transaction to its queue, or the pool takes none. -/
lemma insert_eq_ok (h : mp.insert tx = .ok mp') :
    mp.maxTx < 0 ∧ mp' = mp ∨ 0 ≤ mp.maxTx ∧ getTxKey tx = .ok (keyOf tx)
      ∧ mp' = mp.withQueue (isOracleTx tx.msgs)
        ((mp.queue (isOracleTx tx.msgs)).push (keyOf tx) tx) := by
  rw [insert] at h
  by_cases hfull : 0 ≤ mp.maxTx ∧ mp.maxTx ≤ mp.countTx
  · rw [if_pos hfull] at h
    exact absurd h failed_ne_ok
  by_cases hneg : mp.maxTx < 0
  · rw [if_neg hfull, if_pos hneg] at h
    exact .inl ⟨hneg, (Except.ok.inj h).symm⟩
  · rw [if_neg hfull, if_neg hneg] at h
    obtain ⟨key, hkey, h⟩ := bind_eq_ok.mp h
    obtain rfl := keyOf_eq hkey
    obtain rfl := Except.ok.inj h
    refine .inr ⟨not_lt.mp hneg, hkey, ?_⟩
    cases isOracleTx tx.msgs <;> rfl

/-- `Remove` works on the queue of the kind of its transaction. -/
lemma remove_eq (mp : FifoMempool) (tx : Tx) :
    mp.remove tx = getTxKey tx >>= fun txKey =>
      match (mp.queue (isOracleTx tx.msgs)).take txKey with
      | some q => pure (mp.withQueue (isOracleTx tx.msgs) q)
      | none => failed "tx not found in mempool" := by
  rw [remove]
  cases isOracleTx tx.msgs <;> rfl

/-- A removal succeeds exactly where the key of the transaction is in the map of its queue. -/
lemma remove_eq_ok_iff : mp.remove tx = .ok mp' ↔ getTxKey tx = .ok (keyOf tx)
    ∧ ∃ q, (mp.queue (isOracleTx tx.msgs)).take (keyOf tx) = some q
      ∧ mp' = mp.withQueue (isOracleTx tx.msgs) q := by
  rw [remove_eq, bind_eq_ok]
  constructor
  · rintro ⟨key, hkey, h⟩
    obtain rfl := keyOf_eq hkey
    refine ⟨hkey, ?_⟩
    cases htake : (mp.queue (isOracleTx tx.msgs)).take (keyOf tx) with
    | none =>
        rw [htake] at h
        exact absurd h failed_ne_ok
    | some q =>
        rw [htake] at h
        exact ⟨q, rfl, (Except.ok.inj h).symm⟩
  · rintro ⟨hkey, q, htake, rfl⟩
    exact ⟨keyOf tx, hkey, by rw [htake]; rfl⟩

/-- What holds after every history: each queue is valid, and holds transactions of its kind that
have a key. -/
structure WellFormed (mp : FifoMempool) : Prop where
  valid : ∀ b, (mp.queue b).Valid keyOf
  kind : ∀ b, ∀ e ∈ (mp.queue b).elems, isOracleTx e.value.msgs = b
  keyed : ∀ b, ∀ e ∈ (mp.queue b).elems, getTxKey e.value = .ok (keyOf e.value)

lemma wellFormed_new (maxTx : ℤ) : (newFifoMempool maxTx).WellFormed := by
  have hempty : ∀ b, (newFifoMempool maxTx).queue b = .empty := by
    intro b
    cases b <;> rfl
  refine ⟨fun b => hempty b ▸ IndexedQueue.valid_empty, fun b e he => ?_, fun b e he => ?_⟩
  · rw [hempty] at he
    exact absurd he List.not_mem_nil
  · rw [hempty] at he
    exact absurd he List.not_mem_nil

/-- One queue replaced by a well-formed one. -/
lemma WellFormed.withQueue (h : mp.WellFormed) {b : Bool} {q : IndexedQueue TxKey Tx}
    (hvalid : q.Valid keyOf) (hkind : ∀ e ∈ q.elems, isOracleTx e.value.msgs = b)
    (hkeyed : ∀ e ∈ q.elems, getTxKey e.value = .ok (keyOf e.value)) :
    (mp.withQueue b q).WellFormed := by
  refine ⟨fun b' => ?_, fun b' e he => ?_, fun b' e he => ?_⟩
  · rw [queue_withQueue]
    split_ifs
    · exact hvalid
    · exact h.valid b'
  · rw [queue_withQueue] at he
    split_ifs at he with hb
    · exact hb ▸ hkind e he
    · exact h.kind b' e he
  · rw [queue_withQueue] at he
    split_ifs at he
    · exact hkeyed e he
    · exact h.keyed b' e he

lemma WellFormed.insert (h : mp.WellFormed) (hrun : mp.insert tx = .ok mp') : mp'.WellFormed := by
  rcases insert_eq_ok hrun with ⟨-, rfl⟩ | ⟨-, hkey, rfl⟩
  · exact h
  · refine h.withQueue ((h.valid _).push tx) (fun e he => ?_) (fun e he => ?_)
    · rcases List.mem_append.mp he with he | he
      · exact h.kind _ e he
      · rw [List.mem_singleton.mp he]
    · rcases List.mem_append.mp he with he | he
      · exact h.keyed _ e he
      · rw [List.mem_singleton.mp he]
        exact hkey

lemma WellFormed.remove (h : mp.WellFormed) (hrun : mp.remove tx = .ok mp') : mp'.WellFormed := by
  obtain ⟨-, q, htake, rfl⟩ := remove_eq_ok_iff.mp hrun
  have hmem : ∀ e ∈ q.elems, e ∈ (mp.queue (isOracleTx tx.msgs)).elems := by
    obtain ⟨e, -, rfl⟩ := IndexedQueue.take_eq_some htake
    exact fun x hx => List.mem_of_mem_filter hx
  exact h.withQueue ((h.valid _).take htake) (fun e he => h.kind _ e (hmem e he))
    (fun e he => h.keyed _ e (hmem e he))

/-- One call keeps the pool well formed. -/
lemma WellFormed.run (h : mp.WellFormed) {op : Op} (hrun : op.run mp = .ok mp') :
    mp'.WellFormed := by
  cases op with
  | insert tx => exact h.insert hrun
  | remove tx => exact h.remove hrun

/-- And so does every history. -/
lemma WellFormed.after (h : mp.WellFormed) (ops : List Op) : (mp.after ops).WellFormed :=
  foldl_keepOnError WellFormed h fun _ _ _ _ hmp hrun => hmp.run hrun

lemma wellFormed_poolAfter (maxTx : ℤ) (ops : List Op) : (poolAfter maxTx ops).WellFormed :=
  (wellFormed_new maxTx).after ops

/-! ### Representation -/

/-- Every transaction the pool holds is indexed. -/
def Matched (mp : FifoMempool) : Prop := ∀ b, (mp.queue b).Matched keyOf

/-- The maps represent the queues. -/
structure Represented (mp : FifoMempool) : Prop where
  /-- Each map is in one-to-one correspondence with its queue. -/
  oneToOne : ∀ b, (mp.queue b).OneToOne
  /-- Each transaction the pool holds can be removed, and it alone is then gone. -/
  removable : ∀ tx ∈ mp.held, ∃ mp', mp.remove tx = .ok mp' ∧ mp.held.Perm (tx :: mp'.held)
  /-- Once all are removed, in any order, the count is zero. -/
  emptied : ∀ l : List Tx, l.Perm mp.held →
    ∃ mp' : FifoMempool, l.foldlM FifoMempool.remove mp = .ok mp' ∧ mp'.countTx = 0

lemma mem_held_iff {mp : FifoMempool} {tx : Tx} :
    tx ∈ mp.held ↔ ∃ b, ∃ e ∈ (mp.queue b).elems, e.value = tx := by
  rw [held, List.mem_append, IndexedQueue.values, IndexedQueue.values, List.mem_map, List.mem_map]
  constructor
  · rintro (h | h)
    · exact ⟨true, h⟩
    · exact ⟨false, h⟩
  · rintro ⟨b, h⟩
    cases b with
    | true => exact .inl h
    | false => exact .inr h

/-- The pool with one element of a queue removed. -/
lemma held_perm_withQueue {mp : FifoMempool} {b : Bool} {q : IndexedQueue TxKey Tx} {tx : Tx}
    (h : (mp.queue b).values.Perm (tx :: q.values)) :
    mp.held.Perm (tx :: (mp.withQueue b q).held) := by
  cases b with
  | true => exact h.append_right _
  | false =>
      exact (h.append_left mp.txsOracle.values).trans List.perm_middle

/-- A transaction that is indexed can be removed, and the others stay indexed. -/
lemma remove_of_matched (h : mp.WellFormed) (hm : mp.Matched) (htx : tx ∈ mp.held) :
    ∃ mp', mp.remove tx = .ok mp' ∧ mp.held.Perm (tx :: mp'.held) ∧ mp'.Matched := by
  obtain ⟨b, e, he, rfl⟩ := mem_held_iff.mp htx
  have htake := IndexedQueue.take_of_matched (hm b) he
  have hb := h.kind b e he
  refine ⟨_, remove_eq_ok_iff.mpr ⟨h.keyed b e he, _, hb.symm ▸ htake, rfl⟩, ?_, fun b' => ?_⟩
  · rw [hb]
    exact held_perm_withQueue
      ((IndexedQueue.perm_cons_filter (h.valid b).distinct he).map Elem.value)
  · rw [hb, queue_withQueue]
    split_ifs with hbb'
    · exact (IndexedQueue.matched_take_iff (h.valid b) htake).mpr (hm b)
    · exact hm b'

/-- A pool whose transactions are all indexed is represented by its maps. -/
lemma represented_iff_matched (h : mp.WellFormed) : mp.Represented ↔ mp.Matched := by
  constructor
  · intro hrep b
    exact (IndexedQueue.matched_iff_oneToOne (h.valid b)).mpr (hrep.oneToOne b)
  · intro hm
    refine ⟨fun b => (IndexedQueue.matched_iff_oneToOne (h.valid b)).mp (hm b), fun tx htx => ?_,
      fun l hl => ?_⟩
    · obtain ⟨mp', hrun, hperm, -⟩ := remove_of_matched h hm htx
      exact ⟨mp', hrun, hperm⟩
    · induction l generalizing mp with
      | nil => exact ⟨mp, rfl, by rw [countTx_eq, ← hl.length_eq, List.length_nil]⟩
      | cons tx l ih =>
          obtain ⟨mp₁, hrun, hperm, hm₁⟩ := remove_of_matched h hm (hl.subset List.mem_cons_self)
          obtain ⟨mp', hrest, hzero⟩ :=
            ih (h.remove hrun) hm₁ ((hl.trans hperm).cons_inv)
          refine ⟨mp', ?_, hzero⟩
          rw [List.foldlM_cons, hrun, ok_bind, hrest]

/-- One call keeps every transaction indexed exactly where it does not add one to a queue that
holds one with its key. -/
lemma matched_run_iff (h : mp.WellFormed) {op : Op} (hrun : op.run mp = .ok mp') :
    mp'.Matched ↔ mp.Matched ∧ ∀ tx, op = .insert tx → 0 ≤ mp.maxTx →
      ∀ tx' ∈ (mp.queue (isOracleTx tx.msgs)).values, keyOf tx' ≠ keyOf tx := by
  -- a call changes one queue, and the other stays indexed as it was
  have hone : ∀ {b : Bool} {q : IndexedQueue TxKey Tx} {P : Prop},
      (q.Matched keyOf ↔ (mp.queue b).Matched keyOf ∧ P) →
      ((mp.withQueue b q).Matched ↔ mp.Matched ∧ P) := by
    intro b q P hq
    constructor
    · intro hm
      have hqueue := hm b
      rw [queue_withQueue, if_pos rfl] at hqueue
      refine ⟨fun b' => ?_, (hq.mp hqueue).2⟩
      have hb' := hm b'
      rw [queue_withQueue] at hb'
      split_ifs at hb' with heq
      · exact heq ▸ (hq.mp hqueue).1
      · exact hb'
    · rintro ⟨hm, hP⟩ b'
      rw [queue_withQueue]
      split_ifs with heq
      · exact hq.mpr ⟨hm b, hP⟩
      · exact hm b'
  cases op with
  | insert tx =>
      rcases insert_eq_ok hrun with ⟨hneg, rfl⟩ | ⟨hpos, -, rfl⟩
      · exact ⟨fun hm => ⟨hm, fun _ _ h0 => absurd hneg (not_lt.mpr h0)⟩, And.left⟩
      · rw [hone (IndexedQueue.matched_push_iff (h.valid _))]
        refine and_congr_right fun _ => ⟨fun hfree tx₁ heq _ => ?_, fun hall => hall tx rfl hpos⟩
        obtain rfl := Op.insert.inj heq
        exact hfree
  | remove tx =>
      obtain ⟨-, q, htake, rfl⟩ := remove_eq_ok_iff.mp hrun
      rw [hone (P := True) (by rw [and_true]; exact IndexedQueue.matched_take_iff (h.valid _) htake)]
      simp

lemma maxTx_run {op : Op} (hrun : op.run mp = .ok mp') : mp'.maxTx = mp.maxTx := by
  have hqueue : ∀ b q, (mp.withQueue b q).maxTx = mp.maxTx := by
    intro b q
    cases b <;> rfl
  cases op with
  | insert tx =>
      rcases insert_eq_ok hrun with ⟨-, rfl⟩ | ⟨-, -, rfl⟩
      · rfl
      · exact hqueue _ _
  | remove tx =>
      obtain ⟨-, q, -, rfl⟩ := remove_eq_ok_iff.mp hrun
      exact hqueue _ _

lemma maxTx_poolAfter (maxTx : ℤ) (ops : List Op) : (poolAfter maxTx ops).maxTx = maxTx :=
  foldl_keepOnError (fun mp => mp.maxTx = maxTx) rfl fun _ _ _ _ hmp hrun =>
    (maxTx_run hrun).trans hmp

end FifoMempool

/-- Wherever a history added a transaction to its queue, the queue held none with its key. -/
def InsertsFresh (maxTx : ℤ) (ops : List Op) : Prop :=
  ∀ pre tx post, ops = pre ++ .insert tx :: post → 0 ≤ maxTx →
    ∀ mp', (poolAfter maxTx pre).insert tx = .ok mp' →
      ∀ tx' ∈ ((poolAfter maxTx pre).queue (isOracleTx tx.msgs)).values, keyOf tx' ≠ keyOf tx

lemma poolAfter_concat (maxTx : ℤ) (ops : List Op) (op : Op) :
    poolAfter maxTx (ops ++ [op])
      = keepOnError (poolAfter maxTx ops) (op.run (poolAfter maxTx ops)) := by
  rw [poolAfter, FifoMempool.after, List.foldl_append]
  rfl

lemma insertsFresh_concat {maxTx : ℤ} {ops : List Op} {op : Op} :
    InsertsFresh maxTx (ops ++ [op]) ↔ InsertsFresh maxTx ops
      ∧ ∀ tx, op = .insert tx → 0 ≤ maxTx → ∀ mp', (poolAfter maxTx ops).insert tx = .ok mp' →
        ∀ tx' ∈ ((poolAfter maxTx ops).queue (isOracleTx tx.msgs)).values,
          keyOf tx' ≠ keyOf tx := by
  constructor
  · intro h
    refine ⟨fun pre tx post heq => h pre tx (post ++ [op]) (by rw [heq]; simp), ?_⟩
    rintro tx rfl
    exact h ops tx [] rfl
  · rintro ⟨h, hlast⟩ pre tx post heq
    rcases List.eq_nil_or_concat post with rfl | ⟨post', op', rfl⟩
    · obtain ⟨rfl, hop⟩ := List.append_inj' heq rfl
      exact hlast tx (List.singleton_inj.mp hop)
    · have happ : ops ++ [op] = (pre ++ .insert tx :: post') ++ [op'] := by
        rw [heq, List.concat_eq_append, List.append_assoc, List.cons_append]
      exact h pre tx post' (List.append_inj' happ rfl).1

/-- **Representation.** After a history of calls the maps represent the queues exactly when no
transaction was added to a queue that held one with its key. -/
theorem represented_iff (maxTx : ℤ) (ops : List Op) :
    (poolAfter maxTx ops).Represented ↔ InsertsFresh maxTx ops := by
  rw [FifoMempool.represented_iff_matched (FifoMempool.wellFormed_poolAfter maxTx ops)]
  induction ops using List.reverseRecOn with
  | nil =>
      refine ⟨fun _ pre tx post heq => absurd heq (by simp), fun _ b => ?_⟩
      cases b <;> exact IndexedQueue.matched_empty
  | append_singleton ops op ih =>
      rw [insertsFresh_concat, ← ih, poolAfter_concat]
      cases hrun : op.run (poolAfter maxTx ops) with
      | error e =>
          refine ⟨fun hm => ⟨hm, ?_⟩, And.left⟩
          rintro tx rfl - mp' hok
          exact absurd (hrun.symm.trans hok) (by simp)
      | ok mp' =>
          rw [keepOnError, FifoMempool.matched_run_iff
            (FifoMempool.wellFormed_poolAfter maxTx ops) hrun, FifoMempool.maxTx_poolAfter]
          refine and_congr_right fun _ => ⟨fun h tx hop h0 _ _ => h tx hop h0, fun h tx hop h0 => ?_⟩
          exact h tx hop h0 mp' (by rw [← hrun, hop]; rfl)

/-- A transaction of messages signed by one account. -/
def signedBy (sender : String) (sequence : UInt64) (msgs : List Ante.Msg) : Tx :=
  ⟨msgs, .ok [⟨some sender, sequence⟩]⟩

/-- Two different transactions of one signer with one sequence: the map forgets the first, a
removal of the first removes the second, and the pool counts one when both were removed. -/
theorem replaced_not_represented :
    let replaced := signedBy "terra1x" 7 [.other]
    let replacing := signedBy "terra1x" 7 [.other, .other]
    ¬ (poolAfter defaultMaxTx [.insert replaced, .insert replacing]).Represented
      ∧ (poolAfter defaultMaxTx [.insert replaced, .insert replacing,
          .remove replaced, .remove replacing]).countTx = 1 := by
  intro replaced replacing
  refine ⟨fun hrep => ?_, by decide +kernel⟩
  have hmatched := (FifoMempool.represented_iff_matched
    (FifoMempool.wellFormed_poolAfter defaultMaxTx _)).mp hrep
  -- the key of the first element leads to the second
  have hfirst := hmatched false ⟨0, replaced⟩ (.head _)
  exact absurd (congrArg (Option.map Elem.id) hfirst) (by decide +kernel)

end ColumbusCore.Mempool
