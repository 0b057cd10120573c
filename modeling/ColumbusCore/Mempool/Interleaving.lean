import ColumbusCore.Lib.Threads
import ColumbusCore.Mempool.Fifo

/-!
Calls of the mempool that run at the same time.

`Insert` and `Remove` take the lock of the pool for reading only (`mp.mtx.RLock`), so that callers
are kept apart by the locks of the lists and of the maps alone: `Len`, `PushBack` and `Remove` of a
list and `Store` and `LoadAndDelete` of a map are the atomic steps. Between two of them any other
caller may run.

* `Caller.step`: the next atomic step of a caller; `run_alone`: the steps of one call with no other
  in between are that call in `Mempool.Fifo`;
* `consistent_interleaved`: after every step of every interleaving the pool is well formed;
* **`countTx_interleaved_le`**: the pool holds at most `maxTx` transactions and one for each further
  caller;
* **`calls_end_interleaved`**: every call ends after its own steps, no element is taken out of a list
  that does not hold it, and no insertion or removal is lost or made twice.
-/

namespace ColumbusCore.Mempool

open Go
open Std (ExtTreeMap TransOrd LawfulEqOrd)
open Ante (isOracleTx)

/-! ### Callers -/

/-- Where a caller is in its call. -/
inductive Phase where
  /-- Between two calls. -/
  | idle
  /-- `Insert` has read `mp.txs.Len()`. -/
  | lengthRead (tx : Tx) (length : ℕ)
  /-- `Insert` has passed the check of the capacity and has a key. -/
  | admitted (tx : Tx) (txKey : TxKey)
  /-- `Insert` has added the element to the list, and not yet to the map. -/
  | pushed (tx : Tx) (txKey : TxKey) (e : Elem Tx)
  /-- `Remove` has taken the element out of the map, and not yet out of the list. -/
  | taken (tx : Tx) (e : Elem Tx)
  /-- `Remove` was asked to take an element out of a list that does not hold it. -/
  | broken

/-- A caller: the calls it has still to make, and the outcomes of those it has made. -/
structure Caller where
  phase : Phase
  calls : List Op
  results : List (Op × Outcome Unit)

namespace Caller

/-- The end of a call. -/
def ends (a : Caller) (op : Op) (outcome : Outcome Unit) : Caller :=
  { a with phase := .idle, results := a.results ++ [(op, outcome)] }

/-- The next atomic step of a caller, with what it computes on its own before the step after. -/
def step (mp : FifoMempool) (a : Caller) : Option (FifoMempool × Caller) :=
  match a.phase with
  | .idle =>
      match a.calls with
      | [] => none
      | .insert tx :: calls =>
          some (mp, { a with phase := .lengthRead tx mp.txs.elems.length, calls := calls })
      | .remove tx :: calls =>
          match getTxKey tx with
          | .error err => some (mp, ends { a with calls := calls } (.remove tx) (.error err))
          | .ok txKey =>
              let q := mp.queue (isOracleTx tx.msgs)
              match q.index[txKey]? with
              | none => some (mp, ends { a with calls := calls } (.remove tx)
                  (failed "tx not found in mempool"))
              | some e => some (mp.withQueue (isOracleTx tx.msgs) (q.unindex txKey),
                  { a with phase := .taken tx e, calls := calls })
  | .lengthRead tx length =>
      let totalTxs := length + mp.txsOracle.elems.length
      if 0 ≤ mp.maxTx ∧ mp.maxTx ≤ totalTxs then
        some (mp, a.ends (.insert tx) (failed "pool reached max tx capacity"))
      else if mp.maxTx < 0 then some (mp, a.ends (.insert tx) (pure ()))
      else
        match getTxKey tx with
        | .error err => some (mp, a.ends (.insert tx) (.error err))
        | .ok txKey => some (mp, { a with phase := .admitted tx txKey })
  | .admitted tx txKey =>
      let q := mp.queue (isOracleTx tx.msgs)
      some (mp.withQueue (isOracleTx tx.msgs) (q.pushBack tx),
        { a with phase := .pushed tx txKey ⟨q.fresh, tx⟩ })
  | .pushed tx txKey e =>
      let q := mp.queue (isOracleTx tx.msgs)
      some (mp.withQueue (isOracleTx tx.msgs) (q.store txKey e), a.ends (.insert tx) (pure ()))
  | .taken tx e =>
      let q := mp.queue (isOracleTx tx.msgs)
      if e.id ∈ q.elems.map Elem.id then
        some (mp.withQueue (isOracleTx tx.msgs) (q.unlink e), a.ends (.remove tx) (pure ()))
      else some (mp, { a with phase := .broken })
  | .broken => none

end Caller

/-- Callers before their calls, and a pool without transactions. -/
def start {ι : Type} (maxTx : ℤ) (calls : ι → List Op) : Threads ι FifoMempool Caller :=
  ⟨newFifoMempool maxTx, fun i => ⟨.idle, calls i, []⟩⟩

/-- The pool and the callers after the steps of a schedule. -/
def interleaved {ι : Type} [DecidableEq ι] (maxTx : ℤ) (calls : ι → List Op)
    (schedule : List ι) : Threads ι FifoMempool Caller :=
  (start maxTx calls).run Caller.step schedule

/-! ### What a step does -/

/-- Every step of a caller: what it starts from, and what it leaves. -/
inductive Caller.Step (mp : FifoMempool) : Caller → FifoMempool → Caller → Prop
  | readLength (tx : Tx) (calls : List Op) (results : List (Op × Outcome Unit)) :
      Step mp ⟨.idle, .insert tx :: calls, results⟩ mp
        ⟨.lengthRead tx mp.txs.elems.length, calls, results⟩
  | refuse (tx : Tx) (length : ℕ) (err : Fault) (calls : List Op)
      (results : List (Op × Outcome Unit)) :
      Step mp ⟨.lengthRead tx length, calls, results⟩ mp
        ⟨.idle, calls, results ++ [(.insert tx, .error err)]⟩
  | ignore (tx : Tx) (length : ℕ) (calls : List Op) (results : List (Op × Outcome Unit))
      (hneg : mp.maxTx < 0) :
      Step mp ⟨.lengthRead tx length, calls, results⟩ mp
        ⟨.idle, calls, results ++ [(.insert tx, pure ())]⟩
  | hasRoom (tx : Tx) (length : ℕ) (txKey : TxKey) (calls : List Op)
      (results : List (Op × Outcome Unit))
      (hroom : length + mp.txsOracle.elems.length < mp.maxTx.toNat)
      (hkey : getTxKey tx = .ok txKey) :
      Step mp ⟨.lengthRead tx length, calls, results⟩ mp ⟨.admitted tx txKey, calls, results⟩
  | pushBack (tx : Tx) (txKey : TxKey) (calls : List Op) (results : List (Op × Outcome Unit)) :
      Step mp ⟨.admitted tx txKey, calls, results⟩
        (mp.withQueue (isOracleTx tx.msgs) ((mp.queue (isOracleTx tx.msgs)).pushBack tx))
        ⟨.pushed tx txKey ⟨(mp.queue (isOracleTx tx.msgs)).fresh, tx⟩, calls, results⟩
  | store (tx : Tx) (txKey : TxKey) (e : Elem Tx) (calls : List Op)
      (results : List (Op × Outcome Unit)) :
      Step mp ⟨.pushed tx txKey e, calls, results⟩
        (mp.withQueue (isOracleTx tx.msgs) ((mp.queue (isOracleTx tx.msgs)).store txKey e))
        ⟨.idle, calls, results ++ [(.insert tx, pure ())]⟩
  | notFound (tx : Tx) (err : Fault) (calls : List Op) (results : List (Op × Outcome Unit)) :
      Step mp ⟨.idle, .remove tx :: calls, results⟩ mp
        ⟨.idle, calls, results ++ [(.remove tx, .error err)]⟩
  | loadAndDelete (tx : Tx) (txKey : TxKey) (e : Elem Tx) (calls : List Op)
      (results : List (Op × Outcome Unit)) (hkey : getTxKey tx = .ok txKey)
      (he : (mp.queue (isOracleTx tx.msgs)).index[txKey]? = some e) :
      Step mp ⟨.idle, .remove tx :: calls, results⟩
        (mp.withQueue (isOracleTx tx.msgs) ((mp.queue (isOracleTx tx.msgs)).unindex txKey))
        ⟨.taken tx e, calls, results⟩
  | unlink (tx : Tx) (e : Elem Tx) (calls : List Op) (results : List (Op × Outcome Unit)) :
      Step mp ⟨.taken tx e, calls, results⟩
        (mp.withQueue (isOracleTx tx.msgs) ((mp.queue (isOracleTx tx.msgs)).unlink e))
        ⟨.idle, calls, results ++ [(.remove tx, pure ())]⟩
  | crash (tx : Tx) (e : Elem Tx) (calls : List Op) (results : List (Op × Outcome Unit))
      (habsent : e.id ∉ (mp.queue (isOracleTx tx.msgs)).elems.map Elem.id) :
      Step mp ⟨.taken tx e, calls, results⟩ mp ⟨.broken, calls, results⟩

lemma Caller.step_cases {mp mp' : FifoMempool} {a a' : Caller}
    (h : a.step mp = some (mp', a')) : a.Step mp mp' a' := by
  obtain ⟨phase, calls, results⟩ := a
  cases phase with
  | idle =>
      cases calls with
      | nil => exact absurd h (by simp [Caller.step])
      | cons op calls =>
          cases op with
          | insert tx =>
              obtain ⟨rfl, rfl⟩ := Prod.mk.inj (Option.some.inj h)
              exact .readLength tx calls results
          | remove tx =>
              simp only [Caller.step] at h
              split at h
              · obtain ⟨rfl, rfl⟩ := Prod.mk.inj (Option.some.inj h)
                exact .notFound tx _ calls results
              · rename_i txKey hkey
                split at h
                · obtain ⟨rfl, rfl⟩ := Prod.mk.inj (Option.some.inj h)
                  exact .notFound tx _ calls results
                · rename_i e he
                  obtain ⟨rfl, rfl⟩ := Prod.mk.inj (Option.some.inj h)
                  exact .loadAndDelete tx txKey e calls results hkey he
  | lengthRead tx length =>
      simp only [Caller.step] at h
      split_ifs at h with hfull hneg
      · obtain ⟨rfl, rfl⟩ := Prod.mk.inj (Option.some.inj h)
        exact .refuse tx length _ calls results
      · obtain ⟨rfl, rfl⟩ := Prod.mk.inj (Option.some.inj h)
        exact .ignore tx length calls results hneg
      · split at h
        · obtain ⟨rfl, rfl⟩ := Prod.mk.inj (Option.some.inj h)
          exact .refuse tx length _ calls results
        · rename_i txKey hkey
          obtain ⟨rfl, rfl⟩ := Prod.mk.inj (Option.some.inj h)
          refine .hasRoom tx length txKey calls results ?_ hkey
          have hroom : ((length + mp.txsOracle.elems.length : ℕ) : ℤ) < mp.maxTx :=
            not_le.mp fun hle => hfull ⟨not_lt.mp hneg, hle⟩
          omega
  | admitted tx txKey =>
      obtain ⟨rfl, rfl⟩ := Prod.mk.inj (Option.some.inj h)
      exact .pushBack tx txKey calls results
  | pushed tx txKey e =>
      obtain ⟨rfl, rfl⟩ := Prod.mk.inj (Option.some.inj h)
      exact .store tx txKey e calls results
  | taken tx e =>
      simp only [Caller.step] at h
      split_ifs at h with hmem
      · obtain ⟨rfl, rfl⟩ := Prod.mk.inj (Option.some.inj h)
        exact .unlink tx e calls results
      · obtain ⟨rfl, rfl⟩ := Prod.mk.inj (Option.some.inj h)
        exact .crash tx e calls results hmem
  | broken => exact absurd h (by simp [Caller.step])

/-! ### A call with no other in between -/

section Alone

variable {ι : Type} [DecidableEq ι] {c : Threads ι FifoMempool Caller} {i : ι} {calls : List Op}
  {results : List (Op × Outcome Unit)}

lemma run_insert_alone {tx : Tx} (hi : c.own i = ⟨.idle, .insert tx :: calls, results⟩) :
    ∃ n ≤ 4, c.run Caller.step (List.replicate n i) =
      ⟨keepOnError c.shared (c.shared.insert tx), Function.update c.own i ⟨.idle, calls,
        results ++ [(.insert tx, (c.shared.insert tx).map fun _ => ())]⟩⟩ := by
  have hread : (c.own i).step c.shared
      = some (c.shared, ⟨.lengthRead tx c.shared.txs.elems.length, calls, results⟩) := by
    rw [hi]
    rfl
  rw [FifoMempool.insert]
  by_cases hfull : 0 ≤ c.shared.maxTx ∧ c.shared.maxTx ≤ c.shared.countTx
  · refine ⟨2, by omega, ?_⟩
    rw [if_pos hfull, List.replicate_succ, Threads.run_cons_of_some hread, List.replicate_succ,
      Threads.run_update_of_some (by simp only [Caller.step]; exact if_pos hfull)]
    rfl
  by_cases hneg : c.shared.maxTx < 0
  · refine ⟨2, by omega, ?_⟩
    rw [if_neg hfull, if_pos hneg, List.replicate_succ, Threads.run_cons_of_some hread,
      List.replicate_succ, Threads.run_update_of_some
        (by simp only [Caller.step]; exact (if_neg hfull).trans (if_pos hneg))]
    rfl
  rw [if_neg hfull, if_neg hneg]
  cases hkey : getTxKey tx with
  | error err =>
      refine ⟨2, by omega, ?_⟩
      rw [List.replicate_succ, Threads.run_cons_of_some hread, List.replicate_succ,
        Threads.run_update_of_some
          (by simp only [Caller.step, hkey]; exact (if_neg hfull).trans (if_neg hneg))]
      rfl
  | ok txKey =>
      refine ⟨4, le_rfl, ?_⟩
      rw [List.replicate_succ, Threads.run_cons_of_some hread, List.replicate_succ,
        Threads.run_update_of_some
          (by simp only [Caller.step, hkey]; exact (if_neg hfull).trans (if_neg hneg)),
        List.replicate_succ, Threads.run_update_of_some rfl, List.replicate_succ,
        Threads.run_update_of_some rfl]
      cases hb : isOracleTx tx.msgs <;> rfl

lemma run_remove_alone (h : c.shared.WellFormed) {tx : Tx}
    (hi : c.own i = ⟨.idle, .remove tx :: calls, results⟩) :
    ∃ n ≤ 4, c.run Caller.step (List.replicate n i) =
      ⟨keepOnError c.shared (c.shared.remove tx), Function.update c.own i ⟨.idle, calls,
        results ++ [(.remove tx, (c.shared.remove tx).map fun _ => ())]⟩⟩ := by
  rw [FifoMempool.remove_eq]
  cases hkey : getTxKey tx with
  | error err =>
      refine ⟨1, by omega, ?_⟩
      rw [List.replicate_succ, Threads.run_cons_of_some (by rw [hi]; simp only [Caller.step, hkey]; rfl)]
      rfl
  | ok txKey =>
      rw [ok_bind, IndexedQueue.take_eq_unlink]
      cases he : (c.shared.queue (isOracleTx tx.msgs)).index[txKey]? with
      | none =>
          refine ⟨1, by omega, ?_⟩
          rw [List.replicate_succ, Threads.run_cons_of_some
            (by rw [hi]; simp only [Caller.step, hkey, he]; rfl)]
          rfl
      | some e =>
          refine ⟨2, by omega, ?_⟩
          have hmem : e.id ∈ (c.shared.queue (isOracleTx tx.msgs)).elems.map Elem.id :=
            List.mem_map_of_mem ((h.valid _).indexed txKey e he).1
          rw [List.replicate_succ, Threads.run_cons_of_some
            (by rw [hi]; simp only [Caller.step, hkey, he]; rfl), List.replicate_succ,
            Threads.run_update_of_some (by
              simp only [Caller.step, FifoMempool.queue_withQueue, if_true]
              exact if_pos hmem)]
          cases hb : isOracleTx tx.msgs <;> rfl

/-- **The steps of one call with no other in between are the call itself.** -/
theorem run_alone (h : c.shared.WellFormed) {op : Op} (hi : c.own i = ⟨.idle, op :: calls, results⟩) :
    ∃ n ≤ 4, c.run Caller.step (List.replicate n i) =
      ⟨keepOnError c.shared (op.run c.shared), Function.update c.own i ⟨.idle, calls,
        results ++ [(op, (op.run c.shared).map fun _ => ())]⟩⟩ := by
  cases op with
  | insert tx => exact run_insert_alone hi
  | remove tx => exact run_remove_alone h hi

end Alone

/-! ### Elements in the hands of a caller -/

/-- The element a caller has in hand: in the list of its kind, and out of the map. -/
def Phase.inHand : Phase → Option (Bool × Elem Tx)
  | .pushed tx _ e => some (isOracleTx tx.msgs, e)
  | .taken tx e => some (isOracleTx tx.msgs, e)
  | _ => none

/-- What a phase says about its own data. -/
def Phase.Sound : Phase → Prop
  | .admitted tx txKey => getTxKey tx = .ok txKey
  | .pushed tx txKey e => getTxKey tx = .ok txKey ∧ e.value = tx
  | .broken => False
  | _ => True

/-- An element of a list that is not in the map. -/
def FifoMempool.Loose (mp : FifoMempool) (o : Bool × Elem Tx) : Prop :=
  o.2 ∈ (mp.queue o.1).elems ∧ ∀ k : TxKey, (mp.queue o.1).index[k]? ≠ some o.2

/-- The pool is well formed, and what callers have in hand is loose and in the hands of one
caller. -/
structure Consistent {ι : Type} (c : Threads ι FifoMempool Caller) : Prop where
  wellFormed : c.shared.WellFormed
  sound : ∀ i, (c.own i).phase.Sound
  loose : ∀ i o, (c.own i).phase.inHand = some o → c.shared.Loose o
  exclusive : ∀ i j o, (c.own i).phase.inHand = some o → (c.own j).phase.inHand = some o → i = j

section Consistency

variable {ι : Type} [DecidableEq ι] {c : Threads ι FifoMempool Caller} {mp mp' : FifoMempool}
  {a a' : Caller}

/-- A step keeps the callers consistent where it leaves loose what others may have in hand, and
takes only what no other has. -/
lemma Consistent.update (h : Consistent c) (i : ι) (hwf : mp'.WellFormed) (hsound : a'.phase.Sound)
    (hkeep : ∀ o, c.shared.Loose o → (c.own i).phase.inHand ≠ some o → mp'.Loose o)
    (hnew : ∀ o, a'.phase.inHand = some o →
      mp'.Loose o ∧ ((c.own i).phase.inHand = some o ∨ ¬c.shared.Loose o)) :
    Consistent ⟨mp', Function.update c.own i a'⟩ := by
  -- nobody else has what the step takes
  have hsole : ∀ j o, a'.phase.inHand = some o → (c.own j).phase.inHand = some o → i = j := by
    intro j o ho hj
    rcases (hnew o ho).2 with hi | hnot
    · exact h.exclusive i j o hi hj
    · exact absurd (h.loose j o hj) hnot
  refine ⟨hwf, fun j => ?_, fun j o hj => ?_, fun j k o hj hk => ?_⟩
  · by_cases hji : j = i
    · subst hji
      simpa using hsound
    · simpa [hji] using h.sound j
  · by_cases hji : j = i
    · subst hji
      exact (hnew o (by simpa using hj)).1
    · simp only [ne_eq, hji, not_false_eq_true, Function.update_of_ne] at hj
      exact hkeep o (h.loose j o hj) fun hi => hji (h.exclusive j i o hj hi)
  · by_cases hji : j = i
    · subst hji
      by_cases hkj : k = j
      · exact hkj.symm
      · simp only [Function.update_self] at hj
        simp only [ne_eq, hkj, not_false_eq_true, Function.update_of_ne] at hk
        exact hsole k o hj hk
    · simp only [ne_eq, hji, not_false_eq_true, Function.update_of_ne] at hj
      by_cases hki : k = i
      · subst hki
        simp only [Function.update_self] at hk
        exact (hsole j o hk hj).symm
      · simp only [ne_eq, hki, not_false_eq_true, Function.update_of_ne] at hk
        exact h.exclusive j k o hj hk

/-- A step that only reads, and leaves its caller with nothing in hand. -/
lemma Consistent.update_read (h : Consistent c) (i : ι) (hsound : a'.phase.Sound)
    (hnone : a'.phase.inHand = none) : Consistent ⟨c.shared, Function.update c.own i a'⟩ :=
  h.update i h.wellFormed hsound (fun _ ho _ => ho) fun o ho => by simp [hnone] at ho

/-- What is loose after one queue is replaced. -/
lemma FifoMempool.Loose.withQueue {b : Bool} {q : IndexedQueue TxKey Tx} {o : Bool × Elem Tx}
    (h : mp.Loose o) (hq : b = o.1 → o.2 ∈ q.elems ∧ ∀ k : TxKey, q.index[k]? ≠ some o.2) :
    (mp.withQueue b q).Loose o := by
  rw [FifoMempool.Loose, FifoMempool.queue_withQueue]
  split_ifs with hb
  · exact hq hb
  · exact h

lemma loose_withQueue {b : Bool} {q : IndexedQueue TxKey Tx} {e : Elem Tx} (hmem : e ∈ q.elems)
    (hout : ∀ k : TxKey, q.index[k]? ≠ some e) : (mp.withQueue b q).Loose (b, e) := by
  rw [FifoMempool.Loose, FifoMempool.queue_withQueue, if_pos rfl]
  exact ⟨hmem, hout⟩

lemma Consistent.pushBack (h : Consistent c) {i : ι} {tx : Tx} {txKey : TxKey} {calls : List Op}
    {results : List (Op × Outcome Unit)} (hi : c.own i = ⟨.admitted tx txKey, calls, results⟩) :
    Consistent ⟨c.shared.withQueue (isOracleTx tx.msgs)
        ((c.shared.queue (isOracleTx tx.msgs)).pushBack tx), Function.update c.own i
          ⟨.pushed tx txKey ⟨(c.shared.queue (isOracleTx tx.msgs)).fresh, tx⟩, calls, results⟩⟩ := by
  have hkey : getTxKey tx = .ok txKey := by
    have hsound := h.sound i
    rwa [hi] at hsound
  have hkeyed : getTxKey tx = .ok (keyOf tx) := by rw [keyOf_eq hkey, hkey]
  have hvalid := h.wellFormed.valid (isOracleTx tx.msgs)
  refine h.update i (h.wellFormed.withQueue (hvalid.pushBack tx) (fun e he => ?_) fun e he => ?_)
    ⟨hkey, rfl⟩ (fun o ho _ => ho.withQueue fun hb => ?_) fun o ho => ?_
  · rcases List.mem_append.mp he with he | he
    · exact h.wellFormed.kind _ e he
    · rw [List.mem_singleton.mp he]
  · rcases List.mem_append.mp he with he | he
    · exact h.wellFormed.keyed _ e he
    · rw [List.mem_singleton.mp he, hkeyed]
  · rw [hb]
    exact ⟨List.mem_append_left _ ho.1, ho.2⟩
  · obtain rfl := Option.some.inj ho
    -- the identity of the new element is in use nowhere
    have hunused : ⟨(c.shared.queue (isOracleTx tx.msgs)).fresh, tx⟩
        ∉ (c.shared.queue (isOracleTx tx.msgs)).elems :=
      fun hmem => lt_irrefl _ (hvalid.lt_fresh _ hmem)
    refine ⟨loose_withQueue (List.mem_append_right _ (List.mem_singleton.mpr rfl)) fun k hk => ?_,
      .inr fun hloose => hunused hloose.1⟩
    exact hunused (hvalid.indexed k _ hk).1

lemma Consistent.store (h : Consistent c) {i : ι} {tx : Tx} {txKey : TxKey} {e : Elem Tx}
    {calls : List Op} {results : List (Op × Outcome Unit)}
    (hi : c.own i = ⟨.pushed tx txKey e, calls, results⟩) :
    Consistent ⟨c.shared.withQueue (isOracleTx tx.msgs)
        ((c.shared.queue (isOracleTx tx.msgs)).store txKey e), Function.update c.own i
          ⟨.idle, calls, results ++ [(.insert tx, pure ())]⟩⟩ := by
  classical
  have hphase : (c.own i).phase = .pushed tx txKey e := by rw [hi]
  obtain ⟨hkey, rfl⟩ : getTxKey tx = .ok txKey ∧ e.value = tx := by
    have hsound := h.sound i
    rwa [hphase] at hsound
  obtain rfl := keyOf_eq hkey
  have hloose := h.loose i (isOracleTx e.value.msgs, e) (by rw [hphase]; rfl)
  have hvalid := (h.wellFormed.valid (isOracleTx e.value.msgs)).store hloose.1
  refine h.update i (h.wellFormed.withQueue hvalid (h.wellFormed.kind _) (h.wellFormed.keyed _))
    trivial (fun o ho hother => ho.withQueue fun hb => ?_) fun o ho => by simp [Phase.inHand] at ho
  rw [hb]
  refine ⟨ho.1, fun k hk => ?_⟩
  rw [IndexedQueue.store, Go.getElem?_insert_ite] at hk
  split_ifs at hk
  · -- the stored element is the caller's own
    have hown : o = (isOracleTx e.value.msgs, e) := Prod.ext hb.symm (Option.some.inj hk).symm
    exact hother (by rw [hphase, hown]; rfl)
  · exact ho.2 k hk

lemma Consistent.loadAndDelete (h : Consistent c) {i : ι} {tx : Tx} {txKey : TxKey} {e : Elem Tx}
    {calls : List Op} {results : List (Op × Outcome Unit)}
    (he : (c.shared.queue (isOracleTx tx.msgs)).index[txKey]? = some e) :
    Consistent ⟨c.shared.withQueue (isOracleTx tx.msgs)
        ((c.shared.queue (isOracleTx tx.msgs)).unindex txKey), Function.update c.own i
          ⟨.taken tx e, calls, results⟩⟩ := by
  classical
  have hvalid := h.wellFormed.valid (isOracleTx tx.msgs)
  obtain ⟨hmem, hkey⟩ := hvalid.indexed txKey e he
  refine h.update i (h.wellFormed.withQueue (hvalid.unindex txKey) (h.wellFormed.kind _)
    (h.wellFormed.keyed _)) trivial (fun o ho _ => ho.withQueue fun hb => ?_) fun o ho => ?_
  · rw [hb]
    refine ⟨ho.1, fun k hk => ?_⟩
    rw [IndexedQueue.unindex, Go.getElem?_erase_ite] at hk
    split_ifs at hk
    exact ho.2 k hk
  · obtain rfl := Option.some.inj ho
    refine ⟨loose_withQueue hmem fun k hk => ?_, .inr fun hloose => hloose.2 txKey he⟩
    rw [IndexedQueue.unindex, Go.getElem?_erase_ite] at hk
    split_ifs at hk with hne
    -- an element is in the map under its own key only
    exact hne (hkey.symm.trans (hvalid.indexed k e hk).2)

lemma Consistent.unlink (h : Consistent c) {i : ι} {tx : Tx} {e : Elem Tx} {calls : List Op}
    {results : List (Op × Outcome Unit)} (hi : c.own i = ⟨.taken tx e, calls, results⟩) :
    Consistent ⟨c.shared.withQueue (isOracleTx tx.msgs)
        ((c.shared.queue (isOracleTx tx.msgs)).unlink e), Function.update c.own i
          ⟨.idle, calls, results ++ [(.remove tx, pure ())]⟩⟩ := by
  have hinHand : (c.own i).phase.inHand = some (isOracleTx tx.msgs, e) := by rw [hi]; rfl
  have hloose := h.loose i _ hinHand
  have hvalid := h.wellFormed.valid (isOracleTx tx.msgs)
  refine h.update i (h.wellFormed.withQueue (hvalid.unlink hloose.1 hloose.2)
      (fun x hx => h.wellFormed.kind _ x (List.mem_of_mem_filter hx))
      fun x hx => h.wellFormed.keyed _ x (List.mem_of_mem_filter hx))
    trivial (fun o ho hother => ho.withQueue fun hb => ?_) fun o ho => by simp [Phase.inHand] at ho
  rw [hb] at hloose hvalid ⊢
  refine ⟨List.mem_filter.mpr ⟨ho.1, decide_eq_true fun hid => hother ?_⟩, ho.2⟩
  have hsame : o.2 = e := hvalid.eq_of_id ho.1 hloose.1 hid
  rw [hinHand, hb, ← hsame]

/-- **No step of a caller breaks what the others rely on.** -/
theorem Consistent.step (h : Consistent c) (i : ι) (hstep : (c.own i).step c.shared = some (mp', a')) :
    Consistent ⟨mp', Function.update c.own i a'⟩ := by
  generalize hi : c.own i = a at hstep
  cases Caller.step_cases hstep with
  | readLength tx calls results => exact h.update_read i trivial rfl
  | refuse tx length err calls results => exact h.update_read i trivial rfl
  | ignore tx length calls results hneg => exact h.update_read i trivial rfl
  | hasRoom tx length txKey calls results hroom hkey => exact h.update_read i hkey rfl
  | pushBack tx txKey calls results => exact h.pushBack hi
  | store tx txKey e calls results => exact h.store hi
  | notFound tx err calls results => exact h.update_read i trivial rfl
  | loadAndDelete tx txKey e calls results hkey he => exact h.loadAndDelete he
  | unlink tx e calls results => exact h.unlink hi
  | crash tx e calls results habsent =>
      have hloose := h.loose i (isOracleTx tx.msgs, e) (by rw [hi]; rfl)
      exact absurd (List.mem_map_of_mem hloose.1) habsent

omit [DecidableEq ι] in
lemma consistent_start (maxTx : ℤ) (calls : ι → List Op) : Consistent (start maxTx calls) :=
  ⟨FifoMempool.wellFormed_new maxTx, fun _ => trivial, fun _ _ h => by simp [start, Phase.inHand] at h,
    fun _ _ _ h => by simp [start, Phase.inHand] at h⟩

lemma consistent_interleaved (maxTx : ℤ) (calls : ι → List Op) (schedule : List ι) :
    Consistent (interleaved maxTx calls schedule) :=
  Threads.run_invariant (fun _ i _ _ h hstep => h.step i hstep) (consistent_start maxTx calls)
    schedule

end Consistency

/-! ### The capacity

`Insert` reads the two lengths one after the other and pushes later, so that other callers may push
in between. `passed i` is the set of the callers that have pushed since caller `i` began its call.
Where each of them pushed once, the pool holds at most that many more than what caller `i` has read;
where one of them pushed again, its own check was made after caller `i` began. -/

/-- What a caller that has begun an insertion knows of the pool, with `n` callers that have pushed
since. -/
def Phase.Bounds (mp : FifoMempool) (n : ℕ) : Phase → Prop
  | .lengthRead _ length => mp.countTx ≤ length + mp.txsOracle.elems.length + n
      ∨ mp.countTx < mp.maxTx.toNat + n
  | .admitted _ _ => mp.countTx < mp.maxTx.toNat + n
  | _ => True

/-- The callers that have pushed since a caller began its call, and what follows for the pool. -/
structure Passed {ι : Type} [Fintype ι] (c : Threads ι FifoMempool Caller) (passed : ι → Finset ι) :
    Prop where
  other : ∀ i, i ∉ passed i
  nested : ∀ i j, j ∈ passed i → passed j ⊆ passed i
  bounds : ∀ i, (c.own i).phase.Bounds c.shared (passed i).card
  countTx_le : c.shared.countTx ≤ c.shared.maxTx.toNat + (Fintype.card ι - 1)

section Capacity

variable {mp mp' : FifoMempool} {b : Bool} {q : IndexedQueue TxKey Tx} {n : ℕ} {phase : Phase}

@[simp] lemma maxTx_withQueue : (mp.withQueue b q).maxTx = mp.maxTx := by cases b <;> rfl

lemma countTx_withQueue (mp : FifoMempool) (b : Bool) (q : IndexedQueue TxKey Tx) :
    (mp.withQueue b q).countTx + (mp.queue b).elems.length = mp.countTx + q.elems.length := by
  cases b with
  | false =>
      change q.elems.length + mp.txsOracle.elems.length + mp.txs.elems.length
        = mp.txs.elems.length + mp.txsOracle.elems.length + q.elems.length
      omega
  | true =>
      change mp.txs.elems.length + q.elems.length + mp.txsOracle.elems.length
        = mp.txs.elems.length + mp.txsOracle.elems.length + q.elems.length
      omega

lemma countTx_pushBack (mp : FifoMempool) (b : Bool) (tx : Tx) :
    (mp.withQueue b ((mp.queue b).pushBack tx)).countTx = mp.countTx + 1 := by
  have hcount := countTx_withQueue mp b ((mp.queue b).pushBack tx)
  rw [IndexedQueue.length_pushBack] at hcount
  omega

/-- The bounds look at the lengths of the lists. -/
lemma Phase.Bounds.of_lengths (h : phase.Bounds mp n) (hmax : mp'.maxTx = mp.maxTx)
    (hcount : mp'.countTx = mp.countTx)
    (horacle : mp'.txsOracle.elems.length = mp.txsOracle.elems.length) : phase.Bounds mp' n := by
  cases phase with
  | lengthRead tx length => simpa only [Phase.Bounds, hmax, hcount, horacle] using h
  | admitted tx txKey => simpa only [Phase.Bounds, hmax, hcount] using h
  | _ => trivial

/-- A queue replaced by one of the same length. -/
lemma Phase.Bounds.withQueue (h : phase.Bounds mp n)
    (hlength : q.elems.length = (mp.queue b).elems.length) :
    phase.Bounds (mp.withQueue b q) n := by
  refine h.of_lengths maxTx_withQueue ?_ ?_
  · have hcount := countTx_withQueue mp b q
    omega
  · cases b with
    | false => rfl
    | true => exact hlength

/-- A transaction less. -/
lemma Phase.Bounds.unlink (h : phase.Bounds mp n)
    (hlength : q.elems.length + 1 = (mp.queue b).elems.length) :
    phase.Bounds (mp.withQueue b q) n := by
  have hcount := countTx_withQueue mp b q
  have horacle : mp.txsOracle.elems.length ≤ (mp.withQueue b q).txsOracle.elems.length + 1 := by
    cases b with
    | false => exact Nat.le_succ _
    | true => exact hlength.ge
  cases phase with
  | lengthRead tx length =>
      simp only [Phase.Bounds, maxTx_withQueue] at h ⊢
      omega
  | admitted tx txKey =>
      simp only [Phase.Bounds, maxTx_withQueue] at h ⊢
      omega
  | _ => trivial

/-- A transaction more, by a caller that had not pushed before. -/
lemma Phase.Bounds.push (h : phase.Bounds mp n) (tx : Tx) :
    phase.Bounds (mp.withQueue b ((mp.queue b).pushBack tx)) (n + 1) := by
  have hcount := countTx_pushBack mp b tx
  have horacle : mp.txsOracle.elems.length
      ≤ (mp.withQueue b ((mp.queue b).pushBack tx)).txsOracle.elems.length := by
    cases b with
    | false => exact le_rfl
    | true => exact (Nat.le_succ _).trans (IndexedQueue.length_pushBack _ _).ge
  cases phase with
  | lengthRead tx length =>
      simp only [Phase.Bounds, maxTx_withQueue] at h ⊢
      omega
  | admitted tx txKey =>
      simp only [Phase.Bounds, maxTx_withQueue] at h ⊢
      omega
  | _ => trivial

/-- A pool below the capacity and `n`. -/
lemma Phase.bounds_of_lt (h : mp.countTx < mp.maxTx.toNat + n) : phase.Bounds mp n := by
  cases phase with
  | lengthRead tx length => exact .inr h
  | admitted tx txKey => exact h
  | _ => trivial

variable {ι : Type} [DecidableEq ι] [Fintype ι] {c : Threads ι FifoMempool Caller} {a' : Caller}
  {passed : ι → Finset ι}

/-- A step that pushes nothing. -/
lemma Passed.update (h : Passed c passed) (i : ι)
    (hown : a'.phase.Bounds mp' (passed i).card)
    (hothers : ∀ j, (c.own j).phase.Bounds mp' (passed j).card)
    (hcount : mp'.countTx ≤ c.shared.countTx) (hmax : mp'.maxTx = c.shared.maxTx) :
    Passed ⟨mp', Function.update c.own i a'⟩ passed := by
  refine ⟨h.other, h.nested, fun j => ?_, ?_⟩
  · by_cases hji : j = i
    · subst hji
      simpa using hown
    · simpa [hji] using hothers j
  · rw [hmax]
    exact hcount.trans h.countTx_le

/-- A caller begins an insertion: nobody has pushed since. -/
lemma Passed.readLength (h : Passed c passed) (i : ι) (tx : Tx) (calls : List Op)
    (results : List (Op × Outcome Unit)) :
    Passed ⟨c.shared, Function.update c.own i
        ⟨.lengthRead tx c.shared.txs.elems.length, calls, results⟩⟩
      (Function.update passed i ∅) := by
  refine ⟨fun j => ?_, fun j k hk => ?_, fun j => ?_, h.countTx_le⟩
  · by_cases hji : j = i
    · simp [hji]
    · simpa [hji] using h.other j
  · by_cases hji : j = i
    · simp [hji] at hk
    · rw [Function.update_of_ne hji] at hk ⊢
      by_cases hki : k = i
      · simp [hki]
      · rw [Function.update_of_ne hki]
        exact h.nested j k hk
  · by_cases hji : j = i
    · subst hji
      simp [Phase.Bounds, FifoMempool.countTx]
    · simpa [hji] using h.bounds j

/-- A caller pushes: it has passed every other, and is passed by none. -/
lemma Passed.pushBack (h : Passed c passed) {i : ι} {tx : Tx} {txKey : TxKey} {calls : List Op}
    {results : List (Op × Outcome Unit)} (hi : c.own i = ⟨.admitted tx txKey, calls, results⟩)
    (b : Bool) (e : Elem Tx) :
    Passed ⟨c.shared.withQueue b ((c.shared.queue b).pushBack tx),
        Function.update c.own i ⟨.pushed tx txKey e, calls, results⟩⟩
      fun j => if j = i then ∅ else insert i (passed j) := by
  have hroom : c.shared.countTx < c.shared.maxTx.toNat + (passed i).card := by
    have hbounds := h.bounds i
    rwa [hi] at hbounds
  have hcount := countTx_pushBack c.shared b tx
  refine ⟨fun j => ?_, fun j k hk => ?_, fun j => ?_, ?_⟩
  · split_ifs with hji
    · exact Finset.notMem_empty j
    · simpa [hji] using h.other j
  · by_cases hji : j = i
    · simp [hji] at hk
    · by_cases hki : k = i
      · simp [hki]
      · simp only [hji, hki, if_false] at hk ⊢
        exact Finset.insert_subset_insert i
          (h.nested j k ((Finset.mem_insert.mp hk).resolve_left hki))
  · by_cases hji : j = i
    · subst hji
      simp [Phase.Bounds]
    · simp only [hji, if_false, ne_eq, not_false_eq_true, Function.update_of_ne]
      by_cases hmem : i ∈ passed j
      · -- it pushes for the second time: it has made its check after the other began
        have hlt : (passed i).card < (passed j).card := Finset.card_lt_card
          (Finset.ssubset_iff_subset_ne.mpr ⟨h.nested j i hmem, fun heq => h.other i (heq ▸ hmem)⟩)
        refine Phase.bounds_of_lt ?_
        rw [Finset.insert_eq_of_mem hmem, hcount, maxTx_withQueue]
        omega
      · rw [Finset.card_insert_of_notMem hmem]
        exact (h.bounds j).push tx
  · have hcard : (passed i).card ≤ Fintype.card ι - 1 := by
      have hsubset : passed i ⊆ Finset.univ.erase i := fun j hj =>
        Finset.mem_erase.mpr ⟨fun hji => h.other i (hji ▸ hj), Finset.mem_univ j⟩
      have hle := Finset.card_le_card hsubset
      rwa [Finset.card_erase_of_mem (Finset.mem_univ i), Finset.card_univ] at hle
    rw [hcount, maxTx_withQueue]
    omega

/-- **Every step keeps the pool within the bounds of every caller.** -/
theorem Passed.step (h : Passed c passed) (hconsistent : Consistent c) (i : ι)
    (hstep : (c.own i).step c.shared = some (mp', a')) :
    ∃ passed', Passed ⟨mp', Function.update c.own i a'⟩ passed' := by
  generalize hi : c.own i = a at hstep
  have hbounds := h.bounds i
  rw [hi] at hbounds
  cases Caller.step_cases hstep with
  | readLength tx calls results => exact ⟨_, h.readLength i tx calls results⟩
  | refuse tx length err calls results => exact ⟨_, h.update i trivial h.bounds le_rfl rfl⟩
  | ignore tx length calls results hneg => exact ⟨_, h.update i trivial h.bounds le_rfl rfl⟩
  | hasRoom tx length txKey calls results hroom hkey =>
      refine ⟨_, h.update i ?_ h.bounds le_rfl rfl⟩
      simp only [Phase.Bounds] at hbounds ⊢
      omega
  | pushBack tx txKey calls results => exact ⟨_, h.pushBack hi _ _⟩
  | store tx txKey e calls results =>
      refine ⟨_, h.update i trivial (fun j => (h.bounds j).withQueue rfl) ?_ maxTx_withQueue⟩
      have hcount := countTx_withQueue c.shared (isOracleTx tx.msgs)
        ((c.shared.queue (isOracleTx tx.msgs)).store txKey e)
      exact (Nat.add_right_cancel hcount).le
  | notFound tx err calls results => exact ⟨_, h.update i trivial h.bounds le_rfl rfl⟩
  | loadAndDelete tx txKey e calls results hkey he =>
      refine ⟨_, h.update i trivial (fun j => (h.bounds j).withQueue rfl) ?_ maxTx_withQueue⟩
      have hcount := countTx_withQueue c.shared (isOracleTx tx.msgs)
        ((c.shared.queue (isOracleTx tx.msgs)).unindex txKey)
      exact (Nat.add_right_cancel hcount).le
  | unlink tx e calls results =>
      have hloose := hconsistent.loose i (isOracleTx tx.msgs, e) (by rw [hi]; rfl)
      have hlength : ((c.shared.queue (isOracleTx tx.msgs)).unlink e).elems.length + 1
          = (c.shared.queue (isOracleTx tx.msgs)).elems.length :=
        IndexedQueue.length_unlink (hconsistent.wellFormed.valid _) hloose.1
      refine ⟨_, h.update i trivial (fun j => (h.bounds j).unlink hlength) ?_ maxTx_withQueue⟩
      have hcount := countTx_withQueue c.shared (isOracleTx tx.msgs)
        ((c.shared.queue (isOracleTx tx.msgs)).unlink e)
      omega
  | crash tx e calls results habsent => exact ⟨_, h.update i trivial h.bounds le_rfl rfl⟩

end Capacity

lemma maxTx_step {mp mp' : FifoMempool} {a a' : Caller} (h : a.step mp = some (mp', a')) :
    mp'.maxTx = mp.maxTx := by
  cases Caller.step_cases h with
  | pushBack => exact maxTx_withQueue
  | store => exact maxTx_withQueue
  | loadAndDelete => exact maxTx_withQueue
  | unlink => exact maxTx_withQueue
  | _ => rfl

lemma maxTx_interleaved {ι : Type} [DecidableEq ι] (maxTx : ℤ) (calls : ι → List Op)
    (schedule : List ι) : (interleaved maxTx calls schedule).shared.maxTx = maxTx :=
  Threads.run_invariant (I := fun c => c.shared.maxTx = maxTx)
    (fun _ _ _ _ h hstep => (maxTx_step hstep).trans h) rfl schedule

/-- **However the calls of the callers are interleaved, the pool never holds more than its capacity
and one transaction for each caller but one.** -/
theorem countTx_interleaved_le {ι : Type} [DecidableEq ι] [Fintype ι] (maxTx : ℤ)
    (calls : ι → List Op) (schedule : List ι) :
    (interleaved maxTx calls schedule).shared.countTx ≤ maxTx.toNat + (Fintype.card ι - 1) := by
  have hinv : Consistent (interleaved maxTx calls schedule)
      ∧ ∃ passed, Passed (interleaved maxTx calls schedule) passed := by
    refine Threads.run_invariant (I := fun c => Consistent c ∧ ∃ passed, Passed c passed)
      (fun c i _ _ h hstep => ?_) ⟨consistent_start maxTx calls, fun _ => ∅, ?_⟩ schedule
    · obtain ⟨hconsistent, passed, hpassed⟩ := h
      exact ⟨hconsistent.step i hstep, hpassed.step hconsistent i hstep⟩
    · exact ⟨fun i => Finset.notMem_empty i, fun i j hj => absurd hj (Finset.notMem_empty j),
        fun _ => trivial, Nat.zero_le _⟩
  obtain ⟨-, passed, hpassed⟩ := hinv
  have hle := hpassed.countTx_le
  rwa [maxTx_interleaved] at hle

/-! ### The capacity is passed

All callers but one can have read the lengths before the last free place is taken. -/

section Exceeded

variable {ι : Type} [DecidableEq ι] {c : Threads ι FifoMempool Caller} {tx : Tx} {txKey : TxKey}

/-- Callers that begin an insertion while there is room are all admitted. -/
lemma exists_run_admitted (hroom : (c.shared.countTx : ℤ) < c.shared.maxTx)
    (hkey : getTxKey tx = .ok txKey) {waiting : List ι} (hnodup : waiting.Nodup)
    (hready : ∀ i ∈ waiting, ∃ calls results, c.own i = ⟨.idle, .insert tx :: calls, results⟩) :
    ∃ schedule, (c.run Caller.step schedule).shared = c.shared
      ∧ (∀ i ∈ waiting, ((c.run Caller.step schedule).own i).phase = .admitted tx txKey)
      ∧ ∀ i ∉ waiting, (c.run Caller.step schedule).own i = c.own i := by
  induction waiting generalizing c with
  | nil => exact ⟨[], rfl, fun i hi => absurd hi List.not_mem_nil, fun i _ => rfl⟩
  | cons i waiting ih =>
      obtain ⟨hi, hnodup⟩ := List.nodup_cons.mp hnodup
      obtain ⟨calls, results, hown⟩ := hready i List.mem_cons_self
      have hread : (c.own i).step c.shared
          = some (c.shared, ⟨.lengthRead tx c.shared.txs.elems.length, calls, results⟩) := by
        rw [hown]
        rfl
      have hcheck : Caller.step c.shared ⟨.lengthRead tx c.shared.txs.elems.length, calls, results⟩
          = some (c.shared, ⟨.admitted tx txKey, calls, results⟩) := by
        simp only [Caller.step, hkey]
        exact (if_neg fun hfull => absurd hfull.2 (not_le.mpr hroom)).trans
          (if_neg (not_lt.mpr ((Int.natCast_nonneg _).trans hroom.le)))
      obtain ⟨schedule, hshared, hadmitted, hothers⟩ := ih
        (c := ⟨c.shared, Function.update c.own i ⟨.admitted tx txKey, calls, results⟩⟩) hroom hnodup
        fun j hj => by
          have hji : j ≠ i := fun h => hi (h ▸ hj)
          simpa [hji] using hready j (List.mem_cons_of_mem i hj)
      refine ⟨i :: i :: schedule, ?_⟩
      rw [Threads.run_cons_of_some hread, Threads.run_update_of_some hcheck]
      refine ⟨hshared, fun j hj => ?_, fun j hj => ?_⟩
      · rcases List.mem_cons.mp hj with rfl | hj
        · simp [hothers j hi]
        · exact hadmitted j hj
      · have hji : j ≠ i := fun h => hj (h ▸ List.mem_cons_self)
        simpa [hji] using hothers j fun h => hj (List.mem_cons_of_mem i h)

/-- Callers that are admitted all push, whatever the pool holds. -/
lemma countTx_run_admitted {admitted : List ι} (hnodup : admitted.Nodup)
    (hphase : ∀ i ∈ admitted, (c.own i).phase = .admitted tx txKey) :
    (c.run Caller.step admitted).shared.countTx = c.shared.countTx + admitted.length := by
  induction admitted generalizing c with
  | nil => rfl
  | cons i admitted ih =>
      obtain ⟨hi, hnodup⟩ := List.nodup_cons.mp hnodup
      have hstep : (c.own i).step c.shared = some
          (c.shared.withQueue (isOracleTx tx.msgs) ((c.shared.queue (isOracleTx tx.msgs)).pushBack tx),
            { c.own i with
              phase := .pushed tx txKey ⟨(c.shared.queue (isOracleTx tx.msgs)).fresh, tx⟩ }) := by
        rw [Caller.step, hphase i List.mem_cons_self]
      rw [Threads.run_cons_of_some hstep, ih hnodup fun j hj => ?_]
      · simp only [countTx_pushBack, List.length_cons]
        omega
      · have hji : j ≠ i := fun h => hi (h ▸ hj)
        simpa [hji] using hphase j (List.mem_cons_of_mem i hj)

lemma exists_insert_of_room (mp : FifoMempool) (hroom : (mp.countTx : ℤ) < mp.maxTx)
    (hkey : getTxKey tx = .ok txKey) : ∃ mp', mp.insert tx = .ok mp'
      ∧ mp'.countTx = mp.countTx + 1 ∧ mp'.maxTx = mp.maxTx := by
  refine ⟨mp.withQueue (isOracleTx tx.msgs) ((mp.queue (isOracleTx tx.msgs)).push txKey tx), ?_, ?_,
    maxTx_withQueue⟩
  · rw [FifoMempool.insert, if_neg fun hfull => absurd hfull.2 (not_le.mpr hroom),
      if_neg (not_lt.mpr ((Int.natCast_nonneg _).trans hroom.le)), hkey, ok_bind]
    cases isOracleTx tx.msgs <;> rfl
  · have hcount := countTx_withQueue mp (isOracleTx tx.msgs)
      ((mp.queue (isOracleTx tx.msgs)).push txKey tx)
    have hlength : ((mp.queue (isOracleTx tx.msgs)).push txKey tx).elems.length
        = (mp.queue (isOracleTx tx.msgs)).elems.length + 1 := List.length_append
    omega

/-- One caller on its own fills the pool. -/
lemma exists_run_filled (hkey : getTxKey tx = .ok txKey) (i : ι) (own : ι → Caller)
    (calls : List Op) (n : ℕ) (mp : FifoMempool) (results : List (Op × Outcome Unit))
    (hroom : (mp.countTx + n : ℤ) ≤ mp.maxTx) : ∃ schedule mp' results',
      (⟨mp, Function.update own i ⟨.idle, List.replicate n (.insert tx) ++ calls, results⟩⟩ :
          Threads ι FifoMempool Caller).run Caller.step schedule
        = ⟨mp', Function.update own i ⟨.idle, calls, results'⟩⟩
      ∧ mp'.countTx = mp.countTx + n ∧ mp'.maxTx = mp.maxTx := by
  induction n generalizing mp results with
  | zero => exact ⟨[], mp, results, rfl, rfl, rfl⟩
  | succ n ih =>
      obtain ⟨mp₁, hinsert, hcount₁, hmax₁⟩ := exists_insert_of_room mp (by omega) hkey
      have hi : (⟨mp, Function.update own i
          ⟨.idle, List.replicate (n + 1) (.insert tx) ++ calls, results⟩⟩ :
            Threads ι FifoMempool Caller).own i
          = ⟨.idle, .insert tx :: (List.replicate n (.insert tx) ++ calls), results⟩ :=
        Function.update_self ..
      obtain ⟨turns, -, hfirst⟩ := run_insert_alone hi
      rw [hinsert, Function.update_idem] at hfirst
      obtain ⟨schedule, mp', results', hrest, hcount, hmax⟩ := ih mp₁ _ (by omega)
      refine ⟨List.replicate turns i ++ schedule, mp', results', ?_, by omega, hmax.trans hmax₁⟩
      rw [Threads.run_append, hfirst]
      exact hrest

/-- Callers whose insertions reach the bound: the first fills the pool up to one place, and all of
them see that place free. -/
lemma exists_countTx_interleaved_eq [Fintype ι] (i : ι) {maxTx : ℤ} (hpos : 0 < maxTx) :
    ∃ (calls : ι → List Op) (schedule : List ι),
      (interleaved maxTx calls schedule).shared.countTx = maxTx.toNat + (Fintype.card ι - 1) := by
  obtain ⟨n, rfl⟩ : ∃ n : ℕ, maxTx = n + 1 := ⟨(maxTx - 1).toNat, by omega⟩
  have hkey : getTxKey (signedBy "terra1x" 0 [.other]) = .ok ⟨"terra1x", 0⟩ := rfl
  generalize signedBy "terra1x" 0 [.other] = tx at hkey
  have hempty : (newFifoMempool (n + 1)).countTx = 0 := rfl
  have hlimit : (newFifoMempool (n + 1)).maxTx = n + 1 := rfl
  obtain ⟨filling, mp, results, hfilled, hcount, hmax⟩ := exists_run_filled hkey i
    (fun _ => ⟨.idle, [.insert tx], []⟩) [.insert tx] n (newFifoMempool (n + 1)) []
    (by rw [hempty, hlimit]; omega)
  rw [hempty, zero_add] at hcount
  generalize hc : (⟨mp, _⟩ : Threads ι FifoMempool Caller) = c at hfilled
  have hready : ∀ j ∈ Finset.univ.toList, ∃ calls results,
      c.own j = ⟨.idle, .insert tx :: calls, results⟩ := by
    intro j _
    rw [← hc]
    by_cases hji : j = i
    · exact ⟨[], results, by simp [hji]⟩
    · exact ⟨[], [], by simp [hji]⟩
  obtain ⟨reading, hshared, hadmitted, -⟩ := exists_run_admitted
    (by rw [← hc, hcount, hmax, hlimit]; omega) hkey (Finset.nodup_toList _) hready
  have hpushed := countTx_run_admitted (Finset.nodup_toList Finset.univ) hadmitted
  have hcalls : start (n + 1) (Function.update (fun _ => [.insert tx]) i
      (List.replicate n (.insert tx) ++ [.insert tx]))
      = ⟨newFifoMempool (n + 1), Function.update (fun _ => ⟨.idle, [.insert tx], []⟩) i
        ⟨.idle, List.replicate n (.insert tx) ++ [.insert tx], []⟩⟩ := by
    refine congrArg (Threads.mk (newFifoMempool (n + 1))) (funext fun j => ?_)
    by_cases hji : j = i
    · subst hji
      simp
    · simp [hji]
  refine ⟨Function.update (fun _ => [.insert tx]) i (List.replicate n (.insert tx) ++ [.insert tx]),
    filling ++ (reading ++ Finset.univ.toList), ?_⟩
  rw [interleaved, hcalls, Threads.run_append, hfilled, Threads.run_append, hpushed, hshared, ← hc,
    hcount, Finset.length_toList, Finset.card_univ]
  have hcard : 0 < Fintype.card ι := Fintype.card_pos_iff.mpr ⟨i⟩
  omega

end Exceeded

/-- **The largest number of transactions the pool can hold at some moment of some interleaving is
its capacity and one for each caller but one.** -/
theorem isGreatest_countTx_interleaved {ι : Type} [DecidableEq ι] [Fintype ι] [Nonempty ι]
    (maxTx : ℤ) (hpos : 0 < maxTx) :
    IsGreatest {n : ℕ | ∃ (calls : ι → List Op) (schedule : List ι),
        (interleaved maxTx calls schedule).shared.countTx = n}
      (maxTx.toNat + (Fintype.card ι - 1)) := by
  refine ⟨?_, ?_⟩
  · obtain ⟨i⟩ := ‹Nonempty ι›
    exact exists_countTx_interleaved_eq i hpos
  · rintro n ⟨calls, schedule, rfl⟩
    exact countTx_interleaved_le maxTx calls schedule

/-- Three callers can bring a pool for one transaction to three. -/
theorem isGreatest_countTx_three :
    IsGreatest {n : ℕ | ∃ (calls : Fin 3 → List Op) (schedule : List (Fin 3)),
      (interleaved 1 calls schedule).shared.countTx = n} 3 :=
  isGreatest_countTx_interleaved (ι := Fin 3) 1 (by decide)

/-! ### Every call ends, and counts once -/

/-- The calls that add to a queue. -/
def Op.inserts (b : Bool) : Op → Bool
  | .insert tx => isOracleTx tx.msgs == b
  | .remove _ => false

/-- The calls that take from a queue. -/
def Op.removes (b : Bool) : Op → Bool
  | .insert _ => false
  | .remove tx => isOracleTx tx.msgs == b

/-- The number of the calls of a kind that have succeeded. -/
def Caller.succeeded (kind : Op → Bool) (a : Caller) : ℕ :=
  a.results.countP fun r => kind r.1 && r.2.isOk

/-- The elements a caller has added to a queue: those of its calls that have succeeded, and the one
it has not stored yet. -/
def Caller.added (b : Bool) (a : Caller) : ℕ :=
  a.succeeded (Op.inserts b) + match a.phase with
    | .pushed tx _ _ => if isOracleTx tx.msgs = b then 1 else 0
    | _ => 0

/-- The call a caller is in. -/
def Phase.current : Phase → List Op
  | .lengthRead tx _ => [.insert tx]
  | .admitted tx _ => [.insert tx]
  | .pushed tx _ _ => [.insert tx]
  | .taken tx _ => [.remove tx]
  | _ => []

/-- The calls of a caller, in order: made, being made and to be made. -/
def Caller.script (a : Caller) : List Op := a.results.map Prod.fst ++ a.phase.current ++ a.calls

/-- The steps a caller has at most to take. -/
def Caller.remaining (a : Caller) : ℕ :=
  match a.phase with
  | .idle => 4 * a.calls.length
  | .lengthRead _ _ => 3 + 4 * a.calls.length
  | .admitted _ _ => 2 + 4 * a.calls.length
  | .pushed _ _ _ => 1 + 4 * a.calls.length
  | .taken _ _ => 1 + 4 * a.calls.length
  | .broken => 0

section Ends

variable {mp mp' : FifoMempool} {a a' : Caller}

lemma remaining_step_lt (h : a.step mp = some (mp', a')) : a'.remaining < a.remaining := by
  cases Caller.step_cases h <;> simp only [Caller.remaining, List.length_cons] <;> omega

lemma remaining_of_stuck (h : a.step mp = none) : a.remaining = 0 := by
  obtain ⟨phase, calls, results⟩ := a
  cases phase with
  | idle =>
      cases calls with
      | nil => rfl
      | cons op calls =>
          cases op with
          | insert tx => exact absurd h (by simp [Caller.step])
          | remove tx =>
              simp only [Caller.step] at h
              split at h
              · exact absurd h (by simp)
              · split at h <;> exact absurd h (by simp)
  | lengthRead tx length =>
      simp only [Caller.step] at h
      split_ifs at h
      split at h <;> exact absurd h (by simp)
  | taken tx e =>
      simp only [Caller.step] at h
      split_ifs at h
  | broken => rfl
  | admitted tx txKey => exact absurd h (by simp [Caller.step])
  | pushed tx txKey e => exact absurd h (by simp [Caller.step])

/-- A caller that is not broken makes its calls in their order. -/
lemma script_step (h : a.step mp = some (mp', a')) (hsound : a'.phase.Sound) :
    a'.script = a.script := by
  cases Caller.step_cases h with
  | crash => exact hsound.elim
  | _ => simp [Caller.script, Phase.current]

/-- What a step adds to a list and takes from it is what it adds to the account of its caller. -/
lemma added_step (hmax : 0 ≤ mp.maxTx) (h : a.step mp = some (mp', a'))
    (hvalid : ∀ b, (mp.queue b).Valid keyOf)
    (hloose : ∀ o, a.phase.inHand = some o → mp.Loose o) (b : Bool) :
    (mp'.queue b).elems.length + a'.succeeded (Op.removes b) + a.added b
      = (mp.queue b).elems.length + a.succeeded (Op.removes b) + a'.added b := by
  cases Caller.step_cases h with
  | readLength tx calls results => simp [Caller.added, Caller.succeeded]
  | refuse tx length err calls results =>
      simp [Caller.added, Caller.succeeded, Op.inserts, Op.removes, Except.isOk, Except.toBool]
  | ignore tx length calls results hneg => omega
  | hasRoom tx length txKey calls results hroom hkey => simp [Caller.added, Caller.succeeded]
  | pushBack tx txKey calls results =>
      rw [FifoMempool.queue_withQueue]
      split_ifs with hb
      · subst hb
        simp [Caller.added, Caller.succeeded, IndexedQueue.pushBack]
        omega
      · simp [Caller.added, Caller.succeeded, hb]
  | store tx txKey e calls results =>
      rw [FifoMempool.queue_withQueue]
      split_ifs with hb
      · subst hb
        simp [Caller.added, Caller.succeeded, IndexedQueue.store, Op.inserts, Op.removes, Except.isOk,
          Except.toBool, pure, Except.pure]
      · simp [Caller.added, Caller.succeeded, hb, Op.inserts, Op.removes]
  | notFound tx err calls results =>
      simp [Caller.added, Caller.succeeded, Op.inserts, Op.removes, Except.isOk, Except.toBool]
  | loadAndDelete tx txKey e calls results hkey he =>
      rw [FifoMempool.queue_withQueue]
      split_ifs with hb
      · subst hb
        simp [Caller.added, Caller.succeeded, IndexedQueue.unindex]
      · simp [Caller.added, Caller.succeeded]
  | unlink tx e calls results =>
      rw [FifoMempool.queue_withQueue]
      split_ifs with hb
      · subst hb
        have hlength := IndexedQueue.length_unlink (hvalid _) (hloose _ rfl).1
        simp [Caller.added, Caller.succeeded, Op.inserts, Op.removes, Except.isOk,
          Except.toBool, pure, Except.pure] at hlength ⊢
        omega
      · simp [Caller.added, Caller.succeeded, hb, Op.inserts, Op.removes]
  | crash tx e calls results habsent => simp [Caller.added, Caller.succeeded]

variable {ι : Type} [DecidableEq ι]

lemma script_interleaved (maxTx : ℤ) (calls : ι → List Op) (schedule : List ι) (i : ι) :
    ((interleaved maxTx calls schedule).own i).script = calls i := by
  have hinv : Consistent (interleaved maxTx calls schedule)
      ∧ ∀ i, ((interleaved maxTx calls schedule).own i).script = calls i := by
    refine Threads.run_invariant
      (I := fun c => Consistent c ∧ ∀ i, (c.own i).script = calls i) (fun c j s t h hstep => ?_)
      ⟨consistent_start maxTx calls, fun i => rfl⟩ schedule
    have hconsistent := h.1.step j hstep
    refine ⟨hconsistent, fun k => ?_⟩
    by_cases hkj : k = j
    · subst hkj
      have hsound := hconsistent.sound k
      simp only [Function.update_self] at hsound ⊢
      rw [script_step hstep hsound, h.2 k]
    · simpa [hkj] using h.2 k
  exact hinv.2 i

/-- A list holds what the callers have added to it, less what they have taken from it. -/
lemma added_interleaved [Fintype ι] {maxTx : ℤ} (hmax : 0 ≤ maxTx) (calls : ι → List Op)
    (schedule : List ι) (b : Bool) :
    ((interleaved maxTx calls schedule).shared.queue b).elems.length
        + ∑ i, ((interleaved maxTx calls schedule).own i).succeeded (Op.removes b)
      = ∑ i, ((interleaved maxTx calls schedule).own i).added b := by
  have hinv : (Consistent (interleaved maxTx calls schedule)
      ∧ (interleaved maxTx calls schedule).shared.maxTx = maxTx)
      ∧ ((interleaved maxTx calls schedule).shared.queue b).elems.length
        + ∑ i, ((interleaved maxTx calls schedule).own i).succeeded (Op.removes b)
          = ∑ i, ((interleaved maxTx calls schedule).own i).added b := by
    refine Threads.run_invariant (I := fun c => (Consistent c ∧ c.shared.maxTx = maxTx)
      ∧ (c.shared.queue b).elems.length + ∑ i, (c.own i).succeeded (Op.removes b)
        = ∑ i, (c.own i).added b) (fun c i s t h hstep => ?_)
      ⟨⟨consistent_start maxTx calls, rfl⟩, ?_⟩ schedule
    · obtain ⟨⟨hconsistent, rfl⟩, hsum⟩ := h
      refine ⟨⟨hconsistent.step i hstep, maxTx_step hstep⟩, ?_⟩
      have hown := added_step hmax hstep hconsistent.wellFormed.valid (hconsistent.loose i) b
      have hremoved := Threads.sum_step c.own i t (Caller.succeeded (Op.removes b))
      have hadded := Threads.sum_step c.own i t (Caller.added b)
      simp only at hsum hown hremoved hadded ⊢
      omega
    · cases b <;> simp [start, newFifoMempool, FifoMempool.queue, IndexedQueue.empty, Caller.added,
        Caller.succeeded]
  exact hinv.2

lemma remaining_interleaved (maxTx : ℤ) (calls : ι → List Op) (schedule : List ι) (i : ι) :
    ((interleaved maxTx calls schedule).own i).remaining
      ≤ 4 * (calls i).length - schedule.count i :=
  Threads.measure_run_le (fun _ _ _ _ => remaining_step_lt) (fun _ _ => remaining_of_stuck)
    (start maxTx calls) schedule i

/-- A caller that has had four turns for each of its calls has made all of them. -/
lemma calls_end (maxTx : ℤ) (calls : ι → List Op) {schedule : List ι} {i : ι}
    (hturns : 4 * (calls i).length ≤ schedule.count i) :
    ((interleaved maxTx calls schedule).own i).phase = .idle
      ∧ ((interleaved maxTx calls schedule).own i).results.map Prod.fst = calls i := by
  have hremaining : ((interleaved maxTx calls schedule).own i).remaining = 0 := by
    have hle := remaining_interleaved maxTx calls schedule i
    omega
  have hscript := script_interleaved maxTx calls schedule i
  have hsound := (consistent_interleaved maxTx calls schedule).sound i
  generalize (interleaved maxTx calls schedule).own i = a at hremaining hscript hsound ⊢
  obtain ⟨phase, left, results⟩ := a
  cases phase with
  | idle =>
      have hleft : left = [] := by
        refine List.length_eq_zero_iff.mp ?_
        have hlength : 4 * left.length = 0 := hremaining
        omega
      subst hleft
      exact ⟨rfl, by simpa [Caller.script, Phase.current] using hscript⟩
  | broken => exact hsound.elim
  | _ => exact absurd hremaining (by simp [Caller.remaining])

/-- Between two calls all that a caller has added has succeeded. -/
lemma Caller.added_of_idle (h : a.phase = .idle) (b : Bool) :
    a.added b = a.succeeded (Op.inserts b) := by
  rw [Caller.added, h]
  rfl

/-- **Calls that run at the same time neither disturb nor delay one another.** In every
interleaving, a caller that has had four turns for each of its calls has made all of them, in their
order, whatever the others do; no removal has met a list without its element; the pool is well
formed; each list holds one element for each insertion of its kind that has come to the list, less
one for each removal that has succeeded, and these are the insertions that have succeeded when no
caller is in the middle of a call. -/
theorem calls_end_interleaved [Fintype ι] {maxTx : ℤ} (hmax : 0 ≤ maxTx) (calls : ι → List Op)
    (schedule : List ι) :
    (∀ i, 4 * (calls i).length ≤ schedule.count i →
        ((interleaved maxTx calls schedule).own i).phase = .idle
          ∧ ((interleaved maxTx calls schedule).own i).results.map Prod.fst = calls i)
      ∧ (∀ i, ((interleaved maxTx calls schedule).own i).phase ≠ .broken)
      ∧ (interleaved maxTx calls schedule).shared.WellFormed
      ∧ (∀ b, ((interleaved maxTx calls schedule).shared.queue b).elems.length
            + ∑ i, ((interleaved maxTx calls schedule).own i).succeeded (Op.removes b)
          = ∑ i, ((interleaved maxTx calls schedule).own i).added b)
      ∧ ((∀ i, ((interleaved maxTx calls schedule).own i).phase = .idle) →
        ∀ b, ((interleaved maxTx calls schedule).shared.queue b).elems.length
            + ∑ i, ((interleaved maxTx calls schedule).own i).succeeded (Op.removes b)
          = ∑ i, ((interleaved maxTx calls schedule).own i).succeeded (Op.inserts b)) := by
  have hconsistent := consistent_interleaved maxTx calls schedule
  have hadded := added_interleaved hmax calls schedule
  refine ⟨fun i hturns => calls_end maxTx calls hturns, fun i hbroken => ?_,
    hconsistent.wellFormed, hadded, fun hidle b => ?_⟩
  · have hsound := hconsistent.sound i
    rw [hbroken] at hsound
    exact hsound
  · rw [hadded b]
    exact Finset.sum_congr rfl fun i _ => Caller.added_of_idle (hidle i) b

end Ends

/-- Two callers of a pool for two transactions, one of which takes its transaction out again. -/
def twoCallers (i : Fin 2) : List Op :=
  if i = 0 then [.insert (signedBy "terra1x" 0 [.other]), .remove (signedBy "terra1x" 0 [.other])]
  else [.insert (signedBy "terra1y" 0 [.other])]

/-- The two callers in turn. -/
def inTurns : List (Fin 2) := (List.range 8).flatMap fun _ => [0, 1]

/-- The second of two callers has ended after four turns of its own, with the first in the middle of
its calls. At the end of both the list holds one element for the two insertions and the removal. -/
theorem calls_end_twoCallers :
    ((interleaved 2 twoCallers [0, 1, 0, 1, 1, 1]).own 1).phase = .idle
      ∧ (interleaved 2 twoCallers [0, 1, 0, 1, 1, 1]).shared.WellFormed
      ∧ ((interleaved 2 twoCallers inTurns).shared.queue false).elems.length + 1 = 2 := by
  refine ⟨((calls_end_interleaved (by decide) twoCallers _).1 1 (by decide)).1,
    (calls_end_interleaved (by decide) twoCallers _).2.2.1, ?_⟩
  obtain ⟨hends, -, -, -, hlists⟩ :=
    calls_end_interleaved (show (0 : ℤ) ≤ 2 by decide) twoCallers inTurns
  have hremoved : ∑ i, ((interleaved 2 twoCallers inTurns).own i).succeeded (Op.removes false)
      = 1 := by decide +kernel
  have hinserted : ∑ i, ((interleaved 2 twoCallers inTurns).own i).succeeded (Op.inserts false)
      = 2 := by decide +kernel
  have hlist := hlists (fun i => (hends i (by fin_cases i <;> decide)).1) false
  rwa [hremoved, hinserted] at hlist

end ColumbusCore.Mempool
