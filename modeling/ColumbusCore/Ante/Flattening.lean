import ColumbusCore.Ante.FeeTax

/-!
The taxes of a transaction do not depend on how its messages are nested
(`custom/auth/ante/fee_tax.go`).

`FilterMsgAndComputeTax` calls itself on the messages of an `authz.MsgExec` and adds both results.
Each round adds what its message is taxed alone (`filterMsg_eq`), so that the recursion may as well
be unfolded in place.

* `Msg.flatten`, `flattenAll`: the messages without the wrappers, at any depth;
* `filterMsgs_flatten`: the wrappers do not count;
* `filterMsgAndComputeTax_leafwise`: **taxes and refundable taxes are coin-wise sums over the
  messages inside**, whatever their nesting and their order.
-/

namespace ColumbusCore.Ante

open Go
open Tax (Chain TaxedMsg)

variable {β : Type}

/-! ### Flattening -/

mutual

/-- The messages of a message, with the ones of a `MsgExec` in its place. -/
def Msg.flatten : Msg → List Msg
  | .exec msgs => flattenAll msgs
  | msg => [msg]

/-- The messages of a transaction without the wrappers. -/
def flattenAll : List Msg → List Msg
  | [] => []
  | msg :: msgs => msg.flatten ++ flattenAll msgs

end

/-- A `MsgExec` whose messages unpack. -/
def Msg.isExec : Msg → Bool
  | .exec _ => true
  | _ => false

mutual

lemma isExec_of_mem_flatten {m : Msg} (msg : Msg) (h : m ∈ msg.flatten) : m.isExec = false := by
  cases msg with
  | exec msgs =>
      rw [Msg.flatten] at h
      exact isExec_of_mem_flattenAll msgs h
  | _ =>
      simp only [Msg.flatten, List.mem_singleton] at h
      rw [h]
      rfl

/-- No wrapper is left. -/
lemma isExec_of_mem_flattenAll {m : Msg} (msgs : List Msg) (h : m ∈ flattenAll msgs) :
    m.isExec = false := by
  cases msgs with
  | nil => simp [flattenAll] at h
  | cons msg msgs =>
      rw [flattenAll, List.mem_append] at h
      rcases h with h | h
      · exact isExec_of_mem_flatten msg h
      · exact isExec_of_mem_flattenAll msgs h

end

/-! ### Pairs of taxes -/

/-- Taxes and refundable taxes, added. -/
def addPair (a b : Coins × Coins) : Coins × Coins := (a.1.add b.1, a.2.add b.2)

@[simp] lemma addPair_empty (a : Coins × Coins) : addPair a (∅, ∅) = a := by simp [addPair]

lemma addPair_assoc (a b c : Coins × Coins) :
    addPair (addPair a b) c = addPair a (addPair b c) := by
  simp only [addPair, CoinSet.add_assoc']

lemma foldl_addPair (t : Msg → Coins × Coins) (l : List Msg) (acc : Coins × Coins) :
    l.foldl (fun acc m => addPair acc (t m)) acc
      = (l.foldl (fun a m => a.add (t m).1) acc.1, l.foldl (fun a m => a.add (t m).2) acc.2) := by
  induction l generalizing acc with
  | nil => rfl
  | cons m l ih => exact ih (addPair acc (t m))

section Filter

variable {te : ExemptionKeeper} {c : Chain β} {simulate : Bool}

lemma addFundsTax_eq (acc : Coins × Coins) (funds : Coins) :
    addFundsTax c simulate acc funds = (addFundsTax c simulate (∅, ∅) funds).map (addPair acc) := by
  rw [addFundsTax, addFundsTax]
  cases computeTax c funds simulate with
  | error e => rfl
  | ok tax => simp [Except.map, addPair]

/-- **A round adds** what its message is taxed alone. -/
lemma filterMsg_eq (acc : Coins × Coins) (msg : Msg) :
    filterMsg te c simulate acc msg = (filterMsg te c simulate (∅, ∅) msg).map (addPair acc) := by
  cases msg with
  | taxed msg =>
      rw [filterMsg, filterMsg, addMsgTax_eq]
      cases addMsgTax te c simulate ∅ msg with
      | error e => rfl
      | ok tax => simp [Except.map, addPair]
  | instantiateContract funds =>
      rw [filterMsg, filterMsg]
      exact addFundsTax_eq acc funds
  | instantiateContract2 funds =>
      rw [filterMsg, filterMsg]
      exact addFundsTax_eq acc funds
  | executeContract sender contract funds =>
      rw [filterMsg, filterMsg]
      cases te.isExemptedFromTax sender [contract] with
      | error e => rfl
      | ok exempt =>
          rw [ok_bind, ok_bind]
          split_ifs
          · simp [Except.map]
          · exact addFundsTax_eq acc funds
  | exec msgs =>
      rw [filterMsg, filterMsg]
      cases filterMsgs te c simulate (∅, ∅) msgs with
      | error e => rfl
      | ok r => simp [Except.map, addPair]
  | execInvalid => simp [filterMsg, Except.map]
  | oracle => simp [filterMsg, Except.map]
  | other => simp [filterMsg, Except.map]

lemma filterMsgs_eq_foldlM (acc : Coins × Coins) (msgs : List Msg) :
    filterMsgs te c simulate acc msgs = msgs.foldlM (filterMsg te c simulate) acc := by
  induction msgs generalizing acc with
  | nil => rfl
  | cons msg msgs ih =>
      rw [filterMsgs, List.foldlM_cons]
      exact congrArg _ (funext ih)

/-- The loop adds what its messages are taxed without the taxes so far. -/
lemma filterMsgs_eq (acc : Coins × Coins) (msgs : List Msg) :
    filterMsgs te c simulate acc msgs = (filterMsgs te c simulate (∅, ∅) msgs).map (addPair acc) := by
  rw [filterMsgs_eq_foldlM, filterMsgs_eq_foldlM, ← foldlM_op addPair_assoc filterMsg_eq,
    addPair_empty]

lemma filterMsgs_singleton (acc : Coins × Coins) (msg : Msg) :
    filterMsgs te c simulate acc [msg] = filterMsg te c simulate acc msg := by
  simp only [filterMsgs, bind_pure]

mutual

lemma filterMsg_flatten (acc : Coins × Coins) (msg : Msg) :
    filterMsg te c simulate acc msg = filterMsgs te c simulate acc msg.flatten := by
  cases msg with
  | exec msgs =>
      rw [Msg.flatten, ← filterMsgs_flatten acc msgs, filterMsgs_eq, filterMsg]
      cases filterMsgs te c simulate (∅, ∅) msgs with
      | error e => rfl
      | ok r => rfl
  | _ => rw [Msg.flatten, filterMsgs_singleton]; simp

/-- **The wrappers do not count.** -/
lemma filterMsgs_flatten (acc : Coins × Coins) (msgs : List Msg) :
    filterMsgs te c simulate acc msgs = filterMsgs te c simulate acc (flattenAll msgs) := by
  cases msgs with
  | nil => rfl
  | cons msg msgs =>
      rw [flattenAll, filterMsgs_eq_foldlM acc (msg.flatten ++ _), List.foldlM_append, filterMsgs,
        filterMsg_flatten acc msg, filterMsgs_eq_foldlM]
      refine congrArg _ (funext fun acc => ?_)
      rw [filterMsgs_flatten acc msgs, filterMsgs_eq_foldlM]

end

end Filter

/-! ### The taxes of a transaction -/

/-- The pair is the coin-wise sum of the pairs `t` over the messages. -/
def IsSumOver (t : Msg → Coins × Coins) (l : List Msg) (r : Coins × Coins) : Prop :=
  ∀ d, r.1.amountOf d = (l.map fun m => (t m).1.amountOf d).sum
    ∧ r.2.amountOf d = (l.map fun m => (t m).2.amountOf d).sum

lemma isSumOver_foldl (t : Msg → Coins × Coins) (l : List Msg) :
    IsSumOver t l (l.foldl (fun acc m => addPair acc (t m)) (∅, ∅)) := by
  intro d
  rw [foldl_addPair]
  simp only [CoinSet.amountOf_foldl_add, Amounts.amountOf_empty, zero_add, and_self]

lemma IsSumOver.unique {t : Msg → Coins × Coins} {l : List Msg} {r r' : Coins × Coins}
    (h : IsSumOver t l r) (h' : IsSumOver t l r') : r = r' :=
  Prod.ext (Amounts.ext_amountOf fun d => (h d).1.trans (h' d).1.symm)
    (Amounts.ext_amountOf fun d => (h d).2.trans (h' d).2.symm)

lemma IsSumOver.perm {t : Msg → Coins × Coins} {l l' : List Msg} {r : Coins × Coins}
    (h : IsSumOver t l r) (hperm : l.Perm l') : IsSumOver t l' r := fun d =>
  ⟨(h d).1.trans (hperm.map _).sum_eq, (h d).2.trans (hperm.map _).sum_eq⟩

/-- The loop returns a pair exactly when every message without its wrappers has a pair alone, and
the pair is their sum. -/
lemma filterMsgs_eq_ok_iff {c : Chain β} {simulate : Bool} {msgs : List Msg} {r : Coins × Coins} :
    filterMsgAndComputeTax c simulate msgs = .ok r
      ↔ ∃ t : Msg → Coins × Coins,
        (∀ m ∈ flattenAll msgs, filterMsgAndComputeTax c simulate [m] = .ok (t m))
          ∧ IsSumOver t (flattenAll msgs) r := by
  simp only [filterMsgAndComputeTax, filterMsgs_singleton]
  rw [filterMsgs_flatten, filterMsgs_eq_foldlM, foldlM_op_eq_ok_iff filterMsg_eq]
  refine exists_congr fun t => and_congr_right fun _ => ?_
  constructor
  · rintro rfl
    exact isSumOver_foldl t (flattenAll msgs)
  · intro hsum
    exact hsum.unique (isSumOver_foldl t (flattenAll msgs))

/-- **The taxes are those of the messages inside.** In every state, the taxes and the refundable
taxes of a list of messages are the coin-wise sums of those of the messages it flattens to, each
taxed alone; two lists that flatten to the same messages, in whatever order, have the same taxes.

The taxes are summed as integers: the panic of the source where a sum of taxes leaves the 256 bits of
`math.Int` is not modelled, so that the function returns up to that panic. -/
theorem filterMsgAndComputeTax_leafwise (c : Chain β) (simulate : Bool) :
    (∀ msgs r, filterMsgAndComputeTax c simulate msgs = .ok r
      ↔ ∃ t : Msg → Coins × Coins,
        (∀ m ∈ flattenAll msgs, m.isExec = false
          ∧ filterMsgAndComputeTax c simulate [m] = .ok (t m))
          ∧ IsSumOver t (flattenAll msgs) r)
      ∧ ∀ msgs msgs', (flattenAll msgs).Perm (flattenAll msgs') → ∀ r,
        (filterMsgAndComputeTax c simulate msgs = .ok r
          ↔ filterMsgAndComputeTax c simulate msgs' = .ok r) := by
  have hperm : ∀ msgs msgs', (flattenAll msgs).Perm (flattenAll msgs') → ∀ r,
      filterMsgAndComputeTax c simulate msgs = .ok r →
        filterMsgAndComputeTax c simulate msgs' = .ok r := by
    intro msgs msgs' hperm r h
    obtain ⟨t, ht, hsum⟩ := filterMsgs_eq_ok_iff.mp h
    exact filterMsgs_eq_ok_iff.mpr
      ⟨t, fun m hm => ht m (hperm.mem_iff.mpr hm), hsum.perm hperm⟩
  refine ⟨fun msgs r => ?_, fun msgs msgs' h r => ⟨hperm _ _ h r, hperm _ _ h.symm r⟩⟩
  rw [filterMsgs_eq_ok_iff]
  constructor
  · rintro ⟨t, ht, hsum⟩
    exact ⟨t, fun m hm => ⟨isExec_of_mem_flattenAll msgs hm, ht m hm⟩, hsum⟩
  · rintro ⟨t, ht, hsum⟩
    exact ⟨t, fun m hm => (ht m hm).2, hsum⟩

/-- A send of dollars between two accounts. -/
def dollarSend (amount : ℤ) : Msg :=
  .taxed (.send ⟨"terra1alice", "terra1bob", CoinSet.ofList [("uusd", amount)]⟩)

/-- Two sends, wrapped twice and once, are taxed as the sends in the other order. -/
theorem nestedSends_taxed_alike :
    ∃ r, filterMsgAndComputeTax (Tax.ledgerChain []) false
        [.exec [.exec [dollarSend 1000000], dollarSend 3000000]] = .ok r
      ∧ filterMsgAndComputeTax (Tax.ledgerChain []) false
        [dollarSend 3000000, dollarSend 1000000] = .ok r
      ∧ r.1.amountOf "uusd" = 20000 := by
  obtain ⟨r, hr, htax⟩ := exists_of_returns
    (p := fun r : Coins × Coins => r.1.amountOf "uusd" = 20000)
    (x := filterMsgAndComputeTax (Tax.ledgerChain []) false
      [.exec [.exec [dollarSend 1000000], dollarSend 3000000]]) (by decide +kernel)
  have hperm : (flattenAll [.exec [.exec [dollarSend 1000000], dollarSend 3000000]]).Perm
      (flattenAll [dollarSend 3000000, dollarSend 1000000]) := List.Perm.swap _ _ _
  exact ⟨r, hr, ((filterMsgAndComputeTax_leafwise (Tax.ledgerChain []) false).2 _ _ hperm r).mp hr,
    of_decide_eq_true htax⟩

end ColumbusCore.Ante
