import ColumbusCore.Oracle.Overflow

/-!
The vote targets after a period, against the whitelist.

`ApplyWhitelist` compares the whitelist with the vote targets in memory, from which
`PickReferenceTerra` has removed every target whose ballot failed. Where the removal makes the
two agree, the stored targets are left as they are, although they differ from the whitelist.

* `updateRequired_eq_false_iff`: the comparison is equality of maps;
* `tallyVotes_voteTargets`: the targets left in memory are those whose ballot did not fail;
* `FailingAreDelisted`, `endBlocker_tobinTaxes_iff`: **the stored targets are the whitelist after
  the block exactly when they were before, or when the failing targets are not just the delisted
  ones**.
-/

namespace ColumbusCore.Oracle

open Go
open Std (ExtTreeMap)

variable {σ : Type}

/-! ### The comparison -/

/-- With distinct names, the map of a whitelist has the items as its entries. -/
lemma getElem?_whitelistTargets {whitelist : List DenomItem}
    (hn : (whitelist.map DenomItem.name).Nodup) {d : Denom} {x : Dec} :
    (whitelistTargets whitelist)[d]? = some x
      ↔ ∃ item ∈ whitelist, item.name = d ∧ item.tobinTax = x := by
  suffices key : ∀ (d : Denom) (x : Dec), (whitelistTargets whitelist)[d]? = some x
      ↔ ∃ item ∈ whitelist, item.name = d ∧ item.tobinTax = x from key d x
  refine foldl_induction (fun (pre : List DenomItem) (m : TargetMap) =>
    ∀ (d : Denom) (x : Dec), m[d]? = some x
      ↔ ∃ item ∈ pre, item.name = d ∧ item.tobinTax = x) ?_ ?_
  · intro d x
    simp
  intro pre item post m hl hm d x
  have hfresh : ∀ i ∈ pre, i.name ≠ item.name := by
    rw [hl, List.map_append, List.nodup_append] at hn
    exact fun i hi => hn.2.2 _ (List.mem_map.mpr ⟨i, hi, rfl⟩) _ (by simp)
  have hsplit : (∃ i ∈ pre ++ [item], i.name = d ∧ i.tobinTax = x)
      ↔ (∃ i ∈ pre, i.name = d ∧ i.tobinTax = x) ∨ (item.name = d ∧ item.tobinTax = x) := by
    simp [or_and_right, exists_or]
  rw [hsplit, getElem?_insert_ite]
  by_cases hd : item.name = d
  · have hno : ¬ ∃ i ∈ pre, i.name = d ∧ i.tobinTax = x := by
      rintro ⟨i, hi, hid, -⟩
      exact hfresh i hi (hid.trans hd.symm)
    rw [if_pos hd, Option.some.injEq]
    simp [hd, hno]
  · rw [if_neg hd, hm]
    simp [hd]

/-- No update is required exactly when the targets in memory are the whitelist. -/
theorem updateRequired_eq_false_iff {whitelist : List DenomItem}
    (hn : (whitelist.map DenomItem.name).Nodup) {targets : TargetMap} :
    updateRequired whitelist targets = false ↔ targets = whitelistTargets whitelist := by
  rw [updateRequired]
  constructor
  · intro h
    split_ifs at h with hsize
    rw [not_not] at hsize
    have hitems : ∀ item ∈ whitelist, targets[item.name]? = some item.tobinTax := by
      intro item hitem
      have hno := List.any_eq_false.mp h item hitem
      simpa using hno
    -- as many names as targets, each of them a target: the names are the targets
    have hsub : whitelist.map DenomItem.name ⊆ targets.toList.map Prod.fst := by
      intro d hd
      obtain ⟨item, hitem, rfl⟩ := List.mem_map.mp hd
      exact List.mem_map.mpr ⟨(item.name, item.tobinTax),
        ExtTreeMap.mem_toList_iff_getElem?_eq_some.mpr (hitems item hitem), rfl⟩
    have hperm : (whitelist.map DenomItem.name).Perm (targets.toList.map Prod.fst) := by
      refine (List.subperm_of_subset hn hsub).perm_of_length_le ?_
      rw [List.length_map, List.length_map, ExtTreeMap.length_toList, hsize]
    refine ExtTreeMap.ext_getElem? fun d => Option.ext fun x => ?_
    rw [getElem?_whitelistTargets hn]
    refine ⟨?_, ?_⟩
    · intro hx
      have hmem : d ∈ whitelist.map DenomItem.name := hperm.mem_iff.mpr
        (List.mem_map.mpr ⟨(d, x), ExtTreeMap.mem_toList_iff_getElem?_eq_some.mpr hx, rfl⟩)
      obtain ⟨item, hitem, rfl⟩ := List.mem_map.mp hmem
      exact ⟨item, hitem, rfl, Option.some.inj ((hitems item hitem).symm.trans hx)⟩
    · rintro ⟨item, hitem, rfl, rfl⟩
      exact hitems item hitem
  · rintro rfl
    have hsize : (whitelistTargets whitelist).size = whitelist.length := by
      have hperm : ((whitelistTargets whitelist).toList.map Prod.fst).Perm
          (whitelist.map DenomItem.name) := by
        refine (List.perm_ext_iff_of_nodup (nodup_keys_toList _) hn).mpr fun d => ?_
        simp only [List.mem_map, Prod.exists, ExtTreeMap.mem_toList_iff_getElem?_eq_some,
          getElem?_whitelistTargets hn]
        constructor
        · rintro ⟨_, _, ⟨item, hitem, rfl, -⟩, rfl⟩
          exact ⟨item, hitem, rfl⟩
        · rintro ⟨item, hitem, rfl⟩
          exact ⟨_, _, ⟨item, hitem, rfl, rfl⟩, rfl⟩
      rw [← ExtTreeMap.length_toList, ← List.length_map Prod.fst, hperm.length_eq,
        List.length_map]
    rw [if_neg (not_not.mpr hsize), List.any_eq_false]
    intro item hitem
    simpa using (getElem?_whitelistTargets hn).mpr ⟨item, hitem, rfl, rfl⟩

/-- An update stores the whitelist. -/
lemma applyItems_eq_ok {K : Keepers σ} {s s' : σ} {whitelist : List DenomItem} {taxes : TargetMap}
    (h : whitelist.foldlM (applyItem K) (∅, s) = .ok (taxes, s')) :
    taxes = whitelistTargets whitelist := by
  refine foldlM_induction (fun pre (p : TargetMap × σ) => p.1 = whitelistTargets pre) h rfl ?_
  intro pre item post p p' _ hp hround
  have hins : p'.1 = p.1.insert item.name item.tobinTax := by
    rw [applyItem] at hround
    cases hm : K.getDenomMetaData p.2 item.name with
    | some _ =>
        simp only [hm] at hround
        rw [← Except.ok.inj hround]
    | none =>
        simp only [hm] at hround
        obtain ⟨_, -, hround⟩ := bind_eq_ok.mp hround
        rw [← Except.ok.inj hround]
  rw [hins, hp, whitelistTargets, whitelistTargets, List.foldl_append]
  rfl

/-! ### The targets in memory -/

section Block

variable {K : Keepers σ} {H : Host} {S : Schedule} {height : ℕ} {w w' : World σ}

/-- The tally leaves the targets in memory whose ballot did not fail. -/
lemma tallyVotes_voteTargets (hs : StakingLawful K w.ext) {t : Tallied}
    (h : tallyVotes K H S w = .ok t) :
    ∃ ballots threshold, BlockBallots K H w ballots threshold
      ∧ ∀ (d : Denom) (x : Dec), t.voteTargets[d]? = some x
        ↔ w.store.tobinTaxes[d]? = some x
          ∧ ∀ b, ballots[d]? = some b → ballotIsPassing b threshold := by
  obtain ⟨claims, hc, hfresh⟩ := activeClaims_eq_ok H hs
  rw [tallyVotes, hc, ok_bind] at h
  obtain ⟨p, hp, h⟩ := bind_eq_ok.mp h
  obtain ⟨r, -, h⟩ := bind_eq_ok.mp h
  obtain rfl := Except.ok.inj h
  obtain ⟨threshold, ht, hspec⟩ := pickReferenceTerra_spec hp
  exact ⟨_, threshold, ⟨claims, hc, rfl, ht⟩, hspec.targets_iff⟩

/-- The targets are the pairs of the whitelist. -/
def IsWhitelist (targets : TargetMap) (whitelist : List DenomItem) : Prop :=
  ∀ (d : Denom) (x : Dec), targets[d]? = some x
    ↔ ∃ item ∈ whitelist, item.name = d ∧ item.tobinTax = x

lemma isWhitelist_iff {targets : TargetMap} {whitelist : List DenomItem}
    (hn : (whitelist.map DenomItem.name).Nodup) :
    IsWhitelist targets whitelist ↔ targets = whitelistTargets whitelist := by
  constructor
  · intro h
    refine ExtTreeMap.ext_getElem? fun d => Option.ext fun x => ?_
    rw [h d x, getElem?_whitelistTargets hn]
  · rintro rfl d x
    exact getElem?_whitelistTargets hn

/-- The targets of the block whose ballot fails are the ones that are not on the whitelist. -/
def FailingAreDelisted (K : Keepers σ) (H : Host) (w : World σ) : Prop :=
  ∃ ballots threshold, BlockBallots K H w ballots threshold
    ∧ ∀ (d : Denom) (x : Dec),
      (∃ item ∈ w.store.params.whitelist, item.name = d ∧ item.tobinTax = x)
        ↔ w.store.tobinTaxes[d]? = some x
          ∧ ∀ b, ballots[d]? = some b → ballotIsPassing b threshold

/-- No update is required exactly when the targets whose ballot fails are the delisted ones. -/
lemma updateRequired_tallyVotes (hs : StakingLawful K w.ext)
    (hn : (w.store.params.whitelist.map DenomItem.name).Nodup) {t : Tallied}
    (h : tallyVotes K H S w = .ok t) :
    updateRequired w.store.params.whitelist t.voteTargets = false
      ↔ FailingAreDelisted K H w := by
  obtain ⟨ballots, threshold, hblock, htargets⟩ := tallyVotes_voteTargets hs h
  rw [updateRequired_eq_false_iff hn, ← isWhitelist_iff hn]
  constructor
  · intro hw
    exact ⟨ballots, threshold, hblock, fun d x => (hw d x).symm.trans (htargets d x)⟩
  · rintro ⟨ballots', threshold', hblock', hall⟩ d x
    obtain ⟨rfl, rfl⟩ := hblock.unique hblock'
    exact (htargets d x).trans (hall d x).symm

/-- The targets a block stores. -/
lemma endBlocker_tobinTaxes (hlast : IsPeriodLast height w.store.params.votePeriod.toNat)
    (h : endBlocker K H S height w = .ok w') :
    ∃ t, tallyVotes K H S w = .ok t
      ∧ w'.store.tobinTaxes = if updateRequired w.store.params.whitelist t.voteTargets
          then whitelistTargets w.store.params.whitelist else w.store.tobinTaxes := by
  obtain ⟨t, ext, ext', taxes, counters, ht, happly, hstore⟩ := endBlocker_store_of_last hlast h
  have htaxes : w'.store.tobinTaxes = taxes := by rw [hstore]
  refine ⟨t, ht, htaxes.trans ?_⟩
  rw [applyWhitelist] at happly
  split_ifs at happly ⊢
  · exact applyItems_eq_ok happly
  · exact (Prod.ext_iff.mp (Except.ok.inj happly)).1.symm

/-- **The stored targets.** After the last block of a vote period the stored targets are the
whitelist exactly when they were before the block, or when the targets whose ballot fails are
not just the delisted ones. -/
theorem endBlocker_tobinTaxes_iff (hs : StakingLawful K w.ext)
    (hlast : IsPeriodLast height w.store.params.votePeriod.toNat)
    (hn : (w.store.params.whitelist.map DenomItem.name).Nodup)
    (h : endBlocker K H S height w = .ok w') :
    IsWhitelist w'.store.tobinTaxes w.store.params.whitelist
      ↔ IsWhitelist w.store.tobinTaxes w.store.params.whitelist
        ∨ ¬ FailingAreDelisted K H w := by
  obtain ⟨t, ht, htaxes⟩ := endBlocker_tobinTaxes hlast h
  rw [← updateRequired_tallyVotes hs hn ht, Bool.not_eq_false, htaxes]
  split_ifs with hupdate
  · simp only [hupdate, or_true, iff_true]
    exact (isWhitelist_iff hn).mpr rfl
  · simp [hupdate]

end Block

/-! ### A delisted denom -/

/-- The texts of a validator that votes for the won. -/
def wonTables : Tables where
  accounts := twoAccounts
  hashes :=
    [("1:1200.0ukrw:terravaloper1weskc6tyv96x7u3dvykk7e3dw3jhyunpwz6935",
        "7857fd7a0bfa43f4f3817b4600e5c0e038f64d38")]
  coins := [("1200.0ukrw", "ukrw", 1200 * 10 ^ 18)]

/-- The default whitelist without the won. -/
def delistedParams : Params :=
  { blockParams with whitelist := blockParams.whitelist.filter fun item => item.name ≠ "ukrw" }

/-- The chain after a vote for the won, once the won has been taken off the whitelist. -/
def afterDelisting (validators : List Validator) : Outcome (World (List Validator)) := do
  let w ← afterVotes wonTables blockParams validators
    [⟨"terra1weskc6tyv96x7u3dvykk7e3dw3jhyunpwdkcp8",
      "terravaloper1weskc6tyv96x7u3dvykk7e3dw3jhyunpwz6935", "1200.0ukrw"⟩]
  pure { w with store := { w.store with params := delistedParams } }

lemma reachable_afterDelisting {validators : List Validator} {w : World (List Validator)}
    (h : afterDelisting validators = .ok w) :
    Reachable staticKeepers (tableHost wonTables) (2, w) := by
  obtain ⟨w₀, hw₀, h⟩ := bind_eq_ok.mp h
  obtain rfl := Except.ok.inj h
  exact (reachable_afterVotes rfl hw₀).step (.params delistedParams rfl)

/-- A vote of one percent of the power keeps a delisted denom: its ballot fails, the targets in
memory lose it, and what is left is the whitelist. -/
theorem delisted_denom_survives :
    ∃ w w', Reachable staticKeepers (tableHost wonTables) (2, w)
      ∧ (w.store.params.whitelist.map DenomItem.name).Nodup
      ∧ IsPeriodLast 2 w.store.params.votePeriod.toNat
      ∧ endBlocker staticKeepers (tableHost wonTables) Schedule.listed 2 w = .ok w'
      ∧ "ukrw" ∉ w.store.params.whitelist.map DenomItem.name
      ∧ w'.store.tobinTaxes.contains "ukrw" = true := by
  obtain ⟨w, hw, htest⟩ := exists_of_returns
    (p := fun w : World (List Validator) =>
      decide ((w.store.params.whitelist.map DenomItem.name).Nodup
        ∧ IsPeriodLast 2 w.store.params.votePeriod.toNat
        ∧ "ukrw" ∉ w.store.params.whitelist.map DenomItem.name)
      && returns (fun w' => w'.store.tobinTaxes.contains "ukrw")
        (endBlocker staticKeepers (tableHost wonTables) Schedule.listed 2 w))
    (x := afterDelisting lopsidedValidators) (by decide +kernel)
  rw [Bool.and_eq_true, decide_eq_true_eq] at htest
  obtain ⟨⟨hn, hlast, hoff⟩, hrun⟩ := htest
  obtain ⟨w', hw', hmem⟩ := exists_of_returns hrun
  exact ⟨w, w', reachable_afterDelisting hw, hn, hlast, hw', hoff, hmem⟩

/-- With half of the power behind the vote the ballot passes, and the whitelist is stored: the
failing ballots are not the delisted ones. -/
theorem delisted_denom_removed :
    ∃ w, Reachable staticKeepers (tableHost wonTables) (2, w)
      ∧ ¬ FailingAreDelisted staticKeepers (tableHost wonTables) w := by
  obtain ⟨w, hw, htest⟩ := exists_of_returns
    (p := fun w : World (List Validator) =>
      decide (StaticLawful w.ext ∧ (w.store.params.whitelist.map DenomItem.name).Nodup
        ∧ IsPeriodLast 2 w.store.params.votePeriod.toNat
        ∧ w.store.tobinTaxes ≠ whitelistTargets w.store.params.whitelist)
      && returns (fun w' => decide (w'.store.tobinTaxes
          = whitelistTargets w.store.params.whitelist))
        (endBlocker staticKeepers (tableHost wonTables) Schedule.listed 2 w))
    (x := afterDelisting twoValidators) (by decide +kernel)
  rw [Bool.and_eq_true, decide_eq_true_eq] at htest
  obtain ⟨⟨hlawful, hn, hlast, hne⟩, hrun⟩ := htest
  obtain ⟨w', hw', hstored⟩ := exists_of_returns hrun
  have hiff := endBlocker_tobinTaxes_iff (stakingLawful_static hlawful) hlast hn hw'
  rw [isWhitelist_iff hn, isWhitelist_iff hn] at hiff
  exact ⟨w, reachable_afterDelisting hw,
    (hiff.mp (of_decide_eq_true hstored)).resolve_left hne⟩

end ColumbusCore.Oracle
