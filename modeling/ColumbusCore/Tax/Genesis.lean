import ColumbusCore.Tax.Zones

/-!
The genesis of the tax exemption module (`x/taxexemption/genesis.go`): its validation, its export
and the import of what was exported.

The export regroups the map from addresses to zones into a list of zones with their addresses. Its
loop over the Go map of the groups visits them in an order of its own, and the names are sorted
after it.

* `validateGenesis`, `exportGenesis`: the code;
* `getElem?_zoneAddresses`: the group of a zone is the addresses assigned to it;
* `validateGenesis_exportState`: the exported state is valid;
* `initGenesis_exportState`: its import rebuilds the store;
* `exportGenesis_storeAfter`: **the round trip** from every store the operations lead to.
-/

namespace ColumbusCore.Tax

open Go
open Std (ExtTreeMap)

/-! ### The code -/

/-- `ValidateGenesis`. -/
def validateGenesis (parse : String → Option AccAddress) (data : GenesisState) : Outcome Unit := do
  failIf (data.zoneList.length ≠ data.addressesByZone.length)
    "length of zone list and addresses by zone must be equal"
  data.addressesByZone.forM fun byZone => do
    failIf (byZone.zone ∉ data.zoneList.map Zone.name) "zone not exist"
    byZone.addresses.forM fun address => failIf (parse address = none) "decoding bech32 failed"

namespace ExemptionStore

/-- One round of the loop over the zones: the zone gets a group without addresses. -/
def openGroup (zoneAddresses : ExtTreeMap String (List String)) (zone : Zone) :
    ExtTreeMap String (List String) :=
  zoneAddresses.insert zone.name []

/-- One round of the loop over the addresses: an address of a zone without a group is dropped. -/
def groupAddress (zoneAddresses : ExtTreeMap String (List String)) (e : String × String) :
    ExtTreeMap String (List String) :=
  match zoneAddresses[e.2]? with
  | some addresses => zoneAddresses.insert e.2 (addresses ++ [e.1])
  | none => zoneAddresses

/-- The zones in the order of the iterator. -/
def zoneList (s : ExemptionStore) : List Zone := s.zones.toList.map Prod.snd

/-- The map `zoneAddresses` after both loops. -/
def zoneAddresses (s : ExemptionStore) : ExtTreeMap String (List String) :=
  s.addresses.toList.foldl groupAddress (s.zoneList.foldl openGroup ∅)

/-- The names of the groups, sorted. -/
def zoneNames (order : RangeOrder (String × List String)) (s : ExemptionStore) : List String :=
  ((order.visit s.zoneAddresses.toList).map Prod.fst).insertionSort (· ≤ ·)

/-- The state that is exported. -/
def exportState (order : RangeOrder (String × List String)) (s : ExemptionStore) : GenesisState where
  zoneList := s.zoneList
  addressesByZone := (s.zoneNames order).map fun n => ⟨n, s.zoneAddresses.getD n []⟩

/-- `ExportGenesis`: the state is validated, and an error of the validation is a panic. -/
def exportGenesis (parse : String → Option AccAddress) (order : RangeOrder (String × List String))
    (s : ExemptionStore) : Outcome GenesisState := do
  panicOnError "error validate genesis: " (validateGenesis parse (s.exportState order))
  pure (s.exportState order)

variable {parse : String → Option AccAddress} {s : ExemptionStore}
  {order : RangeOrder (String × List String)}

/-! ### The groups -/

/-- The zones listed have a group, and it is empty. -/
lemma getElem?_foldl_openGroup (l : List Zone) (m : ExtTreeMap String (List String)) (n : String) :
    (l.foldl openGroup m)[n]? = if n ∈ l.map Zone.name then some [] else m[n]? := by
  induction l generalizing m with
  | nil => simp
  | cons zone l ih =>
      rw [List.foldl_cons, ih, openGroup, getElem?_insert_ite, List.map_cons]
      by_cases hl : n ∈ l.map Zone.name
      · rw [if_pos hl, if_pos (List.mem_cons_of_mem _ hl)]
      · simp only [List.mem_cons, hl, or_false, if_false, eq_comm (a := n)]

/-- The addresses listed, each appended to the group of its zone. -/
lemma getElem?_foldl_groupAddress (l : List (String × String))
    (m : ExtTreeMap String (List String)) (n : String) :
    (l.foldl groupAddress m)[n]?
      = m[n]?.map (· ++ (l.filter fun e => e.2 = n).map Prod.fst) := by
  induction l generalizing m with
  | nil => simp
  | cons e l ih =>
      have hround : (groupAddress m e)[n]? = m[n]?.map (· ++ if e.2 = n then [e.1] else []) := by
        rw [groupAddress]
        by_cases hn : e.2 = n
        · subst hn
          cases hm : m[e.2]? with
          | none => simp [hm]
          | some addresses => simp
        · cases m[e.2]? with
          | none => simp [hn]
          | some addresses => simp [getElem?_insert_ite, hn]
      rw [List.foldl_cons, ih, hround, Option.map_map]
      congr 1
      funext addresses
      by_cases hn : e.2 = n <;> simp [hn]

lemma mem_zoneList {zone : Zone} :
    zone ∈ s.zoneList ↔ ∃ n : String, s.zones[n]? = some zone := by
  simp only [zoneList, List.mem_map, Prod.exists, ExtTreeMap.mem_toList_iff_getElem?_eq_some]
  exact ⟨fun ⟨n, _, hz, he⟩ => ⟨n, he ▸ hz⟩, fun ⟨n, hz⟩ => ⟨n, zone, hz, rfl⟩⟩

/-- The zones are listed once, under the names they are stored under. -/
lemma zoneList_map_name (h : Linked parse s) : s.zoneList.map Zone.name = s.zones.keys := by
  rw [zoneList, List.map_map, ← ExtTreeMap.map_fst_toList_eq_keys]
  refine List.map_congr_left fun e he => ?_
  exact h.name_eq e.1 e.2 (ExtTreeMap.mem_toList_iff_getElem?_eq_some.mp he)

lemma mem_map_name_zoneList (h : Linked parse s) {n : String} :
    n ∈ s.zoneList.map Zone.name ↔ s.zones[n]? ≠ none := by
  rw [zoneList_map_name h, ExtTreeMap.mem_keys, ExtTreeMap.mem_iff_isSome_getElem?,
    Option.isSome_iff_ne_none]

/-- **The groups.** A zone has one, and it holds the addresses assigned to the zone. -/
lemma getElem?_zoneAddresses (h : Linked parse s) (n : String) :
    s.zoneAddresses[n]? = if s.zones[n]? ≠ none then
      some ((s.addresses.toList.filter fun e => e.2 = n).map Prod.fst) else none := by
  rw [zoneAddresses, getElem?_foldl_groupAddress, getElem?_foldl_openGroup]
  simp only [mem_map_name_zoneList h]
  split_ifs <;> simp

lemma mem_getD_zoneAddresses (h : Linked parse s) {n a : String} :
    a ∈ s.zoneAddresses.getD n [] ↔ s.addresses[a]? = some n := by
  have hgroup : a ∈ (s.addresses.toList.filter fun e => e.2 = n).map Prod.fst
      ↔ s.addresses[a]? = some n := by
    simp only [List.mem_map, List.mem_filter, Prod.exists,
      ExtTreeMap.mem_toList_iff_getElem?_eq_some, decide_eq_true_eq]
    exact ⟨fun ⟨_, _, ⟨ha, hn⟩, he⟩ => hn ▸ he ▸ ha, fun ha => ⟨a, n, ⟨ha, rfl⟩, rfl⟩⟩
  rw [ExtTreeMap.getD_eq_getD_getElem?, getElem?_zoneAddresses h]
  split_ifs with hzone
  · exact hgroup
  · refine ⟨fun ha => absurd ha List.not_mem_nil, fun ha => absurd (h.assigned a n ha) hzone⟩

/-- The names of the groups are those of the zones. -/
lemma zoneNames_perm (h : Linked parse s) : (s.zoneNames order).Perm s.zones.keys := by
  have hkeys : s.zoneAddresses.keys.Perm s.zones.keys := by
    refine (List.perm_ext_iff_of_nodup ?_ ?_).mpr fun n => ?_
    · rw [← ExtTreeMap.map_fst_toList_eq_keys]
      exact nodup_keys_toList _
    · rw [← ExtTreeMap.map_fst_toList_eq_keys]
      exact nodup_keys_toList _
    · rw [ExtTreeMap.mem_keys, ExtTreeMap.mem_keys, ExtTreeMap.mem_iff_isSome_getElem?,
        ExtTreeMap.mem_iff_isSome_getElem?, getElem?_zoneAddresses h]
      by_cases hzone : s.zones[n]? = none
      · simp [hzone]
      · rw [if_pos hzone]
        exact ⟨fun _ => Option.isSome_iff_ne_none.mpr hzone, fun _ => rfl⟩
  calc List.Perm (s.zoneNames order) ((order.visit s.zoneAddresses.toList).map Prod.fst) :=
        List.perm_insertionSort _ _
    List.Perm _ (s.zoneAddresses.toList.map Prod.fst) := (order.perm _).map _
    List.Perm _ s.zones.keys := by rwa [ExtTreeMap.map_fst_toList_eq_keys]

/-! ### The exported state is valid -/

lemma mem_zoneNames (h : Linked parse s) {n : String} :
    n ∈ s.zoneNames order ↔ s.zones[n]? ≠ none := by
  rw [(zoneNames_perm h).mem_iff, ExtTreeMap.mem_keys, ExtTreeMap.mem_iff_isSome_getElem?,
    Option.isSome_iff_ne_none]

lemma validateGenesis_exportState (h : Linked parse s) :
    validateGenesis parse (s.exportState order) = .ok () := by
  refine failIf_bind_eq_ok.mpr ⟨?_, forM_eq_ok_of_forall fun byZone hmem => ?_⟩
  · have hlength : s.zoneList.length = (s.zoneNames order).length := by
      rw [(zoneNames_perm h).length_eq, ← zoneList_map_name h, List.length_map]
    simpa [exportState] using hlength
  · obtain ⟨n, hn, rfl⟩ := List.mem_map.mp hmem
    refine failIf_bind_eq_ok.mpr ⟨not_not.mpr ?_, forM_eq_ok_of_forall fun a ha => ?_⟩
    · exact (mem_map_name_zoneList h).mpr ((mem_zoneNames h).mp hn)
    · exact failIf_eq_ok.mpr (h.accepted a n ((mem_getD_zoneAddresses h).mp ha))

/-! ### Its import rebuilds the store -/

/-- The import of zones that have names stores each under its name. -/
lemma foldl_addTaxExemptionZone {l : List Zone} (hl : (l.map Zone.name).Nodup)
    (hne : ∀ zone ∈ l, zone.name ≠ "") {t : ExemptionStore}
    (ht : t = l.foldl (fun s zone => keepOnError s (s.addTaxExemptionZone zone)) ⟨∅, ∅⟩) :
    IndexOf Zone.name t.zones l ∧ t.addresses = ∅ := by
  subst ht
  refine foldl_induction
    (fun pre (t : ExemptionStore) => IndexOf Zone.name t.zones pre ∧ t.addresses = ∅)
    ⟨indexOf_empty, rfl⟩ ?_
  rintro pre zone post t rfl ⟨hindex, hempty⟩
  have hrun : t.addTaxExemptionZone zone = .ok { t with zones := t.zones.insert zone.name zone } :=
    failIf_bind_eq_ok.mpr ⟨hne zone (by simp), rfl⟩
  have hnew : zone.name ∉ pre.map Zone.name := by
    rw [List.map_append, List.nodup_append] at hl
    exact fun hmem => hl.2.2 _ hmem zone.name (by simp) rfl
  simp only [hrun, keepOnError]
  exact ⟨hindex.concat hnew, hempty⟩

/-- One round of the import of addresses, for an address that is new or of the zone already. -/
lemma keepOnError_addTaxExemptionAddress {t : ExemptionStore} {zone a : String}
    (hzone : t.zones[zone]? ≠ none) (hparse : parse a ≠ none)
    (hfree : t.addresses[a]? = none ∨ t.addresses[a]? = some zone) :
    keepOnError t (t.addTaxExemptionAddress parse zone a)
      = { t with addresses := t.addresses.insert a zone } := by
  rw [addTaxExemptionAddress, failIf_eq_ok.mpr hparse, ok_bind, failIf_eq_ok.mpr hzone, ok_bind]
  rcases hfree with hnew | hold
  · rw [hnew]
    rfl
  · -- the address is there already, and storing it again would change nothing
    have hsame : t.addresses.insert a zone = t.addresses := by
      refine ExtTreeMap.ext_getElem? fun b => ?_
      rw [getElem?_insert_ite]
      split_ifs with hb
      · rw [← hb, hold]
      · rfl
    rw [hold, hsame]
    simp [failIf, keepOnError]

/-- The import of the addresses of one zone. -/
lemma foldl_addTaxExemptionAddress {zone : String} {l : List String} {t t' : ExemptionStore}
    (hzone : t.zones[zone]? ≠ none) (hparse : ∀ a ∈ l, parse a ≠ none)
    (hfree : ∀ a ∈ l, t.addresses[a]? = none ∨ t.addresses[a]? = some zone)
    (ht' : t' = l.foldl (fun s a => keepOnError s (s.addTaxExemptionAddress parse zone a)) t) :
    t'.zones = t.zones
    ∧ ∀ b : String, t'.addresses[b]? = if b ∈ l then some zone else t.addresses[b]? := by
  subst ht'
  refine foldl_induction (fun pre (u : ExemptionStore) => u.zones = t.zones
    ∧ ∀ b : String, u.addresses[b]? = if b ∈ pre then some zone else t.addresses[b]?)
    ⟨rfl, by simp⟩ ?_
  rintro pre a post u rfl ⟨hzones, haddresses⟩
  have hfree' : u.addresses[a]? = none ∨ u.addresses[a]? = some zone := by
    rw [haddresses]
    split_ifs
    · exact .inr rfl
    · exact hfree a (by simp)
  rw [keepOnError_addTaxExemptionAddress (hzones ▸ hzone) (hparse a (by simp)) hfree']
  refine ⟨hzones, fun b => ?_⟩
  rw [getElem?_insert_ite, haddresses]
  by_cases hab : a = b
  · simp [hab]
  · simp [hab, Ne.symm hab]

/-- The import of groups of a store's addresses assigns the addresses of these groups. -/
lemma foldl_importGroups (h : Linked parse s) {groups : List AddressesByZone}
    (hgroups : ∀ byZone ∈ groups, s.zones[byZone.zone]? ≠ none
      ∧ ∀ a, a ∈ byZone.addresses ↔ s.addresses[a]? = some byZone.zone)
    {t t' : ExemptionStore} (hzones : t.zones = s.zones) (hempty : t.addresses = ∅)
    (ht' : t' = groups.foldl (fun s byZone => byZone.addresses.foldl (fun s address =>
      keepOnError s (s.addTaxExemptionAddress parse byZone.zone address)) s) t) :
    t'.zones = s.zones ∧ ∀ b n : String, t'.addresses[b]? = some n ↔
      n ∈ groups.map AddressesByZone.zone ∧ s.addresses[b]? = some n := by
  subst ht'
  refine foldl_induction
    (fun pre (u : ExemptionStore) => u.zones = s.zones ∧ ∀ b n : String, u.addresses[b]? = some n ↔
      n ∈ pre.map AddressesByZone.zone ∧ s.addresses[b]? = some n)
    ⟨hzones, by simp [hempty]⟩ ?_
  rintro pre byZone post u rfl ⟨huzones, huaddresses⟩
  obtain ⟨hzone, hmem⟩ := hgroups byZone (by simp)
  have hfree : ∀ a ∈ byZone.addresses,
      u.addresses[a]? = none ∨ u.addresses[a]? = some byZone.zone := by
    intro a ha
    cases hold : u.addresses[a]? with
    | none => exact .inl rfl
    | some n =>
        have hn : s.addresses[a]? = some n := ((huaddresses a n).mp hold).2
        exact .inr (hn.symm.trans ((hmem a).mp ha))
  obtain ⟨hz, ha⟩ := foldl_addTaxExemptionAddress (huzones ▸ hzone)
    (fun a ha => h.accepted a _ ((hmem a).mp ha)) hfree rfl
  refine ⟨hz.trans huzones, fun b n => ?_⟩
  rw [ha b, List.map_append, List.mem_append, List.map_singleton, List.mem_singleton]
  split_ifs with hb
  · rw [hmem b] at hb
    constructor
    · intro hn
      obtain rfl := Option.some.inj hn
      exact ⟨.inr rfl, hb⟩
    · rintro ⟨-, hn⟩
      exact hb.symm.trans hn
  · rw [huaddresses b n]
    refine and_congr_left fun hn => ⟨.inl, fun hor => hor.resolve_right fun heq => hb ?_⟩
    exact (hmem b).mpr (heq ▸ hn)

/-- The import of the exported state rebuilds the store. -/
lemma initGenesis_exportState (h : Linked parse s) :
    initGenesis parse ⟨∅, ∅⟩ (s.exportState order) = s := by
  have hnodup : (s.zoneList.map Zone.name).Nodup := by
    rw [zoneList_map_name h, ← ExtTreeMap.map_fst_toList_eq_keys]
    exact nodup_keys_toList _
  have hnames : ∀ zone ∈ s.zoneList, zone.name ≠ "" := by
    intro zone hzone
    obtain ⟨n, hn⟩ := mem_zoneList.mp hzone
    rw [h.name_eq n zone hn]
    exact h.name_ne n zone hn
  obtain ⟨hindex, hempty⟩ := foldl_addTaxExemptionZone hnodup hnames rfl
  have hgroups : ∀ byZone ∈ (s.exportState order).addressesByZone, s.zones[byZone.zone]? ≠ none
      ∧ ∀ a, a ∈ byZone.addresses ↔ s.addresses[a]? = some byZone.zone := by
    intro byZone hmem
    obtain ⟨n, hn, rfl⟩ := List.mem_map.mp hmem
    exact ⟨(mem_zoneNames h).mp hn, fun a => mem_getD_zoneAddresses h⟩
  have hzoned := hindex.unique (indexOf_values h.name_eq)
  obtain ⟨hzones, haddresses⟩ := foldl_importGroups h hgroups hzoned hempty rfl
  have hsame : (initGenesis parse ⟨∅, ∅⟩ (s.exportState order)).addresses = s.addresses := by
    refine ExtTreeMap.ext_getElem? fun b => Option.ext fun n => ?_
    refine (haddresses b n).trans ⟨And.right, fun hn => ⟨?_, hn⟩⟩
    rw [exportState, List.map_map, List.mem_map]
    exact ⟨n, (mem_zoneNames h).mpr (h.assigned b n hn), rfl⟩
  exact congr_arg₂ ExemptionStore.mk hzones hsame

end ExemptionStore

/-- **The round trip of the genesis.** From every store that a sequence of imports and of the
keeper's operations leads to, the export does not panic, its result is valid, and the import of it
into an empty store restores the zones and the addresses, in whatever order the loop over the
groups visits them. -/
theorem exportGenesis_storeAfter (parse : String → Option AccAddress)
    (order : RangeOrder (String × List String)) (ops : List Operation) :
    ∃ data, (storeAfter parse ops).exportGenesis parse order = .ok data
      ∧ validateGenesis parse data = .ok ()
      ∧ ExemptionStore.initGenesis parse ⟨∅, ∅⟩ data = storeAfter parse ops := by
  have h := linked_storeAfter parse ops
  have hvalid : validateGenesis parse ((storeAfter parse ops).exportState order) = .ok () :=
    ExemptionStore.validateGenesis_exportState h
  refine ⟨(storeAfter parse ops).exportState order, ?_, hvalid,
    ExemptionStore.initGenesis_exportState h⟩
  exact unit_bind_eq_ok.mpr ⟨panicOnError_eq_ok.mpr hvalid, rfl⟩

end ColumbusCore.Tax
