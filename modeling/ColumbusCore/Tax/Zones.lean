import ColumbusCore.Tax.Exemption

/-!
The zones and addresses of the tax exemption module (`x/taxexemption/keeper/keeper.go`), its
genesis (`x/taxexemption/genesis.go`) and the migration of the old exemption list
(`app/upgrades/v12/upgrades.go`).

The store is changed by the seven operations of `Operation`; one that fails leaves it as it was.
The loops of the genesis import and of the removal of a zone drop the errors of their rounds.

* `addTaxExemptionZone`, …, `initGenesis`, `upgradeV12`: the code;
* `Linked`, `Operation.linked`: what every operation keeps;
* `removeTaxExemptionZone_eq_ok`: **what the removal of a zone leaves**;
* `storeAfter_integrity`: **every listed address is assigned to a zone that exists**.
-/

namespace ColumbusCore.Tax

open Go
open Std (ExtTreeMap)

/-- `AddressesByZone` of a genesis. -/
structure AddressesByZone where
  zone : String
  addresses : List String

/-- `GenesisState`. -/
structure GenesisState where
  zoneList : List Zone
  addressesByZone : List AddressesByZone

namespace ExemptionStore

/-! ### The code -/

/-- The error for a name under which no zone is stored. -/
def noSuchZone (zoneName : String) : String :=
  "zone = " ++ zoneName ++ ": no such zone in exemption list"

/-- `AddTaxExemptionZone`: a zone of that name is replaced. -/
def addTaxExemptionZone (s : ExemptionStore) (zone : Zone) : Outcome ExemptionStore := do
  failIf (zone.name = "") "zone name cannot be empty"
  pure { s with zones := s.zones.insert zone.name zone }

/-- `ModifyTaxExemptionZone`. -/
def modifyTaxExemptionZone (s : ExemptionStore) (zone : Zone) : Outcome ExemptionStore := do
  failIf (zone.name = "") "zone name cannot be empty"
  failIf (s.zones[zone.name]? = none) (noSuchZone zone.name)
  pure { s with zones := s.zones.insert zone.name zone }

/-- `AddTaxExemptionAddress`: an address of that zone stays, one of another zone is an error. -/
def addTaxExemptionAddress (parse : String → Option AccAddress) (s : ExemptionStore)
    (zone address : String) : Outcome ExemptionStore := do
  failIf (parse address = none) "decoding bech32 failed"
  failIf (s.zones[zone]? = none) (noSuchZone zone)
  match s.addresses[address]? with
  | some existingZone =>
      failIf (existingZone ≠ zone) ("address " ++ address
        ++ " is already associated with a different zone: " ++ existingZone)
      pure s
  | none => pure { s with addresses := s.addresses.insert address zone }

/-- `RemoveTaxExemptionAddress`. -/
def removeTaxExemptionAddress (parse : String → Option AccAddress) (s : ExemptionStore)
    (zone address : String) : Outcome ExemptionStore := do
  failIf (parse address = none) "decoding bech32 failed"
  match s.addresses[address]? with
  | none => failed ("address " ++ address ++ " is not associated with any zone")
  | some existingZone =>
      failIf (existingZone ≠ zone) ("address " ++ address
        ++ " is associated with a different zone: " ++ existingZone)
      pure { s with addresses := s.addresses.erase address }

/-- The removal of addresses from a zone, one after the other, whatever becomes of each. -/
def removeAddresses (parse : String → Option AccAddress) (zoneName : String)
    (s : ExemptionStore) (addresses : List String) : ExemptionStore :=
  addresses.foldl
    (fun s address => keepOnError s (s.removeTaxExemptionAddress parse zoneName address)) s

/-- `RemoveTaxExemptionZone`: the iterator is over the addresses as they were before the loop. -/
def removeTaxExemptionZone (parse : String → Option AccAddress) (s : ExemptionStore)
    (zoneName : String) : Outcome ExemptionStore := do
  failIf (zoneName = "") "zone name cannot be empty"
  failIf (s.zones[zoneName]? = none) (noSuchZone zoneName)
  pure { removeAddresses parse zoneName s s.addresses.keys with
    zones := s.zones.erase zoneName }

/-- `InitGenesis`. -/
def initGenesis (parse : String → Option AccAddress) (s : ExemptionStore) (data : GenesisState) :
    ExemptionStore :=
  let s := data.zoneList.foldl (fun s zone => keepOnError s (s.addTaxExemptionZone zone)) s
  data.addressesByZone.foldl (fun s byZone => byZone.addresses.foldl (fun s address =>
    keepOnError s (s.addTaxExemptionAddress parse byZone.zone address)) s) s

/-- The zone of the upgrade handler. -/
def intoZone : Zone := ⟨"Binance", false, false, false⟩

/-- The handler of `CreateV12UpgradeHandler`, from the addresses of the old list. The module
migrations it runs in between import the default genesis of this module, which is empty. -/
def upgradeV12 (parse : String → Option AccAddress) (s : ExemptionStore)
    (addresses : List String) : Outcome ExemptionStore := do
  let s ← s.addTaxExemptionZone intoZone
  addresses.foldlM (fun s address => s.addTaxExemptionAddress parse intoZone.name address) s

end ExemptionStore

/-- What changes the store. -/
inductive Operation where
  | initGenesis (data : GenesisState)
  | upgradeV12 (addresses : List String)
  | addZone (zone : Zone)
  | modifyZone (zone : Zone)
  | removeZone (zoneName : String)
  | addAddress (zone address : String)
  | removeAddress (zone address : String)

/-- The outcome of an operation. -/
def Operation.run (parse : String → Option AccAddress) (s : ExemptionStore) :
    Operation → Outcome ExemptionStore
  | .initGenesis data => pure (s.initGenesis parse data)
  | .upgradeV12 addresses => s.upgradeV12 parse addresses
  | .addZone zone => s.addTaxExemptionZone zone
  | .modifyZone zone => s.modifyTaxExemptionZone zone
  | .removeZone zoneName => s.removeTaxExemptionZone parse zoneName
  | .addAddress zone address => s.addTaxExemptionAddress parse zone address
  | .removeAddress zone address => s.removeTaxExemptionAddress parse zone address

/-- The store after a sequence of operations on an empty one. -/
def storeAfter (parse : String → Option AccAddress) (ops : List Operation) : ExemptionStore :=
  ops.foldl (fun s op => keepOnError s (op.run parse s)) ⟨∅, ∅⟩

namespace ExemptionStore

variable {parse : String → Option AccAddress} {s s' : ExemptionStore}

/-! ### What an operation has done -/

lemma addTaxExemptionZone_eq_ok {zone : Zone} (h : s.addTaxExemptionZone zone = .ok s') :
    zone.name ≠ "" ∧ s' = { s with zones := s.zones.insert zone.name zone } := by
  obtain ⟨hname, h⟩ := failIf_bind_eq_ok.mp h
  exact ⟨hname, (Except.ok.inj h).symm⟩

/-- A zone that is modified is set as a new one would be. -/
lemma modifyTaxExemptionZone_eq_ok {zone : Zone} (h : s.modifyTaxExemptionZone zone = .ok s') :
    s.addTaxExemptionZone zone = .ok s' := by
  obtain ⟨hname, h⟩ := failIf_bind_eq_ok.mp h
  obtain ⟨-, h⟩ := failIf_bind_eq_ok.mp h
  exact failIf_bind_eq_ok.mpr ⟨hname, h⟩

lemma addTaxExemptionAddress_eq_ok {zone address : String}
    (h : s.addTaxExemptionAddress parse zone address = .ok s') :
    parse address ≠ none ∧ s.zones[zone]? ≠ none
      ∧ (s' = s ∨ s' = { s with addresses := s.addresses.insert address zone }) := by
  obtain ⟨hparse, h⟩ := failIf_bind_eq_ok.mp h
  obtain ⟨hzone, h⟩ := failIf_bind_eq_ok.mp h
  refine ⟨hparse, hzone, ?_⟩
  cases hold : s.addresses[address]? with
  | some existingZone =>
      rw [hold] at h
      obtain ⟨-, h⟩ := failIf_bind_eq_ok.mp h
      exact .inl (Except.ok.inj h).symm
  | none =>
      rw [hold] at h
      exact .inr (Except.ok.inj h).symm

lemma removeTaxExemptionAddress_eq_ok {zone address : String}
    (h : s.removeTaxExemptionAddress parse zone address = .ok s') :
    s' = { s with addresses := s.addresses.erase address } := by
  obtain ⟨-, h⟩ := failIf_bind_eq_ok.mp h
  cases hold : s.addresses[address]? with
  | none =>
      rw [hold] at h
      exact absurd h failed_ne_ok
  | some existingZone =>
      rw [hold] at h
      obtain ⟨-, h⟩ := failIf_bind_eq_ok.mp h
      exact (Except.ok.inj h).symm

/-- One round of the removal of a zone takes the address off the list where it is of the zone. -/
lemma keepOnError_removeTaxExemptionAddress {zone address : String}
    (hparse : parse address ≠ none) :
    keepOnError s (s.removeTaxExemptionAddress parse zone address)
      = if s.addresses[address]? = some zone then
          { s with addresses := s.addresses.erase address }
        else s := by
  rw [removeTaxExemptionAddress, failIf_eq_ok.mpr hparse, ok_bind]
  cases s.addresses[address]? with
  | none => rfl
  | some existingZone =>
      by_cases hzone : existingZone = zone
      · rw [if_pos (congrArg some hzone)]
        simp [failIf, hzone, keepOnError]
      · rw [if_neg fun h => hzone (Option.some.inj h)]
        simp [failIf, hzone, keepOnError, failed]

/-- The addresses the loop visited and found in the zone are off the list. -/
lemma getElem?_removeAddresses {zoneName : String} {l : List String}
    (hl : ∀ a ∈ l, parse a ≠ none) (s : ExemptionStore) (b : String) :
    (removeAddresses parse zoneName s l).addresses[b]?
      = if b ∈ l ∧ s.addresses[b]? = some zoneName then none else s.addresses[b]? := by
  induction l generalizing s with
  | nil => simp [removeAddresses]
  | cons a l ih =>
      obtain ⟨ha, hl⟩ := List.forall_mem_cons.mp hl
      have hround : removeAddresses parse zoneName s (a :: l) = removeAddresses parse zoneName
          (if s.addresses[a]? = some zoneName then
            { s with addresses := s.addresses.erase a } else s) l := by
        rw [← keepOnError_removeTaxExemptionAddress ha]
        rfl
      rw [hround, ih hl]
      by_cases hzone : s.addresses[a]? = some zoneName
      · rw [if_pos hzone]
        simp only [getElem?_erase_ite, List.mem_cons]
        by_cases hab : a = b
        · subst hab
          simp [hzone]
        · simp [hab, Ne.symm hab]
      · rw [if_neg hzone]
        by_cases hab : b = a
        · subst hab
          simp [hzone]
        · simp [hab]

/-! ### What every operation keeps -/

/-- Zones are stored under their names, and addresses are assigned to zones that exist. -/
structure Linked (parse : String → Option AccAddress) (s : ExemptionStore) : Prop where
  name_eq : ∀ (n : String) (z : Zone), s.zones[n]? = some z → z.name = n
  name_ne : ∀ (n : String) (z : Zone), s.zones[n]? = some z → n ≠ ""
  assigned : ∀ a n : String, s.addresses[a]? = some n → s.zones[n]? ≠ none
  accepted : ∀ a n : String, s.addresses[a]? = some n → parse a ≠ none

namespace Linked

lemma empty : Linked parse ⟨∅, ∅⟩ where
  name_eq n z h := by simp at h
  name_ne n z h := by simp at h
  assigned a n h := by simp at h
  accepted a n h := by simp at h

/-- The zone an address is assigned to. -/
lemma exists_zone (h : Linked parse s) {a n : String} (ha : s.addresses[a]? = some n) :
    ∃ z, s.zones[n]? = some z ∧ z.name = n := by
  obtain ⟨z, hz⟩ := Option.ne_none_iff_exists'.mp (h.assigned a n ha)
  exact ⟨z, hz, h.name_eq n z hz⟩

lemma setZone (h : Linked parse s) {zone : Zone} (hname : zone.name ≠ "") :
    Linked parse { s with zones := s.zones.insert zone.name zone } where
  name_eq n z hz := by
    simp only [getElem?_insert_ite] at hz
    split_ifs at hz with hn
    · rw [← hn, Option.some.inj hz]
    · exact h.name_eq n z hz
  name_ne n z hz := by
    simp only [getElem?_insert_ite] at hz
    split_ifs at hz with hn
    · exact hn ▸ hname
    · exact h.name_ne n z hz
  assigned a n ha := by
    simp only [getElem?_insert_ite]
    split_ifs
    · simp
    · exact h.assigned a n ha
  accepted := h.accepted

lemma setAddress (h : Linked parse s) {zone address : String} (hparse : parse address ≠ none)
    (hzone : s.zones[zone]? ≠ none) :
    Linked parse { s with addresses := s.addresses.insert address zone } where
  name_eq := h.name_eq
  name_ne := h.name_ne
  assigned a n ha := by
    simp only [getElem?_insert_ite] at ha
    split_ifs at ha
    · exact Option.some.inj ha ▸ hzone
    · exact h.assigned a n ha
  accepted a n ha := by
    simp only [getElem?_insert_ite] at ha
    split_ifs at ha with haddress
    · exact haddress ▸ hparse
    · exact h.accepted a n ha

lemma eraseAddress (h : Linked parse s) (address : String) :
    Linked parse { s with addresses := s.addresses.erase address } := by
  have hkept : ∀ a n : String, (s.addresses.erase address)[a]? = some n →
      s.addresses[a]? = some n := by
    intro a n ha
    rw [getElem?_erase_ite] at ha
    split_ifs at ha
    exact ha
  exact ⟨h.name_eq, h.name_ne, fun a n ha => h.assigned a n (hkept a n ha),
    fun a n ha => h.accepted a n (hkept a n ha)⟩

lemma addZone (h : Linked parse s) {zone : Zone} (hrun : s.addTaxExemptionZone zone = .ok s') :
    Linked parse s' := by
  obtain ⟨hname, rfl⟩ := addTaxExemptionZone_eq_ok hrun
  exact h.setZone hname

lemma addAddress (h : Linked parse s) {zone address : String}
    (hrun : s.addTaxExemptionAddress parse zone address = .ok s') : Linked parse s' := by
  obtain ⟨hparse, hzone, hs'⟩ := addTaxExemptionAddress_eq_ok hrun
  rcases hs' with rfl | rfl
  · exact h
  · exact h.setAddress hparse hzone

end Linked

/-- **The removal of a zone** removes the zone and the addresses assigned to it, and nothing
else. -/
theorem removeTaxExemptionZone_eq_ok (h : Linked parse s) {zoneName : String}
    (hrun : s.removeTaxExemptionZone parse zoneName = .ok s') :
    (∀ n : String, s'.zones[n]? = if n = zoneName then none else s.zones[n]?)
      ∧ ∀ a : String, s'.addresses[a]? = if s.addresses[a]? = some zoneName then none
        else s.addresses[a]? := by
  obtain ⟨-, hrun⟩ := failIf_bind_eq_ok.mp hrun
  obtain ⟨-, hrun⟩ := failIf_bind_eq_ok.mp hrun
  obtain rfl := Except.ok.inj hrun
  refine ⟨fun n => ?_, fun a => ?_⟩
  · simp only [getElem?_erase_ite, eq_comm (a := zoneName)]
  · have hlisted : ∀ b ∈ s.addresses.keys, parse b ≠ none := by
      intro b hb
      obtain ⟨n, hn⟩ := Option.isSome_iff_exists.mp
        (ExtTreeMap.mem_iff_isSome_getElem?.mp (ExtTreeMap.mem_keys.mp hb))
      exact h.accepted b n hn
    rw [getElem?_removeAddresses hlisted]
    by_cases ha : s.addresses[a]? = some zoneName
    · have hmem : a ∈ s.addresses.keys := ExtTreeMap.mem_keys.mpr (mem_of_getElem?_eq_some ha)
      simp [ha, hmem]
    · simp [ha]

lemma Linked.removeZone (h : Linked parse s) {zoneName : String}
    (hrun : s.removeTaxExemptionZone parse zoneName = .ok s') : Linked parse s' := by
  obtain ⟨hzones, haddresses⟩ := removeTaxExemptionZone_eq_ok h hrun
  have hzone : ∀ (n : String) (z : Zone), s'.zones[n]? = some z → s.zones[n]? = some z := by
    intro n z hz
    rw [hzones] at hz
    split_ifs at hz
    exact hz
  have haddress : ∀ a n : String, s'.addresses[a]? = some n →
      s.addresses[a]? = some n ∧ n ≠ zoneName := by
    intro a n ha
    rw [haddresses] at ha
    split_ifs at ha with hne
    exact ⟨ha, fun hn => hne (hn ▸ ha)⟩
  refine ⟨fun n z hz => h.name_eq n z (hzone n z hz), fun n z hz => h.name_ne n z (hzone n z hz),
    fun a n ha => ?_, fun a n ha => h.accepted a n (haddress a n ha).1⟩
  rw [hzones, if_neg (haddress a n ha).2]
  exact h.assigned a n (haddress a n ha).1

lemma Linked.initGenesis (h : Linked parse s) (data : GenesisState) :
    Linked parse (s.initGenesis parse data) := by
  have hzones : Linked parse
      (data.zoneList.foldl (fun s zone => keepOnError s (s.addTaxExemptionZone zone)) s) :=
    foldl_keepOnError (Linked parse) h fun _ _ _ _ hs hrun => hs.addZone hrun
  exact List.foldlRecOn data.addressesByZone _ hzones fun _ hs byZone _ =>
    foldl_keepOnError (Linked parse) hs fun _ _ _ _ hs hrun => hs.addAddress hrun

lemma Linked.upgradeV12 (h : Linked parse s) {addresses : List String}
    (hrun : s.upgradeV12 parse addresses = .ok s') : Linked parse s' := by
  obtain ⟨s₁, hzone, hrun⟩ := bind_eq_ok.mp hrun
  exact foldlM_invariant (Linked parse) hrun (h.addZone hzone)
    fun _ _ _ _ hs hround => hs.addAddress hround

end ExemptionStore

open ExemptionStore

variable {parse : String → Option AccAddress} {s s' : ExemptionStore}

/-- One operation keeps the links. -/
lemma Operation.linked (h : Linked parse s) {op : Operation} (hrun : op.run parse s = .ok s') :
    Linked parse s' := by
  cases op with
  | initGenesis data =>
      obtain rfl := Except.ok.inj hrun
      exact h.initGenesis data
  | upgradeV12 addresses => exact h.upgradeV12 hrun
  | addZone zone => exact h.addZone hrun
  | modifyZone zone => exact h.addZone (modifyTaxExemptionZone_eq_ok hrun)
  | removeZone zoneName => exact h.removeZone hrun
  | addAddress zone address => exact h.addAddress hrun
  | removeAddress zone address =>
      obtain rfl := removeTaxExemptionAddress_eq_ok hrun
      exact h.eraseAddress address

/-- And so does every sequence of operations. -/
lemma linked_storeAfter (parse : String → Option AccAddress) (ops : List Operation) :
    Linked parse (storeAfter parse ops) :=
  foldl_keepOnError (Linked parse) Linked.empty fun _ _ _ _ hs hrun => Operation.linked hs hrun

/-- **Referential integrity.** After any sequence of operations every listed address is assigned
to a zone that exists and is stored under its own name; and the removal of a zone, which succeeds
exactly where there is one, removes that zone and the addresses assigned to it, and nothing
else. -/
theorem storeAfter_integrity (parse : String → Option AccAddress) (ops : List Operation) :
    (∀ a n : String, (storeAfter parse ops).addresses[a]? = some n →
      ∃ z, (storeAfter parse ops).zones[n]? = some z ∧ z.name = n)
    ∧ ∀ zoneName : String,
      ((∃ s', (storeAfter parse ops).removeTaxExemptionZone parse zoneName = .ok s')
        ↔ (storeAfter parse ops).zones[zoneName]? ≠ none)
      ∧ ∀ s', (storeAfter parse ops).removeTaxExemptionZone parse zoneName = .ok s' →
        (∀ n : String, s'.zones[n]? = if n = zoneName then none else (storeAfter parse ops).zones[n]?)
        ∧ ∀ a : String, s'.addresses[a]?
          = if (storeAfter parse ops).addresses[a]? = some zoneName then none
            else (storeAfter parse ops).addresses[a]? := by
  have h := linked_storeAfter parse ops
  refine ⟨fun a n ha => h.exists_zone ha, fun zoneName => ⟨⟨?_, fun hzone => ?_⟩, fun s' hrun => ?_⟩⟩
  · rintro ⟨s', hrun⟩
    obtain ⟨-, hrun⟩ := failIf_bind_eq_ok.mp hrun
    exact (failIf_bind_eq_ok.mp hrun).1
  · obtain ⟨z, hz⟩ := Option.ne_none_iff_exists'.mp hzone
    exact ⟨_, failIf_bind_eq_ok.mpr ⟨h.name_ne _ z hz, failIf_bind_eq_ok.mpr ⟨hzone, rfl⟩⟩⟩
  · exact removeTaxExemptionZone_eq_ok h hrun

end ColumbusCore.Tax
