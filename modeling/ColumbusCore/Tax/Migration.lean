import ColumbusCore.Tax.Zones

/-!
The old burn tax exemption list (`x/treasury/keeper/keeper.go`) and its migration into the tax
exemption module (`app/upgrades/v12/upgrades.go`).

The old list was a set of addresses, and a transfer was exempt where all its addresses were in it.
The migration puts them into one zone that is closed to the outside.

* `BurnTaxExemptionList`: the list, whose addresses are valid;
* `createV12UpgradeHandler`: the migration;
* `createV12UpgradeHandler_eq`: **the upgrade succeeds**, and the zone of every address after it;
* `createV12UpgradeHandler_exempts`: **the new check answers as the old one did**.
-/

namespace ColumbusCore.Tax

open Go
open Std (ExtTreeMap)

/-! ### The old list -/

/-- The addresses under `BurnTaxExemptionListPrefix`. -/
structure BurnTaxExemptionList (parse : String → Option AccAddress) where
  addresses : ExtTreeMap String UInt8
  valid : ∀ a ∈ addresses, parse a ≠ none

namespace BurnTaxExemptionList

variable {parse : String → Option AccAddress}

/-- The list of a new chain. -/
def empty : BurnTaxExemptionList parse := ⟨∅, fun _ h => absurd h ExtTreeMap.not_mem_empty⟩

lemma valid_insert (l : BurnTaxExemptionList parse) {address : String} (h : parse address ≠ none)
    (value : UInt8) : ∀ a ∈ l.addresses.insert address value, parse a ≠ none := by
  intro a ha
  rcases ExtTreeMap.mem_insert.mp ha with heq | ha
  · rwa [← compare_eq_iff_eq.mp heq]
  · exact l.valid a ha

lemma valid_erase (l : BurnTaxExemptionList parse) (address : String) :
    ∀ a ∈ l.addresses.erase address, parse a ≠ none :=
  fun a ha => l.valid a (ExtTreeMap.mem_of_mem_erase ha)

/-- `AddBurnTaxExemptionAddress`. -/
def addBurnTaxExemptionAddress (l : BurnTaxExemptionList parse) (address : String) :
    Outcome (BurnTaxExemptionList parse) :=
  if h : parse address = none then panicked (.raised "decoding bech32 failed")
  else .ok ⟨l.addresses.insert address 1, l.valid_insert h 1⟩

/-- `RemoveBurnTaxExemptionAddress`. -/
def removeBurnTaxExemptionAddress (l : BurnTaxExemptionList parse) (address : String) :
    Outcome (BurnTaxExemptionList parse) := do
  if parse address = none then panicked (.raised "decoding bech32 failed")
  failIf (address ∉ l.addresses)
    ("address = " ++ address ++ ": no such address in extemption list")
  pure ⟨l.addresses.erase address, l.valid_erase address⟩

/-- `HasBurnTaxExemptionAddress`, the check that `IsExemptedFromTax` replaces. -/
def hasBurnTaxExemptionAddress (l : BurnTaxExemptionList parse) (addresses : List String) : Bool :=
  addresses.all fun address => address ∈ l.addresses

end BurnTaxExemptionList

/-! ### The migration -/

/-- `DefaultGenesisState` of the tax exemption module. -/
def defaultGenesisState : GenesisState := ⟨[], []⟩

/-- `CreateV12UpgradeHandler`. The addresses are read before the migrations of the modules, of which
that of the tax exemption module imports its default genesis. -/
def createV12UpgradeHandler {parse : String → Option AccAddress} (old : BurnTaxExemptionList parse)
    (s : ExemptionStore) : Outcome ExemptionStore :=
  let addresses := old.addresses.keys
  (s.initGenesis parse defaultGenesisState).upgradeV12 parse addresses

section Migration

variable {parse : String → Option AccAddress} {s : ExemptionStore}

/-- A valid address that is in no other zone is added. -/
lemma addTaxExemptionAddress_eq {zone address : String} (hparse : parse address ≠ none)
    (hzone : s.zones[zone]? ≠ none) (hfree : ∀ n, s.addresses[address]? = some n → n = zone) :
    ∃ s', s.addTaxExemptionAddress parse zone address = .ok s' ∧ s'.zones = s.zones
      ∧ ∀ a : String, s'.addresses[a]? = if a = address then some zone else s.addresses[a]? := by
  cases hold : s.addresses[address]? with
  | none =>
      refine ⟨{ s with addresses := s.addresses.insert address zone },
        failIf_bind_eq_ok.mpr ⟨hparse, failIf_bind_eq_ok.mpr ⟨hzone, ?_⟩⟩, rfl, fun a => ?_⟩
      · rw [hold]
        rfl
      · rw [getElem?_insert_ite]
        simp only [eq_comm]
  | some n =>
      obtain rfl := hfree n hold
      refine ⟨s, failIf_bind_eq_ok.mpr ⟨hparse, failIf_bind_eq_ok.mpr ⟨hzone, ?_⟩⟩, rfl,
        fun a => ?_⟩
      · rw [hold]
        exact failIf_bind_eq_ok.mpr ⟨not_not.mpr rfl, rfl⟩
      · split_ifs with ha
        · rw [ha, hold]
        · rfl

/-- The loop of the migration. -/
lemma exists_addAddresses {zone : String} {l : List String} (hparse : ∀ a ∈ l, parse a ≠ none)
    (hzone : s.zones[zone]? ≠ none)
    (hfree : ∀ a n : String, s.addresses[a]? = some n → n = zone) :
    ∃ s', l.foldlM (fun s address => s.addTaxExemptionAddress parse zone address) s = .ok s'
      ∧ s'.zones = s.zones
      ∧ ∀ a : String, s'.addresses[a]? = if a ∈ l then some zone else s.addresses[a]? := by
  induction l generalizing s with
  | nil => exact ⟨s, rfl, rfl, fun a => by simp⟩
  | cons address l ih =>
      obtain ⟨s₁, hadd, hzones, haddresses⟩ := addTaxExemptionAddress_eq
        (hparse address List.mem_cons_self) hzone (hfree address)
      have hfree₁ : ∀ a n : String, s₁.addresses[a]? = some n → n = zone := by
        intro a n hn
        rw [haddresses] at hn
        split_ifs at hn
        · exact (Option.some.inj hn).symm
        · exact hfree a n hn
      obtain ⟨s', hrun, hzones', haddresses'⟩ := ih
        (fun a ha => hparse a (List.mem_cons_of_mem _ ha)) (by rwa [hzones]) hfree₁
      refine ⟨s', ?_, hzones'.trans hzones, fun a => ?_⟩
      · rw [List.foldlM_cons, hadd, ok_bind, hrun]
      · rw [haddresses', haddresses]
        by_cases hmem : a ∈ l
        · rw [if_pos hmem, if_pos (List.mem_cons_of_mem _ hmem)]
        · rw [if_neg hmem]
          simp only [List.mem_cons, hmem, or_false]

open ExemptionStore in
/-- **The upgrade** of a module without zones and addresses succeeds, and every address of the old
list, and no other one, is in the new zone. -/
theorem createV12UpgradeHandler_eq (old : BurnTaxExemptionList parse) :
    ∃ s', createV12UpgradeHandler old ⟨∅, ∅⟩ = .ok s'
      ∧ ∀ a, s'.zoneOf a = if a ∈ old.addresses then some intoZone else none := by
  have hzone : (ExtTreeMap.insert (∅ : ExtTreeMap String Zone) intoZone.name intoZone)[
      intoZone.name]? = some intoZone := by
    rw [getElem?_insert_ite, if_pos rfl]
  have hlisted : (ExtTreeMap.insert (∅ : ExtTreeMap String Zone) intoZone.name intoZone)[
      intoZone.name]? ≠ none := by
    rw [hzone]
    exact Option.some_ne_none _
  obtain ⟨s', hrun, hzones, haddresses⟩ := @exists_addAddresses parse
    ⟨ExtTreeMap.insert ∅ intoZone.name intoZone, ∅⟩ intoZone.name old.addresses.keys
    (fun a ha => old.valid a (ExtTreeMap.mem_keys.mp ha)) hlisted (fun a n h => by simp at h)
  refine ⟨s', ?_, fun a => ?_⟩
  · rw [createV12UpgradeHandler, upgradeV12]
    exact hrun
  · rw [zoneOf_eq, assignedZone, haddresses]
    by_cases ha : a ∈ old.addresses
    · rw [if_pos (ExtTreeMap.mem_keys.mpr ha), if_pos ha]
      dsimp only
      rw [if_neg (by decide), hzones, hzone]
    · rw [if_neg fun h => ha (ExtTreeMap.mem_keys.mp h), if_neg ha]
      simp

/-- **The migration preserves the exemptions.** For every old list, the upgrade of an empty module
succeeds, and after it a transfer to at least one recipient is exempt exactly when its sender and all
its recipients are in the old list, which is what the old check answered. -/
theorem createV12UpgradeHandler_exempts (old : BurnTaxExemptionList parse) :
    ∃ s', createV12UpgradeHandler old ⟨∅, ∅⟩ = .ok s'
      ∧ ∀ sender recipients, recipients ≠ [] →
        (s'.isExemptedFromTax sender recipients = true
          ↔ sender ∈ old.addresses ∧ ∀ a ∈ recipients, a ∈ old.addresses)
        ∧ s'.isExemptedFromTax sender recipients
          = old.hasBurnTaxExemptionAddress (sender :: recipients) := by
  obtain ⟨s', hrun, hzone⟩ := createV12UpgradeHandler_eq old
  refine ⟨s', hrun, fun sender recipients hne => ?_⟩
  -- the zone is closed: both sides have to be in it
  have hrefuses : ∀ a, ExemptionStore.refuses (s'.zoneOf sender) (s'.zoneOf a) = false
      ↔ sender ∈ old.addresses ∧ a ∈ old.addresses := by
    intro a
    rw [hzone, hzone]
    by_cases hsender : sender ∈ old.addresses <;> by_cases ha : a ∈ old.addresses <;>
      simp [hsender, ha, ExemptionStore.refuses, ExemptionStore.intoZone]
  have hiff : s'.isExemptedFromTax sender recipients = true
      ↔ sender ∈ old.addresses ∧ ∀ a ∈ recipients, a ∈ old.addresses := by
    rw [ExemptionStore.isExemptedFromTax_iff]
    simp only [hrefuses]
    obtain ⟨first, hfirst⟩ := List.exists_mem_of_ne_nil recipients hne
    constructor
    · intro h
      exact ⟨(h first hfirst).1, fun a ha => (h a ha).2⟩
    · rintro ⟨hsender, hall⟩ a ha
      exact ⟨hsender, hall a ha⟩
  refine ⟨hiff, Bool.eq_iff_iff.mpr ?_⟩
  rw [hiff, BurnTaxExemptionList.hasBurnTaxExemptionAddress]
  simp

end Migration

/-- Every text but the empty one is an address. -/
def textAddress (s : String) : Option AccAddress := if s = "" then none else some s

/-- Two addresses of the old list are exempt with each other, and not with a third one. -/
theorem twoAddresses_exempt :
    ∃ old : BurnTaxExemptionList textAddress, ∃ s',
      (BurnTaxExemptionList.empty.addBurnTaxExemptionAddress "terra1hot" >>= fun l =>
        l.addBurnTaxExemptionAddress "terra1cold") = .ok old
      ∧ createV12UpgradeHandler old ⟨∅, ∅⟩ = .ok s'
      ∧ s'.isExemptedFromTax "terra1hot" ["terra1cold", "terra1hot"] = true
      ∧ s'.isExemptedFromTax "terra1hot" ["terra1cold", "terra1other"] = false := by
  obtain ⟨old, hold, hlist⟩ := exists_of_returns
    (p := fun l : BurnTaxExemptionList textAddress =>
      l.hasBurnTaxExemptionAddress ["terra1hot", "terra1cold", "terra1hot"]
        && !l.hasBurnTaxExemptionAddress ["terra1hot", "terra1cold", "terra1other"])
    (x := BurnTaxExemptionList.empty.addBurnTaxExemptionAddress "terra1hot" >>= fun l =>
      l.addBurnTaxExemptionAddress "terra1cold") (by decide +kernel)
  obtain ⟨hin, hout⟩ := (Bool.and_eq_true _ _).mp hlist
  obtain ⟨s', hrun, hexempts⟩ := createV12UpgradeHandler_exempts old
  refine ⟨old, s', hold, hrun, ?_, ?_⟩
  · rw [(hexempts "terra1hot" ["terra1cold", "terra1hot"] (by simp)).2]
    exact hin
  · rw [(hexempts "terra1hot" ["terra1cold", "terra1other"] (by simp)).2]
    exact Bool.eq_false_of_not_eq_true' hout

end ColumbusCore.Tax
