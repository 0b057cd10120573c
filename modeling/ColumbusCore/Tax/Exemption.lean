import ColumbusCore.Tax.Types

/-!
Tax exemption (`x/taxexemption/keeper/keeper.go`).

`IsExemptedFromTax` walks through the recipients with a cache of the zones it has read.

* `zoneOf`, `checkAndCacheZone_eq`: the cache answers as the store does;
* `isExemptedFromTax_iff`: **a transfer is exempt exactly when no recipient refuses it**;
* `DocumentedRule`, `isExemptedFromTax_documented`: **the rule of the documentation**, recipient by
  recipient, in any order and with any cache.
-/

namespace ColumbusCore.Tax

open Go
open Std (ExtTreeMap)

namespace ExemptionStore

/-! ### The code -/

/-- `GetTaxExemptionZone`. -/
def getTaxExemptionZone (s : ExemptionStore) (zoneName : String) : Outcome Zone :=
  if zoneName = "" then failed "zone name cannot be empty"
  else
    match s.zones[zoneName]? with
    | none => failed ("zone = " ++ zoneName ++ ": no such zone in exemption list")
    | some zone => .ok zone

/-- `checkAndCacheZone`: the zone of an address, and the cache after it was looked up. -/
def checkAndCacheZone (s : ExemptionStore) (zoneCache : ExtTreeMap String Zone)
    (address : String) : Option Zone × ExtTreeMap String Zone :=
  match s.addresses[address]? with
  | none => (none, zoneCache)
  | some zoneName =>
      match zoneCache[zoneName]? with
      | some zone => (some zone, zoneCache)
      | none =>
          match s.getTaxExemptionZone zoneName with
          | .error _ => (none, zoneCache)
          | .ok zone => (some zone, zoneCache.insert zoneName zone)

/-- The tests on one recipient that end the walk without an exemption. -/
def refuses (senderZone recipientZone : Option Zone) : Bool :=
  match senderZone, recipientZone with
  | none, none => true
  | some s, some r =>
      s.name ≠ r.name && ((!s.outgoing || !s.crossZone) && (!r.incoming || !r.crossZone))
  | some s, none => !s.outgoing
  | none, some r => !r.incoming

/-- The walk through the recipients. -/
def exemptedLoop (s : ExemptionStore) (senderZone : Option Zone) :
    List String → ExtTreeMap String Zone → Bool
  | [], _ => true
  | address :: rest, zoneCache =>
      if refuses senderZone (s.checkAndCacheZone zoneCache address).1 then false
      else s.exemptedLoop senderZone rest (s.checkAndCacheZone zoneCache address).2

/-- `IsExemptedFromTax`. -/
def isExemptedFromTax (s : ExemptionStore) (senderAddress : String)
    (recipientAddresses : List String) : Bool :=
  s.exemptedLoop (s.checkAndCacheZone ∅ senderAddress).1 recipientAddresses
    (s.checkAndCacheZone ∅ senderAddress).2

/-! ### Without the cache -/

/-- The zone of an address. -/
def zoneOf (s : ExemptionStore) (address : String) : Option Zone :=
  s.addresses[address]?.bind fun zoneName => (s.getTaxExemptionZone zoneName).toOption

/-- A cache of zones read from the store. -/
def CacheOf (s : ExemptionStore) (zoneCache : ExtTreeMap String Zone) : Prop :=
  ∀ (n : String) (z : Zone), zoneCache[n]? = some z → s.getTaxExemptionZone n = .ok z

lemma cacheOf_empty (s : ExemptionStore) : s.CacheOf ∅ := fun n z h => by simp at h

/-- The cache answers as the store does, and stays a cache of it. -/
lemma checkAndCacheZone_eq {s : ExemptionStore} {zoneCache : ExtTreeMap String Zone}
    (hc : s.CacheOf zoneCache) (address : String) :
    (s.checkAndCacheZone zoneCache address).1 = s.zoneOf address
      ∧ s.CacheOf (s.checkAndCacheZone zoneCache address).2 := by
  rw [checkAndCacheZone, zoneOf]
  cases s.addresses[address]? with
  | none => exact ⟨rfl, hc⟩
  | some zoneName =>
      cases hz : zoneCache[zoneName]? with
      | some zone =>
          simp only [Option.bind_some, hz, hc _ _ hz]
          exact ⟨rfl, hc⟩
      | none =>
          simp only [Option.bind_some, hz]
          cases hget : s.getTaxExemptionZone zoneName with
          | error e => exact ⟨rfl, hc⟩
          | ok zone =>
              refine ⟨rfl, fun n z hn => ?_⟩
              rw [getElem?_insert_ite] at hn
              split_ifs at hn with heq
              · rw [← heq, hget, Option.some.inj hn]
              · exact hc n z hn

lemma exemptedLoop_iff {s : ExemptionStore} {senderZone : Option Zone} :
    ∀ {l : List String} {zoneCache : ExtTreeMap String Zone}, s.CacheOf zoneCache →
      (s.exemptedLoop senderZone l zoneCache = true
        ↔ ∀ a ∈ l, refuses senderZone (s.zoneOf a) = false) := by
  intro l
  induction l with
  | nil => simp [exemptedLoop]
  | cons a l ih =>
      intro zoneCache hc
      obtain ⟨hzone, hcache⟩ := checkAndCacheZone_eq hc a
      rw [exemptedLoop, hzone, List.forall_mem_cons]
      split_ifs with h
      · simp [h]
      · rw [ih hcache]
        simp [h]

/-- **Exemption.** A transfer is exempt exactly when no recipient refuses it. -/
theorem isExemptedFromTax_iff {s : ExemptionStore} {sender : String} {recipients : List String} :
    s.isExemptedFromTax sender recipients = true
      ↔ ∀ a ∈ recipients, refuses (s.zoneOf sender) (s.zoneOf a) = false := by
  obtain ⟨hzone, hcache⟩ := checkAndCacheZone_eq s.cacheOf_empty sender
  rw [isExemptedFromTax, exemptedLoop_iff hcache, hzone]

/-! ### The documented rule -/

/-- The zone an address belongs to: none where it is assigned to no zone, or to one that does not
exist. An empty name is the name of no zone. -/
def assignedZone (s : ExemptionStore) (address : String) : Option Zone :=
  match s.addresses[address]? with
  | none => none
  | some zoneName => if zoneName = "" then none else s.zones[zoneName]?

/-- The rule for a sender and one recipient, by their zones. A zone is identified by its name. -/
def DocumentedRule : Option Zone → Option Zone → Prop
  | none, none => False
  | some s, some r => s.name = r.name
      ∨ s.name ≠ r.name ∧ (s.outgoing ∧ s.crossZone ∨ r.incoming ∧ r.crossZone)
  | some s, none => s.outgoing
  | none, some r => r.incoming

lemma zoneOf_eq (s : ExemptionStore) (address : String) :
    s.zoneOf address = s.assignedZone address := by
  rw [zoneOf, assignedZone]
  cases s.addresses[address]? with
  | none => rfl
  | some zoneName =>
      simp only [Option.bind_some, getTaxExemptionZone]
      split_ifs with hname
      · rfl
      · cases s.zones[zoneName]? with
        | none => rfl
        | some zone => rfl

lemma refuses_eq_false_iff {senderZone recipientZone : Option Zone} :
    refuses senderZone recipientZone = false ↔ DocumentedRule senderZone recipientZone := by
  cases senderZone with
  | none =>
      cases recipientZone with
      | none => simp [refuses, DocumentedRule]
      | some r => simp [refuses, DocumentedRule]
  | some s =>
      cases recipientZone with
      | none => simp [refuses, DocumentedRule]
      | some r =>
          by_cases hname : s.name = r.name
          · simp [refuses, DocumentedRule, hname]
          · cases houtgoing : s.outgoing <;> cases hincoming : r.incoming <;>
              simp [refuses, DocumentedRule, hname, houtgoing, hincoming]
            cases s.crossZone <;> simp

lemma isExemptedFromTax_iff_rule {s : ExemptionStore} {sender : String}
    {recipients : List String} : s.isExemptedFromTax sender recipients = true
      ↔ ∀ a ∈ recipients, DocumentedRule (s.assignedZone sender) (s.assignedZone a) := by
  simp only [isExemptedFromTax_iff, refuses_eq_false_iff, zoneOf_eq]

/-- **The rule of the documentation.** A transfer is exempt exactly when every recipient satisfies
the rule with the sender. Neither the order of the recipients nor repetitions matter, nor the
zones that have been read before. -/
theorem isExemptedFromTax_documented (s : ExemptionStore) (sender : String)
    (recipients : List String) :
    (s.isExemptedFromTax sender recipients = true
      ↔ ∀ a ∈ recipients, DocumentedRule (s.assignedZone sender) (s.assignedZone a))
    ∧ (∀ recipients', (∀ a, a ∈ recipients' ↔ a ∈ recipients) →
      s.isExemptedFromTax sender recipients' = s.isExemptedFromTax sender recipients)
    ∧ ∀ zoneCache, s.CacheOf zoneCache →
      s.exemptedLoop (s.assignedZone sender) recipients zoneCache
        = s.isExemptedFromTax sender recipients := by
  refine ⟨isExemptedFromTax_iff_rule, fun recipients' hmem => ?_, fun zoneCache hcache => ?_⟩
  · rw [Bool.eq_iff_iff, isExemptedFromTax_iff_rule, isExemptedFromTax_iff_rule]
    simp only [hmem]
  · rw [Bool.eq_iff_iff, exemptedLoop_iff hcache, isExemptedFromTax_iff, zoneOf_eq]

end ExemptionStore

end ColumbusCore.Tax
