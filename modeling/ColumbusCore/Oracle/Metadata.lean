import ColumbusCore.Oracle.StaticChain

/-!
The metadata that the whitelist registers with the bank (`keeper/ballot.go`).

`ApplyWhitelist` builds the metadata of a denom the bank does not know by slicing the bytes of its
name: the first byte is dropped, and `u` put in front again for the base unit.

* `MetadataLawful`: metadata is stored under its base;
* `getDenomMetaData_of_applyItems`: what an update leaves in the bank, and
  `exists_applyItems_iff`: when it goes through;
* `MetadataWellFormed`: what the bank asks of metadata;
* `applyWhitelist_wellFormed_iff`: **the whitelist goes through and registers well-formed metadata**
  exactly when the unknown names begin with `u` and have a second byte. The validation of the
  parameters asks for a name that is not empty.
-/

namespace ColumbusCore.Oracle

open Go

variable {σ : Type}

/-! ### The metadata of one denom -/

lemma goString_injective : Function.Injective goString := fun _ _ h =>
  String.toByteArray_inj.mp (ByteArray.ext (Array.toList_inj.mp h))

/-- A name needs two bytes. -/
lemma denomMetadata_eq_ok_iff {toUpper : GoString → GoString} {name : Denom} {m : Metadata} :
    denomMetadata toUpper name = .ok m ↔ ∃ b c rest, goString name = b :: c :: rest
      ∧ m = metadataOf toUpper (goString name) (c :: rest) := by
  rw [denomMetadata]
  cases hname : goString name with
  | nil => simp
  | cons b display =>
      cases display with
      | nil => simp
      | cons c rest => simp [eq_comm]

/-- What the bank asks of the metadata of a denom. -/
structure MetadataWellFormed (name : Denom) (m : Metadata) : Prop where
  base_eq : m.base = goString name
  first_unit : ∃ unit rest, m.denomUnits = unit :: rest ∧ unit.denom = m.base ∧ unit.exponent = 0
  increasing : m.denomUnits.Pairwise fun unit unit' => unit.exponent < unit'.exponent
  display_mem : ∃ unit ∈ m.denomUnits, unit.denom = m.display

/-- The metadata of a name is well formed exactly when the byte that was dropped is `u`. -/
lemma wellFormed_metadataOf_iff {toUpper : GoString → GoString} {name : Denom} {b : UInt8}
    {display : GoString} (hname : goString name = b :: display) :
    MetadataWellFormed name (metadataOf toUpper (goString name) display) ↔ goString "u" = [b] := by
  constructor
  · intro h
    obtain ⟨unit, rest, hunits, hdenom, -⟩ := h.first_unit
    obtain ⟨rfl, -⟩ := List.cons.inj hunits
    have happend : goString "u" ++ display = [b] ++ display := hdenom.trans hname
    exact List.append_cancel_right happend
  · intro hb
    refine ⟨rfl, ⟨_, _, rfl, ?_, rfl⟩, ?_, ⟨display, 6, []⟩, by simp [metadataOf], rfl⟩
    · show goString "u" ++ display = goString name
      rw [hb, hname]
      rfl
    · show List.Pairwise _ [_, _, _]
      simp

/-! ### The bank -/

/-- Metadata is stored under its base, and read by the name of a denom. -/
def MetadataLawful (K : Keepers σ) : Prop :=
  ∀ s m d, K.getDenomMetaData (K.setDenomMetaData s m) d
    = if m.base = goString d then some m else K.getDenomMetaData s d

section Update

variable {K : Keepers σ}

/-- An item the bank knows. -/
lemma applyItem_of_known {p : TargetMap × σ} {item : DenomItem} {m : Metadata}
    (h : K.getDenomMetaData p.2 item.name = some m) :
    applyItem K p item = .ok (p.1.insert item.name item.tobinTax, p.2) := by
  rw [applyItem, h]
  rfl

/-- An item the bank does not know. -/
lemma applyItem_of_unknown {p : TargetMap × σ} {item : DenomItem}
    (h : K.getDenomMetaData p.2 item.name = none) :
    applyItem K p item = (denomMetadata K.toUpper item.name).map fun m =>
      (p.1.insert item.name item.tobinTax, K.setDenomMetaData p.2 m) := by
  rw [applyItem, h]
  cases denomMetadata K.toUpper item.name with
  | ok m => rfl
  | error e => rfl

/-- Reading after the metadata of a denom was registered. -/
lemma getDenomMetaData_of_set (hK : MetadataLawful K) {s : σ} {name : Denom} {m : Metadata}
    (hm : denomMetadata K.toUpper name = .ok m) (d : Denom) :
    K.getDenomMetaData (K.setDenomMetaData s m) d
      = if name = d then some m else K.getDenomMetaData s d := by
  obtain ⟨b, c, rest, -, rfl⟩ := denomMetadata_eq_ok_iff.mp hm
  rw [hK]
  exact if_congr goString_injective.eq_iff rfl rfl

/-- **What an update leaves in the bank**: what was there, and the metadata of the names of the
whitelist that had none. -/
lemma getDenomMetaData_of_applyItems (hK : MetadataLawful K) {whitelist : List DenomItem}
    {p p' : TargetMap × σ} (h : whitelist.foldlM (applyItem K) p = .ok p') {d : Denom}
    {m : Metadata} :
    K.getDenomMetaData p'.2 d = some m ↔ K.getDenomMetaData p.2 d = some m
      ∨ (K.getDenomMetaData p.2 d = none ∧ (∃ item ∈ whitelist, item.name = d)
        ∧ denomMetadata K.toUpper d = .ok m) := by
  induction whitelist generalizing p with
  | nil =>
      obtain rfl := Except.ok.inj h
      simp
  | cons item whitelist ih =>
      rw [List.foldlM_cons] at h
      obtain ⟨q, hq, hrest⟩ := bind_eq_ok.mp h
      rw [ih hrest, List.exists_mem_cons_iff]
      cases hget : K.getDenomMetaData p.2 item.name with
      | some m₀ =>
          rw [applyItem_of_known hget] at hq
          obtain rfl := Except.ok.inj hq
          by_cases hd : item.name = d
          · subst hd
            simp [hget]
          · simp [hd]
      | none =>
          rw [applyItem_of_unknown hget] at hq
          obtain ⟨m₀, hm₀, rfl⟩ := map_eq_ok_iff.mp hq
          simp only [getDenomMetaData_of_set hK hm₀]
          by_cases hd : item.name = d
          · subst hd
            simp [hget, hm₀]
          · simp [hd]

/-- **An update goes through** exactly when the metadata of every unknown name can be built. -/
lemma exists_applyItems_iff (hK : MetadataLawful K) {whitelist : List DenomItem}
    {p : TargetMap × σ} :
    (∃ p', whitelist.foldlM (applyItem K) p = .ok p')
      ↔ ∀ item ∈ whitelist, K.getDenomMetaData p.2 item.name = none →
        ∃ m, denomMetadata K.toUpper item.name = .ok m := by
  induction whitelist generalizing p with
  | nil => exact ⟨fun _ item hitem => absurd hitem (by simp), fun _ => ⟨p, rfl⟩⟩
  | cons item whitelist ih =>
      simp only [List.foldlM_cons, List.forall_mem_cons]
      cases hget : K.getDenomMetaData p.2 item.name with
      | some m₀ =>
          rw [applyItem_of_known hget]
          simp only [ok_bind, ih]
          simp
      | none =>
          rw [applyItem_of_unknown hget]
          cases hm : denomMetadata K.toUpper item.name with
          | error e =>
              constructor
              · rintro ⟨p', hp'⟩
                obtain ⟨q, hq, -⟩ := bind_eq_ok.mp hp'
                obtain ⟨m, hno, -⟩ := map_eq_ok_iff.mp hq
                exact absurd hno (by simp)
              · rintro ⟨hitem, -⟩
                exact absurd (hitem rfl) (by simp)
          | ok m₀ =>
              have hnext : ∀ d, (K.getDenomMetaData (K.setDenomMetaData p.2 m₀) d = none →
                  ∃ m, denomMetadata K.toUpper d = .ok m)
                  ↔ (K.getDenomMetaData p.2 d = none → ∃ m, denomMetadata K.toUpper d = .ok m) := by
                intro d
                rw [getDenomMetaData_of_set hK hm]
                by_cases hd : item.name = d
                · subst hd
                  simp [hm]
                · simp [hd]
              show (∃ p', List.foldlM (applyItem K) _ whitelist = .ok p') ↔ _
              rw [ih]
              simp [hnext]

end Update

/-! ### The whitelist -/

/-- Applying the whitelist does not panic, and the metadata that is new in the bank is well
formed. -/
def AppliesWellFormed (K : Keepers σ) (s : σ) (whitelist : List DenomItem)
    (voteTargets tobinTaxes : TargetMap) : Prop :=
  ∃ taxes s', applyWhitelist K s whitelist voteTargets tobinTaxes = .ok (taxes, s')
    ∧ ∀ d m, K.getDenomMetaData s d = none → K.getDenomMetaData s' d = some m →
      MetadataWellFormed d m

/-- **The metadata of the whitelist.** Applying a whitelist never panics and registers well-formed
metadata only, exactly when no update is due or every name the bank has no metadata for begins with
`u` and has a second byte. -/
theorem applyWhitelist_wellFormed_iff {K : Keepers σ} (hK : MetadataLawful K) {s : σ}
    {whitelist : List DenomItem} {voteTargets tobinTaxes : TargetMap} :
    AppliesWellFormed K s whitelist voteTargets tobinTaxes
      ↔ (updateRequired whitelist voteTargets = true → ∀ item ∈ whitelist,
        K.getDenomMetaData s item.name = none →
        ∃ c rest, goString item.name = goString "u" ++ c :: rest) := by
  rw [AppliesWellFormed, applyWhitelist]
  cases updateRequired whitelist voteTargets with
  | false =>
      refine ⟨fun _ => by simp, fun _ => ⟨tobinTaxes, s, rfl, fun d m hnone hsome => ?_⟩⟩
      exact absurd (hnone.symm.trans hsome) (by simp)
  | true =>
      simp only [if_true, true_imp_iff]
      constructor
      · rintro ⟨taxes, s', hrun, hwell⟩ item hitem hnone
        obtain ⟨m, hm⟩ := (exists_applyItems_iff hK).mp ⟨_, hrun⟩ item hitem hnone
        have hnew : K.getDenomMetaData s' item.name = some m :=
          (getDenomMetaData_of_applyItems hK hrun).mpr (Or.inr ⟨hnone, ⟨item, hitem, rfl⟩, hm⟩)
        have hform := hwell _ m hnone hnew
        obtain ⟨b, c, rest, hname, rfl⟩ := denomMetadata_eq_ok_iff.mp hm
        rw [(wellFormed_metadataOf_iff hname).mp hform, hname]
        exact ⟨c, rest, rfl⟩
      · intro hnames
        have hu : goString "u" = [117] := rfl
        obtain ⟨⟨taxes, s'⟩, hrun⟩ := (exists_applyItems_iff (p := (∅, s)) hK).mpr
          fun item hitem hnone => by
            obtain ⟨c, rest, hname⟩ := hnames item hitem hnone
            exact ⟨_, denomMetadata_eq_ok_iff.mpr ⟨117, c, rest, by rw [hname, hu]; rfl, rfl⟩⟩
        refine ⟨taxes, s', hrun, fun d m hnone hsome => ?_⟩
        rcases (getDenomMetaData_of_applyItems hK hrun).mp hsome with
          hold | ⟨-, ⟨item, hitem, rfl⟩, hm⟩
        · exact absurd (hnone.symm.trans hold) (by simp)
        · obtain ⟨c, rest, hname⟩ := hnames item hitem hnone
          obtain ⟨b, c', rest', hname', rfl⟩ := denomMetadata_eq_ok_iff.mp hm
          refine (wellFormed_metadataOf_iff hname').mpr ?_
          rw [hname', hu] at hname
          rw [hu, (List.cons.inj hname).1]

/-! ### Names the validation admits -/

/-- A bank that holds nothing but metadata. -/
def registryKeepers : Keepers (List Metadata) where
  validator _ _ := none
  totalBondedTokens _ := 0
  slash s _ _ _ _ := .ok s
  jail s _ := .ok s
  validatorsByPower _ := []
  maxValidators _ := 130
  powerReduction _ := 10 ^ 6
  allocateTokensToValidator s _ _ := .ok s
  getBalance _ _ _ := 0
  sendCoinsFromModuleToModule s _ _ _ := .ok s
  getDenomMetaData s d := s.find? fun m => m.base = goString d
  setDenomMetaData s m := m :: s
  toUpper := asciiUpper

lemma metadataLawful_registry : MetadataLawful registryKeepers := by
  intro s m d
  by_cases hd : m.base = goString d
  · simp [registryKeepers, hd]
  · simp [registryKeepers, hd]

/-- The default parameters with one denom in the whitelist. -/
def oneDenom (name : Denom) : Params := { defaultParams with whitelist := [⟨name, 0⟩] }

/-- A name of one letter passes the validation, and its metadata cannot be built: the end blocker
panics. A name that does not begin with `u` is registered with a first unit that is not its base. -/
theorem applyWhitelist_malformed :
    (oneDenom "x").validate = .ok ()
      ∧ applyWhitelist registryKeepers [] (oneDenom "x").whitelist ∅ ∅
        = .error (.panic .outOfRange)
      ∧ (oneDenom "gold").validate = .ok ()
      ∧ ∃ taxes m, applyWhitelist registryKeepers [] (oneDenom "gold").whitelist ∅ ∅
          = .ok (taxes, [m]) ∧ m.base = goString "gold"
        ∧ m.denomUnits.map DenomUnit.denom
          = [goString "uold", goString "mold", goString "old"] :=
  ⟨rfl, rfl, rfl, _, _, rfl, rfl, by decide⟩

/-- The default whitelist is registered in a bank without metadata. -/
theorem applyWhitelist_default :
    AppliesWellFormed registryKeepers [] defaultParams.whitelist ∅ ∅ := by
  refine (applyWhitelist_wellFormed_iff metadataLawful_registry).mpr fun _ item hitem _ => ?_
  have hall : ∀ item ∈ defaultParams.whitelist,
      goString item.name = goString "u" ++ (goString item.name).drop 1
        ∧ (goString item.name).drop 1 ≠ [] := by decide
  obtain ⟨hname, hne⟩ := hall item hitem
  obtain ⟨c, rest, hcons⟩ := List.exists_cons_of_ne_nil hne
  exact ⟨c, rest, by rw [← hcons]; exact hname⟩

end ColumbusCore.Oracle
