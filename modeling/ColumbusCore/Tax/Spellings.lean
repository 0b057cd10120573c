import ColumbusCore.Tax.Zones

/-!
The spellings of an address in the tax exemption module.

The store lists texts, and a bech32 text is accepted in lower and in upper case. An account is
therefore listed spelling by spelling.

* `ByAccount`: exemption as a property of accounts;
* `byAccount_iff`: **exemption is a property of accounts exactly where every spelling of a listed
  account is listed, in the same zone**.
-/

namespace ColumbusCore.Tax

open Go ExemptionStore

/-- An account belongs to a zone: one of its spellings is listed there. -/
def BelongsTo (parse : String → Option AccAddress) (s : ExemptionStore) (account : AccAddress)
    (zone : String) : Prop :=
  ∃ a, parse a = some account ∧ s.addresses[a]? = some zone

/-- Exemption is a property of accounts: an account belongs to one zone at most, and the answer is
the same for all spellings of the sender and of the recipients. -/
structure ByAccount (parse : String → Option AccAddress) (s : ExemptionStore) : Prop where
  unique : ∀ account zone zone', BelongsTo parse s account zone →
    BelongsTo parse s account zone' → zone = zone'
  answer : ∀ sender sender' recipients recipients', SameAddress parse sender sender' →
    List.Forall₂ (SameAddress parse) recipients recipients' →
    s.isExemptedFromTax sender recipients = s.isExemptedFromTax sender' recipients'

variable {parse : String → Option AccAddress} {s : ExemptionStore}

/-- An address that is listed belongs to the zone it is assigned to. -/
lemma assignedZone_of_linked (h : Linked parse s) {a zone : String}
    (ha : s.addresses[a]? = some zone) : ∃ z, s.assignedZone a = some z := by
  obtain ⟨z, hz, -⟩ := h.exists_zone ha
  refine ⟨z, ?_⟩
  simp only [assignedZone, ha, if_neg (h.name_ne zone z hz), hz]

/-- A payment of an address to itself is exempt exactly when the address is listed. -/
lemma isExemptedFromTax_self_iff (h : Linked parse s) {a : String} :
    s.isExemptedFromTax a [a] = true ↔ s.addresses[a]? ≠ none := by
  rw [isExemptedFromTax_iff_rule, List.forall_mem_singleton]
  cases ha : s.addresses[a]? with
  | none => simp [assignedZone, ha, DocumentedRule]
  | some zone =>
      obtain ⟨z, hz⟩ := assignedZone_of_linked h ha
      simp [hz, DocumentedRule]

/-- The answer depends on the zones of the sender and of the recipients. -/
lemma isExemptedFromTax_congr {sender sender' : String} {recipients recipients' : List String}
    (hsender : s.assignedZone sender = s.assignedZone sender')
    (hrecipients : List.Forall₂ (fun a b => s.assignedZone a = s.assignedZone b)
      recipients recipients') :
    s.isExemptedFromTax sender recipients = s.isExemptedFromTax sender' recipients' := by
  rw [Bool.eq_iff_iff, isExemptedFromTax_iff_rule, isExemptedFromTax_iff_rule, hsender]
  induction hrecipients with
  | nil => simp
  | cons hab _ ih => rw [List.forall_mem_cons, List.forall_mem_cons, hab, ih]

/-- **Exemption by account.** After any sequence of operations exemption is a property of accounts
exactly when every text that is accepted for a listed account is listed too, in the same zone. -/
theorem byAccount_iff (parse : String → Option AccAddress) (ops : List Operation) :
    ByAccount parse (storeAfter parse ops) ↔
      ∀ a b zone : String, SameAddress parse a b →
        (storeAfter parse ops).addresses[a]? = some zone →
        (storeAfter parse ops).addresses[b]? = some zone := by
  have hlinked := linked_storeAfter parse ops
  generalize storeAfter parse ops = s at hlinked ⊢
  constructor
  · intro h a b zone hab ha
    -- a payment to oneself tells whether a spelling is listed
    have hself : s.isExemptedFromTax b [b] = true := by
      rw [← h.answer a b [a] [b] hab (.cons hab .nil), isExemptedFromTax_self_iff hlinked, ha]
      simp
    obtain ⟨zone', hb⟩ := Option.ne_none_iff_exists'.mp
      ((isExemptedFromTax_self_iff hlinked).mp hself)
    obtain ⟨account, hpa, hpb⟩ := hab
    rw [hb, h.unique account zone zone' ⟨a, hpa, ha⟩ ⟨b, hpb, hb⟩]
  · intro h
    have hzones : ∀ a b, SameAddress parse a b → s.assignedZone a = s.assignedZone b := by
      intro a b hab
      have heq : s.addresses[a]? = s.addresses[b]? :=
        Option.ext fun zone => ⟨h a b zone hab, h b a zone hab.symm⟩
      rw [assignedZone, assignedZone, heq]
    refine ⟨?_, fun sender sender' recipients recipients' hsender hrecipients =>
      isExemptedFromTax_congr (hzones _ _ hsender) (hrecipients.imp hzones)⟩
    rintro account zone zone' ⟨a, hpa, ha⟩ ⟨b, hpb, hb⟩
    exact Option.some.inj ((h a b zone ⟨account, hpa, hpb⟩ ha).symm.trans hb)

/-! ### One account in two zones -/

/-- The address of an exchange. -/
def exchangeText : String := "terra1v4uxx6rpdenk2tt0vckkxmmvw4kkyatndvp5lv"

/-- The address of a customer. -/
def customerText : String := "terra1vd6hxar0d4jhytt0vckkxmmvw4kkyatn44etdq"

/-- A parser of the two addresses, each in both spellings. -/
def twoSpellings : String → Option AccAddress :=
  tableParse [(exchangeText, "exchange-of-columbus"),
    (upperCase exchangeText, "exchange-of-columbus"),
    (customerText, "customer-of-columbus"), (upperCase customerText, "customer-of-columbus")]

lemma acceptsBothCases_twoSpellings : AcceptsBothCases twoSpellings :=
  acceptsBothCases_tableParse (by decide +kernel)

/-- The account is listed in lower case in one zone, and in upper case in another. -/
def listedTwice : List Operation :=
  [.addZone ⟨"Closed", false, false, false⟩, .addZone ⟨"Open", true, false, false⟩,
    .addAddress "Closed" exchangeText, .addAddress "Open" (upperCase exchangeText)]

/-- One account in two zones: a payment to a user is exempt in one spelling only. -/
theorem listedTwice_not_byAccount :
    AcceptsBothCases twoSpellings
      ∧ SameAddress twoSpellings exchangeText (upperCase exchangeText)
      ∧ BelongsTo twoSpellings (storeAfter twoSpellings listedTwice) "exchange-of-columbus" "Closed"
      ∧ BelongsTo twoSpellings (storeAfter twoSpellings listedTwice) "exchange-of-columbus" "Open"
      ∧ (storeAfter twoSpellings listedTwice).isExemptedFromTax exchangeText [customerText] = false
      ∧ (storeAfter twoSpellings listedTwice).isExemptedFromTax (upperCase exchangeText)
        [customerText] = true
      ∧ ¬ ByAccount twoSpellings (storeAfter twoSpellings listedTwice) := by
  have hclosed : BelongsTo twoSpellings (storeAfter twoSpellings listedTwice)
      "exchange-of-columbus" "Closed" := ⟨exchangeText, by decide +kernel, by decide +kernel⟩
  have hopen : BelongsTo twoSpellings (storeAfter twoSpellings listedTwice)
      "exchange-of-columbus" "Open" :=
    ⟨upperCase exchangeText, by decide +kernel, by decide +kernel⟩
  refine ⟨acceptsBothCases_twoSpellings, ⟨"exchange-of-columbus", by decide +kernel,
    by decide +kernel⟩, hclosed, hopen,
    by decide +kernel, by decide +kernel, fun h => ?_⟩
  exact absurd (h.unique _ _ _ hclosed hopen) (by decide)

end ColumbusCore.Tax
