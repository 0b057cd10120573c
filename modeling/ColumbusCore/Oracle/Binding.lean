import ColumbusCore.Oracle.StaticChain

/-!
What a prevote commits to (`types/hash.go`, `keeper/msg_server.go`).

The hash of a vote is that of its salt, its rates and the voter, joined by colons. The salt may
contain colons. The rates may not where no vote target does: outside of the denoms they are amounts,
white space and commas. So the last colon before the voter is the one in front of the rates.

* `DecCoinText`, `Host.ParsesCoinTexts`: what `sdk.ParseDecCoin` accepts;
* `colon_not_mem_exchangeRates`: the rates of an accepted vote have no colon;
* `aggregateVoteHash_injective`: the hash determines a salt and rates without a colon;
* `opening_unique`: **a prevote has at most one opening**.
-/

namespace ColumbusCore.Oracle

open Go
open Std (ExtTreeMap)

variable {σ : Type}

/-! ### Separators -/

/-- Every character of a list is in one of the pieces or is the separator. -/
lemma mem_or_mem_splitOn {α : Type} [DecidableEq α] {x c : α} {l : List α} (h : c ∈ l) :
    c = x ∨ ∃ piece ∈ l.splitOn x, c ∈ piece := by
  rw [List.splitOn]
  induction l with
  | nil => exact absurd h List.not_mem_nil
  | cons y l ih =>
      rw [List.splitOnP_cons_eq_if_modifyHead]
      split_ifs with hy
      · rcases List.mem_cons.mp h with rfl | h
        · exact .inl (eq_of_beq hy)
        · rcases ih h with hc | ⟨piece, hpiece, hc⟩
          · exact .inl hc
          · exact .inr ⟨piece, List.mem_cons_of_mem _ hpiece, hc⟩
      · cases hsplit : l.splitOnP (· == x) with
        | nil => exact absurd hsplit (List.splitOnP_ne_nil _ l)
        | cons first rest =>
            rw [hsplit] at ih
            rcases List.mem_cons.mp h with rfl | h
            · exact .inr ⟨c :: first, List.mem_cons_self, List.mem_cons_self⟩
            · rcases ih h with hc | ⟨piece, hpiece, hc⟩
              · exact .inl hc
              · rcases List.mem_cons.mp hpiece with rfl | hpiece
                · exact .inr ⟨y :: piece, List.mem_cons_self, List.mem_cons_of_mem _ hc⟩
                · exact .inr ⟨piece, List.mem_cons_of_mem _ hpiece, hc⟩

/-- A text is split at the last separator in one way. -/
lemma append_cons_inj_of_not_mem {α : Type} {x : α} {a b a' b' : List α}
    (hb : x ∉ b) (hb' : x ∉ b') (h : a ++ x :: b = a' ++ x :: b') : a = a' ∧ b = b' := by
  induction a generalizing a' with
  | nil =>
      cases a' with
      | nil => exact ⟨rfl, (List.cons.inj h).2⟩
      | cons y a' =>
          have htail : b = a' ++ x :: b' := (List.cons.inj h).2
          exact absurd (htail ▸ List.mem_append_right _ List.mem_cons_self) hb
  | cons y a ih =>
      cases a' with
      | nil =>
          have htail : a ++ x :: b = b' := (List.cons.inj h).2
          exact absurd (htail ▸ List.mem_append_right _ List.mem_cons_self) hb'
      | cons y' a' =>
          obtain ⟨hy, htail⟩ := List.cons.inj h
          obtain ⟨ha, hbb⟩ := ih htail
          exact ⟨congrArg₂ List.cons hy ha, hbb⟩

/-- What `TrimSpace` takes away on either side is white space. -/
lemma exists_append_trimSpace (s : List Char) : ∃ before after,
    s = before ++ trimSpace s ++ after ∧ ∀ c ∈ before ++ after, isSpace c = true := by
  have hall : ∀ l : List Char, ∀ c ∈ l.takeWhile isSpace, isSpace c = true := fun l =>
    List.all_eq_true.mp List.all_takeWhile
  refine ⟨s.takeWhile isSpace, ((s.dropWhile isSpace).reverse.takeWhile isSpace).reverse, ?_,
    fun c hc => ?_⟩
  · rw [trimSpace, List.append_assoc, ← List.reverse_append, List.takeWhile_append_dropWhile,
      List.reverse_reverse, List.takeWhile_append_dropWhile]
  · rcases List.mem_append.mp hc with hc | hc
    · exact hall _ c hc
    · exact hall _ c (List.mem_reverse.mp hc)

/-! ### The text of the rates -/

/-- A decimal coin as `sdk.ParseDecCoin` reads it: an amount of digits and points and a denom, with
white space between them and around them. -/
def DecCoinText (s : String) (d : Denom) : Prop :=
  ∃ before amount between after : List Char,
    s.toList = before ++ amount ++ between ++ d.toList ++ after
    ∧ (∀ c ∈ amount, c.isDigit = true ∨ c = '.')
    ∧ ∀ c ∈ before ++ between ++ after, isSpace c = true

/-- The coins that are read have these texts. -/
def Host.ParsesCoinTexts (H : Host) : Prop :=
  ∀ s d x, H.parseDecCoin s = some (d, x) → DecCoinText s d

/-- A colon in the text of a coin is one of its denom. -/
lemma DecCoinText.colon_mem {s : String} {d : Denom} (h : DecCoinText s d)
    (hs : ':' ∈ s.toList) : ':' ∈ d.toList := by
  obtain ⟨before, amount, between, after, htext, hamount, hspace⟩ := h
  have hnotSpace : ':' ∉ before ++ between ++ after := fun hc => absurd (hspace _ hc) (by decide)
  have hnotAmount : ':' ∉ amount := fun hc => absurd (hamount _ hc) (by decide)
  simp only [List.mem_append, not_or] at hnotSpace
  simpa [htext, hnotSpace, hnotAmount] using hs

/-- Rates for denoms without a colon have no colon in their text. -/
lemma colon_not_mem_of_parse {H : Host} (hH : H.ParsesCoinTexts) {str : String}
    {tuples : List ExchangeRateTuple} (h : parseExchangeRateTuples H str = .ok tuples)
    (hdenoms : ∀ t ∈ tuples, ':' ∉ t.denom.toList) : ':' ∉ str.toList := by
  intro hcolon
  have htrimmed : ':' ∈ trimSpace str.toList := by
    obtain ⟨before, after, htext, hspace⟩ := exists_append_trimSpace str.toList
    have houtside : ':' ∉ before ++ after := fun hc => absurd (hspace _ hc) (by decide)
    rw [List.mem_append, not_or] at houtside
    rw [htext] at hcolon
    simpa [houtside] using hcolon
  obtain ⟨piece, hpiece, hmem⟩ := (mem_or_mem_splitOn (x := ',') htrimmed).resolve_left (by decide)
  have hsegment : String.ofList piece ∈ segments str := List.mem_map_of_mem hpiece
  rcases parseExchangeRateTuples_eq_ok_iff.mp h with ⟨hempty, -⟩ | ⟨-, hread, -⟩
  · exact List.ne_nil_of_mem htrimmed hempty
  · have hcoin : H.parseDecCoin (String.ofList piece) ∈ tuples.map (fun t => some t.coin) := by
      rw [← hread]
      exact List.mem_map_of_mem hsegment
    obtain ⟨t, ht, hparse⟩ := List.mem_map.mp hcoin
    refine hdenoms t ht ((hH _ _ _ hparse.symm).colon_mem ?_)
    rwa [String.toList_ofList]

/-- The rates of an accepted vote are for vote targets. -/
lemma mem_tobinTaxes_of_vote {K : Keepers σ} {H : Host} {height : ℕ} {w w' : World σ}
    {msg : MsgAggregateExchangeRateVote} {tuples : List ExchangeRateTuple}
    (h : aggregateExchangeRateVote K H height w msg = .ok w')
    (hparse : parseExchangeRateTuples H msg.exchangeRates = .ok tuples) :
    ∀ t ∈ tuples, t.denom ∈ w.store.tobinTaxes := by
  obtain ⟨valAddr, -, h⟩ := bind_eq_ok.mp h
  obtain ⟨_, -, h⟩ := bind_eq_ok.mp h
  obtain ⟨_, -, h⟩ := bind_eq_ok.mp h
  cases hp : w.store.prevotes[valAddr]? with
  | none => simp [hp] at h
  | some prevote =>
      simp only [hp, hparse] at h
      obtain ⟨_, -, h⟩ := bind_eq_ok.mp h
      rw [ok_bind] at h
      obtain ⟨_, htargets, -⟩ := bind_eq_ok.mp h
      intro t ht
      exact not_not.mp (failIf_eq_ok.mp (forM_eq_ok htargets t ht))

/-! ### The commitment -/

/-- No vote target contains a colon. -/
def Store.ColonFree (s : Store) : Prop := ∀ d ∈ s.tobinTaxes, ':' ∉ d.toList

/-- The hash determines the salt and rates without a colon. -/
lemma aggregateVoteHash_injective {H : Host} (hhash : Function.Injective H.truncatedHash)
    {salt rates salt' rates' : String} {voter : ValAddress} (hrates : ':' ∉ rates.toList)
    (hrates' : ':' ∉ rates'.toList)
    (h : aggregateVoteHash H salt rates voter = aggregateVoteHash H salt' rates' voter) :
    salt = salt' ∧ rates = rates' := by
  have htext := congrArg String.toList (hhash h)
  simp only [String.toList_append] at htext
  have hopening : salt.toList ++ ':' :: rates.toList = salt'.toList ++ ':' :: rates'.toList := by
    have hcancel := List.append_cancel_right (List.append_cancel_right htext)
    simpa using hcancel
  obtain ⟨hsalt, hr⟩ := append_cons_inj_of_not_mem hrates hrates' hopening
  exact ⟨String.toList_inj.mp hsalt, String.toList_inj.mp hr⟩

/-- A vote that is accepted has rates without a colon, and opens the prevote of its voter. -/
lemma opens_of_deliverVote {K : Keepers σ} {H : Host} (hH : H.ParsesCoinTexts) {a : ValAddress}
    {prevote : AggregateExchangeRatePrevote} {height : ℕ} {w w' : World σ}
    {msg : MsgAggregateExchangeRateVote} (hfree : w.store.ColonFree)
    (hprevote : w.store.prevotes[a]? = some prevote)
    (hvoter : H.valAddressFromBech32 msg.validator = some a)
    (hrun : deliverVote K H height w msg = .ok w') :
    ':' ∉ msg.exchangeRates.toList
      ∧ prevote.hash = aggregateVoteHash H msg.salt msg.exchangeRates a := by
  obtain ⟨-, hrun⟩ := unit_bind_eq_ok.mp hrun
  obtain ⟨b, _, p, tuples, hb, -, -, hp, -, hparse, hhash, -⟩ := aggregateExchangeRateVote_spec hrun
  obtain rfl := Option.some.inj (hvoter.symm.trans hb)
  obtain rfl := Option.some.inj (hprevote.symm.trans hp)
  refine ⟨colon_not_mem_of_parse hH hparse fun t ht => ?_, hhash⟩
  exact hfree _ (mem_tobinTaxes_of_vote hrun hparse t ht)

/-- **Binding.** Where the hash has no collisions and no vote target contains a colon, two votes
that are accepted for the same prevote of a validator, at whatever heights and in whatever states,
have the same salt and the same text of rates. -/
theorem opening_unique {K : Keepers σ} {H : Host} (hhash : Function.Injective H.truncatedHash)
    (hH : H.ParsesCoinTexts) {a : ValAddress} {prevote : AggregateExchangeRatePrevote}
    {height₁ height₂ : ℕ} {w₁ w₁' w₂ w₂' : World σ} {msg₁ msg₂ : MsgAggregateExchangeRateVote}
    (hfree₁ : w₁.store.ColonFree) (hfree₂ : w₂.store.ColonFree)
    (hprevote₁ : w₁.store.prevotes[a]? = some prevote)
    (hprevote₂ : w₂.store.prevotes[a]? = some prevote)
    (hvoter₁ : H.valAddressFromBech32 msg₁.validator = some a)
    (hvoter₂ : H.valAddressFromBech32 msg₂.validator = some a)
    (hrun₁ : deliverVote K H height₁ w₁ msg₁ = .ok w₁')
    (hrun₂ : deliverVote K H height₂ w₂ msg₂ = .ok w₂') :
    msg₁.salt = msg₂.salt ∧ msg₁.exchangeRates = msg₂.exchangeRates := by
  obtain ⟨hrates₁, hhash₁⟩ := opens_of_deliverVote hH hfree₁ hprevote₁ hvoter₁ hrun₁
  obtain ⟨hrates₂, hhash₂⟩ := opens_of_deliverVote hH hfree₂ hprevote₂ hvoter₂ hrun₂
  exact aggregateVoteHash_injective hhash hrates₁ hrates₂ (hhash₁.symm.trans hhash₂)

/-! ### A salt with a colon -/

/-- A host whose hash is the text itself, and that reads one coin. -/
def plainHost : Host :=
  { tableHost ⟨twoAccounts, [], [("1.0uusd", "uusd", 10 ^ 18)]⟩ with truncatedHash := id }

lemma parsesCoinTexts_plainHost : plainHost.ParsesCoinTexts := by
  intro s d x h
  obtain ⟨e, he, hcoin⟩ := Option.map_eq_some_iff.mp h
  obtain rfl := List.mem_singleton.mp (List.mem_of_find?_eq_some he)
  have hs : "1.0uusd" = s := by simpa using List.find?_some he
  obtain ⟨rfl, -⟩ := Prod.mk.inj hcoin
  exact ⟨[], ['1', '.', '0'], [], [], by rw [← hs]; decide, by simp, by simp⟩

/-- The vote of the first validator for one dollar, with a salt that ends in a colon. -/
def colonVote (feeder : String) : MsgAggregateExchangeRateVote where
  salt := "1:"
  exchangeRates := "1.0uusd"
  feeder := feeder
  validator := "terravaloper1weskc6tyv96x7u3dvykk7e3dw3jhyunpwz6935"

/-- Its prevote, in a state where the second validator may feed for the first. -/
def colonWorld : World (List Validator) where
  store := { emptyStore blockParams with
    feederDelegations := (∅ : ExtTreeMap ValAddress AccAddress).insert "validator-a-of-terra"
      "validator-b-of-terra"
    prevotes := (∅ : ExtTreeMap ValAddress AggregateExchangeRatePrevote).insert
      "validator-a-of-terra"
      ⟨"1::1.0uusd:terravaloper1weskc6tyv96x7u3dvykk7e3dw3jhyunpwz6935",
        "terravaloper1weskc6tyv96x7u3dvykk7e3dw3jhyunpwz6935", 1⟩ }
  ext := twoValidators

/-- Both feeders can open it, with the same salt and rates. -/
theorem colonVote_opening_unique :
    (∃ w', deliverVote staticKeepers plainHost 2 colonWorld
        (colonVote "terra1weskc6tyv96x7u3dvykk7e3dw3jhyunpwdkcp8") = .ok w')
      ∧ (∃ w', deliverVote staticKeepers plainHost 2 colonWorld
        (colonVote "terra1weskc6tyv96x7u3dvgkk7e3dw3jhyunpdrjvd8") = .ok w')
      ∧ (colonVote "terra1weskc6tyv96x7u3dvykk7e3dw3jhyunpwdkcp8").salt
        = (colonVote "terra1weskc6tyv96x7u3dvgkk7e3dw3jhyunpdrjvd8").salt := by
  obtain ⟨w₁, hrun₁, -⟩ := exists_of_returns (p := fun _ => true)
    (x := deliverVote staticKeepers plainHost 2 colonWorld
      (colonVote "terra1weskc6tyv96x7u3dvykk7e3dw3jhyunpwdkcp8")) (by decide +kernel)
  obtain ⟨w₂, hrun₂, -⟩ := exists_of_returns (p := fun _ => true)
    (x := deliverVote staticKeepers plainHost 2 colonWorld
      (colonVote "terra1weskc6tyv96x7u3dvgkk7e3dw3jhyunpdrjvd8")) (by decide +kernel)
  have hfree : colonWorld.store.ColonFree := by
    have hkeys : ∀ d ∈ colonWorld.store.tobinTaxes.keys, ':' ∉ d.toList := by decide +kernel
    exact fun d hd => hkeys d (ExtTreeMap.mem_keys.mpr hd)
  have hprevote : colonWorld.store.prevotes["validator-a-of-terra"]? = some _ :=
    ExtTreeMap.getElem?_insert_self
  refine ⟨⟨w₁, hrun₁⟩, ⟨w₂, hrun₂⟩, ?_⟩
  exact (opening_unique (a := "validator-a-of-terra") Function.injective_id
    parsesCoinTexts_plainHost hfree hfree hprevote hprevote rfl rfl hrun₁ hrun₂).1

end ColumbusCore.Oracle
