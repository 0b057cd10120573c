import ColumbusCore.Oracle.StaticChain

/-!
Commit and reveal, over runs.

A prevote commits to the hash of rates, a vote of the next vote period reveals them, and the last
block of that period counts the votes and clears them.

* `Event`, `VotingRun`: the accepted prevotes and votes of a run, in order, with the state each was
  executed in;
* `Opens`: the vote at one position reveals what the prevote at an earlier position committed to, in
  the period after it;
* `RunInvariant`: what the store knows of the events, kept by every step of a run
  (`VotingRun.invariant`);
* `commit_reveal`: **every stored vote was revealed in the period of the current height, by an
  authorised feeder, and opens a prevote of the period before**; a prevote is opened at most once;
  and every vote of the period is stored until the last block of the period has counted it.
-/

namespace ColumbusCore.Oracle

open Go
open Std (ExtTreeMap)

variable {σ : Type}

/-! ### Events -/

/-- An accepted message, with the height and the state in which it was executed. -/
inductive Event (σ : Type) where
  | prevote (height : ℕ) (before : World σ) (msg : MsgAggregateExchangeRatePrevote)
  | vote (height : ℕ) (before : World σ) (msg : MsgAggregateExchangeRateVote)

def Event.height : Event σ → ℕ
  | .prevote height _ _ => height
  | .vote height _ _ => height

/-- A prevote for the validator `a`, at the height `s`, commits to `hash`. -/
def Event.Commits (H : Host) (a : ValAddress) (s : ℕ) (hash : String) : Event σ → Prop
  | .prevote height _ msg => height = s ∧ H.valAddressFromBech32 msg.validator = some a
      ∧ decodeHash msg.hash = .ok hash
  | .vote _ _ _ => False

/-- A vote for the validator `a`, at the height `r`, by a feeder authorised there, reveals the rates
of `v`, whose hash is `hash`. -/
def Event.Reveals (K : Keepers σ) (H : Host) (a : ValAddress) (r : ℕ) (hash : String)
    (v : AggregateExchangeRateVote) : Event σ → Prop
  | .prevote _ _ _ => False
  | .vote height w msg => height = r ∧ H.valAddressFromBech32 msg.validator = some a
      ∧ (∃ feeder, accAddress H msg.feeder "Invalid feeder address" = .ok feeder
        ∧ validateFeeder K H w feeder a = .ok ())
      ∧ aggregateVoteHash H msg.salt msg.exchangeRates a = hash
      ∧ ∃ tuples, parseExchangeRateTuples H msg.exchangeRates = .ok tuples
        ∧ v = ⟨tuples, H.valString a⟩

/-- The vote at position `j` opens the prevote at position `i`: both are for the validator `a`, the
vote reveals the hash of the prevote, in the vote period after it. -/
def Opens (K : Keepers σ) (H : Host) (votePeriod : ℕ) (events : List (Event σ)) (a : ValAddress)
    (i j : ℕ) : Prop :=
  i < j ∧ ∃ e e' s r hash v, events[i]? = some e ∧ events[j]? = some e' ∧ e.Commits H a s hash
    ∧ e'.Reveals K H a r hash v ∧ s / votePeriod + 1 = r / votePeriod

lemma Event.Commits.height_eq {H : Host} {a : ValAddress} {s : ℕ} {hash : String} {e : Event σ}
    (h : e.Commits H a s hash) : e.height = s := by
  cases e with
  | prevote => exact h.1
  | vote => exact h.elim

lemma Event.Reveals.height_eq {K : Keepers σ} {H : Host} {a : ValAddress} {r : ℕ} {hash : String}
    {v : AggregateExchangeRateVote} {e : Event σ} (h : e.Reveals K H a r hash v) : e.height = r := by
  cases e with
  | prevote => exact h.elim
  | vote => exact h.1

/-- A vote is for one validator. -/
lemma Event.Reveals.unique {K : Keepers σ} {H : Host} {a a' : ValAddress} {r r' : ℕ}
    {hash hash' : String} {v v' : AggregateExchangeRateVote} {e : Event σ}
    (h : e.Reveals K H a r hash v) (h' : e.Reveals K H a' r' hash' v') : a = a' ∧ v = v' := by
  cases e with
  | prevote => exact h.elim
  | vote height w msg =>
      obtain ⟨-, ha, -, -, tuples, ht, rfl⟩ := h
      obtain ⟨-, ha', -, -, tuples', ht', rfl⟩ := h'
      obtain rfl := Option.some.inj (ha.symm.trans ha')
      obtain rfl := Except.ok.inj (ht.symm.trans ht')
      exact ⟨rfl, rfl⟩

/-- An event is at the end or it was there before. -/
lemma getElem?_append_singleton_iff {α : Type} {l : List α} {x y : α} {i : ℕ} :
    (l ++ [x])[i]? = some y ↔ l[i]? = some y ∨ i = l.length ∧ y = x := by
  rcases lt_trichotomy i l.length with hi | rfl | hi
  · rw [List.getElem?_append_left hi]
    simp [hi.ne]
  · simp [eq_comm]
  · have hnone : (l ++ [x])[i]? = none := List.getElem?_eq_none_iff.mpr (by simpa using hi)
    simp [List.getElem?_eq_none_iff.mpr hi.le, hi.ne', hnone]

/-! ### Runs -/

/-- A run from `x₀`, with the events so far: prevotes, votes, ends of blocks, and changes of anything
but the prevotes, the votes and the vote period. -/
inductive VotingRun (K : Keepers σ) (H : Host) (x₀ : ℕ × World σ) :
    ℕ × World σ → List (Event σ) → Prop where
  | start : VotingRun K H x₀ x₀ []
  | prevote {h w w' events} (hrun : VotingRun K H x₀ (h, w) events)
      (msg : MsgAggregateExchangeRatePrevote) (hbasic : msg.validateBasic H = .ok ())
      (hmsg : aggregateExchangeRatePrevote K H h w msg = .ok w') :
      VotingRun K H x₀ (h, w') (events ++ [.prevote h w msg])
  | vote {h w w' events} (hrun : VotingRun K H x₀ (h, w) events)
      (msg : MsgAggregateExchangeRateVote) (hbasic : msg.validateBasic H = .ok ())
      (hmsg : aggregateExchangeRateVote K H h w msg = .ok w') :
      VotingRun K H x₀ (h, w') (events ++ [.vote h w msg])
  | endBlock {h w w' events} (hrun : VotingRun K H x₀ (h, w) events) (S : Schedule)
      (hend : endBlocker K H S h w = .ok w') : VotingRun K H x₀ (h + 1, w') events
  | other {h w w' events} (hrun : VotingRun K H x₀ (h, w) events)
      (hprevotes : w'.store.prevotes = w.store.prevotes) (hvotes : w'.store.votes = w.store.votes)
      (hperiod : w'.store.params.votePeriod = w.store.params.votePeriod) :
      VotingRun K H x₀ (h, w') events

/-- What the store knows of the events. -/
structure RunInvariant (K : Keepers σ) (H : Host) (P : ℕ) (x : ℕ × World σ)
    (events : List (Event σ)) : Prop where
  /-- The vote period is fixed. -/
  period : x.2.store.params.votePeriod.toNat = P
  /-- Heights do not decrease. -/
  sorted : ∀ {i j : ℕ} {e e' : Event σ}, i ≤ j → events[i]? = some e → events[j]? = some e' →
    e.height ≤ e'.height
  past : ∀ {i : ℕ} {e : Event σ}, events[i]? = some e → e.height ≤ x.1
  /-- A stored prevote is that of an event, and its validator has not voted since. -/
  committed : ∀ (a : ValAddress) (p : AggregateExchangeRatePrevote),
    x.2.store.prevotes[a]? = some p → ∃ (i : ℕ) (e : Event σ), events[i]? = some e
      ∧ e.Commits H a p.submitBlock p.hash
      ∧ ∀ (j : ℕ) (e' : Event σ) r hash v, i < j → events[j]? = some e' →
        ¬ e'.Reveals K H a r hash v
  /-- A stored vote was revealed in the period of the height. -/
  revealed : ∀ (a : ValAddress) (v : AggregateExchangeRateVote), x.2.store.votes[a]? = some v →
    ∃ (j : ℕ) (e : Event σ) (r : ℕ) (hash : String), events[j]? = some e
      ∧ e.Reveals K H a r hash v ∧ r / P = x.1 / P
  /-- A vote opens a prevote. -/
  opened : ∀ {a : ValAddress} {j r : ℕ} {e : Event σ} {hash : String}
    {v : AggregateExchangeRateVote}, events[j]? = some e → e.Reveals K H a r hash v →
      ∃ i, Opens K H P events a i j
  /-- A validator votes at most once in a period. -/
  once : ∀ {a : ValAddress} {j j' r r' : ℕ} {e e' : Event σ} {hash hash' : String}
    {v v' : AggregateExchangeRateVote}, events[j]? = some e → e.Reveals K H a r hash v →
      events[j']? = some e' → e'.Reveals K H a r' hash' v' → r / P = r' / P → j = j'
  /-- A vote of the period of the height is stored. -/
  kept : ∀ {a : ValAddress} {j r : ℕ} {e : Event σ} {hash : String}
    {v : AggregateExchangeRateVote}, events[j]? = some e → e.Reveals K H a r hash v →
      r / P = x.1 / P → x.2.store.votes[a]? = some v

/-! ### One step -/

section Step

variable {K : Keepers σ} {H : Host} {P : ℕ} {h : ℕ} {w w' : World σ} {events : List (Event σ)}

lemma Opens.append {a : ValAddress} {i j : ℕ} (ho : Opens K H P events a i j) (e : Event σ) :
    Opens K H P (events ++ [e]) a i j := by
  obtain ⟨hij, e₁, e₂, s, r, hash, v, h₁, h₂, hc, hr, hp⟩ := ho
  exact ⟨hij, e₁, e₂, s, r, hash, v, getElem?_append_singleton_iff.mpr (Or.inl h₁),
    getElem?_append_singleton_iff.mpr (Or.inl h₂), hc, hr, hp⟩

/-- The order of the heights, with an event of the current height. -/
lemma RunInvariant.sorted_append (hx : RunInvariant K H P (h, w) events) {e : Event σ}
    (he : e.height = h) {i j : ℕ} {e₁ e₂ : Event σ} (hij : i ≤ j)
    (h₁ : (events ++ [e])[i]? = some e₁) (h₂ : (events ++ [e])[j]? = some e₂) :
    e₁.height ≤ e₂.height := by
  rcases getElem?_append_singleton_iff.mp h₂ with hold | ⟨rfl, rfl⟩
  · rcases getElem?_append_singleton_iff.mp h₁ with h₁ | ⟨rfl, rfl⟩
    · exact hx.sorted hij h₁ hold
    · have hlt := (List.getElem?_eq_some_iff.mp hold).1
      omega
  · rcases getElem?_append_singleton_iff.mp h₁ with h₁ | ⟨rfl, rfl⟩
    · exact he ▸ hx.past h₁
    · exact le_rfl

lemma RunInvariant.past_append (hx : RunInvariant K H P (h, w) events) {e : Event σ}
    (he : e.height = h) {i : ℕ} {e₁ : Event σ} (h₁ : (events ++ [e])[i]? = some e₁) :
    e₁.height ≤ h := by
  rcases getElem?_append_singleton_iff.mp h₁ with h₁ | ⟨rfl, rfl⟩
  · exact hx.past h₁
  · exact he.le

/-- A prevote replaces the one of its validator, and touches no vote. -/
lemma RunInvariant.prevote (hx : RunInvariant K H P (h, w) events)
    {msg : MsgAggregateExchangeRatePrevote}
    (hmsg : aggregateExchangeRatePrevote K H h w msg = .ok w') :
    RunInvariant K H P (h, w') (events ++ [.prevote h w msg]) := by
  obtain ⟨b, hash, hb, hhash, rfl⟩ := aggregateExchangeRatePrevote_spec hmsg
  -- a vote among the events was there before
  have hvote : ∀ {j : ℕ} {e : Event σ} {a r hash v},
      (events ++ [.prevote h w msg])[j]? = some e → e.Reveals K H a r hash v →
        events[j]? = some e := by
    intro j e a r hash v he hr
    rcases getElem?_append_singleton_iff.mp he with he | ⟨-, rfl⟩
    · exact he
    · exact hr.elim
  refine ⟨hx.period, hx.sorted_append rfl, hx.past_append rfl, fun a p hap => ?_, fun a v hav => ?_,
    fun he hr => ?_, fun he hr he' hr' => ?_, fun he hr => ?_⟩
  · rw [getElem?_insert_ite] at hap
    split_ifs at hap with hba
    · obtain rfl := hba
      obtain rfl := Option.some.inj hap
      refine ⟨events.length, _, getElem?_append_singleton_iff.mpr (Or.inr ⟨rfl, rfl⟩),
        ⟨rfl, hb, hhash⟩, fun j e' r hash v hj he' hr => ?_⟩
      exact absurd (List.getElem?_eq_some_iff.mp (hvote he' hr)).1 (by omega)
    · obtain ⟨i, e, he, hc, hnone⟩ := hx.committed a p hap
      exact ⟨i, e, getElem?_append_singleton_iff.mpr (Or.inl he), hc,
        fun j e' r hash v hj he' hr => hnone j e' r hash v hj (hvote he' hr) hr⟩
  · obtain ⟨j, e, r, hash, he, hr, hp⟩ := hx.revealed a v hav
    exact ⟨j, e, r, hash, getElem?_append_singleton_iff.mpr (Or.inl he), hr, hp⟩
  · obtain ⟨i, hi⟩ := hx.opened (hvote he hr) hr
    exact ⟨i, hi.append _⟩
  · exact hx.once (hvote he hr) hr (hvote he' hr') hr'
  · exact hx.kept (hvote he hr) hr

/-- The period of a vote is the one after its prevote. -/
lemma checkRevealPeriod_eq_ok {height submitBlock votePeriod : ℕ} (hle : submitBlock ≤ height)
    (hlt : height < 2 ^ 63) (h : checkRevealPeriod height submitBlock votePeriod = .ok ()) :
    submitBlock / votePeriod + 1 = height / votePeriod := by
  rw [checkRevealPeriod] at h
  split_ifs at h with hzero
  · simp at h
  have hmod := not_not.mp (failIf_eq_ok.mp h)
  have hdiv := Nat.div_le_div_right (c := votePeriod) hle
  have hself := Nat.div_le_self height votePeriod
  generalize height / votePeriod = k at *
  generalize submitBlock / votePeriod = m at *
  omega

/-- An earlier vote of a validator came before its stored prevote, so before the period after
it. -/
lemma RunInvariant.reveals_earlier {x : ℕ × World σ} (hx : RunInvariant K H P x events)
    {b : ValAddress} {i j s r : ℕ} {e e' : Event σ} {hash hash' : String}
    {v : AggregateExchangeRateVote} (he : events[i]? = some e) (hc : e.Commits H b s hash)
    (hnone : ∀ (j : ℕ) (e' : Event σ) r hash v, i < j → events[j]? = some e' →
      ¬ e'.Reveals K H b r hash v)
    (he' : events[j]? = some e') (hr : e'.Reveals K H b r hash' v) : r / P ≠ s / P + 1 := by
  have hji : j ≤ i := not_lt.mp fun hij => hnone j e' r hash' v hij he' hr
  have hle := hx.sorted hji he' he
  rw [hr.height_eq, hc.height_eq] at hle
  have hdiv := Nat.div_le_div_right (c := P) hle
  omega

/-- A validator whose earlier votes are all of other periods has voted once in this one. -/
lemma RunInvariant.once_append {x : ℕ × World σ} (hx : RunInvariant K H P x events) {e : Event σ}
    {b : ValAddress} {hash : String} {v : AggregateExchangeRateVote}
    (hnew : e.Reveals K H b h hash v)
    (hearlier : ∀ {j r : ℕ} {e' : Event σ} {hash v}, events[j]? = some e' →
      e'.Reveals K H b r hash v → r / P ≠ h / P)
    {a : ValAddress} {j j' r r' : ℕ} {e₁ e₂ : Event σ} {hash₁ hash₂ : String}
    {v₁ v₂ : AggregateExchangeRateVote} (he₁ : (events ++ [e])[j]? = some e₁)
    (hr₁ : e₁.Reveals K H a r hash₁ v₁) (he₂ : (events ++ [e])[j']? = some e₂)
    (hr₂ : e₂.Reveals K H a r' hash₂ v₂) (hrr : r / P = r' / P) : j = j' := by
  rcases getElem?_append_singleton_iff.mp he₁ with hold₁ | ⟨rfl, rfl⟩
  · rcases getElem?_append_singleton_iff.mp he₂ with hold₂ | ⟨rfl, rfl⟩
    · exact hx.once hold₁ hr₁ hold₂ hr₂ hrr
    · obtain ⟨rfl, -⟩ := hnew.unique hr₂
      rw [← hr₂.height_eq, hnew.height_eq] at hrr
      exact absurd hrr (hearlier hold₁ hr₁)
  · rcases getElem?_append_singleton_iff.mp he₂ with hold₂ | ⟨rfl, -⟩
    · obtain ⟨rfl, -⟩ := hnew.unique hr₁
      rw [← hr₁.height_eq, hnew.height_eq] at hrr
      exact absurd hrr.symm (hearlier hold₂ hr₂)
    · rfl

/-- A vote opens the stored prevote of its validator, which cannot vote in this period again. -/
lemma RunInvariant.vote (hx : RunInvariant K H P (h, w) events) (hlt : h < 2 ^ 63)
    {msg : MsgAggregateExchangeRateVote} (hmsg : aggregateExchangeRateVote K H h w msg = .ok w') :
    RunInvariant K H P (h, w') (events ++ [.vote h w msg]) := by
  obtain ⟨b, feeder, p, tuples, hb, hfeeder, hauth, hprevote, hcheck, hparse, hhash, rfl⟩ :=
    aggregateExchangeRateVote_spec hmsg
  obtain ⟨i, e, he, hc, hnone⟩ := hx.committed b p hprevote
  have hsubmit : p.submitBlock ≤ h := hc.height_eq ▸ hx.past he
  have hperiod : p.submitBlock / P + 1 = h / P := by
    have hP : w.store.params.votePeriod.toNat = P := hx.period
    rw [hP] at hcheck
    exact checkRevealPeriod_eq_ok hsubmit hlt hcheck
  have hnew : (Event.vote h w msg).Reveals K H b h p.hash ⟨tuples, H.valString b⟩ :=
    ⟨rfl, hb, ⟨feeder, hfeeder, hauth⟩, hhash.symm, tuples, hparse, rfl⟩
  have hearlier : ∀ {j r : ℕ} {e' : Event σ} {hash v}, events[j]? = some e' →
      e'.Reveals K H b r hash v → r / P ≠ h / P := fun he' hr =>
    hperiod ▸ hx.reveals_earlier he hc hnone he' hr
  refine ⟨hx.period, hx.sorted_append rfl, hx.past_append rfl, fun a q haq => ?_, fun a v hav => ?_,
    fun he' hr => ?_, fun he₁ hr₁ he₂ hr₂ hrr => ?_, fun he' hr hrh => ?_⟩
  · rw [getElem?_erase_ite] at haq
    split_ifs at haq with hba
    obtain ⟨i, e, he, hc, hnone⟩ := hx.committed a q haq
    refine ⟨i, e, getElem?_append_singleton_iff.mpr (Or.inl he), hc,
      fun j e' r hash v hj he' hr => ?_⟩
    rcases getElem?_append_singleton_iff.mp he' with he' | ⟨-, rfl⟩
    · exact hnone j e' r hash v hj he' hr
    · exact hba (hnew.unique hr).1
  · rw [getElem?_insert_ite] at hav
    split_ifs at hav with hba
    · obtain rfl := hba
      obtain rfl := Option.some.inj hav
      exact ⟨events.length, _, h, p.hash, getElem?_append_singleton_iff.mpr (Or.inr ⟨rfl, rfl⟩),
        hnew, rfl⟩
    · obtain ⟨j, e', r, hash, he', hr, hp⟩ := hx.revealed a v hav
      exact ⟨j, e', r, hash, getElem?_append_singleton_iff.mpr (Or.inl he'), hr, hp⟩
  · rcases getElem?_append_singleton_iff.mp he' with he' | ⟨rfl, rfl⟩
    · obtain ⟨i, hi⟩ := hx.opened he' hr
      exact ⟨i, hi.append _⟩
    · obtain ⟨rfl, -⟩ := hnew.unique hr
      exact ⟨i, (List.getElem?_eq_some_iff.mp he).1, e, _, p.submitBlock, h, p.hash, _,
        getElem?_append_singleton_iff.mpr (Or.inl he),
        getElem?_append_singleton_iff.mpr (Or.inr ⟨rfl, rfl⟩), hc, hnew, hperiod⟩
  · exact hx.once_append hnew hearlier he₁ hr₁ he₂ hr₂ hrr
  · rw [getElem?_insert_ite]
    rcases getElem?_append_singleton_iff.mp he' with he' | ⟨-, rfl⟩
    · split_ifs with hba
      · obtain rfl := hba
        exact absurd hrh (hearlier he' hr)
      · exact hx.kept he' hr hrh
    · obtain ⟨rfl, rfl⟩ := hnew.unique hr
      rw [if_pos rfl]

/-- The end of a block. At the end of a period the votes are cleared, together with some prevotes. -/
lemma RunInvariant.endBlock (hx : RunInvariant K H P (h, w) events) (hlt : h + 1 < 2 ^ 63)
    {S : Schedule} (hend : endBlocker K H S h w = .ok w') :
    RunInvariant K H P (h + 1, w') events := by
  have hperiod : w.store.params.votePeriod.toNat = P := hx.period
  have hpast : ∀ {i : ℕ} {e : Event σ}, events[i]? = some e → e.height ≤ h + 1 := fun he =>
    (hx.past he).trans (Nat.le_succ h)
  by_cases hlast : IsPeriodLast h P
  · obtain ⟨_, _, _, _, _, -, -, hstore⟩ := endBlocker_store_of_last (hperiod ▸ hlast) hend
    have hnext : (h + 1) / P = h / P + 1 :=
      Nat.succ_div_of_dvd ((isPeriodLast_iff_dvd hlt).mp hlast).2
    refine ⟨by rw [hstore]; exact hperiod, hx.sorted, hpast, fun a p hap => ?_, fun a v hav => ?_,
      hx.opened, hx.once, ?_⟩
    · rw [hstore] at hap
      exact hx.committed a p (getElem?_of_clearPrevotes hap)
    · rw [hstore] at hav
      simp at hav
    · -- the events are of earlier periods
      intro a j r e hash v he hr hrh
      have hle : r / P ≤ h / P := Nat.div_le_div_right (hr.height_eq ▸ hx.past he)
      have heq : r / P = (h + 1) / P := hrh
      omega
  · obtain ⟨hP, counters, hstore⟩ := endBlocker_store_of_not_last (hperiod ▸ hlast) hend
    rw [hperiod] at hP
    have hsame : (h + 1) / P = h / P :=
      Nat.succ_div_of_not_dvd fun hdvd => hlast ((isPeriodLast_iff_dvd hlt).mpr ⟨hP, hdvd⟩)
    refine ⟨by rw [hstore]; exact hperiod, hx.sorted, hpast, ?_, ?_, hx.opened, hx.once, ?_⟩
    · rw [hstore]
      exact hx.committed
    · rw [hstore, hsame]
      exact hx.revealed
    · rw [hstore, hsame]
      exact hx.kept

/-- The invariant reads nothing else of the state. -/
lemma RunInvariant.other (hx : RunInvariant K H P (h, w) events)
    (hprevotes : w'.store.prevotes = w.store.prevotes) (hvotes : w'.store.votes = w.store.votes)
    (hperiod : w'.store.params.votePeriod = w.store.params.votePeriod) :
    RunInvariant K H P (h, w') events := by
  refine ⟨by rw [hperiod]; exact hx.period, hx.sorted, hx.past, ?_, ?_, hx.opened, hx.once, ?_⟩
  · rw [hprevotes]
    exact hx.committed
  · rw [hvotes]
    exact hx.revealed
  · rw [hvotes]
    exact hx.kept

end Step

/-! ### Whole runs -/

/-- **The invariant holds along every run** that starts without prevotes and votes. -/
theorem VotingRun.invariant {K : Keepers σ} {H : Host} {x₀ x : ℕ × World σ}
    {events : List (Event σ)} (hrun : VotingRun K H x₀ x events)
    (hprevotes : x₀.2.store.prevotes = ∅) (hvotes : x₀.2.store.votes = ∅) (hx : x.1 < 2 ^ 63) :
    RunInvariant K H x₀.2.store.params.votePeriod.toNat x events := by
  induction hrun with
  | start =>
      refine ⟨rfl, by simp, by simp, ?_, ?_, by simp, by simp, by simp⟩
      · rw [hprevotes]
        simp
      · rw [hvotes]
        simp
  | prevote _ msg _ hmsg ih => exact (ih hx).prevote hmsg
  | vote _ msg _ hmsg ih => exact (ih hx).vote hx hmsg
  | endBlock _ S hend ih => exact (ih (Nat.lt_of_succ_lt hx)).endBlock hx hend
  | other _ hp hv hperiod ih => exact (ih hx).other hp hv hperiod

/-- **Commit and reveal.** In every state of a run that starts without prevotes and votes, with `P`
blocks to a vote period:

* a stored vote was revealed in the period of the current height, by an authorised feeder, and opens
  a prevote for the same validator of the period before;
* no prevote is opened by two votes;
* every vote accepted in the period of the current height is in the store, in particular when the
  last block of the period counts the votes, and the store has no votes after that block. -/
theorem commit_reveal {K : Keepers σ} {H : Host} {x₀ x : ℕ × World σ} {events : List (Event σ)}
    (hrun : VotingRun K H x₀ x events) (hprevotes : x₀.2.store.prevotes = ∅)
    (hvotes : x₀.2.store.votes = ∅) (hx : x.1 < 2 ^ 63) {P : ℕ}
    (hP : x₀.2.store.params.votePeriod.toNat = P) :
    (∀ (a : ValAddress) (v : AggregateExchangeRateVote), x.2.store.votes[a]? = some v →
        ∃ (i j r : ℕ) (e : Event σ) (hash : String), events[j]? = some e
          ∧ e.Reveals K H a r hash v ∧ r / P = x.1 / P ∧ Opens K H P events a i j)
      ∧ (∀ a i j j', Opens K H P events a i j → Opens K H P events a i j' → j = j')
      ∧ (∀ (a : ValAddress) (j r : ℕ) (e : Event σ) (hash : String)
          (v : AggregateExchangeRateVote), events[j]? = some e → e.Reveals K H a r hash v →
            r / P = x.1 / P → x.2.store.votes[a]? = some v)
      ∧ ∀ S w', IsPeriodLast x.1 P → endBlocker K H S x.1 x.2 = .ok w' → w'.store.votes = ∅ := by
  obtain rfl := hP
  have hinv := hrun.invariant hprevotes hvotes hx
  refine ⟨fun a v hav => ?_, fun a i j j' hj hj' => ?_, fun a j r e hash v he hr => hinv.kept he hr,
    fun S w' hlast hend => ?_⟩
  · obtain ⟨j, e, r, hash, he, hr, hp⟩ := hinv.revealed a v hav
    obtain ⟨i, hi⟩ := hinv.opened he hr
    exact ⟨i, j, r, e, hash, he, hr, hp, hi⟩
  · obtain ⟨-, e₁, e, s, r, hash, v, he₁, he, hc, hr, hp⟩ := hj
    obtain ⟨-, e₁', e', s', r', hash', v', he₁', he', hc', hr', hp'⟩ := hj'
    -- both votes are in the period after the one prevote
    obtain rfl := Option.some.inj (he₁.symm.trans he₁')
    refine hinv.once he hr he' hr' ?_
    rw [← hp, ← hp', ← hc.height_eq, ← hc'.height_eq]
  · obtain ⟨_, _, _, _, _, -, -, hstore⟩ := endBlocker_store_of_last (hinv.period ▸ hlast) hend
    rw [hstore]

/-! ### A run -/

/-- A prevote at height one, the end of that block, and the vote at height two. -/
def oneReveal (T : Tables) (v : SelfVote) (w : World (List Validator)) :
    Outcome (World (List Validator) × World (List Validator) × World (List Validator)) := do
  let prevoted ← deliverPrevote staticKeepers (tableHost T) 1 w (v.prevote T)
  let ended ← endBlocker staticKeepers (tableHost T) Schedule.listed 1 prevoted
  let voted ← deliverVote staticKeepers (tableHost T) 2 ended v.vote
  pure (prevoted, ended, voted)

/-- The texts of a validator that votes for the dollar. -/
def dollarTables : Tables where
  accounts := twoAccounts
  hashes :=
    [("1:1.0uusd:terravaloper1weskc6tyv96x7u3dvykk7e3dw3jhyunpwz6935",
      "79853d131af1b28df84cfd8bb0156f43b74297da")]
  coins := [("1.0uusd", "uusd", 10 ^ 18)]

/-- With a vote period of one block, the vote of the second block is stored and opens the prevote of
the first. -/
theorem commit_reveal_dollar :
    ∃ w events v, VotingRun staticKeepers (tableHost dollarTables)
        (1, ⟨emptyStore blockParams, twoValidators⟩) (2, w) events
      ∧ w.store.votes["validator-a-of-terra"]? = some v
      ∧ ∃ i j, Opens staticKeepers (tableHost dollarTables) 1 events "validator-a-of-terra" i j := by
  obtain ⟨⟨w₁, w₂, w₃⟩, hrun, htest⟩ := exists_of_returns
    (p := fun r : World (List Validator) × World (List Validator) × World (List Validator) =>
      r.2.2.store.votes["validator-a-of-terra"]?.isSome)
    (x := oneReveal dollarTables ⟨"terra1weskc6tyv96x7u3dvykk7e3dw3jhyunpwdkcp8",
      "terravaloper1weskc6tyv96x7u3dvykk7e3dw3jhyunpwz6935", "1.0uusd"⟩
      ⟨emptyStore blockParams, twoValidators⟩) (by decide +kernel)
  obtain ⟨v, hv⟩ := Option.isSome_iff_exists.mp htest
  obtain ⟨_, h₁, hrun⟩ := bind_eq_ok.mp hrun
  obtain ⟨_, h₂, hrun⟩ := bind_eq_ok.mp hrun
  obtain ⟨_, h₃, hrun⟩ := bind_eq_ok.mp hrun
  obtain ⟨rfl, rfl, rfl⟩ : _ = w₁ ∧ _ = w₂ ∧ _ = w₃ := by simpa using hrun
  obtain ⟨_, hbasic₁, h₁⟩ := bind_eq_ok.mp h₁
  obtain ⟨_, hbasic₃, h₃⟩ := bind_eq_ok.mp h₃
  have hvoting := ((VotingRun.start.prevote _ hbasic₁ h₁).endBlock Schedule.listed h₂).vote _
    hbasic₃ h₃
  obtain ⟨i, j, -, -, -, -, -, -, hopens⟩ :=
    (commit_reveal hvoting rfl rfl (by norm_num) rfl).1 _ v hv
  exact ⟨_, _, v, hvoting, hv, i, j, hopens⟩

end ColumbusCore.Oracle
