import ColumbusCore.Oracle.EndBlocker

/-!
The messages of the oracle module (`types/msgs.go`, `types/vote.go`, `types/hash.go`,
`keeper/msg_server.go`) and the states they lead to.

* `parseExchangeRateTuples`, `decodeHash`, `aggregateVoteHash`: the texts of the messages;
* the three messages with their `validateBasic` and their handlers;
* `Step`, `Reachable`: blocks in which admitted messages are executed, closed by `endBlocker`;
* `reachable_induction` (**the run rule**) and `sound_of_reachable`: in every reachable state
  the parameters validate and every stored vote came from an admitted message, so its rates are
  nonnegative decimals of at most 315 bits and its denoms are distinct.

An error that wraps one of a library carries the module's own part of the text.
-/

namespace ColumbusCore.Oracle

open Go
open Std (ExtTreeMap)

variable {σ : Type}

/-! ### Texts -/

/-- `unicode.IsSpace`. -/
def isSpace (c : Char) : Bool :=
  let n := c.toNat
  (decide (0x09 ≤ n) && decide (n ≤ 0x0D)) || n == 0x20 || n == 0x85 || n == 0xA0 || n == 0x1680
    || (decide (0x2000 ≤ n) && decide (n ≤ 0x200A)) || n == 0x2028 || n == 0x2029 || n == 0x202F
    || n == 0x205F || n == 0x3000

/-- `strings.TrimSpace`. -/
def trimSpace (s : List Char) : List Char :=
  ((s.dropWhile isSpace).reverse.dropWhile isSpace).reverse

/-- One round of `ParseExchangeRateTuples`: a parsed coin of a new denom. -/
def parseTuple (H : Host) (tuples : List ExchangeRateTuple) (tupleStr : String) :
    Outcome (List ExchangeRateTuple) :=
  match H.parseDecCoin tupleStr with
  | none => failed ("invalid decimal coin expression: " ++ tupleStr)
  | some (denom, rate) =>
      if denom ∈ tuples.map ExchangeRateTuple.denom then failed ("duplicated denom " ++ denom)
      else pure (tuples ++ [⟨denom, rate⟩])

/-- `ParseExchangeRateTuples`. -/
def parseExchangeRateTuples (H : Host) (tuplesStr : String) : Outcome (List ExchangeRateTuple) :=
  let trimmed := trimSpace tuplesStr.toList
  if trimmed = [] then pure []
  else ((trimmed.splitOn ',').map String.ofList).foldlM (parseTuple H) []

/-- The segments of a text of rates. -/
def segments (tuplesStr : String) : List String :=
  ((trimSpace tuplesStr.toList).splitOn ',').map String.ofList

/-- A tuple as the coin it is read from. -/
def ExchangeRateTuple.coin (t : ExchangeRateTuple) : Denom × Dec := (t.denom, t.exchangeRate)

lemma parseTuple_eq_ok_iff {H : Host} {tuples tuples' : List ExchangeRateTuple} {s : String} :
    parseTuple H tuples s = .ok tuples' ↔ ∃ t : ExchangeRateTuple, H.parseDecCoin s = some t.coin
      ∧ t.denom ∉ tuples.map ExchangeRateTuple.denom ∧ tuples' = tuples ++ [t] := by
  rw [parseTuple]
  cases hs : H.parseDecCoin s with
  | none => simp
  | some coin =>
      obtain ⟨denom, rate⟩ := coin
      constructor
      · intro h
        simp only at h
        split_ifs at h with hmem
        · exact absurd h failed_ne_ok
        · exact ⟨⟨denom, rate⟩, rfl, hmem, (Except.ok.inj h).symm⟩
      · rintro ⟨t, ht, hnew, rfl⟩
        obtain ⟨rfl, rfl⟩ := Prod.mk.inj (Option.some.inj ht)
        simp only [if_neg hnew]
        rfl

/-- The loop reads every segment, and the denoms it has seen are distinct. -/
lemma foldlM_parseTuple_eq_ok_iff {H : Host} {pieces : List String}
    {tuples tuples' : List ExchangeRateTuple}
    (hnodup : (tuples.map ExchangeRateTuple.denom).Nodup) :
    pieces.foldlM (parseTuple H) tuples = .ok tuples' ↔ ∃ read : List ExchangeRateTuple,
      pieces.map H.parseDecCoin = read.map (fun t => some t.coin)
        ∧ ((tuples ++ read).map ExchangeRateTuple.denom).Nodup ∧ tuples' = tuples ++ read := by
  induction pieces generalizing tuples with
  | nil =>
      constructor
      · intro h
        exact ⟨[], rfl, by simpa using hnodup, by simpa using (Except.ok.inj h).symm⟩
      · rintro ⟨read, hread, -, rfl⟩
        obtain rfl := List.map_eq_nil_iff.mp hread.symm
        simp [List.foldlM]
  | cons piece pieces ih =>
      rw [foldlM_cons_eq_ok]
      constructor
      · rintro ⟨next, hround, hrest⟩
        obtain ⟨t, hparse, hnew, rfl⟩ := parseTuple_eq_ok_iff.mp hround
        have hnext : ((tuples ++ [t]).map ExchangeRateTuple.denom).Nodup := by
          rw [List.map_append, List.map_singleton]
          exact List.nodup_append_comm.mp (List.nodup_cons.mpr ⟨hnew, hnodup⟩)
        obtain ⟨read, hread, hall, rfl⟩ := (ih hnext).mp hrest
        refine ⟨t :: read, ?_, ?_, ?_⟩
        · rw [List.map_cons, List.map_cons, hparse, hread]
        · simpa using hall
        · simp
      · rintro ⟨read, hread, hall, rfl⟩
        cases read with
        | nil => simp at hread
        | cons t read =>
            obtain ⟨hparse, hread⟩ := List.cons.inj hread
            rw [List.append_cons] at hall
            have hnext : ((tuples ++ [t]).map ExchangeRateTuple.denom).Nodup := by
              rw [List.map_append] at hall
              exact hall.of_append_left
            have hnew : t.denom ∉ tuples.map ExchangeRateTuple.denom := by
              rw [List.map_append, List.map_singleton] at hnext
              exact (List.nodup_cons.mp (List.nodup_append_comm.mp hnext)).1
            exact ⟨tuples ++ [t], parseTuple_eq_ok_iff.mpr ⟨t, hparse, hnew, rfl⟩,
              (ih hnext).mpr ⟨read, hread, hall, List.append_cons tuples t read⟩⟩

/-- The rates of a text are those of its segments, for distinct denoms. -/
lemma parseExchangeRateTuples_eq_ok_iff {H : Host} {str : String}
    {tuples : List ExchangeRateTuple} :
    parseExchangeRateTuples H str = .ok tuples ↔
      (trimSpace str.toList = [] ∧ tuples = [])
      ∨ (trimSpace str.toList ≠ []
        ∧ (segments str).map H.parseDecCoin = tuples.map (fun t => some t.coin)
        ∧ (tuples.map ExchangeRateTuple.denom).Nodup) := by
  rw [parseExchangeRateTuples]
  by_cases hempty : trimSpace str.toList = []
  · simp only [hempty, if_true, true_and, ne_eq, not_true_eq_false, false_and, or_false]
    rw [pure_eq_ok, Except.ok.injEq, eq_comm]
  · simp only [hempty, if_false, false_and, ne_eq, not_false_eq_true, true_and, false_or]
    have hstart : (([] : List ExchangeRateTuple).map ExchangeRateTuple.denom).Nodup :=
      List.nodup_nil
    rw [← segments, foldlM_parseTuple_eq_ok_iff hstart]
    simp only [List.nil_append]
    constructor
    · rintro ⟨read, hread, hnodup, rfl⟩
      exact ⟨hread, hnodup⟩
    · rintro ⟨hread, hnodup⟩
      exact ⟨tuples, hread, hnodup, rfl⟩

/-- `AggregateVoteHashFromHexString` followed by `String`: the digits come back in lower
case. -/
def decodeHash (s : String) : Outcome String :=
  if s.toList.length % 2 = 0 ∧ s.toList.all isHexDigit then
    pure (String.ofList (s.toList.map Char.toLower))
  else failed "encoding/hex: invalid string"

/-- `GetAggregateVoteHash`, in hexadecimal. -/
def aggregateVoteHash (H : Host) (salt exchangeRates : String) (voter : ValAddress) : String :=
  H.truncatedHash (salt ++ ":" ++ exchangeRates ++ ":" ++ H.valString voter)

/-- `sdk.ValAddressFromBech32`. -/
def valAddress (H : Host) (s msg : String) : Outcome ValAddress :=
  match H.valAddressFromBech32 s with
  | none => failed msg
  | some a => pure a

/-- `sdk.AccAddressFromBech32`. -/
def accAddress (H : Host) (s msg : String) : Outcome AccAddress :=
  match H.accAddressFromBech32 s with
  | none => failed msg
  | some a => pure a

/-! ### Messages -/

/-- `MsgAggregateExchangeRatePrevote`. -/
structure MsgAggregateExchangeRatePrevote where
  hash : String
  feeder : String
  validator : String

/-- `MsgAggregateExchangeRateVote`. -/
structure MsgAggregateExchangeRateVote where
  salt : String
  exchangeRates : String
  feeder : String
  validator : String

/-- `MsgDelegateFeedConsent`. -/
structure MsgDelegateFeedConsent where
  operator : String
  delegate : String

/-- `MsgAggregateExchangeRatePrevote.ValidateBasic`. -/
def MsgAggregateExchangeRatePrevote.validateBasic (H : Host)
    (msg : MsgAggregateExchangeRatePrevote) : Outcome Unit := do
  let _ ← decodeHash msg.hash
  failIf (msg.hash.utf8ByteSize ≠ 20 * 2) "invalid hash length; should equal 20"
  let _ ← accAddress H msg.feeder "Invalid feeder address"
  let _ ← valAddress H msg.validator "Invalid operator address"
  pure ()

/-- The bit length `ValidateBasic` allows a rate, `255 + sdk.DecimalPrecisionBits`. -/
def checkRate (t : ExchangeRateTuple) : Outcome Unit :=
  failIf (2 ^ (255 + 60) ≤ t.exchangeRate.raw.natAbs) "overflow: invalid exchange rate"

/-- `MsgAggregateExchangeRateVote.ValidateBasic`. -/
def MsgAggregateExchangeRateVote.validateBasic (H : Host)
    (msg : MsgAggregateExchangeRateVote) : Outcome Unit := do
  let _ ← accAddress H msg.feeder "Invalid feeder address"
  let _ ← valAddress H msg.validator "Invalid operator address"
  failIf (msg.exchangeRates.utf8ByteSize = 0)
    "must provide at least one oracle exchange rate: unknown request"
  failIf (4096 < msg.exchangeRates.utf8ByteSize)
    "exchange rates string can not exceed 4096 characters: invalid request"
  let tuples ← parseExchangeRateTuples H msg.exchangeRates
  tuples.forM checkRate
  failIf (4 < msg.salt.utf8ByteSize ∨ msg.salt.utf8ByteSize < 1)
    "salt length must be [1, 4]: invalid salt length; should be 1~4"

/-- `MsgDelegateFeedConsent.ValidateBasic`. -/
def MsgDelegateFeedConsent.validateBasic (H : Host) (msg : MsgDelegateFeedConsent) :
    Outcome Unit := do
  let _ ← valAddress H msg.operator "Invalid operator address"
  let _ ← accAddress H msg.delegate "Invalid delegate address"
  pure ()

/-! ### Handlers (`keeper/msg_server.go`) -/

/-- `ValidateFeeder`: the feeder is the validator or its delegate, and the validator is
bonded. By default the validator feeds for itself. -/
def validateFeeder (K : Keepers σ) (H : Host) (w : World σ) (feeder : AccAddress)
    (validator : ValAddress) : Outcome Unit := do
  failIf (feeder ≠ validator ∧ w.store.feederDelegations.getD validator validator ≠ feeder)
    "unauthorized voter"
  match K.validator w.ext validator with
  | some v =>
      if v.bonded then pure ()
      else failed ("validator " ++ H.valString validator ++ " is not active set")
  | none => failed ("validator " ++ H.valString validator ++ " is not active set")

/-- `AggregateExchangeRatePrevote`. -/
def aggregateExchangeRatePrevote (K : Keepers σ) (H : Host) (height : ℕ) (w : World σ)
    (msg : MsgAggregateExchangeRatePrevote) : Outcome (World σ) := do
  let valAddr ← valAddress H msg.validator "Invalid operator address"
  let feederAddr ← accAddress H msg.feeder "Invalid feeder address"
  validateFeeder K H w feederAddr valAddr
  let voteHash ← decodeHash msg.hash
  let prevote : AggregateExchangeRatePrevote := ⟨voteHash, H.valString valAddr, height⟩
  pure { w with store := { w.store with prevotes := w.store.prevotes.insert valAddr prevote } }

/-- The vote has to come in the period after its prevote, in 64-bit arithmetic. -/
def checkRevealPeriod (height submitBlock votePeriod : ℕ) : Outcome Unit :=
  if votePeriod = 0 then panicked .divisionByZero
  else
    failIf ((height / votePeriod + 2 ^ 64 - submitBlock / votePeriod) % 2 ^ 64 ≠ 1)
      "reveal period of submitted vote do not match with registered prevote"

/-- A rate may only be given for a vote target. -/
def checkVoteTarget (w : World σ) (t : ExchangeRateTuple) : Outcome Unit :=
  failIf (t.denom ∉ w.store.tobinTaxes) (t.denom ++ ": unknown denom")

/-- `AggregateExchangeRateVote`. -/
def aggregateExchangeRateVote (K : Keepers σ) (H : Host) (height : ℕ) (w : World σ)
    (msg : MsgAggregateExchangeRateVote) : Outcome (World σ) := do
  let valAddr ← valAddress H msg.validator "Invalid operator address"
  let feederAddr ← accAddress H msg.feeder "Invalid feeder address"
  validateFeeder K H w feederAddr valAddr
  match w.store.prevotes[valAddr]? with
  | none => failed (msg.validator ++ ": no aggregate prevote")
  | some aggregatePrevote => do
      checkRevealPeriod height aggregatePrevote.submitBlock w.store.params.votePeriod.toNat
      let tuples ← parseExchangeRateTuples H msg.exchangeRates
      tuples.forM (checkVoteTarget w)
      let hash := aggregateVoteHash H msg.salt msg.exchangeRates valAddr
      failIf (aggregatePrevote.hash ≠ hash)
        ("must be given " ++ aggregatePrevote.hash ++ " not " ++ hash
          ++ ": hash verification failed")
      let vote : AggregateExchangeRateVote := ⟨tuples, H.valString valAddr⟩
      pure { w with store :=
        { w.store with
          votes := w.store.votes.insert valAddr vote
          prevotes := w.store.prevotes.erase valAddr } }

/-- `DelegateFeedConsent`. -/
def delegateFeedConsent (K : Keepers σ) (H : Host) (w : World σ) (msg : MsgDelegateFeedConsent) :
    Outcome (World σ) := do
  let operatorAddr ← valAddress H msg.operator "Invalid operator address"
  let delegateAddr ← accAddress H msg.delegate "Invalid delegate address"
  match K.validator w.ext operatorAddr with
  | none => failed (msg.operator ++ ": validator does not exist")
  | some _ =>
      pure { w with store :=
        { w.store with
          feederDelegations := w.store.feederDelegations.insert operatorAddr delegateAddr } }

/-! ### Runs -/

/-- A store before the first vote, with parameters that validate. -/
def Store.Initial (s : Store) : Prop :=
  s.params.validate = .ok () ∧ s.prevotes = ∅ ∧ s.votes = ∅

/-- One step of a run at a height: an admitted message, a change of the parameters, a change in
the other modules, or the end of the block. -/
inductive Step (K : Keepers σ) (H : Host) : ℕ × World σ → ℕ × World σ → Prop where
  | prevote {h w w'} (msg : MsgAggregateExchangeRatePrevote) (hbasic : msg.validateBasic H = .ok ())
      (hrun : aggregateExchangeRatePrevote K H h w msg = .ok w') : Step K H (h, w) (h, w')
  | vote {h w w'} (msg : MsgAggregateExchangeRateVote) (hbasic : msg.validateBasic H = .ok ())
      (hrun : aggregateExchangeRateVote K H h w msg = .ok w') : Step K H (h, w) (h, w')
  | delegate {h w w'} (msg : MsgDelegateFeedConsent) (hbasic : msg.validateBasic H = .ok ())
      (hrun : delegateFeedConsent K H w msg = .ok w') : Step K H (h, w) (h, w')
  | params {h} {w : World σ} (p : Params) (hvalid : p.validate = .ok ()) :
      Step K H (h, w) (h, { w with store := { w.store with params := p } })
  | other {h} {w : World σ} (ext : σ) : Step K H (h, w) (h, { w with ext := ext })
  | endBlock {h w w'} (S : Schedule) (hrun : endBlocker K H S h w = .ok w') :
      Step K H (h, w) (h + 1, w')

/-- The states of the chain, with the height of the block being executed. -/
inductive Reachable (K : Keepers σ) (H : Host) : ℕ × World σ → Prop where
  | initial {h w} (h0 : w.store.Initial) : Reachable K H (h, w)
  | step {x y} (hx : Reachable K H x) (hstep : Step K H x y) : Reachable K H y

/-- **The run rule.** What holds initially and is kept by every step holds in every reachable
state. -/
theorem reachable_induction {K : Keepers σ} {H : Host} (P : ℕ × World σ → Prop)
    (h0 : ∀ h w, w.store.Initial → P (h, w)) (hstep : ∀ x y, P x → Step K H x y → P y)
    {x : ℕ × World σ} (hx : Reachable K H x) : P x := by
  induction hx with
  | initial hinit => exact h0 _ _ hinit
  | step _ hs ih => exact hstep _ _ ih hs

/-! ### Rounds of voting -/

/-- A prevote message, checked and executed. -/
def deliverPrevote (K : Keepers σ) (H : Host) (height : ℕ) (w : World σ)
    (msg : MsgAggregateExchangeRatePrevote) : Outcome (World σ) := do
  msg.validateBasic H
  aggregateExchangeRatePrevote K H height w msg

/-- A vote message, checked and executed. -/
def deliverVote (K : Keepers σ) (H : Host) (height : ℕ) (w : World σ)
    (msg : MsgAggregateExchangeRateVote) : Outcome (World σ) := do
  msg.validateBasic H
  aggregateExchangeRateVote K H height w msg

/-- Prevotes, the end of their block, and votes in the next one. -/
def votingRound (K : Keepers σ) (H : Host) (S : Schedule) (height : ℕ)
    (prevotes : List MsgAggregateExchangeRatePrevote) (votes : List MsgAggregateExchangeRateVote)
    (w : World σ) : Outcome (World σ) := do
  let w ← prevotes.foldlM (deliverPrevote K H height) w
  let w ← endBlocker K H S height w
  votes.foldlM (deliverVote K H (height + 1)) w

/-- A round of voting leads from a reachable state to a reachable state. -/
lemma Reachable.votingRound {K : Keepers σ} {H : Host} {S : Schedule} {height : ℕ}
    {prevotes : List MsgAggregateExchangeRatePrevote} {votes : List MsgAggregateExchangeRateVote}
    {w w' : World σ} (hw : Reachable K H (height, w))
    (h : votingRound K H S height prevotes votes w = .ok w') :
    Reachable K H (height + 1, w') := by
  obtain ⟨w₁, h₁, h⟩ := bind_eq_ok.mp h
  obtain ⟨w₂, h₂, h₃⟩ := bind_eq_ok.mp h
  have hw₁ : Reachable K H (height, w₁) := by
    refine foldlM_invariant (fun w => Reachable K H (height, w)) h₁ hw ?_
    intro msg _ c c' hc hmsg
    obtain ⟨_, hbasic, hrun⟩ := bind_eq_ok.mp hmsg
    exact hc.step (.prevote msg hbasic hrun)
  have hw₂ : Reachable K H (height + 1, w₂) := hw₁.step (.endBlock S h₂)
  refine foldlM_invariant (fun w => Reachable K H (height + 1, w)) h₃ hw₂ ?_
  intro msg _ c c' hc hmsg
  obtain ⟨_, hbasic, hrun⟩ := bind_eq_ok.mp hmsg
  exact hc.step (.vote msg hbasic hrun)

/-! ### What an admitted vote is -/

/-- The amounts `sdk.ParseDecCoin` reads have no sign. -/
def Host.ParsesNonneg (H : Host) : Prop :=
  ∀ s d x, H.parseDecCoin s = some (d, x) → 0 ≤ x.raw

/-- An aggregate vote with the rates a message can carry. -/
structure AdmittedVote (H : Host) (a : ValAddress) (v : AggregateExchangeRateVote) : Prop where
  voter : v.voter = H.valString a
  nodup : (v.exchangeRateTuples.map ExchangeRateTuple.denom).Nodup
  rates : ∀ t ∈ v.exchangeRateTuples,
    0 ≤ t.exchangeRate.raw ∧ Fixed.Fits decFormat t.exchangeRate.raw

/-- All votes of a store were admitted. -/
def VotesAdmitted (H : Host) (s : Store) : Prop :=
  ∀ a v, s.votes[a]? = some v → AdmittedVote H a v

/-- Parsed rates have distinct denoms and were each read off a piece of the text. -/
lemma parseExchangeRateTuples_eq_ok {H : Host} {str : String} {tuples : List ExchangeRateTuple}
    (h : parseExchangeRateTuples H str = .ok tuples) :
    (tuples.map ExchangeRateTuple.denom).Nodup
      ∧ ∀ t ∈ tuples, ∃ s, H.parseDecCoin s = some (t.denom, t.exchangeRate) := by
  rcases parseExchangeRateTuples_eq_ok_iff.mp h with ⟨-, rfl⟩ | ⟨-, hread, hnodup⟩
  · simp
  · refine ⟨hnodup, fun t ht => ?_⟩
    have hmem : some t.coin ∈ (segments str).map H.parseDecCoin := by
      rw [hread]
      exact List.mem_map_of_mem ht
    obtain ⟨s, -, hs⟩ := List.mem_map.mp hmem
    exact ⟨s, hs⟩

/-- The rates of a message that passes `ValidateBasic` are within the bit limit. -/
lemma validateBasic_rates {H : Host} {msg : MsgAggregateExchangeRateVote}
    {tuples : List ExchangeRateTuple} (h : msg.validateBasic H = .ok ())
    (hp : parseExchangeRateTuples H msg.exchangeRates = .ok tuples) :
    ∀ t ∈ tuples, Fixed.Fits decFormat t.exchangeRate.raw := by
  rw [MsgAggregateExchangeRateVote.validateBasic] at h
  obtain ⟨_, -, h⟩ := bind_eq_ok.mp h
  obtain ⟨_, -, h⟩ := bind_eq_ok.mp h
  obtain ⟨_, -, h⟩ := bind_eq_ok.mp h
  obtain ⟨_, -, h⟩ := bind_eq_ok.mp h
  rw [hp, ok_bind] at h
  obtain ⟨_, hrates, -⟩ := bind_eq_ok.mp h
  intro t ht
  have hbits : decFormat.decBits = 255 + 60 := rfl
  rw [Fixed.Fits, hbits]
  exact not_le.mp (failIf_eq_ok.mp (forM_eq_ok hrates t ht))

/-! ### What the messages change -/

lemma valAddress_eq_ok {H : Host} {s msg : String} {a : ValAddress} :
    valAddress H s msg = .ok a ↔ H.valAddressFromBech32 s = some a := by
  rw [valAddress]
  cases H.valAddressFromBech32 s with
  | none => simp
  | some b => simp

lemma accAddress_eq_ok {H : Host} {s msg : String} {a : AccAddress} :
    accAddress H s msg = .ok a ↔ H.accAddressFromBech32 s = some a := by
  rw [accAddress]
  cases H.accAddressFromBech32 s with
  | none => simp
  | some b => simp

/-- An accepted prevote: its hash is stored for the validator, with the height. -/
lemma aggregateExchangeRatePrevote_spec {K : Keepers σ} {H : Host} {height : ℕ} {w w' : World σ}
    {msg : MsgAggregateExchangeRatePrevote}
    (h : aggregateExchangeRatePrevote K H height w msg = .ok w') :
    ∃ valAddr hash, H.valAddressFromBech32 msg.validator = some valAddr
      ∧ decodeHash msg.hash = .ok hash
      ∧ w' = { w with store :=
          { w.store with
            prevotes := w.store.prevotes.insert valAddr
              ⟨hash, H.valString valAddr, height⟩ } } := by
  obtain ⟨valAddr, hval, h⟩ := bind_eq_ok.mp h
  obtain ⟨_, -, h⟩ := bind_eq_ok.mp h
  obtain ⟨_, -, h⟩ := bind_eq_ok.mp h
  obtain ⟨hash, hhash, h⟩ := bind_eq_ok.mp h
  obtain rfl := Except.ok.inj h
  exact ⟨valAddr, hash, valAddress_eq_ok.mp hval, hhash, rfl⟩

lemma aggregateExchangeRatePrevote_eq_ok {K : Keepers σ} {H : Host} {height : ℕ} {w w' : World σ}
    {msg : MsgAggregateExchangeRatePrevote}
    (h : aggregateExchangeRatePrevote K H height w msg = .ok w') :
    ∃ prevotes, w' = { w with store := { w.store with prevotes := prevotes } } := by
  obtain ⟨_, _, -, -, rfl⟩ := aggregateExchangeRatePrevote_spec h
  exact ⟨_, rfl⟩

/-- An accepted vote: an authorised feeder opens the hash of the stored prevote, in the period after
it. The vote is what its text parses to, under the validator, and the prevote is dropped. -/
lemma aggregateExchangeRateVote_spec {K : Keepers σ} {H : Host} {height : ℕ} {w w' : World σ}
    {msg : MsgAggregateExchangeRateVote}
    (h : aggregateExchangeRateVote K H height w msg = .ok w') :
    ∃ valAddr feeder prevote tuples, H.valAddressFromBech32 msg.validator = some valAddr
      ∧ accAddress H msg.feeder "Invalid feeder address" = .ok feeder
      ∧ validateFeeder K H w feeder valAddr = .ok ()
      ∧ w.store.prevotes[valAddr]? = some prevote
      ∧ checkRevealPeriod height prevote.submitBlock w.store.params.votePeriod.toNat = .ok ()
      ∧ parseExchangeRateTuples H msg.exchangeRates = .ok tuples
      ∧ prevote.hash = aggregateVoteHash H msg.salt msg.exchangeRates valAddr
      ∧ w' = { w with store :=
          { w.store with
            votes := w.store.votes.insert valAddr ⟨tuples, H.valString valAddr⟩
            prevotes := w.store.prevotes.erase valAddr } } := by
  obtain ⟨valAddr, hval, h⟩ := bind_eq_ok.mp h
  obtain ⟨feeder, hfeeder, h⟩ := bind_eq_ok.mp h
  obtain ⟨_, hauth, h⟩ := bind_eq_ok.mp h
  cases hp : w.store.prevotes[valAddr]? with
  | none => simp [hp] at h
  | some prevote =>
      simp only [hp] at h
      obtain ⟨_, hperiod, h⟩ := bind_eq_ok.mp h
      obtain ⟨tuples, hparse, h⟩ := bind_eq_ok.mp h
      obtain ⟨_, -, h⟩ := bind_eq_ok.mp h
      obtain ⟨_, hhash, h⟩ := bind_eq_ok.mp h
      obtain rfl := Except.ok.inj h
      exact ⟨valAddr, feeder, prevote, tuples, valAddress_eq_ok.mp hval, hfeeder, hauth, hp,
        hperiod, hparse, not_not.mp (failIf_eq_ok.mp hhash), rfl⟩

/-- A vote stores what its text parses to, under the voter, and drops the prevote. -/
lemma aggregateExchangeRateVote_eq_ok {K : Keepers σ} {H : Host} {height : ℕ} {w w' : World σ}
    {msg : MsgAggregateExchangeRateVote}
    (h : aggregateExchangeRateVote K H height w msg = .ok w') :
    ∃ valAddr tuples, parseExchangeRateTuples H msg.exchangeRates = .ok tuples
      ∧ w' = { w with store :=
          { w.store with
            votes := w.store.votes.insert valAddr ⟨tuples, H.valString valAddr⟩
            prevotes := w.store.prevotes.erase valAddr } } := by
  obtain ⟨valAddr, _, _, tuples, -, -, -, -, -, hparse, -, rfl⟩ := aggregateExchangeRateVote_spec h
  exact ⟨valAddr, tuples, hparse, rfl⟩

/-- An accepted delegation: the delegate is stored for the operator. -/
lemma delegateFeedConsent_spec {K : Keepers σ} {H : Host} {w w' : World σ}
    {msg : MsgDelegateFeedConsent} (h : delegateFeedConsent K H w msg = .ok w') :
    ∃ operator delegate, H.valAddressFromBech32 msg.operator = some operator
      ∧ H.accAddressFromBech32 msg.delegate = some delegate
      ∧ w' = { w with store :=
          { w.store with
            feederDelegations := w.store.feederDelegations.insert operator delegate } } := by
  obtain ⟨operator, hoperator, h⟩ := bind_eq_ok.mp h
  obtain ⟨delegate, hdelegate, h⟩ := bind_eq_ok.mp h
  cases hv : K.validator w.ext operator with
  | none => simp [hv] at h
  | some v =>
      simp only [hv] at h
      obtain rfl := Except.ok.inj h
      exact ⟨operator, delegate, valAddress_eq_ok.mp hoperator, accAddress_eq_ok.mp hdelegate, rfl⟩

lemma delegateFeedConsent_eq_ok {K : Keepers σ} {H : Host} {w w' : World σ}
    {msg : MsgDelegateFeedConsent} (h : delegateFeedConsent K H w msg = .ok w') :
    ∃ feeders, w' = { w with store := { w.store with feederDelegations := feeders } } := by
  obtain ⟨_, _, -, -, rfl⟩ := delegateFeedConsent_spec h
  exact ⟨_, rfl⟩

/-! ### The invariant of the runs -/

/-- What every reachable store satisfies. -/
structure Store.Sound (H : Host) (s : Store) : Prop where
  params : s.params.validate = .ok ()
  votes : VotesAdmitted H s

/-- Every step keeps the parameters valid and the votes admitted. -/
lemma Store.Sound.step {K : Keepers σ} {H : Host} (hH : H.ParsesNonneg) {x y : ℕ × World σ}
    (hx : x.2.store.Sound H) (hstep : Step K H x y) : y.2.store.Sound H := by
  cases hstep with
  | prevote msg hbasic hrun =>
      obtain ⟨prevotes, rfl⟩ := aggregateExchangeRatePrevote_eq_ok hrun
      exact ⟨hx.params, hx.votes⟩
  | vote msg hbasic hrun =>
      obtain ⟨valAddr, tuples, hparse, rfl⟩ := aggregateExchangeRateVote_eq_ok hrun
      refine ⟨hx.params, fun a v hav => ?_⟩
      rw [getElem?_insert_ite] at hav
      split_ifs at hav with ha
      · obtain rfl := ha
        obtain rfl := Option.some.inj hav
        obtain ⟨hnodup, hparsed⟩ := parseExchangeRateTuples_eq_ok hparse
        refine ⟨rfl, hnodup, fun t ht => ⟨?_, validateBasic_rates hbasic hparse t ht⟩⟩
        obtain ⟨s, hs⟩ := hparsed t ht
        exact hH s _ _ hs
      · exact hx.votes a v hav
  | delegate msg hbasic hrun =>
      obtain ⟨feeders, rfl⟩ := delegateFeedConsent_eq_ok hrun
      exact ⟨hx.params, hx.votes⟩
  | params p hvalid => exact ⟨hvalid, hx.votes⟩
  | other ext => exact ⟨hx.params, hx.votes⟩
  | endBlock S hrun =>
      obtain ⟨hparams, hvotes⟩ := endBlocker_params_votes hrun
      refine ⟨hparams ▸ hx.params, ?_⟩
      rcases hvotes with hvotes | hvotes
      · intro a v hav
        exact hx.votes a v (hvotes ▸ hav)
      · intro a v hav
        simp [hvotes] at hav

/-- **Every reachable store is sound.** -/
theorem sound_of_reachable {K : Keepers σ} {H : Host} (hH : H.ParsesNonneg) {x : ℕ × World σ}
    (hx : Reachable K H x) : x.2.store.Sound H := by
  refine reachable_induction (fun x => x.2.store.Sound H) ?_ (fun _ _ h => h.step hH) hx
  rintro h w ⟨hparams, -, hvotes⟩
  refine ⟨hparams, fun a v hav => ?_⟩
  simp [hvotes] at hav

end ColumbusCore.Oracle
