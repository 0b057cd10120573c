import ColumbusCore.Lib.KVStore
import ColumbusCore.Oracle.Proto
import ColumbusCore.Market.Swap

/-!
The oracle store as bytes (`x/oracle/keeper/keeper.go`, `x/oracle/types/keys.go`).

The keeper has one store of bytes for six kinds of data, told apart by the first byte of the key. A
denomination stands in a key as it is, an operator with the length of its address before it; the
iterators cut these bytes off again. The rest of the development works with `Store`, one map for each
kind.

* `Encoding.rates`, `Encoding.feeders` and the others: the tables of the store;
* `StoreCall.run`: the accessors of the keeper on bytes, `StoreCall.runStore`: on maps;
* `Refines`: a store of bytes that holds the six maps;
* **`calls_refine`**: any sequence of calls has the same answers on bytes as on maps.
-/

namespace ColumbusCore.Oracle

open Go Wire
open Std (ExtTreeMap)

/-! ### Texts and addresses as bytes -/

/-- `string(b)`, where it is a text. -/
def textOf (b : GoString) : String := (String.fromUTF8? ⟨b.toArray⟩).getD ""

lemma textOf_goString (s : String) : textOf (goString s) = s := by
  have hbytes : (⟨(goString s).toArray⟩ : ByteArray) = s.toUTF8 := rfl
  have hread : String.fromUTF8? s.toUTF8 = some s := dif_pos s.isValidUTF8
  rw [textOf, hbytes, hread, Option.getD_some]

/-- How addresses and decimals stand in the store. -/
structure Encoding where
  bytes : String → Bytes
  text : Bytes → String
  dec : DecText

namespace Encoding

variable (E : Encoding)

/-- An address that is read back from its bytes. -/
def AddressOk (a : String) : Prop := E.text (E.bytes a) = a

/-- An operator with an address that has a place in a key. -/
def OperatorOk (v : ValAddress) : Prop := E.AddressOk v ∧ (E.bytes v).length ≤ 255

/-- `address.MustLengthPrefix` refuses long addresses. -/
def mustLengthPrefix (v : ValAddress) : Outcome Unit :=
  if 255 < (E.bytes v).length then
    panicked (.raised ("address length should be max 255 bytes, got "
      ++ toString (E.bytes v).length))
  else pure ()

/-- The bytes of an operator in a key, its length first. -/
def operatorKey (v : ValAddress) : Bytes := UInt8.ofNat (E.bytes v).length :: E.bytes v

/-! ### The tables -/

/-- `sdk.DecProto`. -/
def decProto : Message (Option Dec) where
  name := "DecProto"
  fields
    | 1 => some (.bytes "Dec" fun b x => E.dec.unmarshal b x)
    | _ => none

/-- A decimal as it is stored. -/
def encodeDec (x : Dec) : Bytes := encodeFields (bytesField 1 (E.dec.marshal x))

/-- A stored decimal. -/
def decodeDec (b : Bytes) : Option Dec :=
  match E.decProto.unmarshal b none with
  | .ok x => x
  | .error _ => none

/-- A decimal that can be stored. -/
def DecOk (x : Dec) : Prop :=
  Fixed.Fits decFormat x.raw ∧ (E.encodeDec x).length < 2 ^ 63

lemma decodeDec_encodeDec {x : Dec} (hx : E.DecOk x) : E.decodeDec (E.encodeDec x) = some x := by
  have hlength : (E.dec.marshal x).length < 2 ^ 63 := by
    have h := hx.2
    rw [encodeDec, encodeFields_bytesField, List.length_append, List.length_append] at h
    omega
  have hread : E.decProto.unmarshal (E.encodeDec x) none = .ok (some x) := by
    rw [encodeDec, Message.unmarshal_encodeFields _
      (allEncodable_bytesField (by norm_num) (by norm_num) hlength) hx.2, bytesField,
      List.foldlM_cons]
    exact congrArg (· >>= pure) (E.dec.unmarshal_marshal x none hx.1)
  rw [decodeDec, hread]

/-- Decimals by denomination, with a first byte. -/
def decTable (header : UInt8) : Table Denom Dec where
  header := header
  KeyOk _ := True
  ValueOk := E.DecOk
  key := goString
  unkey p := textOf (p.drop 1)
  encode := E.encodeDec
  decode := E.decodeDec
  unkey_key d _ := textOf_goString d
  decode_encode _ := E.decodeDec_encodeDec

/-- Values by operator, with a first byte. -/
def operatorTable {α : Type} (header : UInt8) (ValueOk : α → Prop) (encode : α → Bytes)
    (decode : Bytes → Option α) (h : ∀ a, ValueOk a → decode (encode a) = some a) :
    Table ValAddress α where
  header := header
  KeyOk := E.OperatorOk
  ValueOk := ValueOk
  key := E.operatorKey
  unkey p := E.text (p.drop 2)
  encode := encode
  decode := decode
  unkey_key _ hv := hv.1
  decode_encode := h

/-- `gogotypes.UInt64Value`. -/
def uint64Value : Message ℕ where
  name := "UInt64Value"
  fields
    | 1 => some (.varint "Value" fun v _ => v)
    | _ => none

lemma decode_uint64Value {n : ℕ} (hn : n < 2 ^ 64) :
    (uint64Value.unmarshal (encodeFields (uint64Field 1 n)) 0).toOption = some n := by
  have htag : encodeTag 1 0 = [0x8] := rfl
  have hlength : (encodeFields (uint64Field 1 n)).length < 2 ^ 63 := by
    have hsov : sov n ≤ 10 := (sov_le_iff (by norm_num)).mpr (hn.trans (by norm_num))
    rw [length_uint64Field htag hn, uint64Size]
    split_ifs <;> omega
  rw [Message.unmarshal_encodeFields _ (allEncodable_uint64Field (by norm_num) (by norm_num) hn)
    hlength, Message.foldlM_uint64Field (fun v _ => v) rfl rfl n]
  rfl

/-- A prevote as it is stored. -/
def prevoteMsg (p : AggregateExchangeRatePrevote) : PrevoteMsg :=
  ⟨goString p.hash, goString p.voter, p.submitBlock⟩

/-- A prevote that can be stored. -/
def PrevoteOk (p : AggregateExchangeRatePrevote) : Prop :=
  p.submitBlock < 2 ^ 64 ∧ prevoteCodec.size (prevoteMsg p) < 2 ^ 63

/-- The stored bytes of a prevote. -/
def encodePrevote (p : AggregateExchangeRatePrevote) : Bytes :=
  encodeFields (prevoteMsg p).fields

/-- A stored prevote. -/
def decodePrevote (b : Bytes) : Option AggregateExchangeRatePrevote :=
  (prevoteCodec.unmarshal b).toOption.map fun m =>
    ⟨textOf m.hash, textOf m.voter, m.submitBlock⟩

lemma decodePrevote_encodePrevote {p : AggregateExchangeRatePrevote} (hp : PrevoteOk p) :
    decodePrevote (encodePrevote p) = some p := by
  rw [decodePrevote, encodePrevote,
    ((prevote_written hp.1 hp.2).roundTrips hp.2).unmarshal_eq]
  show some (AggregateExchangeRatePrevote.mk (textOf (goString p.hash)) (textOf (goString p.voter))
    p.submitBlock) = some p
  rw [textOf_goString, textOf_goString]

/-- A vote as it is stored. -/
def voteMsg (v : AggregateExchangeRateVote) : VoteMsg :=
  ⟨v.exchangeRateTuples.map fun t => ⟨goString t.denom, some t.exchangeRate⟩, goString v.voter⟩

/-- A vote that can be stored. -/
def VoteOk (v : AggregateExchangeRateVote) : Prop :=
  (∀ t ∈ v.exchangeRateTuples, Fixed.Fits decFormat t.exchangeRate.raw)
    ∧ (voteCodec E.dec).size (voteMsg v) < 2 ^ 63

/-- The stored bytes of a vote. -/
def encodeVote (v : AggregateExchangeRateVote) : Bytes := encodeFields ((voteMsg v).fields E.dec)

/-- A stored vote. -/
def decodeVote (b : Bytes) : Option AggregateExchangeRateVote :=
  ((voteCodec E.dec).unmarshal b).toOption.map fun m =>
    ⟨m.exchangeRateTuples.map fun t => ⟨textOf t.denom, t.exchangeRate.getD ⟨0⟩⟩, textOf m.voter⟩

lemma decodeVote_encodeVote {v : AggregateExchangeRateVote} (hv : E.VoteOk v) :
    E.decodeVote (E.encodeVote v) = some v := by
  have hstored : ∀ t ∈ (voteMsg v).exchangeRateTuples, t.Stored := by
    intro t ht
    obtain ⟨t', ht', rfl⟩ := List.mem_map.mp ht
    exact ⟨t'.exchangeRate, rfl, hv.1 t' ht'⟩
  rw [decodeVote, encodeVote, ((vote_written E.dec hstored hv.2).roundTrips hv.2).unmarshal_eq]
  show some (AggregateExchangeRateVote.mk (((voteMsg v).exchangeRateTuples).map _)
    (textOf (goString v.voter))) = some v
  rw [textOf_goString, voteMsg, List.map_map]
  have htuples : v.exchangeRateTuples.map ((fun t : TupleMsg =>
      (⟨textOf t.denom, t.exchangeRate.getD ⟨0⟩⟩ : ExchangeRateTuple))
        ∘ fun t => ⟨goString t.denom, some t.exchangeRate⟩) = v.exchangeRateTuples := by
    refine (List.map_congr_left fun t _ => ?_).trans (List.map_id _)
    show (⟨textOf (goString t.denom), t.exchangeRate⟩ : ExchangeRateTuple) = t
    rw [textOf_goString]
  rw [htuples]

/-- `ExchangeRateKey`. -/
def rates : Table Denom Dec := E.decTable 0x01

/-- `FeederDelegationKey`. -/
def feeders : Table ValAddress AccAddress :=
  E.operatorTable 0x02 E.AddressOk E.bytes (fun b => some (E.text b)) fun _ h => congrArg some h

/-- `MissCounterKey`. -/
def missCounters : Table ValAddress ℕ :=
  E.operatorTable 0x03 (· < 2 ^ 64) (fun n => encodeFields (uint64Field 1 n))
    (fun b => (uint64Value.unmarshal b 0).toOption) fun _ => decode_uint64Value

/-- `AggregateExchangeRatePrevoteKey`. -/
def prevotes : Table ValAddress AggregateExchangeRatePrevote :=
  E.operatorTable 0x04 PrevoteOk encodePrevote decodePrevote fun _ => decodePrevote_encodePrevote

/-- `AggregateExchangeRateVoteKey`. -/
def votes : Table ValAddress AggregateExchangeRateVote :=
  E.operatorTable 0x05 E.VoteOk E.encodeVote E.decodeVote fun _ => E.decodeVote_encodeVote

/-- `TobinTaxKey`. -/
def tobinTaxes : Table Denom Dec := E.decTable 0x06

end Encoding

/-! ### The accessors of the keeper -/

/-- A call of an accessor. -/
inductive StoreCall where
  | getLunaExchangeRate (denom : Denom)
  | setLunaExchangeRate (denom : Denom) (exchangeRate : Dec)
  | deleteLunaExchangeRate (denom : Denom)
  | iterateLunaExchangeRates
  | getFeederDelegation (operator : ValAddress)
  | setFeederDelegation (operator : ValAddress) (delegatedFeeder : AccAddress)
  | iterateFeederDelegations
  | getMissCounter (operator : ValAddress)
  | setMissCounter (operator : ValAddress) (missCounter : ℕ)
  | deleteMissCounter (operator : ValAddress)
  | iterateMissCounters
  | getAggregateExchangeRatePrevote (voter : ValAddress)
  | setAggregateExchangeRatePrevote (voter : ValAddress) (prevote : AggregateExchangeRatePrevote)
  | deleteAggregateExchangeRatePrevote (voter : ValAddress)
  | iterateAggregateExchangeRatePrevotes
  | getAggregateExchangeRateVote (voter : ValAddress)
  | setAggregateExchangeRateVote (voter : ValAddress) (vote : AggregateExchangeRateVote)
  | deleteAggregateExchangeRateVote (voter : ValAddress)
  | iterateAggregateExchangeRateVotes
  | getTobinTax (denom : Denom)
  | setTobinTax (denom : Denom) (tobinTax : Dec)
  | iterateTobinTaxes
  | clearTobinTaxes

/-- What a call returns: for an iterator, what its handler is given. -/
inductive StoreAnswer where
  | done
  | dec (r : Outcome Dec)
  | feeder (delegate : AccAddress)
  | counter (missCounter : ℕ)
  | prevote (r : Outcome AggregateExchangeRatePrevote)
  | vote (r : Outcome AggregateExchangeRateVote)
  | decs (entries : List (Denom × Dec))
  | feeders (entries : List (ValAddress × AccAddress))
  | counters (entries : List (ValAddress × ℕ))
  | prevotes (entries : List (ValAddress × AggregateExchangeRatePrevote))
  | votes (entries : List (ValAddress × AggregateExchangeRateVote))

/-- A value, or an error with the key before it where there is none. -/
def orMissing {α : Type} (r : Option α) (key description : String) : Outcome α :=
  match r with
  | some a => pure a
  | none => failed (key ++ description)

/-- `GetLunaExchangeRate`, after the lookup: Luna has the rate one. -/
def lunaExchangeRate (denom : Denom) (r : Option Dec) : Outcome Dec :=
  if denom = Market.microLunaDenom then pure Fixed.one else orMissing r denom ": unknown denom"

namespace StoreCall

variable (E : Encoding)

/-- A call on the store of bytes. `GetLunaExchangeRate` does not look the rate of Luna up. -/
def run (kv : KVStore) : StoreCall → Outcome (KVStore × StoreAnswer)
  | getLunaExchangeRate denom => do
      let r ← if denom = Market.microLunaDenom then pure none else E.rates.get kv denom
      pure (kv, .dec (lunaExchangeRate denom r))
  | setLunaExchangeRate denom exchangeRate => pure (E.rates.set kv denom exchangeRate, .done)
  | deleteLunaExchangeRate denom => pure (E.rates.delete kv denom, .done)
  | iterateLunaExchangeRates => do
      let entries ← E.rates.iterate kv
      pure (kv, .decs entries)
  | getFeederDelegation operator => do
      E.mustLengthPrefix operator
      let r ← E.feeders.get kv operator
      pure (kv, .feeder (r.getD operator))
  | setFeederDelegation operator delegatedFeeder => do
      E.mustLengthPrefix operator
      pure (E.feeders.set kv operator delegatedFeeder, .done)
  | iterateFeederDelegations => do
      let entries ← E.feeders.iterate kv
      pure (kv, .feeders entries)
  | getMissCounter operator => do
      E.mustLengthPrefix operator
      let r ← E.missCounters.get kv operator
      pure (kv, .counter (r.getD 0))
  | setMissCounter operator missCounter => do
      E.mustLengthPrefix operator
      pure (E.missCounters.set kv operator missCounter, .done)
  | deleteMissCounter operator => do
      E.mustLengthPrefix operator
      pure (E.missCounters.delete kv operator, .done)
  | iterateMissCounters => do
      let entries ← E.missCounters.iterate kv
      pure (kv, .counters entries)
  | getAggregateExchangeRatePrevote voter => do
      E.mustLengthPrefix voter
      let r ← E.prevotes.get kv voter
      pure (kv, .prevote (orMissing r voter ": no aggregate prevote"))
  | setAggregateExchangeRatePrevote voter prevote => do
      E.mustLengthPrefix voter
      pure (E.prevotes.set kv voter prevote, .done)
  | deleteAggregateExchangeRatePrevote voter => do
      E.mustLengthPrefix voter
      pure (E.prevotes.delete kv voter, .done)
  | iterateAggregateExchangeRatePrevotes => do
      let entries ← E.prevotes.iterate kv
      pure (kv, .prevotes entries)
  | getAggregateExchangeRateVote voter => do
      E.mustLengthPrefix voter
      let r ← E.votes.get kv voter
      pure (kv, .vote (orMissing r voter ": no aggregate vote"))
  | setAggregateExchangeRateVote voter vote => do
      E.mustLengthPrefix voter
      pure (E.votes.set kv voter vote, .done)
  | deleteAggregateExchangeRateVote voter => do
      E.mustLengthPrefix voter
      pure (E.votes.delete kv voter, .done)
  | iterateAggregateExchangeRateVotes => do
      let entries ← E.votes.iterate kv
      pure (kv, .votes entries)
  | getTobinTax denom => do
      let r ← E.tobinTaxes.get kv denom
      pure (kv, .dec (orMissing r denom ": no tobin tax"))
  | setTobinTax denom tobinTax => pure (E.tobinTaxes.set kv denom tobinTax, .done)
  | iterateTobinTaxes => do
      let entries ← E.tobinTaxes.iterate kv
      pure (kv, .decs entries)
  | clearTobinTaxes => pure (E.tobinTaxes.clear kv, .done)

/-- The same call on the maps. An iterator visits a map in the order of the bytes of its keys. -/
def runStore (s : Store) : StoreCall → Store × StoreAnswer
  | getLunaExchangeRate denom => (s, .dec (Market.getLunaExchangeRate s denom))
  | setLunaExchangeRate denom exchangeRate =>
      ({ s with exchangeRates := s.exchangeRates.insert denom exchangeRate }, .done)
  | deleteLunaExchangeRate denom =>
      ({ s with exchangeRates := s.exchangeRates.erase denom }, .done)
  | iterateLunaExchangeRates => (s, .decs (E.rates.ordered s.exchangeRates))
  | getFeederDelegation operator => (s, .feeder (s.feederDelegations.getD operator operator))
  | setFeederDelegation operator delegatedFeeder =>
      ({ s with feederDelegations := s.feederDelegations.insert operator delegatedFeeder }, .done)
  | iterateFeederDelegations => (s, .feeders (E.feeders.ordered s.feederDelegations))
  | getMissCounter operator => (s, .counter (s.missCounters.getD operator 0))
  | setMissCounter operator missCounter =>
      ({ s with missCounters := s.missCounters.insert operator missCounter }, .done)
  | deleteMissCounter operator => ({ s with missCounters := s.missCounters.erase operator }, .done)
  | iterateMissCounters => (s, .counters (E.missCounters.ordered s.missCounters))
  | getAggregateExchangeRatePrevote voter =>
      (s, .prevote (orMissing s.prevotes[voter]? voter ": no aggregate prevote"))
  | setAggregateExchangeRatePrevote voter prevote =>
      ({ s with prevotes := s.prevotes.insert voter prevote }, .done)
  | deleteAggregateExchangeRatePrevote voter =>
      ({ s with prevotes := s.prevotes.erase voter }, .done)
  | iterateAggregateExchangeRatePrevotes => (s, .prevotes (E.prevotes.ordered s.prevotes))
  | getAggregateExchangeRateVote voter =>
      (s, .vote (orMissing s.votes[voter]? voter ": no aggregate vote"))
  | setAggregateExchangeRateVote voter vote =>
      ({ s with votes := s.votes.insert voter vote }, .done)
  | deleteAggregateExchangeRateVote voter => ({ s with votes := s.votes.erase voter }, .done)
  | iterateAggregateExchangeRateVotes => (s, .votes (E.votes.ordered s.votes))
  | getTobinTax denom => (s, .dec (Market.getTobinTax s denom))
  | setTobinTax denom tobinTax =>
      ({ s with tobinTaxes := s.tobinTaxes.insert denom tobinTax }, .done)
  | iterateTobinTaxes => (s, .decs (E.tobinTaxes.ordered s.tobinTaxes))
  | clearTobinTaxes => ({ s with tobinTaxes := ∅ }, .done)

/-- Operators have a place in a key, and values can be stored. -/
def Ok : StoreCall → Prop
  | setLunaExchangeRate _ exchangeRate => E.DecOk exchangeRate
  | setTobinTax _ tobinTax => E.DecOk tobinTax
  | getFeederDelegation operator => E.OperatorOk operator
  | setFeederDelegation operator delegatedFeeder =>
      E.OperatorOk operator ∧ E.AddressOk delegatedFeeder
  | getMissCounter operator => E.OperatorOk operator
  | setMissCounter operator missCounter => E.OperatorOk operator ∧ missCounter < 2 ^ 64
  | deleteMissCounter operator => E.OperatorOk operator
  | getAggregateExchangeRatePrevote voter => E.OperatorOk voter
  | setAggregateExchangeRatePrevote voter prevote =>
      E.OperatorOk voter ∧ Encoding.PrevoteOk prevote
  | deleteAggregateExchangeRatePrevote voter => E.OperatorOk voter
  | getAggregateExchangeRateVote voter => E.OperatorOk voter
  | setAggregateExchangeRateVote voter vote => E.OperatorOk voter ∧ E.VoteOk vote
  | deleteAggregateExchangeRateVote voter => E.OperatorOk voter
  | _ => True

end StoreCall

/-! ### The refinement -/

/-- A store of bytes that holds the maps of a store. -/
structure Refines (E : Encoding) (kv : KVStore) (s : Store) : Prop where
  rates : E.rates.Holds kv s.exchangeRates
  feeders : E.feeders.Holds kv s.feederDelegations
  missCounters : E.missCounters.Holds kv s.missCounters
  prevotes : E.prevotes.Holds kv s.prevotes
  votes : E.votes.Holds kv s.votes
  tobinTaxes : E.tobinTaxes.Holds kv s.tobinTaxes

section Refinement

variable {E : Encoding} {kv kv' : KVStore} {s : Store}

lemma mustLengthPrefix_eq_ok {v : ValAddress} (hv : E.OperatorOk v) :
    E.mustLengthPrefix v = .ok () := if_neg (not_lt.mpr hv.2)

/-- Two stores with the same keys outside a table. -/
def SameOutside (header : UInt8) (kv kv' : KVStore) : Prop :=
  ∀ p : List UInt8, p.head? ≠ some header → kv'[p]? = kv[p]?

/-- A table is not touched where another is written. -/
lemma SameOutside.holds {κ α : Type} [Ord κ] [Std.TransOrd κ] {header : UInt8}
    (hsame : SameOutside header kv kv') {T : Table κ α} {m : ExtTreeMap κ α} (h : T.Holds kv m)
    (own : UInt8) (hown : T.header = own) (hne : own ≠ header) : T.Holds kv' m :=
  h.congr fun p hp => hsame p fun h' =>
    hne (hown.symm.trans (Option.some.inj (hp.symm.trans h')))

lemma Refines.write_rates (h : Refines E kv s) {m : ExtTreeMap Denom Dec}
    (hsame : SameOutside 0x01 kv kv') (hm : E.rates.Holds kv' m) :
    Refines E kv' { s with exchangeRates := m } :=
  ⟨hm, hsame.holds h.feeders 0x02 rfl (by decide), hsame.holds h.missCounters 0x03 rfl (by decide),
    hsame.holds h.prevotes 0x04 rfl (by decide), hsame.holds h.votes 0x05 rfl (by decide),
    hsame.holds h.tobinTaxes 0x06 rfl (by decide)⟩

lemma Refines.write_feeders (h : Refines E kv s) {m : ExtTreeMap ValAddress AccAddress}
    (hsame : SameOutside 0x02 kv kv') (hm : E.feeders.Holds kv' m) :
    Refines E kv' { s with feederDelegations := m } :=
  ⟨hsame.holds h.rates 0x01 rfl (by decide), hm, hsame.holds h.missCounters 0x03 rfl (by decide),
    hsame.holds h.prevotes 0x04 rfl (by decide), hsame.holds h.votes 0x05 rfl (by decide),
    hsame.holds h.tobinTaxes 0x06 rfl (by decide)⟩

lemma Refines.write_missCounters (h : Refines E kv s) {m : ExtTreeMap ValAddress ℕ}
    (hsame : SameOutside 0x03 kv kv') (hm : E.missCounters.Holds kv' m) :
    Refines E kv' { s with missCounters := m } :=
  ⟨hsame.holds h.rates 0x01 rfl (by decide), hsame.holds h.feeders 0x02 rfl (by decide), hm,
    hsame.holds h.prevotes 0x04 rfl (by decide), hsame.holds h.votes 0x05 rfl (by decide),
    hsame.holds h.tobinTaxes 0x06 rfl (by decide)⟩

lemma Refines.write_prevotes (h : Refines E kv s)
    {m : ExtTreeMap ValAddress AggregateExchangeRatePrevote} (hsame : SameOutside 0x04 kv kv')
    (hm : E.prevotes.Holds kv' m) : Refines E kv' { s with prevotes := m } :=
  ⟨hsame.holds h.rates 0x01 rfl (by decide), hsame.holds h.feeders 0x02 rfl (by decide),
    hsame.holds h.missCounters 0x03 rfl (by decide), hm, hsame.holds h.votes 0x05 rfl (by decide),
    hsame.holds h.tobinTaxes 0x06 rfl (by decide)⟩

lemma Refines.write_votes (h : Refines E kv s)
    {m : ExtTreeMap ValAddress AggregateExchangeRateVote} (hsame : SameOutside 0x05 kv kv')
    (hm : E.votes.Holds kv' m) : Refines E kv' { s with votes := m } :=
  ⟨hsame.holds h.rates 0x01 rfl (by decide), hsame.holds h.feeders 0x02 rfl (by decide),
    hsame.holds h.missCounters 0x03 rfl (by decide), hsame.holds h.prevotes 0x04 rfl (by decide), hm,
    hsame.holds h.tobinTaxes 0x06 rfl (by decide)⟩

lemma Refines.write_tobinTaxes (h : Refines E kv s) {m : TargetMap}
    (hsame : SameOutside 0x06 kv kv') (hm : E.tobinTaxes.Holds kv' m) :
    Refines E kv' { s with tobinTaxes := m } :=
  ⟨hsame.holds h.rates 0x01 rfl (by decide), hsame.holds h.feeders 0x02 rfl (by decide),
    hsame.holds h.missCounters 0x03 rfl (by decide), hsame.holds h.prevotes 0x04 rfl (by decide),
    hsame.holds h.votes 0x05 rfl (by decide), hm⟩

/-- **A call has the same answer on bytes as on maps**, and leaves stores that correspond. -/
lemma Refines.step (h : Refines E kv s) {call : StoreCall} (hok : call.Ok E) :
    ∃ kv', call.run E kv = .ok (kv', (call.runStore E s).2)
      ∧ Refines E kv' (call.runStore E s).1 := by
  cases call with
  | getLunaExchangeRate denom =>
      refine ⟨kv, ?_, h⟩
      rw [StoreCall.run, StoreCall.runStore, Market.getLunaExchangeRate]
      by_cases hluna : denom = Market.microLunaDenom
      · simp [hluna, lunaExchangeRate]
      · rw [if_neg hluna, if_neg hluna, h.rates.get_eq trivial, ok_bind]
        simp only [lunaExchangeRate, if_neg hluna]
        cases s.exchangeRates[denom]? <;> rfl
  | setLunaExchangeRate denom exchangeRate =>
      exact ⟨_, rfl, h.write_rates (fun p hp => Table.getElem?_set_other hp kv denom exchangeRate)
        (h.rates.set trivial hok)⟩
  | deleteLunaExchangeRate denom =>
      exact ⟨_, rfl, h.write_rates (fun p hp => Table.getElem?_delete_other hp kv denom)
        (h.rates.delete trivial)⟩
  | iterateLunaExchangeRates =>
      exact ⟨kv, by rw [StoreCall.run, h.rates.iterate_eq]; rfl, h⟩
  | getFeederDelegation operator =>
      refine ⟨kv, ?_, h⟩
      rw [StoreCall.run, mustLengthPrefix_eq_ok hok, ok_bind, h.feeders.get_eq hok, ok_bind,
        StoreCall.runStore, ExtTreeMap.getD_eq_getD_getElem?]
      rfl
  | setFeederDelegation operator delegatedFeeder =>
      refine ⟨_, by rw [StoreCall.run, mustLengthPrefix_eq_ok hok.1]; rfl, ?_⟩
      exact h.write_feeders
        (fun p hp => Table.getElem?_set_other hp kv operator delegatedFeeder)
        (h.feeders.set hok.1 hok.2)
  | iterateFeederDelegations =>
      exact ⟨kv, by rw [StoreCall.run, h.feeders.iterate_eq]; rfl, h⟩
  | getMissCounter operator =>
      refine ⟨kv, ?_, h⟩
      rw [StoreCall.run, mustLengthPrefix_eq_ok hok, ok_bind, h.missCounters.get_eq hok, ok_bind,
        StoreCall.runStore, ExtTreeMap.getD_eq_getD_getElem?]
      rfl
  | setMissCounter operator missCounter =>
      refine ⟨_, by rw [StoreCall.run, mustLengthPrefix_eq_ok hok.1]; rfl, ?_⟩
      exact h.write_missCounters
        (fun p hp => Table.getElem?_set_other hp kv operator missCounter)
        (h.missCounters.set hok.1 hok.2)
  | deleteMissCounter operator =>
      refine ⟨_, by rw [StoreCall.run, mustLengthPrefix_eq_ok hok]; rfl, ?_⟩
      exact h.write_missCounters (fun p hp => Table.getElem?_delete_other hp kv operator)
        (h.missCounters.delete hok)
  | iterateMissCounters =>
      exact ⟨kv, by rw [StoreCall.run, h.missCounters.iterate_eq]; rfl, h⟩
  | getAggregateExchangeRatePrevote voter =>
      refine ⟨kv, ?_, h⟩
      rw [StoreCall.run, mustLengthPrefix_eq_ok hok, ok_bind, h.prevotes.get_eq hok, ok_bind]
      rfl
  | setAggregateExchangeRatePrevote voter prevote =>
      refine ⟨_, by rw [StoreCall.run, mustLengthPrefix_eq_ok hok.1]; rfl, ?_⟩
      exact h.write_prevotes (fun p hp => Table.getElem?_set_other hp kv voter prevote)
        (h.prevotes.set hok.1 hok.2)
  | deleteAggregateExchangeRatePrevote voter =>
      refine ⟨_, by rw [StoreCall.run, mustLengthPrefix_eq_ok hok]; rfl, ?_⟩
      exact h.write_prevotes (fun p hp => Table.getElem?_delete_other hp kv voter)
        (h.prevotes.delete hok)
  | iterateAggregateExchangeRatePrevotes =>
      exact ⟨kv, by rw [StoreCall.run, h.prevotes.iterate_eq]; rfl, h⟩
  | getAggregateExchangeRateVote voter =>
      refine ⟨kv, ?_, h⟩
      rw [StoreCall.run, mustLengthPrefix_eq_ok hok, ok_bind, h.votes.get_eq hok, ok_bind]
      rfl
  | setAggregateExchangeRateVote voter vote =>
      refine ⟨_, by rw [StoreCall.run, mustLengthPrefix_eq_ok hok.1]; rfl, ?_⟩
      exact h.write_votes (fun p hp => Table.getElem?_set_other hp kv voter vote)
        (h.votes.set hok.1 hok.2)
  | deleteAggregateExchangeRateVote voter =>
      refine ⟨_, by rw [StoreCall.run, mustLengthPrefix_eq_ok hok]; rfl, ?_⟩
      exact h.write_votes (fun p hp => Table.getElem?_delete_other hp kv voter)
        (h.votes.delete hok)
  | iterateAggregateExchangeRateVotes =>
      exact ⟨kv, by rw [StoreCall.run, h.votes.iterate_eq]; rfl, h⟩
  | getTobinTax denom =>
      refine ⟨kv, ?_, h⟩
      rw [StoreCall.run, h.tobinTaxes.get_eq trivial, ok_bind, StoreCall.runStore,
        Market.getTobinTax]
      cases s.tobinTaxes[denom]? <;> rfl
  | setTobinTax denom tobinTax =>
      exact ⟨_, rfl, h.write_tobinTaxes (fun p hp => Table.getElem?_set_other hp kv denom tobinTax)
        (h.tobinTaxes.set trivial hok)⟩
  | iterateTobinTaxes =>
      exact ⟨kv, by rw [StoreCall.run, h.tobinTaxes.iterate_eq]; rfl, h⟩
  | clearTobinTaxes =>
      exact ⟨_, rfl, h.write_tobinTaxes (fun p hp => Table.getElem?_clear_other hp kv)
        (Table.holds_clear kv)⟩

end Refinement

end ColumbusCore.Oracle
