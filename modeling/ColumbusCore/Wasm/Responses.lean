import ColumbusCore.Oracle.Proto

/-!
The responses to the queries that contracts may route to the modules, as bytes (`query.pb.go` of the
market, the treasury and the oracle).

* `Whitelisted`: the paths of the whitelist, and `Whitelisted.codec`, the generated code of their
  responses;
* `Whitelisted.overwrites`: **a response replaces whatever the object it is read into held**.
-/

namespace ColumbusCore.Wasm

open Go Wire
open Oracle (GoString tag_first_bytes tag_second_bytes)

/-! ### The responses -/

/-- The paths of `stargateWhitelist`. -/
inductive Whitelisted where
  | swap
  | taxCap
  | taxRate
  | exchangeRate
deriving DecidableEq

/-- `sdk.Coin` as a message. An amount that was not read is nil. -/
structure CoinMsg where
  denom : GoString
  amount : Option ℤ

/-- The response object of a path: a coin, or the number behind an `Int` or a `Dec`. -/
def Whitelisted.Response : Whitelisted → Type
  | .swap => CoinMsg
  | _ => Option ℤ

/-- A number of the SDK as bytes. A number within the limit of bits of its type is read as it was
written, whatever it replaces. -/
structure NumberText (bits : ℕ) where
  marshal : ℤ → Bytes
  unmarshal : Bytes → Option ℤ → Outcome (Option ℤ)
  unmarshal_marshal : ∀ (x : ℤ) (y : Option ℤ), x.natAbs < 2 ^ bits →
    unmarshal (marshal x) y = .ok (some x)

/-- The text of a number; that of zero where it is nil. -/
def NumberText.text {bits : ℕ} (N : NumberText bits) (x : Option ℤ) : Bytes := N.marshal (x.getD 0)

/-- `codec.Codec` and the number types, as far as the queries use them. -/
structure Cdc where
  /-- `sdk.Int`. -/
  int : NumberText decFormat.intBits
  /-- `sdk.Dec`. -/
  dec : NumberText decFormat.decBits
  marshalJSON : (w : Whitelisted) → w.Response → Outcome String
  /-- What an `Unmarshal` that fails leaves in the object it reads into: the fields before the one
  that fails are overwritten. -/
  leftover : (w : Whitelisted) → Bytes → w.Response → w.Response

/-- A message of one number. -/
def numberCodec {bits : ℕ} (N : NumberText bits) (name field : String) : Codec (Option ℤ) where
  message :=
    { name := name
      fields := fun
        | 1 => some (.bytes field fun b m => N.unmarshal b m)
        | _ => none }
  empty := none
  size m := bytesSize (N.text m).length
  write m w := writeBytes 0xa (N.text m) w

/-- `sdk.Coin`. -/
def coinCodec (cdc : Cdc) : Codec CoinMsg where
  message :=
    { name := "Coin"
      fields := fun
        | 1 => some (.bytes "Denom" fun b m => pure { m with denom := b })
        | 2 => some (.bytes "Amount" fun b m => do
            let x ← cdc.int.unmarshal b m.amount
            pure { m with amount := x })
        | _ => none }
  empty := ⟨[], none⟩
  size m := stringSize m.denom.length + bytesSize (cdc.int.text m.amount).length
  write m w := writeBytes 0x12 (cdc.int.text m.amount) w >>= fun w => writeString 0xa m.denom w

/-- `QuerySwapResponse`. The coin is read into the coin the object has. -/
def swapCodec (cdc : Cdc) : Codec CoinMsg where
  message :=
    { name := "QuerySwapResponse"
      fields := fun
        | 1 => some (.bytes "ReturnCoin" fun b m => (coinCodec cdc).message.unmarshal b m)
        | _ => none }
  empty := (coinCodec cdc).empty
  size m := bytesSize ((coinCodec cdc).size m)
  write m w := writeMessage 0xa ((coinCodec cdc).write m) w

/-- `QueryTaxCapResponse`. -/
def taxCapCodec (cdc : Cdc) : Codec (Option ℤ) := numberCodec cdc.int "QueryTaxCapResponse" "TaxCap"

/-- `QueryTaxRateResponse`. -/
def taxRateCodec (cdc : Cdc) : Codec (Option ℤ) :=
  numberCodec cdc.dec "QueryTaxRateResponse" "TaxRate"

/-- `QueryExchangeRateResponse`. -/
def exchangeRateCodec (cdc : Cdc) : Codec (Option ℤ) :=
  numberCodec cdc.dec "QueryExchangeRateResponse" "ExchangeRate"

/-- The generated code of the response of a path. -/
def Whitelisted.codec (cdc : Cdc) : (w : Whitelisted) → Codec w.Response
  | .swap => swapCodec cdc
  | .taxCap => taxCapCodec cdc
  | .taxRate => taxRateCodec cdc
  | .exchangeRate => exchangeRateCodec cdc

/-- A number that is set and within its limit of bits. -/
def ProperNumber (bits : ℕ) (x : Option ℤ) : Prop := ∃ y, x = some y ∧ y.natAbs < 2 ^ bits

/-- A response of a module: its numbers are set and fit, its coin has a denomination. -/
def Whitelisted.Proper (cdc : Cdc) : (w : Whitelisted) → w.Response → Prop
  | .swap, (m : CoinMsg) =>
      m.denom ≠ [] ∧ ProperNumber decFormat.intBits m.amount ∧ (swapCodec cdc).size m < 2 ^ 63
  | .taxCap, (m : Option ℤ) =>
      ProperNumber decFormat.intBits m ∧ (taxCapCodec cdc).size m < 2 ^ 63
  | .taxRate, (m : Option ℤ) =>
      ProperNumber decFormat.decBits m ∧ (taxRateCodec cdc).size m < 2 ^ 63
  | .exchangeRate, (m : Option ℤ) =>
      ProperNumber decFormat.decBits m ∧ (exchangeRateCodec cdc).size m < 2 ^ 63

/-! ### A response replaces what its object held -/

/-- The bytes of a message are those of fields that make the message out of any other. -/
structure Overwrites {σ : Type} (C : Codec σ) (m : σ) (bz : Bytes) : Prop where
  marshal_eq : C.marshal m = .ok bz
  unmarshal_eq : ∀ m', C.message.unmarshal bz m' = .ok m

lemma overwrites_of_fields {σ : Type} {C : Codec σ} {m : σ} {fields : List (ℕ × Value)}
    (hencodable : AllEncodable fields) (hwrites : Writes (C.write m) (encodeFields fields))
    (hsize : C.size m = (encodeFields fields).length) (hlt : C.size m < 2 ^ 63)
    (hread : ∀ m', fields.foldlM C.message.apply m' = .ok m) :
    Overwrites C m (encodeFields fields) where
  marshal_eq := marshal_of_writes hwrites hsize
  unmarshal_eq m' := by
    rw [Message.unmarshal_encodeFields _ hencodable (hsize ▸ hlt), hread]

section Overwrites

variable {cdc : Cdc}

lemma NumberText.unmarshal_text {bits : ℕ} {N : NumberText bits} {x : Option ℤ}
    (hx : ProperNumber bits x) (y : Option ℤ) : N.unmarshal (N.text x) y = .ok x := by
  obtain ⟨z, rfl, hfits⟩ := hx
  exact N.unmarshal_marshal z y hfits

lemma numberCodec_overwrites {bits : ℕ} {N : NumberText bits} {name field : String} {x : Option ℤ}
    (hx : ProperNumber bits x) (hlt : (numberCodec N name field).size x < 2 ^ 63) :
    Overwrites (numberCodec N name field) x (encodeFields (bytesField 1 (N.text x))) := by
  have hsum : bytesSize (N.text x).length < 2 ^ 63 := hlt
  have htext : (N.text x).length < 2 ^ 63 := by
    rw [bytesSize] at hsum
    omega
  refine overwrites_of_fields (allEncodable_bytesField (by norm_num) (by norm_num) htext)
    (writes_bytes tag_first_bytes (by omega)) ?_ hlt fun m' => ?_
  · rw [length_bytesField tag_first_bytes (by omega)]
    rfl
  · show (N.unmarshal (N.text x) m' >>= pure) = _
    rw [NumberText.unmarshal_text hx, ok_bind]
    rfl

/-- The fields a coin is written as. -/
def CoinMsg.fields (cdc : Cdc) (m : CoinMsg) : List (ℕ × Value) :=
  stringField 1 m.denom ++ bytesField 2 (cdc.int.text m.amount)

lemma coin_written {m : CoinMsg} (hsize : (coinCodec cdc).size m < 2 ^ 63) :
    AllEncodable (m.fields cdc) ∧ Writes ((coinCodec cdc).write m) (encodeFields (m.fields cdc))
      ∧ (coinCodec cdc).size m = (encodeFields (m.fields cdc)).length := by
  have hsum : stringSize m.denom.length + bytesSize (cdc.int.text m.amount).length < 2 ^ 63 := hsize
  have hdenom : m.denom.length < 2 ^ 63 := by
    have := le_stringSize m.denom.length
    omega
  have hamount : (cdc.int.text m.amount).length < 2 ^ 63 := by
    rw [bytesSize] at hsum
    omega
  refine ⟨?_, ?_, ?_⟩
  · rw [CoinMsg.fields, allEncodable_append]
    exact ⟨allEncodable_stringField (by norm_num) (by norm_num) hdenom,
      allEncodable_bytesField (by norm_num) (by norm_num) hamount⟩
  · rw [CoinMsg.fields, encodeFields_append]
    exact (writes_bytes tag_second_bytes (by omega)).bind (writes_string tag_first_bytes (by omega))
  · rw [CoinMsg.fields, encodeFields_append, List.length_append,
      length_stringField tag_first_bytes (by omega), length_bytesField tag_second_bytes (by omega)]
    rfl

/-- A coin with a denomination replaces both fields of the coin it is read into. -/
lemma coin_read {m : CoinMsg} (hdenom : m.denom ≠ [])
    (hamount : ProperNumber decFormat.intBits m.amount) (m' : CoinMsg) :
    (m.fields cdc).foldlM (coinCodec cdc).message.apply m' = .ok m := by
  have hfirst : (stringField 1 m.denom).foldlM (coinCodec cdc).message.apply m'
      = .ok ⟨m.denom, m'.amount⟩ := by
    rw [stringField, if_pos (List.length_pos_iff.mpr hdenom)]
    rfl
  rw [CoinMsg.fields, List.foldlM_append, hfirst, ok_bind]
  show ((cdc.int.unmarshal (cdc.int.text m.amount) m'.amount >>= fun x =>
    pure (⟨m.denom, x⟩ : CoinMsg)) >>= pure) = _
  rw [NumberText.unmarshal_text hamount, ok_bind]
  rfl

lemma swapCodec_overwrites {m : CoinMsg} (hdenom : m.denom ≠ [])
    (hamount : ProperNumber decFormat.intBits m.amount) (hlt : (swapCodec cdc).size m < 2 ^ 63) :
    Overwrites (swapCodec cdc) m (encodeFields (bytesField 1 (encodeFields (m.fields cdc)))) := by
  have hsum : bytesSize ((coinCodec cdc).size m) < 2 ^ 63 := hlt
  have hcoin : (coinCodec cdc).size m < 2 ^ 63 := by
    rw [bytesSize] at hsum
    omega
  obtain ⟨hencodable, hwrites, hsize⟩ := coin_written hcoin
  have hlength : (encodeFields (m.fields cdc)).length < 2 ^ 63 := hsize ▸ hcoin
  refine overwrites_of_fields (allEncodable_bytesField (by norm_num) (by norm_num) hlength) ?_ ?_ hlt
    fun m' => ?_
  · exact writes_message tag_first_bytes (by omega) hwrites
  · rw [length_bytesField tag_first_bytes (by omega), ← hsize]
    rfl
  · show ((coinCodec cdc).message.unmarshal (encodeFields (m.fields cdc)) m' >>= pure) = _
    rw [Message.unmarshal_encodeFields _ hencodable hlength, coin_read hdenom hamount]
    rfl

/-- **A response replaces whatever its object held**, leftovers of a query that failed included. -/
theorem Whitelisted.overwrites (w : Whitelisted) {m : w.Response} (hm : w.Proper cdc m) :
    ∃ bz, Overwrites (w.codec cdc) m bz := by
  cases w with
  | swap => exact ⟨_, swapCodec_overwrites hm.1 hm.2.1 hm.2.2⟩
  | taxCap => exact ⟨_, numberCodec_overwrites hm.1 hm.2⟩
  | taxRate => exact ⟨_, numberCodec_overwrites hm.1 hm.2⟩
  | exchangeRate => exact ⟨_, numberCodec_overwrites hm.1 hm.2⟩

end Overwrites

end ColumbusCore.Wasm
