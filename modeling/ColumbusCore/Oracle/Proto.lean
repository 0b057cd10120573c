import ColumbusCore.Lib.Wire
import ColumbusCore.Oracle.Types

/-!
Votes and prevotes as bytes (`x/oracle/types/oracle.pb.go`).

The store keeps a prevote and a vote in the wire format of protocol buffers. `Marshal` computes the
size of the message and fills a buffer of that size from its end; `Unmarshal` reads fields in any
order, and skips those it does not know.

* `prevoteCodec`, `voteCodec`, `tupleCodec`: the generated code of the three messages;
* **`stored_roundTrips`**: every vote and every prevote is marshalled into exactly the bytes of its
  computed size, and read back from them and from any message that has further fields;
* `bigIntText`: the text a decimal is stored as.
-/

namespace ColumbusCore.Oracle

open Go Wire

/-- `sdk.Dec` as bytes: `Marshal` writes the text of a number, `Unmarshal` reads it. -/
structure DecText where
  marshal : Dec → Bytes
  unmarshal : Bytes → Option Dec → Outcome (Option Dec)
  unmarshal_marshal : ∀ (x : Dec) (d : Option Dec), Fixed.Fits decFormat x.raw →
    unmarshal (marshal x) d = .ok (some x)

/-- `ExchangeRateTuple` as it is stored. A rate that was not read is nil. -/
structure TupleMsg where
  denom : GoString
  exchangeRate : Option Dec

/-- `AggregateExchangeRatePrevote` as it is stored. -/
structure PrevoteMsg where
  hash : GoString
  voter : GoString
  submitBlock : ℕ

/-- `AggregateExchangeRateVote` as it is stored. -/
structure VoteMsg where
  exchangeRateTuples : List TupleMsg
  voter : GoString

/-! ### The generated code -/

/-- `AggregateExchangeRatePrevote`: `Unmarshal`, `Size` and `MarshalToSizedBuffer`. -/
def prevoteCodec : Codec PrevoteMsg where
  message :=
    { name := "AggregateExchangeRatePrevote"
      fields := fun
        | 1 => some (.bytes "Hash" fun b m => pure { m with hash := b })
        | 2 => some (.bytes "Voter" fun b m => pure { m with voter := b })
        | 3 => some (.varint "SubmitBlock" fun v m => { m with submitBlock := v })
        | _ => none }
  empty := ⟨[], [], 0⟩
  size m := stringSize m.hash.length + stringSize m.voter.length + uint64Size m.submitBlock
  write m w := writeUint64 0x18 m.submitBlock w >>= fun w =>
    writeString 0x12 m.voter w >>= fun w => writeString 0xa m.hash w

/-- The text of a rate; that of zero where it is nil. -/
def DecText.rate (D : DecText) (x : Option Dec) : Bytes := D.marshal (x.getD ⟨0⟩)

/-- `ExchangeRateTuple`. -/
def tupleCodec (D : DecText) : Codec TupleMsg where
  message :=
    { name := "ExchangeRateTuple"
      fields := fun
        | 1 => some (.bytes "Denom" fun b m => pure { m with denom := b })
        | 2 => some (.bytes "ExchangeRate" fun b m => do
            let x ← D.unmarshal b m.exchangeRate
            pure { m with exchangeRate := x })
        | _ => none }
  empty := ⟨[], none⟩
  size m := stringSize m.denom.length + bytesSize (D.rate m.exchangeRate).length
  write m w := writeBytes 0x12 (D.rate m.exchangeRate) w >>= fun w => writeString 0xa m.denom w

/-- `AggregateExchangeRateVote`. The tuples are written from the last to the first. -/
def voteCodec (D : DecText) : Codec VoteMsg where
  message :=
    { name := "AggregateExchangeRateVote"
      fields := fun
        | 1 => some (.bytes "ExchangeRateTuples" fun b m => do
            let t ← (tupleCodec D).unmarshal b
            pure { m with exchangeRateTuples := m.exchangeRateTuples ++ [t] })
        | 2 => some (.bytes "Voter" fun b m => pure { m with voter := b })
        | _ => none }
  empty := ⟨[], []⟩
  size m := (m.exchangeRateTuples.map fun t => bytesSize ((tupleCodec D).size t)).sum
    + stringSize m.voter.length
  write m w := writeString 0x12 m.voter w >>= fun w =>
    m.exchangeRateTuples.reverse.foldlM
      (fun w t => writeMessage 0xa ((tupleCodec D).write t) w) w

/-! ### The fields of a message -/

/-- The fields a prevote is written as. -/
def PrevoteMsg.fields (m : PrevoteMsg) : List (ℕ × Value) :=
  stringField 1 m.hash ++ (stringField 2 m.voter ++ uint64Field 3 m.submitBlock)

/-- The fields a tuple is written as. -/
def TupleMsg.fields (D : DecText) (m : TupleMsg) : List (ℕ × Value) :=
  stringField 1 m.denom ++ bytesField 2 (D.rate m.exchangeRate)

/-- The fields a vote is written as. -/
def VoteMsg.fields (D : DecText) (m : VoteMsg) : List (ℕ × Value) :=
  m.exchangeRateTuples.flatMap (fun t => bytesField 1 (encodeFields (t.fields D)))
    ++ stringField 2 m.voter

/-- A tuple with a rate that fits. -/
def TupleMsg.Stored (m : TupleMsg) : Prop :=
  ∃ x, m.exchangeRate = some x ∧ Fixed.Fits decFormat x.raw

lemma prevote_read (m : PrevoteMsg) :
    m.fields.foldlM prevoteCodec.message.apply prevoteCodec.empty = .ok m := by
  have hhash : (stringField 1 m.hash).foldlM prevoteCodec.message.apply prevoteCodec.empty
      = .ok ⟨m.hash, [], 0⟩ :=
    Message.foldlM_stringField (fun b (m : PrevoteMsg) => { m with hash := b }) rfl rfl m.hash
  have hvoter : (stringField 2 m.voter).foldlM prevoteCodec.message.apply ⟨m.hash, [], 0⟩
      = .ok ⟨m.hash, m.voter, 0⟩ :=
    Message.foldlM_stringField (fun b (m : PrevoteMsg) => { m with voter := b }) rfl rfl m.voter
  have hblock : (uint64Field 3 m.submitBlock).foldlM prevoteCodec.message.apply
      ⟨m.hash, m.voter, 0⟩ = .ok m :=
    Message.foldlM_uint64Field (fun v (m : PrevoteMsg) => { m with submitBlock := v }) rfl rfl
      m.submitBlock
  rw [PrevoteMsg.fields, List.foldlM_append, hhash, ok_bind, List.foldlM_append, hvoter, ok_bind,
    hblock]

-- the tags the generated code has as literals
lemma tag_first_bytes : encodeTag 1 2 = [0xa] := rfl

lemma tag_second_bytes : encodeTag 2 2 = [0x12] := rfl

lemma tag_third_varint : encodeTag 3 0 = [0x18] := rfl

lemma prevote_written {m : PrevoteMsg} (hblock : m.submitBlock < 2 ^ 64)
    (hsize : prevoteCodec.size m < 2 ^ 63) : prevoteCodec.Written m m.fields := by
  have hsum : stringSize m.hash.length + stringSize m.voter.length + uint64Size m.submitBlock
      < 2 ^ 63 := hsize
  have hhash : m.hash.length < 2 ^ 63 := by
    have := le_stringSize m.hash.length
    omega
  have hvoter : m.voter.length < 2 ^ 63 := by
    have := le_stringSize m.voter.length
    omega
  refine ⟨?_, ?_, ?_, prevote_read m⟩
  · rw [PrevoteMsg.fields, allEncodable_append, allEncodable_append]
    exact ⟨allEncodable_stringField (by norm_num) (by norm_num) hhash,
      allEncodable_stringField (by norm_num) (by norm_num) hvoter,
      allEncodable_uint64Field (by norm_num) (by norm_num) hblock⟩
  · rw [PrevoteMsg.fields, encodeFields_append, encodeFields_append, ← List.append_assoc]
    exact (writes_uint64 tag_third_varint hblock).bind
      ((writes_string tag_second_bytes (by omega)).bind (writes_string tag_first_bytes (by omega)))
  · rw [PrevoteMsg.fields, encodeFields_append, encodeFields_append, List.length_append,
      List.length_append, length_stringField tag_first_bytes (by omega),
      length_stringField tag_second_bytes (by omega), length_uint64Field tag_third_varint hblock,
      ← add_assoc]
    rfl

/-! ### Tuples and votes -/

lemma tuple_read (D : DecText) {m : TupleMsg} (hm : m.Stored) :
    (m.fields D).foldlM (tupleCodec D).message.apply (tupleCodec D).empty = .ok m := by
  obtain ⟨x, hx, hfits⟩ := hm
  have hdenom : (stringField 1 m.denom).foldlM (tupleCodec D).message.apply (tupleCodec D).empty
      = .ok ⟨m.denom, none⟩ :=
    Message.foldlM_stringField (fun b (m : TupleMsg) => { m with denom := b }) rfl rfl m.denom
  have hrate : (tupleCodec D).message.apply ⟨m.denom, none⟩ (2, .scalar (.bytes (D.marshal x)))
      = .ok m := by
    show (D.unmarshal (D.marshal x) none >>= fun x => pure (⟨m.denom, x⟩ : TupleMsg)) = _
    rw [D.unmarshal_marshal x none hfits, ok_bind, ← hx]
    rfl
  rw [TupleMsg.fields, List.foldlM_append, hdenom, ok_bind, DecText.rate, hx, Option.getD_some,
    bytesField, List.foldlM_cons, hrate]
  rfl

lemma tuple_written (D : DecText) {m : TupleMsg} (hm : m.Stored)
    (hsize : (tupleCodec D).size m < 2 ^ 63) : (tupleCodec D).Written m (m.fields D) := by
  have hsum : stringSize m.denom.length + bytesSize (D.rate m.exchangeRate).length < 2 ^ 63 := hsize
  have hdenom : m.denom.length < 2 ^ 63 := by
    have := le_stringSize m.denom.length
    omega
  have hrate : (D.rate m.exchangeRate).length < 2 ^ 63 := by
    rw [bytesSize] at hsum
    omega
  refine ⟨?_, ?_, ?_, tuple_read D hm⟩
  · rw [TupleMsg.fields, allEncodable_append]
    exact ⟨allEncodable_stringField (by norm_num) (by norm_num) hdenom,
      allEncodable_bytesField (by norm_num) (by norm_num) hrate⟩
  · rw [TupleMsg.fields, encodeFields_append]
    exact (writes_bytes tag_second_bytes (by omega)).bind (writes_string tag_first_bytes (by omega))
  · rw [TupleMsg.fields, encodeFields_append, List.length_append,
      length_stringField tag_first_bytes (by omega), length_bytesField tag_second_bytes (by omega)]
    rfl

/-- The fields of the tuples of a vote. -/
def tupleFields (D : DecText) (tuples : List TupleMsg) : List (ℕ × Value) :=
  tuples.flatMap fun t => bytesField 1 (encodeFields (t.fields D))

/-- The size computed for the tuples of a vote. -/
def tuplesSize (D : DecText) (tuples : List TupleMsg) : ℕ :=
  (tuples.map fun t => bytesSize ((tupleCodec D).size t)).sum

/-- Tuples that can be stored, in a message of less than `2 ^ 63` bytes. -/
structure StoredTuples (D : DecText) (tuples : List TupleMsg) : Prop where
  stored : ∀ t ∈ tuples, t.Stored
  size_lt : tuplesSize D tuples < 2 ^ 63

section Tuples

variable {D : DecText} {t : TupleMsg} {tuples : List TupleMsg}

lemma StoredTuples.tail (h : StoredTuples D (t :: tuples)) : StoredTuples D tuples := by
  refine ⟨fun t' ht' => h.stored t' (List.mem_cons_of_mem t ht'), ?_⟩
  have hsize := h.size_lt
  rw [tuplesSize, List.map_cons, List.sum_cons] at hsize
  exact (Nat.le_add_left _ _).trans_lt hsize

lemma StoredTuples.head (h : StoredTuples D (t :: tuples)) :
    (tupleCodec D).Written t (t.fields D) ∧ (encodeFields (t.fields D)).length < 2 ^ 63 := by
  have hsize := h.size_lt
  rw [tuplesSize, List.map_cons, List.sum_cons, bytesSize] at hsize
  have hwritten := tuple_written D (h.stored t List.mem_cons_self) (by omega)
  exact ⟨hwritten, by rw [← hwritten.size_eq]; omega⟩

lemma allEncodable_tupleFields (h : StoredTuples D tuples) : AllEncodable (tupleFields D tuples) := by
  induction tuples with
  | nil => trivial
  | cons t tuples ih =>
      rw [tupleFields, List.flatMap_cons, allEncodable_append]
      exact ⟨allEncodable_bytesField (by norm_num) (by norm_num) h.head.2, ih h.tail⟩

lemma writes_tuples (h : StoredTuples D tuples) :
    Writes (fun w => tuples.reverse.foldlM (fun w t => writeMessage 0xa ((tupleCodec D).write t) w) w)
      (encodeFields (tupleFields D tuples)) := by
  induction tuples with
  | nil => exact writes_pure
  | cons t tuples ih =>
      have hhead := writes_message tag_first_bytes (by have := h.head.2; omega) h.head.1.writes
      have hboth := (ih h.tail).bind hhead
      rw [tupleFields, List.flatMap_cons, encodeFields_append]
      intro w hw
      -- the first tuple is written last
      simp only [List.reverse_cons, List.foldlM_append, List.foldlM_cons, List.foldlM_nil, bind_pure]
      exact hboth w hw

lemma length_tupleFields (h : StoredTuples D tuples) :
    (encodeFields (tupleFields D tuples)).length = tuplesSize D tuples := by
  induction tuples with
  | nil => rfl
  | cons t tuples ih =>
      rw [tupleFields, List.flatMap_cons, encodeFields_append, List.length_append,
        length_bytesField tag_first_bytes (by have := h.head.2; omega), ← h.head.1.size_eq, tuplesSize,
        List.map_cons, List.sum_cons]
      exact congrArg _ (ih h.tail)

/-- Each tuple read is added to those before it. -/
lemma tuples_read (h : StoredTuples D tuples) (read : List TupleMsg) (voter : GoString) :
    (tupleFields D tuples).foldlM (voteCodec D).message.apply ⟨read, voter⟩
      = .ok ⟨read ++ tuples, voter⟩ := by
  induction tuples generalizing read with
  | nil => rw [List.append_nil]; rfl
  | cons t tuples ih =>
      have hread := (h.head.1.roundTrips (by rw [h.head.1.size_eq]; exact h.head.2)).unmarshal_eq
      have hfirst : (voteCodec D).message.apply ⟨read, voter⟩
          (1, .scalar (.bytes (encodeFields (t.fields D)))) = .ok ⟨read ++ [t], voter⟩ := by
        show ((tupleCodec D).unmarshal (encodeFields (t.fields D)) >>= fun t =>
          pure (⟨read ++ [t], voter⟩ : VoteMsg)) = _
        rw [hread, ok_bind]
        rfl
      rw [tupleFields, List.flatMap_cons, List.foldlM_append, bytesField, List.foldlM_cons, hfirst,
        ok_bind, List.foldlM_nil, pure_bind, ← tupleFields, ih h.tail, List.append_assoc,
        List.singleton_append]

end Tuples

lemma vote_written (D : DecText) {m : VoteMsg} (hstored : ∀ t ∈ m.exchangeRateTuples, t.Stored)
    (hsize : (voteCodec D).size m < 2 ^ 63) : (voteCodec D).Written m (m.fields D) := by
  have hsum : tuplesSize D m.exchangeRateTuples + stringSize m.voter.length < 2 ^ 63 := hsize
  have htuples : StoredTuples D m.exchangeRateTuples := ⟨hstored, by omega⟩
  have hvoter : m.voter.length < 2 ^ 63 := by
    have := le_stringSize m.voter.length
    omega
  refine ⟨?_, ?_, ?_, ?_⟩
  · rw [VoteMsg.fields, allEncodable_append]
    exact ⟨allEncodable_tupleFields htuples,
      allEncodable_stringField (by norm_num) (by norm_num) hvoter⟩
  · rw [VoteMsg.fields, encodeFields_append]
    exact (writes_string tag_second_bytes (by omega)).bind (writes_tuples htuples)
  · rw [VoteMsg.fields, encodeFields_append, List.length_append,
      length_stringField tag_second_bytes (by omega)]
    exact congrArg (· + _) (length_tupleFields htuples).symm
  · have hread : (stringField 2 m.voter).foldlM (voteCodec D).message.apply
        ⟨m.exchangeRateTuples, []⟩ = .ok m :=
      Message.foldlM_stringField (fun b (m : VoteMsg) => { m with voter := b }) rfl rfl m.voter
    rw [VoteMsg.fields, List.foldlM_append, ← tupleFields]
    exact (congrArg (· >>= _) (tuples_read htuples [] [])).trans hread

/-! ### What is stored is read back -/

/-- **Every prevote and every vote is marshalled into exactly the bytes of its computed size, and
read back from them**, a vote with its tuples in their order; and so they are from any message with
further fields, wherever these stand. -/
theorem stored_roundTrips (D : DecText) :
    (∀ m : PrevoteMsg, m.submitBlock < 2 ^ 64 → prevoteCodec.size m < 2 ^ 63 →
        prevoteCodec.RoundTrips m m.fields)
      ∧ ∀ m : VoteMsg, (∀ t ∈ m.exchangeRateTuples, t.Stored) → (voteCodec D).size m < 2 ^ 63 →
        (voteCodec D).RoundTrips m (m.fields D) := by
  refine ⟨fun m hblock hsize => ?_, fun m hstored hsize => ?_⟩
  · exact (prevote_written hblock hsize).roundTrips hsize
  · exact (vote_written D hstored hsize).roundTrips hsize

/-! ### Decimal texts -/

/-- The decimal digits of a number as a text. -/
def decimalText (n : ℕ) : Bytes :=
  if n = 0 then [48] else (Nat.digits 10 n).reverse.map fun d => UInt8.ofNat (48 + d)

/-- The number of a text of decimal digits. -/
def ofDecimalText (b : Bytes) : ℕ := Nat.ofDigits 10 (b.reverse.map fun c => c.toNat - 48)

lemma toNat_digit {d : ℕ} (hd : d < 10) : (UInt8.ofNat (48 + d)).toNat = 48 + d :=
  UInt8.toNat_ofNat_of_lt' (by show 48 + d < 256; omega)

lemma ofDecimalText_decimalText (n : ℕ) : ofDecimalText (decimalText n) = n := by
  rw [ofDecimalText, decimalText]
  split_ifs with h0
  · rw [h0]
    rfl
  · rw [List.map_reverse, List.map_map, List.map_reverse, List.reverse_reverse]
    refine (congrArg (Nat.ofDigits 10) ?_).trans (Nat.ofDigits_digits 10 n)
    refine (List.map_congr_left fun d hd => ?_).trans (List.map_id _)
    show (UInt8.ofNat (48 + d)).toNat - 48 = d
    rw [toNat_digit (Nat.digits_lt_base (by norm_num) hd), Nat.add_sub_cancel_left]

/-- No digit is a sign. -/
lemma minus_notMem_decimalText (n : ℕ) : 45 ∉ decimalText n := by
  rw [decimalText]
  split_ifs with h0
  · decide
  · intro hmem
    obtain ⟨d, hd, hbyte⟩ := List.mem_map.mp hmem
    have hvalue := toNat_digit (Nat.digits_lt_base (by norm_num) (List.mem_reverse.mp hd))
    rw [hbyte] at hvalue
    exact absurd hvalue (by show (45 : ℕ) ≠ 48 + d; omega)

/-- The text of an integer, as `big.Int` writes it. -/
def integerText (x : ℤ) : Bytes := (if x < 0 then [45] else []) ++ decimalText x.natAbs

/-- The integer of a text. -/
def ofIntegerText (b : Bytes) : ℤ :=
  if b.head? = some 45 then -(ofDecimalText b.tail : ℤ) else ofDecimalText b

lemma ofIntegerText_integerText (x : ℤ) : ofIntegerText (integerText x) = x := by
  rw [ofIntegerText, integerText]
  by_cases hneg : x < 0
  · simp only [if_pos hneg, List.singleton_append, List.head?_cons, List.tail_cons,
      ofDecimalText_decimalText, if_true]
    omega
  · have hhead : (decimalText x.natAbs).head? ≠ some 45 := fun h =>
      minus_notMem_decimalText x.natAbs (List.mem_of_mem_head? h)
    simp only [if_neg hneg, List.nil_append, if_neg hhead, ofDecimalText_decimalText]
    omega

/-- The text of the number behind a decimal. -/
def bigIntText : DecText where
  marshal x := integerText x.raw
  unmarshal b _ := pure (some ⟨ofIntegerText b⟩)
  unmarshal_marshal x _ _ := by
    rw [ofIntegerText_integerText]
    rfl

/-- A vote for two denominations. -/
def twoRatesVote : VoteMsg :=
  ⟨[⟨goString "uusd", some ⟨15⟩⟩, ⟨goString "ukrw", some ⟨2⟩⟩], goString "terravaloper1x"⟩

/-- A vote for two denominations is read back from its bytes. -/
theorem twoRatesVote_roundTrips :
    (voteCodec bigIntText).RoundTrips twoRatesVote (twoRatesVote.fields bigIntText) := by
  refine (stored_roundTrips bigIntText).2 twoRatesVote (fun t ht => ?_) (by decide +kernel)
  rcases List.mem_cons.mp ht with rfl | ht
  · exact ⟨_, rfl, fits_of_le (by norm_num) (by norm_num)⟩
  · rw [List.mem_singleton.mp ht]
    exact ⟨_, rfl, fits_of_le (by norm_num) (by norm_num)⟩

end ColumbusCore.Oracle
