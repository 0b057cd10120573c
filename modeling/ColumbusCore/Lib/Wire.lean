import Mathlib.Data.Nat.Size
import ColumbusCore.Lib.Outcome

/-!
The wire format of protocol buffers, as generated Go code reads and writes it.

A message is a sequence of fields, each a tag (the number of the field and a wire type) and a
value. Generated code writes a message from its end into a buffer of the size it has computed
before, and reads it in a loop that knows the fields by their numbers and skips the others.

* `encodeVarint`, `readVarint`: numbers; `readVarint_encode`: **a number is read back**;
* `Buffer`, `Writes`: what a writer puts before what is already written, and how writers compose;
  `length_encodeVarint`: the size computed for a number is the size it takes;
* `Value`, `encodeField`: fields of every wire type, groups included; `skip_encodeField`: **what is
  skipped is one field**;
* `unmarshal`, `unmarshal_encodeFields`: **the reading loop is the fold of the fields**, whatever
  their order.
-/

namespace Wire

open Go

abbrev Bytes := List UInt8

/-! ### Numbers -/

/-- `encodeVarint`, its loop: seven bits a byte, the lowest first. -/
def encodeVarintLoop : ℕ → ℕ → Bytes
  | 0, v => [UInt8.ofNat v]
  | n + 1, v => if 2 ^ 7 ≤ v then UInt8.ofNat (v % 2 ^ 7 + 2 ^ 7) :: encodeVarintLoop n (v / 2 ^ 7)
      else [UInt8.ofNat v]

/-- The bytes of a number of at most 64 bits. -/
def encodeVarint (v : ℕ) : Bytes := encodeVarintLoop 9 v

/-- `sov`: the size computed for a number. -/
def sov (x : ℕ) : ℕ := (Nat.size (x ||| 1) + 6) / 7

/-- `io.ErrUnexpectedEOF`. -/
def unexpectedEOF {α : Type} : Outcome α := failed "unexpected EOF"

/-- `ErrIntOverflow`. -/
def intOverflow {α : Type} : Outcome α := failed "proto: integer overflow"

/-- `ErrInvalidLength`. -/
def invalidLength {α : Type} : Outcome α := failed "proto: negative length found during unmarshaling"

/-- The loop that reads a number: the number, and how many bytes it took. -/
def readVarintLoop (shift acc : ℕ) : Bytes → Outcome (ℕ × ℕ)
  | [] => if 64 ≤ shift then intOverflow else unexpectedEOF
  | b :: rest =>
      if 64 ≤ shift then intOverflow
      else
        let value := (acc ||| (b.toNat % 2 ^ 7) <<< shift) % 2 ^ 64
        if b < 0x80 then pure (value, 1)
        else do
          let (v, n) ← readVarintLoop (shift + 7) value rest
          pure (v, n + 1)

/-- A number, and how many bytes it took. -/
def readVarint (data : Bytes) : Outcome (ℕ × ℕ) := readVarintLoop 0 0 data

/-- Bits above those there are already. -/
lemma or_shiftLeft_mod {acc x shift : ℕ} (hacc : acc < 2 ^ shift) (hfits : acc + x * 2 ^ shift < 2 ^ 64) :
    (acc ||| x <<< shift) % 2 ^ 64 = acc + x * 2 ^ shift := by
  rw [Nat.or_comm, ← Nat.shiftLeft_add_eq_or_of_lt hacc, Nat.shiftLeft_eq, add_comm,
    Nat.mod_eq_of_lt hfits]

/-- The step of the loop at the last byte of a number. -/
lemma readVarintLoop_last {v shift acc : ℕ} (hshift : shift ≤ 63) (hacc : acc < 2 ^ shift)
    (hv : v < 2 ^ 7) (hfits : acc + v * 2 ^ shift < 2 ^ 64) (rest : Bytes) :
    readVarintLoop shift acc (UInt8.ofNat v :: rest) = .ok (acc + v * 2 ^ shift, 1) := by
  have hbyte : (UInt8.ofNat v).toNat = v := UInt8.toNat_ofNat_of_lt' (by show v < 256; omega)
  have hlast : UInt8.ofNat v < 0x80 := by
    rw [UInt8.lt_iff_toNat_lt, hbyte]
    exact hv
  rw [readVarintLoop, if_neg (by omega), if_pos hlast, hbyte, Nat.mod_eq_of_lt hv,
    or_shiftLeft_mod hacc hfits]
  rfl

/-- The step of the loop at another byte. -/
lemma readVarintLoop_more {x shift acc : ℕ} (hshift : shift ≤ 63) (hacc : acc < 2 ^ shift)
    (hx : x < 2 ^ 7) (hfits : acc + x * 2 ^ shift < 2 ^ 64) (rest : Bytes) :
    readVarintLoop shift acc (UInt8.ofNat (x + 2 ^ 7) :: rest)
      = (readVarintLoop (shift + 7) (acc + x * 2 ^ shift) rest >>= fun r => pure (r.1, r.2 + 1)) := by
  have hbyte : (UInt8.ofNat (x + 2 ^ 7)).toNat = x + 2 ^ 7 :=
    UInt8.toNat_ofNat_of_lt' (by show x + 2 ^ 7 < 256; omega)
  have hmore : ¬ UInt8.ofNat (x + 2 ^ 7) < 0x80 := by
    rw [UInt8.lt_iff_toNat_lt, hbyte]
    exact not_lt.mpr (Nat.le_add_left _ _)
  rw [readVarintLoop, if_neg (by omega), if_neg hmore, hbyte, Nat.add_mod_right,
    Nat.mod_eq_of_lt hx, or_shiftLeft_mod hacc hfits]

lemma readVarintLoop_encode {fuel v shift acc : ℕ} (hshift : shift + 7 * fuel ≤ 63)
    (hacc : acc < 2 ^ shift) (hfits : acc + v * 2 ^ shift < 2 ^ 64)
    (hfuel : v < 2 ^ (7 * (fuel + 1))) (rest : Bytes) :
    readVarintLoop shift acc (encodeVarintLoop fuel v ++ rest)
      = .ok (acc + v * 2 ^ shift, (encodeVarintLoop fuel v).length) := by
  induction fuel generalizing v shift acc with
  | zero => exact readVarintLoop_last (by omega) hacc hfuel hfits rest
  | succ fuel ih =>
      rw [encodeVarintLoop]
      split_ifs with hv
      · have hparts : acc + v % 2 ^ 7 * 2 ^ shift + v / 2 ^ 7 * 2 ^ (shift + 7)
            = acc + v * 2 ^ shift := by
          have hsplit := Nat.div_add_mod v (2 ^ 7)
          calc acc + v % 2 ^ 7 * 2 ^ shift + v / 2 ^ 7 * 2 ^ (shift + 7)
              = acc + (2 ^ 7 * (v / 2 ^ 7) + v % 2 ^ 7) * 2 ^ shift := by rw [pow_add]; ring
            _ = acc + v * 2 ^ shift := by rw [hsplit]
        have hlow : acc + v % 2 ^ 7 * 2 ^ shift < 2 ^ (shift + 7) := by
          have hmod : v % 2 ^ 7 + 1 ≤ 2 ^ 7 := Nat.mod_lt _ (by norm_num)
          calc acc + v % 2 ^ 7 * 2 ^ shift < 2 ^ shift + v % 2 ^ 7 * 2 ^ shift := by omega
            _ = (v % 2 ^ 7 + 1) * 2 ^ shift := by ring
            _ ≤ 2 ^ 7 * 2 ^ shift := Nat.mul_le_mul_right _ hmod
            _ = 2 ^ (shift + 7) := by rw [pow_add, mul_comm]
        have hrest : v / 2 ^ 7 < 2 ^ (7 * (fuel + 1)) := by
          refine Nat.div_lt_of_lt_mul ?_
          rwa [← pow_add, show 7 + 7 * (fuel + 1) = 7 * (fuel + 1 + 1) by ring]
        rw [List.cons_append, readVarintLoop_more (by omega) hacc (Nat.mod_lt _ (by norm_num))
          (by omega), ih (by omega) hlow (by omega) hrest, hparts]
        rfl
      · exact readVarintLoop_last (by omega) hacc (not_le.mp hv) hfits rest

/-- **A number is read back, with the bytes after it left over.** -/
theorem readVarint_encode {v : ℕ} (hv : v < 2 ^ 64) (rest : Bytes) :
    readVarint (encodeVarint v ++ rest) = .ok (v, (encodeVarint v).length) := by
  have h : readVarintLoop 0 0 (encodeVarintLoop 9 v ++ rest)
      = .ok (0 + v * 2 ^ 0, (encodeVarintLoop 9 v).length) :=
    readVarintLoop_encode (by norm_num) (by norm_num) (by simpa using hv)
      (hv.trans (by norm_num)) rest
  rwa [pow_zero, mul_one, zero_add] at h

lemma sov_le_iff {v k : ℕ} (hk : 0 < k) : sov v ≤ k ↔ v < 2 ^ (7 * k) := by
  have hsize : sov v ≤ k ↔ Nat.size (v ||| 1) ≤ 7 * k := by
    rw [sov]
    omega
  rw [hsize, Nat.size_le]
  refine ⟨fun h => Nat.left_le_or.trans_lt h, fun h => Nat.or_lt_two_pow h ?_⟩
  exact Nat.one_lt_two_pow (by omega)

lemma sov_pos (v : ℕ) : 0 < sov v := by
  have hsize : 0 < Nat.size (v ||| 1) :=
    Nat.size_pos.mpr (Nat.pos_of_ne_zero fun h => absurd (Nat.or_eq_zero_iff.mp h).2 one_ne_zero)
  rw [sov]
  omega

lemma sov_of_le {v : ℕ} (h : 2 ^ 7 ≤ v) : sov v = sov (v / 2 ^ 7) + 1 := by
  have hiff : ∀ k, v < 2 ^ (7 * (k + 1)) ↔ v / 2 ^ 7 < 2 ^ (7 * k) := by
    intro k
    rw [Nat.div_lt_iff_lt_mul (by norm_num), ← pow_add]
    rfl
  refine le_antisymm ?_ ?_
  · rw [sov_le_iff (Nat.succ_pos _), hiff, ← sov_le_iff (sov_pos _)]
  · obtain ⟨k, hk⟩ : ∃ k, sov v = k + 1 := Nat.exists_eq_succ_of_ne_zero (sov_pos v).ne'
    have hk0 : 0 < k := by
      refine Nat.pos_of_ne_zero fun h0 => absurd h (not_le.mpr ?_)
      have hone := (sov_le_iff one_pos).mp (by omega : sov v ≤ 1)
      simpa using hone
    rw [hk, Nat.succ_le_succ_iff, sov_le_iff hk0, ← hiff, ← sov_le_iff (Nat.succ_pos _), hk]

lemma sov_of_lt {v : ℕ} (h : v < 2 ^ 7) : sov v = 1 :=
  le_antisymm ((sov_le_iff one_pos).mpr (by simpa using h)) (sov_pos v)

lemma length_encodeVarintLoop {fuel v : ℕ} (hfuel : v < 2 ^ (7 * (fuel + 1))) :
    (encodeVarintLoop fuel v).length = sov v := by
  induction fuel generalizing v with
  | zero => rw [sov_of_lt hfuel, encodeVarintLoop, List.length_singleton]
  | succ fuel ih =>
      rw [encodeVarintLoop]
      split_ifs with hv
      · have hrest : v / 2 ^ 7 < 2 ^ (7 * (fuel + 1)) := by
          refine Nat.div_lt_of_lt_mul ?_
          rwa [← pow_add, show 7 + 7 * (fuel + 1) = 7 * (fuel + 1 + 1) by ring]
        rw [List.length_cons, sov_of_le hv, ih hrest]
      · rw [sov_of_lt (not_le.mp hv), List.length_singleton]

/-- The size computed for a number is the size it takes. -/
lemma length_encodeVarint {v : ℕ} (hv : v < 2 ^ 64) : (encodeVarint v).length = sov v :=
  length_encodeVarintLoop (hv.trans (by norm_num))

/-! ### Writing from the end -/

/-- A buffer that is filled from its end: the room left, and what is written. -/
structure Buffer where
  room : ℕ
  written : Bytes

/-- `i -= len(b); copy(dAtA[i:], b)`. -/
def Buffer.copy (w : Buffer) (b : Bytes) : Outcome Buffer :=
  if b.length ≤ w.room then pure ⟨w.room - b.length, b ++ w.written⟩ else panicked .outOfRange

/-- `encodeVarint(dAtA, i, v)`: room is made for the computed size, and the bytes are written from
there on. -/
def Buffer.varint (w : Buffer) (v : ℕ) : Outcome Buffer :=
  if sov v ≤ w.room then
    pure ⟨w.room - sov v, encodeVarint v
      ++ (List.replicate (sov v) 0 ++ w.written).drop (encodeVarint v).length⟩
  else panicked .outOfRange

/-- `Marshal`: a buffer of the computed size, and what was written of it. -/
def marshal (size : ℕ) (write : Buffer → Outcome Buffer) : Outcome Bytes := do
  let w ← write ⟨size, []⟩
  pure ((List.replicate w.room 0 ++ w.written).take (size - w.room))

/-- A writer that puts bytes before what is written, wherever there is room for them. -/
def Writes (write : Buffer → Outcome Buffer) (b : Bytes) : Prop :=
  ∀ w : Buffer, b.length ≤ w.room → write w = .ok ⟨w.room - b.length, b ++ w.written⟩

lemma writes_pure : Writes pure [] := fun _ _ => rfl

lemma writes_copy (b : Bytes) : Writes (fun w => w.copy b) b := fun _ h => if_pos h

lemma writes_varint {v : ℕ} (hv : v < 2 ^ 64) : Writes (fun w => w.varint v) (encodeVarint v) := by
  intro w h
  rw [length_encodeVarint hv] at h
  simp only [Buffer.varint]
  rw [if_pos h, length_encodeVarint hv, List.drop_left' List.length_replicate]
  rfl

lemma Writes.bind {f g : Buffer → Outcome Buffer} {b b' : Bytes} (hf : Writes f b)
    (hg : Writes g b') : Writes (fun w => f w >>= g) (b' ++ b) := by
  intro w h
  rw [List.length_append] at h
  show (f w >>= g) = _
  rw [hf w (by omega), ok_bind, hg _ (by simp only; omega), List.length_append, List.append_assoc]
  congr 2
  simp only
  omega

/-- **What is marshalled is what the writer writes**, where the computed size is its length. -/
lemma marshal_of_writes {size : ℕ} {write : Buffer → Outcome Buffer} {b : Bytes}
    (h : Writes write b) (hsize : size = b.length) : marshal size write = .ok b := by
  subst hsize
  rw [marshal, h ⟨b.length, []⟩ le_rfl, ok_bind]
  simp

/-! ### Fields -/

/-- The tag of a field. -/
def encodeTag (fieldNum wireType : ℕ) : Bytes := encodeVarint (8 * fieldNum + wireType)

/-- The value of a field that is not a group. -/
inductive Scalar where
  | varint (v : ℕ)
  | fixed64 (b : Bytes)
  | bytes (b : Bytes)
  | fixed32 (b : Bytes)

namespace Scalar

/-- The wire type of a value. -/
def wireType : Scalar → ℕ
  | varint _ => 0
  | fixed64 _ => 1
  | bytes _ => 2
  | fixed32 _ => 5

/-- The bytes of a value. -/
def encode : Scalar → Bytes
  | varint v => encodeVarint v
  | fixed64 b => b
  | bytes b => encodeVarint b.length ++ b
  | fixed32 b => b

/-- A value the wire can hold. -/
def Encodable : Scalar → Prop
  | varint v => v < 2 ^ 64
  | fixed64 b => b.length = 8
  | bytes b => b.length < 2 ^ 63
  | fixed32 b => b.length = 4

lemma wireType_lt (v : Scalar) : v.wireType < 8 := by cases v <;> simp [wireType]

end Scalar

/-- The value of a field. -/
inductive Value where
  | scalar (v : Scalar)
  | group (fields : List (ℕ × Value))

/-- The wire type of a value. -/
def Value.wireType : Value → ℕ
  | scalar v => v.wireType
  | group _ => 3

lemma Value.wireType_lt (v : Value) : v.wireType < 8 := by
  cases v with
  | scalar v => exact v.wireType_lt
  | group fields => norm_num [wireType]

mutual

/-- A field on the wire. -/
def encodeField (fieldNum : ℕ) : Value → Bytes
  | .scalar v => encodeTag fieldNum v.wireType ++ v.encode
  | .group fields => encodeTag fieldNum 3 ++ (encodeFields fields ++ encodeTag fieldNum 4)

/-- Fields on the wire, one after the other. -/
def encodeFields : List (ℕ × Value) → Bytes
  | [] => []
  | (fieldNum, v) :: fields => encodeField fieldNum v ++ encodeFields fields

end

mutual

/-- A value the wire can hold. -/
def Value.Encodable : Value → Prop
  | .scalar v => v.Encodable
  | .group fields => AllEncodable fields

/-- Fields with numbers of the format, and values the wire can hold. -/
def AllEncodable : List (ℕ × Value) → Prop
  | [] => True
  | (fieldNum, v) :: fields =>
      (0 < fieldNum ∧ fieldNum < 2 ^ 29) ∧ v.Encodable ∧ AllEncodable fields

end

mutual

/-- The number of tags in a value, its own included. -/
def Value.tags : Value → ℕ
  | .scalar _ => 1
  | .group fields => tagsOf fields + 2

/-- The number of tags in fields. -/
def tagsOf : List (ℕ × Value) → ℕ
  | [] => 0
  | (_, v) :: fields => v.tags + tagsOf fields

end

/-! ### Writing fields -/

/-- Bytes with their length and a tag of one byte before them. -/
def writeBytes (tag : UInt8) (b : Bytes) (w : Buffer) : Outcome Buffer :=
  w.copy b >>= fun w => w.varint b.length >>= fun w => w.copy [tag]

/-- A text, which is left out where it is empty. -/
def writeString (tag : UInt8) (b : Bytes) (w : Buffer) : Outcome Buffer :=
  if 0 < b.length then writeBytes tag b w else pure w

/-- A number, which is left out where it is zero. -/
def writeUint64 (tag : UInt8) (v : ℕ) (w : Buffer) : Outcome Buffer :=
  if v ≠ 0 then w.varint v >>= fun w => w.copy [tag] else pure w

/-- A message inside a message: its length is the room it took. -/
def writeMessage (tag : UInt8) (write : Buffer → Outcome Buffer) (w : Buffer) : Outcome Buffer :=
  write w >>= fun w' => w'.varint (w.room - w'.room) >>= fun w => w.copy [tag]

/-- The size computed for bytes. -/
def bytesSize (l : ℕ) : ℕ := 1 + l + sov l

/-- The size computed for a text. -/
def stringSize (l : ℕ) : ℕ := if 0 < l then bytesSize l else 0

/-- The size computed for a number. -/
def uint64Size (v : ℕ) : ℕ := if v ≠ 0 then 1 + sov v else 0

/-- The field of bytes. -/
def bytesField (fieldNum : ℕ) (b : Bytes) : List (ℕ × Value) := [(fieldNum, .scalar (.bytes b))]

/-- The field of a text: none where it is empty. -/
def stringField (fieldNum : ℕ) (b : Bytes) : List (ℕ × Value) :=
  if 0 < b.length then bytesField fieldNum b else []

/-- The field of a number: none where it is zero. -/
def uint64Field (fieldNum v : ℕ) : List (ℕ × Value) :=
  if v ≠ 0 then [(fieldNum, .scalar (.varint v))] else []

lemma encodeFields_append (fields fields' : List (ℕ × Value)) :
    encodeFields (fields ++ fields') = encodeFields fields ++ encodeFields fields' := by
  induction fields with
  | nil => rfl
  | cons field fields ih =>
      rw [List.cons_append, encodeFields, encodeFields, ih, List.append_assoc]

lemma allEncodable_append {fields fields' : List (ℕ × Value)} :
    AllEncodable (fields ++ fields') ↔ AllEncodable fields ∧ AllEncodable fields' := by
  induction fields with
  | nil => exact ⟨fun h => ⟨trivial, h⟩, fun h => h.2⟩
  | cons field fields ih =>
      rw [List.cons_append, AllEncodable, AllEncodable, ih]
      tauto

section Writers

variable {fieldNum : ℕ} {tag : UInt8} {b : Bytes} {v : ℕ}

lemma encodeFields_bytesField : encodeFields (bytesField fieldNum b)
    = encodeTag fieldNum 2 ++ (encodeVarint b.length ++ b) := by
  rw [bytesField, encodeFields, encodeFields, encodeField, List.append_nil]
  rfl

lemma writes_bytes (htag : encodeTag fieldNum 2 = [tag]) (hb : b.length < 2 ^ 64) :
    Writes (writeBytes tag b) (encodeFields (bytesField fieldNum b)) := by
  have h := (writes_copy b).bind ((writes_varint hb).bind (writes_copy [tag]))
  rw [encodeFields_bytesField, htag, ← List.append_assoc]
  exact h

lemma writes_string (htag : encodeTag fieldNum 2 = [tag]) (hb : b.length < 2 ^ 64) :
    Writes (writeString tag b) (encodeFields (stringField fieldNum b)) := by
  intro w hw
  rw [writeString]
  rw [stringField] at hw ⊢
  split_ifs at hw ⊢
  · exact writes_bytes htag hb w hw
  · exact writes_pure w hw

lemma writes_uint64 (htag : encodeTag fieldNum 0 = [tag]) (hv : v < 2 ^ 64) :
    Writes (writeUint64 tag v) (encodeFields (uint64Field fieldNum v)) := by
  intro w hw
  rw [writeUint64]
  rw [uint64Field] at hw ⊢
  split_ifs at hw ⊢
  · have h := ((writes_varint hv).bind (writes_copy [tag])) w
    rw [encodeFields, encodeFields, encodeField, List.append_nil, Scalar.wireType, htag] at hw ⊢
    exact h hw
  · exact writes_pure w hw

lemma writes_message (htag : encodeTag fieldNum 2 = [tag]) (hb : b.length < 2 ^ 64)
    {write : Buffer → Outcome Buffer} (hwrite : Writes write b) :
    Writes (writeMessage tag write) (encodeFields (bytesField fieldNum b)) := by
  intro w hw
  have hroom : b.length ≤ w.room := by
    rw [encodeFields_bytesField, List.length_append, List.length_append] at hw
    omega
  have hcopy : write w = w.copy b := (hwrite w hroom).trans (writes_copy b w hroom).symm
  rw [← writes_bytes htag hb w hw, writeMessage, writeBytes, hcopy, Buffer.copy, if_pos hroom]
  show Buffer.varint _ (w.room - (w.room - b.length)) >>= _ = _
  rw [Nat.sub_sub_self hroom]
  rfl

lemma length_bytesField (htag : encodeTag fieldNum 2 = [tag]) (hb : b.length < 2 ^ 64) :
    (encodeFields (bytesField fieldNum b)).length = bytesSize b.length := by
  rw [encodeFields_bytesField, htag, List.length_append, List.length_append,
    length_encodeVarint hb, bytesSize, List.length_singleton]
  omega

lemma length_stringField (htag : encodeTag fieldNum 2 = [tag]) (hb : b.length < 2 ^ 64) :
    (encodeFields (stringField fieldNum b)).length = stringSize b.length := by
  rw [stringField, stringSize]
  split_ifs
  · exact length_bytesField htag hb
  · rfl

lemma length_uint64Field (htag : encodeTag fieldNum 0 = [tag]) (hv : v < 2 ^ 64) :
    (encodeFields (uint64Field fieldNum v)).length = uint64Size v := by
  rw [uint64Field, uint64Size]
  split_ifs
  · rw [encodeFields, encodeFields, encodeField, List.append_nil, Scalar.wireType, htag, Scalar.encode,
      List.length_append, length_encodeVarint hv, List.length_singleton]
  · rfl

lemma allEncodable_bytesField (h0 : 0 < fieldNum) (hnum : fieldNum < 2 ^ 29)
    (hb : b.length < 2 ^ 63) : AllEncodable (bytesField fieldNum b) := by
  rw [bytesField, AllEncodable, AllEncodable]
  exact ⟨⟨h0, hnum⟩, by rw [Value.Encodable]; exact hb, trivial⟩

lemma allEncodable_stringField (h0 : 0 < fieldNum) (hnum : fieldNum < 2 ^ 29)
    (hb : b.length < 2 ^ 63) : AllEncodable (stringField fieldNum b) := by
  rw [stringField]
  split_ifs
  · exact allEncodable_bytesField h0 hnum hb
  · trivial

lemma allEncodable_uint64Field (h0 : 0 < fieldNum) (hnum : fieldNum < 2 ^ 29) (hv : v < 2 ^ 64) :
    AllEncodable (uint64Field fieldNum v) := by
  rw [uint64Field]
  split_ifs
  · rw [AllEncodable, AllEncodable]
    exact ⟨⟨h0, hnum⟩, by rw [Value.Encodable]; exact hv, trivial⟩
  · trivial

end Writers

/-! ### Skipping -/

/-- The value after a tag of a field that is skipped: the depth of the groups after it, and how many
bytes it takes. -/
def skipValue (depth wireType : ℕ) (rest : Bytes) : Outcome (ℕ × ℕ) :=
  match wireType with
  | 0 => do
      let (_, n) ← readVarint rest
      pure (depth, n)
  | 1 => pure (depth, 8)
  | 2 => do
      let (length, n) ← readVarint rest
      if 2 ^ 63 ≤ length then invalidLength else pure (depth, n + length)
  | 3 => pure (depth + 1, 0)
  | 4 => if depth = 0 then failed "proto: unexpected end of group" else pure (depth - 1, 0)
  | 5 => pure (depth, 4)
  | w => failed ("proto: illegal wireType " ++ toString w)

/-- The loop of `skip`, from an index on. A round takes at least one byte. -/
def skipLoop : ℕ → ℕ → ℕ → Bytes → Outcome ℕ
  | 0, _, _, _ => unexpectedEOF
  | _ + 1, _, _, [] => unexpectedEOF
  | fuel + 1, depth, index, b :: rest => do
      let (wire, n) ← readVarint (b :: rest)
      let (depth, m) ← skipValue depth (wire % 8) ((b :: rest).drop n)
      if 2 ^ 63 ≤ index + n + m then invalidLength
      else if depth = 0 then pure (index + n + m)
      else skipLoop fuel depth (index + n + m) ((b :: rest).drop (n + m))

/-- `skip`: how many bytes the first field takes. -/
def skip (data : Bytes) : Outcome ℕ := skipLoop data.length 0 0 data

lemma encodeVarint_ne_nil (v : ℕ) : encodeVarint v ≠ [] := by
  rw [encodeVarint, encodeVarintLoop]
  split_ifs <;> simp

lemma readVarint_tag {fieldNum wireType : ℕ} (hnum : fieldNum < 2 ^ 29) (htype : wireType < 8)
    (rest : Bytes) : readVarint (encodeTag fieldNum wireType ++ rest)
      = .ok (8 * fieldNum + wireType, (encodeTag fieldNum wireType).length) :=
  readVarint_encode (by omega) rest

/-- A round of the loop, at a tag and the bytes of its value. -/
lemma skipLoop_round {fieldNum wireType depth depth' index : ℕ} (fuel : ℕ) (hnum : fieldNum < 2 ^ 29)
    (htype : wireType < 8) (value rest : Bytes)
    (hvalue : skipValue depth wireType (value ++ rest) = .ok (depth', value.length))
    (hindex : index + (encodeTag fieldNum wireType).length + value.length < 2 ^ 63) :
    skipLoop (fuel + 1) depth index (encodeTag fieldNum wireType ++ (value ++ rest))
      = if depth' = 0 then pure (index + (encodeTag fieldNum wireType).length + value.length)
        else skipLoop fuel depth' (index + (encodeTag fieldNum wireType).length + value.length)
          rest := by
  have htag := readVarint_tag hnum htype (value ++ rest)
  have hmod : (8 * fieldNum + wireType) % 8 = wireType := by omega
  have hdrop : (encodeTag fieldNum wireType ++ (value ++ rest)).drop
      ((encodeTag fieldNum wireType).length + value.length) = rest := by
    rw [← List.append_assoc, ← List.length_append, List.drop_left]
  cases hbytes : encodeTag fieldNum wireType ++ (value ++ rest) with
  | nil =>
      exact absurd (List.append_eq_nil_iff.mp hbytes).1 (encodeVarint_ne_nil _)
  | cons b tail =>
      rw [skipLoop, ← hbytes, htag, ok_bind]
      simp only [hmod, List.drop_left]
      rw [hvalue, ok_bind]
      simp only [hdrop]
      rw [if_neg (not_le.mpr hindex)]

lemma skipLoop_startGroup {fieldNum : ℕ} (hnum : fieldNum < 2 ^ 29) (fuel depth index : ℕ)
    (rest : Bytes) (hindex : index + (encodeTag fieldNum 3).length < 2 ^ 63) :
    skipLoop (fuel + 1) depth index (encodeTag fieldNum 3 ++ rest)
      = skipLoop fuel (depth + 1) (index + (encodeTag fieldNum 3).length) rest := by
  have h := skipLoop_round fuel hnum (by norm_num : 3 < 8) [] rest
    (rfl : skipValue depth 3 rest = .ok (depth + 1, 0)) hindex
  rwa [if_neg (Nat.succ_ne_zero depth)] at h

lemma skipLoop_endGroup {fieldNum : ℕ} (hnum : fieldNum < 2 ^ 29) (fuel depth index : ℕ)
    (rest : Bytes) (hindex : index + (encodeTag fieldNum 4).length < 2 ^ 63) :
    skipLoop (fuel + 1) (depth + 1) index (encodeTag fieldNum 4 ++ rest)
      = if depth = 0 then pure (index + (encodeTag fieldNum 4).length)
        else skipLoop fuel depth (index + (encodeTag fieldNum 4).length) rest := by
  have hvalue : skipValue (depth + 1) 4 rest = .ok (depth, 0) := by
    rw [skipValue, if_neg (Nat.succ_ne_zero depth)]
    rfl
  exact skipLoop_round fuel hnum (by norm_num : 4 < 8) [] rest hvalue hindex

lemma skipValue_encode {v : Scalar} (hv : v.Encodable) (depth : ℕ) (rest : Bytes) :
    skipValue depth v.wireType (v.encode ++ rest) = .ok (depth, v.encode.length) := by
  cases v with
  | varint x =>
      simp only [Scalar.wireType, Scalar.encode, skipValue]
      rw [readVarint_encode hv]
      rfl
  | fixed64 b => exact congrArg (fun n => Except.ok (depth, n)) (Eq.symm hv)
  | bytes b =>
      have hlength : b.length < 2 ^ 63 := hv
      simp only [Scalar.wireType, Scalar.encode, skipValue]
      rw [List.append_assoc, readVarint_encode (by omega), ok_bind, List.length_append]
      exact if_neg (not_le.mpr hlength)
  | fixed32 b => exact congrArg (fun n => Except.ok (depth, n)) (Eq.symm hv)

mutual

/-- A field inside a group is passed over. -/
lemma skipLoop_encodeField {fieldNum : ℕ} (hnum : fieldNum < 2 ^ 29) (v : Value)
    (hv : v.Encodable) {depth : ℕ} (hdepth : depth ≠ 0) (index fuel : ℕ) (rest : Bytes)
    (hindex : index + (encodeField fieldNum v).length < 2 ^ 63) :
    skipLoop (fuel + v.tags) depth index (encodeField fieldNum v ++ rest)
      = skipLoop fuel depth (index + (encodeField fieldNum v).length) rest := by
  match v with
  | .scalar v =>
      rw [Value.Encodable] at hv
      rw [encodeField, List.length_append] at hindex ⊢
      rw [Value.tags, List.append_assoc, skipLoop_round fuel hnum v.wireType_lt v.encode rest
        (skipValue_encode hv depth rest) (by omega), if_neg hdepth, add_assoc]
  | .group fields =>
      rw [Value.Encodable] at hv
      rw [encodeField, List.length_append, List.length_append] at hindex ⊢
      rw [Value.tags, List.append_assoc, List.append_assoc,
        show fuel + (tagsOf fields + 2) = fuel + 1 + tagsOf fields + 1 by omega,
        skipLoop_startGroup hnum _ _ _ _ (by omega),
        skipLoop_encodeFields fields hv (Nat.succ_ne_zero depth) _ _ _ (by omega),
        skipLoop_endGroup hnum _ _ _ _ (by omega), if_neg hdepth]
      congr 1
      omega

lemma skipLoop_encodeFields (fields : List (ℕ × Value)) (hfields : AllEncodable fields) {depth : ℕ}
    (hdepth : depth ≠ 0) (index fuel : ℕ) (rest : Bytes)
    (hindex : index + (encodeFields fields).length < 2 ^ 63) :
    skipLoop (fuel + tagsOf fields) depth index (encodeFields fields ++ rest)
      = skipLoop fuel depth (index + (encodeFields fields).length) rest := by
  match fields with
  | [] => rfl
  | (fieldNum, v) :: fields =>
      rw [AllEncodable] at hfields
      obtain ⟨⟨-, hnum⟩, hv, hfields⟩ := hfields
      rw [encodeFields, List.length_append] at hindex ⊢
      rw [tagsOf, List.append_assoc, show fuel + (v.tags + tagsOf fields)
          = fuel + tagsOf fields + v.tags by omega,
        skipLoop_encodeField hnum v hv hdepth _ _ _ (by omega),
        skipLoop_encodeFields fields hfields hdepth _ _ _ (by omega), add_assoc]

end

mutual

lemma tags_le_length (fieldNum : ℕ) (v : Value) : v.tags ≤ (encodeField fieldNum v).length := by
  have hpos : ∀ wireType, 0 < (encodeTag fieldNum wireType).length := fun wireType =>
    List.length_pos_iff.mpr (encodeVarint_ne_nil _)
  match v with
  | .scalar v =>
      have htag := hpos v.wireType
      rw [encodeField, Value.tags, List.length_append]
      omega
  | .group fields =>
      have hfields := tagsOf_le_length fields
      have hstart := hpos 3
      have hend := hpos 4
      rw [encodeField, Value.tags, List.length_append, List.length_append]
      omega

lemma tagsOf_le_length (fields : List (ℕ × Value)) : tagsOf fields ≤ (encodeFields fields).length := by
  match fields with
  | [] => rfl
  | (fieldNum, v) :: fields =>
      have hv := tags_le_length fieldNum v
      have hfields := tagsOf_le_length fields
      rw [encodeFields, tagsOf, List.length_append]
      omega

end

lemma length_le_tagsOf (fields : List (ℕ × Value)) : fields.length ≤ tagsOf fields := by
  induction fields with
  | nil => exact Nat.zero_le _
  | cons field fields ih =>
      have hpos : 0 < field.2.tags := by cases h : field.2 <;> simp [Value.tags]
      rw [List.length_cons, tagsOf]
      omega

/-- **What is skipped is one field**, with all fields of the group where it is one. -/
theorem skip_encodeField {fieldNum : ℕ} (hnum : fieldNum < 2 ^ 29) {v : Value} (hv : v.Encodable)
    (hlength : (encodeField fieldNum v).length < 2 ^ 63) (rest : Bytes) :
    skip (encodeField fieldNum v ++ rest) = .ok (encodeField fieldNum v).length := by
  obtain ⟨fuel, hfuel⟩ : ∃ fuel, (encodeField fieldNum v ++ rest).length = fuel + v.tags := by
    have htags := tags_le_length fieldNum v
    refine ⟨(encodeField fieldNum v ++ rest).length - v.tags, ?_⟩
    rw [List.length_append]
    omega
  rw [skip, hfuel]
  cases v with
  | scalar v =>
      rw [Value.Encodable] at hv
      rw [encodeField, List.length_append] at hlength ⊢
      rw [Value.tags, List.append_assoc, skipLoop_round fuel hnum v.wireType_lt v.encode rest
        (skipValue_encode hv 0 rest) (by omega), if_pos rfl, zero_add]
      rfl
  | group fields =>
      rw [Value.Encodable] at hv
      rw [encodeField, List.length_append, List.length_append] at hlength ⊢
      rw [Value.tags, List.append_assoc, List.append_assoc,
        show fuel + (tagsOf fields + 2) = fuel + 1 + tagsOf fields + 1 by omega,
        skipLoop_startGroup hnum _ _ _ _ (by omega),
        skipLoop_encodeFields fields hv (Nat.succ_ne_zero 0) _ _ _ (by omega),
        skipLoop_endGroup hnum _ _ _ _ (by omega), if_pos rfl]
      exact congrArg Except.ok (by omega)

/-! ### Reading a message -/

/-- What a message does with a field it knows: store a number, or read bytes. -/
inductive Reader (σ : Type) where
  | varint (name : String) (set : ℕ → σ → σ)
  | bytes (name : String) (read : Bytes → σ → Outcome σ)

/-- A message: its name, and the fields it knows. -/
structure Message (σ : Type) where
  name : String
  fields : ℕ → Option (Reader σ)

variable {σ : Type}

/-- A field of the wrong wire type. -/
def wrongWireType {α : Type} (wireType : ℕ) (field : String) : Outcome α :=
  failed ("proto: wrong wireType = " ++ toString wireType ++ " for field " ++ field)

/-- The field after its tag: the message with it, and how many bytes its value took. `index` is the
index of the first of them. -/
def Reader.run (reader : Reader σ) (wireType index : ℕ) (rest : Bytes) (m : σ) : Outcome (σ × ℕ) :=
  match reader with
  | .varint name set =>
      if wireType ≠ 0 then wrongWireType wireType name
      else do
        let (v, n) ← readVarint rest
        pure (set v m, n)
  | .bytes name read =>
      if wireType ≠ 2 then wrongWireType wireType name
      else do
        let (length, n) ← readVarint rest
        if 2 ^ 63 ≤ length then invalidLength
        else if 2 ^ 63 ≤ index + n + length then invalidLength
        else if (rest.drop n).length < length then unexpectedEOF
        else do
          let m ← read ((rest.drop n).take length) m
          pure (m, n + length)

/-- `int32(wire >> 3)`. -/
def fieldNumber (wire : ℕ) : ℤ := (wire / 8 : ℤ).bmod (2 ^ 32)

/-- One round of the loop of `Unmarshal`: the message, and how many bytes the round took. -/
def Message.round (M : Message σ) (index : ℕ) (rest : Bytes) (m : σ) : Outcome (σ × ℕ) := do
  let (wire, n) ← readVarint rest
  if wire % 8 = 4 then failed ("proto: " ++ M.name ++ ": wiretype end group for non-group")
  else if fieldNumber wire ≤ 0 then
    failed ("proto: " ++ M.name ++ ": illegal tag " ++ toString (fieldNumber wire) ++ " (wire type "
      ++ toString wire ++ ")")
  else
    match M.fields (fieldNumber wire).toNat with
    | some reader => do
        let (m, k) ← reader.run (wire % 8) (index + n) (rest.drop n) m
        pure (m, n + k)
    | none => do
        let skippy ← skip rest
        if 2 ^ 63 ≤ index + skippy then invalidLength
        else if rest.length < skippy then unexpectedEOF
        else pure (m, skippy)

/-- The loop of `Unmarshal`, from an index on. A round takes at least one byte. -/
def Message.unmarshalLoop (M : Message σ) : ℕ → ℕ → Bytes → σ → Outcome σ
  | 0, _, _, m => pure m
  | _ + 1, _, [], m => pure m
  | fuel + 1, index, b :: rest, m => do
      let (m, n) ← M.round index (b :: rest) m
      M.unmarshalLoop fuel (index + n) ((b :: rest).drop n) m

/-- `Unmarshal` into a message. -/
def Message.unmarshal (M : Message σ) (data : Bytes) (m : σ) : Outcome σ :=
  M.unmarshalLoop data.length 0 data m

/-- What a message makes of a field. -/
def Message.apply (M : Message σ) (m : σ) (field : ℕ × Value) : Outcome σ :=
  match M.fields field.1, field.2 with
  | none, _ => pure m
  | some (.varint _ set), .scalar (.varint v) => pure (set v m)
  | some (.bytes _ read), .scalar (.bytes b) => read b m
  | some (.varint name _), v => wrongWireType v.wireType name
  | some (.bytes name _), v => wrongWireType v.wireType name

lemma fieldNumber_tag {fieldNum wireType : ℕ} (hnum : fieldNum < 2 ^ 29) (htype : wireType < 8) :
    fieldNumber (8 * fieldNum + wireType) = fieldNum := by
  have hdiv : ((8 * fieldNum + wireType : ℕ) : ℤ) / 8 = fieldNum := by omega
  have hlow : -((2 ^ 32 : ℕ) : ℤ) ≤ (fieldNum : ℤ) * 2 := by push_cast; omega
  have hhigh : (fieldNum : ℤ) * 2 < ((2 ^ 32 : ℕ) : ℤ) := by push_cast; omega
  calc fieldNumber (8 * fieldNum + wireType) = (fieldNum : ℤ).bmod (2 ^ 32) :=
        congrArg (fun x : ℤ => x.bmod (2 ^ 32)) hdiv
    _ = fieldNum := Int.bmod_eq_of_le_mul_two hlow hhigh

/-- The bytes of a field begin with its tag. -/
lemma exists_encodeField_eq (fieldNum : ℕ) (v : Value) :
    ∃ value, encodeField fieldNum v = encodeTag fieldNum v.wireType ++ value := by
  cases v with
  | scalar v => exact ⟨v.encode, by rw [encodeField]; rfl⟩
  | group fields => exact ⟨_, by rw [encodeField]; rfl⟩

lemma Value.wireType_ne_four (v : Value) : v.wireType ≠ 4 := by
  cases v with
  | scalar v => cases v <;> simp [wireType, Scalar.wireType]
  | group fields => simp [wireType]

lemma Reader.run_varint {name : String} {set : ℕ → σ → σ} {v : ℕ} (hv : v < 2 ^ 64) (index : ℕ)
    (rest : Bytes) (m : σ) :
    (Reader.varint name set).run 0 index (encodeVarint v ++ rest) m
      = .ok (set v m, (encodeVarint v).length) := by
  rw [Reader.run, if_neg (by simp), readVarint_encode hv]
  rfl

lemma Reader.run_bytes {name : String} {read : Bytes → σ → Outcome σ} {b : Bytes} {index : ℕ}
    (hindex : index + (encodeVarint b.length ++ b).length < 2 ^ 63) (rest : Bytes) (m : σ) :
    (Reader.bytes name read).run 2 index (encodeVarint b.length ++ b ++ rest) m
      = (read b m >>= fun m' => pure (m', (encodeVarint b.length ++ b).length)) := by
  rw [List.length_append] at hindex ⊢
  rw [Reader.run, if_neg (by simp), List.append_assoc, readVarint_encode (by omega), ok_bind]
  simp only [List.drop_left, List.length_append, List.take_left]
  rw [if_neg (by omega), if_neg (by omega), if_neg (by omega)]

/-- A reader of a field on the wire. -/
lemma Reader.run_encodeField (reader : Reader σ) {M : Message σ} {fieldNum : ℕ}
    (hreader : M.fields fieldNum = some reader) {v : Value} (hv : v.Encodable) {value : Bytes}
    (hfield : encodeField fieldNum v = encodeTag fieldNum v.wireType ++ value) {index : ℕ}
    (hindex : index + value.length < 2 ^ 63) (rest : Bytes) (m : σ) :
    reader.run v.wireType index (value ++ rest) m
      = (M.apply m (fieldNum, v) >>= fun m' => pure (m', value.length)) := by
  rw [Message.apply, hreader]
  cases v with
  | group fields =>
      cases reader with
      | varint name set => rfl
      | bytes name read => rfl
  | scalar v =>
      have hvalue : value = v.encode := by
        rw [encodeField] at hfield
        exact (List.append_cancel_left hfield).symm
      subst hvalue
      rw [Value.Encodable] at hv
      cases reader with
      | varint name set =>
          cases v with
          | varint x => exact Reader.run_varint hv index rest m
          | _ => rfl
      | bytes name read =>
          cases v with
          | bytes b => exact Reader.run_bytes hindex rest m
          | _ => rfl

/-- **A round of the loop takes one field.** -/
lemma Message.round_encodeField (M : Message σ) {fieldNum : ℕ} (h0 : 0 < fieldNum)
    (hnum : fieldNum < 2 ^ 29) {v : Value} (hv : v.Encodable) {index : ℕ}
    (hindex : index + (encodeField fieldNum v).length < 2 ^ 63) (rest : Bytes) (m : σ) :
    M.round index (encodeField fieldNum v ++ rest) m
      = (M.apply m (fieldNum, v) >>= fun m' => pure (m', (encodeField fieldNum v).length)) := by
  obtain ⟨value, hfield⟩ := exists_encodeField_eq fieldNum v
  have hnumber := fieldNumber_tag hnum v.wireType_lt
  have hmod : (8 * fieldNum + v.wireType) % 8 = v.wireType := by
    have := v.wireType_lt
    omega
  rw [Message.round]
  conv_lhs =>
    enter [1]
    rw [hfield, List.append_assoc, readVarint_tag hnum v.wireType_lt]
  rw [ok_bind]
  simp only [hmod, hnumber]
  rw [if_neg v.wireType_ne_four, if_neg (by omega), Int.toNat_natCast]
  cases hreader : M.fields fieldNum with
  | none =>
      simp only [skip_encodeField hnum hv (by omega)]
      rw [ok_bind, if_neg (by omega), if_neg (by rw [List.length_append]; omega), Message.apply,
        hreader]
      rfl
  | some reader =>
      rw [hfield, List.length_append] at hindex
      simp only [hfield, List.append_assoc, List.drop_left]
      rw [reader.run_encodeField hreader hv hfield (by omega) rest m, bind_assoc]
      simp only [List.length_append]
      rfl

/-- **The loop of `Unmarshal` is the fold of the fields.** -/
theorem Message.unmarshalLoop_encodeFields (M : Message σ) {fields : List (ℕ × Value)}
    (hfields : AllEncodable fields) {fuel index : ℕ} (hfuel : fields.length ≤ fuel)
    (hindex : index + (encodeFields fields).length < 2 ^ 63) (m : σ) :
    M.unmarshalLoop fuel index (encodeFields fields) m = fields.foldlM M.apply m := by
  induction fields generalizing fuel index m with
  | nil => cases fuel <;> rfl
  | cons field fields ih =>
      obtain ⟨fieldNum, v⟩ := field
      rw [AllEncodable] at hfields
      obtain ⟨⟨h0, hnum⟩, hv, hfields⟩ := hfields
      obtain ⟨fuel, rfl⟩ := Nat.exists_eq_succ_of_ne_zero (Nat.ne_of_gt (Nat.zero_lt_of_lt hfuel))
      rw [encodeFields, List.length_append] at hindex
      have hlength : index + (encodeField fieldNum v).length < 2 ^ 63 := by omega
      have hround := M.round_encodeField h0 hnum hv hlength (encodeFields fields) m
      have hnil : encodeField fieldNum v ≠ [] := by
        obtain ⟨value, hvalue⟩ := exists_encodeField_eq fieldNum v
        rw [hvalue]
        exact fun h => encodeVarint_ne_nil _ (List.append_eq_nil_iff.mp h).1
      rw [encodeFields, List.foldlM_cons]
      cases hbytes : encodeField fieldNum v ++ encodeFields fields with
      | nil => exact absurd (List.append_eq_nil_iff.mp hbytes).1 hnil
      | cons b tail =>
          rw [Message.unmarshalLoop, ← hbytes, hround, bind_assoc]
          refine congrArg _ (funext fun m' => ?_)
          show M.unmarshalLoop fuel _ (List.drop _ _) m' = _
          rw [List.drop_left]
          exact ih hfields (Nat.le_of_succ_le_succ hfuel) (by omega) m'

/-- **A message is read as the fold of its fields, whatever their order**; fields it does not know
change nothing. -/
theorem Message.unmarshal_encodeFields (M : Message σ) {fields : List (ℕ × Value)}
    (hfields : AllEncodable fields) (hlength : (encodeFields fields).length < 2 ^ 63) (m : σ) :
    M.unmarshal (encodeFields fields) m = fields.foldlM M.apply m := by
  refine M.unmarshalLoop_encodeFields hfields ?_ (by omega) m
  exact (length_le_tagsOf fields).trans (tagsOf_le_length fields)

/-- A field the message does not know. -/
def Message.Unknown (M : Message σ) (field : ℕ × Value) : Bool := (M.fields field.1).isNone

/-- Fields the message does not know change nothing, wherever they stand. -/
lemma Message.foldlM_apply_filter (M : Message σ) (fields : List (ℕ × Value)) (m : σ) :
    fields.foldlM M.apply m = (fields.filter fun field => !M.Unknown field).foldlM M.apply m := by
  induction fields generalizing m with
  | nil => rfl
  | cons field fields ih =>
      cases hfield : M.fields field.1 with
      | none =>
          have hskip : M.apply m field = .ok m := by
            rw [Message.apply, hfield]
            rfl
          rw [List.foldlM_cons, hskip, ok_bind, ih,
            List.filter_cons_of_neg (by simp [Message.Unknown, hfield])]
      | some reader =>
          rw [List.filter_cons_of_pos (by simp [Message.Unknown, hfield]), List.foldlM_cons,
            List.foldlM_cons]
          exact congrArg _ (funext fun m' => ih m')

lemma Message.foldlM_stringField {M : Message σ} {fieldNum : ℕ} {name : String}
    (set : Bytes → σ → σ) (hfield : M.fields fieldNum = some (.bytes name fun b m => pure (set b m)))
    {m : σ} (hempty : set [] m = m) (b : Bytes) :
    (stringField fieldNum b).foldlM M.apply m = .ok (set b m) := by
  rw [stringField]
  split_ifs with hb
  · rw [bytesField, List.foldlM_cons, Message.apply, hfield]
    rfl
  · rw [List.length_eq_zero_iff.mp (Nat.eq_zero_of_not_pos hb), hempty]
    rfl

lemma Message.foldlM_uint64Field {M : Message σ} {fieldNum : ℕ} {name : String} (set : ℕ → σ → σ)
    (hfield : M.fields fieldNum = some (.varint name set)) {m : σ} (hzero : set 0 m = m) (v : ℕ) :
    (uint64Field fieldNum v).foldlM M.apply m = .ok (set v m) := by
  rw [uint64Field]
  split_ifs with hv
  · rw [List.foldlM_cons, Message.apply, hfield]
    rfl
  · rw [not_not.mp hv, hzero]
    rfl

lemma le_stringSize (l : ℕ) : l ≤ stringSize l := by
  rw [stringSize, bytesSize]
  split_ifs <;> omega

/-! ### Messages written and read -/

/-- A type of messages: how it is read, its empty message, the size it computes, and how it is
written. -/
structure Codec (σ : Type) where
  message : Message σ
  empty : σ
  size : σ → ℕ
  write : σ → Buffer → Outcome Buffer

namespace Codec

/-- `Marshal`. -/
def marshal (C : Codec σ) (m : σ) : Outcome Bytes := Wire.marshal (C.size m) (C.write m)

/-- `Unmarshal` into an empty message. -/
def unmarshal (C : Codec σ) (data : Bytes) : Outcome σ := C.message.unmarshal data C.empty

/-- A message is written as fields of its own that it reads back. -/
structure Written (C : Codec σ) (m : σ) (fields : List (ℕ × Value)) : Prop where
  encodable : AllEncodable fields
  writes : Writes (C.write m) (encodeFields fields)
  size_eq : C.size m = (encodeFields fields).length
  read : fields.foldlM C.message.apply C.empty = .ok m

/-- The message is marshalled into exactly the bytes it has computed, and read back from them; it is
read back also where fields it does not know stand before, between or after its own. -/
structure RoundTrips (C : Codec σ) (m : σ) (fields : List (ℕ × Value)) : Prop where
  marshal_eq : C.marshal m = .ok (encodeFields fields)
  length_eq : (encodeFields fields).length = C.size m
  unmarshal_eq : C.unmarshal (encodeFields fields) = .ok m
  unmarshal_more : ∀ more : List (ℕ × Value), AllEncodable more →
    (encodeFields more).length < 2 ^ 63 →
    (more.filter fun field => !C.message.Unknown field)
      = fields.filter (fun field => !C.message.Unknown field) →
    C.unmarshal (encodeFields more) = .ok m

lemma Written.roundTrips {C : Codec σ} {m : σ} {fields : List (ℕ × Value)} (h : C.Written m fields)
    (hsize : C.size m < 2 ^ 63) : C.RoundTrips m fields where
  marshal_eq := marshal_of_writes h.writes h.size_eq
  length_eq := h.size_eq.symm
  unmarshal_eq := by
    rw [unmarshal, Message.unmarshal_encodeFields _ h.encodable (h.size_eq ▸ hsize), h.read]
  unmarshal_more := by
    intro more hmore hlength hknown
    rw [unmarshal, Message.unmarshal_encodeFields _ hmore hlength, Message.foldlM_apply_filter,
      hknown, ← Message.foldlM_apply_filter, h.read]

end Codec

end Wire
