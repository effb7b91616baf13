import Mathlib.Tactic.NormNum
import RaygunApm.Library.ByteMemory
import RaygunApm.Wire.Event
import RaygunApm.Wire.Variable

/-! # What the variable records say

A reader skips a variable record by its length and takes the name and the value out of it. The
encoder writes as many bytes as `rg_encode_variableinfo_size` says; the length field is another sum,
made up by the coercion of each type on its own. `counted` is what the coercion adds for the value.
Integers are to be read back at the width and the sign of the type. -/

namespace RaygunApm

open Numerals

/-! ## The bytes of a record -/

/-- The cases of the size go with the cases of the encoding. -/
@[simp] theorem VariableValue.length_encode (as : VariableValue) : as.encode.length = as.size := by
  cases as with
  | encodedString s => simp [encode, size]
  | largestring s => simp [encode, size]
  | _ => simp [encode, size]

/-- The largest record is a string. -/
theorem VariableValue.size_le (as : VariableValue) : as.size ≤ 4 + rgMaxStringSize := by
  cases as with
  | encodedString s => exact Nat.add_le_add (by decide) s.length_le
  | largestring s => exact Nat.add_le_add le_rfl s.length_le
  | _ => simp [size, rgMaxStringSize]

/-- The length of the name fits its byte. -/
@[simp] theorem VariableInfo.toNat_nameLength (var : VariableInfo) :
    var.nameLength.toNat = var.name.length := by
  have hle : var.name.length ≤ 200 := var.name_le
  exact UInt8.toNat_ofNat_of_lt' (by simp only [UInt8.size]; omega)

/-- The number of bytes of a record. -/
theorem length_rgEncodeVariableinfo (var : VariableInfo) :
    var.rgEncodeVariableinfo.length = 4 + var.name.length + var.as.size := by
  simp only [VariableInfo.rgEncodeVariableinfo, List.length_append, length_packLength,
    length_packByte, VariableValue.length_encode]

/-- A record is far from the limit of a length. -/
theorem length_rgEncodeVariableinfo_lt (var : VariableInfo) :
    var.rgEncodeVariableinfo.length < 2 ^ 13 := by
  have hname : var.name.length ≤ 200 := var.name_le
  have hsize : var.as.size ≤ 4 + 4096 := var.as.size_le
  rw [length_rgEncodeVariableinfo]
  omega

/-- **The size is the number of bytes.** -/
theorem toNatClampNeg_rgEncodeVariableinfoSize (var : VariableInfo) :
    var.rgEncodeVariableinfoSize.toNatClampNeg = var.rgEncodeVariableinfo.length := by
  have hlt := length_rgEncodeVariableinfo_lt var
  rw [length_rgEncodeVariableinfo] at hlt ⊢
  rw [VariableInfo.rgEncodeVariableinfoSize, VariableInfo.toNat_nameLength,
    toNatClampNeg_ofNat (by omega)]

open ByteMemory in
/-- A record starts with its length field. -/
theorem readAt_length (var : VariableInfo) :
    readAt var.rgEncodeVariableinfo 0 2 = packLength var.length := by
  rw [readAt_start, VariableInfo.rgEncodeVariableinfo, List.append_assoc, List.append_assoc,
    List.append_assoc]
  exact List.take_left' (length_packLength _)

open ByteMemory in
/-- The byte of the length of the name. -/
theorem readAt_nameLength (var : VariableInfo) :
    readAt var.rgEncodeVariableinfo 3 1 = packByte var.nameLength := by
  have hfront : (packLength var.length ++ packByte var.as.type.code).length = 3 := by simp
  rw [readAt, VariableInfo.rgEncodeVariableinfo, List.append_assoc, List.append_assoc,
    List.drop_left' hfront]
  exact List.take_left' (length_packByte _)

open ByteMemory in
/-- The name of a record follows on its length, type and name length. -/
theorem readAt_name (var : VariableInfo) :
    readAt var.rgEncodeVariableinfo 4 var.name.length = var.name := by
  have hfront :
      (packLength var.length ++ packByte var.as.type.code ++ packByte var.nameLength).length = 4 := by
    simp
  rw [readAt, VariableInfo.rgEncodeVariableinfo, List.append_assoc, List.drop_left' hfront,
    List.take_left]

/-- The number in two bytes is a given one. -/
theorem decode_packLength_eq_iff {x : RgLength} {n : Nat} (h : n < 2 ^ 16) :
    LittleEndian.decode (packLength x) = n ↔ x = Int16.ofNat n := by
  constructor
  · intro hx
    have hlt : x.toUInt16.toNat < 256 ^ 2 := x.toUInt16.toNat_lt
    rw [packLength, LittleEndian.decode_encode_of_lt hlt] at hx
    have hback : Int16.ofNat x.toUInt16.toNat = x := by
      rw [← Int16.toInt_inj, Int16.toInt_ofNat', ← Int16.toInt_toBitVec,
        BitVec.toInt_eq_toNat_bmod]
      rfl
    rw [← hx, hback]
  · rintro rfl
    exact decode_packLength h

/-- The void record of an `END` event. -/
theorem rgEncodeVariableinfo_voidReturnValue :
    voidReturnValue.rgEncodeVariableinfo = rgEncodeVariableinfo voidReturnValue.length ∧
      voidReturnValue.rgEncodeVariableinfoSize = rgEncodeVariableinfoSize :=
  ⟨rfl, rfl⟩

/-! ## The lengths that the coercion adds up -/

/-- What the coercion adds to the length for the value: nothing for the booleans and the floats. -/
def VariableValue.counted : VariableValue → Nat
  | .boolean _ => 0
  | .float _ => 0
  | as => as.size

/-- A record with the length that its coercion gives it. -/
def countedRecord (name : Option Bytes) (as : VariableValue) : VariableInfo :=
  (rbRgVariableInfoInit name as).grow as.counted

/-- The length of a record as its coercion counts it. -/
theorem length_countedRecord (name : Option Bytes) (as : VariableValue) :
    (countedRecord name as).length =
      Int16.ofNat (2 + (storedName (name.getD [])).length + as.counted) := by
  rw [countedRecord, VariableInfo.grow, rbRgVariableInfoInit, ofNat_add_ofNat]

/-- A record for which nothing is added. -/
theorem rbRgVariableInfoInit_eq_countedRecord (name : Option Bytes) {as : VariableValue}
    (h : as.counted = 0) : rbRgVariableInfoInit name as = countedRecord name as := by
  have hzero : (rbRgVariableInfoInit name as).length + Int16.ofNat 0 =
      (rbRgVariableInfoInit name as).length := Int16.add_zero _
  rw [countedRecord, h, VariableInfo.grow, hzero]

/-- A string is coerced to a value whose bytes the length field counts. -/
theorem rbRgVtCoerceString_eq_some {name : Option Bytes} {text : RubyText} {var : VariableInfo}
    (h : rbRgVtCoerceString name text = some var) :
    ∃ as : VariableValue, as.counted = as.size ∧ var = countedRecord name as := by
  rw [rbRgVtCoerceString] at h
  split at h
  · cases h
    exact ⟨.emptystring, rfl, rbRgVariableInfoInit_eq_countedRecord name rfl⟩
  · obtain ⟨encoded, -, rfl⟩ := Option.map_eq_some_iff.mp h
    split
    next hle =>
      have hsize : (VariableValue.largestring (.ofBytes encoded)).counted = 4 + rgMaxStringSize := by
        simp [VariableValue.counted, VariableValue.size, RecordString.ofBytes, hle]
      exact ⟨_, rfl, by rw [countedRecord, hsize]⟩
    next hlt =>
      have hsize : (VariableValue.encodedString (.ofBytes encoded)).counted = 2 + encoded.length := by
        simp only [VariableValue.counted, VariableValue.size, RecordString.ofBytes, List.length_take]
        omega
      exact ⟨_, rfl, by rw [countedRecord, hsize]⟩

/-- A number is coerced to a value whose bytes the length field counts. -/
theorem coerceNumber_eq_some {α : Type} {name : Option Bytes} {number : Option α}
    {f : α → VariableValue} {size : Nat} {var : VariableInfo}
    (h : coerceNumber name (number.map f) size = some var)
    (hf : ∀ x, (f x).counted = (f x).size ∧ (f x).size = size) :
    ∃ as : VariableValue, as.counted = as.size ∧ var = countedRecord name as := by
  obtain ⟨as, has, rfl⟩ := Option.map_eq_some_iff.mp h
  obtain ⟨x, -, rfl⟩ := Option.map_eq_some_iff.mp has
  obtain ⟨hcounted, rfl⟩ := hf x
  exact ⟨f x, hcounted, by rw [countedRecord, hcounted]⟩

/-- A Fixnum is coerced to a value whose bytes the length field counts. -/
theorem rbRgVtCoerceFixnum_eq_some {name : Option Bytes} {n : Int} {var : VariableInfo}
    (h : rbRgVtCoerceFixnum name n = some var) :
    ∃ as : VariableValue, as.counted = as.size ∧ var = countedRecord name as := by
  rw [rbRgVtCoerceFixnum] at h
  split at h
  · exact coerceNumber_eq_some h fun _ => ⟨rfl, rfl⟩
  split at h
  · exact coerceNumber_eq_some h fun _ => ⟨rfl, rfl⟩
  split at h
  · exact coerceNumber_eq_some h fun _ => ⟨rfl, rfl⟩
  split at h
  · exact coerceNumber_eq_some h fun _ => ⟨rfl, rfl⟩
  split at h
  · exact coerceNumber_eq_some h fun _ => ⟨rfl, rfl⟩
  split at h
  · exact coerceNumber_eq_some h fun _ => ⟨rfl, rfl⟩
  · cases h

/-- A Bignum is coerced to a value whose bytes the length field counts. -/
theorem coerceBignum_eq_some {heap : BignumHeap} {name : Option Bytes} {n : Int} {var : VariableInfo}
    (h : coerceBignum heap name n = some var) :
    ∃ as : VariableValue, as.counted = as.size ∧ var = countedRecord name as := by
  rw [coerceBignum] at h
  split at h
  · exact rbRgVtCoerceString_eq_some h
  split at h
  · split at h
    · exact coerceNumber_eq_some h fun _ => ⟨rfl, rfl⟩
    · exact coerceNumber_eq_some h fun _ => ⟨rfl, rfl⟩
  · split at h
    · exact coerceNumber_eq_some h fun _ => ⟨rfl, rfl⟩
    · exact coerceNumber_eq_some h fun _ => ⟨rfl, rfl⟩

/-- The values whose coercion adds their size. -/
def RubyValue.Counted : RubyValue → Prop
  | .true => False
  | .false => False
  | .float _ => False
  | _ => True

/-- **What a coercion produces**: a record of the name and of some value, and the value is counted
for all but the booleans and the floats. -/
theorem rbRgVtCoerce_eq_some {heap : BignumHeap} {name : Option Bytes} {value : RubyValue}
    {var : VariableInfo} (h : rbRgVtCoerce heap name value = some var) :
    ∃ as : VariableValue, (as.counted = as.size ↔ value.Counted) ∧ var = countedRecord name as := by
  have hcounted : ∀ {P : Prop}, P → (∃ as : VariableValue, as.counted = as.size ∧
      var = countedRecord name as) →
      ∃ as : VariableValue, (as.counted = as.size ↔ P) ∧ var = countedRecord name as := by
    rintro P hP ⟨as, has, rfl⟩
    exact ⟨as, iff_of_true has hP, rfl⟩
  have huncounted : ∀ {P : Prop} {as : VariableValue}, ¬P → as.counted = 0 → 0 < as.size →
      ∃ as' : VariableValue, (as'.counted = as'.size ↔ P) ∧
        rbRgVariableInfoInit name as = countedRecord name as' := by
    intro P as hP hzero hpos
    exact ⟨as, iff_of_false (by omega) hP, rbRgVariableInfoInit_eq_countedRecord name hzero⟩
  -- the cases that add the size of the value, and the three that do not
  cases value with
  | nil =>
      cases h
      exact hcounted trivial ⟨.nullobject, rfl, rbRgVariableInfoInit_eq_countedRecord name rfl⟩
  | float bits =>
      cases h
      exact huncounted not_false rfl (Nat.zero_lt_succ 3)
  | true =>
      cases h
      exact huncounted not_false rfl one_pos
  | false =>
      cases h
      exact huncounted not_false rfl one_pos
  | integer n =>
      rw [rbRgVtCoerce] at h
      split at h
      · exact hcounted trivial (rbRgVtCoerceFixnum_eq_some h)
      · exact hcounted trivial (coerceBignum_eq_some h)
  | symbol text => exact hcounted trivial (rbRgVtCoerceString_eq_some h)
  | string text => exact hcounted trivial (rbRgVtCoerceString_eq_some h)
  | binary className => exact hcounted trivial (rbRgVtCoerceString_eq_some h)
  | object className => exact hcounted trivial (rbRgVtCoerceString_eq_some h)

/-! ## Records that describe themselves -/

/-- Where records come from: an argument or a return value with its name, and the hook for `RETURN`.
-/
inductive VariableSource where
  | coerced (name : Option Bytes) (value : RubyValue)
  | voidReturn

/-- The record, unless the coercion raises. -/
def VariableSource.record (heap : BignumHeap) : VariableSource → Option VariableInfo
  | .coerced name value => rbRgVtCoerce heap name value
  | .voidReturn => some voidReturnValue

/-- The name that the record is given. -/
def VariableSource.name : VariableSource → Bytes
  | .coerced name _ => name.getD []
  | .voidReturn => []

open ByteMemory LittleEndian in
/-- The bytes of a record are as many as its size says, the length at their start is the number of
those that follow it, and the name that is found in them is the start of the given one. -/
structure DescribesItself (name : Bytes) (var : VariableInfo) : Prop where
  size : var.rgEncodeVariableinfo.length = var.rgEncodeVariableinfoSize.toNatClampNeg
  length : decode (readAt var.rgEncodeVariableinfo 0 2) + 2 = var.rgEncodeVariableinfo.length
  name : readAt var.rgEncodeVariableinfo 4 (decode (readAt var.rgEncodeVariableinfo 3 1)) =
    name.take rgMaxVariableName

/-- The length field as sent counts the bytes behind it exactly if the field of the record does. -/
theorem length_field_iff (var : VariableInfo) :
    LittleEndian.decode (ByteMemory.readAt var.rgEncodeVariableinfo 0 2) + 2 =
        var.rgEncodeVariableinfo.length ↔
      var.length = Int16.ofNat (2 + var.name.length + var.as.size) := by
  have hlt := length_rgEncodeVariableinfo_lt var
  rw [length_rgEncodeVariableinfo] at hlt
  rw [readAt_length, length_rgEncodeVariableinfo,
    ← decode_packLength_eq_iff (x := var.length) (by omega)]
  omega

/-- The name found in the bytes is the one that is stored. -/
theorem readAt_decode_nameLength (var : VariableInfo) :
    ByteMemory.readAt var.rgEncodeVariableinfo 4
        (LittleEndian.decode (ByteMemory.readAt var.rgEncodeVariableinfo 3 1)) = var.name := by
  have hlength : LittleEndian.decode (packByte var.nameLength) = var.name.length := by
    rw [packByte, LittleEndian.decode_cons, LittleEndian.decode_nil, var.toNat_nameLength]
    rfl
  rw [readAt_nameLength, hlength, readAt_name]

/-- **The name is cut after its length is narrowed to a byte.** -/
theorem storedName_eq_iff (name : Bytes) :
    storedName name = name.take rgMaxVariableName ↔ name.length < 256 ∨ 200 ≤ name.length % 256 := by
  have hbyte : (UInt8.ofNat name.length).toNat = name.length % 256 := UInt8.toNat_ofNat'
  have hstored : storedName name = name.take (min 200 (name.length % 256)) := by
    rw [storedName, hbyte, rgMaxVariableName]
    congr 1
    split <;> omega
  rw [hstored, rgMaxVariableName, List.take_eq_take_iff]
  omega

/-- Lengths in range are the same as numbers and as `rg_length_t`. -/
theorem ofNat_eq_ofNat_iff {m n : Nat} (hm : m < 2 ^ 15) (hn : n < 2 ^ 15) :
    Int16.ofNat m = Int16.ofNat n ↔ m = n := by
  constructor
  · intro h
    rw [← toNatClampNeg_ofNat hm, h, toNatClampNeg_ofNat hn]
  · exact congrArg _

/-- The length field of a record that a coercion makes is right where the value is counted. -/
theorem length_countedRecord_iff (name : Option Bytes) (as : VariableValue) :
    (countedRecord name as).length =
        Int16.ofNat (2 + (countedRecord name as).name.length + (countedRecord name as).as.size) ↔
      as.counted = as.size := by
  have hname : (countedRecord name as).name = storedName (name.getD []) := rfl
  have hle : (storedName (name.getD [])).length ≤ 200 := length_storedName_le _
  have hsize : as.size ≤ 4 + 4096 := as.size_le
  have hadded : as.counted ≤ as.size := by
    cases as with
    | boolean value => exact Nat.zero_le _
    | float bits => exact Nat.zero_le _
    | _ => exact le_rfl
  -- both lengths are far below what 16 bits hold
  have hbelow : 2 + (storedName (name.getD [])).length + (countedRecord name as).as.size < 2 ^ 15 := by
    show 2 + _ + as.size < _
    omega
  rw [length_countedRecord, hname, ofNat_eq_ofNat_iff (by omega) hbelow]
  show 2 + _ + _ = 2 + _ + as.size ↔ _
  omega

/-- A record that a coercion makes describes itself where the value is counted and the name is cut
as it should be. -/
theorem describesItself_countedRecord_iff (name : Option Bytes) (as : VariableValue) :
    DescribesItself (name.getD []) (countedRecord name as) ↔
      as.counted = as.size ∧ storedName (name.getD []) = (name.getD []).take rgMaxVariableName := by
  have hfield := length_countedRecord_iff name as
  constructor
  · rintro ⟨-, hlength, hread⟩
    rw [readAt_decode_nameLength] at hread
    exact ⟨hfield.mp ((length_field_iff _).mp hlength), hread⟩
  · rintro ⟨hlength, hread⟩
    refine ⟨(toNatClampNeg_rgEncodeVariableinfoSize _).symm,
      (length_field_iff _).mpr (hfield.mpr hlength), ?_⟩
    rw [readAt_decode_nameLength]
    exact hread

/-- **Which variable records describe themselves.** Not the one for void, nor those of booleans and
floats, nor those whose name has a length that is short only in its last byte. -/
theorem describesItself_iff (heap : BignumHeap) (source : VariableSource) (var : VariableInfo)
    (h : source.record heap = some var) :
    DescribesItself source.name var ↔
      ∃ name value, source = .coerced name value ∧ value.Counted ∧
        ((name.getD []).length < 256 ∨ 200 ≤ (name.getD []).length % 256) := by
  cases source with
  | voidReturn =>
      cases h
      refine iff_of_false (fun hvar => ?_) (by simp)
      have hlength := (length_field_iff voidReturnValue).mp hvar.length
      exact absurd hlength (by decide)
  | coerced name value =>
      obtain ⟨as, hcounted, rfl⟩ := rbRgVtCoerce_eq_some h
      show DescribesItself (name.getD []) _ ↔ _
      rw [describesItself_countedRecord_iff, hcounted, storedName_eq_iff]
      constructor
      · rintro ⟨hvalue, hlength⟩
        exact ⟨name, value, rfl, hvalue, hlength⟩
      · rintro ⟨name', value', heq, hvalue, hlength⟩
        cases heq
        exact ⟨hvalue, hlength⟩

/-- A place for Bignums. -/
def firstHeap : BignumHeap where
  address := fun _ => 0x100000000
  above := fun _ => le_rfl
  below := fun _ => by decide

/-- An argument of the name `n` with the value 42. -/
theorem describesItself_fortyTwo :
    ∃ var, VariableSource.record firstHeap (.coerced (some [0x6e]) (.integer 42)) = some var ∧
      DescribesItself [0x6e] var :=
  ⟨_, rfl, (describesItself_iff firstHeap (.coerced (some [0x6e]) (.integer 42)) _ rfl).mpr
    ⟨some [0x6e], .integer 42, rfl, trivial, .inl (by decide)⟩⟩

/-- `true`: the length says two bytes, the type and the length of the name, and three follow. -/
theorem not_describesItself_true :
    ∃ var, VariableSource.record firstHeap (.coerced none .true) = some var ∧
      ¬DescribesItself [] var := by
  refine ⟨_, rfl, fun h => ?_⟩
  have hlength := (length_field_iff _).mp h.length
  exact absurd hlength (by decide)

/-! ## Integers -/

/-- The width of the integer types in bytes, and whether they have a sign. -/
def VariableType.integer : VariableType → Option (Nat × Bool)
  | .short => some (2, true)
  | .unsignedShort => some (2, false)
  | .int32 => some (4, true)
  | .unsignedInt32 => some (4, false)
  | .long => some (8, true)
  | .unsignedLong => some (8, false)
  | _ => none

/-- The number in the bytes of a record of a type. -/
def readInteger (type : VariableType) (stored : Bytes) : Option Int :=
  match type.integer with
  | none => none
  | some (width, signed) =>
      if stored.length = width then
        some (if signed then (LittleEndian.decode stored : Int).bmod (256 ^ width)
          else LittleEndian.decode stored)
      else none

/-- The text of a string record. -/
def VariableValue.text : VariableValue → Option Bytes
  | .encodedString s => some s.bytes
  | .largestring s => some s.bytes
  | _ => none

/-- A record of an integer: it can be read back, or its digits are all there. -/
def IntegerPreserved (n : Int) (record : Option VariableInfo) : Prop :=
  ∃ var, record = some var ∧
    if -2 ^ 63 ≤ n ∧ n < 2 ^ 64 then readInteger var.as.type var.as.encode = some n
    else var.as.text = some (utf16leOfAscii (integerDigits n))

/-- The bytes of a number at the width of a type without a sign. -/
theorem readInteger_unsigned {type : VariableType} {width m : Nat}
    (h : type.integer = some (width, false)) (hm : m < 256 ^ width) :
    readInteger type (LittleEndian.encode width m) = some (m : Int) := by
  rw [readInteger, h]
  apply (if_pos (LittleEndian.length_encode width m)).trans
  rw [LittleEndian.decode_encode_of_lt hm]
  rfl

/-- The bytes of a number at the width of a type with a sign. -/
theorem readInteger_signed {type : VariableType} {width m : Nat}
    (h : type.integer = some (width, true)) (hm : m < 256 ^ width) :
    readInteger type (LittleEndian.encode width m) = some ((m : Int).bmod (256 ^ width)) := by
  rw [readInteger, h]
  apply (if_pos (LittleEndian.length_encode width m)).trans
  rw [LittleEndian.decode_encode_of_lt hm]
  rfl

/-- A signed number of 16 bits is read back. -/
theorem readInteger_short (x : Int16) : readInteger .short (packLength x) = some x.toInt := by
  rw [← Int16.toInt_toBitVec, BitVec.toInt_eq_toNat_bmod]
  exact readInteger_signed rfl x.toUInt16.toNat_lt

/-- A signed number of 32 bits is read back. -/
theorem readInteger_int32 (x : Int32) : readInteger .int32 (packInt32 x) = some x.toInt := by
  rw [← Int32.toInt_toBitVec, BitVec.toInt_eq_toNat_bmod]
  exact readInteger_signed rfl x.toUInt32.toNat_lt

/-- A signed number of 64 bits is read back. -/
theorem readInteger_long (x : Int64) : readInteger .long (packInt64 x) = some x.toInt := by
  rw [← Int64.toInt_toBitVec, BitVec.toInt_eq_toNat_bmod]
  exact readInteger_signed rfl x.toUInt64.toNat_lt

/-- A number of 16 bits is read back. -/
theorem readInteger_unsignedShort (x : UInt16) :
    readInteger .unsignedShort (packUInt16 x) = some (x.toNat : Int) :=
  readInteger_unsigned rfl x.toNat_lt

/-- A number of 32 bits is read back. -/
theorem readInteger_unsignedInt32 (x : UInt32) :
    readInteger .unsignedInt32 (packUInt32 x) = some (x.toNat : Int) :=
  readInteger_unsigned rfl x.toNat_lt

/-- A number of 64 bits is read back. -/
theorem readInteger_unsignedLong (x : UInt64) :
    readInteger .unsignedLong (packUInt64 x) = some (x.toNat : Int) :=
  readInteger_unsigned rfl x.toNat_lt

section

variable {name : Option Bytes} {n : Int}

/-- A number that can be read back. -/
theorem integerPreserved_coerceNumber {as : VariableValue} {size : Nat}
    (hn : -2 ^ 63 ≤ n ∧ n < 2 ^ 64) (h : readInteger as.type as.encode = some n) :
    IntegerPreserved n (coerceNumber name (some as) size) :=
  ⟨_, rfl, by rwa [if_pos hn]⟩

/-- In the range of `short` the coercion to `short` preserves the integer. -/
theorem integerPreserved_short (h : -2 ^ 15 ≤ n ∧ n < 2 ^ 15) :
    IntegerPreserved n (rbRgVtCoerceShort name n) := by
  rw [rbRgVtCoerceShort, num2Short, if_pos h]
  have hvalue : (Int16.ofInt n).toInt = n := by
    rw [Int16.toInt_ofInt]
    exact Int.bmod_eq_of_le h.1 h.2
  apply integerPreserved_coerceNumber (by omega)
  exact (readInteger_short _).trans (congrArg some hvalue)

/-- In the range of `unsigned short`. -/
theorem integerPreserved_unsignedShort (h : 0 ≤ n ∧ n < 2 ^ 16) :
    IntegerPreserved n (rbRgVtCoerceUnsignedShort name n) := by
  rw [rbRgVtCoerceUnsignedShort, num2Ushort, if_pos (by omega)]
  have hvalue : ((UInt16.ofInt n).toNat : Int) = n := by
    rw [UInt16.ofInt, UInt16.toNat_ofNat']
    omega
  apply integerPreserved_coerceNumber (by omega)
  exact (readInteger_unsignedShort _).trans (congrArg some hvalue)

/-- In the range of `int32` the coercion to `int32` preserves the integer. -/
theorem integerPreserved_int32 (h : -2 ^ 31 ≤ n ∧ n < 2 ^ 31) :
    IntegerPreserved n (rbRgVtCoerceInt32 name n) := by
  rw [rbRgVtCoerceInt32, num2Int, if_pos h]
  have hvalue : (Int32.ofInt n).toInt = n := by
    rw [Int32.toInt_ofInt]
    exact Int.bmod_eq_of_le h.1 h.2
  apply integerPreserved_coerceNumber (by omega)
  exact (readInteger_int32 _).trans (congrArg some hvalue)

/-- In the range of `unsigned int32`. -/
theorem integerPreserved_unsignedInt32 (h : 0 ≤ n ∧ n < 2 ^ 32) :
    IntegerPreserved n (rbRgVtCoerceUnsignedInt32 name n) := by
  rw [rbRgVtCoerceUnsignedInt32, num2Uint, if_pos (by omega)]
  have hvalue : ((UInt32.ofInt n).toNat : Int) = n := by
    rw [UInt32.ofInt, UInt32.toNat_ofNat']
    omega
  apply integerPreserved_coerceNumber (by omega)
  exact (readInteger_unsignedInt32 _).trans (congrArg some hvalue)

/-- In the range of `long` the coercion to `long` preserves the integer. -/
theorem integerPreserved_long (h : -2 ^ 63 ≤ n ∧ n < 2 ^ 63) :
    IntegerPreserved n (rbRgVtCoerceLong name n) := by
  rw [rbRgVtCoerceLong, num2Ll, if_pos h]
  have hvalue : (Int64.ofInt n).toInt = n := by
    rw [Int64.toInt_ofInt]
    exact Int.bmod_eq_of_le h.1 h.2
  apply integerPreserved_coerceNumber (by omega)
  exact (readInteger_long _).trans (congrArg some hvalue)

/-- In the range of `unsigned long`. -/
theorem integerPreserved_unsignedLong (h : 0 ≤ n ∧ n < 2 ^ 64) :
    IntegerPreserved n (rbRgVtCoerceUnsignedLong name n) := by
  rw [rbRgVtCoerceUnsignedLong, num2Ull, if_pos (by omega)]
  have hvalue : ((UInt64.ofInt n).toNat : Int) = n := by
    rw [UInt64.ofInt, UInt64.toNat_ofNat']
    omega
  apply integerPreserved_coerceNumber (by omega)
  exact (readInteger_unsignedLong _).trans (congrArg some hvalue)

/-- **Every Fixnum is preserved**: the ranges are those of the types that are chosen. -/
theorem integerPreserved_fixnum (h : isFixnum n = true) :
    IntegerPreserved n (rbRgVtCoerceFixnum name n) := by
  have hrange : -2 ^ 62 ≤ n ∧ n < 2 ^ 62 := by simpa [isFixnum] using h
  rw [rbRgVtCoerceFixnum]
  split
  · exact integerPreserved_unsignedShort (by omega)
  split
  · exact integerPreserved_short (by omega)
  split
  · exact integerPreserved_unsignedInt32 (by omega)
  split
  · exact integerPreserved_int32 (by omega)
  split
  · exact integerPreserved_unsignedLong (by omega)
  split
  · exact integerPreserved_long (by omega)
  · omega

/-- The digits of a number in UTF-16LE. -/
theorem length_utf16leOfAscii (s : Bytes) : (utf16leOfAscii s).length = 2 * s.length := by
  induction s with
  | nil => rfl
  | cons c s ih =>
      rw [utf16leOfAscii, List.flatMap_cons, List.length_append, ← utf16leOfAscii, ih]
      simp only [List.length_cons, List.length_nil]
      omega

/-- The numeral of an integer has a digit at least. -/
theorem length_integerDigits_pos (n : Int) : 0 < (integerDigits n).length := by
  rw [integerDigits, List.length_append]
  exact Nat.add_pos_right _ (length_decimal_pos _)

/-- A string record holds 2048 digits. -/
theorem integerPreserved_string (hn : ¬(-2 ^ 63 ≤ n ∧ n < 2 ^ 64)) :
    IntegerPreserved n (rbRgVtCoerceString name (integerText n)) ↔
      (integerDigits n).length ≤ 2048 := by
  have hpos := length_integerDigits_pos n
  have hlength := length_utf16leOfAscii (integerDigits n)
  have htake : (utf16leOfAscii (integerDigits n)).take rgMaxStringSize =
      utf16leOfAscii (integerDigits n) ↔ (integerDigits n).length ≤ 2048 := by
    rw [List.take_eq_self_iff, hlength, rgMaxStringSize]
    omega
  have htext : (rbRgVtCoerceString name (integerText n)).bind (fun var => var.as.text) =
      some ((utf16leOfAscii (integerDigits n)).take rgMaxStringSize) := by
    have hne : ¬(integerText n).bytes.length = 0 := hpos.ne'
    rw [rbRgVtCoerceString, if_neg hne]
    simp only [integerText, Option.map_some]
    split <;> rfl
  rw [← htake]
  constructor
  · rintro ⟨var, hvar, htext'⟩
    rw [if_neg hn] at htext'
    rw [hvar, Option.bind_some, htext'] at htext
    exact (Option.some.inj htext).symm
  · intro hwhole
    obtain ⟨var, hvar, htext'⟩ := Option.bind_eq_some_iff.mp htext
    exact ⟨var, hvar, by rwa [if_neg hn, htext', Option.some.injEq]⟩

/-- The `VALUE` of a Bignum is an address. -/
theorem ull2num_eq_address (heap : BignumHeap) {result : Nat} (h : 2 ^ 62 ≤ result) :
    ull2num heap result = heap.address result := by
  rw [ull2num, if_neg (by omega)]

/-- An address is positive, also as a number with a sign. -/
theorem toInt_address (heap : BignumHeap) (result : Nat) :
    (heap.address result).toInt64.toInt = (heap.address result).toNat := by
  have hbelow := heap.below result
  have hbits : (heap.address result).toInt64.toBitVec.toNat = (heap.address result).toNat := rfl
  rw [← Int64.toInt_toBitVec, BitVec.toInt_eq_toNat_bmod, hbits]
  exact Int.bmod_eq_of_le (by omega) (by omega)

/-- **Bignums**: positive ones are preserved, and those that are converted to negative numbers
raise, because the address of the converted number is above `INT32_MIN`. -/
theorem integerPreserved_bignum (heap : BignumHeap) (h : isFixnum n = false) :
    IntegerPreserved n (coerceBignum heap name n) ↔
      ¬(-2 ^ 63 ≤ n ∧ n < -2 ^ 62) ∧
        ((-2 ^ 63 ≤ n ∧ n < 2 ^ 64) ∨ (integerDigits n).length ≤ 2048) := by
  have hrange : ¬(-2 ^ 62 ≤ n ∧ n < 2 ^ 62) := by simpa [isFixnum] using h
  rw [coerceBignum, rbProtectRbBig2ull, rbBig2ull]
  by_cases hn : -2 ^ 63 ≤ n ∧ n < 2 ^ 64
  · rw [if_pos hn, Option.map_some, ull2num_eq_address heap (by omega)]
    have habove := heap.above (n % 2 ^ 64).toNat
    by_cases hpos : 0 < n
    · have hlong : ¬(heap.address (n % 2 ^ 64).toNat).toNat ≤ 4294967295 := by omega
      simp only [if_pos hpos, if_neg hlong]
      exact iff_of_true (integerPreserved_unsignedLong (by omega)) ⟨by omega, .inl hn⟩
    · -- the handle passes for a number that fits 32 bits
      have hint : -2147483648 ≤ (heap.address (n % 2 ^ 64).toNat).toInt64.toInt := by
        rw [toInt_address]
        omega
      simp only [if_neg hpos, if_pos hint]
      refine iff_of_false ?_ (by omega)
      rintro ⟨var, hvar, -⟩
      rw [rbRgVtCoerceInt32, num2Int, if_neg (by omega)] at hvar
      cases hvar
  · rw [if_neg hn, Option.map_none]
    show IntegerPreserved n (rbRgVtCoerceString name (integerText n)) ↔ _
    rw [integerPreserved_string hn]
    omega

end

/-- **Which integers are preserved**: all but the negative Bignums of 64 bits, for which the
coercion raises, and the numbers of more digits than a string record holds. -/
theorem integerPreserved_iff (heap : BignumHeap) (name : Option Bytes) (n : Int) :
    IntegerPreserved n (rbRgVtCoerce heap name (.integer n)) ↔
      ¬(-2 ^ 63 ≤ n ∧ n < -2 ^ 62) ∧
        ((-2 ^ 63 ≤ n ∧ n < 2 ^ 64) ∨ (integerDigits n).length ≤ 2048) := by
  rw [rbRgVtCoerce]
  by_cases h : isFixnum n = true
  · have hrange : -2 ^ 62 ≤ n ∧ n < 2 ^ 62 := by simpa [isFixnum] using h
    rw [if_pos h]
    exact iff_of_true (integerPreserved_fixnum h) ⟨by omega, .inl (by omega)⟩
  · rw [if_neg h]
    exact integerPreserved_bignum heap (by simpa using h)

/-- The coercion of `INT64_MIN` raises. -/
theorem rbRgVtCoerce_int64Min :
    rbRgVtCoerce firstHeap none (.integer (-2 ^ 63)) = none ∧
      ¬IntegerPreserved (-2 ^ 63) (rbRgVtCoerce firstHeap none (.integer (-2 ^ 63))) := by
  have hraises : rbRgVtCoerce firstHeap none (.integer (-2 ^ 63)) = none := by decide
  rw [hraises]
  exact ⟨rfl, fun ⟨var, hvar, _⟩ => by cases hvar⟩

end RaygunApm
