import RaygunApm.Library.Numerals
import RaygunApm.Wire.Scalar

/-! # Variable records

`rg_variable_info_t` of `raygun_protocol.h`, the size and the encoding of `raygun_encoder.c`, and
`raygun_coercion.c`, which turns a Ruby value into such a record. A result `none` of a coercion is
an exception. Floats are the bits of the single that is stored, and the coercion of strings to
UTF-16LE is part of a string. -/

namespace RaygunApm

open Numerals

/-- `RG_MAX_VARIABLE_NAME`. -/
def rgMaxVariableName : Nat := 200

/-- `rg_variable_t`, of which the other types do not occur. -/
inductive VariableType where
  | void | boolean | short | unsignedShort | int32 | unsignedInt32 | long | unsignedLong | float
  | string | emptystring | nullobject | largestring
  deriving DecidableEq

/-- The type byte. -/
def VariableType.code : VariableType → UInt8
  | .void => 0x1
  | .boolean => 0x2
  | .short => 0x4
  | .unsignedShort => 0x5
  | .int32 => 0x6
  | .unsignedInt32 => 0x7
  | .long => 0x8
  | .unsignedLong => 0x9
  | .float => 0xa
  | .string => 0xc
  | .emptystring => 0x10
  | .nullobject => 0x12
  | .largestring => 0x13

/-- The bytes in use of a string member. -/
structure RecordString where
  bytes : Bytes
  /-- The array holds them. -/
  length_le : bytes.length ≤ rgMaxStringSize
  deriving DecidableEq

/-- As much of a string as the array of the record holds. -/
def RecordString.ofBytes (bytes : Bytes) : RecordString :=
  ⟨bytes.take rgMaxStringSize, List.length_take_le _ _⟩

/-- The member of the union that goes with the type. -/
inductive VariableValue where
  | void
  | boolean (value : Int8)
  | short (value : Int16)
  | unsignedShort (value : UInt16)
  | int32 (value : Int32)
  | unsignedInt32 (value : UInt32)
  | long (value : Int64)
  | unsignedLong (value : UInt64)
  | float (bits : UInt32)
  | encodedString (value : RecordString)
  | emptystring
  | nullobject
  | largestring (value : RecordString)
  deriving DecidableEq

/-- The type. -/
def VariableValue.type : VariableValue → VariableType
  | .void => .void
  | .boolean _ => .boolean
  | .short _ => .short
  | .unsignedShort _ => .unsignedShort
  | .int32 _ => .int32
  | .unsignedInt32 _ => .unsignedInt32
  | .long _ => .long
  | .unsignedLong _ => .unsignedLong
  | .float _ => .float
  | .encodedString _ => .string
  | .emptystring => .emptystring
  | .nullobject => .nullobject
  | .largestring _ => .largestring

/-- `rg_variable_info_t`. -/
structure VariableInfo where
  /-- What the record says of its length. -/
  length : RgLength
  /-- The bytes of the name in use. -/
  name : Bytes
  /-- The array holds them. -/
  name_le : name.length ≤ rgMaxVariableName
  /-- The value. -/
  as : VariableValue
  deriving DecidableEq

/-- The field `name_length`. -/
def VariableInfo.nameLength (var : VariableInfo) : UInt8 := UInt8.ofNat var.name.length

/-! ## The encoder -/

/-- Bytes of an `int32_t`. -/
def packInt32 (x : Int32) : Bytes := LittleEndian.encode 4 x.toUInt32.toNat

@[simp] theorem length_packInt32 (x : Int32) : (packInt32 x).length = 4 := by simp [packInt32]

/-- The cases of `rg_encode_variableinfo_size`. -/
def VariableValue.size : VariableValue → Nat
  | .boolean _ => 1
  | .encodedString s => 2 + s.bytes.length
  | .largestring s => 4 + s.bytes.length
  | .float _ => 4
  | .short _ => 2
  | .unsignedShort _ => 2
  | .int32 _ => 4
  | .unsignedInt32 _ => 4
  | .long _ => 8
  | .unsignedLong _ => 8
  | .void => 0
  | .emptystring => 0
  | .nullobject => 0

/-- `rg_encode_variableinfo_size`. -/
def VariableInfo.rgEncodeVariableinfoSize (var : VariableInfo) : RgLength :=
  Int16.ofNat (2 + 1 + 1 + var.nameLength.toNat + var.as.size)

/-- The cases of `rg_encode_variableinfo`. -/
def VariableValue.encode : VariableValue → Bytes
  | .boolean value => packByte value.toUInt8
  | .encodedString s => packLength (Int16.ofNat s.bytes.length) ++ s.bytes
  | .largestring s => packUInt32 (UInt32.ofNat s.bytes.length) ++ s.bytes
  | .float bits => packUInt32 bits
  | .short value => packLength value
  | .unsignedShort value => packUInt16 value
  | .int32 value => packInt32 value
  | .unsignedInt32 value => packUInt32 value
  | .long value => packInt64 value
  | .unsignedLong value => packUInt64 value
  | .void => []
  | .emptystring => []
  | .nullobject => []

/-- `rg_encode_variableinfo`: the bytes that are written. -/
def VariableInfo.rgEncodeVariableinfo (var : VariableInfo) : Bytes :=
  packLength var.length ++ packByte var.as.type.code ++ packByte var.nameLength ++ var.name ++
    var.as.encode

/-! ## Ruby values -/

/-- A Ruby string: its bytes, and what `rb_str_encode` makes of it in UTF-16LE, unless it raises. -/
structure RubyText where
  bytes : Bytes
  utf16le : Option Bytes
  deriving DecidableEq

/-- `rb_big2str(n, 10)`. -/
def integerDigits (n : Int) : Bytes := (if n < 0 then [0x2d] else []) ++ decimal n.natAbs

/-- In UTF-16LE each character of ASCII is followed by a zero byte. -/
def utf16leOfAscii (s : Bytes) : Bytes := s.flatMap fun c => [c, 0]

/-- The digits of a number as a string. -/
def integerText (n : Int) : RubyText := ⟨integerDigits n, some (utf16leOfAscii (integerDigits n))⟩

/-- A Ruby value, by its class. -/
inductive RubyValue where
  | nil
  /-- A float, by the bits of the single it is cast to. -/
  | float (bits : UInt32)
  | true
  | false
  | integer (n : Int)
  | symbol (text : RubyText)
  | string (text : RubyText)
  /-- A string in ASCII-8BIT, by the name of its class. -/
  | binary (className : RubyText)
  /-- Any other object, by the name of its class. -/
  | object (className : RubyText)

/-- Where the Bignums that `ULL2NUM` makes are in memory. -/
structure BignumHeap where
  address : Nat → UInt64
  /-- Addresses are above `UINT32_MAX`. -/
  above : ∀ n, 2 ^ 32 ≤ (address n).toNat
  /-- Addresses are positive as signed numbers. -/
  below : ∀ n, (address n).toNat < 2 ^ 63

/-- `FIXNUM_P` on a 64-bit build. -/
def isFixnum (n : Int) : Bool := -2 ^ 62 ≤ n ∧ n < 2 ^ 62

/-- `NUM2SHORT`. -/
def num2Short (n : Int) : Option Int16 :=
  if -2 ^ 15 ≤ n ∧ n < 2 ^ 15 then some (Int16.ofInt n) else none

/-- `NUM2USHORT`. -/
def num2Ushort (n : Int) : Option UInt16 :=
  if -2 ^ 15 ≤ n ∧ n < 2 ^ 16 then some (UInt16.ofInt n) else none

/-- `NUM2INT`. -/
def num2Int (n : Int) : Option Int32 :=
  if -2 ^ 31 ≤ n ∧ n < 2 ^ 31 then some (Int32.ofInt n) else none

/-- `NUM2UINT`. -/
def num2Uint (n : Int) : Option UInt32 :=
  if -2 ^ 31 ≤ n ∧ n < 2 ^ 32 then some (UInt32.ofInt n) else none

/-- `NUM2LL`. -/
def num2Ll (n : Int) : Option Int64 :=
  if -2 ^ 63 ≤ n ∧ n < 2 ^ 63 then some (Int64.ofInt n) else none

/-- `NUM2ULL`. -/
def num2Ull (n : Int) : Option UInt64 :=
  if -2 ^ 63 ≤ n ∧ n < 2 ^ 64 then some (UInt64.ofInt n) else none

/-- `rb_big2ull`. -/
def rbBig2ull (n : Int) : Option Nat :=
  if -2 ^ 63 ≤ n ∧ n < 2 ^ 64 then some (n % 2 ^ 64).toNat else none

/-- `ULL2NUM`: the `VALUE` of a Fixnum, or of a Bignum on the heap. -/
def ull2num (heap : BignumHeap) (result : Nat) : UInt64 :=
  if result < 2 ^ 62 then UInt64.ofNat (2 * result + 1) else heap.address result

/-- `rb_protect(rb_protect_rb_big2ull, obj, &status)`: a `VALUE`, or a status. -/
def rbProtectRbBig2ull (heap : BignumHeap) (n : Int) : Option UInt64 :=
  (rbBig2ull n).map (ull2num heap)

/-! ## The coercion -/

/-- The name that is stored: its length is narrowed to a byte before it is cut. The 200 characters
of `rb_str_substr` start with the 200 bytes that are copied. -/
def storedName (obj : Bytes) : Bytes :=
  let nameLength := UInt8.ofNat obj.length
  obj.take (if rgMaxVariableName < nameLength.toNat then rgMaxVariableName else nameLength.toNat)

/-- The array holds the stored name. -/
theorem length_storedName_le (obj : Bytes) : (storedName obj).length ≤ rgMaxVariableName := by
  rw [storedName]
  apply (List.length_take_le _ _).trans
  split
  · exact le_rfl
  · omega

/-- `rb_rg_variable_info_init`, with the value that is stored next. The name may be nil. -/
def rbRgVariableInfoInit (name : Option Bytes) (as : VariableValue) : VariableInfo :=
  let stored := storedName (name.getD [])
  { length := Int16.ofNat (1 + 1 + stored.length)
    name := stored
    name_le := length_storedName_le _
    as := as }

/-- `var->length += n`. -/
def VariableInfo.grow (var : VariableInfo) (n : Nat) : VariableInfo :=
  { var with length := var.length + Int16.ofNat n }

/-- `rb_rg_vt_coerce_string`. -/
def rbRgVtCoerceString (name : Option Bytes) (obj : RubyText) : Option VariableInfo :=
  if obj.bytes.length = 0 then some (rbRgVariableInfoInit name .emptystring)
  else
    obj.utf16le.map fun encoded =>
      if rgMaxStringSize ≤ encoded.length then
        (rbRgVariableInfoInit name (.largestring (.ofBytes encoded))).grow (4 + rgMaxStringSize)
      else
        (rbRgVariableInfoInit name (.encodedString (.ofBytes encoded))).grow (2 + encoded.length)

/-- The coercions to a number: its record, with the size of the number added. -/
def coerceNumber (name : Option Bytes) (as : Option VariableValue) (size : Nat) :
    Option VariableInfo :=
  as.map fun as => (rbRgVariableInfoInit name as).grow size

/-- `rb_rg_vt_coerce_int32`. -/
def rbRgVtCoerceInt32 (name : Option Bytes) (n : Int) : Option VariableInfo :=
  coerceNumber name ((num2Int n).map .int32) 4

/-- `rb_rg_vt_coerce_unsigned_int32`. -/
def rbRgVtCoerceUnsignedInt32 (name : Option Bytes) (n : Int) : Option VariableInfo :=
  coerceNumber name ((num2Uint n).map .unsignedInt32) 4

/-- `rb_rg_vt_coerce_short`. -/
def rbRgVtCoerceShort (name : Option Bytes) (n : Int) : Option VariableInfo :=
  coerceNumber name ((num2Short n).map .short) 2

/-- `rb_rg_vt_coerce_unsigned_short`. -/
def rbRgVtCoerceUnsignedShort (name : Option Bytes) (n : Int) : Option VariableInfo :=
  coerceNumber name ((num2Ushort n).map .unsignedShort) 2

/-- `rb_rg_vt_coerce_long`. -/
def rbRgVtCoerceLong (name : Option Bytes) (n : Int) : Option VariableInfo :=
  coerceNumber name ((num2Ll n).map .long) 8

/-- `rb_rg_vt_coerce_unsigned_long`. -/
def rbRgVtCoerceUnsignedLong (name : Option Bytes) (n : Int) : Option VariableInfo :=
  coerceNumber name ((num2Ull n).map .unsignedLong) 8

/-- `rb_rg_vt_coerce_fixnum`. -/
def rbRgVtCoerceFixnum (name : Option Bytes) (val : Int) : Option VariableInfo :=
  if 0 ≤ val ∧ val ≤ 65535 then rbRgVtCoerceUnsignedShort name val
  else if val < 0 ∧ -32768 ≤ val then rbRgVtCoerceShort name val
  else if 32767 ≤ val ∧ val ≤ 4294967295 then rbRgVtCoerceUnsignedInt32 name val
  else if val < -32768 ∧ -2147483648 ≤ val then rbRgVtCoerceInt32 name val
  else if 2147483647 < val then rbRgVtCoerceUnsignedLong name val
  else if val < -2147483648 then rbRgVtCoerceLong name val
  else none

/-- The case `T_BIGNUM` of `rb_rg_vt_coerce`. What is compared is the `VALUE` of the converted
number, as an unsigned and as a signed number; it is never above `UINT64_MAX` or below `INT64_MIN`.
-/
def coerceBignum (heap : BignumHeap) (name : Option Bytes) (n : Int) : Option VariableInfo :=
  match rbProtectRbBig2ull heap n with
  | none => rbRgVtCoerceString name (integerText n)
  | some i =>
      if 0 < n then
        if i.toNat ≤ 4294967295 then rbRgVtCoerceUnsignedInt32 name n
        else rbRgVtCoerceUnsignedLong name n
      else
        if -2147483648 ≤ i.toInt64.toInt then rbRgVtCoerceInt32 name n
        else rbRgVtCoerceLong name n

/-- `rb_rg_vt_coerce_nil`. -/
def rbRgVtCoerceNil (name : Option Bytes) : VariableInfo := rbRgVariableInfoInit name .nullobject

/-- `rb_rg_vt_coerce_boolean`. -/
def rbRgVtCoerceBoolean (name : Option Bytes) (obj : Bool) : VariableInfo :=
  rbRgVariableInfoInit name (.boolean (if obj then 1 else 0))

/-- `rb_rg_vt_coerce_float`. -/
def rbRgVtCoerceFloat (name : Option Bytes) (bits : UInt32) : VariableInfo :=
  rbRgVariableInfoInit name (.float bits)

/-- `rb_rg_vt_coerce`. -/
def rbRgVtCoerce (heap : BignumHeap) (name : Option Bytes) : RubyValue → Option VariableInfo
  | .nil => some (rbRgVtCoerceNil name)
  | .float bits => some (rbRgVtCoerceFloat name bits)
  | .true => some (rbRgVtCoerceBoolean name true)
  | .false => some (rbRgVtCoerceBoolean name false)
  | .integer n => if isFixnum n then rbRgVtCoerceFixnum name n else coerceBignum heap name n
  | .symbol text => rbRgVtCoerceString name text
  | .string text => rbRgVtCoerceString name text
  | .binary className => rbRgVtCoerceString name className
  | .object className => rbRgVtCoerceString name className

/-- The return value that the `RETURN` hook sends: its length is never set to anything else. -/
def voidReturnValue : VariableInfo where
  length := 0
  name := []
  name_le := Nat.zero_le _
  as := .void

end RaygunApm
