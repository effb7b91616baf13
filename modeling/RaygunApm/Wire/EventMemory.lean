import RaygunApm.Wire.RubyEvent
import RaygunApm.Wire.Variable

/-! # Events in memory

The data of an event object is a union: every attribute has its place among the bytes, whatever the
type of the event is, and few of the cases of `[]=` look at the type. The encoders read the lengths
of their strings from the same bytes. Offsets are those of the natural layout. -/

namespace RaygunApm

open ByteMemory

/-- The classes of events: one more than there are types of events that are sent. -/
inductive EventClass where
  | batch
  | event (type : EventType)
  deriving DecidableEq

/-- The size of the union: its largest member is the one of SQL. -/
def rgEventDataSize : Nat := 16408

/-- `rg_event_t`, with its data as it is in memory. -/
structure EventMemory where
  length : RgLength
  pid : UInt32
  tid : UInt32
  timestamp : Int64
  data : Bytes
  /-- The union. -/
  data_size : data.length = rgEventDataSize

/-- `rb_rg_event_alloc`. -/
def EventMemory.rbRgEventAlloc : EventMemory where
  length := 0
  pid := 0
  tid := 0
  timestamp := 0
  data := List.replicate rgEventDataSize 0
  data_size := List.length_replicate

/-! ## Stores -/

/-- An assignment to bytes of the union, or a `memcpy`. -/
structure Store where
  offset : Nat
  block : Bytes
  /-- The bytes stay inside the union. -/
  inside : offset + block.length ≤ rgEventDataSize

/-- The store is carried out. -/
def EventMemory.store (event : EventMemory) (store : Store) : EventMemory :=
  { event with
    data := writeAt event.data store.offset store.block
    data_size := by rw [length_writeAt (by rw [event.data_size]; exact store.inside), event.data_size] }

/-- The size of the member behind an attribute. -/
def Attribute.size : Attribute → Nat
  | .pid | .tid | .parentTid | .functionId => 4
  | .timestamp | .duration | .frequency | .exceptionId | .instanceId => 8
  | .tailcall | .methodSource => 1
  | .status => 2
  | .className | .methodName | .provider | .host | .database | .query | .correlationId | .url
  | .technologyType | .processType | .apiKey => 4100
  | .verb => 257

/-- `rb_rg_encode_string` into an `rg_encoded_string_t`: the encoding, the length and the bytes. -/
def storeString (offset : Nat) (s : EncodedString) (h : offset + 4100 ≤ rgEventDataSize) : List Store :=
  have hlength : s.string.length ≤ 4096 := s.length_le
  [⟨offset, packByte s.encoding, by rw [length_packByte]; omega⟩,
    ⟨offset + 2, packLength s.length, by rw [length_packLength]; omega⟩,
    ⟨offset + 4, s.string, by omega⟩]

/-- `rb_rg_encode_short_string` into an `rg_encoded_short_string_t`. -/
def storeShortString (offset : Nat) (s : EncodedShortString) (h : offset + 257 ≤ rgEventDataSize) :
    List Store :=
  have hlength : s.string.length ≤ 127 := s.length_le
  [⟨offset, packByte s.encoding, by rw [length_packByte]; omega⟩,
    ⟨offset + 1, packByte s.length, by rw [length_packByte]; omega⟩,
    ⟨offset + 2, s.string, by omega⟩]

/-- The assignment of a scalar. -/
def storeScalar (offset : Nat) (block : Bytes) {size : Nat} (hblock : block.length = size)
    (h : offset + size ≤ rgEventDataSize) : List Store :=
  [⟨offset, block, hblock ▸ h⟩]

/-- The stores that set a member at an offset. -/
def Attribute.stores (offset : Nat) : (attr : Attribute) → attr.Member →
    offset + attr.size ≤ rgEventDataSize → List Store
  | .pid, m, h | .tid, m, h | .parentTid, m, h | .functionId, m, h =>
      storeScalar offset (packUInt32 m) (length_packUInt32 m) h
  | .timestamp, m, h | .duration, m, h => storeScalar offset (packInt64 m) (length_packInt64 m) h
  | .frequency, m, h | .exceptionId, m, h | .instanceId, m, h =>
      storeScalar offset (packUInt64 m) (length_packUInt64 m) h
  | .tailcall, m, h | .methodSource, m, h =>
      storeScalar offset (packByte m) (length_packByte m) h
  | .status, m, h => storeScalar offset (packUInt16 m) (length_packUInt16 m) h
  | .className, m, h | .methodName, m, h | .provider, m, h | .host, m, h | .database, m, h
  | .query, m, h | .correlationId, m, h | .url, m, h | .technologyType, m, h | .processType, m, h
  | .apiKey, m, h => storeString offset m h
  | .verb, m, h => storeShortString offset m h

/-! ## `[]=` -/

/-- What a case of `[]=` does with a value. -/
inductive Place where
  /-- A member of the header is set. -/
  | header
  /-- A member of the union is set. -/
  | data (offset : Nat)
  /-- There is no case for the type of the event. -/
  | nowhere
  /-- "Invalid type". -/
  | invalid
  deriving DecidableEq

/-- The cases of `[]=`, of which some look at the type of the event. -/
def Attribute.place (cls : EventClass) : Attribute → Place
  | .pid | .tid | .timestamp => .header
  | .parentTid => .data 0
  | .frequency => .data 0
  | .exceptionId => .data 0
  | .functionId => .data 0
  | .instanceId => .data 8
  | .tailcall => .data 4
  | .methodSource => .data 8204
  | .className =>
      match cls with
      | .event .methodinfo => .data 4
      | .event .exceptionThrown => .data 8
      | _ => .nowhere
  | .methodName => .data 4104
  | .provider => .data 0
  | .host => .data 4100
  | .database => .data 8200
  | .query => .data 12300
  | .correlationId => .data 4108
  | .url => .data 0
  | .verb => .data 4100
  | .status => .data 4358
  | .duration =>
      match cls with
      | .event .sqlInformation => .data 16400
      | .event .httpIncomingInformation | .event .httpOutgoingInformation => .data 4360
      | _ => .invalid
  | .technologyType =>
      match cls with
      | .event .processType => .data 0
      | .event .beginTransaction => .data 4100
      | _ => .nowhere
  | .processType =>
      match cls with
      | .event .processType => .data 4100
      | .event .beginTransaction => .data 8200
      | _ => .nowhere
  | .apiKey => .data 0

/-- All members lie inside the union. -/
theorem Attribute.place_inside {cls : EventClass} {attr : Attribute} {offset : Nat}
    (h : attr.place cls = .data offset) : offset + attr.size ≤ rgEventDataSize := by
  cases attr with
  | pid | tid | timestamp => cases h
  -- these cases look at the type of the event
  | className | duration | technologyType | processType =>
      cases cls with
      | batch => cases h
      | event type => cases type <;> cases h <;> decide
  | _ =>
      obtain rfl := Place.data.inj h
      decide

/-- A call of `[]=` with any attribute. -/
structure AttributeCall where
  attr : Attribute
  val : attr.Value

/-- The stores of a call to the union, unless it raises. -/
def AttributeCall.stores (cls : EventClass) (call : AttributeCall) : Option (List Store) :=
  match h : call.attr.place cls with
  | .header => some []
  | .data offset =>
      some (call.attr.stores offset (call.attr.coerce call.val) (Attribute.place_inside h))
  | .nowhere => some []
  | .invalid => none

/-- The header attributes. -/
def EventMemory.setHeader (event : EventMemory) : AttributeCall → EventMemory
  | ⟨.pid, val⟩ => { event with pid := val }
  | ⟨.tid, val⟩ => { event with tid := val }
  | ⟨.timestamp, val⟩ => { event with timestamp := val }
  | _ => event

/-! ## The encoders -/

namespace EventMemory

/-- A `memcpy` of an encoder out of the union, and how much there is of the member. -/
structure Copy where
  offset : Nat
  size : Nat
  room : Nat

/-- The conversion of a length to `size_t`. -/
def sizeOfLength (length : RgLength) : Nat := (length.toInt % 2 ^ 64).toNat

/-- The number in some bytes of the union. -/
def number (data : Bytes) (offset size : Nat) : Nat := LittleEndian.decode (readAt data offset size)

/-- The length field of a string. -/
def stringLength (data : Bytes) (offset : Nat) : RgLength := Int16.ofNat (number data (offset + 2) 2)

/-- A scalar is copied. -/
def copyScalar (offset size : Nat) : List Copy := [⟨offset, size, size⟩]

/-- The length and the bytes of a string are copied. -/
def copyString (data : Bytes) (offset : Nat) : List Copy :=
  [⟨offset + 2, 2, 2⟩, ⟨offset + 4, sizeOfLength (stringLength data offset), rgMaxStringSize⟩]

/-- Of a string with its encoding. -/
def copyEncodedString (data : Bytes) (offset : Nat) : List Copy :=
  ⟨offset, 1, 1⟩ :: copyString data offset

/-- Of a short string, of which the array has `UINT8_MAX` bytes. -/
def copyShortString (data : Bytes) (offset : Nat) : List Copy :=
  [⟨offset + 1, 1, 1⟩, ⟨offset + 2, number data (offset + 1) 1, 255⟩]

/-- The value of a variable record, by the type byte. -/
def copyVariableValue (data : Bytes) (type : UInt8) (as : Nat) : List Copy :=
  if type = VariableType.boolean.code then copyScalar as 1
  else if type = VariableType.string.code then copyString data as
  else if type = VariableType.largestring.code then
    [⟨as, 4, 4⟩, ⟨as + 4, number data as 4, rgMaxStringSize⟩]
  else if type = VariableType.float.code then copyScalar as 4
  else if type = VariableType.short.code then copyScalar as 2
  else if type = VariableType.unsignedShort.code then copyScalar as 2
  else if type = VariableType.int32.code then copyScalar as 4
  else if type = VariableType.unsignedInt32.code then copyScalar as 4
  else if type = VariableType.long.code then copyScalar as 8
  else if type = VariableType.unsignedLong.code then copyScalar as 8
  else []

/-- `rg_encode_variableinfo`: length, type, length of the name, name and value, which is at 208. -/
def rgEncodeVariableinfo (data : Bytes) (offset : Nat) : List Copy :=
  [⟨offset, 2, 2⟩, ⟨offset + 2, 1, 1⟩, ⟨offset + 3, 1, 1⟩,
    ⟨offset + 4, number data (offset + 3) 1, rgMaxVariableName⟩] ++
    copyVariableValue data (UInt8.ofNat (number data (offset + 2) 1)) (offset + 208)

/-- `rg_encode_begin`. -/
def rgEncodeBegin : List Copy := copyScalar 0 4 ++ copyScalar 8 8 ++ copyScalar 16 1

/-- `rg_encode_end`: the void record that is the return value is read as a variable record. -/
def rgEncodeEnd (data : Bytes) : List Copy :=
  copyScalar 0 4 ++ copyScalar 4 1 ++ rgEncodeVariableinfo data 6

/-- `rg_encode_methodinfo`. -/
def rgEncodeMethodinfo (data : Bytes) : List Copy :=
  copyScalar 0 4 ++ copyString data 4 ++ copyString data 4104 ++ copyScalar 8204 1

/-- `rg_encode_exception_thrown`. -/
def rgEncodeExceptionThrown (data : Bytes) : List Copy :=
  copyScalar 0 8 ++ copyString data 8 ++ copyString data 4108

/-- `rg_encode_process_frequency`. -/
def rgEncodeProcessFrequency : List Copy := copyScalar 0 8

/-- `rg_encode_process_type`. -/
def rgEncodeProcessType (data : Bytes) : List Copy := copyString data 0 ++ copyString data 4100

/-- `rg_encode_sql`. -/
def rgEncodeSql (data : Bytes) : List Copy :=
  copyEncodedString data 0 ++ copyEncodedString data 4100 ++ copyEncodedString data 8200 ++
    copyEncodedString data 12300 ++ copyScalar 16400 8

/-- `rg_encode_http_in`. -/
def rgEncodeHttpIn (data : Bytes) : List Copy :=
  copyString data 0 ++ copyShortString data 4100 ++ copyScalar 4358 2 ++ copyScalar 4360 8

/-- `rg_encode_http_out`. -/
def rgEncodeHttpOut (data : Bytes) : List Copy :=
  copyString data 0 ++ copyShortString data 4100 ++ copyScalar 4358 2 ++ copyScalar 4360 8

/-- `rg_encode_begin_transaction`. -/
def rgEncodeBeginTransaction (data : Bytes) : List Copy :=
  copyString data 0 ++ copyString data 4100 ++ copyString data 8200

/-- `rg_encode_thread_started`. -/
def rgEncodeThreadStarted : List Copy := copyScalar 0 4

/-- The payload that is encoded for a class. -/
def payload (cls : EventClass) (data : Bytes) : List Copy :=
  match cls with
  | .batch => []
  | .event .beginFrame => rgEncodeBegin
  | .event .endFrame => rgEncodeEnd data
  | .event .methodinfo => rgEncodeMethodinfo data
  | .event .exceptionThrown => rgEncodeExceptionThrown data
  | .event .processFrequency => rgEncodeProcessFrequency
  | .event .processType => rgEncodeProcessType data
  | .event .sqlInformation => rgEncodeSql data
  | .event .httpIncomingInformation => rgEncodeHttpIn data
  | .event .httpOutgoingInformation => rgEncodeHttpOut data
  | .event .beginTransaction => rgEncodeBeginTransaction data
  | .event .threadStarted => rgEncodeThreadStarted
  | .event .threadEnded | .event .processEnded | .event .endTransaction => []

/-! ## The sizes -/

/-- Length field and bytes of a string. -/
def sizeString (data : Bytes) (offset : Nat) : Int := 2 + (stringLength data offset).toInt

/-- With the encoding. -/
def sizeEncodedString (data : Bytes) (offset : Nat) : Int := 1 + sizeString data offset

/-- Length field and bytes of a short string. -/
def sizeShortString (data : Bytes) (offset : Nat) : Int := 1 + number data (offset + 1) 1

/-- The value of a variable record. -/
def sizeVariableValue (data : Bytes) (type : UInt8) (as : Nat) : Int :=
  if type = VariableType.boolean.code then 1
  else if type = VariableType.string.code then sizeString data as
  else if type = VariableType.largestring.code then 4 + number data as 4
  else if type = VariableType.float.code then 4
  else if type = VariableType.short.code then 2
  else if type = VariableType.unsignedShort.code then 2
  else if type = VariableType.int32.code then 4
  else if type = VariableType.unsignedInt32.code then 4
  else if type = VariableType.long.code then 8
  else if type = VariableType.unsignedLong.code then 8
  else 0

/-- `rg_encode_variableinfo_size`. -/
def rgEncodeVariableinfoSize (data : Bytes) (offset : Nat) : RgLength :=
  Int16.ofInt (2 + 1 + 1 + number data (offset + 3) 1 +
    sizeVariableValue data (UInt8.ofNat (number data (offset + 2) 1)) (offset + 208))

/-- `rg_encode_begin_size`. -/
def rgEncodeBeginSize : RgLength := Int16.ofInt (rgMinPayload + 4 + 8 + 1)

/-- `rg_encode_end_size`. -/
def rgEncodeEndSize (data : Bytes) : RgLength :=
  Int16.ofInt (rgMinPayload + 4 + 1 + (rgEncodeVariableinfoSize data 6).toInt)

/-- `rg_encode_methodinfo_size`. -/
def rgEncodeMethodinfoSize (data : Bytes) : RgLength :=
  Int16.ofInt (rgMinPayload + 4 + sizeString data 4 + sizeString data 4104 + 1)

/-- `rg_encode_exception_thrown_size`. -/
def rgEncodeExceptionThrownSize (data : Bytes) : RgLength :=
  Int16.ofInt (rgMinPayload + 8 + sizeString data 8 + sizeString data 4108)

/-- `rg_encode_process_frequency_size`. -/
def rgEncodeProcessFrequencySize : RgLength := Int16.ofInt (rgMinPayload + 8)

/-- `rg_encode_process_type_size`. -/
def rgEncodeProcessTypeSize (data : Bytes) : RgLength :=
  Int16.ofInt (rgMinPayload + sizeString data 0 + sizeString data 4100)

/-- `rg_encode_sql_size`. -/
def rgEncodeSqlSize (data : Bytes) : RgLength :=
  Int16.ofInt (rgMinPayload + sizeEncodedString data 0 + sizeEncodedString data 4100 +
    sizeEncodedString data 8200 + sizeEncodedString data 12300 + 8)

/-- `rg_encode_http_in_size`. -/
def rgEncodeHttpInSize (data : Bytes) : RgLength :=
  Int16.ofInt (rgMinPayload + sizeString data 0 + sizeShortString data 4100 + 2 + 8)

/-- `rg_encode_http_out_size`. -/
def rgEncodeHttpOutSize (data : Bytes) : RgLength :=
  Int16.ofInt (rgMinPayload + sizeString data 0 + sizeShortString data 4100 + 2 + 8)

/-- `rg_encode_begin_transaction_size`. -/
def rgEncodeBeginTransactionSize (data : Bytes) : RgLength :=
  Int16.ofInt (rgMinPayload + sizeString data 0 + sizeString data 4100 + sizeString data 8200)

/-- `rg_encode_thread_started_size`. -/
def rgEncodeThreadStartedSize : RgLength := Int16.ofInt (rgMinPayload + 4)

/-- `rg_encode_size`. -/
def rgEncodeSize (cls : EventClass) (data : Bytes) : RgLength :=
  match cls with
  | .event .beginFrame => rgEncodeBeginSize
  | .event .endFrame => rgEncodeEndSize data
  | .event .methodinfo => rgEncodeMethodinfoSize data
  | .event .sqlInformation => rgEncodeSqlSize data
  | .event .httpIncomingInformation => rgEncodeHttpInSize data
  | .event .httpOutgoingInformation => rgEncodeHttpOutSize data
  | .batch => 0
  | .event .processFrequency => rgEncodeProcessFrequencySize
  | .event .exceptionThrown => rgEncodeExceptionThrownSize data
  | .event .processType => rgEncodeProcessTypeSize data
  | .event .beginTransaction => rgEncodeBeginTransactionSize data
  | .event .threadStarted => rgEncodeThreadStartedSize
  | .event .threadEnded | .event .processEnded | .event .endTransaction =>
      Int16.ofInt rgMinPayload

/-- `rb_rg_event_aset`, unless it raises. -/
def rbRgEventAset (cls : EventClass) (event : EventMemory) (call : AttributeCall) :
    Option EventMemory :=
  (call.stores cls).map fun stores =>
    let event := stores.foldl store (event.setHeader call)
    { event with length := rgEncodeSize cls event.data }

/-- An event object after some calls of `[]=`, unless one of them raises. -/
def assigned (cls : EventClass) (calls : List AttributeCall) : Option EventMemory :=
  calls.foldlM (rbRgEventAset cls) rbRgEventAlloc

end EventMemory

end RaygunApm
