import RaygunApm.Wire.Scalar

/-! # Events and their encoders

`raygun_protocol.h` and `raygun_encoder.c`: the event types with their payloads, the size and the
encoding of every payload, the header, and the helpers that encode an event into the scratch buffer
of the context. Methods are encoded without arguments and return values, as in the default build. -/

namespace RaygunApm

open ByteMemory

/-- `rg_encoded_string_t`: the string holds `length` bytes of the array. -/
structure EncodedString where
  /-- Encoding of the string. -/
  encoding : UInt8
  /-- The bytes in use. -/
  string : Bytes
  /-- The array holds them. -/
  length_le : string.length ≤ rgMaxStringSize

/-- `rg_encoded_short_string_t`. -/
structure EncodedShortString where
  /-- Encoding of the string. -/
  encoding : UInt8
  /-- The bytes in use. -/
  string : Bytes
  /-- A verb is cut to this size. -/
  length_le : string.length ≤ rgMaxShortStringSize

/-- The length field of a string. -/
def EncodedString.length (s : EncodedString) : RgLength := Int16.ofNat s.string.length

/-- The length field of a short string. -/
def EncodedShortString.length (s : EncodedShortString) : UInt8 := UInt8.ofNat s.string.length

/-- `rg_event_type_t`, but for the batch, which is not an event. -/
inductive EventType where
  | beginFrame | endFrame | methodinfo | exceptionThrown | threadEnded | processEnded
  | processFrequency | processType | sqlInformation | httpIncomingInformation
  | httpOutgoingInformation | beginTransaction | endTransaction | threadStarted
  deriving DecidableEq

/-- The type byte. -/
def EventType.code : EventType → UInt8
  | .beginFrame => 0x1
  | .endFrame => 0x2
  | .methodinfo => 0xf
  | .exceptionThrown => 0x12
  | .threadEnded => 0x8
  | .processEnded => 0xa
  | .processFrequency => 0xb
  | .processType => 0xc
  | .sqlInformation => 0x64
  | .httpIncomingInformation => 0x65
  | .httpOutgoingInformation => 0x66
  | .beginTransaction => 0x10
  | .endTransaction => 0x11
  | .threadStarted => 0x13

/-- `RG_VT_VOID`. -/
def rgVtVoid : UInt8 := 0x1

/-- `rg_event_sql_t`. -/
structure EventSql where
  provider : EncodedString
  host : EncodedString
  database : EncodedString
  query : EncodedString
  duration : Int64

/-- `rg_event_http_in_t` and `rg_event_http_out_t`. -/
structure EventHttp where
  url : EncodedString
  verb : EncodedShortString
  status : UInt16
  duration : Int64

/-- `rg_event_methodinfo_2_t`. -/
structure EventMethodinfo where
  functionId : UInt32
  className : EncodedString
  methodName : EncodedString
  methodSource : UInt8

/-- The data of an event. -/
inductive EventData where
  | beginFrame (functionId : UInt32) (instanceId : UInt64) (argc : UInt8)
  /-- The return value is a void record, of which the length field is free. -/
  | endFrame (functionId : UInt32) (tailCall : UInt8) (returnLength : RgLength)
  | methodinfo (data : EventMethodinfo)
  | exceptionThrown (exceptionId : UInt64) (className correlationId : EncodedString)
  | threadEnded
  | processEnded
  | processFrequency (frequency : UInt64)
  | processType (technologyType processType : EncodedString)
  | sqlInformation (data : EventSql)
  | httpIncomingInformation (data : EventHttp)
  | httpOutgoingInformation (data : EventHttp)
  | beginTransaction (apiKey technologyType processType : EncodedString)
  | endTransaction
  | threadStarted (parentTid : UInt32)

/-- The type of an event. -/
def EventData.type : EventData → EventType
  | .beginFrame .. => .beginFrame
  | .endFrame .. => .endFrame
  | .methodinfo .. => .methodinfo
  | .exceptionThrown .. => .exceptionThrown
  | .threadEnded => .threadEnded
  | .processEnded => .processEnded
  | .processFrequency .. => .processFrequency
  | .processType .. => .processType
  | .sqlInformation .. => .sqlInformation
  | .httpIncomingInformation .. => .httpIncomingInformation
  | .httpOutgoingInformation .. => .httpOutgoingInformation
  | .beginTransaction .. => .beginTransaction
  | .endTransaction => .endTransaction
  | .threadStarted .. => .threadStarted

/-! ## Payloads -/

/-- Length and bytes of a string; its encoding is not sent. -/
def packString (s : EncodedString) : Bytes := packLength s.length ++ s.string

/-- Encoding, length and bytes of a string. -/
def packEncodedString (s : EncodedString) : Bytes := packByte s.encoding ++ packString s

/-- Length and bytes of a short string. -/
def packShortString (s : EncodedShortString) : Bytes := packByte s.length ++ s.string

/-- `rg_encode_begin`. -/
def rgEncodeBegin (functionId : UInt32) (instanceId : UInt64) (argc : UInt8) : Bytes :=
  packUInt32 functionId ++ (packUInt64 instanceId ++ packByte argc)

/-- `rg_encode_variableinfo` on the void return value: it has no name and no value. -/
def rgEncodeVariableinfo (length : RgLength) : Bytes :=
  packLength length ++ (packByte rgVtVoid ++ packByte 0)

/-- `rg_encode_end`. -/
def rgEncodeEnd (functionId : UInt32) (tailCall : UInt8) (returnLength : RgLength) : Bytes :=
  packUInt32 functionId ++ (packByte tailCall ++ rgEncodeVariableinfo returnLength)

/-- `rg_encode_methodinfo`. -/
def rgEncodeMethodinfo (data : EventMethodinfo) : Bytes :=
  packUInt32 data.functionId ++ (packString data.className ++
    (packString data.methodName ++ packByte data.methodSource))

/-- `rg_encode_exception_thrown`. -/
def rgEncodeExceptionThrown (exceptionId : UInt64) (className correlationId : EncodedString) :
    Bytes :=
  packUInt64 exceptionId ++ (packString className ++ packString correlationId)

/-- `rg_encode_process_frequency`. -/
def rgEncodeProcessFrequency (frequency : UInt64) : Bytes := packUInt64 frequency

/-- `rg_encode_process_type`. -/
def rgEncodeProcessType (technologyType processType : EncodedString) : Bytes :=
  packString technologyType ++ packString processType

/-- `rg_encode_sql`. -/
def rgEncodeSql (data : EventSql) : Bytes :=
  packEncodedString data.provider ++ (packEncodedString data.host ++
    (packEncodedString data.database ++ (packEncodedString data.query ++ packInt64 data.duration)))

/-- The common layout of `rg_encode_http_in` and `rg_encode_http_out`. -/
def packHttp (data : EventHttp) : Bytes :=
  packString data.url ++ (packShortString data.verb ++
    (packUInt16 data.status ++ packInt64 data.duration))

/-- `rg_encode_http_in`. -/
def rgEncodeHttpIn (data : EventHttp) : Bytes := packHttp data

/-- `rg_encode_http_out`. -/
def rgEncodeHttpOut (data : EventHttp) : Bytes := packHttp data

/-- `rg_encode_begin_transaction`. -/
def rgEncodeBeginTransaction (apiKey technologyType processType : EncodedString) : Bytes :=
  packString apiKey ++ (packString technologyType ++ packString processType)

/-- `rg_encode_thread_started`. -/
def rgEncodeThreadStarted (parentTid : UInt32) : Bytes := packUInt32 parentTid

/-- The payload behind the header. -/
def EventData.payload : EventData → Bytes
  | .beginFrame functionId instanceId argc => rgEncodeBegin functionId instanceId argc
  | .endFrame functionId tailCall returnLength => rgEncodeEnd functionId tailCall returnLength
  | .methodinfo data => rgEncodeMethodinfo data
  | .exceptionThrown exceptionId className correlationId =>
      rgEncodeExceptionThrown exceptionId className correlationId
  | .threadEnded => []
  | .processEnded => []
  | .processFrequency frequency => rgEncodeProcessFrequency frequency
  | .processType technology process => rgEncodeProcessType technology process
  | .sqlInformation data => rgEncodeSql data
  | .httpIncomingInformation data => rgEncodeHttpIn data
  | .httpOutgoingInformation data => rgEncodeHttpOut data
  | .beginTransaction apiKey technology process =>
      rgEncodeBeginTransaction apiKey technology process
  | .endTransaction => []
  | .threadStarted parentTid => rgEncodeThreadStarted parentTid

/-! ## Sizes -/

/-- The value of a length field in a sum. -/
def EncodedString.lengthNat (s : EncodedString) : Nat := s.length.toNatClampNeg

/-- `rg_encode_begin_size`. -/
def rgEncodeBeginSize : RgLength := Int16.ofNat (rgMinPayload + 4 + 8 + 1)

/-- `rg_encode_variableinfo_size` of the void return value. -/
def rgEncodeVariableinfoSize : RgLength := Int16.ofNat (2 + 1 + 1 + 0)

/-- `rg_encode_end_size`. -/
def rgEncodeEndSize : RgLength :=
  Int16.ofNat (rgMinPayload + 4 + 1 + rgEncodeVariableinfoSize.toNatClampNeg)

/-- `rg_encode_methodinfo_size`. -/
def rgEncodeMethodinfoSize (data : EventMethodinfo) : RgLength :=
  Int16.ofNat (rgMinPayload + 4 + 2 + data.className.lengthNat + 2 + data.methodName.lengthNat + 1)

/-- `rg_encode_exception_thrown_size`. -/
def rgEncodeExceptionThrownSize (className correlationId : EncodedString) : RgLength :=
  Int16.ofNat (rgMinPayload + 8 + 2 + className.lengthNat + 2 + correlationId.lengthNat)

/-- `rg_encode_process_frequency_size`. -/
def rgEncodeProcessFrequencySize : RgLength := Int16.ofNat (rgMinPayload + 8)

/-- `rg_encode_process_type_size`. -/
def rgEncodeProcessTypeSize (technologyType processType : EncodedString) : RgLength :=
  Int16.ofNat (rgMinPayload + 2 + technologyType.lengthNat + 2 + processType.lengthNat)

/-- `rg_encode_sql_size`. -/
def rgEncodeSqlSize (data : EventSql) : RgLength :=
  Int16.ofNat (rgMinPayload + 1 + 2 + data.provider.lengthNat + 1 + 2 + data.host.lengthNat +
    1 + 2 + data.database.lengthNat + 1 + 2 + data.query.lengthNat + 8)

/-- The common size of `rg_encode_http_in_size` and `rg_encode_http_out_size`. -/
def httpSize (data : EventHttp) : RgLength :=
  Int16.ofNat (rgMinPayload + 2 + data.url.lengthNat + 1 + data.verb.length.toNat + 2 + 8)

/-- `rg_encode_http_in_size`. -/
def rgEncodeHttpInSize (data : EventHttp) : RgLength := httpSize data

/-- `rg_encode_http_out_size`. -/
def rgEncodeHttpOutSize (data : EventHttp) : RgLength := httpSize data

/-- `rg_encode_begin_transaction_size`. -/
def rgEncodeBeginTransactionSize (apiKey technologyType processType : EncodedString) : RgLength :=
  Int16.ofNat (rgMinPayload + 2 + apiKey.lengthNat + 2 + technologyType.lengthNat + 2 +
    processType.lengthNat)

/-- `rg_encode_thread_started_size`. -/
def rgEncodeThreadStartedSize : RgLength := Int16.ofNat (rgMinPayload + 4)

/-- `rg_encode_size`. -/
def rgEncodeSize : EventData → RgLength
  | .beginFrame .. => rgEncodeBeginSize
  | .endFrame .. => rgEncodeEndSize
  | .methodinfo data => rgEncodeMethodinfoSize data
  | .exceptionThrown _ className correlationId =>
      rgEncodeExceptionThrownSize className correlationId
  | .processFrequency _ => rgEncodeProcessFrequencySize
  | .processType technology process => rgEncodeProcessTypeSize technology process
  | .sqlInformation data => rgEncodeSqlSize data
  | .httpIncomingInformation data => rgEncodeHttpInSize data
  | .httpOutgoingInformation data => rgEncodeHttpOutSize data
  | .beginTransaction apiKey technology process =>
      rgEncodeBeginTransactionSize apiKey technology process
  | .threadStarted _ => rgEncodeThreadStartedSize
  | .threadEnded | .processEnded | .endTransaction => Int16.ofNat rgMinPayload

/-! ## Commands -/

/-- The header fields of `rg_event_t`. -/
structure EventHeader where
  length : RgLength
  type : UInt8
  pid : UInt32
  tid : UInt32
  timestamp : Int64
  deriving DecidableEq

/-- `rg_encode_header_impl`. -/
def rgEncodeHeaderImpl (header : EventHeader) : Bytes :=
  packLength header.length ++ (packByte header.type ++ (packUInt32 header.pid ++
    (packUInt32 header.tid ++ packInt64 header.timestamp)))

/-- An event: its data and the header fields that are not computed. -/
structure Event where
  pid : UInt32
  tid : UInt32
  timestamp : Int64
  data : EventData

/-- The header of an event of the given length. -/
def Event.header (e : Event) (length : RgLength) : EventHeader :=
  { length := length, type := e.data.type.code, pid := e.pid, tid := e.tid, timestamp := e.timestamp }

/-- The command of an event whose length was set by `rg_encode_size`: header and payload. -/
def Event.encoded (e : Event) : Bytes :=
  rgEncodeHeaderImpl (e.header (rgEncodeSize e.data)) ++ e.data.payload

/-! ## Lengths -/

/-- A string takes its bytes and two for the length. -/
@[simp] theorem length_packString (s : EncodedString) :
    (packString s).length = 2 + s.string.length := by simp [packString]

/-- A string with its encoding takes its bytes and three more. -/
@[simp] theorem length_packEncodedString (s : EncodedString) :
    (packEncodedString s).length = 3 + s.string.length := by
  simp only [packEncodedString, List.length_append, length_packByte, length_packString]
  omega

/-- A short string takes its bytes and one for the length. -/
@[simp] theorem length_packShortString (s : EncodedShortString) :
    (packShortString s).length = 1 + s.string.length := by simp [packShortString]

/-- The size of an HTTP event's payload. -/
@[simp] theorem length_packHttp (data : EventHttp) :
    (packHttp data).length = 2 + data.url.string.length + (1 + data.verb.string.length) + 10 := by
  simp only [packHttp, List.length_append, length_packString, length_packShortString,
    length_packUInt16, length_packInt64]
  omega

/-- Every header has `RG_MIN_PAYLOAD` bytes. -/
@[simp] theorem length_rgEncodeHeaderImpl (header : EventHeader) :
    (rgEncodeHeaderImpl header).length = rgMinPayload := by
  simp [rgEncodeHeaderImpl, rgMinPayload]

/-- The length field of a string counts its bytes. -/
theorem EncodedString.lengthNat_eq (s : EncodedString) : s.lengthNat = s.string.length := by
  have hle := s.length_le
  unfold rgMaxStringSize at hle
  rw [lengthNat, EncodedString.length, toNatClampNeg_ofNat (by omega)]

/-- The length field of a short string counts its bytes. -/
theorem EncodedShortString.length_toNat (s : EncodedShortString) :
    s.length.toNat = s.string.length := by
  have hle := s.length_le
  unfold rgMaxShortStringSize at hle
  rw [EncodedShortString.length, UInt8.toNat_ofNat']
  omega

/-- **The size functions agree with the encoders**, type by type. -/
theorem rgEncodeSize_eq (data : EventData) :
    rgEncodeSize data = Int16.ofNat (rgMinPayload + data.payload.length) := by
  have hvariable : rgEncodeVariableinfoSize.toNatClampNeg = 4 := by decide
  cases data <;>
    simp only [rgEncodeSize, EventData.payload, rgEncodeBegin, rgEncodeBeginSize, rgEncodeEnd,
      rgEncodeEndSize, rgEncodeVariableinfo, rgEncodeMethodinfo, rgEncodeMethodinfoSize,
      rgEncodeExceptionThrown, rgEncodeExceptionThrownSize, rgEncodeProcessFrequency,
      rgEncodeProcessFrequencySize, rgEncodeProcessType, rgEncodeProcessTypeSize, rgEncodeSql,
      rgEncodeSqlSize, rgEncodeHttpIn, rgEncodeHttpInSize, rgEncodeHttpOut, rgEncodeHttpOutSize,
      httpSize, rgEncodeBeginTransaction, rgEncodeBeginTransactionSize, rgEncodeThreadStarted,
      rgEncodeThreadStartedSize, EncodedString.lengthNat_eq, EncodedShortString.length_toNat,
      hvariable, List.length_append, List.length_nil, length_packByte, length_packLength,
      length_packUInt32, length_packUInt64, length_packInt64, length_packString,
      length_packEncodedString, length_packHttp] <;>
    congr 1 <;> omega

/-- **No command is larger than the largest SQL event.** -/
theorem length_payload_le (data : EventData) :
    rgMinPayload + data.payload.length ≤ rgMaxCommandSize := by
  have hstring : ∀ s : EncodedString, s.string.length ≤ 4096 := EncodedString.length_le
  have hshort : ∀ s : EncodedShortString, s.string.length ≤ 127 := EncodedShortString.length_le
  unfold rgMinPayload rgMaxCommandSize
  cases data with
  | sqlInformation data =>
      -- Four strings of 4096 bytes each: this one attains the bound.
      have h₁ := hstring data.provider
      have h₂ := hstring data.host
      have h₃ := hstring data.database
      have h₄ := hstring data.query
      simp only [EventData.payload, rgEncodeSql, List.length_append, length_packEncodedString,
        length_packInt64]
      omega
  | httpIncomingInformation data =>
      have h₁ := hstring data.url
      have h₂ := hshort data.verb
      simp only [EventData.payload, rgEncodeHttpIn, length_packHttp]
      omega
  | httpOutgoingInformation data =>
      have h₁ := hstring data.url
      have h₂ := hshort data.verb
      simp only [EventData.payload, rgEncodeHttpOut, length_packHttp]
      omega
  | methodinfo data =>
      have h₁ := hstring data.className
      have h₂ := hstring data.methodName
      simp only [EventData.payload, rgEncodeMethodinfo, List.length_append, length_packString,
        length_packUInt32, length_packByte]
      omega
  | exceptionThrown exceptionId className correlationId =>
      have h₁ := hstring className
      have h₂ := hstring correlationId
      simp only [EventData.payload, rgEncodeExceptionThrown, List.length_append, length_packString,
        length_packUInt64]
      omega
  | processType technology process =>
      have h₁ := hstring technology
      have h₂ := hstring process
      simp only [EventData.payload, rgEncodeProcessType, List.length_append, length_packString]
      omega
  | beginTransaction apiKey technology process =>
      have h₁ := hstring apiKey
      have h₂ := hstring technology
      have h₃ := hstring process
      simp only [EventData.payload, rgEncodeBeginTransaction, List.length_append, length_packString]
      omega
  | _ =>
      simp only [EventData.payload, rgEncodeBegin, rgEncodeEnd, rgEncodeVariableinfo,
        rgEncodeProcessFrequency, rgEncodeThreadStarted, List.length_append, List.length_nil,
        length_packByte, length_packLength, length_packUInt32, length_packUInt64]
      omega

/-! ## The helpers -/

/-- `rg_context_t`, with the scratch buffer as a static array. -/
structure Context where
  /-- Process id. -/
  pid : UInt32
  /-- The scratch buffer. -/
  buf : Bytes
  /-- The size of the scratch buffer. -/
  buf_length : buf.length = rgEncoderScratchBufferSize

/-- What the helpers have in common: the payload is encoded behind the room for the header, the
header in front of it, and the sink is called with the scratch buffer and the returned size. -/
def Context.emit (context : Context) (tid : UInt32) (timestamp : Int64) (data : EventData) :
    Context × RgLength :=
  let size := Int16.ofNat rgMinPayload + Int16.ofNat data.payload.length
  let e : Event := { pid := context.pid, tid := tid, timestamp := timestamp, data := data }
  ({ context with
      buf := writeAt (writeAt context.buf rgMinPayload data.payload) 0
        (rgEncodeHeaderImpl (e.header size))
      buf_length := by
        have hmax := length_payload_le data
        have hbuf := context.buf_length
        have hpayload : (writeAt context.buf rgMinPayload data.payload).length
            = context.buf.length := length_writeAt (by
          rw [rgMaxCommandSize] at hmax
          rw [hbuf, rgEncoderScratchBufferSize]
          omega)
        rw [length_writeAt (by
          rw [hpayload, hbuf, length_rgEncodeHeaderImpl]
          decide), hpayload, hbuf] }, size)

/-- `rg_process_frequency`. -/
def rgProcessFrequency (context : Context) (tid : UInt32) (timestamp : Int64) (frequency : UInt64) :
    Context × RgLength :=
  context.emit tid timestamp (.processFrequency frequency)

/-- `rg_begin_transaction`. -/
def rgBeginTransaction (context : Context) (tid : UInt32) (timestamp : Int64)
    (apiKey technologyType processType : EncodedString) : Context × RgLength :=
  context.emit tid timestamp (.beginTransaction apiKey technologyType processType)

/-- `rg_end_transaction`. -/
def rgEndTransaction (context : Context) (tid : UInt32) (timestamp : Int64) : Context × RgLength :=
  context.emit tid timestamp .endTransaction

/-- `rg_process_type`. -/
def rgProcessType (context : Context) (tid : UInt32) (timestamp : Int64)
    (technologyType processType : EncodedString) : Context × RgLength :=
  context.emit tid timestamp (.processType technologyType processType)

/-- `rg_process_ended`. -/
def rgProcessEnded (context : Context) (tid : UInt32) (timestamp : Int64) : Context × RgLength :=
  context.emit tid timestamp .processEnded

/-- `rg_thread_started`. -/
def rgThreadStarted (context : Context) (tid parentTid : UInt32) (timestamp : Int64) :
    Context × RgLength :=
  context.emit tid timestamp (.threadStarted parentTid)

/-- `rg_thread_ended`. -/
def rgThreadEnded (context : Context) (tid : UInt32) (timestamp : Int64) : Context × RgLength :=
  context.emit tid timestamp .threadEnded

/-- `rg_exception_thrown`. -/
def rgExceptionThrown (context : Context) (tid : UInt32) (timestamp : Int64) (exception : UInt64)
    (className correlationId : EncodedString) : Context × RgLength :=
  context.emit tid timestamp (.exceptionThrown exception className correlationId)

/-- `rg_methodinfo`. -/
def rgMethodinfo (context : Context) (tid : UInt32) (timestamp : Int64) (functionId : UInt32)
    (source : UInt8) (className methodName : EncodedString) : Context × RgLength :=
  context.emit tid timestamp (.methodinfo
    { functionId := functionId, className := className, methodName := methodName,
      methodSource := source })

/-- `rg_begin`: no arguments are sent. -/
def rgBegin (context : Context) (tid : UInt32) (timestamp : Int64) (func : UInt32)
    (instanceId : UInt64) : Context × RgLength :=
  context.emit tid timestamp (.beginFrame func instanceId 0)

/-- `rg_end`: the tail call flag is not supported. -/
def rgEnd (context : Context) (tid : UInt32) (timestamp : Int64) (func : UInt32)
    (returnLength : RgLength) : Context × RgLength :=
  context.emit tid timestamp (.endFrame func 0 returnLength)

/-- The bytes that the sink is given. -/
def Context.command (context : Context) (size : RgLength) : Bytes :=
  context.buf.take size.toNatClampNeg

end RaygunApm
