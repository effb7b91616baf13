import RaygunApm.Library.PrefixCode
import RaygunApm.Sink.Batcher
import RaygunApm.Wire.Event

/-! # The wire encoding is lossless and self-delimiting

A decoder that follows the field layout reads every command back, up to the encodings of strings
that are not sent, and stops right behind it. The length prefix alone is enough to find the end of
a command, so a concatenation of commands splits into the same commands again. -/

namespace RaygunApm

open PrefixCode ByteMemory

/-- A reader of bytes. -/
abbrev Decoder (α : Type) : Type := Reader UInt8 α

/-! ## Scalars -/

/-- Read a number of `width` bytes. -/
def decodeNat (width : Nat) : Decoder Nat := LittleEndian.decode <$> exactly width

/-- Read an `rg_byte_t`. -/
def unpackByte : Decoder UInt8 := UInt8.ofNat <$> decodeNat 1

/-- Read an `rg_length_t`. -/
def unpackLength : Decoder RgLength := Int16.ofNat <$> decodeNat 2

/-- Read a `uint16_t`. -/
def unpackUInt16 : Decoder UInt16 := UInt16.ofNat <$> decodeNat 2

/-- Read a `uint32_t`. -/
def unpackUInt32 : Decoder UInt32 := UInt32.ofNat <$> decodeNat 4

/-- Read a `uint64_t`. -/
def unpackUInt64 : Decoder UInt64 := UInt64.ofNat <$> decodeNat 8

/-- Read an `int64_t`. -/
def unpackInt64 : Decoder Int64 := Int64.ofNat <$> decodeNat 8

/-- A number that fits its bytes is read back. -/
theorem reads_decodeNat (width : Nat) {n : Nat} (h : n < 256 ^ width) :
    Reads (decodeNat width) (LittleEndian.encode width n) n := by
  have hread := (reads_exactly (LittleEndian.length_encode width n)).map LittleEndian.decode
  rwa [LittleEndian.decode_encode_of_lt h] at hread

/-- A byte is read back. -/
theorem reads_unpackByte (x : UInt8) : Reads unpackByte (packByte x) x := by
  have hread := ((reads_exactly (length_packByte x)).map LittleEndian.decode).map UInt8.ofNat
  have hvalue : LittleEndian.decode (packByte x) = x.toNat := by
    simp [packByte, LittleEndian.decode]
  rwa [hvalue, UInt8.ofNat_toNat] at hread

/-- A length is read back. -/
theorem reads_unpackLength (x : RgLength) : Reads unpackLength (packLength x) x := by
  have hread := (reads_decodeNat 2 x.toUInt16.toNat_lt).map Int16.ofNat
  rwa [← UInt16.toInt16_ofNat', UInt16.ofNat_toNat, Int16.toInt16_toUInt16] at hread

/-- A `uint16_t` is read back. -/
theorem reads_unpackUInt16 (x : UInt16) : Reads unpackUInt16 (packUInt16 x) x := by
  have hread := (reads_decodeNat 2 x.toNat_lt).map UInt16.ofNat
  rwa [UInt16.ofNat_toNat] at hread

/-- A `uint32_t` is read back. -/
theorem reads_unpackUInt32 (x : UInt32) : Reads unpackUInt32 (packUInt32 x) x := by
  have hread := (reads_decodeNat 4 x.toNat_lt).map UInt32.ofNat
  rwa [UInt32.ofNat_toNat] at hread

/-- A `uint64_t` is read back. -/
theorem reads_unpackUInt64 (x : UInt64) : Reads unpackUInt64 (packUInt64 x) x := by
  have hread := (reads_decodeNat 8 x.toNat_lt).map UInt64.ofNat
  rwa [UInt64.ofNat_toNat] at hread

/-- An `int64_t` is read back. -/
theorem reads_unpackInt64 (x : Int64) : Reads unpackInt64 (packInt64 x) x := by
  have hread := (reads_decodeNat 8 x.toUInt64.toNat_lt).map Int64.ofNat
  rwa [← UInt64.toInt64_ofNat', UInt64.ofNat_toNat, Int64.toInt64_toUInt64] at hread

/-! ## Strings -/

/-- The string as the receiver gets it without its encoding. -/
def EncodedString.unencoded (s : EncodedString) : EncodedString := { s with encoding := 0 }

/-- The short string as the receiver gets it: its encoding is never sent. -/
def EncodedShortString.unencoded (s : EncodedShortString) : EncodedShortString :=
  { s with encoding := 0 }

/-- Make a string of `encoding` from bytes that fit it. -/
def stringOfBytes (encoding : UInt8) (string : Bytes) : Decoder EncodedString :=
  if h : string.length ≤ rgMaxStringSize then pure ⟨encoding, string, h⟩ else failure

/-- Make a short string from bytes that fit it. -/
def shortStringOfBytes (string : Bytes) : Decoder EncodedShortString :=
  if h : string.length ≤ rgMaxShortStringSize then pure ⟨0, string, h⟩ else failure

/-- Read the length and the bytes of a string of `encoding`. -/
def unpackStringAs (encoding : UInt8) : Decoder EncodedString := do
  let length ← unpackLength
  let string ← exactly length.toNatClampNeg
  stringOfBytes encoding string

/-- Read a string without an encoding. -/
def unpackString : Decoder EncodedString := unpackStringAs 0

/-- Read a string and its encoding. -/
def unpackEncodedString : Decoder EncodedString := do
  let encoding ← unpackByte
  unpackStringAs encoding

/-- Read a short string. -/
def unpackShortString : Decoder EncodedShortString := do
  let length ← unpackByte
  let string ← exactly length.toNat
  shortStringOfBytes string

/-- A string is read back, with the encoding to be assumed for it. -/
theorem reads_unpackStringAs (encoding : UInt8) (s : EncodedString) :
    Reads (unpackStringAs encoding) (packString s) { s with encoding := encoding } := by
  have hlength : s.string.length = s.length.toNatClampNeg := s.lengthNat_eq.symm
  apply (reads_unpackLength s.length).bind
  apply (reads_exactly hlength).bind_pure
  exact dif_pos s.length_le

/-- A string is read back without its encoding. -/
theorem reads_unpackString (s : EncodedString) :
    Reads unpackString (packString s) s.unencoded := reads_unpackStringAs 0 s

/-- An encoded string is read back whole. -/
theorem reads_unpackEncodedString (s : EncodedString) :
    Reads unpackEncodedString (packEncodedString s) s :=
  (reads_unpackByte s.encoding).bind (reads_unpackStringAs s.encoding s)

/-- A short string is read back without its encoding. -/
theorem reads_unpackShortString (s : EncodedShortString) :
    Reads unpackShortString (packShortString s) s.unencoded := by
  apply (reads_unpackByte s.length).bind
  apply (reads_exactly s.length_toNat.symm).bind_pure
  exact dif_pos s.length_le

/-! ## Payloads -/

/-- The type of a type byte. -/
def EventType.ofCode? (code : UInt8) : Option EventType :=
  if code = 0x1 then some .beginFrame
  else if code = 0x2 then some .endFrame
  else if code = 0xf then some .methodinfo
  else if code = 0x12 then some .exceptionThrown
  else if code = 0x8 then some .threadEnded
  else if code = 0xa then some .processEnded
  else if code = 0xb then some .processFrequency
  else if code = 0xc then some .processType
  else if code = 0x64 then some .sqlInformation
  else if code = 0x65 then some .httpIncomingInformation
  else if code = 0x66 then some .httpOutgoingInformation
  else if code = 0x10 then some .beginTransaction
  else if code = 0x11 then some .endTransaction
  else if code = 0x13 then some .threadStarted
  else none

/-- No two types share a type byte. -/
theorem EventType.ofCode?_code (t : EventType) : EventType.ofCode? t.code = some t := by
  cases t <;> decide

/-- Read the data of an HTTP event. -/
def unpackHttp : Decoder EventHttp := do
  let url ← unpackString
  let verb ← unpackShortString
  let status ← unpackUInt16
  let duration ← unpackInt64
  pure { url := url, verb := verb, status := status, duration := duration }

/-- Read the payload of an event of the given type. -/
def decodeData : EventType → Decoder EventData
  | .beginFrame => do
      let functionId ← unpackUInt32
      let instanceId ← unpackUInt64
      let argc ← unpackByte
      pure (.beginFrame functionId instanceId argc)
  | .endFrame => do
      let functionId ← unpackUInt32
      let tailCall ← unpackByte
      let returnLength ← unpackLength
      let returnType ← unpackByte
      let nameLength ← unpackByte
      if returnType = rgVtVoid ∧ nameLength = 0 then
        pure (.endFrame functionId tailCall returnLength)
      else failure
  | .methodinfo => do
      let functionId ← unpackUInt32
      let className ← unpackString
      let methodName ← unpackString
      let methodSource ← unpackByte
      pure (.methodinfo
        { functionId := functionId, className := className, methodName := methodName,
          methodSource := methodSource })
  | .exceptionThrown => do
      let exceptionId ← unpackUInt64
      let className ← unpackString
      let correlationId ← unpackString
      pure (.exceptionThrown exceptionId className correlationId)
  | .threadEnded => pure .threadEnded
  | .processEnded => pure .processEnded
  | .processFrequency => do
      let frequency ← unpackUInt64
      pure (.processFrequency frequency)
  | .processType => do
      let technologyType ← unpackString
      let processType ← unpackString
      pure (.processType technologyType processType)
  | .sqlInformation => do
      let provider ← unpackEncodedString
      let host ← unpackEncodedString
      let database ← unpackEncodedString
      let query ← unpackEncodedString
      let duration ← unpackInt64
      pure (.sqlInformation
        { provider := provider, host := host, database := database, query := query,
          duration := duration })
  | .httpIncomingInformation => do
      let data ← unpackHttp
      pure (.httpIncomingInformation data)
  | .httpOutgoingInformation => do
      let data ← unpackHttp
      pure (.httpOutgoingInformation data)
  | .beginTransaction => do
      let apiKey ← unpackString
      let technologyType ← unpackString
      let processType ← unpackString
      pure (.beginTransaction apiKey technologyType processType)
  | .endTransaction => pure .endTransaction
  | .threadStarted => do
      let parentTid ← unpackUInt32
      pure (.threadStarted parentTid)

/-- The HTTP data as the receiver gets it. -/
def EventHttp.transmitted (data : EventHttp) : EventHttp :=
  { data with url := data.url.unencoded, verb := data.verb.unencoded }

/-- The data as the receiver gets it: only the SQL event sends the encodings of its strings. -/
def EventData.transmitted : EventData → EventData
  | .methodinfo data => .methodinfo
      { data with className := data.className.unencoded, methodName := data.methodName.unencoded }
  | .exceptionThrown exceptionId className correlationId =>
      .exceptionThrown exceptionId className.unencoded correlationId.unencoded
  | .processType technology process =>
      .processType technology.unencoded process.unencoded
  | .httpIncomingInformation data => .httpIncomingInformation data.transmitted
  | .httpOutgoingInformation data => .httpOutgoingInformation data.transmitted
  | .beginTransaction apiKey technology process =>
      .beginTransaction apiKey.unencoded technology.unencoded process.unencoded
  | data => data

/-- The payload of an HTTP event is read back as far as it is sent. -/
theorem reads_unpackHttp (data : EventHttp) :
    Reads unpackHttp (packHttp data) data.transmitted := by
  apply (reads_unpackString data.url).bind
  apply (reads_unpackShortString data.verb).bind
  apply (reads_unpackUInt16 data.status).bind
  exact (reads_unpackInt64 data.duration).bind_pure rfl

/-- **Every payload is read back**, and the reader of its type stops behind it. -/
theorem reads_decodeData (data : EventData) :
    Reads (decodeData data.type) data.payload data.transmitted := by
  cases data with
  | beginFrame functionId instanceId argc =>
      apply (reads_unpackUInt32 functionId).bind
      apply (reads_unpackUInt64 instanceId).bind
      exact (reads_unpackByte argc).bind_pure rfl
  | endFrame functionId tailCall returnLength =>
      apply (reads_unpackUInt32 functionId).bind
      apply (reads_unpackByte tailCall).bind
      apply (reads_unpackLength returnLength).bind
      apply (reads_unpackByte rgVtVoid).bind
      exact (reads_unpackByte 0).bind_pure (if_pos ⟨rfl, rfl⟩)
  | methodinfo data =>
      apply (reads_unpackUInt32 data.functionId).bind
      apply (reads_unpackString data.className).bind
      apply (reads_unpackString data.methodName).bind
      exact (reads_unpackByte data.methodSource).bind_pure rfl
  | exceptionThrown exceptionId className correlationId =>
      apply (reads_unpackUInt64 exceptionId).bind
      apply (reads_unpackString className).bind
      exact (reads_unpackString correlationId).bind_pure rfl
  | threadEnded => exact Reads.pure _
  | processEnded => exact Reads.pure _
  | processFrequency frequency => exact (reads_unpackUInt64 frequency).bind_pure rfl
  | processType technologyType processType =>
      apply (reads_unpackString technologyType).bind
      exact (reads_unpackString processType).bind_pure rfl
  | sqlInformation data =>
      apply (reads_unpackEncodedString data.provider).bind
      apply (reads_unpackEncodedString data.host).bind
      apply (reads_unpackEncodedString data.database).bind
      apply (reads_unpackEncodedString data.query).bind
      exact (reads_unpackInt64 data.duration).bind_pure rfl
  | httpIncomingInformation data => exact (reads_unpackHttp data).bind_pure rfl
  | httpOutgoingInformation data => exact (reads_unpackHttp data).bind_pure rfl
  | beginTransaction apiKey technologyType processType =>
      apply (reads_unpackString apiKey).bind
      apply (reads_unpackString technologyType).bind
      exact (reads_unpackString processType).bind_pure rfl
  | endTransaction => exact Reads.pure _
  | threadStarted parentTid => exact (reads_unpackUInt32 parentTid).bind_pure rfl

/-! ## Commands -/

/-- Read a header. -/
def decodeHeader : Decoder EventHeader := do
  let length ← unpackLength
  let type ← unpackByte
  let pid ← unpackUInt32
  let tid ← unpackUInt32
  let timestamp ← unpackInt64
  pure { length := length, type := type, pid := pid, tid := tid, timestamp := timestamp }

/-- Read an event by its field layout: the header, and the payload of its type. -/
def decodeEvent : Decoder Event := do
  let header ← decodeHeader
  match EventType.ofCode? header.type with
  | some type =>
      let data ← decodeData type
      pure { pid := header.pid, tid := header.tid, timestamp := header.timestamp, data := data }
  | none => failure

/-- Read the bytes of a command by its length prefix alone. -/
def splitCommand : Decoder Bytes := fun bytes =>
  (exactly (LittleEndian.decode (bytes.take 2))).run bytes

/-- The event as the receiver gets it. -/
def Event.transmitted (e : Event) : Event := { e with data := e.data.transmitted }

/-- A header is read back. -/
theorem reads_decodeHeader (header : EventHeader) :
    Reads decodeHeader (rgEncodeHeaderImpl header) header := by
  apply (reads_unpackLength header.length).bind
  apply (reads_unpackByte header.type).bind
  apply (reads_unpackUInt32 header.pid).bind
  apply (reads_unpackUInt32 header.tid).bind
  exact (reads_unpackInt64 header.timestamp).bind_pure rfl

/-- **A decoder that follows the field layout recovers every transmitted field.** -/
theorem reads_decodeEvent (e : Event) : Reads decodeEvent e.encoded e.transmitted := by
  apply (reads_decodeHeader (e.header (rgEncodeSize e.data))).bind
  have hcode : EventType.ofCode? (e.header (rgEncodeSize e.data)).type = some e.data.type :=
    EventType.ofCode?_code e.data.type
  rw [hcode]
  exact (reads_decodeData e.data).bind_pure rfl

/-! ## Sizes of commands -/

/-- The bytes of an event are the header and its payload. -/
@[simp] theorem Event.length_encoded (e : Event) :
    e.encoded.length = rgMinPayload + e.data.payload.length := by simp [encoded]

/-- The size as a number: no `rg_short_t` wraps. -/
theorem rgEncodeSize_toInt (data : EventData) :
    (rgEncodeSize data).toInt = (rgMinPayload + data.payload.length : Nat) := by
  have hmax := length_payload_le data
  rw [rgEncodeSize_eq, Int16.toInt_ofNat_of_lt (hmax.trans_lt (by decide))]

/-- The first two bytes of a command are its size. -/
theorem Event.length_prefix (e : Event) :
    LittleEndian.decode (e.encoded.take 2) = e.encoded.length := by
  have hmax := length_payload_le e.data
  rw [Event.length_encoded, encoded, rgEncodeHeaderImpl, List.append_assoc,
    List.take_left' (length_packLength _)]
  show LittleEndian.decode (packLength (rgEncodeSize e.data)) = _
  rw [rgEncodeSize_eq, decode_packLength (hmax.trans_lt (by decide))]

/-- An encoded event is a command for the sink. -/
def Event.command (e : Event) : Command where
  bytes := e.encoded
  length_prefix := e.length_prefix
  min_size := by simp
  max_size := by
    rw [Event.length_encoded]
    exact length_payload_le e.data

/-- **The length prefix delimits the command.** -/
theorem Command.reads_splitCommand (c : Command) : Reads splitCommand c.bytes c.bytes := by
  intro rest
  have hmin := c.min_size
  have htwo : (2 : Nat) ≤ rgMinPayload := by decide
  have hpre : (c.bytes ++ rest).take 2 = c.bytes.take 2 :=
    List.take_append_of_le_length (htwo.trans hmin)
  show (exactly (LittleEndian.decode ((c.bytes ++ rest).take 2))).run (c.bytes ++ rest) = _
  rw [hpre, c.length_prefix]
  exact reads_exactly rfl rest

/-- No command is empty. -/
theorem Command.bytes_ne_nil (c : Command) : c.bytes ≠ [] := by
  intro h
  have hmin := c.min_size
  rw [h] at hmin
  exact absurd hmin (by decide)

/-! ## The scratch buffer -/

/-- The size that a helper hands to the sink is the one that `rg_encode_size` computes. -/
theorem Context.emit_size (context : Context) (tid : UInt32) (timestamp : Int64) (data : EventData) :
    (context.emit tid timestamp data).2 = rgEncodeSize data := by
  rw [rgEncodeSize_eq, ← ofNat_add_ofNat]
  rfl

/-- **The scratch buffer holds the command**: the header is written after the payload, in front of
it, and neither touches the other. -/
theorem Context.emit_command (context : Context) (tid : UInt32) (timestamp : Int64)
    (data : EventData) :
    (context.emit tid timestamp data).1.command (context.emit tid timestamp data).2
      = Event.encoded { pid := context.pid, tid := tid, timestamp := timestamp, data := data } := by
  have hmax := length_payload_le data
  have hroom : rgMinPayload ≤ context.buf.length := by
    rw [context.buf_length]
    decide
  rw [Context.command, Context.emit_size, rgEncodeSize_eq,
    toNatClampNeg_ofNat (hmax.trans_lt (by decide))]
  have hsize : Int16.ofNat rgMinPayload + Int16.ofNat data.payload.length = rgEncodeSize data := by
    rw [rgEncodeSize_eq, ← ofNat_add_ofNat]
  simp only [Context.emit, hsize, Event.encoded]
  generalize hheader : rgEncodeHeaderImpl _ = header
  have hlen : header.length = rgMinPayload := by
    rw [← hheader, length_rgEncodeHeaderImpl]
  -- The header is written last, so it stands as written.
  have hhead : readAt (writeAt (writeAt context.buf rgMinPayload data.payload) 0 header) 0
      rgMinPayload = header := by
    rw [← hlen]
    exact readAt_writeAt _ (Nat.zero_le _)
  -- It ends where the payload starts.
  have htail : readAt (writeAt (writeAt context.buf rgMinPayload data.payload) 0 header)
      rgMinPayload data.payload.length = data.payload := by
    rw [readAt_writeAt_above _ (by rw [hlen, Nat.zero_add]) (Nat.zero_le _)]
    exact readAt_writeAt _ hroom
  rw [← readAt_start, readAt_add, hhead, Nat.zero_add, htail]

/-! ## The encoding as a whole -/

/-- The bytes of some events. -/
def encodedEvents (es : List Event) : Bytes := es.flatMap Event.encoded

/-- Every event takes at least one byte. -/
theorem length_le_encodedEvents (es : List Event) : es.length ≤ (encodedEvents es).length := by
  induction es with
  | nil => exact Nat.le_refl _
  | cons e es ih =>
      have hpos : 1 ≤ e.encoded.length := by
        rw [Event.length_encoded]
        exact Nat.le_add_right_of_le (by decide)
      simp only [encodedEvents, List.flatMap_cons, List.length_append, List.length_cons] at ih ⊢
      omega

/-- **The wire encoding is lossless and self-delimiting.** The helpers leave the command of their
event in the scratch buffer and hand over the size that `rg_encode_size` computes. A command has
that size, which is also its length prefix and fits the scratch buffer, and reading it by the field
layout gives back what is sent. Commands in sequence split into themselves by the length prefix
alone, and decode one by one. -/
theorem encoding_lossless :
    (∀ (context : Context) (tid : UInt32) (timestamp : Int64) (data : EventData),
      (context.emit tid timestamp data).2 = rgEncodeSize data ∧
      (context.emit tid timestamp data).1.command (rgEncodeSize data)
        = Event.encoded { pid := context.pid, tid := tid, timestamp := timestamp, data := data }) ∧
    (∀ e : Event, e.encoded.length = (rgEncodeSize e.data).toInt ∧
      e.encoded.length = LittleEndian.decode (e.encoded.take 2) ∧
      rgMinPayload ≤ e.encoded.length ∧ e.encoded.length ≤ rgMaxCommandSize ∧
      Reads decodeEvent e.encoded e.transmitted) ∧
    ∀ es : List Event,
      many splitCommand (encodedEvents es).length (encodedEvents es)
        = some (es.map Event.encoded) ∧
      many decodeEvent (encodedEvents es).length (encodedEvents es)
        = some (es.map Event.transmitted) := by
  refine ⟨?_, ?_, ?_⟩
  · intro context tid timestamp data
    have hcommand := context.emit_command tid timestamp data
    rw [Context.emit_size] at hcommand
    exact ⟨Context.emit_size _ _ _ _, hcommand⟩
  · intro e
    refine ⟨?_, e.length_prefix.symm, e.command.min_size, e.command.max_size, reads_decodeEvent e⟩
    rw [rgEncodeSize_toInt, Event.length_encoded]
  · intro es
    have hne : ∀ e : Event, e.encoded ≠ [] := fun e => e.command.bytes_ne_nil
    have hsplit : ∀ e : Event, Reads splitCommand e.encoded e.encoded :=
      fun e => e.command.reads_splitCommand
    exact ⟨many_flatMap hsplit hne es (length_le_encodedEvents es),
      many_flatMap reads_decodeEvent hne es (length_le_encodedEvents es)⟩

end RaygunApm
