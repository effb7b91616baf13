import Mathlib.Logic.Function.Basic
import RaygunApm.Wire.Lossless

/-! # Events made in Ruby

`raygun_event.c`: an event object wraps an `rg_event_t`, which `[]=` fills attribute by attribute,
and `encoded` turns it into its command. Nine event types go through the encoders of the native
code. The other five are copied as they lie in memory, with the padding of the C structure, which
the wire format does not have: the bytes are those of the native code only if there is nothing but
zeros to move (`encodesAsNative_iff`). -/

namespace RaygunApm

open ByteMemory PrefixCode

/-! ## Attributes -/

/-- The attributes that `[]=` knows. -/
inductive Attribute where
  | pid | tid | timestamp | parentTid | frequency | exceptionId | functionId | instanceId | tailcall
  | methodSource | className | methodName | provider | host | database | query | correlationId | url
  | verb | status | duration | technologyType | processType | apiKey
  deriving DecidableEq

/-- The Ruby values that are in range. A string is nil or has been encoded by `rb_str_encode`. -/
def Attribute.Value : Attribute → Type
  | .pid | .tid | .parentTid | .functionId => UInt32
  | .timestamp | .frequency | .duration => Int64
  | .exceptionId | .instanceId => UInt64
  | .tailcall => Bool
  | .methodSource => UInt8
  | .status => UInt16
  | .className | .methodName | .provider | .host | .database | .query | .correlationId | .url
  | .technologyType | .processType | .apiKey | .verb => Option Bytes

/-- The member of `rg_event_t` behind an attribute. -/
def Attribute.Member : Attribute → Type
  | .pid | .tid | .parentTid | .functionId => UInt32
  | .timestamp | .duration => Int64
  | .frequency | .exceptionId | .instanceId => UInt64
  | .tailcall | .methodSource => UInt8
  | .status => UInt16
  | .className | .methodName | .provider | .host | .database | .query | .correlationId | .url
  | .technologyType | .processType | .apiKey => EncodedString
  | .verb => EncodedShortString

/-- The zeros of `ZALLOC`. -/
def Attribute.zero : (attr : Attribute) → attr.Member
  | .pid | .tid | .parentTid | .functionId => (0 : UInt32)
  | .timestamp | .duration => (0 : Int64)
  | .frequency | .exceptionId | .instanceId => (0 : UInt64)
  | .tailcall | .methodSource => (0 : UInt8)
  | .status => (0 : UInt16)
  | .className | .methodName | .provider | .host | .database | .query | .correlationId | .url
  | .technologyType | .processType | .apiKey => (⟨0, [], Nat.zero_le _⟩ : EncodedString)
  | .verb => (⟨0, [], Nat.zero_le _⟩ : EncodedShortString)

/-- `RG_STRING_ENCODING_ASCII`. -/
def rgStringEncodingAscii : UInt8 := 0x3

/-- `RG_STRING_ENCODING_UTF8`. -/
def rgStringEncodingUtf8 : UInt8 := 0x5

/-- `rb_rg_encode_string`. -/
def rbRgEncodeString (encoding : UInt8) (val : Option Bytes) : EncodedString where
  encoding := encoding
  string := (val.getD []).take rgMaxStringSize
  length_le := List.length_take_le _ _

/-- `rb_rg_encode_short_string`. -/
def rbRgEncodeShortString (encoding : UInt8) (val : Option Bytes) : EncodedShortString where
  encoding := encoding
  string := (val.getD []).take rgMaxShortStringSize
  length_le := List.length_take_le _ _

/-- The conversion of a value to the member. -/
def Attribute.coerce : (attr : Attribute) → attr.Value → attr.Member
  | .pid, val | .tid, val | .parentTid, val | .functionId, val => val
  | .timestamp, val | .duration, val => val
  | .frequency, val => Int64.toUInt64 val
  | .exceptionId, val | .instanceId, val => val
  | .tailcall, val => (cond val 1 0 : UInt8)
  | .methodSource, val => val
  | .status, val => val
  | .className, val | .methodName, val | .url, val | .technologyType, val | .processType, val
  | .apiKey, val => rbRgEncodeString rgStringEncodingAscii val
  | .provider, val | .host, val | .database, val | .query, val | .correlationId, val =>
      rbRgEncodeString rgStringEncodingUtf8 val
  | .verb, val => rbRgEncodeShortString rgStringEncodingAscii val

/-- The attributes of an event type, those of the header in front. -/
def EventType.attributes : EventType → List Attribute
  | .beginFrame => [.pid, .tid, .timestamp, .functionId, .instanceId]
  | .endFrame => [.pid, .tid, .timestamp, .functionId, .tailcall]
  | .methodinfo => [.pid, .tid, .timestamp, .functionId, .className, .methodName, .methodSource]
  | .exceptionThrown => [.pid, .tid, .timestamp, .exceptionId, .className, .correlationId]
  | .threadEnded | .processEnded | .endTransaction => [.pid, .tid, .timestamp]
  | .processFrequency => [.pid, .tid, .timestamp, .frequency]
  | .processType => [.pid, .tid, .timestamp, .technologyType, .processType]
  | .sqlInformation => [.pid, .tid, .timestamp, .provider, .host, .database, .query, .duration]
  | .httpIncomingInformation | .httpOutgoingInformation =>
      [.pid, .tid, .timestamp, .url, .verb, .status, .duration]
  | .beginTransaction => [.pid, .tid, .timestamp, .apiKey, .technologyType, .processType]
  | .threadStarted => [.pid, .tid, .timestamp, .parentTid]

/-! ## Events -/

/-- `rg_event_t`. The union holds the members of the attributes of its type, each at a place of its
own; the number of arguments and the return value, which `[]=` does not set, are zero. -/
structure RgEvent where
  length : RgLength
  type : EventType
  member : (attr : Attribute) → attr.Member

/-- The data of an event, as the native code has it. -/
def RgEvent.data (event : RgEvent) : EventData :=
  match event.type with
  | .beginFrame => .beginFrame (event.member .functionId) (event.member .instanceId) 0
  | .endFrame => .endFrame (event.member .functionId) (event.member .tailcall) 0
  | .methodinfo => .methodinfo
      { functionId := event.member .functionId, className := event.member .className,
        methodName := event.member .methodName, methodSource := event.member .methodSource }
  | .exceptionThrown => .exceptionThrown (event.member .exceptionId) (event.member .className)
      (event.member .correlationId)
  | .threadEnded => .threadEnded
  | .processEnded => .processEnded
  | .processFrequency => .processFrequency (event.member .frequency)
  | .processType => .processType (event.member .technologyType) (event.member .processType)
  | .sqlInformation => .sqlInformation
      { provider := event.member .provider, host := event.member .host,
        database := event.member .database, query := event.member .query,
        duration := event.member .duration }
  | .httpIncomingInformation => .httpIncomingInformation
      { url := event.member .url, verb := event.member .verb, status := event.member .status,
        duration := event.member .duration }
  | .httpOutgoingInformation => .httpOutgoingInformation
      { url := event.member .url, verb := event.member .verb, status := event.member .status,
        duration := event.member .duration }
  | .beginTransaction => .beginTransaction (event.member .apiKey) (event.member .technologyType)
      (event.member .processType)
  | .endTransaction => .endTransaction
  | .threadStarted => .threadStarted (event.member .parentTid)

/-- `rb_rg_event_alloc`. -/
def rbRgEventAlloc (type : EventType) : RgEvent where
  length := 0
  type := type
  member := Attribute.zero

/-- A call of `[]=` with an attribute of the type. -/
structure Assignment (type : EventType) where
  attr : Attribute
  of_type : attr ∈ type.attributes
  val : attr.Value

/-- `rb_rg_event_aset`. -/
def rbRgEventAset {type : EventType} (event : RgEvent) (a : Assignment type) : RgEvent :=
  let event := { event with member := Function.update event.member a.attr (a.attr.coerce a.val) }
  { event with length := rgEncodeSize event.data }

/-- A new event after some calls of `[]=`. -/
def rubyEvent (type : EventType) (sets : List (Assignment type)) : RgEvent :=
  sets.foldl rbRgEventAset (rbRgEventAlloc type)

/-! ## The two encoders -/

/-- `rg_encode_end` where the return value is zero: its type is not a type, so nothing follows. -/
def rgEncodeEndZero (functionId : UInt32) (tailCall : UInt8) : Bytes :=
  packUInt32 functionId ++ (packByte tailCall ++ (packLength 0 ++ (packByte 0 ++ packByte 0)))

/-- The payload that the encoder of the type produces. -/
def RgEvent.payload (event : RgEvent) : Bytes :=
  match event.type with
  | .endFrame => rgEncodeEndZero (event.member .functionId) (event.member .tailcall)
  | _ => event.data.payload

/-- The header fields. -/
def RgEvent.header (event : RgEvent) : EventHeader where
  length := event.length
  type := event.type.code
  pid := event.member .pid
  tid := event.member .tid
  timestamp := event.member .timestamp

/-- An `rg_event_t` in memory, for the types whose data is nothing or one number: `pid` is aligned
to four bytes and `timestamp` to eight. -/
def rgEventMemory (header : EventHeader) (data : Bytes) : Bytes :=
  packLength header.length ++ (packByte header.type ++ ([0] ++ (packUInt32 header.pid ++
    (packUInt32 header.tid ++ ([0, 0, 0, 0] ++ (packInt64 header.timestamp ++ data))))))

/-- `rb_rg_event_encoded`, in a new string that holds anything. -/
def rbRgEventEncoded (event : RgEvent) (buf : Bytes) : Bytes :=
  let explicit := writeAt (writeAt buf 0 (rgEncodeHeaderImpl event.header)) rgMinPayload event.payload
  let copied := (rgEventMemory event.header event.payload).take event.length.toNatClampNeg
  match event.type with
  | .threadStarted => writeAt explicit 0 copied
  | .threadEnded | .processEnded | .processFrequency | .endTransaction => writeAt buf 0 copied
  | _ => explicit

/-- The command that a helper leaves in the scratch buffer. -/
def Context.sent (result : Context × RgLength) : Bytes := result.1.command result.2

/-- The command that the native code sends for the same fields. For the events that it does not make
itself it is the header in front of the payload. -/
def nativeCommand (context : Context) (event : RgEvent) : Bytes :=
  let tid := event.header.tid
  let timestamp := event.header.timestamp
  match event.type with
  | .beginFrame => Context.sent (rgBegin context tid timestamp (event.member .functionId)
      (event.member .instanceId))
  | .methodinfo => Context.sent (rgMethodinfo context tid timestamp (event.member .functionId)
      (event.member .methodSource) (event.member .className) (event.member .methodName))
  | .exceptionThrown => Context.sent (rgExceptionThrown context tid timestamp
      (event.member .exceptionId) (event.member .className) (event.member .correlationId))
  | .threadEnded => Context.sent (rgThreadEnded context tid timestamp)
  | .processEnded => Context.sent (rgProcessEnded context tid timestamp)
  | .processFrequency => Context.sent (rgProcessFrequency context tid timestamp
      (event.member .frequency))
  | .processType => Context.sent (rgProcessType context tid timestamp
      (event.member .technologyType) (event.member .processType))
  | .beginTransaction => Context.sent (rgBeginTransaction context tid timestamp
      (event.member .apiKey) (event.member .technologyType) (event.member .processType))
  | .endTransaction => Context.sent (rgEndTransaction context tid timestamp)
  | .threadStarted => Context.sent (rgThreadStarted context tid (event.member .parentTid) timestamp)
  | .endFrame | .sqlInformation | .httpIncomingInformation | .httpOutgoingInformation =>
      rgEncodeHeaderImpl { event.header with length := rgEncodeSize event.data } ++ event.payload

/-! ## The property -/

/-- Read the data of a type, and an END whatever its return value is. -/
def decodeRubyData : EventType → Decoder EventData
  | .endFrame => do
      let functionId ← unpackUInt32
      let tailCall ← unpackByte
      let returnLength ← unpackLength
      let _ ← unpackByte
      let _ ← unpackByte
      pure (.endFrame functionId tailCall returnLength)
  | type => decodeData type

/-- Read a command by the wire layout. -/
def decodeRubyEvent (type : EventType) : Decoder (EventHeader × EventData) := do
  let header ← decodeHeader
  let data ← decodeRubyData type
  pure (header, data)

/-- The member holds the value that has been set last. -/
def HoldsLast (type : EventType) (sets : List (Assignment type)) : Prop :=
  ∀ before a after, sets = before ++ a :: after → (∀ b ∈ after, b.attr ≠ a.attr) →
    (rubyEvent type sets).member a.attr = a.attr.coerce a.val

/-- An event encodes as the native code does. -/
structure EncodesAsNative (type : EventType) (sets : List (Assignment type)) : Prop where
  /-- The header, packed, and the payload. -/
  bytes : ∀ buf, buf.length = (rubyEvent type sets).length.toNatClampNeg →
    rbRgEventEncoded (rubyEvent type sets) buf
      = rgEncodeHeaderImpl (rubyEvent type sets).header ++ (rubyEvent type sets).payload
  /-- The encoded bytes are what the native code sends. -/
  native : ∀ buf context, buf.length = (rubyEvent type sets).length.toNatClampNeg →
    context.pid = (rubyEvent type sets).header.pid →
    rbRgEventEncoded (rubyEvent type sets) buf = nativeCommand context (rubyEvent type sets)
  /-- There are as many bytes as `length` says. -/
  length : ∀ buf, buf.length = (rubyEvent type sets).length.toNatClampNeg →
    (rbRgEventEncoded (rubyEvent type sets) buf).length = (rubyEvent type sets).length.toInt
  /-- Decoding gives the members back. -/
  decodes : ∀ buf, buf.length = (rubyEvent type sets).length.toNatClampNeg →
    (decodeRubyEvent type).run (rbRgEventEncoded (rubyEvent type sets) buf)
      = some (((rubyEvent type sets).header, (rubyEvent type sets).data.transmitted), [])
  /-- The members hold the values set last. -/
  last : HoldsLast type sets

/-- Nothing is copied with padding, or there are only zeros behind it. -/
def RgEvent.Unpadded (event : RgEvent) : Prop :=
  let zeroHeader := event.header.pid = 0 ∧ event.header.tid = 0 ∧ event.header.timestamp = 0
  match event.type with
  | .threadEnded | .processEnded | .endTransaction => zeroHeader
  | .processFrequency => zeroHeader ∧ event.member .frequency = (0 : UInt64)
  | .threadStarted => zeroHeader ∧ event.member .parentTid = (0 : UInt32)
  | _ => True

/-! ## Setting attributes -/

variable {type : EventType}

/-- Setting an attribute keeps the type. -/
@[simp] theorem rbRgEventAset_type (event : RgEvent) (a : Assignment type) :
    (rbRgEventAset event a).type = event.type := rfl

/-- A call of `[]=` sets one member. -/
theorem rbRgEventAset_member (event : RgEvent) (a : Assignment type) :
    (rbRgEventAset event a).member = Function.update event.member a.attr (a.attr.coerce a.val) := rfl

/-- Any number of sets keep the type. -/
theorem foldl_rbRgEventAset_type (event : RgEvent) (sets : List (Assignment type)) :
    (sets.foldl rbRgEventAset event).type = event.type := by
  induction sets generalizing event with
  | nil => rfl
  | cons a sets ih => exact ih (rbRgEventAset event a)

/-- Calls with other attributes keep a member. -/
theorem foldl_rbRgEventAset_member_of_ne {event : RgEvent} {sets : List (Assignment type)}
    {attr : Attribute} (hother : ∀ b ∈ sets, b.attr ≠ attr) :
    (sets.foldl rbRgEventAset event).member attr = event.member attr := by
  induction sets generalizing event with
  | nil => rfl
  | cons b sets ih =>
      obtain ⟨hb, hsets⟩ := List.forall_mem_cons.mp hother
      rw [List.foldl_cons, ih hsets, rbRgEventAset_member, Function.update_of_ne hb.symm]

/-- **The last call with an attribute decides.** -/
theorem holdsLast (type : EventType) (sets : List (Assignment type)) : HoldsLast type sets := by
  intro before a after heq hlast
  rw [rubyEvent, heq, List.foldl_append, List.foldl_cons, foldl_rbRgEventAset_member_of_ne hlast,
    rbRgEventAset_member, Function.update_self]

/-- The event made from sets has the type asked for. -/
theorem rubyEvent_type (sets : List (Assignment type)) : (rubyEvent type sets).type = type :=
  foldl_rbRgEventAset_type _ sets

/-- After a call of `[]=`, the length is the size of the command. -/
theorem rubyEvent_length {sets : List (Assignment type)} (hne : sets ≠ []) :
    (rubyEvent type sets).length = rgEncodeSize (rubyEvent type sets).data := by
  rcases List.eq_nil_or_concat sets with rfl | ⟨before, a, rfl⟩
  · exact absurd rfl hne
  · rw [List.concat_eq_append, rubyEvent, List.foldl_append]
    rfl

/-! ## Encoding -/

/-- The payload has the size of the native one. -/
theorem RgEvent.length_payload (event : RgEvent) :
    event.payload.length = event.data.payload.length := by
  obtain ⟨length, type, member⟩ := event
  cases type <;> rfl

/-- The length of an event counts its header and its payload. -/
theorem RgEvent.length_toNat {event : RgEvent} (h : event.length = rgEncodeSize event.data) :
    event.length.toNatClampNeg = rgMinPayload + event.payload.length := by
  have hmax := length_payload_le event.data
  rw [h, rgEncodeSize_eq, event.length_payload, toNatClampNeg_ofNat (hmax.trans_lt (by decide))]

/-- Two writes that cover a buffer. -/
theorem writeAt_writeAt_cover {buf block block' : Bytes}
    (h : buf.length = block.length + block'.length) :
    writeAt (writeAt buf 0 block) block.length block' = block ++ block' := by
  have hfirst : writeAt buf 0 block = block ++ buf.drop block.length := by
    rw [writeAt, List.take_zero, List.nil_append, Nat.zero_add]
  rw [hfirst, writeAt, List.take_left, List.drop_of_length_le, List.append_nil]
  rw [List.length_append, List.length_drop, h]
  omega

/-- One write that covers a buffer. -/
theorem writeAt_cover {buf block : Bytes} (h : buf.length = block.length) :
    writeAt buf 0 block = block := by
  rw [writeAt, List.take_zero, List.nil_append, List.drop_of_length_le (by omega), List.append_nil]

/-- The types whose events are copied. -/
def EventType.Copied (type : EventType) : Prop :=
  type = .threadStarted ∨ type = .threadEnded ∨ type = .processEnded ∨ type = .processFrequency ∨
    type = .endTransaction

/-- **Padding**: a byte in front of some bytes and four behind them change nothing only where there
are zeros. -/
theorem padded_eq_iff (head tail : Bytes) :
    ([0] ++ (head ++ ([0, 0, 0, 0] ++ tail))).take (head.length + tail.length) = head ++ tail ↔
      (∀ x ∈ head, x = 0) ∧ ∀ x ∈ tail, x = 0 := by
  -- zeros in front of zeros are zeros behind them
  have hmove : (∀ x ∈ head, x = 0) → [0] ++ (head ++ ([0, 0, 0, 0] ++ tail))
      = head ++ (List.replicate 5 0 ++ tail) := by
    intro hhead
    rw [List.eq_replicate_of_mem hhead, ← List.append_assoc, ← List.append_assoc]
    rw [show ([0] : Bytes) = List.replicate 1 0 from rfl, List.replicate_append_replicate,
      Nat.add_comm, ← List.replicate_append_replicate, List.append_assoc, List.append_assoc]
    rfl
  have hrest : (∀ x ∈ head, x = 0) →
      (([0] ++ (head ++ ([0, 0, 0, 0] ++ tail))).take (head.length + tail.length) = head ++ tail ↔
        (List.replicate 5 0 ++ tail).take tail.length = tail) := by
    intro hhead
    rw [hmove hhead, List.take_length_add_append, List.append_cancel_left_eq]
  constructor
  · intro h
    have hhead : ∀ x ∈ head, x = 0 := by
      have hfirst := congrArg (List.take head.length) h
      rw [List.take_take, Nat.min_eq_left (Nat.le_add_right _ _), List.take_left, ← List.append_assoc,
        List.take_append_of_le_length (by rw [List.length_append]; omega)] at hfirst
      exact eq_of_take_replicate_append (k := 1) Nat.one_pos hfirst
    exact ⟨hhead, eq_of_take_replicate_append (by decide) ((hrest hhead).mp h)⟩
  · rintro ⟨hhead, htail⟩
    apply (hrest hhead).mpr
    rw [List.eq_replicate_of_mem htail, List.replicate_append_replicate, List.take_replicate,
      List.length_replicate, Nat.min_eq_left (Nat.le_add_left _ _)]

/-- The bytes of a `uint32_t` are all zero exactly if it is. -/
theorem packUInt32_zero_iff (x : UInt32) : (∀ b ∈ packUInt32 x, b = 0) ↔ x = 0 := by
  rw [packUInt32, LittleEndian.encode_eq_zero_iff x.toNat_lt, ← UInt32.toNat_inj]
  rfl

/-- The bytes of a `uint64_t` are all zero exactly if it is. -/
theorem packUInt64_zero_iff (x : UInt64) : (∀ b ∈ packUInt64 x, b = 0) ↔ x = 0 := by
  rw [packUInt64, LittleEndian.encode_eq_zero_iff x.toNat_lt, ← UInt64.toNat_inj]
  rfl

/-- The bytes of an `int64_t` are all zero exactly if it is. -/
theorem packInt64_zero_iff (x : Int64) : (∀ b ∈ packInt64 x, b = 0) ↔ x = 0 := by
  have hzero : x.toUInt64 = 0 ↔ x = 0 := by
    constructor
    · intro h
      rw [← Int64.toInt64_toUInt64 x, h]
      rfl
    · rintro rfl
      rfl
  rw [packInt64, LittleEndian.encode_eq_zero_iff x.toUInt64.toNat_lt, ← hzero, ← UInt64.toNat_inj]
  rfl

/-- **A copy of the structure** is the command if there are only zeros behind the type. -/
theorem rgEventMemory_take_iff (header : EventHeader) (payload : Bytes) :
    (rgEventMemory header payload).take (rgMinPayload + payload.length)
        = rgEncodeHeaderImpl header ++ payload ↔
      (header.pid = 0 ∧ header.tid = 0 ∧ header.timestamp = 0) ∧ ∀ b ∈ payload, b = 0 := by
  -- The two differ by the padding: a byte behind the type and four behind the thread id.
  have hpadded := padded_eq_iff (packUInt32 header.pid ++ packUInt32 header.tid)
    (packInt64 header.timestamp ++ payload)
  have hmemory : rgEventMemory header payload = (packLength header.length ++ packByte header.type) ++
      ([0] ++ ((packUInt32 header.pid ++ packUInt32 header.tid) ++
        ([0, 0, 0, 0] ++ (packInt64 header.timestamp ++ payload)))) := by
    simp only [rgEventMemory, List.append_assoc]
  have hheader : rgEncodeHeaderImpl header ++ payload
      = (packLength header.length ++ packByte header.type) ++
        ((packUInt32 header.pid ++ packUInt32 header.tid) ++
          (packInt64 header.timestamp ++ payload)) := by
    simp only [rgEncodeHeaderImpl, List.append_assoc]
  have hsize : rgMinPayload + payload.length
      = (packLength header.length ++ packByte header.type).length +
        ((packUInt32 header.pid ++ packUInt32 header.tid).length +
          (packInt64 header.timestamp ++ payload).length) := by
    simp only [List.length_append, length_packLength, length_packByte, length_packUInt32,
      length_packInt64, rgMinPayload]
    omega
  rw [hmemory, hheader, hsize, List.take_length_add_append, List.append_cancel_left_eq, hpadded,
    List.forall_mem_append, List.forall_mem_append, packUInt32_zero_iff, packUInt32_zero_iff,
    packInt64_zero_iff, and_assoc, and_assoc, and_assoc]

/-- Where an event is not copied, the encoders cover the string, and there is no padding to move. -/
theorem rbRgEventEncoded_of_not_copied {event : RgEvent} {buf : Bytes}
    (hlength : event.length = rgEncodeSize event.data)
    (hbuf : buf.length = event.length.toNatClampNeg) (hnot : ¬ event.type.Copied) :
    rbRgEventEncoded event buf = rgEncodeHeaderImpl event.header ++ event.payload ∧
      event.Unpadded := by
  have hcover : writeAt (writeAt buf 0 (rgEncodeHeaderImpl event.header)) rgMinPayload event.payload
      = rgEncodeHeaderImpl event.header ++ event.payload := by
    rw [← length_rgEncodeHeaderImpl event.header]
    apply writeAt_writeAt_cover
    rw [hbuf, event.length_toNat hlength, length_rgEncodeHeaderImpl]
  obtain ⟨length, type, member⟩ := event
  cases type with
  | threadStarted => exact absurd (.inl rfl) hnot
  | threadEnded => exact absurd (.inr (.inl rfl)) hnot
  | processEnded => exact absurd (.inr (.inr (.inl rfl))) hnot
  | processFrequency => exact absurd (.inr (.inr (.inr (.inl rfl)))) hnot
  | endTransaction => exact absurd (.inr (.inr (.inr (.inr rfl)))) hnot
  | _ => exact ⟨hcover, trivial⟩

/-- Where it is, the copy covers the string, also what the encoder of THREAD_STARTED has written. -/
theorem rbRgEventEncoded_of_copied {event : RgEvent} {buf : Bytes}
    (hlength : event.length = rgEncodeSize event.data)
    (hbuf : buf.length = event.length.toNatClampNeg) (hcopied : event.type.Copied) :
    rbRgEventEncoded event buf
      = (rgEventMemory event.header event.payload).take (rgMinPayload + event.payload.length) := by
  have hsize := event.length_toNat hlength
  rw [← hsize]
  have hcover : ∀ memory : Bytes, memory.length = buf.length →
      writeAt memory 0 ((rgEventMemory event.header event.payload).take event.length.toNatClampNeg)
        = (rgEventMemory event.header event.payload).take event.length.toNatClampNeg := by
    intro memory hmemory
    apply writeAt_cover
    rw [hmemory, hbuf, List.length_take, Nat.min_eq_left]
    rw [hsize]
    simp only [rgEventMemory, List.length_append, length_packLength, length_packByte,
      length_packUInt32, length_packInt64, List.length_cons, List.length_nil, rgMinPayload]
    omega
  -- THREAD_STARTED is encoded before it is copied over.
  have hexplicit : (writeAt (writeAt buf 0 (rgEncodeHeaderImpl event.header)) rgMinPayload
      event.payload).length = buf.length := by
    rw [← length_rgEncodeHeaderImpl event.header, writeAt_writeAt_cover, List.length_append,
      length_rgEncodeHeaderImpl, hbuf, hsize]
    rw [hbuf, hsize, length_rgEncodeHeaderImpl]
  obtain ⟨length, type, member⟩ := event
  rcases hcopied with rfl | rfl | rfl | rfl | rfl
  · exact hcover _ hexplicit
  · exact hcover _ rfl
  · exact hcover _ rfl
  · exact hcover _ rfl
  · exact hcover _ rfl

/-- **Header and payload** are what comes out exactly if nothing but zeros is moved. -/
theorem rbRgEventEncoded_eq_iff {event : RgEvent} {buf : Bytes}
    (hlength : event.length = rgEncodeSize event.data)
    (hbuf : buf.length = event.length.toNatClampNeg) :
    rbRgEventEncoded event buf = rgEncodeHeaderImpl event.header ++ event.payload
      ↔ event.Unpadded := by
  by_cases hcopied : event.type.Copied
  · rw [rbRgEventEncoded_of_copied hlength hbuf hcopied, rgEventMemory_take_iff]
    obtain ⟨length, type, member⟩ := event
    rcases hcopied with rfl | rfl | rfl | rfl | rfl
    · exact and_congr_right' (packUInt32_zero_iff _)
    · exact and_iff_left (List.forall_mem_nil _)
    · exact and_iff_left (List.forall_mem_nil _)
    · exact and_congr_right' (packUInt64_zero_iff _)
    · exact and_iff_left (List.forall_mem_nil _)
  · obtain ⟨hencoded, hunpadded⟩ := rbRgEventEncoded_of_not_copied hlength hbuf hcopied
    exact iff_of_true hencoded hunpadded

/-! ## The native code -/

/-- The native code sends the header, packed, and the payload. -/
theorem nativeCommand_eq {context : Context} {event : RgEvent}
    (hlength : event.length = rgEncodeSize event.data) (hpid : context.pid = event.header.pid) :
    nativeCommand context event = rgEncodeHeaderImpl event.header ++ event.payload := by
  have hsent : ∀ data, data.type = event.type → rgEncodeSize data = rgEncodeSize event.data →
      Context.sent (context.emit event.header.tid event.header.timestamp data)
        = rgEncodeHeaderImpl event.header ++ data.payload := by
    intro data htype hsize
    rw [Context.sent, Context.emit_command, Event.encoded, Event.header]
    dsimp only
    rw [htype, hsize, ← hlength, hpid]
    rfl
  have hdirect : rgEncodeHeaderImpl { event.header with length := rgEncodeSize event.data } ++
      event.payload = rgEncodeHeaderImpl event.header ++ event.payload := by
    rw [← hlength]
    rfl
  obtain ⟨length, type, member⟩ := event
  cases type with
  | endFrame => exact hdirect
  | sqlInformation => exact hdirect
  | httpIncomingInformation => exact hdirect
  | httpOutgoingInformation => exact hdirect
  | _ => exact hsent _ rfl rfl

/-! ## Decoding -/

/-- The payload is read back. -/
theorem reads_decodeRubyData (event : RgEvent) :
    Reads (decodeRubyData event.type) event.payload event.data.transmitted := by
  have hread := reads_decodeData event.data
  obtain ⟨length, type, member⟩ := event
  cases type with
  | endFrame =>
      apply (reads_unpackUInt32 _).bind
      apply (reads_unpackByte _).bind
      apply (reads_unpackLength 0).bind
      apply (reads_unpackByte 0).bind
      exact (reads_unpackByte 0).bind_pure rfl
  | _ => exact hread

/-- The command is read back. -/
theorem reads_decodeRubyEvent (event : RgEvent) :
    Reads (decodeRubyEvent event.type) (rgEncodeHeaderImpl event.header ++ event.payload)
      (event.header, event.data.transmitted) :=
  (reads_decodeHeader event.header).bind ((reads_decodeRubyData event).bind_pure rfl)

/-! ## Agreement -/

/-- **`encoded` agrees with the native encoder** if and only if the event is not one of those that
are copied with padding, or there is nothing but zeros behind its type. -/
theorem encodesAsNative_iff (type : EventType) {sets : List (Assignment type)} (hne : sets ≠ []) :
    EncodesAsNative type sets ↔ (rubyEvent type sets).Unpadded := by
  have hlength := rubyEvent_length hne
  have hsize := (rubyEvent type sets).length_toNat hlength
  constructor
  · intro h
    -- One buffer says it already.
    have hbuf : (List.replicate (rubyEvent type sets).length.toNatClampNeg (0 : UInt8)).length
        = (rubyEvent type sets).length.toNatClampNeg := List.length_replicate
    exact (rbRgEventEncoded_eq_iff hlength hbuf).mp (h.bytes _ hbuf)
  · intro hunpadded
    have hbytes : ∀ buf, buf.length = (rubyEvent type sets).length.toNatClampNeg →
        rbRgEventEncoded (rubyEvent type sets) buf
          = rgEncodeHeaderImpl (rubyEvent type sets).header ++ (rubyEvent type sets).payload :=
      fun buf hbuf => (rbRgEventEncoded_eq_iff hlength hbuf).mpr hunpadded
    refine ⟨hbytes, ?_, ?_, ?_, holdsLast type sets⟩
    · intro buf context hbuf hpid
      rw [hbytes buf hbuf, nativeCommand_eq hlength hpid]
    · intro buf hbuf
      rw [hbytes buf hbuf, List.length_append, length_rgEncodeHeaderImpl, hlength,
        rgEncodeSize_toInt, RgEvent.length_payload]
    · intro buf hbuf
      have hread := reads_decodeRubyEvent (rubyEvent type sets) []
      rw [rubyEvent_type, List.append_nil] at hread
      rw [hbytes buf hbuf]
      exact hread

/-- A SQL event with a query. -/
def sqlSets : List (Assignment .sqlInformation) :=
  [⟨.pid, by decide, (7 : UInt32)⟩, ⟨.query, by decide, some [0x42, 0x45]⟩]

/-- The SQL event encodes as the native code does. -/
theorem encodesAsNative_sql : EncodesAsNative .sqlInformation sqlSets :=
  (encodesAsNative_iff .sqlInformation (by decide)).mpr trivial

/-- A THREAD_ENDED event of a process. -/
def threadEndedSets : List (Assignment .threadEnded) := [⟨.pid, by decide, (1 : UInt32)⟩]

/-- The THREAD_ENDED event does not encode as the native code does: its process id is where the
padding ends. -/
theorem not_encodesAsNative_threadEnded : ¬ EncodesAsNative .threadEnded threadEndedSets := by
  intro h
  have hbytes := h.bytes (List.replicate rgMinPayload 0) rfl
  revert hbytes
  decide

end RaygunApm
