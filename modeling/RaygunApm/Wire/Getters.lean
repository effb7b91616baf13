import RaygunApm.Wire.Overlays

/-! # Reading attributes back

The event object that Ruby sees is a function from attributes to members (`RgEvent`); what there is,
is a union of bytes (`EventMemory`). With the attributes of its own type the two are the same: `[]`
returns what was assigned last, and the encoders find in the union what the members say
(`eventMemory_refines`). -/

namespace RaygunApm

open ByteMemory

/-! ## Getters -/

/-- The Ruby values that `[]` returns. -/
def Attribute.Result : Attribute → Type
  | .pid | .tid | .parentTid | .functionId => UInt32
  | .timestamp | .frequency | .duration => Int64
  | .exceptionId | .instanceId => UInt64
  | .tailcall => Bool
  | .methodSource => UInt8
  | .status => UInt16
  | .className | .methodName | .provider | .host | .database | .query | .correlationId | .url
  | .technologyType | .processType | .apiKey | .verb => Bytes

/-- The conversion of a member to the value. -/
def Attribute.view : (attr : Attribute) → attr.Member → attr.Result
  | .pid, m | .tid, m | .parentTid, m | .functionId, m => m
  | .timestamp, m | .duration, m => m
  | .frequency, m => UInt64.toInt64 m
  | .exceptionId, m | .instanceId, m => m
  | .tailcall, m => UInt8.toNat m != 0
  | .methodSource, m => m
  | .status, m => m
  | .className, m | .methodName, m | .provider, m | .host, m | .database, m | .query, m
  | .correlationId, m | .url, m | .technologyType, m | .processType, m | .apiKey, m =>
      EncodedString.string m
  | .verb, m => EncodedShortString.string m

/-- What `[]` does. -/
inductive Aref (attr : Attribute) where
  /-- A value is returned. -/
  | value (result : attr.Result)
  /-- There is no case for the type of the event. -/
  | nil
  /-- "Invalid type for duration". -/
  | invalid
  /-- The length of the string is negative, or larger than the array. -/
  | outside

namespace EventMemory

/-- `rb_str_new` with an `rg_encoded_string_t`. -/
def rbStrNew (data : Bytes) (offset : Nat) : Option Bytes :=
  if 0 ≤ (stringLength data offset).toInt ∧ (stringLength data offset).toInt ≤ rgMaxStringSize then
    some (readAt data (offset + 4) (sizeOfLength (stringLength data offset)))
  else none

/-- `rb_str_new` with an `rg_encoded_short_string_t`. -/
def rbStrNewShort (data : Bytes) (offset : Nat) : Bytes :=
  readAt data (offset + 2) (number data (offset + 1) 1)

/-- The value of a member of the union. -/
def readMember (data : Bytes) (offset : Nat) : (attr : Attribute) → Option attr.Result
  | .pid | .tid | .parentTid | .functionId => some (UInt32.ofNat (number data offset 4))
  | .timestamp | .frequency | .duration => some (UInt64.ofNat (number data offset 8)).toInt64
  | .exceptionId | .instanceId => some (UInt64.ofNat (number data offset 8))
  | .tailcall => some ((UInt8.ofNat (number data offset 1)).toNat != 0)
  | .methodSource => some (UInt8.ofNat (number data offset 1))
  | .status => some (UInt16.ofNat (number data offset 2))
  | .className | .methodName | .provider | .host | .database | .query | .correlationId | .url
  | .technologyType | .processType | .apiKey => rbStrNew data offset
  | .verb => some (rbStrNewShort data offset)

/-- `rb_rg_event_aref`, whose cases read what those of `[]=` set. -/
def rbRgEventAref (cls : EventClass) (event : EventMemory) (attr : Attribute) : Aref attr :=
  match attr, attr.place cls with
  | .pid, .header => .value event.pid
  | .tid, .header => .value event.tid
  | .timestamp, .header => .value event.timestamp
  | attr, .data offset =>
      match readMember event.data offset attr with
      | some result => .value result
      | none => .outside
  | _, .invalid => .invalid
  | _, _ => .nil

end EventMemory

/-! ## Members in the union -/

/-- The union holds a string: its encoding, its length and its bytes. -/
structure StoredString (data : Bytes) (offset : Nat) (s : EncodedString) : Prop where
  encoding : readAt data offset 1 = packByte s.encoding
  length : readAt data (offset + 2) 2 = packLength s.length
  string : readAt data (offset + 4) s.string.length = s.string

/-- The union holds a short string. -/
structure StoredShortString (data : Bytes) (offset : Nat) (s : EncodedShortString) : Prop where
  length : readAt data (offset + 1) 1 = packByte s.length
  string : readAt data (offset + 2) s.string.length = s.string

/-- The union holds a member at an offset. -/
def Attribute.Stored (data : Bytes) (offset : Nat) : (attr : Attribute) → attr.Member → Prop
  | .pid, m | .tid, m | .parentTid, m | .functionId, m => readAt data offset 4 = packUInt32 m
  | .timestamp, m | .duration, m => readAt data offset 8 = packInt64 m
  | .frequency, m | .exceptionId, m | .instanceId, m => readAt data offset 8 = packUInt64 m
  | .tailcall, m | .methodSource, m => readAt data offset 1 = packByte m
  | .status, m => readAt data offset 2 = packUInt16 m
  | .className, m | .methodName, m | .provider, m | .host, m | .database, m | .query, m
  | .correlationId, m | .url, m | .technologyType, m | .processType, m | .apiKey, m =>
      StoredString data offset m
  | .verb, m => StoredShortString data offset m

/-- Reads inside of two equal blocks are equal. -/
theorem readAt_eq_of_block {data data' : Bytes} {offset size : Nat}
    (h : readAt data' offset size = readAt data offset size) {i n : Nat} (hi : i + n ≤ size) :
    readAt data' (offset + i) n = readAt data (offset + i) n := by
  have hn : n ≤ size - i := by omega
  rw [← take_readAt data' hn, ← take_readAt data hn, ← drop_readAt, ← drop_readAt, h]

/-- A member is as it was where its bytes are. -/
theorem Attribute.Stored.of_block {attr : Attribute} {data data' : Bytes} {offset : Nat}
    {m : attr.Member} (h : attr.Stored data offset m)
    (hblock : readAt data' offset attr.size = readAt data offset attr.size) :
    attr.Stored data' offset m := by
  have hstring : ∀ s : EncodedString, readAt data' offset 4100 = readAt data offset 4100 →
      StoredString data offset s → StoredString data' offset s := by
    intro s hblock h
    have hlength : s.string.length ≤ 4096 := s.length_le
    exact ⟨(readAt_eq_of_block hblock (i := 0) (by decide)).trans h.encoding,
      (readAt_eq_of_block hblock (by decide)).trans h.length,
      (readAt_eq_of_block hblock (by omega)).trans h.string⟩
  cases attr with
  | className | methodName | provider | host | database | query | correlationId | url
  | technologyType | processType | apiKey => exact hstring m hblock h
  | verb =>
      have hlength : (EncodedShortString.string m).length ≤ 127 := EncodedShortString.length_le m
      have hsize : readAt data' offset 257 = readAt data offset 257 := hblock
      exact ⟨(readAt_eq_of_block hsize (by decide)).trans h.length,
        (readAt_eq_of_block hsize (by omega)).trans h.string⟩
  | _ => exact hblock.trans h

namespace EventMemory

/-- A read apart from a store does not see it. -/
theorem readAt_store {event : EventMemory} {store : Store} {offset size : Nat}
    (h : offset + size ≤ store.offset ∨ store.offset + store.block.length ≤ offset) :
    readAt (event.store store).data offset size = readAt event.data offset size := by
  have hinside := store.inside
  have hmem : store.offset ≤ event.data.length := by
    rw [event.data_size]
    omega
  rcases h with hbelow | habove
  · exact readAt_writeAt_below _ hbelow hmem
  · exact readAt_writeAt_above _ habove hmem

/-- A read apart from some stores. -/
theorem readAt_stores {event : EventMemory} {stores : List Store} {offset size : Nat}
    (h : ∀ store ∈ stores,
      offset + size ≤ store.offset ∨ store.offset + store.block.length ≤ offset) :
    readAt (stores.foldl EventMemory.store event).data offset size = readAt event.data offset size := by
  induction stores generalizing event with
  | nil => rfl
  | cons store stores ih =>
      obtain ⟨hstore, hstores⟩ := List.forall_mem_cons.mp h
      rw [List.foldl_cons, ih hstores, readAt_store hstore]

/-- A read of what was just stored. -/
theorem readAt_store_self (event : EventMemory) (store : Store) :
    readAt (event.store store).data store.offset store.block.length = store.block := by
  have hinside := store.inside
  exact readAt_writeAt _ (by rw [event.data_size]; omega)

/-- **Assigning a string** stores it. -/
theorem storedString_stores (event : EventMemory) {offset : Nat} (s : EncodedString)
    (h : offset + 4100 ≤ rgEventDataSize) :
    StoredString ((storeString offset s h).foldl EventMemory.store event).data offset s := by
  have hlength : s.string.length ≤ 4096 := s.length_le
  -- the encoding, the length and the bytes do not lie over each other
  refine ⟨?_, ?_, ?_⟩
  · exact (readAt_store (.inl (by dsimp only; omega))).trans
      ((readAt_store (.inl (by dsimp only; omega))).trans
        (readAt_store_self event ⟨offset, packByte s.encoding, _⟩))
  · exact (readAt_store (.inl (by dsimp only; omega))).trans
      (readAt_store_self _ ⟨offset + 2, packLength s.length, _⟩)
  · exact readAt_store_self _ ⟨offset + 4, s.string, _⟩

/-- Assigning a short string stores it. -/
theorem storedShortString_stores (event : EventMemory) {offset : Nat} (s : EncodedShortString)
    (h : offset + 257 ≤ rgEventDataSize) :
    StoredShortString ((storeShortString offset s h).foldl EventMemory.store event).data offset s := by
  have hlength : s.string.length ≤ 127 := s.length_le
  refine ⟨?_, ?_⟩
  · exact (readAt_store (.inl (by dsimp only; omega))).trans
      (readAt_store_self _ ⟨offset + 1, packByte s.length, _⟩)
  · exact readAt_store_self _ ⟨offset + 2, s.string, _⟩

/-- A scalar assigned is read back. -/
theorem readAt_storeScalar (event : EventMemory) {offset size : Nat} {block : Bytes}
    (hblock : block.length = size) (h : offset + size ≤ rgEventDataSize) :
    readAt ((storeScalar offset block hblock h).foldl EventMemory.store event).data offset size
      = block := by
  subst hblock
  exact readAt_store_self event ⟨offset, block, h⟩

/-- **Assigning an attribute** stores its member. -/
theorem stored_stores (event : EventMemory) {attr : Attribute} {offset : Nat} (m : attr.Member)
    (h : offset + attr.size ≤ rgEventDataSize) :
    attr.Stored ((attr.stores offset m h).foldl EventMemory.store event).data offset m := by
  cases attr with
  | verb => exact storedShortString_stores event m h
  | pid | tid | parentTid | functionId =>
      exact readAt_storeScalar event (length_packUInt32 m) h
  | timestamp | duration => exact readAt_storeScalar event (length_packInt64 m) h
  | frequency | exceptionId | instanceId => exact readAt_storeScalar event (length_packUInt64 m) h
  | tailcall | methodSource => exact readAt_storeScalar event (length_packByte m) h
  | status => exact readAt_storeScalar event (length_packUInt16 m) h
  | _ => exact storedString_stores event m h

/-- Assigning an attribute leaves what is apart from its member. -/
theorem readAt_stores_apart (event : EventMemory) {attr : Attribute} {at' : Nat} (m : attr.Member)
    (h : at' + attr.size ≤ rgEventDataSize) {offset size : Nat}
    (hapart : offset + size ≤ at' ∨ at' + attr.size ≤ offset) :
    readAt ((attr.stores at' m h).foldl EventMemory.store event).data offset size
      = readAt event.data offset size := by
  apply readAt_stores
  intro store hstore
  obtain ⟨hstart, hend⟩ := stores_within m h store hstore
  omega

/-- In a new event there are zeros. -/
theorem readAt_alloc {offset size : Nat} (h : offset + size ≤ rgEventDataSize) :
    readAt rbRgEventAlloc.data offset size = List.replicate size 0 := by
  rw [readAt, rbRgEventAlloc, List.drop_replicate, List.take_replicate, Nat.min_eq_left (by omega)]

/-- The members of a new event are stored in it as zeros. -/
theorem stored_alloc {attr : Attribute} {offset : Nat} (h : offset + attr.size ≤ rgEventDataSize) :
    attr.Stored rbRgEventAlloc.data offset attr.zero := by
  have hstring : offset + 4100 ≤ rgEventDataSize →
      StoredString rbRgEventAlloc.data offset ⟨0, [], Nat.zero_le _⟩ := fun h =>
    ⟨readAt_alloc (by omega), readAt_alloc (by omega), rfl⟩
  cases attr with
  | className | methodName | provider | host | database | query | correlationId | url
  | technologyType | processType | apiKey => exact hstring h
  | verb =>
      have hsize : offset + 257 ≤ rgEventDataSize := h
      exact ⟨readAt_alloc (by omega), rfl⟩
  | _ => exact readAt_alloc h

/-! ## What is read -/

variable {data : Bytes} {offset : Nat}

/-- The number stored in some bytes is the one that they encode. -/
theorem number_of_readAt {width value : Nat}
    (h : readAt data offset width = LittleEndian.encode width value)
    (hlt : value < 256 ^ width) : number data offset width = value := by
  rw [number, h, LittleEndian.decode_encode_of_lt hlt]

/-- The length of a stored string. -/
theorem stringLength_of_stored {s : EncodedString} (h : StoredString data offset s) :
    stringLength data offset = Int16.ofNat s.string.length := by
  have hlength : s.string.length ≤ 4096 := s.length_le
  rw [stringLength, number, h.length, EncodedString.length, decode_packLength (by omega)]

/-- The size of a stored string. -/
theorem sizeOfLength_of_stored {s : EncodedString} (h : StoredString data offset s) :
    sizeOfLength (stringLength data offset) = s.string.length := by
  rw [stringLength_of_stored h, sizeOfLength_ofNat s.length_le]

/-- A stored string is returned. -/
theorem rbStrNew_of_stored {s : EncodedString} (h : StoredString data offset s) :
    rbStrNew data offset = some s.string := by
  have hlength : s.string.length ≤ 4096 := s.length_le
  have htoInt : (stringLength data offset).toInt = s.string.length := by
    rw [stringLength_of_stored h, Int16.toInt_ofNat_of_lt (by omega)]
  rw [rbStrNew, htoInt, if_pos, sizeOfLength_of_stored h, h.string]
  rw [rgMaxStringSize]
  omega

/-- A stored short string is returned. -/
theorem rbStrNewShort_of_stored {s : EncodedShortString} (h : StoredShortString data offset s) :
    rbStrNewShort data offset = s.string := by
  have hnumber : number data (offset + 1) 1 = s.string.length := by
    rw [number, h.length, ← EncodedShortString.length_toNat]
    simp [packByte, LittleEndian.decode_cons]
  rw [rbStrNewShort, hnumber, h.string]

/-- **A stored member is what is read.** -/
theorem readMember_of_stored {attr : Attribute} {m : attr.Member} (h : attr.Stored data offset m) :
    readMember data offset attr = some (attr.view m) := by
  have h32 : ∀ x : UInt32, readAt data offset 4 = packUInt32 x →
      UInt32.ofNat (number data offset 4) = x := by
    intro x hx
    rw [number_of_readAt hx x.toNat_lt, UInt32.ofNat_toNat]
  have h64 : ∀ x : UInt64, readAt data offset 8 = packUInt64 x →
      UInt64.ofNat (number data offset 8) = x := by
    intro x hx
    rw [number_of_readAt hx x.toNat_lt, UInt64.ofNat_toNat]
  have hi64 : ∀ x : Int64, readAt data offset 8 = packInt64 x →
      (UInt64.ofNat (number data offset 8)).toInt64 = x := by
    intro x hx
    rw [h64 x.toUInt64 hx, Int64.toInt64_toUInt64]
  have h8 : ∀ x : UInt8, readAt data offset 1 = packByte x →
      UInt8.ofNat (number data offset 1) = x := by
    intro x hx
    rw [number, hx]
    simp [packByte, LittleEndian.decode_cons]
  have h16 : ∀ x : UInt16, readAt data offset 2 = packUInt16 x →
      UInt16.ofNat (number data offset 2) = x := by
    intro x hx
    rw [number_of_readAt hx x.toNat_lt, UInt16.ofNat_toNat]
  cases attr with
  | pid | tid | parentTid | functionId => exact congrArg some (h32 m h)
  | timestamp | duration => exact congrArg some (hi64 m h)
  | frequency => exact congrArg (fun x : UInt64 => some x.toInt64) (h64 m h)
  | exceptionId | instanceId => exact congrArg some (h64 m h)
  | tailcall => exact congrArg (fun x : UInt8 => some (x.toNat != 0)) (h8 m h)
  | methodSource => exact congrArg some (h8 m h)
  | status => exact congrArg some (h16 m h)
  | verb => exact congrArg some (rbStrNewShort_of_stored h)
  | _ => exact rbStrNew_of_stored h

/-! ## The encoders -/

/-- The bytes that are copied. -/
def copied (data : Bytes) (copies : List Copy) : Bytes :=
  copies.flatMap fun copy => readAt data copy.offset copy.size

/-- The header fields of an event of a type. -/
def header (type : EventType) (event : EventMemory) : EventHeader where
  length := event.length
  type := type.code
  pid := event.pid
  tid := event.tid
  timestamp := event.timestamp

/-- `rb_rg_event_encoded`, in a new string that holds anything. There is no encoder for a batch. -/
def rbRgEventEncoded (cls : EventClass) (event : EventMemory) (buf : Bytes) : Bytes :=
  match cls with
  | .batch => buf
  | .event type =>
      let payload := copied event.data (payload (.event type) event.data)
      let explicit := writeAt (writeAt buf 0 (rgEncodeHeaderImpl (event.header type))) rgMinPayload
        payload
      let memory := (rgEventMemory (event.header type) event.data).take event.length.toNatClampNeg
      match type with
      -- there is no break between THREAD_STARTED and the types that are copied
      | .threadStarted => writeAt explicit 0 memory
      | .threadEnded | .processEnded | .processFrequency | .endTransaction => writeAt buf 0 memory
      | _ => explicit

/-- Some copies give a block, and their sizes are the length of it. -/
structure CopiesAs (data : Bytes) (copies : List Copy) (block : Bytes) : Prop where
  bytes : copied data copies = block
  total : total copies = block.length

/-- No copies copy no bytes. -/
theorem copiesAs_nil : CopiesAs data [] [] := ⟨rfl, rfl⟩

/-- Copies one after the other copy their bytes one after the other. -/
theorem CopiesAs.append {copies copies' : List Copy} {block block' : Bytes}
    (h : CopiesAs data copies block) (h' : CopiesAs data copies' block') :
    CopiesAs data (copies ++ copies') (block ++ block') where
  bytes := by rw [copied, List.flatMap_append, ← copied, ← copied, h.bytes, h'.bytes]
  total := by rw [total_append, h.total, h'.total, List.length_append]

/-- One copy copies the bytes that are in its place. -/
theorem copiesAs_singleton {size room : Nat} {block : Bytes} (h : readAt data offset size = block)
    (hsize : block.length = size) : CopiesAs data [⟨offset, size, room⟩] block where
  bytes := by rw [copied, List.flatMap_singleton, h]
  total := by rw [hsize]; rfl

/-- A stored scalar is copied. -/
theorem copiesAs_copyScalar {size : Nat} {block : Bytes} (h : readAt data offset size = block)
    (hsize : block.length = size) : CopiesAs data (copyScalar offset size) block :=
  copiesAs_singleton h hsize

/-- A stored string is copied with its length. -/
theorem copiesAs_copyString {s : EncodedString} (h : StoredString data offset s) :
    CopiesAs data (copyString data offset) (packString s) := by
  have hstring : readAt data (offset + 4) (sizeOfLength (stringLength data offset)) = s.string := by
    rw [sizeOfLength_of_stored h, h.string]
  exact (copiesAs_singleton h.length (length_packLength _)).append
    (copiesAs_singleton hstring (sizeOfLength_of_stored h).symm)

/-- A stored string is copied with its length and its encoding. -/
theorem copiesAs_copyEncodedString {s : EncodedString} (h : StoredString data offset s) :
    CopiesAs data (copyEncodedString data offset) (packEncodedString s) :=
  (copiesAs_singleton h.encoding (length_packByte _)).append (copiesAs_copyString h)

/-- A stored short string is copied with its length. -/
theorem copiesAs_copyShortString {s : EncodedShortString} (h : StoredShortString data offset s) :
    CopiesAs data (copyShortString data offset) (packShortString s) := by
  have hnumber : number data (offset + 1) 1 = s.string.length := by
    rw [number, h.length, ← EncodedShortString.length_toNat]
    simp [packByte, LittleEndian.decode_cons]
  have hstring : readAt data (offset + 2) (number data (offset + 1) 1) = s.string := by
    rw [hnumber, h.string]
  exact (copiesAs_singleton h.length (length_packByte _)).append
    (copiesAs_singleton hstring hnumber.symm)

/-- The bytes of the union that `[]=` does not set, but the encoders read: the number of arguments,
and the start of the return value. -/
def blank : EventType → Nat × Nat
  | .beginFrame => (16, 1)
  | .endFrame => (6, 4)
  | _ => (0, 0)

/-- A return value that is zero is copied as a record without name and value. -/
theorem copiesAs_zero_returnvalue (h : readAt data 6 4 = List.replicate 4 0) :
    CopiesAs data (rgEncodeVariableinfo data 6) (packLength 0 ++ (packByte 0 ++ packByte 0)) := by
  have hzero : ∀ i n, i + n ≤ 4 → readAt data (6 + i) n = List.replicate n 0 := by
    intro i n hi
    rw [← take_readAt data (show n ≤ 4 - i by omega), ← drop_readAt, h, List.drop_replicate,
      List.take_replicate, Nat.min_eq_left (by omega)]
  have hname : number data 9 1 = 0 := by
    rw [number, hzero 3 1 (by decide)]
    rfl
  have htype : number data 8 1 = 0 := by
    rw [number, hzero 2 1 (by decide)]
    rfl
  have hvalue : copyVariableValue data (UInt8.ofNat (number data 8 1)) (6 + 208) = [] := by
    rw [htype]
    rfl
  have hnone : readAt data 10 (number data 9 1) = [] := by rw [hname, readAt_zero]
  rw [rgEncodeVariableinfo, hvalue]
  -- of the name there is nothing
  exact (copiesAs_singleton (hzero 0 2 (by decide)) rfl).append
    ((copiesAs_singleton (hzero 2 1 (by decide)) rfl).append
      ((copiesAs_singleton (hzero 3 1 (by decide)) rfl).append
        (copiesAs_singleton hnone hname.symm)))

/-! ## The members of a type are apart -/

/-- A member is apart from some bytes. -/
def ApartFrom (cls : EventClass) (attr : Attribute) (start size : Nat) : Prop :=
  match attr.place cls with
  | .data offset => start + size ≤ offset ∨ offset + attr.size ≤ start
  | _ => True

instance (cls : EventClass) (attr : Attribute) (start size : Nat) :
    Decidable (ApartFrom cls attr start size) :=
  match h : attr.place cls with
  | .data offset => decidable_of_iff (start + size ≤ offset ∨ offset + attr.size ≤ start)
      (by simp [ApartFrom, h])
  | .header | .nowhere | .invalid => isTrue (by simp [ApartFrom, h])

/-- Two members do not lie over each other. -/
def Apart (cls : EventClass) (attr attr' : Attribute) : Prop :=
  match attr.place cls with
  | .data offset => ApartFrom cls attr' offset attr.size
  | _ => True

instance (cls : EventClass) (attr attr' : Attribute) : Decidable (Apart cls attr attr') :=
  match h : attr.place cls with
  | .data offset => decidable_of_iff (ApartFrom cls attr' offset attr.size) (by simp [Apart, h])
  | .header | .nowhere | .invalid => isTrue (by simp [Apart, h])

/-- **The attributes of a type** have places of their own. -/
theorem apart_of_own {type : EventType} {attr attr' : Attribute} (h : attr ∈ type.attributes)
    (h' : attr' ∈ type.attributes) (hne : attr ≠ attr') : Apart (.event type) attr attr' := by
  have hapart : ∀ attr ∈ type.attributes, ∀ attr' ∈ type.attributes, attr ≠ attr' →
      Apart (.event type) attr attr' := by
    cases type <;> decide
  exact hapart attr h attr' h' hne

/-- The attributes of a type leave the rest of the event alone. -/
theorem apart_blank {type : EventType} {attr : Attribute} (h : attr ∈ type.attributes) :
    ApartFrom (.event type) attr (blank type).1 (blank type).2 := by
  have hapart : ∀ attr ∈ type.attributes,
      ApartFrom (.event type) attr (blank type).1 (blank type).2 := by
    cases type <;> decide
  exact hapart attr h

/-- Each of them has a place. -/
theorem place_of_own {type : EventType} {attr : Attribute} (h : attr ∈ type.attributes) :
    attr.place (.event type) ≠ .nowhere ∧ attr.place (.event type) ≠ .invalid := by
  have hplace : ∀ attr ∈ type.attributes,
      attr.place (.event type) ≠ .nowhere ∧ attr.place (.event type) ≠ .invalid := by
    cases type <;> decide
  exact hplace attr h

/-! ## The refinement -/

/-- The members of an event are in the union. -/
structure InUnion (type : EventType) (member : (attr : Attribute) → attr.Member)
    (memory : EventMemory) : Prop where
  pid : memory.pid = member .pid
  tid : memory.tid = member .tid
  timestamp : memory.timestamp = member .timestamp
  /-- Those of its own attributes, each at its place. -/
  stored : ∀ attr ∈ type.attributes, ∀ offset, attr.place (.event type) = .data offset →
    attr.Stored memory.data offset (member attr)
  /-- What is not set is zero. -/
  blank : readAt memory.data (blank type).1 (blank type).2 = List.replicate (blank type).2 0
  /-- The encoders copy no more than there is. -/
  lengths : LengthsHold (.event type) memory.data

/-- The union of a new event holds zeros in all attributes of a type. -/
theorem inUnion_alloc (type : EventType) : InUnion type Attribute.zero rbRgEventAlloc where
  pid := rfl
  tid := rfl
  timestamp := rfl
  stored := fun _ _ _ hplace => stored_alloc (Attribute.place_inside hplace)
  blank := readAt_alloc (by cases type <;> decide)
  lengths := lengthsHold_alloc _

/-- **The payload** that is copied out of the union. -/
theorem copiesAs_payload {type : EventType} {member : (attr : Attribute) → attr.Member}
    (length : RgLength)
    (hstored : ∀ attr ∈ type.attributes, ∀ offset, attr.place (.event type) = .data offset →
      attr.Stored data offset (member attr))
    (hblank : readAt data (blank type).1 (blank type).2 = List.replicate (blank type).2 0) :
    CopiesAs data (payload (.event type) data) (RgEvent.payload ⟨length, type, member⟩) := by
  have hassoc {copies : List Copy} {a b c : Bytes} (h : CopiesAs data copies (a ++ b ++ c)) :
      CopiesAs data copies (a ++ (b ++ c)) := List.append_assoc a b c ▸ h
  cases type with
  | beginFrame =>
      have hid := copiesAs_copyScalar (hstored .functionId (by decide) 0 rfl) (length_packUInt32 _)
      have hinstance := copiesAs_copyScalar (hstored .instanceId (by decide) 8 rfl) (length_packUInt64 _)
      exact hassoc ((hid.append hinstance).append (copiesAs_copyScalar hblank rfl))
  | endFrame =>
      have hid := copiesAs_copyScalar (hstored .functionId (by decide) 0 rfl) (length_packUInt32 _)
      have htail := copiesAs_copyScalar (hstored .tailcall (by decide) 4 rfl) (length_packByte _)
      exact hassoc ((hid.append htail).append (copiesAs_zero_returnvalue hblank))
  | methodinfo =>
      have hid := copiesAs_copyScalar (hstored .functionId (by decide) 0 rfl) (length_packUInt32 _)
      have hclass := copiesAs_copyString (hstored .className (by decide) 4 rfl)
      have hmethod := copiesAs_copyString (hstored .methodName (by decide) 4104 rfl)
      have hsource := copiesAs_copyScalar (hstored .methodSource (by decide) 8204 rfl)
        (length_packByte _)
      exact hassoc (hassoc (((hid.append hclass).append hmethod).append hsource))
  | exceptionThrown =>
      have hid := copiesAs_copyScalar (hstored .exceptionId (by decide) 0 rfl) (length_packUInt64 _)
      have hclass := copiesAs_copyString (hstored .className (by decide) 8 rfl)
      have hcorrelation := copiesAs_copyString (hstored .correlationId (by decide) 4108 rfl)
      exact hassoc ((hid.append hclass).append hcorrelation)
  | threadEnded => exact copiesAs_nil
  | processEnded => exact copiesAs_nil
  | processFrequency =>
      exact copiesAs_copyScalar (hstored .frequency (by decide) 0 rfl) (length_packUInt64 _)
  | processType =>
      have htechnology := copiesAs_copyString (hstored .technologyType (by decide) 0 rfl)
      have hprocess := copiesAs_copyString (hstored .processType (by decide) 4100 rfl)
      exact htechnology.append hprocess
  | sqlInformation =>
      have hprovider := copiesAs_copyEncodedString (hstored .provider (by decide) 0 rfl)
      have hhost := copiesAs_copyEncodedString (hstored .host (by decide) 4100 rfl)
      have hdatabase := copiesAs_copyEncodedString (hstored .database (by decide) 8200 rfl)
      have hquery := copiesAs_copyEncodedString (hstored .query (by decide) 12300 rfl)
      have hduration := copiesAs_copyScalar (hstored .duration (by decide) 16400 rfl)
        (length_packInt64 _)
      exact hassoc (hassoc (hassoc
        ((((hprovider.append hhost).append hdatabase).append hquery).append hduration)))
  | httpIncomingInformation =>
      have hurl := copiesAs_copyString (hstored .url (by decide) 0 rfl)
      have hverb := copiesAs_copyShortString (hstored .verb (by decide) 4100 rfl)
      have hstatus := copiesAs_copyScalar (hstored .status (by decide) 4358 rfl) (length_packUInt16 _)
      have hduration := copiesAs_copyScalar (hstored .duration (by decide) 4360 rfl)
        (length_packInt64 _)
      exact hassoc (hassoc (((hurl.append hverb).append hstatus).append hduration))
  | httpOutgoingInformation =>
      have hurl := copiesAs_copyString (hstored .url (by decide) 0 rfl)
      have hverb := copiesAs_copyShortString (hstored .verb (by decide) 4100 rfl)
      have hstatus := copiesAs_copyScalar (hstored .status (by decide) 4358 rfl) (length_packUInt16 _)
      have hduration := copiesAs_copyScalar (hstored .duration (by decide) 4360 rfl)
        (length_packInt64 _)
      exact hassoc (hassoc (((hurl.append hverb).append hstatus).append hduration))
  | beginTransaction =>
      have hkey := copiesAs_copyString (hstored .apiKey (by decide) 0 rfl)
      have htechnology := copiesAs_copyString (hstored .technologyType (by decide) 4100 rfl)
      have hprocess := copiesAs_copyString (hstored .processType (by decide) 8200 rfl)
      exact hassoc ((hkey.append htechnology).append hprocess)
  | endTransaction => exact copiesAs_nil
  | threadStarted =>
      exact copiesAs_copyScalar (hstored .parentTid (by decide) 0 rfl) (length_packUInt32 _)

/-- Of an event whose members are in the union. -/
theorem InUnion.copiesAs {event : RgEvent} {memory : EventMemory}
    (h : InUnion event.type event.member memory) :
    CopiesAs memory.data (payload (.event event.type) memory.data) event.payload :=
  copiesAs_payload event.length h.stored h.blank

/-- A copy of the structure does not reach further than the payload and the padding. -/
theorem rgEventMemory_take_congr (header : EventHeader) {data payload : Bytes} {n : Nat}
    (hpayload : data.take payload.length = payload) (hn : n ≤ 24 + payload.length) :
    (rgEventMemory header data).take n = (rgEventMemory header payload).take n := by
  -- 24 bytes are in front of the data
  obtain ⟨front, hfront, hmemory⟩ : ∃ front : Bytes, front.length = 24 ∧
      ∀ rest, rgEventMemory header rest = front ++ rest := by
    refine ⟨packLength header.length ++ (packByte header.type ++ ([0] ++ (packUInt32 header.pid ++
      (packUInt32 header.tid ++ ([0, 0, 0, 0] ++ packInt64 header.timestamp))))), by simp, ?_⟩
    intro rest
    simp only [rgEventMemory, List.append_assoc]
  have hrest : data.take (n - 24) = payload.take (n - 24) := by
    conv_rhs => rw [← hpayload, List.take_take, Nat.min_eq_left (by omega)]
  rw [hmemory, hmemory, List.take_append, List.take_append, hfront, hrest]

/-- The payload of an event that is copied is at the start of the union. -/
theorem InUnion.take_data {event : RgEvent} {memory : EventMemory}
    (h : InUnion event.type event.member memory) (hcopied : event.type.Copied) :
    memory.data.take event.payload.length = event.payload := by
  have hpayload := h.copiesAs.bytes
  have hnumber {size : Nat} {block : Bytes} (hblock : block.length = size)
      (hbytes : copied memory.data (copyScalar 0 size) = block) :
      memory.data.take block.length = block := by
    rw [copied, copyScalar, List.flatMap_singleton, readAt_start] at hbytes
    rw [hblock, hbytes]
  obtain ⟨length, type, member⟩ := event
  rcases hcopied with rfl | rfl | rfl | rfl | rfl
  · exact hnumber (length_packUInt32 _) hpayload
  · rfl
  · rfl
  · exact hnumber (length_packUInt64 _) hpayload
  · rfl

/-- **`encoded`** gives the same bytes from the union as from its members. -/
theorem InUnion.encoded_eq {event : RgEvent} {memory : EventMemory}
    (h : InUnion event.type event.member memory) (hlength : memory.length = event.length)
    (hsize : event.length = 0 ∨ event.length = RaygunApm.rgEncodeSize event.data) (buf : Bytes) :
    rbRgEventEncoded (.event event.type) memory buf = RaygunApm.rbRgEventEncoded event buf := by
  have hheader : memory.header event.type = event.header := by
    rw [header, hlength, h.pid, h.tid, h.timestamp]
    rfl
  have hmemory : event.type.Copied →
      (rgEventMemory event.header memory.data).take event.length.toNatClampNeg
        = (rgEventMemory event.header event.payload).take event.length.toNatClampNeg := by
    intro hcopied
    apply rgEventMemory_take_congr _ (h.take_data hcopied)
    rcases hsize with hzero | hsize
    · rw [hzero]
      exact Nat.zero_le _
    · rw [event.length_toNat hsize, rgMinPayload]
      omega
  have hpayload := h.copiesAs.bytes
  unfold rbRgEventEncoded
  dsimp only
  rw [hheader, hpayload, hlength]
  obtain ⟨length, type, member⟩ := event
  cases type with
  | threadStarted => exact congrArg (writeAt _ 0) (hmemory (.inl rfl))
  | threadEnded => exact congrArg (writeAt buf 0) (hmemory (.inr (.inl rfl)))
  | processEnded => exact congrArg (writeAt buf 0) (hmemory (.inr (.inr (.inl rfl))))
  | processFrequency => exact congrArg (writeAt buf 0) (hmemory (.inr (.inr (.inr (.inl rfl)))))
  | endTransaction => exact congrArg (writeAt buf 0) (hmemory (.inr (.inr (.inr (.inr rfl)))))
  | _ => rfl

/-- **`rg_encode_size`** gives the same size on the union as on its members. -/
theorem InUnion.rgEncodeSize_eq {event : RgEvent} {memory : EventMemory}
    (h : InUnion event.type event.member memory) :
    rgEncodeSize (.event event.type) memory.data = RaygunApm.rgEncodeSize event.data := by
  apply Int16.toInt_inj.mp
  rw [EventMemory.rgEncodeSize_eq (by simp) (payload_in_room h.lengths), h.copiesAs.total,
    rgEncodeSize_toInt, event.length_payload]
  push_cast
  rfl

/-! ## Calls of `[]=` -/

/-- A call with an attribute of the type. -/
def toCall {type : EventType} (a : Assignment type) : AttributeCall := ⟨a.attr, a.val⟩

variable {type : EventType} {member : (attr : Attribute) → attr.Member} {memory : EventMemory}

/-- An own attribute is in the header, or it has a place in the union. -/
theorem own_place {attr : Attribute} (h : attr ∈ type.attributes) :
    attr.place (.event type) = .header ∨ ∃ offset, attr.place (.event type) = .data offset := by
  obtain ⟨hnowhere, hinvalid⟩ := place_of_own h
  cases hplace : attr.place (.event type) with
  | header => exact .inl rfl
  | data offset => exact .inr ⟨offset, rfl⟩
  | nowhere => exact absurd hplace hnowhere
  | invalid => exact absurd hplace hinvalid

/-- The attributes in the header are the process id, the tid and the timestamp. -/
theorem header_iff {cls : EventClass} {attr : Attribute} :
    attr.place cls = .header ↔ attr = .pid ∨ attr = .tid ∨ attr = .timestamp := by
  cases cls with
  | batch => cases attr <;> decide
  | event type => cases attr <;> cases type <;> decide

/-- An attribute of the header is set there. -/
theorem InUnion.setHeader (h : InUnion type member memory) (call : AttributeCall)
    (hheader : call.attr.place (.event type) = .header) :
    InUnion type (Function.update member call.attr (call.attr.coerce call.val))
      (memory.setHeader call) := by
  have hdata := setHeader_data memory call
  -- the members in the union are others
  have hstored : ∀ attr ∈ type.attributes, ∀ offset, attr.place (.event type) = .data offset →
      attr.Stored (memory.setHeader call).data offset
        (Function.update member call.attr (call.attr.coerce call.val) attr) := by
    intro attr hown offset hplace
    have hne : attr ≠ call.attr := by
      rintro rfl
      rw [hheader] at hplace
      cases hplace
    rw [Function.update_of_ne hne, hdata]
    exact h.stored attr hown offset hplace
  have hblank := h.blank
  have hlengths := h.lengths
  rw [← hdata] at hblank hlengths
  obtain ⟨attr, val⟩ := call
  rcases header_iff.mp hheader with rfl | rfl | rfl
  · exact ⟨rfl, h.tid, h.timestamp, hstored, hblank, hlengths⟩
  · exact ⟨h.pid, rfl, h.timestamp, hstored, hblank, hlengths⟩
  · exact ⟨h.pid, h.tid, rfl, hstored, hblank, hlengths⟩

/-- Stores to the union leave the header. -/
theorem foldl_store_header (memory : EventMemory) (stores : List Store) :
    (stores.foldl EventMemory.store memory).pid = memory.pid ∧
      (stores.foldl EventMemory.store memory).tid = memory.tid ∧
      (stores.foldl EventMemory.store memory).timestamp = memory.timestamp := by
  induction stores generalizing memory with
  | nil => exact ⟨rfl, rfl, rfl⟩
  | cons store stores ih => exact ih (memory.store store)

/-- An attribute of the union is stored at its place, and nowhere else. -/
theorem InUnion.stores (h : InUnion type member memory) (call : AttributeCall)
    (hown : call.attr ∈ type.attributes) {offset : Nat}
    (hplace : call.attr.place (.event type) = .data offset)
    (hinside : offset + call.attr.size ≤ rgEventDataSize)
    (hstores : call.stores (.event type)
      = some (call.attr.stores offset (call.attr.coerce call.val) hinside)) :
    InUnion type (Function.update member call.attr (call.attr.coerce call.val))
      ((call.attr.stores offset (call.attr.coerce call.val) hinside).foldl EventMemory.store memory)
      := by
  obtain ⟨hpid, htid, htimestamp⟩ := foldl_store_header memory
    (call.attr.stores offset (call.attr.coerce call.val) hinside)
  have hother : ∀ attr : Attribute, attr.place (.event type) = .header →
      Function.update member call.attr (call.attr.coerce call.val) attr = member attr := by
    intro attr hheader
    apply Function.update_of_ne
    rintro rfl
    rw [hplace] at hheader
    cases hheader
  refine ⟨?_, ?_, ?_, ?_, ?_, ?_⟩
  · rw [hpid, h.pid, hother .pid rfl]
  · rw [htid, h.tid, hother .tid rfl]
  · rw [htimestamp, h.timestamp, hother .timestamp rfl]
  · intro attr hattr at' hplace'
    by_cases hne : attr = call.attr
    · subst hne
      obtain rfl : offset = at' := Place.data.inj (hplace.symm.trans hplace')
      rw [Function.update_self]
      exact stored_stores memory _ hinside
    · rw [Function.update_of_ne hne]
      have hapart := apart_of_own hattr hown hne
      simp only [Apart, hplace', ApartFrom, hplace] at hapart
      exact (h.stored attr hattr at' hplace').of_block (readAt_stores_apart memory _ hinside hapart)
  · have hapart := apart_blank hown
    simp only [ApartFrom, hplace] at hapart
    rw [readAt_stores_apart memory _ hinside hapart]
    exact h.blank
  · exact h.lengths.stores (keepsLengths_of_clear (clear_of_own hown) _ hstores)

/-- The stores of a call with an attribute of the header. -/
theorem stores_of_header {cls : EventClass} {call : AttributeCall}
    (hheader : call.attr.place cls = .header) : call.stores cls = some [] := by
  rw [AttributeCall.stores]
  split
  next => rfl
  next hplace => cases hheader.symm.trans hplace
  next => rfl
  next hplace => cases hheader.symm.trans hplace

/-- Of one with a place in the union. -/
theorem stores_of_data {cls : EventClass} (call : AttributeCall) {offset : Nat}
    (hdata : call.attr.place cls = .data offset) :
    call.stores cls = some (call.attr.stores offset (call.attr.coerce call.val)
      (Attribute.place_inside hdata)) := by
  rw [AttributeCall.stores]
  split
  next hplace => cases hdata.symm.trans hplace
  next hplace => cases hdata.symm.trans hplace; rfl
  next hplace => cases hdata.symm.trans hplace
  next hplace => cases hdata.symm.trans hplace

/-- The length is not among the members. -/
theorem InUnion.setLength (h : InUnion type member memory) (length : RgLength) :
    InUnion type member { memory with length := length } :=
  ⟨h.pid, h.tid, h.timestamp, h.stored, h.blank, h.lengths⟩

/-- **One call of `[]=`** sets in the union the member that it sets. -/
theorem InUnion.rbRgEventAset (h : InUnion type member memory) (a : Assignment type) :
    ∃ memory', EventMemory.rbRgEventAset (.event type) memory (toCall a) = some memory' ∧
      InUnion type (Function.update member a.attr (a.attr.coerce a.val)) memory' ∧
      memory'.length = rgEncodeSize (.event type) memory'.data := by
  rcases own_place a.of_type with hheader | ⟨offset, hdata⟩
  · have hstores : (toCall a).stores (.event type) = some [] := stores_of_header hheader
    have hset := h.setHeader (toCall a) hheader
    exact ⟨_, congrArg (Option.map _) hstores, hset.setLength _, rfl⟩
  · have hstores := stores_of_data (toCall a) hdata
    have hset := h.stores (toCall a) a.of_type hdata _ hstores
    have hheader : memory.setHeader (toCall a) = memory := by
      obtain ⟨attr, hown, val⟩ := a
      cases attr <;> first | rfl | cases hdata
    refine ⟨_, congrArg (Option.map _) hstores, ?_, rfl⟩
    rw [hheader]
    exact hset.setLength _

/-- **Any number of calls**: the union holds the members of the event object, and its length. -/
theorem foldl_inUnion (event : RgEvent) {memory : EventMemory}
    (h : InUnion type event.member memory) (htype : event.type = type)
    (hlength : memory.length = event.length) (sets : List (Assignment type)) :
    ∃ memory', (sets.map toCall).foldlM (EventMemory.rbRgEventAset (.event type)) memory = some memory' ∧
      InUnion type (sets.foldl RaygunApm.rbRgEventAset event).member memory' ∧
      memory'.length = (sets.foldl RaygunApm.rbRgEventAset event).length := by
  induction sets generalizing event memory with
  | nil => exact ⟨memory, rfl, h, hlength⟩
  | cons a sets ih =>
      obtain ⟨memory₁, hfirst, hmembers, hsize⟩ := h.rbRgEventAset a
      have hagree : memory₁.length = (RaygunApm.rbRgEventAset event a).length := by
        subst htype
        rw [hsize]
        exact @InUnion.rgEncodeSize_eq (RaygunApm.rbRgEventAset event a) _ hmembers
      obtain ⟨memory', hrest, hunion, hlength'⟩ :=
        @ih (RaygunApm.rbRgEventAset event a) _ hmembers htype hagree
      refine ⟨memory', ?_, hunion, hlength'⟩
      rw [List.map_cons, List.foldlM_cons, hfirst]
      exact hrest

/-! ## Reading back -/

/-- `[]` of an own attribute reads the member. -/
theorem InUnion.rbRgEventAref (h : InUnion type member memory) {attr : Attribute}
    (hown : attr ∈ type.attributes) :
    EventMemory.rbRgEventAref (.event type) memory attr = .value (attr.view (member attr)) := by
  rcases own_place hown with hheader | ⟨offset, hdata⟩
  · rcases header_iff.mp hheader with rfl | rfl | rfl
    · exact congrArg Aref.value h.pid
    · exact congrArg Aref.value h.tid
    · exact congrArg Aref.value h.timestamp
  · have hread : (match readMember memory.data offset attr with
        | some result => Aref.value result
        | none => Aref.outside) = Aref.value (attr.view (member attr)) := by
      rw [readMember_of_stored (h.stored attr hown offset hdata)]
    unfold EventMemory.rbRgEventAref
    rw [hdata]
    cases attr <;> exact hread

end EventMemory

/-- What is read back of a value: strings are cut, and nil is the empty string. -/
def Attribute.readBack : (attr : Attribute) → attr.Value → attr.Result
  | .pid, val | .tid, val | .parentTid, val | .functionId, val => val
  | .timestamp, val | .frequency, val | .duration, val => val
  | .exceptionId, val | .instanceId, val => val
  | .tailcall, val => val
  | .methodSource, val => val
  | .status, val => val
  | .className, val | .methodName, val | .provider, val | .host, val | .database, val | .query, val
  | .correlationId, val | .url, val | .technologyType, val | .processType, val | .apiKey, val =>
      (val.getD []).take rgMaxStringSize
  | .verb, val => (val.getD []).take rgMaxShortStringSize

/-- A value goes through the member and back. -/
theorem Attribute.view_coerce (attr : Attribute) (val : attr.Value) :
    attr.view (attr.coerce val) = attr.readBack val := by
  cases attr with
  | tailcall => cases val <;> rfl
  | frequency => exact Int64.toInt64_toUInt64 val
  | _ => rfl

/-- The bytes of an event object are those of its members. -/
structure Agrees (type : EventType) (sets : List (Assignment type)) (memory : EventMemory) : Prop where
  /-- `[]` returns the members. -/
  getters : ∀ attr ∈ type.attributes, EventMemory.rbRgEventAref (.event type) memory attr
    = .value (attr.view ((rubyEvent type sets).member attr))
  /-- Which is what has been assigned last. -/
  last : ∀ before a after, sets = before ++ a :: after → (∀ b ∈ after, b.attr ≠ a.attr) →
    EventMemory.rbRgEventAref (.event type) memory a.attr = .value (a.attr.readBack a.val)
  /-- `length` is the same, -/
  length : memory.length = (rubyEvent type sets).length
  /-- and so is `encoded`. -/
  encoded : ∀ buf, EventMemory.rbRgEventEncoded (.event type) memory buf
    = rbRgEventEncoded (rubyEvent type sets) buf

/-- **The union refines the event object**: with the attributes of its type no call of `[]=` raises,
the getters return what was assigned last, and the encoders find the members. -/
theorem eventMemory_refines (type : EventType) (sets : List (Assignment type)) :
    ∃ memory, EventMemory.assigned (.event type) (sets.map EventMemory.toCall) = some memory ∧
      Agrees type sets memory := by
  obtain ⟨memory, hassigned, hunion, hlength⟩ :=
    EventMemory.foldl_inUnion (rbRgEventAlloc type) (EventMemory.inUnion_alloc type) rfl rfl sets
  have hgetters : ∀ attr ∈ type.attributes, EventMemory.rbRgEventAref (.event type) memory attr
      = .value (attr.view ((rubyEvent type sets).member attr)) := fun _ hown =>
    hunion.rbRgEventAref hown
  refine ⟨memory, hassigned, hgetters, ?_, hlength, ?_⟩
  · intro before a after heq hlast
    rw [hgetters a.attr a.of_type, holdsLast type sets before a after heq hlast,
      Attribute.view_coerce]
  · intro buf
    have htype := rubyEvent_type sets
    have hsize : (rubyEvent type sets).length = 0 ∨
        (rubyEvent type sets).length = rgEncodeSize (rubyEvent type sets).data := by
      by_cases hne : sets = []
      · exact .inl (by rw [hne]; rfl)
      · exact .inr (rubyEvent_length hne)
    have hmembers : EventMemory.InUnion (rubyEvent type sets).type (rubyEvent type sets).member
        memory := htype.symm ▸ hunion
    have hencoded := hmembers.encoded_eq hlength hsize buf
    rwa [htype] at hencoded

end RaygunApm
