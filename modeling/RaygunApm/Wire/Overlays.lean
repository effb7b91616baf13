import RaygunApm.Wire.EventMemory

/-! # Attributes that lie over each other

An event can be encoded as long as the numbers that say how much is copied are in range. The
attributes of its own type keep them so; most of the others are stored as well, over whatever is at
their place. -/

namespace RaygunApm.EventMemory

open ByteMemory

/-- The number of bytes that are copied. -/
def total (copies : List Copy) : Nat := (copies.map Copy.size).sum

/-- An event can be encoded: no copy is of more than a member has, and the length says how long the
command is. -/
structure Encodable (cls : EventClass) (event : EventMemory) : Prop where
  fields : ∀ copy ∈ payload cls event.data, copy.size ≤ copy.room
  length : event.length.toInt = rgMinPayload + total (payload cls event.data)
  positive : 0 < event.length.toInt

/-! ## Sizes -/

/-- The sizes of two stretches of copies add up. -/
@[simp] theorem total_append (copies copies' : List Copy) :
    total (copies ++ copies') = total copies + total copies' := by simp [total]

/-- The copy of a scalar has its size. -/
@[simp] theorem total_copyScalar (offset size : Nat) : total (copyScalar offset size) = size := by
  simp [total, copyScalar]

/-- The copies of a string are its length field and as many bytes as that counts. -/
@[simp] theorem total_copyString (data : Bytes) (offset : Nat) :
    total (copyString data offset) = 2 + sizeOfLength (stringLength data offset) := by
  simp [total, copyString]

/-- The copies of a string with its encoding have one byte more. -/
@[simp] theorem total_copyEncodedString (data : Bytes) (offset : Nat) :
    total (copyEncodedString data offset) = 1 + total (copyString data offset) := by
  simp [total, copyEncodedString]

/-- The number stored in one byte is below 256. -/
theorem number_byte_lt (data : Bytes) (offset : Nat) : number data offset 1 < 256 := by
  rw [number, readAt]
  cases data.drop offset with
  | nil => exact Nat.zero_lt_succ _
  | cons byte rest => exact byte.toNat_lt

/-- Lengths in range are the numbers of bytes that are copied. -/
theorem toInt_eq_sizeOfLength {length : RgLength} (h : sizeOfLength length ≤ rgMaxStringSize) :
    length.toInt = sizeOfLength length := by
  have hlt := length.toInt_lt
  have hge := length.le_toInt
  rw [rgMaxStringSize] at h
  rw [sizeOfLength] at h ⊢
  omega

/-- A number in range is the length that is stored. -/
theorem sizeOfLength_ofNat {n : Nat} (h : n ≤ rgMaxStringSize) :
    sizeOfLength (Int16.ofNat n) = n := by
  rw [rgMaxStringSize] at h
  have htoInt : (Int16.ofNat n).toInt = n := by
    rw [Int16.toInt_ofNat']
    exact Int.bmod_eq_of_le (by simp only [Int16.size]; omega) (by simp only [Int16.size]; omega)
  rw [sizeOfLength, htoInt]
  omega

/-- A size in range is the same as an `rg_length_t`. -/
theorem toInt_ofInt_of_le {n : Int} (h : 0 ≤ n) (hle : n ≤ 20000) : (Int16.ofInt n).toInt = n := by
  rw [Int16.toInt_ofInt]
  exact Int.bmod_eq_of_le (by simp only [Int16.size]; omega) (by simp only [Int16.size]; omega)

/-- A size is the number of bytes of some copies, if these are of no more than there is. -/
def Sized (size : Int) (copies : List Copy) (max : Nat) : Prop :=
  (∀ copy ∈ copies, copy.size ≤ copy.room) → size = total copies ∧ total copies ≤ max

/-- A size is that of the header and of some copies, if these are of no more than there is. -/
def CommandSized (size : Int) (copies : List Copy) (max : Nat) : Prop :=
  (∀ copy ∈ copies, copy.size ≤ copy.room) → size = rgMinPayload + total copies ∧ total copies ≤ max

/-- A header without a payload has its size. -/
theorem commandSized_nil : CommandSized rgMinPayload [] 0 := fun _ => ⟨rfl, le_rfl⟩

/-- Sizes are added up as the copies follow each other. -/
theorem CommandSized.append {m n : Int} {copies copies' : List Copy} {max max' : Nat}
    (h : CommandSized m copies max) (h' : Sized n copies' max') :
    CommandSized (m + n) (copies ++ copies') (max + max') := by
  intro hroom
  obtain ⟨hfront, hback⟩ := List.forall_mem_append.mp hroom
  obtain ⟨rfl, hle⟩ := h hfront
  obtain ⟨rfl, hle'⟩ := h' hback
  rw [total_append]
  omega

/-- A size that is stored in 16 bits. -/
theorem CommandSized.toInt_eq {n : Int} {copies : List Copy} {max : Nat}
    (h : CommandSized n copies max) (hmax : max ≤ 17000)
    (hroom : ∀ copy ∈ copies, copy.size ≤ copy.room) :
    (Int16.ofInt n).toInt = rgMinPayload + total copies := by
  obtain ⟨rfl, hle⟩ := h hroom
  rw [rgMinPayload]
  exact toInt_ofInt_of_le (by omega) (by omega)

variable {data : Bytes}

/-- The size of a scalar is what its copy takes. -/
theorem sized_scalar (offset size : Nat) : Sized size (copyScalar offset size) size := by
  intro _
  rw [total_copyScalar]
  exact ⟨rfl, le_rfl⟩

/-- The size of a string is what its copies take, if it is in range. -/
theorem sized_string (offset : Nat) :
    Sized (sizeString data offset) (copyString data offset) 4098 := by
  intro hroom
  have hsize : sizeOfLength (stringLength data offset) ≤ 4096 :=
    hroom ⟨offset + 4, _, _⟩ (List.mem_cons_of_mem _ List.mem_cons_self)
  have htoInt := toInt_eq_sizeOfLength hsize
  rw [sizeString, total_copyString]
  omega

/-- The size of a string with its encoding is what its copies take, if it is in range. -/
theorem sized_encodedString (offset : Nat) :
    Sized (sizeEncodedString data offset) (copyEncodedString data offset) 4099 := by
  intro hroom
  obtain ⟨hsize, hle⟩ := sized_string offset (List.forall_mem_cons.mp hroom).2
  rw [sizeEncodedString, total_copyEncodedString, hsize]
  omega

/-- The size of a short string is what its copies take. -/
theorem sized_shortString (offset : Nat) :
    Sized (sizeShortString data offset) (copyShortString data offset) 256 := by
  intro _
  have hlt := number_byte_lt data (offset + 1)
  simp only [sizeShortString, copyShortString, total, List.map_cons, List.map_nil, List.sum_cons,
    List.sum_nil]
  omega

/-- The cases of a size go with the cases of what is copied. -/
theorem Sized.ite {size size' : Int} {copies copies' : List Copy} {max : Nat} {p : Prop} [Decidable p]
    (h : Sized size copies max) (h' : Sized size' copies' max) :
    Sized (if p then size else size') (if p then copies else copies') max := by
  by_cases hp : p
  · rwa [if_pos hp, if_pos hp]
  · rwa [if_neg hp, if_neg hp]

/-- The value of a variable record. -/
theorem sized_variableValue (type : UInt8) (as : Nat) :
    Sized (sizeVariableValue data type as) (copyVariableValue data type as) 4100 := by
  have hscalar : ∀ size : Nat, size ≤ 8 → Sized size (copyScalar as size) 4100 := by
    intro size hle hroom
    obtain ⟨hsize, -⟩ := sized_scalar as size hroom
    rw [total_copyScalar] at hsize ⊢
    exact ⟨hsize, by omega⟩
  have hstring : Sized (sizeString data as) (copyString data as) 4100 := by
    intro hroom
    obtain ⟨hsize, hle⟩ := sized_string as hroom
    exact ⟨hsize, by omega⟩
  have hlarge : Sized (4 + number data as 4)
      [⟨as, 4, 4⟩, ⟨as + 4, number data as 4, rgMaxStringSize⟩] 4100 := by
    intro hroom
    have hsize : number data as 4 ≤ 4096 :=
      hroom ⟨as + 4, _, _⟩ (List.mem_cons_of_mem _ List.mem_cons_self)
    simp only [total, List.map_cons, List.map_nil, List.sum_cons, List.sum_nil]
    omega
  have hnone : Sized 0 [] 4100 := fun _ => ⟨rfl, Nat.zero_le _⟩
  rw [sizeVariableValue, copyVariableValue]
  apply (hscalar 1 (by decide)).ite
  apply hstring.ite
  apply hlarge.ite
  apply (hscalar 4 (by decide)).ite
  apply (hscalar 2 (by decide)).ite
  apply (hscalar 2 (by decide)).ite
  apply (hscalar 4 (by decide)).ite
  apply (hscalar 4 (by decide)).ite
  apply (hscalar 8 (by decide)).ite
  exact (hscalar 8 (by decide)).ite hnone

/-- The size of a variable record is what its copies take, if it is in range. -/
theorem sized_variableinfo (offset : Nat) :
    Sized (rgEncodeVariableinfoSize data offset).toInt (rgEncodeVariableinfo data offset) 4400 := by
  intro hroom
  obtain ⟨hsize, hle⟩ := sized_variableValue _ _ (List.forall_mem_append.mp hroom).2
  have hname := number_byte_lt data (offset + 3)
  have htotal : total (rgEncodeVariableinfo data offset) = 4 + number data (offset + 3) 1 +
      total (copyVariableValue data (UInt8.ofNat (number data (offset + 2) 1)) (offset + 208)) := by
    rw [rgEncodeVariableinfo, total_append]
    simp only [total, List.map_cons, List.map_nil, List.sum_cons, List.sum_nil]
    omega
  rw [rgEncodeVariableinfoSize, hsize, htotal, toInt_ofInt_of_le (by omega) (by omega)]
  omega

/-- **The length is the number of bytes of the command** where no copy is of more than there is: the
sizes add up what the encoders copy. -/
theorem rgEncodeSize_eq {cls : EventClass} (hcls : cls ≠ .batch)
    (hroom : ∀ copy ∈ payload cls data, copy.size ≤ copy.room) :
    (rgEncodeSize cls data).toInt = rgMinPayload + total (payload cls data) := by
  have hscalar (offset size : Nat) := sized_scalar offset size
  have hstring (offset : Nat) := @sized_string data offset
  cases cls with
  | batch => exact absurd rfl hcls
  | event type =>
      cases type with
      | beginFrame => rfl
      | endFrame =>
          exact (((commandSized_nil.append (hscalar 0 4)).append (hscalar 4 1)).append
            (sized_variableinfo 6)).toInt_eq (by decide) hroom
      | methodinfo =>
          exact ((((commandSized_nil.append (hscalar 0 4)).append (hstring 4)).append
            (hstring 4104)).append (hscalar 8204 1)).toInt_eq (by decide) hroom
      | exceptionThrown =>
          exact (((commandSized_nil.append (hscalar 0 8)).append (hstring 8)).append
            (hstring 4108)).toInt_eq (by decide) hroom
      | threadEnded => rfl
      | processEnded => rfl
      | processFrequency => rfl
      | processType =>
          exact ((commandSized_nil.append (hstring 0)).append (hstring 4100)).toInt_eq
            (by decide) hroom
      | sqlInformation =>
          exact (((((commandSized_nil.append (sized_encodedString 0)).append
            (sized_encodedString 4100)).append (sized_encodedString 8200)).append
            (sized_encodedString 12300)).append (hscalar 16400 8)).toInt_eq (by decide) hroom
      | httpIncomingInformation =>
          exact ((((commandSized_nil.append (hstring 0)).append (sized_shortString 4100)).append
            (hscalar 4358 2)).append (hscalar 4360 8)).toInt_eq (by decide) hroom
      | httpOutgoingInformation =>
          exact ((((commandSized_nil.append (hstring 0)).append (sized_shortString 4100)).append
            (hscalar 4358 2)).append (hscalar 4360 8)).toInt_eq (by decide) hroom
      | beginTransaction =>
          exact (((commandSized_nil.append (hstring 0)).append (hstring 4100)).append
            (hstring 8200)).toInt_eq (by decide) hroom
      | endTransaction => rfl
      | threadStarted => rfl

/-! ## The fields that say how much is copied -/

/-- A number in the union that an encoder goes by. -/
inductive LengthField where
  /-- The length of a string. -/
  | string (offset : Nat)
  /-- The type of the return value. -/
  | returnType
  /-- The length of the name of the return value. -/
  | returnName
  deriving DecidableEq

/-- The place of a length field in the data. -/
def LengthField.offset : LengthField → Nat
  | .string offset => offset + 2
  | .returnType => 8
  | .returnName => 9

/-- The number of bytes of a length field. -/
def LengthField.width : LengthField → Nat
  | .string _ => 2
  | .returnType => 1
  | .returnName => 1

/-- The number is in range. A return value that is a string has a length of its own, further on. -/
def LengthField.Allows : LengthField → Nat → Prop
  | .string _, n => n ≤ rgMaxStringSize
  | .returnType, n => n ≠ VariableType.string.code.toNat ∧ n ≠ VariableType.largestring.code.toNat
  | .returnName, n => n ≤ rgMaxVariableName

instance (field : LengthField) (n : Nat) : Decidable (field.Allows n) := by
  cases field <;> unfold LengthField.Allows <;> infer_instance

/-- The fields of a class. The length of a verb is in range whatever its byte is. -/
def lengthFields : EventClass → List LengthField
  | .event .endFrame => [.returnType, .returnName]
  | .event .methodinfo => [.string 4, .string 4104]
  | .event .exceptionThrown => [.string 8, .string 4108]
  | .event .processType => [.string 0, .string 4100]
  | .event .sqlInformation => [.string 0, .string 4100, .string 8200, .string 12300]
  | .event .httpIncomingInformation => [.string 0]
  | .event .httpOutgoingInformation => [.string 0]
  | .event .beginTransaction => [.string 0, .string 4100, .string 8200]
  | _ => []

/-- The field is in range. -/
def LengthField.Holds (field : LengthField) (data : Bytes) : Prop :=
  field.Allows (number data field.offset field.width)

/-- A store is not to the field, or it stores all of it, and a number in range. -/
def LengthField.KeptBy (field : LengthField) (store : Store) : Prop :=
  (store.offset + store.block.length ≤ field.offset ∨ field.offset + field.width ≤ store.offset) ∨
    (store.offset ≤ field.offset ∧
      field.offset + field.width ≤ store.offset + store.block.length) ∧
      field.Allows (number store.block (field.offset - store.offset) field.width)

/-- A call of `[]=` keeps the fields of the class of the event in range. -/
def KeepsLengths (cls : EventClass) (call : AttributeCall) : Prop :=
  ∀ stores, call.stores cls = some stores → ∀ store ∈ stores, ∀ field ∈ lengthFields cls,
    field.KeptBy store

/-- The fields of a class are in range. -/
def LengthsHold (cls : EventClass) (data : Bytes) : Prop :=
  ∀ field ∈ lengthFields cls, field.Holds data

/-- The length of a string that is in range. -/
theorem copyString_in_room {offset : Nat} (h : (LengthField.string offset).Holds data) :
    ∀ copy ∈ copyString data offset, copy.size ≤ copy.room := by
  have hnumber : number data (offset + 2) 2 ≤ rgMaxStringSize := h
  have hsize : sizeOfLength (stringLength data offset) ≤ rgMaxStringSize := by
    rwa [stringLength, sizeOfLength_ofNat hnumber]
  simp only [copyString, List.forall_mem_cons]
  exact ⟨le_rfl, hsize, List.forall_mem_nil _⟩

/-- Scalars are copied as they are. -/
theorem copyScalar_in_room (offset size : Nat) :
    ∀ copy ∈ copyScalar offset size, copy.size ≤ copy.room := by
  simp [copyScalar]

/-- Short strings are copied into their room. -/
theorem copyShortString_in_room (offset : Nat) :
    ∀ copy ∈ copyShortString data offset, copy.size ≤ copy.room := by
  have hlt := number_byte_lt data (offset + 1)
  simp only [copyShortString, List.forall_mem_cons]
  exact ⟨le_rfl, Nat.le_of_lt_succ hlt, List.forall_mem_nil _⟩

/-- Strings with their encoding are copied into their room, if their length is in range. -/
theorem copyEncodedString_in_room {offset : Nat} (h : (LengthField.string offset).Holds data) :
    ∀ copy ∈ copyEncodedString data offset, copy.size ≤ copy.room :=
  List.forall_mem_cons.mpr ⟨le_rfl, copyString_in_room h⟩

/-- What holds of the copies of both branches holds of those of the branch taken. -/
theorem forall_copy_ite {P : Copy → Prop} {copies copies' : List Copy} {p : Prop} [Decidable p]
    (h : ∀ copy ∈ copies, P copy) (h' : ∀ copy ∈ copies', P copy) :
    ∀ copy ∈ if p then copies else copies', P copy := by
  by_cases hp : p
  · rwa [if_pos hp]
  · rwa [if_neg hp]

/-- A return value that is no string. -/
theorem rgEncodeVariableinfo_in_room (htype : LengthField.returnType.Holds data)
    (hname : LengthField.returnName.Holds data) :
    ∀ copy ∈ rgEncodeVariableinfo data 6, copy.size ≤ copy.room := by
  have hbyte : (UInt8.ofNat (number data 8 1)).toNat = number data 8 1 :=
    UInt8.toNat_ofNat_of_lt' (number_byte_lt data 8)
  have hstring : UInt8.ofNat (number data 8 1) ≠ VariableType.string.code := by
    intro heq
    exact htype.1 (by rw [← heq, hbyte]; rfl)
  have hlarge : UInt8.ofNat (number data 8 1) ≠ VariableType.largestring.code := by
    intro heq
    exact htype.2 (by rw [← heq, hbyte]; rfl)
  rw [rgEncodeVariableinfo]
  refine List.forall_mem_append.mpr ⟨?_, ?_⟩
  · simp only [List.forall_mem_cons]
    exact ⟨le_rfl, le_rfl, le_rfl, hname, List.forall_mem_nil _⟩
  · have hscalar := copyScalar_in_room 214
    rw [copyVariableValue, if_neg hstring, if_neg hlarge]
    apply forall_copy_ite (hscalar 1)
    apply forall_copy_ite (hscalar 4)
    apply forall_copy_ite (hscalar 2)
    apply forall_copy_ite (hscalar 2)
    apply forall_copy_ite (hscalar 4)
    apply forall_copy_ite (hscalar 4)
    apply forall_copy_ite (hscalar 8)
    exact forall_copy_ite (hscalar 8) (List.forall_mem_nil _)

/-- **No copy is of more than there is**, where the fields of the class are in range. -/
theorem payload_in_room {cls : EventClass} (h : LengthsHold cls data) :
    ∀ copy ∈ payload cls data, copy.size ≤ copy.room := by
  have happend {copies copies' : List Copy} (hfront : ∀ copy ∈ copies, copy.size ≤ copy.room)
      (hback : ∀ copy ∈ copies', copy.size ≤ copy.room) :
      ∀ copy ∈ copies ++ copies', copy.size ≤ copy.room := List.forall_mem_append.mpr ⟨hfront, hback⟩
  have hscalar := copyScalar_in_room
  cases cls with
  | batch => exact List.forall_mem_nil _
  | event type =>
      cases type with
      | beginFrame => exact happend (happend (hscalar 0 4) (hscalar 8 8)) (hscalar 16 1)
      | endFrame =>
          exact happend (happend (hscalar 0 4) (hscalar 4 1))
            (rgEncodeVariableinfo_in_room (h _ (by decide)) (h _ (by decide)))
      | methodinfo =>
          exact happend (happend (happend (hscalar 0 4) (copyString_in_room (h _ (by decide))))
            (copyString_in_room (h _ (by decide)))) (hscalar 8204 1)
      | exceptionThrown =>
          exact happend (happend (hscalar 0 8) (copyString_in_room (h _ (by decide))))
            (copyString_in_room (h _ (by decide)))
      | threadEnded => exact List.forall_mem_nil _
      | processEnded => exact List.forall_mem_nil _
      | processFrequency => exact hscalar 0 8
      | processType =>
          exact happend (copyString_in_room (h _ (by decide))) (copyString_in_room (h _ (by decide)))
      | sqlInformation =>
          exact happend (happend (happend (happend (copyEncodedString_in_room (h _ (by decide)))
            (copyEncodedString_in_room (h _ (by decide))))
            (copyEncodedString_in_room (h _ (by decide))))
            (copyEncodedString_in_room (h _ (by decide)))) (hscalar 16400 8)
      | httpIncomingInformation =>
          exact happend (happend (happend (copyString_in_room (h _ (by decide)))
            (copyShortString_in_room 4100)) (hscalar 4358 2)) (hscalar 4360 8)
      | httpOutgoingInformation =>
          exact happend (happend (happend (copyString_in_room (h _ (by decide)))
            (copyShortString_in_room 4100)) (hscalar 4358 2)) (hscalar 4360 8)
      | beginTransaction =>
          exact happend (happend (copyString_in_room (h _ (by decide)))
            (copyString_in_room (h _ (by decide)))) (copyString_in_room (h _ (by decide)))
      | endTransaction => exact List.forall_mem_nil _
      | threadStarted => exact hscalar 0 4

/-! ## Calls that keep the fields in range -/

/-- **A store that keeps a field** leaves it in range. -/
theorem LengthField.Holds.store {event : EventMemory} {store : Store} {field : LengthField}
    (h : field.Holds event.data) (hkept : field.KeptBy store) :
    field.Holds (event.store store).data := by
  have hinside := store.inside
  have hmem : store.offset ≤ event.data.length := by
    rw [event.data_size]
    omega
  rw [LengthField.Holds, number, EventMemory.store]
  rcases hkept with (hbelow | habove) | ⟨⟨hstart, hend⟩, hallows⟩
  · rw [readAt_writeAt_above _ hbelow hmem]
    exact h
  · rw [readAt_writeAt_below _ habove hmem]
    exact h
  · rw [readAt_writeAt_inside _ hstart hend hmem]
    exact hallows

/-- The stores of a call keep the lengths in range, if each of them does. -/
theorem LengthsHold.stores {cls : EventClass} {event : EventMemory} {stores : List Store}
    (h : LengthsHold cls event.data)
    (hkept : ∀ store ∈ stores, ∀ field ∈ lengthFields cls, field.KeptBy store) :
    LengthsHold cls (stores.foldl EventMemory.store event).data := by
  induction stores generalizing event with
  | nil => exact h
  | cons store stores ih =>
      obtain ⟨hstore, hstores⟩ := List.forall_mem_cons.mp hkept
      exact ih (fun field hfield => (h field hfield).store (hstore field hfield)) hstores

/-- The header is no part of the union. -/
theorem setHeader_data (event : EventMemory) (call : AttributeCall) :
    (event.setHeader call).data = event.data := by
  obtain ⟨attr, val⟩ := call
  cases attr <;> rfl

/-- A new event has zeros in its fields. -/
theorem lengthsHold_alloc (cls : EventClass) : LengthsHold cls rbRgEventAlloc.data := by
  have hzero : ∀ offset size, number rbRgEventAlloc.data offset size = 0 := by
    intro offset size
    have hdecode : ∀ n, LittleEndian.decode (List.replicate n 0) = 0 := by
      intro n
      induction n with
      | zero => rfl
      | succ n ih => rw [List.replicate_succ, LittleEndian.decode_cons, ih]; rfl
    rw [number, readAt, rbRgEventAlloc, List.drop_replicate, List.take_replicate, hdecode]
  intro field _
  rw [LengthField.Holds, hzero]
  cases field with
  | string offset => exact Nat.zero_le _
  | returnType => exact ⟨by decide, by decide⟩
  | returnName => exact Nat.zero_le _

/-- **One call**: the fields stay in range, and the length is computed. -/
theorem rbRgEventAset_lengthsHold {cls : EventClass} {event event' : EventMemory}
    {call : AttributeCall} (hset : rbRgEventAset cls event call = some event')
    (h : LengthsHold cls event.data) (hkeeps : KeepsLengths cls call) :
    LengthsHold cls event'.data ∧ event'.length = rgEncodeSize cls event'.data := by
  obtain ⟨stores, hstores, rfl⟩ := Option.map_eq_some_iff.mp hset
  refine ⟨LengthsHold.stores ?_ (hkeeps stores hstores), rfl⟩
  rw [setHeader_data]
  exact h

/-- Any number of calls that keep the lengths keep them together. -/
theorem foldlM_lengthsHold {cls : EventClass} {event event' : EventMemory}
    {calls : List AttributeCall} (hset : calls.foldlM (rbRgEventAset cls) event = some event')
    (h : LengthsHold cls event.data) (hkeeps : ∀ call ∈ calls, KeepsLengths cls call) :
    LengthsHold cls event'.data ∧
      (calls ≠ [] → event'.length = rgEncodeSize cls event'.data) := by
  induction calls generalizing event with
  | nil =>
      cases hset
      exact ⟨h, fun hne => absurd rfl hne⟩
  | cons call calls ih =>
      obtain ⟨hcall, hcalls⟩ := List.forall_mem_cons.mp hkeeps
      obtain ⟨event₁, hfirst, hrest⟩ := Option.bind_eq_some_iff.mp hset
      obtain ⟨hlengths, hlength⟩ := rbRgEventAset_lengthsHold hfirst h hcall
      obtain ⟨hlengths', hlength'⟩ := ih hrest hlengths hcalls
      refine ⟨hlengths', fun _ => ?_⟩
      cases calls with
      | nil =>
          cases hrest
          exact hlength
      | cons call' calls => exact hlength' (List.cons_ne_nil _ _)

/-! ## Own attributes -/

/-- A store inside a member. -/
def Store.Within (store : Store) (offset size : Nat) : Prop :=
  offset ≤ store.offset ∧ store.offset + store.block.length ≤ offset + size

/-- The store of a scalar stays inside its member. -/
theorem storeScalar_within {offset size : Nat} {block : Bytes} (hblock : block.length = size)
    (h : offset + size ≤ rgEventDataSize) :
    ∀ store ∈ storeScalar offset block hblock h, Store.Within store offset size := by
  intro store hstore
  obtain rfl := List.mem_singleton.mp hstore
  exact ⟨le_rfl, by rw [hblock]⟩

/-- The stores of a string stay inside its member. -/
theorem storeString_within {offset : Nat} (s : EncodedString) (h : offset + 4100 ≤ rgEventDataSize) :
    ∀ store ∈ storeString offset s h, Store.Within store offset 4100 := by
  have hlength : s.string.length ≤ 4096 := s.length_le
  simp only [storeString, List.forall_mem_cons, Store.Within, length_packByte, length_packLength]
  exact ⟨by omega, by omega, by omega, List.forall_mem_nil _⟩

/-- The stores of a string keep its length in range. -/
theorem storeString_kept {offset : Nat} (s : EncodedString) (h : offset + 4100 ≤ rgEventDataSize) :
    ∀ store ∈ storeString offset s h, (LengthField.string offset).KeptBy store := by
  have hlength : s.string.length ≤ 4096 := s.length_le
  have hnumber : number (packLength s.length) 0 2 ≤ 4096 := by
    rw [number, readAt_start, List.take_of_length_le (length_packLength _).le, EncodedString.length,
      decode_packLength (by omega)]
    exact hlength
  simp only [storeString, List.forall_mem_cons]
  refine ⟨.inl (.inl ?_), .inr ⟨⟨le_rfl, le_rfl⟩, ?_⟩, .inl (.inr le_rfl), List.forall_mem_nil _⟩
  · show offset + 1 ≤ offset + 2
    omega
  · show (LengthField.string offset).Allows (number (packLength s.length) (offset + 2 - (offset + 2)) 2)
    rw [Nat.sub_self]
    exact hnumber

/-- The stores of a short string. -/
theorem storeShortString_within {offset : Nat} (s : EncodedShortString)
    (h : offset + 257 ≤ rgEventDataSize) :
    ∀ store ∈ storeShortString offset s h, Store.Within store offset 257 := by
  have hlength : s.string.length ≤ 127 := s.length_le
  simp only [storeShortString, List.forall_mem_cons, Store.Within, length_packByte]
  exact ⟨by omega, by omega, by omega, List.forall_mem_nil _⟩

/-- **The stores of a member** stay inside it. -/
theorem stores_within {attr : Attribute} {offset : Nat} (m : attr.Member)
    (h : offset + attr.size ≤ rgEventDataSize) :
    ∀ store ∈ attr.stores offset m h, Store.Within store offset attr.size := by
  cases attr with
  | verb => exact storeShortString_within m h
  | pid | tid | parentTid | functionId => exact storeScalar_within (length_packUInt32 m) h
  | timestamp | duration => exact storeScalar_within (length_packInt64 m) h
  | frequency | exceptionId | instanceId => exact storeScalar_within (length_packUInt64 m) h
  | tailcall | methodSource => exact storeScalar_within (length_packByte m) h
  | status => exact storeScalar_within (length_packUInt16 m) h
  | _ => exact storeString_within m h

/-- Those of a string keep its length in range. -/
theorem stores_kept {attr : Attribute} {offset : Nat} (m : attr.Member)
    (h : offset + attr.size ≤ rgEventDataSize) (hstring : attr.size = 4100) :
    ∀ store ∈ attr.stores offset m h, (LengthField.string offset).KeptBy store := by
  cases attr with
  | className | methodName | provider | host | database | query | correlationId | url
  | technologyType | processType | apiKey => exact storeString_kept m h
  | _ => cases hstring

/-- The member behind an attribute lies over none of the fields of the class, unless it is the
string to which the field belongs. -/
def Clear (cls : EventClass) (attr : Attribute) : Prop :=
  match attr.place cls with
  | .data offset => ∀ field ∈ lengthFields cls,
      (offset + attr.size ≤ field.offset ∨ field.offset + field.width ≤ offset) ∨
        attr.size = 4100 ∧ field = .string offset
  | _ => True

instance (cls : EventClass) (attr : Attribute) : Decidable (Clear cls attr) :=
  match h : attr.place cls with
  | .data offset => decidable_of_iff (∀ field ∈ lengthFields cls,
      (offset + attr.size ≤ field.offset ∨ field.offset + field.width ≤ offset) ∨
        attr.size = 4100 ∧ field = .string offset) (by simp [Clear, h])
  | .header => isTrue (by simp [Clear, h])
  | .nowhere => isTrue (by simp [Clear, h])
  | .invalid => isTrue (by simp [Clear, h])

/-- An attribute that lies over no length field can be set to anything. -/
theorem keepsLengths_of_clear {cls : EventClass} {call : AttributeCall} (h : Clear cls call.attr) :
    KeepsLengths cls call := by
  intro stores hstores store hstore field hfield
  rw [AttributeCall.stores] at hstores
  split at hstores
  next => cases hstores; cases hstore
  next offset hplace =>
    cases hstores
    rw [Clear, hplace] at h
    have hinside := Attribute.place_inside hplace
    obtain ⟨hstart, hend⟩ := stores_within (call.attr.coerce call.val) hinside store hstore
    rcases h field hfield with (hbelow | habove) | ⟨hstring, rfl⟩
    · exact .inl (.inl (by omega))
    · exact .inl (.inr (by omega))
    · exact stores_kept _ hinside hstring store hstore
  next => cases hstores; cases hstore
  next => cases hstores

/-- **The attributes of its own type** leave the fields of an event alone. -/
theorem clear_of_own {type : EventType} {attr : Attribute} (h : attr ∈ type.attributes) :
    Clear (.event type) attr := by
  have hclear : ∀ attr ∈ type.attributes, Clear (.event type) attr := by
    cases type <;> decide
  exact hclear attr h

/-! ## Events that can be encoded -/

/-- **Which assignments leave an event encodable**: any number of calls that keep its lengths in
range, if there is one, and if the event is not a batch. -/
theorem encodable_iff {cls : EventClass} {calls : List AttributeCall} {event : EventMemory}
    (hset : assigned cls calls = some event) (hkeeps : ∀ call ∈ calls, KeepsLengths cls call) :
    Encodable cls event ↔ cls ≠ .batch ∧ calls ≠ [] := by
  obtain ⟨hlengths, hlength⟩ := foldlM_lengthsHold hset (lengthsHold_alloc cls) hkeeps
  constructor
  · rintro ⟨-, -, hpositive⟩
    constructor
    · rintro rfl
      by_cases hne : calls = []
      · subst hne
        cases hset
        exact absurd hpositive (by decide)
      · rw [hlength hne] at hpositive
        exact lt_irrefl _ hpositive
    · rintro rfl
      cases hset
      exact absurd hpositive (by decide)
  · rintro ⟨hcls, hne⟩
    have hroom := payload_in_room hlengths
    have hsize := rgEncodeSize_eq hcls hroom
    rw [← hlength hne] at hsize
    refine ⟨hroom, hsize, ?_⟩
    rw [hsize, rgMinPayload]
    omega

/-- With its own attributes an event can always be encoded. -/
theorem encodable_of_own {type : EventType} {calls : List AttributeCall} {event : EventMemory}
    (hset : assigned (.event type) calls = some event) (hne : calls ≠ [])
    (hown : ∀ call ∈ calls, call.attr ∈ type.attributes) : Encodable (.event type) event :=
  (encodable_iff hset fun call hcall => keepsLengths_of_clear (clear_of_own (hown call hcall))).mpr
    ⟨by simp, hne⟩

/-- The function id and the class name of a method. -/
def methodinfoCalls : List AttributeCall :=
  [⟨.functionId, (1 : UInt32)⟩, ⟨.className, some [0x41]⟩]

/-- The METHODINFO event made by the calls can be encoded. -/
theorem encodable_methodinfo :
    ∃ event, assigned (.event .methodinfo) methodinfoCalls = some event ∧
      Encodable (.event .methodinfo) event := by
  have hown : ∀ call ∈ methodinfoCalls, call.attr ∈ EventType.methodinfo.attributes := by decide
  obtain ⟨event, hset⟩ :
      ∃ event, assigned (.event .methodinfo) methodinfoCalls = some event := ⟨_, rfl⟩
  have hkeeps : ∀ call ∈ methodinfoCalls, KeepsLengths (.event .methodinfo) call :=
    fun call hcall => keepsLengths_of_clear (clear_of_own (hown call hcall))
  exact ⟨event, hset, (encodable_iff hset hkeeps).mpr ⟨by decide, by simp [methodinfoCalls]⟩⟩

/-- A function id of all ones makes the length of the provider of a SQL event negative. -/
theorem not_encodable_functionId :
    ∃ event, assigned (.event .sqlInformation) [⟨.functionId, (0xffffffff : UInt32)⟩] = some event ∧
      ¬Encodable (.event .sqlInformation) event := by
  obtain ⟨event, hset, hdata⟩ :
      ∃ event, assigned (.event .sqlInformation) [⟨.functionId, (0xffffffff : UInt32)⟩] = some event ∧
        event.data = writeAt rbRgEventAlloc.data 0 (packUInt32 0xffffffff) := ⟨_, rfl, rfl⟩
  refine ⟨event, hset, fun h => ?_⟩
  have hsize : sizeOfLength (stringLength event.data 0) ≤ rgMaxStringSize :=
    h.fields ⟨4, _, _⟩ (List.mem_cons_of_mem _ (List.mem_cons_of_mem _ List.mem_cons_self))
  have hnumber : number event.data 2 2 = 65535 := by
    rw [hdata, number, readAt_writeAt_inside _ (Nat.zero_le _) (by decide) (Nat.zero_le _)]
    decide
  rw [stringLength, hnumber] at hsize
  exact absurd hsize (by decide)

end RaygunApm.EventMemory
