import RaygunApm.Sink.BatchedSink

/-! # What the batched sink is for

`Batcher` states the purpose of the sink on commands instead of bytes: a list of pending commands,
and messages that are either a numbered batch of commands or one raw command. `RgEventBatch.Holds`
ties the bytes of `sink_data.batch` to the pending commands. -/

namespace RaygunApm

open ByteMemory

/-- An encoded command: its first two bytes are its own size. -/
structure Command where
  /-- The encoded bytes. -/
  bytes : Bytes
  /-- The length prefix is the size. -/
  length_prefix : LittleEndian.decode (bytes.take 2) = bytes.length
  /-- No command is smaller than its header. -/
  min_size : rgMinPayload ≤ bytes.length
  /-- No command is larger than the largest SQL event. -/
  max_size : bytes.length ≤ rgMaxCommandSize
  deriving DecidableEq

/-- Size of a command. -/
def Command.size (c : Command) : Nat := c.bytes.length

/-- The command of a given size that carries nothing but its length prefix. -/
def Command.blank (n : Nat) (hmin : rgMinPayload ≤ n) (hmax : n ≤ rgMaxCommandSize) : Command where
  bytes := packLength (Int16.ofNat n) ++ List.replicate (n - 2) 0
  length_prefix := by
    rw [List.take_left' (length_packLength _), decode_packLength (hmax.trans_lt (by decide))]
    simp only [List.length_append, length_packLength, List.length_replicate, rgMinPayload] at hmin ⊢
    omega
  min_size := by
    simp only [List.length_append, length_packLength, List.length_replicate, rgMinPayload] at hmin ⊢
    omega
  max_size := by
    simp only [List.length_append, length_packLength, List.length_replicate, rgMinPayload,
      rgMaxCommandSize] at hmin hmax ⊢
    omega

/-- The blank command has the size asked for. -/
@[simp] theorem size_blank {n : Nat} (hmin : rgMinPayload ≤ n) (hmax : n ≤ rgMaxCommandSize) :
    (Command.blank n hmin hmax).size = n := by
  simp only [Command.size, Command.blank, List.length_append, length_packLength,
    List.length_replicate, rgMinPayload] at hmin ⊢
  omega

/-- The concatenated bytes of some commands. -/
def payload (cs : List Command) : Bytes := cs.flatMap Command.bytes

@[simp] theorem payload_nil : payload [] = [] := rfl

@[simp] theorem payload_append (cs ds : List Command) :
    payload (cs ++ ds) = payload cs ++ payload ds := List.flatMap_append

@[simp] theorem payload_singleton (c : Command) : payload [c] = c.bytes := by simp [payload]

/-- A non-empty list of commands has a non-empty payload. -/
theorem payload_pos {cs : List Command} (h : cs ≠ []) : 0 < (payload cs).length := by
  obtain ⟨c, ds, rfl⟩ := List.exists_cons_of_ne_nil h
  have hmin := c.min_size
  simp only [payload, List.flatMap_cons, List.length_append, rgMinPayload] at hmin ⊢
  omega

/-- A call of the batched sink: an encoded event, or the `NULL` event that asks for a flush. -/
inductive SinkCall where
  /-- An event in the scratch buffer. -/
  | event (command : Command)
  /-- A flush. -/
  | null

/-- The call as the encoder or the timer makes it. -/
def SinkCall.perform {ρ : Type} (R : Ring ρ) (s : SinkData ρ) :
    SinkCall → SinkData ρ × List SinkAction × Int
  | .event c => rbRgBatchedSink R c.bytes true (Int16.ofNat c.size) s
  | .null => rbRgFlushBatchedSink R s

/-- Every offer of a call goes to the ring the call was given. -/
theorem perform_offersTo {ρ : Type} (R : Ring ρ) (s : SinkData ρ) (call : SinkCall) :
    OffersTo R s.ringbuf (call.perform R s).2.1 (call.perform R s).1.ringbuf := by
  cases call with
  | event c => exact rbRgBatchedSink_offersTo R _ _ _ s
  | null => exact rbRgBatchedSink_offersTo R _ _ _ s

/-! ## The sink on commands -/

/-- The commands that wait for a batch, and the number of batches sent so far. -/
structure Batcher where
  /-- Batches sent. -/
  sent : Nat
  /-- Commands of the current batch. -/
  pending : List Command

/-- Bytes of the current batch, its header included. -/
def Batcher.length (b : Batcher) : Nat := rgBatchHeadlen + (payload b.pending).length

/-- What a call does, on commands. -/
inductive BatcherAction where
  /-- A command of size `size` is stored behind `offset` bytes. -/
  | append (offset size : Nat)
  /-- The batch of the given number is sent. -/
  | batch (number : Nat) (commands : List Command)
  /-- A command is sent as it is. -/
  | raw (command : Command)

/-- One call, on commands. -/
def Batcher.step (b : Batcher) : SinkCall → Batcher × List BatcherAction
  | .event c =>
      if b.length + c.size ≤ rgBatchPacketSize then
        ({ b with pending := b.pending ++ [c] }, [.append b.length c.size])
      else if rgBatchHeadlen + c.size ≤ rgBatchPacketSize then
        (⟨b.sent + 1, [c]⟩, [.batch b.sent b.pending, .append rgBatchHeadlen c.size])
      else if rgMaxBatchPacketSize - 2 ≤ c.size then (⟨b.sent, []⟩, [.raw c])
      else
        (⟨b.sent + 2, []⟩,
          [.batch b.sent b.pending, .append rgBatchHeadlen c.size, .batch (b.sent + 1) [c]])
  | .null => if b.pending = [] then (b, []) else (⟨b.sent + 1, []⟩, [.batch b.sent b.pending])

/-- The bytes of a batch message. -/
def batchMessage (pid : UInt32) (number : Nat) (cs : List Command) : Bytes :=
  batchHeader (Int16.ofNat (rgBatchHeadlen + (payload cs).length)) 0xFA (Int16.ofNat cs.length)
    (UInt32.ofNat number) pid ++ payload cs

/-- An action on bytes carries out an action on commands, whatever the ring answers. -/
inductive Carries (pid : UInt32) : BatcherAction → SinkAction → Prop
  | append (offset size : Nat) : Carries pid (.append offset size) (.append offset size)
  | batch (number : Nat) (cs : List Command) (retval : Int) :
      Carries pid (.batch number cs) (.offerBatch (batchMessage pid number cs) retval)
  | raw (c : Command) (retval : Int) : Carries pid (.raw c) (.offerRaw c.bytes retval)

/-! ## The bytes of the current batch -/

/-- The batch holds the commands `cs`: they are stored behind the room for the header, and the
length and the count say so. -/
structure RgEventBatch.Holds (b : RgEventBatch) (cs : List Command) : Prop where
  length_eq : b.length = Int16.ofNat (rgBatchHeadlen + (payload cs).length)
  length_lt : rgBatchHeadlen + (payload cs).length < 2 ^ 15
  count_eq : b.count = Int16.ofNat cs.length
  type_eq : b.type = 0xFA
  capacity : rgMaxBatchPacketSize ≤ b.buf.length
  inside : rgBatchHeadlen + (payload cs).length ≤ b.buf.length
  stored : readAt b.buf rgBatchHeadlen (payload cs).length = payload cs

/-- Every batch header has `RG_BATCH_HEADLEN` bytes. -/
@[simp] theorem length_batchHeader (length : RgLength) (type : UInt8) (count : RgLength)
    (sequence pid : UInt32) :
    (batchHeader length type count sequence pid).length = rgBatchHeadlen := by
  simp [batchHeader, rgBatchHeadlen]

namespace RgEventBatch.Holds

variable {b : RgEventBatch} {cs : List Command}

/-- The length field of a batch counts its header and its payload, as a number. -/
theorem length_toNat (h : b.Holds cs) :
    b.length.toNatClampNeg = rgBatchHeadlen + (payload cs).length := by
  rw [h.length_eq, toNatClampNeg_ofNat h.length_lt]

/-- The length field of a batch counts its header and its payload, as an integer. -/
theorem length_toInt (h : b.Holds cs) :
    b.length.toInt = (rgBatchHeadlen + (payload cs).length : Nat) := by
  rw [h.length_eq, Int16.toInt_ofNat_of_lt h.length_lt]

/-- **Appending a command** stores it behind the commands already held. -/
theorem encodeIntoBatch (h : b.Holds cs) (c : Command)
    (hlt : rgBatchHeadlen + (payload cs).length + c.size < 2 ^ 15) :
    (rgEncodeIntoBatch c.bytes (Int16.ofNat c.size) b).Holds (cs ++ [c]) := by
  have hsize : (Int16.ofNat c.size).toNatClampNeg = c.size := toNatClampNeg_ofNat (by omega)
  have htake : c.bytes.take c.size = c.bytes := List.take_length
  have hlen : (payload (cs ++ [c])).length = (payload cs).length + c.size := by
    simp [Command.size]
  have hcap := h.capacity
  have hin := h.inside
  refine ⟨?_, ?_, ?_, h.type_eq, ?_, ?_, ?_⟩
  · simp only [rgEncodeIntoBatch, h.length_eq, ofNat_add_ofNat, hlen, Nat.add_assoc]
  · omega
  · simp only [rgEncodeIntoBatch, h.count_eq, List.length_append, List.length_singleton]
    exact ofNat_add_ofNat cs.length 1
  · exact hcap.trans (le_length_writeAt _ _ _)
  · simp only [rgEncodeIntoBatch, h.length_toNat, hsize, htake, hlen, ← Nat.add_assoc]
    exact block_le_length_writeAt c.bytes hin
  · simp only [rgEncodeIntoBatch, h.length_toNat, hsize, htake, payload_append, payload_singleton,
      List.length_append, readAt_add]
    rw [readAt_writeAt_below _ le_rfl hin, h.stored]
    congr 1
    exact readAt_writeAt c.bytes hin

/-- Writing the header does not touch the commands. -/
theorem encodeBatchHeader (h : b.Holds cs) : (rgEncodeBatchHeader b).Holds cs := by
  have hlen : b.buf.length ≤ (rgEncodeBatchHeader b).buf.length := le_length_writeAt _ _ _
  refine ⟨h.length_eq, h.length_lt, h.count_eq, h.type_eq, h.capacity.trans hlen,
    h.inside.trans hlen, ?_⟩
  rw [rgEncodeBatchHeader, readAt_writeAt_above _ (by simp) (Nat.zero_le _), h.stored]

/-- **The message of a batch** is its header followed by the commands held. -/
theorem message_encodeBatchHeader (h : b.Holds cs) {number : Nat}
    (hnumber : b.sequence = UInt32.ofNat number) :
    (rgEncodeBatchHeader b).message = batchMessage b.pid number cs := by
  have hhead : readAt (rgEncodeBatchHeader b).buf 0 rgBatchHeadlen
      = batchHeader b.length b.type b.count b.sequence b.pid := by
    have hread : readAt (rgEncodeBatchHeader b).buf 0
        (batchHeader b.length b.type b.count b.sequence b.pid).length = _ :=
      readAt_writeAt _ (Nat.zero_le _)
    rwa [length_batchHeader] at hread
  rw [message, h.encodeBatchHeader.length_toNat, readAt_add, hhead, Nat.zero_add,
    h.encodeBatchHeader.stored, h.length_eq, h.type_eq, h.count_eq, hnumber, batchMessage]

end RgEventBatch.Holds

/-- A batch reset to the bare header holds nothing. -/
theorem holds_nil {b : RgEventBatch} (hlen : b.length = Int16.ofNat rgBatchHeadlen)
    (hcount : b.count = 0) (htype : b.type = 0xFA) (hcap : rgMaxBatchPacketSize ≤ b.buf.length) :
    b.Holds [] := by
  refine ⟨by simpa using hlen, by decide, hcount, htype, hcap, ?_, by simp⟩
  simp only [rgMaxBatchPacketSize, rgBatchHeadlen, payload_nil, List.length_nil] at hcap ⊢
  omega

end RaygunApm
