import RaygunApm.Ring.Fifo
import RaygunApm.Wire.Scalar

/-! # The batched sink

`rb_rg_batched_sink` collects encoded commands in `sink_data.batch` and offers finished batches, or
commands too large for a batch, to the ring buffer that a dispatcher thread drains. The ring is a
parameter (`Ring`), instantiated by the bip buffer in `bipbufRing`. Besides the new state a call
returns the list of its externally visible actions, in order: the appends to `batch.buf` and the
offers to the ring. -/

namespace RaygunApm

open ByteMemory

/-- What the sink uses of its ring buffer: the fill level and the offer, whose returned value is 0
for a rejected message. A rejected message leaves the ring as it is. -/
structure Ring (ρ : Type) where
  /-- `bipbuf_used`. -/
  used : ρ → Int
  /-- `bipbuf_offer` of a whole message. -/
  offer : ρ → Bytes → ρ × Int
  /-- Rejection changes nothing. -/
  offer_rejected : ∀ r m, m ≠ [] → (offer r m).2 = 0 → (offer r m).1 = r

/-- The bip buffer as the sink's ring. -/
def bipbufRing : Ring Bipbuf where
  used := bipbufUsed
  offer me message := bipbufOffer me message message.length
  offer_rejected _ _ hne h :=
    bipbufOffer_rejected (Int.natCast_ne_zero.mpr fun hlen => hne (List.length_eq_zero_iff.mp hlen)) h

/-- A ring without bound, which keeps the messages as they are and accepts every offer. -/
def queueRing : Ring (List Bytes) where
  used messages := (messages.flatten.length : Int)
  offer messages message := (messages ++ [message], 1)
  offer_rejected _ _ _ h := absurd h one_ne_zero

/-- `rg_event_batch_t`. -/
structure RgEventBatch where
  /-- Bytes in use, the header included. -/
  length : RgLength
  /-- The command type. -/
  type : UInt8
  /-- Commands in the batch. -/
  count : RgLength
  /-- Sequence number of the batch. -/
  sequence : UInt32
  /-- Process id. -/
  pid : UInt32
  /-- The memory from `buf` on. -/
  buf : Bytes
  deriving DecidableEq

/-- The part of `rb_rg_sink_data_t` that the batched sink and the dispatchers use. -/
structure SinkData (ρ : Type) where
  /-- The ring buffer. -/
  ringbuf : ρ
  /-- Cleared on shutdown. -/
  running : Bool
  /-- Telemetry. -/
  encodedBatched : Nat
  /-- Telemetry. -/
  encodedRaw : Nat
  /-- Telemetry. -/
  resets : Nat
  /-- Telemetry. -/
  batches : Nat
  /-- Largest fill level of the ring seen so far. -/
  maxBufUsed : Nat
  /-- The socket buffer size the jitter pause goes by. -/
  receiveBufferSize : Int
  /-- The current batch. -/
  batch : RgEventBatch
  deriving DecidableEq

/-- An externally visible action of the sink. -/
inductive SinkAction where
  /-- `rg_encode_into_batch` copied `buflen` bytes to offset `offset` of `batch.buf`. -/
  | append (offset buflen : Int)
  /-- A finished batch was offered to the ring, which returned `retval`. -/
  | offerBatch (message : Bytes) (retval : Int)
  /-- A command was offered to the ring as it is. -/
  | offerRaw (message : Bytes) (retval : Int)
  deriving DecidableEq

/-- `rg_encode_into_batch`. -/
def rgEncodeIntoBatch (buf : Bytes) (buflen : RgLength) (batch : RgEventBatch) : RgEventBatch :=
  { batch with
    buf := writeAt batch.buf batch.length.toNatClampNeg (buf.take buflen.toNatClampNeg)
    length := batch.length + buflen
    count := batch.count + 1 }

/-- The bytes of a batch header, in the order `rg_encode_batch_header` copies them. -/
def batchHeader (length : RgLength) (type : UInt8) (count : RgLength) (sequence pid : UInt32) :
    Bytes :=
  packLength length ++ packByte type ++ packLength count ++ packUInt32 sequence ++ packUInt32 pid

/-- `rg_encode_batch_header`. -/
def rgEncodeBatchHeader (batch : RgEventBatch) : RgEventBatch :=
  { batch with
    buf := writeAt batch.buf 0
      (batchHeader batch.length batch.type batch.count batch.sequence batch.pid)
    sequence := batch.sequence + 1 }

/-- The bytes that `batch.buf` and `batch.length` hand to the ring. -/
def RgEventBatch.message (batch : RgEventBatch) : Bytes :=
  readAt batch.buf 0 batch.length.toNatClampNeg

variable {ρ : Type}

/-- `rb_rg_spawn_new_batch`. -/
def rbRgSpawnNewBatch (s : SinkData ρ) : SinkData ρ :=
  { s with
    batch := { s.batch with length := Int16.ofNat rgBatchHeadlen, count := 0 }
    resets := s.resets + 1
    batches := s.batches + 1 }

/-- `rg_encode_into_batch` on the current batch. -/
def SinkData.encodeIntoBatch (buf : Bytes) (buflen : RgLength) (s : SinkData ρ) :
    SinkData ρ × List SinkAction :=
  ({ s with batch := rgEncodeIntoBatch buf buflen s.batch },
    [.append s.batch.length.toInt buflen.toInt])

/-- `rg_encode_batch_header` on the current batch, which is then offered to the ring. -/
def SinkData.offerBatch (R : Ring ρ) (s : SinkData ρ) : SinkData ρ × List SinkAction × Int :=
  let batch := rgEncodeBatchHeader s.batch
  let (ringbuf, retval) := R.offer s.ringbuf batch.message
  ({ s with batch := batch, ringbuf := ringbuf }, [.offerBatch batch.message retval], retval)

/-- Track the largest fill level of the ring. -/
def SinkData.trackBufUsed (R : Ring ρ) (s : SinkData ρ) : SinkData ρ :=
  let bufUsed := (cULong (R.used s.ringbuf)).toNat
  if bufUsed > s.maxBufUsed then { s with maxBufUsed := bufUsed } else s

/-- The branch for room in the current batch. -/
def sinkIntoCurrentBatch (buf : Bytes) (buflen : RgLength) (s : SinkData ρ) :
    SinkData ρ × List SinkAction × Int :=
  let (s, appended) := s.encodeIntoBatch buf buflen
  ({ s with encodedBatched := s.encodedBatched + 1 }, appended, 1)

/-- The branch for a flush, or for room in a new batch. -/
def sinkIntoNewBatch (R : Ring ρ) (buf : Bytes) (event : Bool) (buflen : RgLength)
    (s : SinkData ρ) : SinkData ρ × List SinkAction × Int :=
  -- empty batches are not flushed
  if s.batch.length.toInt = rgBatchHeadlen then (s, [], 1)
  else
    let (s, offered, retval) := s.offerBatch R
    let s := rbRgSpawnNewBatch { s with batches := s.batches + 1 }
    if event then
      let (s, appended) := s.encodeIntoBatch buf buflen
      ({ s with encodedBatched := s.encodedBatched + 1 }, offered ++ appended, retval)
    else (s, offered, retval)

/-- The branch that makes no attempt to wrap the command into a batch. -/
def sinkRaw (R : Ring ρ) (buf : Bytes) (buflen : RgLength) (s : SinkData ρ) :
    SinkData ρ × List SinkAction × Int :=
  let message := buf.take buflen.toNatClampNeg
  let (ringbuf, retval) := R.offer s.ringbuf message
  let s := rbRgSpawnNewBatch { s with ringbuf := ringbuf }
  ({ s with encodedRaw := s.encodedRaw + 1 }, [.offerRaw message retval], retval)

/-- The branch that flushes the current batch and sends the command in a batch of its own. -/
def sinkInOwnBatch (R : Ring ρ) (buf : Bytes) (buflen : RgLength) (s : SinkData ρ) :
    SinkData ρ × List SinkAction × Int :=
  let (s, offered, _) := s.offerBatch R
  let s := rbRgSpawnNewBatch { s with batches := s.batches + 1 }
  let (s, appended) := s.encodeIntoBatch buf buflen
  let (s, offered', retval) := s.offerBatch R
  (rbRgSpawnNewBatch s, offered ++ appended ++ offered', retval)

/-- `rb_rg_batched_sink`: `buf` is the scratch buffer `context->buf` and `event` tells whether the
event pointer is non-`NULL`. Returns the new state, the actions and the returned value; every path
but the early return for an empty batch ends with a yield to other threads. -/
def rbRgBatchedSink (R : Ring ρ) (buf : Bytes) (event : Bool) (buflen : RgLength)
    (s : SinkData ρ) : SinkData ρ × List SinkAction × Int :=
  let s := s.trackBufUsed R
  if event ∧ s.batch.length.toInt + buflen.toInt ≤ rgBatchPacketSize then
    sinkIntoCurrentBatch buf buflen s
  else if ¬ event ∨ rgBatchHeadlen + buflen.toInt ≤ rgBatchPacketSize then
    sinkIntoNewBatch R buf event buflen s
  else if buflen.toInt ≥ rgMaxBatchPacketSize - 2 then sinkRaw R buf buflen s
  else sinkInOwnBatch R buf buflen s

/-- `rb_rg_flush_batched_sink`: the sink is handed a `NULL` event. -/
def rbRgFlushBatchedSink (R : Ring ρ) (s : SinkData ρ) : SinkData ρ × List SinkAction × Int :=
  rbRgBatchedSink R [] false 0 s

/-! ## The offers of a call -/

/-- `OffersTo R r os r'`: the offers among the actions `os`, made one after the other to the ring
`r`, return what they are said to return and leave the ring `r'`. -/
inductive OffersTo (R : Ring ρ) : ρ → List SinkAction → ρ → Prop
  | nil (r : ρ) : OffersTo R r [] r
  | append {r r' : ρ} {os} (offset buflen : Int) :
      OffersTo R r os r' → OffersTo R r (.append offset buflen :: os) r'
  | batch {r r' : ρ} {os} (message : Bytes) :
      OffersTo R (R.offer r message).1 os r' →
      OffersTo R r (.offerBatch message (R.offer r message).2 :: os) r'
  | raw {r r' : ρ} {os} (message : Bytes) :
      OffersTo R (R.offer r message).1 os r' →
      OffersTo R r (.offerRaw message (R.offer r message).2 :: os) r'

/-- Tracking the fill level does not touch the ring. -/
theorem ringbuf_trackBufUsed (R : Ring ρ) (s : SinkData ρ) :
    (s.trackBufUsed R).ringbuf = s.ringbuf := by
  unfold SinkData.trackBufUsed
  dsimp only
  split <;> rfl

/-- A call does not stop the sink. -/
theorem running_rbRgBatchedSink (R : Ring ρ) (buf : Bytes) (event : Bool) (buflen : RgLength)
    (s : SinkData ρ) : (rbRgBatchedSink R buf event buflen s).1.running = s.running := by
  have htrack : (s.trackBufUsed R).running = s.running := by
    unfold SinkData.trackBufUsed
    dsimp only
    split <;> rfl
  rw [← htrack]
  unfold rbRgBatchedSink
  dsimp only
  split
  · rfl
  · split
    · unfold sinkIntoNewBatch
      split
      · rfl
      · cases event <;> rfl
    · split <;> rfl

/-- **Every offer of a call goes to the ring** that the call was given, in the order of the
actions. -/
theorem rbRgBatchedSink_offersTo (R : Ring ρ) (buf : Bytes) (event : Bool) (buflen : RgLength)
    (s : SinkData ρ) :
    OffersTo R s.ringbuf (rbRgBatchedSink R buf event buflen s).2.1
      (rbRgBatchedSink R buf event buflen s).1.ringbuf := by
  rw [← ringbuf_trackBufUsed R s]
  unfold rbRgBatchedSink
  dsimp only
  split
  · exact .append _ _ (.nil _)
  · split
    · unfold sinkIntoNewBatch
      split
      · exact .nil _
      · cases event with
        | true => exact .batch _ (.append _ _ (.nil _))
        | false => exact .batch _ (.nil _)
    · split
      · exact .raw _ (.nil _)
      · exact .batch _ (.append _ _ (.batch _ (.nil _)))

end RaygunApm
