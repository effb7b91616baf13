import RaygunApm.Library.LittleEndian
import RaygunApm.Ring.Bipbuffer

/-! # Scalars of the wire protocol

`raygun_protocol.h`: the size limits and the scalar types of the protocol, and the byte strings that
`memcpy` of a scalar into a buffer produces on a little-endian machine. -/

namespace RaygunApm

/-- `RG_MAX_STRING_SIZE`. -/
def rgMaxStringSize : Nat := 4096

/-- `RG_MAX_SHORT_STRING_SIZE`. -/
def rgMaxShortStringSize : Nat := 127

/-- `RG_MIN_PAYLOAD`: the size of a command header. -/
def rgMinPayload : Nat := 19

/-- The largest command the encoder produces: an SQL event with four strings of full size. -/
def rgMaxCommandSize : Nat := 16423

/-- `RG_ENCODER_SCRATCH_BUFFER_SIZE`. -/
def rgEncoderScratchBufferSize : Nat := 32 * 1024

/-- `RG_BATCH_PACKET_SIZE`. -/
def rgBatchPacketSize : Nat := 1400

/-- `RG_MAX_BATCH_PACKET_SIZE`: the size of `batch.buf`. -/
def rgMaxBatchPacketSize : Nat := 4096

/-- `RG_BATCH_HEADLEN`. -/
def rgBatchHeadlen : Nat := 13

/-- `RG_RINGBUF_SIZE`. -/
def rgRingbufSize : Nat := 10 * 1024 * 1024

/-- `rg_length_t` and `rg_short_t`. -/
abbrev RgLength : Type := Int16

/-- Bytes of an `rg_byte_t`. -/
def packByte (x : UInt8) : Bytes := [x]

/-- Bytes of an `rg_length_t`. -/
def packLength (x : RgLength) : Bytes := LittleEndian.encode 2 x.toUInt16.toNat

/-- Bytes of a `uint16_t`. -/
def packUInt16 (x : UInt16) : Bytes := LittleEndian.encode 2 x.toNat

/-- Bytes of a `uint32_t`. -/
def packUInt32 (x : UInt32) : Bytes := LittleEndian.encode 4 x.toNat

/-- Bytes of a `uint64_t`. -/
def packUInt64 (x : UInt64) : Bytes := LittleEndian.encode 8 x.toNat

/-- Bytes of an `int64_t`. -/
def packInt64 (x : Int64) : Bytes := LittleEndian.encode 8 x.toUInt64.toNat

@[simp] theorem length_packByte (x : UInt8) : (packByte x).length = 1 := rfl

@[simp] theorem length_packLength (x : RgLength) : (packLength x).length = 2 := by simp [packLength]

@[simp] theorem length_packUInt16 (x : UInt16) : (packUInt16 x).length = 2 := by simp [packUInt16]

@[simp] theorem length_packUInt32 (x : UInt32) : (packUInt32 x).length = 4 := by simp [packUInt32]

@[simp] theorem length_packUInt64 (x : UInt64) : (packUInt64 x).length = 8 := by simp [packUInt64]

@[simp] theorem length_packInt64 (x : Int64) : (packInt64 x).length = 8 := by simp [packInt64]

/-- The `rg_length_t` of a size below `2 ^ 15`. -/
theorem toNatClampNeg_ofNat {n : Nat} (h : n < 2 ^ 15) : (Int16.ofNat n).toNatClampNeg = n :=
  Int16.toNatClampNeg_ofNat_of_lt h

/-- Adding two lengths does not wrap while the sum is below `2 ^ 15`. -/
theorem ofNat_add_ofNat (m n : Nat) : Int16.ofNat m + Int16.ofNat n = Int16.ofNat (m + n) :=
  (Int16.ofNat_add m n).symm

/-- The two bytes of a length, read back as an unsigned number. -/
theorem decode_packLength {n : Nat} (h : n < 2 ^ 16) :
    LittleEndian.decode (packLength (Int16.ofNat n)) = n := by
  have hval : (Int16.ofNat n).toUInt16.toNat = n := by
    simp only [Int16.toUInt16_ofNat', UInt16.toNat_ofNat']
    omega
  rw [packLength, hval]
  exact LittleEndian.decode_encode_of_lt h

/-- The four bytes of a `uint32_t`, read back. -/
theorem decode_packUInt32 (x : UInt32) : LittleEndian.decode (packUInt32 x) = x.toNat :=
  LittleEndian.decode_encode_of_lt x.toNat_lt

end RaygunApm
