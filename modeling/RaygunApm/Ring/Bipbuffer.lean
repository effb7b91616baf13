import RaygunApm.Library.ByteMemory
import Mathlib.Tactic.Ring

/-! # The bip buffer

`bipbuffer.c`: a ring buffer whose free space is always handed out contiguously. Region A lies
between `a_start` and `a_end`, region B grows from the start of the memory up to `b_end` and is
used once there is more room in front of A than behind it. The size is an `unsigned long`, the
three positions are `unsigned int`, and results are converted to `int`; the conversions are
explicit below. -/

namespace RaygunApm

open ByteMemory

/-- A byte string. -/
abbrev Bytes : Type := List UInt8

/-- Conversion to `int`. -/
def cInt (x : Int) : Int := x.bmod (2 ^ 32)

/-- Conversion to `unsigned int`. -/
def cUInt (x : Int) : Int := x % 2 ^ 32

/-- Conversion to `unsigned long`. -/
def cULong (x : Int) : Int := x % 2 ^ 64

/-- `bipbuf_t`. -/
structure Bipbuf where
  /-- Capacity of `data`. -/
  size : Nat
  /-- Start of region A. -/
  aStart : Nat
  /-- End of region A. -/
  aEnd : Nat
  /-- End of region B. -/
  bEnd : Nat
  /-- Is B in use? -/
  bInuse : Bool
  /-- The memory behind the header. -/
  data : Bytes
  deriving DecidableEq, Repr

/-- `bipbuf_unused`. -/
def bipbufUnused (me : Bipbuf) : Int :=
  if me.bInuse then cInt (cUInt (me.aStart - me.bEnd))
  else cInt (cULong (me.size - me.aEnd))

/-- `bipbuf_used`. -/
def bipbufUsed (me : Bipbuf) : Int :=
  cInt (cUInt (cUInt (me.aEnd - me.aStart) + me.bEnd))

/-- `bipbuf_new`: `bipbuf_init` on freshly allocated memory, whose contents are unspecified. -/
def bipbufNew (memory : Bytes) : Bipbuf :=
  { size := memory.length, aStart := 0, aEnd := 0, bEnd := 0, bInuse := false, data := memory }

/-- `bipbuf_is_empty`. -/
def bipbufIsEmpty (me : Bipbuf) : Bool := me.aStart == me.aEnd

/-- `__check_for_switch_to_b`: turn on region B when there is less room behind A than between B
and A. -/
def checkForSwitchToB (me : Bipbuf) : Bipbuf :=
  if cULong (me.size - me.aEnd) < cUInt (me.aStart - me.bEnd) then { me with bInuse := true }
  else me

/-- Where the next offer is copied to. -/
def bipbufWritePos (me : Bipbuf) : Nat := if me.bInuse then me.bEnd else me.aEnd

/-- `bipbuf_offer`: returns the new buffer and the number of bytes offered. -/
def bipbufOffer (me : Bipbuf) (data : Bytes) (size : Int) : Bipbuf × Int :=
  if bipbufUnused me < size then (me, 0)
  else
    let me :=
      if me.bInuse then
        { me with
          data := writeAt me.data me.bEnd (data.take size.toNat)
          bEnd := (cUInt (me.bEnd + size)).toNat }
      else
        { me with
          data := writeAt me.data me.aEnd (data.take size.toNat)
          aEnd := (cUInt (me.aEnd + size)).toNat }
    (checkForSwitchToB me, size)

/-- `bipbuf_peek`: the returned pointer is the offset into `data`. -/
def bipbufPeek (me : Bipbuf) (size : Nat) : Option Nat :=
  if (me.size : Int) < cUInt (me.aStart + size) then none
  else if bipbufIsEmpty me then none
  else some me.aStart

/-- `bipbuf_poll`: the returned pointer is the offset into `data`. -/
def bipbufPoll (me : Bipbuf) (size : Nat) : Bipbuf × Option Nat :=
  if bipbufIsEmpty me then (me, none)
  else if (me.size : Int) < cUInt (me.aStart + size) then (me, none)
  else
    let ptr := me.aStart
    let me := { me with aStart := (cUInt (me.aStart + size)).toNat }
    let me :=
      if me.aStart = me.aEnd then
        -- we seem to be empty: replace A with B, or move the cursor back to the start
        if me.bInuse then { me with aStart := 0, aEnd := me.bEnd, bEnd := 0, bInuse := false }
        else { me with aStart := 0, aEnd := 0 }
      else me
    (checkForSwitchToB me, some ptr)

/-! ## Integer conversions inside their range -/

/-- An `unsigned int` in range is unchanged. -/
theorem cUInt_of_range {x : Int} (h₀ : 0 ≤ x) (h₁ : x < 2 ^ 32) : cUInt x = x :=
  Int.emod_eq_of_lt h₀ h₁

/-- An `unsigned long` in range is unchanged. -/
theorem cULong_of_range {x : Int} (h₀ : 0 ≤ x) (h₁ : x < 2 ^ 64) : cULong x = x :=
  Int.emod_eq_of_lt h₀ h₁

/-- Conversion to `int` never exceeds a non-negative number. -/
theorem cInt_le {x : Int} (h₀ : 0 ≤ x) : cInt x ≤ x := by
  rw [cInt, Int.bmod_def]
  split <;> omega

end RaygunApm
