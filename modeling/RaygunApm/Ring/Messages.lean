import RaygunApm.Ring.Fifo
import RaygunApm.Wire.Scalar

/-! # Messages on the ring

A message starts with its own size, which is how the consumer finds its end. `Tiled` says that both
regions of the bip buffer are made of whole messages; this is what every offer and every poll of the
next message keep, and why the consumer never sees a torn message. -/

namespace RaygunApm

open ByteMemory

/-- A message as the sinks queue it: it starts with its own size. -/
structure Message where
  /-- The queued bytes. -/
  bytes : Bytes
  /-- The length prefix is the size. -/
  length_prefix : LittleEndian.decode (bytes.take 2) = bytes.length
  /-- No message is smaller than a batch header. -/
  min_size : rgBatchHeadlen ≤ bytes.length
  /-- No message is larger than the largest command. -/
  max_size : bytes.length ≤ rgMaxCommandSize

/-- Size of a message. -/
def Message.size (m : Message) : Nat := m.bytes.length

/-- Messages are not empty. -/
theorem Message.size_pos (m : Message) : 0 < m.size :=
  lt_of_lt_of_le (by decide) m.min_size

/-- The concatenated bytes of some messages. -/
def messageBytes (ms : List Message) : Bytes := ms.flatMap Message.bytes

@[simp] theorem messageBytes_nil : messageBytes [] = [] := rfl

/-- Cons reading of `messageBytes`: the bytes of the first message, then of the rest. -/
@[simp] theorem messageBytes_cons (m : Message) (ms : List Message) :
    messageBytes (m :: ms) = m.bytes ++ messageBytes ms := List.flatMap_cons

@[simp] theorem messageBytes_append (ms ns : List Message) :
    messageBytes (ms ++ ns) = messageBytes ms ++ messageBytes ns := List.flatMap_append

/-- Only no messages have no bytes. -/
theorem messageBytes_eq_nil_iff {ms : List Message} : messageBytes ms = [] ↔ ms = [] := by
  cases ms with
  | nil => simp
  | cons m ms =>
      have hpos := m.size_pos
      rw [messageBytes_cons, List.append_eq_nil_iff]
      constructor
      · rintro ⟨hnil, -⟩
        rw [Message.size, hnil] at hpos
        exact absurd hpos (lt_irrefl 0)
      · intro h
        exact absurd h (List.cons_ne_nil m ms)

/-- `rg_ringbuf_next_message_size`. -/
def rgRingbufNextMessageSize (me : Bipbuf) : RgLength :=
  match bipbufPeek me 2 with
  | some buf => Int16.ofNat (LittleEndian.decode (readAt me.data buf 2))
  | none => 0

/-- The ring holds the messages `as` in region A and `bs` in region B. -/
structure Tiled (me : Bipbuf) (as bs : List Message) : Prop where
  wf : me.Wf
  regionA : me.regionA = messageBytes as
  regionB : me.regionB = messageBytes bs

/-- A fresh ring holds no messages. -/
theorem tiled_bipbufNew {memory : Bytes} (h : memory.length < 2 ^ 32) :
    Tiled (bipbufNew memory) [] [] :=
  ⟨bipbufNew_wf h, by simp [Bipbuf.regionA, bipbufNew], by simp [Bipbuf.regionB, bipbufNew]⟩

namespace Tiled

variable {me : Bipbuf} {as bs : List Message}

/-- The ring is empty exactly if region A holds no message. -/
theorem isEmpty_iff (h : Tiled me as bs) : bipbufIsEmpty me = true ↔ as = [] := by
  have hlen := h.wf.length_regionA
  have hse := h.wf.start_le_end
  rw [← messageBytes_eq_nil_iff, ← h.regionA, ← List.length_eq_zero_iff, hlen]
  simp only [bipbufIsEmpty, beq_iff_eq]
  omega

/-- An empty region A means an empty region B. -/
theorem nil_of_nil (h : Tiled me [] bs) : bs = [] := by
  have hempty : bipbufIsEmpty me = true := h.isEmpty_iff.mpr rfl
  have heq : me.aStart = me.aEnd := by simpa [bipbufIsEmpty] using hempty
  have hoff := (h.wf.reset_of_empty heq).2
  rw [← messageBytes_eq_nil_iff, ← h.regionB, h.wf.regionB_of_off hoff]

/-- **An accepted message comes last** in the ring. -/
theorem offer (h : Tiled me as bs) (m : Message)
    (haccept : (bipbufOffer me m.bytes m.bytes.length).2 ≠ 0) :
    ∃ as' bs', Tiled (bipbufOffer me m.bytes m.bytes.length).1 as' bs' ∧
      as' ++ bs' = as ++ bs ++ [m] := by
  obtain ⟨hwf, hA, hB⟩ := bipbufOffer_spec h.wf m.size_pos (bipbufOffer_accepted haccept).1
  cases hb : me.bInuse with
  | true =>
      simp only [hb, if_true] at hA hB
      refine ⟨as, bs ++ [m], ⟨hwf, hA.trans h.regionA, ?_⟩, by simp⟩
      rw [hB, h.regionB]
      simp
  | false =>
      simp only [hb, Bool.false_eq_true, if_false] at hA hB
      have hbs : bs = [] := by
        rw [← messageBytes_eq_nil_iff, ← h.regionB, h.wf.regionB_of_off hb]
      refine ⟨as ++ [m], [], ⟨hwf, ?_, hB⟩, by simp [hbs]⟩
      rw [hA, h.regionA]
      simp

variable {m : Message}

/-- The first message lies inside region A. -/
theorem size_le (h : Tiled me (m :: as) bs) : m.size ≤ me.aEnd - me.aStart := by
  rw [← h.wf.length_regionA, h.regionA, messageBytes_cons, List.length_append]
  exact Nat.le_add_right _ _

/-- The first message lies at the start of region A. -/
theorem readAt_aStart (h : Tiled me (m :: as) bs) : readAt me.data me.aStart m.size = m.bytes := by
  rw [Bipbuf.Wf.readAt_aStart h.size_le, h.regionA, messageBytes_cons]
  exact List.take_left' rfl

/-- **The next message size** is the size of the first message. -/
theorem nextMessageSize (h : Tiled me (m :: as) bs) :
    rgRingbufNextMessageSize me = Int16.ofNat m.size := by
  have hsize := h.size_le
  have hmin : rgBatchHeadlen ≤ m.size := m.min_size
  have hend := h.wf.end_le_size
  have hlt := h.wf.size_lt
  have htwo : 2 ≤ m.size := le_trans (by decide) hmin
  have hne : ¬ bipbufIsEmpty me = true := fun he => List.cons_ne_nil m as (h.isEmpty_iff.mp he)
  have hpeek : bipbufPeek me 2 = some me.aStart := by
    rw [bipbufPeek, cUInt_of_range (by omega) (by omega), if_neg (by omega), if_neg hne]
  have hread : readAt me.data me.aStart 2 = m.bytes.take 2 := by
    rw [← h.readAt_aStart, take_readAt _ htwo]
  rw [rgRingbufNextMessageSize, hpeek]
  simp only [hread, m.length_prefix, Message.size]

/-- **A poll takes the first message**, and leaves its bytes where they are. -/
theorem poll (h : Tiled me (m :: as) bs) :
    (∃ as' bs', Tiled (bipbufPoll me m.size).1 as' bs' ∧ as' ++ bs' = as ++ bs) ∧
      (bipbufPoll me m.size).2 = some me.aStart ∧
      readAt (bipbufPoll me m.size).1.data me.aStart m.size = m.bytes := by
  obtain ⟨hwf, hA, hB, hdata, hptr⟩ := bipbufPoll_spec h.wf m.size_pos h.size_le
  refine ⟨?_, hptr, hdata ▸ h.readAt_aStart⟩
  by_cases hend : me.aStart + m.size = me.aEnd
  · rw [if_pos hend] at hA hB
    have hlen := h.wf.length_regionA
    have hnil : as = [] := by
      rw [h.regionA, messageBytes_cons, List.length_append] at hlen
      rw [← messageBytes_eq_nil_iff, ← List.length_eq_zero_iff]
      have hsize : m.bytes.length = m.size := rfl
      omega
    exact ⟨bs, [], ⟨hwf, hA.trans h.regionB, hB⟩, by simp [hnil]⟩
  · rw [if_neg hend] at hA hB
    refine ⟨as, bs, ⟨hwf, ?_, hB.trans h.regionB⟩, rfl⟩
    rw [hA, h.regionA, messageBytes_cons]
    exact List.drop_left' rfl

end Tiled

end RaygunApm
