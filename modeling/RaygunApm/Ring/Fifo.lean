import RaygunApm.Ring.Bipbuffer

/-! # The bip buffer is a byte queue

`Bipbuf.Wf` is the invariant of the two regions and `Bipbuf.contents` the queue they hold: region A
followed by region B. An accepted offer appends to the queue, a rejected offer changes nothing, and
a poll of at most the size of region A takes from its front, whatever wrap-around or switch of
regions happens on the way. -/

namespace RaygunApm

open ByteMemory

/-- The region invariant: B ends before A starts, A lies inside the memory, B is empty unless it is
in use, and an empty A has moved back to the start with B off. -/
structure Bipbuf.Wf (me : Bipbuf) : Prop where
  size_lt : me.size < 2 ^ 32
  data_length : me.data.length = me.size
  start_le_end : me.aStart ≤ me.aEnd
  end_le_size : me.aEnd ≤ me.size
  bEnd_le_start : me.bEnd ≤ me.aStart
  bEnd_of_off : me.bInuse = false → me.bEnd = 0
  reset_of_empty : me.aStart = me.aEnd → me.aStart = 0 ∧ me.bInuse = false

/-- The bytes of region A. -/
def Bipbuf.regionA (me : Bipbuf) : Bytes := readAt me.data me.aStart (me.aEnd - me.aStart)

/-- The bytes of region B. -/
def Bipbuf.regionB (me : Bipbuf) : Bytes := readAt me.data 0 me.bEnd

/-- The queued bytes, oldest first. -/
def Bipbuf.contents (me : Bipbuf) : Bytes := me.regionA ++ me.regionB

/-- A fresh buffer satisfies the invariant. -/
theorem bipbufNew_wf {memory : Bytes} (h : memory.length < 2 ^ 32) : (bipbufNew memory).Wf :=
  ⟨h, rfl, le_rfl, Nat.zero_le _, le_rfl, fun _ => rfl, fun _ => ⟨rfl, rfl⟩⟩

/-- A new buffer holds no bytes. -/
@[simp] theorem contents_bipbufNew (memory : Bytes) : (bipbufNew memory).contents = [] := by
  simp [Bipbuf.contents, Bipbuf.regionA, Bipbuf.regionB, bipbufNew]

namespace Bipbuf.Wf

variable {me : Bipbuf}

/-- The free space at the write position. -/
theorem unused_le (h : me.Wf) :
    bipbufUnused me ≤ if me.bInuse then (me.aStart : Int) - me.bEnd else me.size - me.aEnd := by
  obtain ⟨hsize, _, hse, hes, hbs, _, _⟩ := h
  unfold bipbufUnused
  split
  · rw [cUInt_of_range (by omega) (by omega)]
    exact cInt_le (by omega)
  · rw [cULong_of_range (by omega) (by omega)]
    exact cInt_le (by omega)

/-- Region A has the bytes from `a_start` to `a_end`. -/
theorem length_regionA (h : me.Wf) : me.regionA.length = me.aEnd - me.aStart := by
  have hA : me.aEnd ≤ me.data.length := h.data_length ▸ h.end_le_size
  have hse := h.start_le_end
  exact length_readAt (by omega)

/-- The empty test looks at region A only, which is enough. -/
theorem isEmpty_iff (h : me.Wf) : bipbufIsEmpty me = true ↔ me.contents = [] := by
  have hlen := h.length_regionA
  constructor
  · intro he
    have heq : me.aStart = me.aEnd := by simpa [bipbufIsEmpty] using he
    have hb : me.bEnd = 0 := h.bEnd_of_off (h.reset_of_empty heq).2
    simp [contents, regionA, regionB, heq, hb]
  · intro he
    have hnil : me.regionA = [] := (List.append_eq_nil_iff.mp he).1
    rw [hnil, List.length_nil] at hlen
    have := h.start_le_end
    simp only [bipbufIsEmpty, beq_iff_eq]
    omega

/-- The switch test keeps the invariant and the queue: it only turns B on, and only when A starts
behind the end of B. -/
theorem checkForSwitchToB (h : me.Wf) : (checkForSwitchToB me).Wf := by
  obtain ⟨hsize, hdata, hse, hes, hbs, hoff, hreset⟩ := h
  unfold RaygunApm.checkForSwitchToB
  split
  · rename_i hlt
    rw [cULong_of_range (by omega) (by omega), cUInt_of_range (by omega) (by omega)] at hlt
    refine ⟨hsize, hdata, hse, hes, hbs, by simp, fun heq => ?_⟩
    have := (hreset heq).1
    dsimp only at heq
    omega
  · exact ⟨hsize, hdata, hse, hes, hbs, hoff, hreset⟩

end Bipbuf.Wf

/-- Switching to region B keeps the bytes of region A. -/
@[simp] theorem regionA_checkForSwitchToB (me : Bipbuf) :
    (checkForSwitchToB me).regionA = me.regionA := by
  unfold checkForSwitchToB
  split <;> rfl

/-- Switching to region B keeps its bytes. -/
@[simp] theorem regionB_checkForSwitchToB (me : Bipbuf) :
    (checkForSwitchToB me).regionB = me.regionB := by
  unfold checkForSwitchToB
  split <;> rfl

/-- Switching to region B keeps the memory. -/
@[simp] theorem data_checkForSwitchToB (me : Bipbuf) : (checkForSwitchToB me).data = me.data := by
  unfold checkForSwitchToB
  split <;> rfl

/-- Switching to region B keeps the size. -/
@[simp] theorem size_checkForSwitchToB (me : Bipbuf) : (checkForSwitchToB me).size = me.size := by
  unfold checkForSwitchToB
  split <;> rfl

/-! ## Offers -/

/-- A rejected offer leaves the buffer as it is. -/
theorem bipbufOffer_rejected {me : Bipbuf} {data : Bytes} {size : Int} (hsize : size ≠ 0)
    (h : (bipbufOffer me data size).2 = 0) : (bipbufOffer me data size).1 = me := by
  unfold bipbufOffer at h ⊢
  split at h
  · rename_i hfull
    rw [if_pos hfull]
  · exact absurd h hsize

/-- An accepted offer reports the offered size. -/
theorem bipbufOffer_accepted {me : Bipbuf} {data : Bytes} {size : Int}
    (h : (bipbufOffer me data size).2 ≠ 0) :
    ¬ bipbufUnused me < size ∧ (bipbufOffer me data size).2 = size := by
  unfold bipbufOffer at h ⊢
  split at h
  · exact absurd rfl h
  · rename_i hroom
    exact ⟨hroom, by rw [if_neg hroom]⟩

/-- What an accepted offer does to the fields, before the switch test. -/
theorem bipbufOffer_eq {me : Bipbuf} (h : me.Wf) {data : Bytes}
    (hroom : ¬ bipbufUnused me < data.length) :
    (bipbufOffer me data data.length).1 = checkForSwitchToB
      (if me.bInuse then
        { me with data := writeAt me.data me.bEnd data, bEnd := me.bEnd + data.length }
      else { me with data := writeAt me.data me.aEnd data, aEnd := me.aEnd + data.length }) := by
  have hunused := h.unused_le
  obtain ⟨hsize, _, hse, hes, hbs, _, _⟩ := h
  rw [bipbufOffer, if_neg hroom]
  split
  · rename_i hb
    rw [if_pos hb] at hunused
    rw [cUInt_of_range (by omega) (by omega), Int.toNat_natCast, List.take_length]
    congr 1
  · rename_i hb
    rw [if_neg hb] at hunused
    rw [cUInt_of_range (by omega) (by omega), Int.toNat_natCast, List.take_length]
    congr 1

/-- **An accepted offer appends to the region that is written** and keeps the invariant. -/
theorem bipbufOffer_spec {me : Bipbuf} (h : me.Wf) {data : Bytes} (hpos : 0 < data.length)
    (hroom : ¬ bipbufUnused me < data.length) :
    (bipbufOffer me data data.length).1.Wf ∧
      (bipbufOffer me data data.length).1.regionA
        = (if me.bInuse then me.regionA else me.regionA ++ data) ∧
      (bipbufOffer me data data.length).1.regionB
        = (if me.bInuse then me.regionB ++ data else []) := by
  rw [bipbufOffer_eq h hroom, regionA_checkForSwitchToB, regionB_checkForSwitchToB]
  have hunused := h.unused_le
  obtain ⟨hsize, hdata, hse, hes, hbs, hoff, hreset⟩ := h
  cases hb : me.bInuse with
  | true =>
      simp only [hb, if_true] at hunused ⊢
      -- Into region B, which ends where A starts: A keeps its bytes.
      have hne : me.aStart ≠ me.aEnd := fun heq => by simp [hb] at hreset; omega
      have hA : readAt (writeAt me.data me.bEnd data) me.aStart (me.aEnd - me.aStart)
          = readAt me.data me.aStart (me.aEnd - me.aStart) :=
        readAt_writeAt_above data (by omega) (by omega)
      have hold : readAt (writeAt me.data me.bEnd data) 0 me.bEnd = readAt me.data 0 me.bEnd :=
        readAt_writeAt_below data (by omega) (by omega)
      have hnew : readAt (writeAt me.data me.bEnd data) me.bEnd data.length = data :=
        readAt_writeAt data (by omega)
      refine ⟨?_, hA, ?_⟩
      · refine Bipbuf.Wf.checkForSwitchToB
          ⟨hsize, ?_, hse, hes, ?_, by simp, fun heq => absurd heq hne⟩
        · exact (length_writeAt (by omega)).trans hdata
        · show me.bEnd + data.length ≤ me.aStart
          omega
      · simp only [Bipbuf.regionB, readAt_add, hold, Nat.zero_add, hnew]
  | false =>
      simp only [hb, Bool.false_eq_true, if_false] at hunused ⊢
      -- Behind region A, which grows by the block.
      have hb0 : me.bEnd = 0 := hoff hb
      have hlen : me.aEnd + data.length - me.aStart = (me.aEnd - me.aStart) + data.length := by
        omega
      have hpos' : me.aStart + (me.aEnd - me.aStart) = me.aEnd := by omega
      have hold : readAt (writeAt me.data me.aEnd data) me.aStart (me.aEnd - me.aStart)
          = readAt me.data me.aStart (me.aEnd - me.aStart) :=
        readAt_writeAt_below data (by omega) (by omega)
      have hnew : readAt (writeAt me.data me.aEnd data) me.aEnd data.length = data :=
        readAt_writeAt data (by omega)
      refine ⟨?_, ?_, ?_⟩
      · refine Bipbuf.Wf.checkForSwitchToB ⟨hsize, ?_, ?_, ?_, hbs, fun _ => hb0, fun heq => ?_⟩
        · exact (length_writeAt (by omega)).trans hdata
        · show me.aStart ≤ me.aEnd + data.length
          omega
        · show me.aEnd + data.length ≤ me.size
          omega
        · dsimp only at heq
          omega
      · simp only [Bipbuf.regionA, hlen, readAt_add, hold, hpos', hnew]
      · simp only [Bipbuf.regionB, hb0, readAt_zero]

/-- Region B is empty unless it is in use. -/
theorem Bipbuf.Wf.regionB_of_off {me : Bipbuf} (h : me.Wf) (hb : me.bInuse = false) :
    me.regionB = [] := by
  rw [Bipbuf.regionB, h.bEnd_of_off hb, readAt_zero]

/-- **An accepted offer appends to the queue.** -/
theorem contents_bipbufOffer {me : Bipbuf} (h : me.Wf) {data : Bytes} (hpos : 0 < data.length)
    (hroom : ¬ bipbufUnused me < data.length) :
    (bipbufOffer me data data.length).1.contents = me.contents ++ data := by
  obtain ⟨-, hA, hB⟩ := bipbufOffer_spec h hpos hroom
  rw [Bipbuf.contents, Bipbuf.contents, hA, hB]
  cases hb : me.bInuse with
  | true => simp
  | false => simp [h.regionB_of_off hb]

/-- An offer writes nothing outside the block at the write position. -/
theorem readAt_bipbufOffer {me : Bipbuf} (h : me.Wf) {data : Bytes} {i n : Nat}
    (hroom : ¬ bipbufUnused me < data.length)
    (hdisj : i + n ≤ bipbufWritePos me ∨ bipbufWritePos me + data.length ≤ i) :
    readAt (bipbufOffer me data data.length).1.data i n = readAt me.data i n := by
  rw [bipbufOffer_eq h hroom, data_checkForSwitchToB]
  obtain ⟨hsize, hdata, hse, hes, hbs, hoff, hreset⟩ := h
  unfold bipbufWritePos at hdisj
  split at hdisj <;> rename_i hb <;> simp only [hb]
  · rcases hdisj with hlow | hhigh
    · exact readAt_writeAt_below data hlow (by omega)
    · exact readAt_writeAt_above data hhigh (by omega)
  · rcases hdisj with hlow | hhigh
    · exact readAt_writeAt_below data hlow (by omega)
    · exact readAt_writeAt_above data hhigh (by omega)

/-! ## Polls -/

/-- A poll of a non-empty part of region A. -/
theorem bipbufPoll_eq {me : Bipbuf} (h : me.Wf) {size : Nat} (hpos : 0 < size)
    (hsize : size ≤ me.aEnd - me.aStart) :
    bipbufPoll me size =
      (checkForSwitchToB
        (if me.aStart + size = me.aEnd then
          if me.bInuse then { me with aStart := 0, aEnd := me.bEnd, bEnd := 0, bInuse := false }
          else { me with aStart := 0, aEnd := 0 }
        else { me with aStart := me.aStart + size }), some me.aStart) := by
  obtain ⟨hlt, _, hse, hes, hbs, _, _⟩ := h
  have hne : bipbufIsEmpty me = false := by
    simp only [bipbufIsEmpty, beq_eq_false_iff_ne]
    omega
  have hcast : cUInt (me.aStart + size) = me.aStart + size := cUInt_of_range (by omega) (by omega)
  have hnat : ((me.aStart : Int) + size).toNat = me.aStart + size := by omega
  rw [bipbufPoll, hne, if_neg Bool.false_ne_true, hcast, if_neg (by omega), hnat]

/-- **A poll takes from the front of region A** and keeps the invariant; an exhausted region A is
replaced by B. The polled bytes stay where the returned pointer says. -/
theorem bipbufPoll_spec {me : Bipbuf} (h : me.Wf) {size : Nat} (hpos : 0 < size)
    (hsize : size ≤ me.aEnd - me.aStart) :
    (bipbufPoll me size).1.Wf ∧
      (bipbufPoll me size).1.regionA
        = (if me.aStart + size = me.aEnd then me.regionB else me.regionA.drop size) ∧
      (bipbufPoll me size).1.regionB
        = (if me.aStart + size = me.aEnd then [] else me.regionB) ∧
      (bipbufPoll me size).1.data = me.data ∧ (bipbufPoll me size).2 = some me.aStart := by
  rw [bipbufPoll_eq h hpos hsize]
  obtain ⟨hlt, hdata, hse, hes, hbs, hoff, hreset⟩ := h
  rw [regionA_checkForSwitchToB, regionB_checkForSwitchToB, data_checkForSwitchToB]
  by_cases hend : me.aStart + size = me.aEnd
  · simp only [if_pos hend]
    -- Region A is used up: B takes its place, or both are empty.
    cases hb : me.bInuse with
    | true =>
        simp only [if_true]
        refine ⟨Bipbuf.Wf.checkForSwitchToB ?_, ?_, ?_, trivial, trivial⟩
        · refine ⟨hlt, hdata, Nat.zero_le _, ?_, le_rfl, fun _ => rfl, fun _ => ⟨rfl, rfl⟩⟩
          show me.bEnd ≤ me.size
          omega
        · simp only [Bipbuf.regionA, Bipbuf.regionB, Nat.sub_zero]
        · simp only [Bipbuf.regionB, readAt_zero]
    | false =>
        simp only [Bool.false_eq_true, if_false]
        refine ⟨Bipbuf.Wf.checkForSwitchToB ?_, ?_, ?_, trivial, trivial⟩
        · exact ⟨hlt, hdata, le_rfl, Nat.zero_le _, (hoff hb).le, fun _ => hoff hb,
            fun _ => ⟨rfl, rfl⟩⟩
        · simp only [Bipbuf.regionA, Bipbuf.regionB, hoff hb, Nat.sub_zero]
        · simp only [Bipbuf.regionB, hoff hb, readAt_zero]
  · simp only [if_neg hend]
    -- A part of region A is left, and B is as before.
    refine ⟨Bipbuf.Wf.checkForSwitchToB ?_, ?_, rfl, trivial, trivial⟩
    · refine ⟨hlt, hdata, ?_, hes, ?_, hoff, fun heq => absurd heq hend⟩
      · show me.aStart + size ≤ me.aEnd
        omega
      · show me.bEnd ≤ me.aStart + size
        omega
    · simp only [Bipbuf.regionA, drop_readAt, Nat.sub_sub]

/-- The polled bytes are the front of region A. -/
theorem Bipbuf.Wf.readAt_aStart {me : Bipbuf} {size : Nat}
    (hsize : size ≤ me.aEnd - me.aStart) :
    readAt me.data me.aStart size = me.regionA.take size := by
  rw [Bipbuf.regionA, take_readAt _ hsize]

/-- **A poll takes from the front of the queue.** -/
theorem contents_bipbufPoll {me : Bipbuf} (h : me.Wf) {size : Nat} (hpos : 0 < size)
    (hsize : size ≤ me.aEnd - me.aStart) :
    (bipbufPoll me size).1.contents = me.contents.drop size := by
  obtain ⟨-, hA, hB, -⟩ := bipbufPoll_spec h hpos hsize
  have hlen := h.length_regionA
  rw [Bipbuf.contents, Bipbuf.contents, hA, hB, List.drop_append_of_le_length (by omega)]
  split
  · rename_i hend
    rw [List.drop_of_length_le (by omega), List.append_nil, List.nil_append]
  · rfl

end RaygunApm
