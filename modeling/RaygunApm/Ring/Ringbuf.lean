import RaygunApm.Library.Mealy
import RaygunApm.Ring.Fifo

/-! # `Raygun::Apm::Ringbuf`

`raygun_ringbuf.c`: the bip buffer as a Ruby object. `push` narrows the length of the string to an
`int`, and `shift` leaves it to `bipbuf_poll` whether there is enough to shift, which compares with
the end of the memory and not with the end of region A. Between such calls the object is a byte
queue (`ringbufRun_fifo`). -/

namespace RaygunApm

open ByteMemory

/-- A call on a ring buffer. The length of a shift is a Ruby Integer that is not negative. -/
inductive RingbufCall where
  | push (inputBytes : Bytes)
  | shift (length : Nat)

/-- What a call comes to. -/
inductive RingbufResult where
  /-- `Qtrue` or `Qfalse`, for the string that was pushed. -/
  | push (inputBytes : Bytes) (retval : Bool)
  /-- A string or `Qnil`. -/
  | shift (retval : Option Bytes)
  /-- `NUM2UINT` raises. -/
  | rangeError
deriving DecidableEq

/-- `rb_rg_ringbuf_push`. -/
def rbRgRingbufPush (bipbuf : Bipbuf) (inputBytes : Bytes) : Bipbuf × RingbufResult :=
  let offered := bipbufOffer bipbuf inputBytes (cInt inputBytes.length)
  (offered.1, .push inputBytes (0 < offered.2))

/-- `rb_rg_ringbuf_shift`. The string is made of what lies behind the pointer after the poll. -/
def rbRgRingbufShift (bipbuf : Bipbuf) (length : Nat) : Bipbuf × RingbufResult :=
  if 2 ^ 32 ≤ length then (bipbuf, .rangeError)
  else
    let polled := bipbufPoll bipbuf length
    (polled.1, .shift (polled.2.map fun ptr => readAt polled.1.data ptr length))

/-- One call. -/
def RingbufCall.perform (bipbuf : Bipbuf) : RingbufCall → Bipbuf × List RingbufResult
  | .push inputBytes =>
      ((rbRgRingbufPush bipbuf inputBytes).1, [(rbRgRingbufPush bipbuf inputBytes).2])
  | .shift length => ((rbRgRingbufShift bipbuf length).1, [(rbRgRingbufShift bipbuf length).2])

/-- The calls on a new ring buffer, one after the other. -/
def ringbufRun (memory : Bytes) : List RingbufCall → Bipbuf × List RingbufResult :=
  Mealy.run RingbufCall.perform (bipbufNew memory)

/-! ## A queue of bytes -/

/-- The bytes a successful push puts in. -/
def RingbufResult.pushed : RingbufResult → Bytes
  | .push inputBytes true => inputBytes
  | .push _ false => []
  | .shift _ => []
  | .rangeError => []

/-- The bytes a successful shift takes out. -/
def RingbufResult.shifted : RingbufResult → Bytes
  | .push _ _ => []
  | .shift retval => retval.getD []
  | .rangeError => []

/-- The call has failed. -/
def RingbufResult.Failed : RingbufResult → Prop
  | .push _ retval => retval = false
  | .shift retval => retval = none
  | .rangeError => True

/-- The length of the string survives the conversion to `int`, or the offer of what is left of it is
empty or turned down. -/
def PushInRange (bipbuf : Bipbuf) (inputBytes : Bytes) : Prop :=
  inputBytes.length < 2 ^ 31 ∨ cInt inputBytes.length = 0 ∨
    bipbufUnused bipbuf < cInt inputBytes.length

/-- Region A holds as many bytes, or the call is turned down for another reason: there is nothing to
shift, the memory ends before, or the length is no `unsigned int`. -/
def ShiftInRange (bipbuf : Bipbuf) (length : Nat) : Prop :=
  length ≤ bipbuf.aEnd - bipbuf.aStart ∨ bipbuf.aStart = bipbuf.aEnd ∨
    (bipbuf.size : Int) < cUInt (bipbuf.aStart + length) ∨ 2 ^ 32 ≤ length

/-- The call stays clear of what the code does not check. -/
def RingbufCall.InRange (bipbuf : Bipbuf) : RingbufCall → Prop
  | .push inputBytes => PushInRange bipbuf inputBytes
  | .shift length => 1 ≤ length ∧ ShiftInRange bipbuf length

/-- A length in the range of `int`. -/
theorem cInt_of_lt {n : Nat} (h : n < 2 ^ 31) : cInt n = n := by
  rw [cInt, Int.bmod_def]
  split <;> omega

/-- An offer of no bytes at most turns region B on. -/
theorem bipbufOffer_zero {me : Bipbuf} (h : me.Wf) (data : Bytes) :
    (bipbufOffer me data 0).1.Wf ∧ (bipbufOffer me data 0).1.contents = me.contents ∧
      (bipbufOffer me data 0).2 = 0 := by
  have hb : cUInt ((me.bEnd : Int) + 0) = me.bEnd := by
    have hsize := h.size_lt
    have hle := h.bEnd_le_start.trans (h.start_le_end.trans h.end_le_size)
    rw [Int.add_zero, cUInt_of_range (by omega) (by omega)]
  have ha : cUInt ((me.aEnd : Int) + 0) = me.aEnd := by
    have hsize := h.size_lt
    have hle := h.end_le_size
    rw [Int.add_zero, cUInt_of_range (by omega) (by omega)]
  rw [bipbufOffer]
  split
  · exact ⟨h, rfl, rfl⟩
  · simp only [hb, ha, Int.toNat_zero, List.take_zero, Int.toNat_natCast, writeAt_nil, ite_self]
    exact ⟨h.checkForSwitchToB, by simp only [Bipbuf.contents, regionA_checkForSwitchToB,
      regionB_checkForSwitchToB], trivial⟩

/-- A push by what the offer comes to. -/
theorem rbRgRingbufPush_of_offer {me me' : Bipbuf} {inputBytes : Bytes} {retval : Int}
    (h : bipbufOffer me inputBytes (cInt inputBytes.length) = (me', retval)) :
    rbRgRingbufPush me inputBytes = (me', .push inputBytes (0 < retval)) := by
  rw [rbRgRingbufPush, h]

/-- **A push in range** puts its string at the end, or fails and changes nothing. -/
theorem rbRgRingbufPush_spec {me : Bipbuf} (h : me.Wf) {inputBytes : Bytes}
    (hrange : PushInRange me inputBytes) :
    ∃ me' retval, rbRgRingbufPush me inputBytes = (me', .push inputBytes retval) ∧ me'.Wf ∧
      me'.contents = if retval then me.contents ++ inputBytes else me.contents := by
  by_cases hfull : bipbufUnused me < cInt inputBytes.length
  · have hoffer : bipbufOffer me inputBytes (cInt inputBytes.length) = (me, 0) := by
      rw [bipbufOffer, if_pos hfull]
    exact ⟨me, false, rbRgRingbufPush_of_offer hoffer, h, rfl⟩
  · by_cases hzero : cInt inputBytes.length = 0
    · obtain ⟨hwf, hcontents, hretval⟩ := bipbufOffer_zero h inputBytes
      have hoffer : bipbufOffer me inputBytes (cInt inputBytes.length) =
          ((bipbufOffer me inputBytes 0).1, 0) := by
        rw [hzero]
        exact Prod.ext rfl hretval
      exact ⟨_, false, rbRgRingbufPush_of_offer hoffer, hwf, hcontents⟩
    · -- there is room, and the length has survived the conversion
      have hlt : inputBytes.length < 2 ^ 31 := by
        rcases hrange with hlt | hzero' | hfull'
        · exact hlt
        · exact absurd hzero' hzero
        · exact absurd hfull' hfull
      have hcint := cInt_of_lt hlt
      rw [hcint] at hfull hzero
      have hpos : 0 < inputBytes.length := by omega
      have hretval : (bipbufOffer me inputBytes inputBytes.length).2 = inputBytes.length := by
        rw [bipbufOffer, if_neg hfull]
      have hoffer : bipbufOffer me inputBytes (cInt inputBytes.length) =
          ((bipbufOffer me inputBytes inputBytes.length).1, (inputBytes.length : Int)) := by
        rw [hcint]
        exact Prod.ext rfl hretval
      have htrue : decide (0 < (inputBytes.length : Int)) = true := by simpa using hpos
      refine ⟨_, true, ?_, (bipbufOffer_spec h hpos hfull).1, contents_bipbufOffer h hpos hfull⟩
      rw [rbRgRingbufPush_of_offer hoffer, htrue]

/-- A poll for a shift in range is turned down if region A does not hold as many bytes. -/
theorem bipbufPoll_turned_down {me : Bipbuf} {length : Nat} (hlt : ¬ 2 ^ 32 ≤ length)
    (hrange : ShiftInRange me length) (hmore : ¬ length ≤ me.aEnd - me.aStart) :
    bipbufPoll me length = (me, none) := by
  rw [bipbufPoll]
  split
  · rfl
  · rename_i hempty
    rw [if_pos]
    rcases hrange with hle | hsame | hover | hbig
    · exact absurd hle hmore
    · exact absurd (by simpa [bipbufIsEmpty] using hsame) hempty
    · exact hover
    · exact absurd hbig hlt

/-- **A shift in range** takes its string from the front, or fails and changes nothing. -/
theorem rbRgRingbufShift_spec {me : Bipbuf} (h : me.Wf) {length : Nat} (hpos : 1 ≤ length)
    (hrange : ShiftInRange me length) :
    (rbRgRingbufShift me length).1.Wf ∧
      me.contents = (rbRgRingbufShift me length).2.shifted ++
        (rbRgRingbufShift me length).1.contents ∧
      ((rbRgRingbufShift me length).2.Failed →
        (rbRgRingbufShift me length).1.contents = me.contents) := by
  rw [rbRgRingbufShift]
  split
  · exact ⟨h, rfl, fun _ => rfl⟩
  · rename_i hlt
    by_cases hsize : length ≤ me.aEnd - me.aStart
    · obtain ⟨hwf, -, -, hdata, hptr⟩ := bipbufPoll_spec h hpos hsize
      have hlength := h.length_regionA
      dsimp only
      rw [hptr, hdata, Option.map_some, Bipbuf.Wf.readAt_aStart hsize, contents_bipbufPoll h hpos hsize,
        RingbufResult.shifted, Option.getD_some]
      refine ⟨hwf, ?_, by simp [RingbufResult.Failed]⟩
      -- a poll takes from region A, which comes first
      have htake : me.regionA.take length = me.contents.take length := by
        rw [Bipbuf.contents, List.take_append_of_le_length (by omega)]
      rw [htake, List.take_append_drop]
    · rw [bipbufPoll_turned_down hlt hrange hsize]
      exact ⟨h, rfl, fun _ => rfl⟩

/-- **One call**: what it puts in comes last, what it takes out came first, and a call that fails
changes nothing. -/
theorem perform_ringbufCall_spec {me : Bipbuf} (h : me.Wf) {call : RingbufCall}
    (hrange : call.InRange me) :
    (call.perform me).1.Wf ∧
      me.contents ++ (call.perform me).2.flatMap RingbufResult.pushed =
        (call.perform me).2.flatMap RingbufResult.shifted ++ (call.perform me).1.contents ∧
      ((∀ result ∈ (call.perform me).2, result.Failed) →
        (call.perform me).1.contents = me.contents) := by
  cases call with
  | push inputBytes =>
      obtain ⟨me', retval, hpush, hwf, hcontents⟩ := rbRgRingbufPush_spec h hrange
      rw [RingbufCall.perform, hpush]
      cases retval with
      | true =>
          refine ⟨hwf, ?_, fun hfailed => ?_⟩
          · simp only [hcontents, List.flatMap_singleton, RingbufResult.pushed,
              RingbufResult.shifted, if_true, List.nil_append]
          · have hretval : true = false := hfailed _ (List.mem_singleton_self _)
            exact absurd hretval Bool.noConfusion
      | false => exact ⟨hwf, by simpa [RingbufResult.pushed, RingbufResult.shifted] using hcontents.symm,
          fun _ => hcontents⟩
  | shift length =>
      obtain ⟨hwf, hcontents, hfailed⟩ := rbRgRingbufShift_spec h hrange.1 hrange.2
      have hpushed : (rbRgRingbufShift me length).2.pushed = [] := by
        rw [rbRgRingbufShift]
        split <;> rfl
      refine ⟨hwf, ?_, fun hall => hfailed (hall _ (List.mem_singleton_self _))⟩
      simp [RingbufCall.perform, hpushed, ← hcontents]

/-- **Runs are accounted for**: what was pushed is what was shifted, followed by what is left. -/
theorem ringbufRun_accounting {memory : Bytes} (hcapacity : memory.length < 2 ^ 32)
    {calls : List RingbufCall}
    (h : Mealy.AllSteps RingbufCall.perform RingbufCall.InRange (bipbufNew memory) calls) :
    (ringbufRun memory calls).1.Wf ∧
      (ringbufRun memory calls).2.flatMap RingbufResult.pushed =
        (ringbufRun memory calls).2.flatMap RingbufResult.shifted ++
          (ringbufRun memory calls).1.contents := by
  have hstep : ∀ (me : Bipbuf) (call : RingbufCall) (held : Bytes),
      me.Wf ∧ me.contents = held → call.InRange me → ∃ held',
        ((call.perform me).1.Wf ∧ (call.perform me).1.contents = held') ∧
          held ++ (call.perform me).2.flatMap RingbufResult.pushed =
            (call.perform me).2.flatMap RingbufResult.shifted ++ held' := by
    rintro me call held ⟨hwf, rfl⟩ hrange
    obtain ⟨hwf', hcontents, -⟩ := perform_ringbufCall_spec hwf hrange
    exact ⟨_, ⟨hwf', rfl⟩, hcontents⟩
  obtain ⟨held, ⟨hwf, hheld⟩, hrun⟩ := Mealy.run_accounting hstep
    ⟨bipbufNew_wf hcapacity, contents_bipbufNew memory⟩ h
  rw [List.nil_append, ← hheld] at hrun
  exact ⟨hwf, hrun⟩

/-- **A byte queue.** In a run on a new ring buffer whose pushes are of strings shorter than `2 ^
31` bytes (or turned down) and whose shifts are of at least one byte and of no more than region A
holds (or turned down): after every call the bytes shifted so far are a prefix of the bytes pushed
so far, and a call that fails leaves the contents as they are. -/
theorem ringbufRun_fifo (memory : Bytes) (hcapacity : memory.length < 2 ^ 32)
    (calls : List RingbufCall)
    (h : Mealy.AllSteps RingbufCall.perform RingbufCall.InRange (bipbufNew memory) calls) :
    (∀ before, before <+: calls →
      (ringbufRun memory before).2.flatMap RingbufResult.shifted <+:
        (ringbufRun memory before).2.flatMap RingbufResult.pushed) ∧
    ∀ before call after, calls = before ++ call :: after →
      let me := (ringbufRun memory before).1
      (∀ result ∈ (call.perform me).2, result.Failed) →
        (call.perform me).1.contents = me.contents := by
  constructor
  · intro before hbefore
    obtain ⟨-, haccount⟩ := ringbufRun_accounting hcapacity (h.of_isPrefix hbefore)
    exact ⟨_, haccount.symm⟩
  · rintro before call after rfl me
    obtain ⟨hwf, -⟩ := ringbufRun_accounting hcapacity (h.of_isPrefix (List.prefix_append ..))
    exact (perform_ringbufCall_spec hwf h.of_split).2.2

/-- Shifts that do not line up with the pushes, the last one of a byte from the start of the memory.
-/
theorem ringbufRun_fifo_wraps :
    (ringbufRun [0, 0, 0, 0] [.push [1, 2, 3], .shift 2, .push [4], .shift 1, .shift 1]).2.flatMap
        RingbufResult.shifted <+:
      (ringbufRun [0, 0, 0, 0] [.push [1, 2, 3], .shift 2, .push [4], .shift 1, .shift 1]).2.flatMap
        RingbufResult.pushed :=
  (ringbufRun_fifo [0, 0, 0, 0] (by decide)
    [.push [1, 2, 3], .shift 2, .push [4], .shift 1, .shift 1]
    ⟨.inl (by decide), ⟨by decide, .inl (by decide)⟩, .inl (by decide),
      ⟨by decide, .inl (by decide)⟩, ⟨by decide, .inl (by decide)⟩, trivial⟩).1 _
    (List.prefix_refl _)

/-- A shift of two bytes from a ring buffer that holds one returns two. -/
theorem ringbufRun_shifts_more :
    ¬ (ringbufRun [0, 0, 0, 0] [.push [0x61], .shift 2]).2.flatMap RingbufResult.shifted <+:
      (ringbufRun [0, 0, 0, 0] [.push [0x61], .shift 2]).2.flatMap RingbufResult.pushed := by
  decide

end RaygunApm
