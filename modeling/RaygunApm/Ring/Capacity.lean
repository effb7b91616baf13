import RaygunApm.Ring.Ringbuf

/-! # The capacity of the bip buffer

An offer must fit into one piece, and the free memory of a bip buffer can be in two. What a buffer
takes in any case is little more than half of its size (`guarantees_iff`): region B is turned on as
soon as there is less room behind A than in front of it, and the room behind A is lost until A is
used up. -/

namespace RaygunApm

open ByteMemory

/-- What the switch test has seen to: behind A there is less room than in front of it exactly if B
is in use. -/
def Bipbuf.Balanced (me : Bipbuf) : Prop :=
  if me.bInuse then me.size - me.aEnd < me.aStart else me.aStart ≤ me.size - me.aEnd

/-- A new buffer is balanced. -/
theorem balanced_bipbufNew (memory : Bytes) : (bipbufNew memory).Balanced := Nat.zero_le _

/-! ## The invariant -/

/-- The switch test inside the range. -/
theorem checkForSwitchToB_eq {me : Bipbuf} (hsize : me.size < 2 ^ 32) (hse : me.aStart ≤ me.aEnd)
    (hes : me.aEnd ≤ me.size) (hbs : me.bEnd ≤ me.aStart) :
    checkForSwitchToB me
      = if me.size - me.aEnd < me.aStart - me.bEnd then { me with bInuse := true } else me := by
  unfold checkForSwitchToB
  rw [cULong_of_range (by omega) (by omega), cUInt_of_range (by omega) (by omega)]
  exact if_congr (by omega) rfl rfl

/-- Where A starts at the start of the memory, B is left alone. -/
theorem checkForSwitchToB_of_start {me : Bipbuf} (hstart : me.aStart = 0) (hzero : me.bEnd = 0) :
    checkForSwitchToB me = me := by
  rw [checkForSwitchToB, hstart, hzero]
  exact if_neg (Int.not_lt.mpr (Int.emod_nonneg _ (by decide)))

/-- **The switch test** establishes the balance, if it holds where B is in use already. -/
theorem balanced_checkForSwitchToB {me : Bipbuf} (h : (checkForSwitchToB me).Wf)
    (hinuse : me.bInuse = true → me.size - me.aEnd < me.aStart) :
    (checkForSwitchToB me).Balanced := by
  obtain ⟨hsize, -, hse, hes, hbs, hoff, -⟩ := h
  unfold checkForSwitchToB at hsize hse hes hbs hoff ⊢
  split at hsize
  next hlt =>
    -- B is turned on
    rw [if_pos hlt] at hse hes hbs ⊢
    dsimp only at hsize hse hes hbs
    rw [cULong_of_range (by omega) (by omega), cUInt_of_range (by omega) (by omega)] at hlt
    show me.size - me.aEnd < me.aStart
    omega
  next hlt =>
    rw [if_neg hlt] at hse hes hbs hoff ⊢
    rw [cULong_of_range (by omega) (by omega), cUInt_of_range (by omega) (by omega)] at hlt
    unfold Bipbuf.Balanced
    cases hb : me.bInuse with
    | true => exact hinuse hb
    | false =>
        have hzero := hoff hb
        show me.aStart ≤ me.size - me.aEnd
        omega

/-- An offer keeps the balance: behind A there is no more room than before. -/
theorem Bipbuf.Balanced.offer {me me' : Bipbuf} (h : me.Balanced) {data : Bytes} {size retval : Int}
    (hoffer : bipbufOffer me data size = (me', retval)) (hwf : me'.Wf) : me'.Balanced := by
  unfold bipbufOffer at hoffer
  split at hoffer
  next =>
    cases hoffer
    exact h
  next =>
    cases hb : me.bInuse with
    | true =>
        rw [Bipbuf.Balanced, hb, if_pos rfl] at h
        simp only [hb, if_true] at hoffer
        cases hoffer
        exact balanced_checkForSwitchToB hwf fun _ => h
    | false =>
        simp only [hb, Bool.false_eq_true, if_false] at hoffer
        cases hoffer
        exact balanced_checkForSwitchToB hwf fun hinuse => absurd hinuse (by simp)

/-- A poll of a part of region A keeps it: there is more room in front of A. -/
theorem Bipbuf.Balanced.poll {me : Bipbuf} (h : me.Balanced) (hwf : me.Wf) {size : Nat}
    (hpos : 0 < size) (hsize : size ≤ me.aEnd - me.aStart) : (bipbufPoll me size).1.Balanced := by
  have hwf' := (bipbufPoll_spec hwf hpos hsize).1
  rw [bipbufPoll_eq hwf hpos hsize] at hwf' ⊢
  by_cases hend : me.aStart + size = me.aEnd
  · -- B replaces A, or both are empty
    simp only [if_pos hend] at hwf' ⊢
    cases hb : me.bInuse with
    | true =>
        simp only [hb, if_true] at hwf' ⊢
        exact balanced_checkForSwitchToB hwf' fun hinuse => absurd hinuse (by simp)
    | false =>
        simp only [hb, Bool.false_eq_true, if_false] at hwf' ⊢
        exact balanced_checkForSwitchToB hwf' fun hinuse => absurd hinuse (by simp)
  · simp only [if_neg hend] at hwf' ⊢
    refine balanced_checkForSwitchToB hwf' fun hinuse => ?_
    have hbehind : me.size - me.aEnd < me.aStart := by
      rwa [Bipbuf.Balanced, if_pos hinuse] at h
    exact hbehind.trans_le (Nat.le_add_right _ _)

/-- A push leaves what the offer leaves. -/
theorem push_of_offer {me : Bipbuf} {inputBytes : Bytes} {me' : Bipbuf}
    (h : (RingbufCall.perform me (.push inputBytes)).1 = me') :
    ∃ retval, bipbufOffer me inputBytes (cInt inputBytes.length) = (me', retval) := by
  obtain ⟨offered, retval, hoffer⟩ : ∃ offered retval,
      bipbufOffer me inputBytes (cInt inputBytes.length) = (offered, retval) :=
    ⟨_, _, Prod.mk.eta.symm⟩
  rw [RingbufCall.perform, rbRgRingbufPush_of_offer hoffer] at h
  obtain rfl : offered = me' := h
  exact ⟨retval, hoffer⟩

/-- **One call** keeps the balance. -/
theorem Bipbuf.Balanced.perform {me : Bipbuf} (h : me.Balanced) (hwf : me.Wf) {call : RingbufCall}
    (hrange : call.InRange me) : (call.perform me).1.Balanced := by
  have hwf' := (perform_ringbufCall_spec hwf hrange).1
  cases call with
  | push inputBytes =>
      generalize hpush : (RingbufCall.perform me (.push inputBytes)).1 = me' at hwf' ⊢
      obtain ⟨retval, hoffer⟩ := push_of_offer hpush
      exact h.offer hoffer hwf'
  | shift length =>
      obtain ⟨hpos, hshift⟩ := hrange
      show (rbRgRingbufShift me length).1.Balanced
      rw [rbRgRingbufShift]
      split
      · exact h
      next hlt =>
        by_cases hsize : length ≤ me.aEnd - me.aStart
        · exact h.poll hwf hpos hsize
        · rw [bipbufPoll_turned_down hlt hshift hsize]
          exact h

/-- An offer does not change the size. -/
theorem size_bipbufOffer {me me' : Bipbuf} {data : Bytes} {size retval : Int}
    (hoffer : bipbufOffer me data size = (me', retval)) : me'.size = me.size := by
  unfold bipbufOffer at hoffer
  split at hoffer
  · cases hoffer
    rfl
  · cases hoffer
    rw [size_checkForSwitchToB]
    split <;> rfl

/-- A poll does not change the size. -/
theorem size_bipbufPoll (me : Bipbuf) (size : Nat) : (bipbufPoll me size).1.size = me.size := by
  unfold bipbufPoll
  split
  · rfl
  · split
    · rfl
    · rw [size_checkForSwitchToB]
      dsimp only
      split
      · split <;> rfl
      · rfl

/-- The size never changes. -/
theorem size_perform (me : Bipbuf) (call : RingbufCall) : (call.perform me).1.size = me.size := by
  cases call with
  | push inputBytes =>
      generalize hpush : (RingbufCall.perform me (.push inputBytes)).1 = me'
      obtain ⟨retval, hoffer⟩ := push_of_offer hpush
      exact size_bipbufOffer hoffer
  | shift length =>
      show (rbRgRingbufShift me length).1.size = me.size
      rw [rbRgRingbufShift]
      split
      · rfl
      · exact size_bipbufPoll me length

/-- **In every run** of calls in range. -/
theorem ringbufRun_balanced {memory : Bytes} (hcapacity : memory.length < 2 ^ 32)
    {calls : List RingbufCall}
    (h : Mealy.AllSteps RingbufCall.perform RingbufCall.InRange (bipbufNew memory) calls) :
    (ringbufRun memory calls).1.Wf ∧ (ringbufRun memory calls).1.Balanced ∧
      (ringbufRun memory calls).1.size = memory.length := by
  have hstep : ∀ (me : Bipbuf) (call : RingbufCall),
      me.Wf ∧ me.Balanced ∧ me.size = memory.length → call.InRange me →
        (call.perform me).1.Wf ∧ (call.perform me).1.Balanced ∧
          (call.perform me).1.size = memory.length := by
    rintro me call ⟨hwf, hbalanced, hsize⟩ hrange
    exact ⟨(perform_ringbufCall_spec hwf hrange).1, hbalanced.perform hwf hrange,
      (size_perform me call).trans hsize⟩
  exact Mealy.run_invariant_of_allSteps hstep
    ⟨bipbufNew_wf hcapacity, balanced_bipbufNew memory, rfl⟩ h

/-! ## What is free -/

/-- The free space at the write position, in a buffer whose size is an `int`. -/
theorem bipbufUnused_eq {me : Bipbuf} (h : me.Wf) (hsize : me.size < 2 ^ 31) :
    bipbufUnused me = if me.bInuse then (me.aStart : Int) - me.bEnd else me.size - me.aEnd := by
  obtain ⟨-, -, hse, hes, hbs, -, -⟩ := h
  unfold bipbufUnused
  split
  · rw [cUInt_of_range (by omega) (by omega), cInt, Int.bmod_eq_of_le (by omega) (by omega)]
  · rw [cULong_of_range (by omega) (by omega), cInt, Int.bmod_eq_of_le (by omega) (by omega)]

/-- `bipbuf_used` counts the bytes of the two regions. -/
theorem bipbufUsed_eq {me : Bipbuf} (h : me.Wf) (hsize : me.size < 2 ^ 31) :
    bipbufUsed me = (me.aEnd : Int) - me.aStart + me.bEnd := by
  obtain ⟨-, -, hse, hes, hbs, -, -⟩ := h
  have hA : cUInt (me.aEnd - me.aStart) = me.aEnd - me.aStart :=
    cUInt_of_range (by omega) (by omega)
  rw [bipbufUsed, hA, cUInt_of_range (by omega) (by omega), cInt,
    Int.bmod_eq_of_le (by omega) (by omega)]

/-- **Half of the size** is never out of reach, and one byte more. -/
theorem Bipbuf.Balanced.room {me : Bipbuf} (h : me.Balanced) (hwf : me.Wf) (hne : 0 < me.size)
    (hsize : me.size < 2 ^ 31) {n : Nat} (hpos : 0 < n) (hhalf : bipbufUsed me + n ≤ me.size / 2 + 1) :
    (n : Int) ≤ bipbufUnused me := by
  rw [bipbufUsed_eq hwf hsize] at hhalf
  rw [bipbufUnused_eq hwf hsize]
  unfold Bipbuf.Balanced at h
  obtain ⟨-, -, hse, hes, hbs, hoff, hreset⟩ := hwf
  cases hb : me.bInuse with
  | true =>
      -- what is lost behind A is less than half: A starts behind as much
      rw [hb, if_pos rfl] at h
      have hsome : me.aStart ≠ me.aEnd := fun heq => by simp [hb] at hreset; omega
      rw [if_pos rfl]
      omega
  | false =>
      -- there is as much room behind A as in front of it
      rw [hb, if_neg Bool.false_ne_true] at h
      have hzero := hoff hb
      rw [if_neg Bool.false_ne_true]
      by_cases hempty : me.aStart = me.aEnd
      · have hstart := (hreset hempty).1
        omega
      · omega

/-! ## The capacity -/

/-- Whatever has happened to the buffer, a string is taken as long as no more than so many bytes are
in it then. -/
def Guarantees (memory : Bytes) (n : Nat) : Prop :=
  ∀ calls, Mealy.AllSteps RingbufCall.perform RingbufCall.InRange (bipbufNew memory) calls →
    ∀ inputBytes, inputBytes ≠ [] →
      bipbufUsed (ringbufRun memory calls).1 + inputBytes.length ≤ n →
        (rbRgRingbufPush (ringbufRun memory calls).1 inputBytes).2 = .push inputBytes true

/-- A push for which there is room. -/
theorem rbRgRingbufPush_of_room {me : Bipbuf} {inputBytes : Bytes} (hne : inputBytes ≠ [])
    (hlt : inputBytes.length < 2 ^ 31) :
    (rbRgRingbufPush me inputBytes).2
      = .push inputBytes (decide ((inputBytes.length : Int) ≤ bipbufUnused me)) := by
  have hpos : 0 < inputBytes.length := List.length_pos_iff.mpr hne
  have hretval : (bipbufOffer me inputBytes inputBytes.length).2
      = if bipbufUnused me < inputBytes.length then 0 else inputBytes.length := by
    rw [bipbufOffer]
    split <;> rfl
  have htaken : (0 : Int) < (if bipbufUnused me < inputBytes.length then 0 else inputBytes.length) ↔
      (inputBytes.length : Int) ≤ bipbufUnused me := by
    split <;> omega
  simp only [rbRgRingbufPush, cInt_of_lt hlt, hretval, htaken]

/-- Half of the buffer is pushed and shifted, and a byte is left in the middle. -/
def middleCalls (half : Nat) : List RingbufCall :=
  .push (List.replicate (half + 1) 0) :: if half = 0 then [] else [.shift half]

/-- The buffer of the failing run, after the push of half of its memory and one byte more. -/
theorem push_middle {memory : Bytes} (hne : memory ≠ []) (hlt : memory.length < 2 ^ 31) {me' : Bipbuf}
    (hpush : (RingbufCall.perform (bipbufNew memory)
      (.push (List.replicate (memory.length / 2 + 1) 0))).1 = me') :
    me'.Wf ∧ me'.size = memory.length ∧ me'.aStart = 0 ∧ me'.aEnd = memory.length / 2 + 1 ∧
      me'.bEnd = 0 ∧ me'.bInuse = false := by
  have hpos : 0 < memory.length := List.length_pos_iff.mpr hne
  have hwf : (bipbufNew memory).Wf := bipbufNew_wf (by omega)
  have hlength : (List.replicate (memory.length / 2 + 1) (0 : UInt8)).length = memory.length / 2 + 1 :=
    List.length_replicate
  have hroom : ¬ bipbufUnused (bipbufNew memory)
      < (List.replicate (memory.length / 2 + 1) (0 : UInt8)).length := by
    rw [bipbufUnused_eq hwf hlt, hlength]
    simp only [bipbufNew, Bool.false_eq_true, if_false]
    omega
  obtain ⟨retval, hoffer⟩ := push_of_offer hpush
  rw [cInt_of_lt (by rw [hlength]; omega)] at hoffer
  have hoffered := congrArg Prod.fst hoffer
  have hwf' := (bipbufOffer_spec hwf (by rw [hlength]; omega) hroom).1
  rw [hoffered] at hwf'
  rw [bipbufOffer_eq hwf hroom] at hoffered
  simp only [bipbufNew, Bool.false_eq_true, if_false, Nat.zero_add, hlength] at hoffered
  -- there is nothing in front of A
  rw [checkForSwitchToB_of_start rfl rfl] at hoffered
  subst hoffered
  exact ⟨hwf', rfl, rfl, rfl, rfl, rfl⟩

/-- After the shift there is half of the memory in front of the byte, and no more behind it. -/
theorem shift_middle {me : Bipbuf} {half : Nat} (hwf : me.Wf) (hpos : 0 < half)
    (hsize : me.size = 2 * half ∨ me.size = 2 * half + 1) (hlt : me.size < 2 ^ 31)
    (hstart : me.aStart = 0) (hend : me.aEnd = half + 1) (hzero : me.bEnd = 0)
    (hoff : me.bInuse = false) :
    bipbufUsed (bipbufPoll me half).1 = 1 ∧ bipbufUnused (bipbufPoll me half).1 = half := by
  have hpart : half ≤ me.aEnd - me.aStart := by omega
  have hwf' := (bipbufPoll_spec hwf hpos hpart).1
  obtain ⟨size, aStart, aEnd, bEnd, bInuse, data⟩ := me
  obtain ⟨rfl, rfl, rfl, rfl⟩ : aStart = 0 ∧ aEnd = half + 1 ∧ bEnd = 0 ∧ bInuse = false :=
    ⟨hstart, hend, hzero, hoff⟩
  dsimp only at hsize hlt
  rw [bipbufPoll_eq hwf hpos hpart] at hwf' ⊢
  simp only [Nat.zero_add, Nat.ne_of_lt (Nat.lt_succ_self half), if_false] at hwf' ⊢
  have hused := bipbufUsed_eq hwf' ((size_checkForSwitchToB _).trans_lt hlt)
  have hunused := bipbufUnused_eq hwf' ((size_checkForSwitchToB _).trans_lt hlt)
  rw [hused, hunused, checkForSwitchToB_eq (by dsimp only; omega) (Nat.le_succ _)
    (by dsimp only; omega) (Nat.zero_le _)]
  split
  next hswitch =>
    refine ⟨?_, ?_⟩
    · dsimp only
      omega
    · dsimp only
      rw [if_pos rfl]
      omega
  next hkeep =>
    refine ⟨?_, ?_⟩
    · dsimp only
      omega
    · dsimp only at hkeep ⊢
      rw [if_neg Bool.false_ne_true]
      omega

/-- A run of two calls is the second call after the first one. -/
theorem ringbufRun_pair {memory : Bytes} {call call' : RingbufCall} {me : Bipbuf}
    (h : (call.perform (bipbufNew memory)).1 = me) :
    (ringbufRun memory [call, call']).1 = (call'.perform me).1 := by
  rw [ringbufRun, Mealy.run_cons, Mealy.run_singleton, h]

/-- In a run of two calls both are in range where each of them is. -/
theorem allSteps_pair {memory : Bytes} {call call' : RingbufCall} {me : Bipbuf}
    (h : (call.perform (bipbufNew memory)).1 = me) (hcall : call.InRange (bipbufNew memory))
    (hcall' : call'.InRange me) :
    Mealy.AllSteps RingbufCall.perform RingbufCall.InRange (bipbufNew memory) [call, call'] := by
  subst h
  exact ⟨hcall, hcall', trivial⟩

/-- The byte in the middle leaves half of the memory free in one piece. -/
theorem middleCalls_spec {memory : Bytes} (hne : memory ≠ []) (hlt : memory.length < 2 ^ 31) :
    Mealy.AllSteps RingbufCall.perform RingbufCall.InRange (bipbufNew memory)
        (middleCalls (memory.length / 2)) ∧
      bipbufUsed (ringbufRun memory (middleCalls (memory.length / 2))).1 = 1 ∧
      bipbufUnused (ringbufRun memory (middleCalls (memory.length / 2))).1
        = (memory.length / 2 : Nat) := by
  have hpos : 0 < memory.length := List.length_pos_iff.mpr hne
  have hlength : (List.replicate (memory.length / 2 + 1) (0 : UInt8)).length = memory.length / 2 + 1 :=
    List.length_replicate
  have hpushRange : RingbufCall.InRange (bipbufNew memory)
      (.push (List.replicate (memory.length / 2 + 1) 0)) := .inl (by rw [hlength]; omega)
  rw [middleCalls]
  split
  next hzero =>
    obtain ⟨me', hpush⟩ : ∃ me', (RingbufCall.perform (bipbufNew memory)
        (.push (List.replicate (memory.length / 2 + 1) 0))).1 = me' := ⟨_, rfl⟩
    rw [ringbufRun, Mealy.run_singleton, hpush]
    obtain ⟨hwf, hsize, hstart, hend, hb, hoff⟩ := push_middle hne hlt hpush
    refine ⟨⟨hpushRange, trivial⟩, ?_, ?_⟩
    · rw [bipbufUsed_eq hwf (by omega)]
      omega
    · rw [bipbufUnused_eq hwf (by omega), hoff, if_neg Bool.false_ne_true]
      omega
  next hzero =>
    obtain ⟨me', hpush⟩ : ∃ me', (RingbufCall.perform (bipbufNew memory)
        (.push (List.replicate (memory.length / 2 + 1) 0))).1 = me' := ⟨_, rfl⟩
    obtain ⟨hwf, hsize, hstart, hend, hb, hoff⟩ := push_middle hne hlt hpush
    have hshift : (RingbufCall.perform me' (.shift (memory.length / 2))).1
        = (bipbufPoll me' (memory.length / 2)).1 := by
      rw [RingbufCall.perform, rbRgRingbufShift, if_neg (by omega)]
    obtain ⟨hused, hunused⟩ := shift_middle hwf (Nat.pos_of_ne_zero hzero)
      (by rw [hsize]; omega) (by omega) hstart hend hb hoff
    rw [ringbufRun_pair hpush, hshift]
    exact ⟨allSteps_pair hpush hpushRange ⟨Nat.pos_of_ne_zero hzero, .inl (by omega)⟩, hused, hunused⟩

/-- **The capacity of a bip buffer** is one byte more than half of its size: in a buffer of which
more is expected, a byte in the middle is in the way. -/
theorem guarantees_iff {memory : Bytes} (hne : memory ≠ []) (hlt : memory.length < 2 ^ 31) (n : Nat) :
    Guarantees memory n ↔ n ≤ memory.length / 2 + 1 := by
  have hpos : 0 < memory.length := List.length_pos_iff.mpr hne
  constructor
  · intro h
    by_contra hmore
    obtain ⟨hrange, hused, hunused⟩ := middleCalls_spec hne hlt
    have hlength : (List.replicate (memory.length / 2 + 1) (0 : UInt8)).length
        = memory.length / 2 + 1 := List.length_replicate
    have hpush := h _ hrange (List.replicate (memory.length / 2 + 1) 0) (by simp)
      (by rw [hused, hlength]; omega)
    rw [rbRgRingbufPush_of_room (by simp) (by rw [hlength]; omega), hunused, hlength,
      decide_eq_false (by omega)] at hpush
    cases hpush
  · intro hn calls hrange inputBytes hbytes hused
    obtain ⟨hwf, hbalanced, hsize⟩ := ringbufRun_balanced (by omega) hrange
    have hlength : 0 < inputBytes.length := List.length_pos_iff.mpr hbytes
    have husedNonneg : 0 ≤ bipbufUsed (ringbufRun memory calls).1 := by
      rw [bipbufUsed_eq hwf (by omega)]
      have hse := hwf.start_le_end
      omega
    have hroom := hbalanced.room hwf (by omega) (by omega) hlength (by omega)
    rw [rbRgRingbufPush_of_room hbytes (by omega), decide_eq_true hroom]

/-- Of four bytes three are guaranteed. -/
theorem guarantees_iff_four : Guarantees [0, 0, 0, 0] 3 ↔ 3 ≤ 4 / 2 + 1 :=
  guarantees_iff (List.cons_ne_nil _ _) (by decide) 3

end RaygunApm
