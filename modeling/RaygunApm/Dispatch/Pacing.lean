import RaygunApm.Dispatch.Udp
import RaygunApm.Ring.Ringbuf

/-! # The pace of the UDP dispatcher

The UDP thread counts the bytes that it polls after a wakeup, and pauses when they are as many as
the receive buffer of the agent takes. It does so only while the ring is at most half full. The
message that is polled in front of the pause is sent behind it, and the count has forgotten it by
then: so a burst between two pauses is shorter than the receive buffer and one message together
(`udp_paced`). -/

namespace RaygunApm

open ByteMemory

namespace Dispatcher

variable {pid : UInt32} {s : Dispatcher}

/-! ## The property -/

/-- In a pause, of the round or of the jitter buffer. -/
def Pausing (s : Dispatcher) : Bool :=
  match s.location with
  | .waiting | .jittering _ _ => true
  | _ => false

/-- The step begins a pause. -/
def BeginsPause (s : Dispatcher) (input : DispatchInput) : Prop :=
  s.Pausing = false ∧ (s.step .udp input).1.Pausing = true

/-- The ring holds at most half of its size. -/
def AtMostHalf (s : Dispatcher) : Prop := bipbufUsed s.data.ringbuf ≤ (rgRingbufSize / 2 : Nat)

instance (s : Dispatcher) (input : DispatchInput) : Decidable (s.BeginsPause input) :=
  inferInstanceAs (Decidable (_ ∧ _))

instance (s : Dispatcher) : Decidable s.AtMostHalf := inferInstanceAs (Decidable (_ ≤ _))

/-- The step belongs to a burst of a ring that is at most half full: it begins no pause. -/
def InBurst (s : Dispatcher) (input : DispatchInput) : Prop :=
  ¬ s.BeginsPause input ∧ (s.step .udp input).1.AtMostHalf

instance (s : Dispatcher) (input : DispatchInput) : Decidable (s.InBurst input) :=
  inferInstanceAs (Decidable (_ ∧ _))

/-- The bytes given to the send function. -/
def sentBytes (os : List DispatchOutput) : Nat := (os.flatMap DispatchOutput.sentPayload).flatten.length

@[simp] theorem sentBytes_append (os os' : List DispatchOutput) :
    sentBytes (os ++ os') = sentBytes os + sentBytes os' := by
  simp [sentBytes, List.flatMap_append]

/-- A poll and a send of a payload send the bytes of the payload. -/
@[simp] theorem sentBytes_polled_sent (payload payload' : Bytes) :
    sentBytes [.polled payload, .sent payload'] = payload'.length := by
  simp [sentBytes, DispatchOutput.sentPayload]

@[simp] theorem sentBytes_sent (payload : Bytes) : sentBytes [.sent payload] = payload.length := by
  simp [sentBytes, DispatchOutput.sentPayload]

/-- The size of the receive buffer is what it was. -/
theorem receiveBufferSize_produce (data : SinkData Bipbuf) (input : DispatchInput) :
    (produce data input).1.receiveBufferSize = data.receiveBufferSize := by
  have hsink : ∀ (buf : Bytes) (event : Bool) (buflen : RgLength) (data : SinkData Bipbuf),
      (rbRgBatchedSink bipbufRing buf event buflen data).1.receiveBufferSize
        = data.receiveBufferSize := by
    intro buf event buflen data
    have htrack : (data.trackBufUsed bipbufRing).receiveBufferSize = data.receiveBufferSize := by
      unfold SinkData.trackBufUsed
      dsimp only
      split <;> rfl
    rw [← htrack]
    unfold rbRgBatchedSink
    dsimp only
    split
    · rfl
    · split
      · unfold sinkIntoNewBatch
        split
        · rfl
        · cases event <;> rfl
      · split <;> rfl
  cases input with
  | call c =>
      cases c with
      | null => exact hsink _ _ _ _
      | event c => exact hsink _ _ _ _
  | _ => rfl

/-- What holds of every state of the dispatcher: the ring holds whole messages, the inner loop has
emptied it, and the message of a jitter pause is no larger than the largest command. -/
structure Sound (pid : UInt32) (receiveBufferSize : Int) (s : Dispatcher) : Prop where
  tiled : s.RingTiled pid
  receiveBufferSize : s.data.receiveBufferSize = receiveBufferSize
  emptied : s.location = .afterInner → bipbufIsEmpty s.data.ringbuf
  jittering : ∀ ptr size, s.location = .jittering ptr size → size.toNatClampNeg ≤ rgMaxCommandSize

variable {receiveBufferSize : Int}

/-- A step of a producer leaves the thread where it is, which is not behind the inner loop. -/
theorem Sound.produce (h : s.Sound pid receiveBufferSize) (input : DispatchInput)
    (hswitch : s.location.CanSwitch = true) :
    ({ s with data := (produce s.data input).1 } : Dispatcher).Sound pid receiveBufferSize := by
  obtain ⟨as, bs, hqueued⟩ := h.tiled
  obtain ⟨as', bs', hqueued', -⟩ := produce_ring hqueued input
  refine ⟨⟨as', bs', hqueued'⟩, (receiveBufferSize_produce _ _).trans h.receiveBufferSize, ?_,
    h.jittering⟩
  intro hlocation
  have hafter : s.location = .afterInner := hlocation
  rw [hafter] at hswitch
  cases hswitch

/-- What the UDP thread does in a step, when its ring holds whole messages. -/
inductive Moves (s : Dispatcher) : Dispatcher → List DispatchOutput → Prop
  | wake (hlocation : s.location = .waiting) : Moves s { s with location := .outer } []
  | round (hlocation : s.location = .outer)
      (hround : s.data.running = true ∨ bipbufIsEmpty s.data.ringbuf = false) :
      Moves s { s with bytesToSendOnWakeup := 0, location := .inner } []
  | finish (hlocation : s.location = .outer) : Moves s { s with location := .done } []
  | jitter (hlocation : s.location = .inner) (m : Message) (ringbuf : Bipbuf) (count : Int) (ptr : Nat)
      (hcount : count = cInt (s.bytesToSendOnWakeup + m.size))
      (hreached : s.data.receiveBufferSize ≤ count)
      (hhalf : bipbufUsed ringbuf ≤ (rgRingbufSize / 2 : Nat)) :
      Moves s
        { s with
          data := { s.data with ringbuf := ringbuf }
          bytesToSendOnWakeup := count
          location := .jittering ptr (Int16.ofNat m.size) } [.polled m.bytes]
  | poll (hlocation : s.location = .inner) (m : Message) (ringbuf : Bipbuf) (count : Int)
      (hcount : count = cInt (s.bytesToSendOnWakeup + m.size))
      (hgoes : bipbufUsed ringbuf ≤ (rgRingbufSize / 2 : Nat) → count < s.data.receiveBufferSize) :
      Moves s
        { s with
          data := { s.data with ringbuf := ringbuf }
          bytesToSendOnWakeup := count
          payload := m.bytes
          location := .sending (Int16.ofNat m.size) } [.polled m.bytes, .sent m.bytes]
  | drained (hlocation : s.location = .inner) (hempty : bipbufIsEmpty s.data.ringbuf = true) :
      Moves s { s with location := .afterInner } []
  | pause (hlocation : s.location = .afterInner) (hrunning : s.data.running = true) :
      Moves s { s with location := .waiting } []
  | stop (hlocation : s.location = .afterInner) (hrunning : s.data.running = false) :
      Moves s { s with location := .outer } []
  | resume (ptr : Nat) (size : RgLength) (hlocation : s.location = .jittering ptr size) :
      Moves s
        { s with
          jitteredSends := s.jitteredSends + 1
          bytesToSendOnWakeup := 0
          payload := readAt s.data.ringbuf.data ptr size.toNatClampNeg
          location := .sending size }
        [.sent (readAt s.data.ringbuf.data ptr size.toNatClampNeg)]
  | returned (size : RgLength) (bytesSent failedSends : UInt64) (hlocation : s.location = .sending size) :
      Moves s
        { s with bytesSent := bytesSent, failedSends := failedSends, location := .inner } []
  | done (hlocation : s.location = .done) : Moves s s []

/-- **What the UDP thread does in a step.** -/
theorem sinkThread_moves (ok : Bool) (h : s.RingTiled pid) :
    Moves s (s.sinkThread .udp ok).1 (s.sinkThread .udp ok).2 := by
  obtain ⟨as, bs, -, ht⟩ := h
  unfold sinkThread
  cases hlocation : s.location with
  | waiting => exact .wake hlocation
  | outer =>
      dsimp only
      split
      next hround =>
        refine .round hlocation (hround.imp id fun hmore => ?_)
        simpa using hmore
      next => exact .finish hlocation
  | inner =>
      dsimp only
      split
      next hmore =>
        cases as with
        | nil => exact absurd (ht.isEmpty_iff.mpr rfl) hmore
        | cons m as =>
            have hsize : (Int16.ofNat m.size).toInt = m.size :=
              Int16.toInt_ofNat_of_lt (lt_of_le_of_lt m.max_size (by decide))
            rw [drain_eq .udp ht, hsize]
            dsimp only
            split
            next hjitters =>
              simp only [jitters, decide_eq_true_eq] at hjitters
              exact .jitter hlocation m _ _ _ rfl hjitters.2.1 hjitters.2.2
            next hgoes =>
              simp only [jitters, decide_eq_true_eq, not_and] at hgoes
              refine .poll hlocation m _ _ rfl fun hhalf => ?_
              exact not_le.mp fun hreached => hgoes trivial hreached hhalf
      next hempty => exact .drained hlocation (by simpa using hempty)
  | afterInner =>
      dsimp only
      split
      next hrunning => exact .pause hlocation hrunning
      next hrunning => exact .stop hlocation (by simpa using hrunning)
  | jittering ptr size => exact .resume ptr size hlocation
  | sending size =>
      dsimp only
      split
      next => exact .returned size _ _ hlocation
      next => exact .returned size _ _ hlocation
  | done => exact .done hlocation

/-- A step of the thread keeps a state sound, when the ring goes on to hold whole messages. -/
theorem Moves.sound {s' : Dispatcher} {os : List DispatchOutput} (hmoves : Moves s s' os)
    (h : s.Sound pid receiveBufferSize) (htiled : s'.RingTiled pid) :
    s'.Sound pid receiveBufferSize := by
  refine ⟨htiled, ?_, ?_, ?_⟩
  · cases hmoves <;> exact h.receiveBufferSize
  · intro hlocation
    cases hmoves with
    | drained hinner hempty => exact hempty
    | done hdone => exact h.emptied hlocation
    | _ => cases hlocation
  · intro ptr size hlocation
    cases hmoves with
    | jitter hinner m ringbuf count ptr hcount hreached hhalf =>
        obtain ⟨-, rfl⟩ := Location.jittering.inj hlocation
        rw [m.size_toNat]
        exact m.max_size
    | done hdone => exact h.jittering ptr size hlocation
    | _ => cases hlocation

/-- **Every step keeps a state sound.** -/
theorem Sound.step (h : s.Sound pid receiveBufferSize) (input : DispatchInput) :
    (s.step .udp input).1.Sound pid receiveBufferSize := by
  by_cases hproducer : ∀ ok, input ≠ .dispatch ok
  · rw [step_produce .udp s hproducer]
    split
    next hswitch => exact h.produce input hswitch
    next => exact h
  · obtain ⟨ok, hok⟩ := not_forall_not.mp hproducer
    have htiled := h.tiled.step .udp input
    subst hok
    exact (sinkThread_moves ok h.tiled).sound h htiled

/-- A dispatcher that was just set up is sound. -/
theorem sound_fresh (pid : UInt32) {memory : Bytes} (hmemory : memory.length < 2 ^ 32)
    (receiveBufferSize : Int) :
    (fresh pid memory receiveBufferSize).Sound pid receiveBufferSize :=
  ⟨⟨[], [], fresh_queued pid hmemory receiveBufferSize⟩, rfl, by simp [fresh], by simp [fresh]⟩

/-! ## Bursts -/

/-- In a burst that has sent so many bytes: the count has missed one message at most, and is below
the size of the receive buffer. -/
def Paced (receiveBufferSize : Int) (sent : Nat) (s : Dispatcher) : Prop :=
  match s.location with
  | .waiting | .jittering _ _ => sent = 0
  | .outer => sent = 0 ∨ (sent < max receiveBufferSize 1 + rgMaxCommandSize ∧
      s.data.running = false ∧ bipbufIsEmpty s.data.ringbuf)
  | .inner | .sending _ => 0 ≤ s.bytesToSendOnWakeup ∧
      s.bytesToSendOnWakeup < max receiveBufferSize 1 ∧
      sent ≤ s.bytesToSendOnWakeup + rgMaxCommandSize
  | .afterInner | .done => sent < max receiveBufferSize 1 + rgMaxCommandSize

/-- A burst is shorter than the receive buffer and one message together. -/
theorem Paced.lt {sent : Nat} (h : s.Paced receiveBufferSize sent) :
    sent < max receiveBufferSize 1 + rgMaxCommandSize := by
  unfold Paced at h
  have hpos : 0 < max receiveBufferSize 1 := lt_of_lt_of_le one_pos (le_max_right _ _)
  split at h
  · omega
  · omega
  · omega
  · omega
  · omega
  · exact h
  · exact h

/-- A count does not wrap, as long as it is below the size of the receive buffer. -/
theorem cInt_count {count : Int} (hlimit : receiveBufferSize ≤ 2 ^ 31 - rgMaxCommandSize)
    (hcount : 0 ≤ count) (hlt : count < max receiveBufferSize 1) (m : Message) :
    cInt (count + m.size) = count + m.size := by
  have hmax : m.size ≤ rgMaxCommandSize := m.max_size
  obtain ⟨n, rfl⟩ := Int.eq_ofNat_of_zero_le hcount
  have hsum : n + m.size < 2 ^ 31 := by
    rw [rgMaxCommandSize] at *
    omega
  exact_mod_cast cInt_of_lt hsum

/-- **A step of the thread keeps the pace**, if it begins no pause and leaves the ring at most half
full. -/
theorem Moves.paced {s' : Dispatcher} {os : List DispatchOutput} {sent : Nat} (hmoves : Moves s s' os)
    (hlimit : receiveBufferSize ≤ 2 ^ 31 - rgMaxCommandSize) (h : s.Sound pid receiveBufferSize)
    (hpaced : s.Paced receiveBufferSize sent) (hgoes : s.Pausing = false → s'.Pausing = false)
    (hhalf : s'.AtMostHalf) : s'.Paced receiveBufferSize (sent + sentBytes os) := by
  have hlt := hpaced.lt
  have hpos : 0 < max receiveBufferSize 1 := lt_of_lt_of_le one_pos (le_max_right _ _)
  unfold Paced at hpaced
  cases hmoves with
  | wake hlocation =>
      rw [hlocation] at hpaced
      exact .inl hpaced
  | round hlocation hround =>
      -- a round that sends begins behind a pause
      rw [hlocation] at hpaced
      rcases hpaced with hzero | ⟨-, hrunning, hempty⟩
      · refine ⟨le_rfl, hpos, ?_⟩
        rw [hzero]
        exact Int.natCast_nonneg _
      · rw [hrunning, hempty] at hround
        simp at hround
  | finish hlocation => exact hlt
  | jitter hlocation m ringbuf count ptr hcount hreached hhalf =>
      exact absurd (hgoes (by rw [Pausing, hlocation])) (by simp [Pausing])
  | poll hlocation m ringbuf count hcount hbelow =>
      rw [hlocation] at hpaced
      obtain ⟨hnonneg, hless, hsent⟩ := hpaced
      rw [cInt_count hlimit hnonneg hless] at hcount
      have hcounted := hbelow hhalf
      rw [h.receiveBufferSize] at hcounted
      refine ⟨?_, lt_of_lt_of_le hcounted (le_max_left _ _), ?_⟩
      · show 0 ≤ count
        omega
      · show ((sent + sentBytes [.polled m.bytes, .sent m.bytes] : Nat) : Int)
          ≤ count + rgMaxCommandSize
        rw [sentBytes_polled_sent, hcount, Message.size]
        push_cast
        omega
  | drained hlocation hempty => exact hlt
  | pause hlocation hrunning =>
      exact absurd (hgoes (by rw [Pausing, hlocation])) (by simp [Pausing])
  | stop hlocation hrunning => exact .inr ⟨hlt, hrunning, h.emptied hlocation⟩
  | resume ptr size hlocation =>
      -- the message that was polled in front of the pause is not counted
      rw [hlocation] at hpaced
      have hsize := h.jittering ptr size hlocation
      have hlength : (readAt s.data.ringbuf.data ptr size.toNatClampNeg).length ≤ size.toNatClampNeg := by
        rw [readAt]
        exact List.length_take_le _ _
      refine ⟨le_rfl, hpos, ?_⟩
      show ((sent + sentBytes [.sent _] : Nat) : Int) ≤ 0 + rgMaxCommandSize
      rw [sentBytes_sent, show sent = 0 from hpaced]
      omega
  | returned size bytesSent failedSends hlocation =>
      rw [hlocation] at hpaced
      exact hpaced
  | done hlocation => exact hpaced

/-- **Every step of a burst keeps the pace.** -/
theorem Paced.step {sent : Nat} (hlimit : receiveBufferSize ≤ 2 ^ 31 - rgMaxCommandSize)
    (h : s.Sound pid receiveBufferSize) (hpaced : s.Paced receiveBufferSize sent)
    {input : DispatchInput} (hburst : s.InBurst input) :
    (s.step .udp input).1.Paced receiveBufferSize (sent + sentBytes (s.step .udp input).2) := by
  obtain ⟨hgoes, hhalf⟩ := hburst
  by_cases hproducer : ∀ ok, input ≠ .dispatch ok
  · rw [step_produce .udp s hproducer]
    split
    next hswitch =>
      obtain ⟨-, hsent, -⟩ := offerOutput_quiet (Dispatcher.produce s.data input).2
      have hnone : sentBytes ((Dispatcher.produce s.data input).2.flatMap offerOutput) = 0 := by
        rw [sentBytes, hsent]
        rfl
      rw [hnone]
      unfold Paced at hpaced ⊢
      dsimp only
      split at hpaced <;> simp_all [Location.CanSwitch]
    next => exact hpaced
  · obtain ⟨ok, rfl⟩ := not_forall_not.mp hproducer
    refine (sinkThread_moves ok h.tiled).paced hlimit h hpaced ?_ hhalf
    intro hawake
    cases hpause : (s.sinkThread .udp ok).1.Pausing with
    | false => rfl
    | true => exact absurd ⟨hawake, hpause⟩ hgoes

/-- A pause is followed by a burst. -/
theorem paced_of_pausing (h : s.Pausing = true) : s.Paced receiveBufferSize 0 := by
  unfold Pausing at h
  unfold Paced
  split at h <;> simp_all

/-- **When the thread begins a pause.** -/
theorem Moves.pauses {s' : Dispatcher} {os : List DispatchOutput} (hmoves : Moves s s' os)
    (h : s.Sound pid receiveBufferSize) (hawake : s.Pausing = false) (hpause : s'.Pausing = true) :
    bipbufIsEmpty s'.data.ringbuf ∨ s'.AtMostHalf ∧ receiveBufferSize ≤ s'.bytesToSendOnWakeup := by
  cases hmoves with
  | jitter hlocation m ringbuf count ptr hcount hreached hhalf =>
      refine .inr ⟨hhalf, ?_⟩
      rw [← h.receiveBufferSize]
      exact hreached
  | pause hlocation hrunning => exact .inl (h.emptied hlocation)
  | done hlocation =>
      rw [hawake] at hpause
      cases hpause
  | _ => cases hpause

/-- **When a pause begins**, the ring is empty or the thread has sent as many bytes as the bound
says. -/
theorem Sound.pauses (h : s.Sound pid receiveBufferSize) (input : DispatchInput)
    (hbegins : s.BeginsPause input) :
    bipbufIsEmpty (s.step .udp input).1.data.ringbuf ∨
      (s.step .udp input).1.AtMostHalf ∧
        receiveBufferSize ≤ (s.step .udp input).1.bytesToSendOnWakeup := by
  obtain ⟨hawake, hpause⟩ := hbegins
  by_cases hproducer : ∀ ok, input ≠ .dispatch ok
  · -- a producer does not move the thread
    rw [step_produce .udp s hproducer] at hpause
    split at hpause
    next => exact absurd (hawake.symm.trans hpause) (by simp)
    next => exact absurd (hawake.symm.trans hpause) (by simp)
  · obtain ⟨ok, rfl⟩ := not_forall_not.mp hproducer
    exact (sinkThread_moves ok h.tiled).pauses h hawake hpause

/-- **The pace of the UDP thread.** Whatever the producers do in between, a pause begins only when
the ring is empty, or when it is at most half full and the count has reached the receive buffer. And
between two pauses, while the ring is at most half full, the bytes sent are fewer than the receive
buffer and the largest message have together. -/
theorem udp_paced (pid : UInt32) (memory : Bytes) (hmemory : memory.length < 2 ^ 32)
    (receiveBufferSize : Int) (hlimit : receiveBufferSize ≤ 2 ^ 31 - rgMaxCommandSize)
    (inputs : List DispatchInput) :
    Mealy.AllSteps (step .udp) (fun s input => s.BeginsPause input →
        let s' := (s.step .udp input).1
        bipbufIsEmpty s'.data.ringbuf ∨
          s'.AtMostHalf ∧ receiveBufferSize ≤ s'.bytesToSendOnWakeup)
      (fresh pid memory receiveBufferSize) inputs ∧
    ∀ before burst after, inputs = before ++ (burst ++ after) →
      let reached := (run .udp (fresh pid memory receiveBufferSize) before).1
      reached.Pausing = true → Mealy.AllSteps (step .udp) InBurst reached burst →
      sentBytes (run .udp reached burst).2 < max receiveBufferSize 1 + rgMaxCommandSize := by
  have hfresh := sound_fresh pid hmemory receiveBufferSize
  refine ⟨?_, ?_⟩
  · refine Mealy.allSteps_of_invariant (P := fun s => s.Sound pid receiveBufferSize)
      (fun s input h => h.step input) ?_ hfresh inputs
    exact fun s input h => h.pauses input
  · rintro before burst after - reached hpause hburst
    have hreached : reached.Sound pid receiveBufferSize :=
      Mealy.run_invariant (P := fun s : Dispatcher => s.Sound pid receiveBufferSize)
        (fun s input h => h.step input) hfresh before
    have hbegin : reached.Paced receiveBufferSize 0 := paced_of_pausing hpause
    have hrun : (run .udp reached burst).1.Sound pid receiveBufferSize ∧
        (run .udp reached burst).1.Paced receiveBufferSize
          (sentBytes ([] ++ (run .udp reached burst).2)) :=
      Mealy.run_history_of_allSteps
        (P := fun os (s : Dispatcher) => s.Sound pid receiveBufferSize ∧
          s.Paced receiveBufferSize (sentBytes os))
        (fun os s input h hstep => by
          rw [sentBytes_append]
          exact ⟨h.1.step input, h.2.step hlimit h.1 hstep⟩)
        (by exact ⟨hreached, hbegin⟩) hburst
    exact hrun.2.lt

/-- The message that waits in the jitter pause is sent behind it, and not counted. -/
theorem udp_paced_behindJitter :
    (sentBytes (run .udp (run .udp (fresh 7 (List.replicate 64 0) 1) flushDuringJitter.dropLast).1
      [.dispatch true]).2 : Int) < max 1 1 + rgMaxCommandSize :=
  (udp_paced 7 (List.replicate 64 0) (by decide +kernel) 1 (by decide) flushDuringJitter).2
    flushDuringJitter.dropLast [.dispatch true] [] rfl (by decide +kernel) (by decide +kernel)

end Dispatcher

end RaygunApm
