import RaygunApm.Dispatch.Accounting

/-! # The TCP dispatcher is a faithful queue

The TCP thread copies a message as soon as it is polled, so no offer can come in between: its
accounts hold on every run, and it never terminates itself. -/

namespace RaygunApm

namespace Dispatcher

variable {pid : UInt32} {s : Dispatcher}

/-- The TCP thread never pauses with a polled message. -/
def NoJitter (s : Dispatcher) : Prop := ∀ ptr size, s.location ≠ .jittering ptr size

/-- The TCP thread does not start a jitter pause. -/
theorem sinkThread_noJitter (ok : Bool) (h : s.NoJitter) : (s.sinkThread .tcp ok).1.NoJitter := by
  intro ptr size
  unfold sinkThread
  cases hlocation : s.location with
  | waiting => simp
  | outer =>
      dsimp only
      split <;> simp
  | inner =>
      dsimp only
      split
      · rcases drain_cases .tcp s with ⟨-, hquit⟩ | ⟨-, _, ⟨hudp, -⟩ | ⟨_, _, -, hsending⟩⟩
        · simp [hquit]
        · exact absurd hudp (by decide)
        · simp [hsending]
      · simp
  | afterInner =>
      dsimp only
      split <;> simp
  | jittering ptr size => exact absurd hlocation (h ptr size)
  | sending size =>
      dsimp only
      split <;> simp
  | done => simp [hlocation]

/-- No step of the TCP dispatcher starts a jitter pause, a producer's included. -/
theorem step_noJitter (h : s.NoJitter) (input : DispatchInput) : (s.step .tcp input).1.NoJitter := by
  cases input with
  | dispatch ok => exact sinkThread_noJitter ok h
  | _ =>
      unfold step
      dsimp only
      split <;> exact h

/-- Without a jitter pause there is no polled message to keep. -/
theorem NoJitter.keepsPolled (h : s.NoJitter) (input : DispatchInput) : s.KeepsPolled input := by
  unfold KeepsPolled
  split
  · rename_i ptr size hlocation
    exact absurd hlocation (h ptr size)
  · trivial

/-- A rejected offer changes nothing. -/
theorem step_rejected {transport : Transport} (s : Dispatcher) (m : Message)
    (h : .rejected m.bytes ∈ (s.step transport (.offer m)).2) :
    (s.step transport (.offer m)).1 = s := by
  unfold step at h ⊢
  dsimp only at h ⊢
  split at h
  · rename_i hswitch
    rw [if_pos hswitch]
    have hreject : (bipbufOffer s.data.ringbuf m.bytes m.bytes.length).2 = 0 := by
      by_contra hne
      simp [produce, offerOutput, hne] at h
    have hsize : (m.bytes.length : Int) ≠ 0 := Int.natCast_ne_zero.mpr m.size_pos.ne'
    simp only [produce, bipbufOffer_rejected hsize hreject]
  · exact absurd h List.not_mem_nil

/-- **TCP dispatch.** In every run the ring holds whole messages, and the messages accepted so far
are the payloads sent so far followed by the messages in the ring; the thread does not terminate
itself, and a rejected offer changes nothing. While the process does not end, the thread does not
end either. -/
theorem tcp_dispatch (pid : UInt32) (memory : Bytes) (hmemory : memory.length < 2 ^ 32)
    (receiveBufferSize : Int) (inputs : List DispatchInput) :
    let reached := run .tcp (fresh pid memory receiveBufferSize) inputs
    (∃ queue : List Message, reached.1.data.ringbuf.contents = messageBytes queue ∧
      reached.2.flatMap DispatchOutput.acceptedMessage
        = reached.2.flatMap DispatchOutput.sentPayload ++ queue.map Message.bytes) ∧
    .quit ∉ reached.2 ∧
    (∀ m : Message, .rejected m.bytes ∈ (reached.1.step .tcp (.offer m)).2 →
      (reached.1.step .tcp (.offer m)).1 = reached.1) ∧
    (.stop ∉ inputs → reached.1.data.running = true ∧ reached.1.location ≠ .done) := by
  intro reached
  have hfresh : (fresh pid memory receiveBufferSize).NoJitter := fun _ _ => by simp [fresh]
  have hjitter : reached.1.NoJitter :=
    Mealy.run_invariant (P := NoJitter) (fun _ input h => step_noJitter h input) hfresh inputs
  have hkeep : Mealy.AllSteps (step .tcp) KeepsPolled (fresh pid memory receiveBufferSize) inputs :=
    Mealy.allSteps_of_invariant (P := NoJitter) (fun _ input h => step_noJitter h input)
      (fun _ input h => NoJitter.keepsPolled h input) hfresh inputs
  have hqueued₀ := fresh_queued pid hmemory receiveBufferSize
  obtain ⟨as, bs, hqueued, haccounts⟩ := run_ring .tcp hqueued₀ inputs
  obtain ⟨polled, hpolled, hsocket⟩ :=
    run_socket .tcp ⟨[], [], hqueued₀⟩ (polled_nil hfresh) hkeep
  refine ⟨⟨as ++ bs, ?_, ?_⟩, haccounts.no_quit, fun m => step_rejected reached.1 m,
    run_running .tcp pid hmemory receiveBufferSize⟩
  · rw [Bipbuf.contents, hqueued.tiled.regionA, hqueued.tiled.regionB, messageBytes_append]
  · have hring := haccounts.balance
    rw [hpolled.eq_nil hjitter] at hsocket
    simp only [SocketBalance, List.map_nil, List.nil_append, List.append_nil] at hring hsocket
    rw [hring, hsocket]

/-- The thread takes a command that is flushed: the socket gets it in the first batch, and the ring
is empty then. -/
theorem tcp_dispatch_flushed :
    let reached := run .tcp (fresh 7 (List.replicate 64 0) 0)
      [.call (.event (.blank 19 (by decide) (by decide))), .call .null, .dispatch true,
        .dispatch true, .dispatch true, .dispatch true]
    reached.2.flatMap DispatchOutput.sentPayload
        = [batchMessage 7 0 [.blank 19 (by decide) (by decide)]] ∧
      ∃ queue : List Message, reached.1.data.ringbuf.contents = messageBytes queue ∧
        reached.2.flatMap DispatchOutput.acceptedMessage
          = reached.2.flatMap DispatchOutput.sentPayload ++ queue.map Message.bytes :=
  ⟨by decide +kernel,
    (tcp_dispatch 7 (List.replicate 64 0) (by decide +kernel) 0
      [.call (.event (.blank 19 (by decide) (by decide))), .call .null, .dispatch true,
        .dispatch true, .dispatch true, .dispatch true]).1⟩

end Dispatcher

end RaygunApm
