import RaygunApm.Dispatch.Accounting

/-! # The UDP dispatcher

The UDP thread may pause between the poll, which releases the bytes of a message, and their copy.
It sends what was queued as long as no offer of such a pause is written onto the released bytes. -/

namespace RaygunApm

namespace Dispatcher

/-- **UDP dispatch.** In every run in which no offer accepted during a jitter pause is written onto
the message polled before the pause, the payloads sent are the messages accepted, in order, up to
at most one polled message and those in the ring. -/
theorem udp_dispatch (pid : UInt32) (memory : Bytes) (hmemory : memory.length < 2 ^ 32)
    (receiveBufferSize : Int) (inputs : List DispatchInput)
    (hkeep : Mealy.AllSteps (step .udp) KeepsPolled (fresh pid memory receiveBufferSize) inputs) :
    let reached := run .udp (fresh pid memory receiveBufferSize) inputs
    reached.2.flatMap DispatchOutput.sentPayload
        <+: reached.2.flatMap DispatchOutput.acceptedMessage ∧
      ∃ polled queue : List Message, polled.length ≤ 1 ∧
        reached.1.data.ringbuf.contents = messageBytes queue ∧
        reached.2.flatMap DispatchOutput.acceptedMessage
          = reached.2.flatMap DispatchOutput.sentPayload ++ (polled ++ queue).map Message.bytes := by
  intro reached
  have hfresh := fresh_queued pid hmemory receiveBufferSize
  obtain ⟨as, bs, hqueued, haccounts⟩ := run_ring .udp hfresh inputs
  obtain ⟨polled, hpolled, hsocket⟩ :=
    run_socket .udp ⟨[], [], hfresh⟩ (polled_nil (by simp [fresh])) hkeep
  have hbalance : reached.2.flatMap DispatchOutput.acceptedMessage
      = reached.2.flatMap DispatchOutput.sentPayload
        ++ (polled ++ (as ++ bs)).map Message.bytes := by
    have hring := haccounts.balance
    simp only [SocketBalance, List.map_nil, List.nil_append] at hring hsocket
    rw [hring, hsocket, List.append_assoc, ← List.map_append]
  refine ⟨⟨_, hbalance.symm⟩, polled, as ++ bs, hpolled.length_le, ?_, hbalance⟩
  rw [Bipbuf.contents, hqueued.tiled.regionA, hqueued.tiled.regionB, messageBytes_append]

/-- A message that is flushed during a jitter pause, but behind the polled one. -/
theorem udp_dispatch_behind :
    (run .udp (fresh 7 (List.replicate 128 0) 1)
        [.call (.event (.blank 19 (by decide) (by decide))), .call .null,
          .call (.event (.blank 19 (by decide) (by decide))), .call .null,
          .dispatch true, .dispatch true, .dispatch true,
          .call (.event (.blank 19 (by decide) (by decide))), .call .null,
          .dispatch true]).2.flatMap DispatchOutput.sentPayload
      <+: (run .udp (fresh 7 (List.replicate 128 0) 1)
        [.call (.event (.blank 19 (by decide) (by decide))), .call .null,
          .call (.event (.blank 19 (by decide) (by decide))), .call .null,
          .dispatch true, .dispatch true, .dispatch true,
          .call (.event (.blank 19 (by decide) (by decide))), .call .null,
          .dispatch true]).2.flatMap DispatchOutput.acceptedMessage :=
  (udp_dispatch 7 (List.replicate 128 0) (by decide +kernel) 1
    [.call (.event (.blank 19 (by decide) (by decide))), .call .null,
      .call (.event (.blank 19 (by decide) (by decide))), .call .null,
      .dispatch true, .dispatch true, .dispatch true,
      .call (.event (.blank 19 (by decide) (by decide))), .call .null,
      .dispatch true] (by decide +kernel)).1

/-- Two commands are flushed, the second one during the jitter pause of the first. -/
def flushDuringJitter : List DispatchInput :=
  [.call (.event (.blank 19 (by decide) (by decide))), .call .null,
    .dispatch true, .dispatch true, .dispatch true,
    .call (.event (.blank 19 (by decide) (by decide))), .call .null,
    .dispatch true]

/-- The second message is sent in place of the first. -/
theorem udp_sends_second :
    ¬ (run .udp (fresh 7 (List.replicate 64 0) 1) flushDuringJitter).2.flatMap
        DispatchOutput.sentPayload
      <+: (run .udp (fresh 7 (List.replicate 64 0) 1) flushDuringJitter).2.flatMap
        DispatchOutput.acceptedMessage := by
  decide +kernel

end Dispatcher

end RaygunApm
