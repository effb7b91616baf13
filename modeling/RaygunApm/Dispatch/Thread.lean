import RaygunApm.Sink.Frames

/-! # The dispatcher threads

`rb_rg_udp_sink_thread` and `rb_rg_tcp_sink_thread` empty the ring that the batched sink fills. Both
are the same loop, up to the jitter pause of the UDP thread. Under the interpreter lock another
thread runs only while the dispatcher waits or sends, so the model splits the loop at its tests and
waits, and producers take their steps at the waits only. -/

namespace RaygunApm

open ByteMemory

/-- The transport of the sink. -/
inductive Transport where
  /-- `RB_RG_TRACER_SINK_UDP`. -/
  | udp
  /-- `RB_RG_TRACER_SINK_TCP`. -/
  | tcp
  deriving DecidableEq

/-- Where the dispatcher thread is. -/
inductive Location where
  /-- Not scheduled yet, or in the pause between two rounds. -/
  | waiting
  /-- At the test of the outer loop. -/
  | outer
  /-- At the test of the inner loop. -/
  | inner
  /-- Behind the inner loop. -/
  | afterInner
  /-- In the jitter pause, with a message polled but not copied. -/
  | jittering (ptr : Nat) (size : RgLength)
  /-- In the send function. -/
  | sending (size : RgLength)
  /-- The thread has returned. -/
  | done
  deriving DecidableEq

/-- Other threads may run. -/
def Location.CanSwitch : Location → Bool
  | .waiting | .jittering _ _ | .sending _ | .done => true
  | .outer | .inner | .afterInner => false

/-- The sink data together with the locals of the dispatcher thread. -/
structure Dispatcher where
  /-- `rb_rg_sink_data_t`, shared with the producers. -/
  data : SinkData Bipbuf
  /-- `data->payload`. -/
  payload : Bytes
  /-- `bytes_to_send_on_wakeup`. -/
  bytesToSendOnWakeup : Int
  /-- Telemetry. -/
  bytesSent : UInt64
  /-- Telemetry. -/
  failedSends : UInt64
  /-- Telemetry. -/
  jitteredSends : UInt64
  /-- Program counter. -/
  location : Location
  deriving DecidableEq

/-- What can be observed of the ring and the socket. -/
inductive DispatchOutput where
  /-- The ring accepted a message. -/
  | accepted (message : Bytes)
  /-- The ring rejected a message. -/
  | rejected (message : Bytes)
  /-- The dispatcher polls a message. -/
  | polled (message : Bytes)
  /-- The send function is called with a payload. -/
  | sent (payload : Bytes)
  /-- The thread terminates itself on an empty or missing message. -/
  | quit
  deriving DecidableEq

namespace Dispatcher

/-- Copy the message to the payload and call the send function. -/
def send (ptr : Nat) (size : RgLength) (s : Dispatcher) : Dispatcher × List DispatchOutput :=
  let payload := readAt s.data.ringbuf.data ptr size.toNatClampNeg
  ({ s with payload := payload, location := .sending size }, [.sent payload])

/-- Stop running and break out of the inner loop. -/
def quit (s : Dispatcher) : Dispatcher × List DispatchOutput :=
  ({ s with data := { s.data with running := false }, location := .afterInner }, [.quit])

/-- The UDP thread pauses when it has sent as much as the receive buffer takes and the ring is at
most half full. -/
def jitters (transport : Transport) (s : Dispatcher) : Bool :=
  transport = .udp ∧ s.bytesToSendOnWakeup ≥ s.data.receiveBufferSize ∧
    bipbufUsed s.data.ringbuf ≤ (rgRingbufSize / 2 : Nat)

/-- One round of the inner loop. -/
def drain (transport : Transport) (s : Dispatcher) : Dispatcher × List DispatchOutput :=
  let size := rgRingbufNextMessageSize s.data.ringbuf
  let s := { s with bytesToSendOnWakeup := cInt (s.bytesToSendOnWakeup + size.toInt) }
  if ¬ size.toInt > 0 then s.quit
  else
    match bipbufPoll s.data.ringbuf size.toNatClampNeg with
    | (_, none) => s.quit
    | (ringbuf, some ptr) =>
        let polled := readAt ringbuf.data ptr size.toNatClampNeg
        let s := { s with data := { s.data with ringbuf := ringbuf } }
        if s.jitters transport then ({ s with location := .jittering ptr size }, [.polled polled])
        else ((s.send ptr size).1, .polled polled :: (s.send ptr size).2)

/-- How a round of the inner loop ends. -/
theorem drain_cases (transport : Transport) (s : Dispatcher) :
    ((s.drain transport).2 = [.quit] ∧ (s.drain transport).1.location = .afterInner) ∨
    ((s.drain transport).1.data.running = s.data.running ∧
      ∃ polled, (transport = .udp ∧ (s.drain transport).2 = [.polled polled] ∧
          ∃ ptr size, (s.drain transport).1.location = .jittering ptr size) ∨
        ∃ payload size, (s.drain transport).2 = [.polled polled, .sent payload] ∧
          (s.drain transport).1.location = .sending size) := by
  unfold drain
  dsimp only
  split
  · exact .inl ⟨rfl, rfl⟩
  · split
    · exact .inl ⟨rfl, rfl⟩
    · split
      · rename_i hjitters
        simp only [jitters, decide_eq_true_eq] at hjitters
        exact .inr ⟨rfl, _, .inl ⟨hjitters.1, rfl, _, _, rfl⟩⟩
      · exact .inr ⟨rfl, _, .inr ⟨_, _, rfl, rfl⟩⟩

/-- `rb_rg_udp_sink_thread` and `rb_rg_tcp_sink_thread`: the dispatcher thread moves on. `ok` tells
whether a send that it returns from succeeded. -/
def sinkThread (transport : Transport) (ok : Bool) (s : Dispatcher) :
    Dispatcher × List DispatchOutput :=
  match s.location with
  | .waiting => ({ s with location := .outer }, [])
  | .outer =>
      if s.data.running ∨ ¬ bipbufIsEmpty s.data.ringbuf then
        ({ s with bytesToSendOnWakeup := 0, location := .inner }, [])
      else ({ s with location := .done }, [])
  | .inner =>
      if ¬ bipbufIsEmpty s.data.ringbuf then s.drain transport
      else ({ s with location := .afterInner }, [])
  | .afterInner => ({ s with location := if s.data.running then .waiting else .outer }, [])
  | .jittering ptr size =>
      { s with jitteredSends := s.jitteredSends + 1, bytesToSendOnWakeup := 0 }.send ptr size
  | .sending size =>
      if ok then
        ({ s with bytesSent := s.bytesSent + UInt64.ofNat size.toNatClampNeg, location := .inner }, [])
      else ({ s with failedSends := s.failedSends + 1, location := .inner }, [])
  | .done => (s, [])

/-- `rb_rg_tcp_sink_thread` alone. -/
def rbRgTcpSinkThread : Bool → Dispatcher → Dispatcher × List DispatchOutput := sinkThread .tcp

end Dispatcher

/-- A step of the dispatcher or of another thread. -/
inductive DispatchInput where
  /-- A producer offers a message to the ring. -/
  | offer (message : Message)
  /-- A producer calls the batched sink. -/
  | call (call : SinkCall)
  /-- The process ends: `running` is cleared. -/
  | stop
  /-- The dispatcher moves on. -/
  | dispatch (ok : Bool)

/-- What the ring shows of an action. -/
def offerOutput : SinkAction → List DispatchOutput
  | .append _ _ => []
  | .offerBatch message retval => if retval = 0 then [.rejected message] else [.accepted message]
  | .offerRaw message retval => if retval = 0 then [.rejected message] else [.accepted message]

namespace Dispatcher

/-- What another thread does: the new sink data and the actions on the ring. -/
def produce (data : SinkData Bipbuf) : DispatchInput → SinkData Bipbuf × List SinkAction
  | .offer m =>
      ({ data with ringbuf := (bipbufOffer data.ringbuf m.bytes m.bytes.length).1 },
        [.offerRaw m.bytes (bipbufOffer data.ringbuf m.bytes m.bytes.length).2])
  | .call c => ((c.perform bipbufRing data).1, (c.perform bipbufRing data).2.1)
  | .stop => ({ data with running := false }, [])
  | .dispatch _ => (data, [])

/-- One step. A producer that cannot run yet changes nothing. -/
def step (transport : Transport) (s : Dispatcher) : DispatchInput → Dispatcher × List DispatchOutput
  | .dispatch ok => s.sinkThread transport ok
  | input =>
      if s.location.CanSwitch then
        ({ s with data := (produce s.data input).1 },
          (produce s.data input).2.flatMap offerOutput)
      else (s, [])

/-- The dispatcher of a sink just set up. -/
def fresh (pid : UInt32) (memory : Bytes) (receiveBufferSize : Int) : Dispatcher where
  data := freshSink pid (bipbufNew memory) receiveBufferSize
  payload := []
  bytesToSendOnWakeup := 0
  bytesSent := 0
  failedSends := 0
  jitteredSends := 0
  location := .waiting

/-- The dispatcher and the producers run through some steps. -/
def run (transport : Transport) : Dispatcher → List DispatchInput →
    Dispatcher × List DispatchOutput :=
  Mealy.run (step transport)

end Dispatcher

/-- The message accepted by the ring, if any. -/
def DispatchOutput.acceptedMessage : DispatchOutput → List Bytes
  | .accepted message => [message]
  | _ => []

/-- The message polled by the dispatcher, if any. -/
def DispatchOutput.polledMessage : DispatchOutput → List Bytes
  | .polled message => [message]
  | _ => []

/-- The payload given to the send function, if any. -/
def DispatchOutput.sentPayload : DispatchOutput → List Bytes
  | .sent payload => [payload]
  | _ => []

end RaygunApm
