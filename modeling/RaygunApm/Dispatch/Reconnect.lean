import RaygunApm.Dispatch.Tcp
import RaygunApm.Library.Link
import RaygunApm.Wire.Lossless

/-! # The connection of the TCP sink

`rb_rg_tcp_sink_send` writes a payload to the socket, or gives it up when there is none, and the
dispatcher forgets the socket when a write raises. `rb_rg_tracer_tcp_sink_set` connects for the
first time, behind the start of the dispatcher and behind the moment when the timer thread sees the
type of the sink; the timer thread connects when it finds no socket. So in the beginning two
attempts may overlap, and the one that returns last decides, also if it fails.

What the agent gets on one connection is all the same a contiguous run of the messages that the ring
has accepted, in order, of which only the last may be lost in a failed write. Between a connection
and the one that the timer thread makes next, the message of the write that failed is lost and those
polled until the next connection, and the telemetry counts the latter as sent (`tcp_reconnect`). -/

namespace RaygunApm

/-! ## The machine -/

/-- A thread that connects. -/
inductive Connector where
  /-- The one in `rb_rg_tracer_tcp_sink_set`. -/
  | tcpSinkSet
  /-- The one in `rb_rg_timer_thread`. -/
  | timerThread
  deriving DecidableEq

/-- What happens to the connection. -/
abbrev LinkEvent : Type := Link.Event Connector Bytes

/-- The dispatcher of the TCP sink and its socket. -/
structure TcpSink where
  dispatcher : Dispatcher
  /-- `data->sock`, by the number of the connection. -/
  sock : Option Nat
  /-- How many connections have been made. -/
  connections : Nat
  /-- The connection that the send function writes to. -/
  writes : Nat
  /-- `data->type` is `RB_RG_TRACER_SINK_TCP`. -/
  typed : Bool
  /-- The thread is in `rb_rg_tracer_initialise_tcp_socket`. -/
  connecting : Connector → Bool

/-- A step of a thread. -/
inductive TcpInput where
  /-- The dispatcher moves on, or a producer does something. -/
  | dispatcher (input : DispatchInput)
  /-- `rb_rg_tracer_tcp_sink_set` sets the type, and starts to connect. -/
  | set
  /-- The timer thread looks at the type and the socket, and starts to connect if there is none. -/
  | connect
  /-- `TCPSocket.new` returns or raises. -/
  | returned (thread : Connector) (ok : Bool)

/-- What can be observed. -/
inductive TcpOutput where
  /-- Something on the ring. -/
  | ring (o : DispatchOutput)
  /-- Something on the connection. -/
  | link (e : LinkEvent)

namespace TcpSink

/-- `rb_rg_tcp_sink_thread` with `rb_rg_tcp_sink_send`; `ok` tells whether a write that it returns
from succeeded. Without a socket the send function returns at once. -/
def sinkThread (ok : Bool) (s : TcpSink) : TcpSink × List TcpOutput :=
  let (moved, os) := Dispatcher.rbRgTcpSinkThread ok s.dispatcher
  match s.dispatcher.location, moved.location with
  | .sending _, _ =>
      if ok then
        ({ s with dispatcher := moved }, [.link (.written s.writes s.dispatcher.payload)])
      else
        ({ s with dispatcher := moved, sock := none },
          [.link (.failed s.writes s.dispatcher.payload)])
  | _, .sending _ =>
      match s.sock with
      | some connection =>
          ({ s with dispatcher := moved, writes := connection },
            os.map .ring ++ [.link (.writing connection moved.payload)])
      | none =>
          ({ s with dispatcher := (Dispatcher.rbRgTcpSinkThread true moved).1 },
            os.map .ring ++ [.link (.dropped moved.payload)])
  | _, _ => ({ s with dispatcher := moved }, os.map .ring)

/-- One step. A thread that cannot run yet changes nothing. -/
def step (s : TcpSink) : TcpInput → TcpSink × List TcpOutput
  | .dispatcher (.dispatch ok) => s.sinkThread ok
  | .dispatcher input =>
      let (dispatcher, os) := s.dispatcher.step .tcp input
      ({ s with dispatcher := dispatcher }, os.map .ring)
  | .set =>
      if s.dispatcher.location.CanSwitch ∧ s.typed = false then
        ({ s with typed := true, connecting := Function.update s.connecting .tcpSinkSet true },
          [.link (.connecting .tcpSinkSet)])
      else (s, [])
  | .connect =>
      if s.dispatcher.location.CanSwitch ∧ s.typed ∧ s.sock = none ∧
          s.connecting .timerThread = false then
        ({ s with connecting := Function.update s.connecting .timerThread true },
          [.link (.connecting .timerThread)])
      else (s, [])
  | .returned thread ok =>
      if s.dispatcher.location.CanSwitch ∧ s.connecting thread then
        if ok then
          ({ s with
              sock := some s.connections
              connections := s.connections + 1
              connecting := Function.update s.connecting thread false }, [.link (.connected thread)])
        else
          ({ s with
              sock := none
              connecting := Function.update s.connecting thread false }, [.link (.refused thread)])
      else (s, [])

/-- The sink in `rb_rg_tracer_tcp_sink_set`, behind the start of the dispatcher. -/
def fresh (pid : UInt32) (memory : Bytes) : TcpSink where
  dispatcher := .fresh pid memory 0
  sock := none
  connections := 0
  writes := 0
  typed := false
  connecting _ := false

/-- The payload that is being written. -/
def inFlight (s : TcpSink) : List Bytes :=
  match s.dispatcher.location with
  | .sending _ => [s.dispatcher.payload]
  | _ => []

/-- The state of the connection. -/
def link (s : TcpSink) : Link.State Connector Bytes where
  sock := s.sock
  connections := s.connections
  writes :=
    match s.dispatcher.location with
    | .sending _ => some (s.writes, s.dispatcher.payload)
    | _ => none
  connecting := s.connecting

end TcpSink

/-! ## The property -/

/-- The timer thread starts to connect only without a socket. -/
def Connector.Cautious (thread : Connector) : Prop := thread = .timerThread

/-- What happens to the connection in these outputs. -/
def linkEvents (os : List TcpOutput) : List LinkEvent :=
  os.flatMap fun
    | .ring _ => []
    | .link e => [e]

/-- The message that the ring accepts, if any. -/
def TcpOutput.acceptedMessage : TcpOutput → List Bytes
  | .ring o => o.acceptedMessage
  | .link _ => []

/-- The payload that the dispatcher is done with, if any. -/
def settledPayload : LinkEvent → List Bytes
  | .written _ payload | .failed _ payload | .dropped payload => [payload]
  | .connecting _ | .connected _ | .refused _ | .writing _ _ => []

/-- What `bytes_sent` counts for an event. -/
def countedBytes : LinkEvent → Nat
  | .written _ payload | .dropped payload => payload.length
  | .connecting _ | .connected _ | .refused _ | .writing _ _ | .failed _ _ => 0

/-- What `failed_sends` counts for an event. -/
def countedFailures : LinkEvent → Nat
  | .failed _ _ => 1
  | .connecting _ | .connected _ | .refused _ | .writing _ _ | .written _ _ | .dropped _ => 0

/-- What becomes of the accepted messages. -/
structure TcpDelivers (os : List TcpOutput) (s : TcpSink) : Prop where
  /-- Each accepted message is written, lost, dropped, being written or in the ring, in this order.
  -/
  accounted : ∃ queue : List Message, s.dispatcher.data.ringbuf.contents = messageBytes queue ∧
    os.flatMap TcpOutput.acceptedMessage =
      (linkEvents os).flatMap settledPayload ++ s.inFlight ++ queue.map Message.bytes
  /-- A message goes to the connection that the variable holds, and it is dropped only if there is
  none; an attempt to connect that returns, and a write that fails, decide what the variable holds.
  -/
  link : Link.Run Connector.Cautious .init (linkEvents os) s.link
  /-- What goes to one connection is a contiguous run. -/
  contiguous : ∀ connection : Nat,
    Link.Contiguous (some connection) (Link.destinations (linkEvents os) s.link)
  /-- Behind a failed write there is no other one on the connection. -/
  lost : ∀ before connection payload after,
    linkEvents os = before ++ .failed connection payload :: after → ∀ e ∈ after, ¬ e.On connection
  /-- From a connection on, if the timer thread starts to connect before any other attempt returns,
  a run of messages is written, one write fails, and the messages behind it are dropped until there
  is a connection again. -/
  connections : ∀ before thread waiting trying after,
    linkEvents os
      = before ++ .connected thread :: (waiting ++ .connecting .timerThread :: trying) ++ after →
    (∀ e ∈ waiting, ¬ e.Returns) → (∀ e ∈ trying, ¬ e.Connects) →
    ∃ (writes : List (Nat × Bytes)) (lost : Nat × Bytes) (drops : List Bytes),
      (waiting ++ trying).filter Link.Event.Settles
        = writes.map (fun write => .written write.1 write.2) ++
          .failed lost.1 lost.2 :: drops.map .dropped
  /-- `bytes_sent` is a `size_t`. -/
  bytesSent : s.dispatcher.bytesSent = UInt64.ofNat ((linkEvents os).map countedBytes).sum
  failedSends : s.dispatcher.failedSends = UInt64.ofNat ((linkEvents os).map countedFailures).sum

/-! ## One step -/

namespace TcpSink

variable {pid : UInt32} {s : TcpSink} {os : List TcpOutput}

/-- What a turn of the dispatcher thread does: it returns from a send, takes the next message, or
neither. -/
inductive Turn (d d' : Dispatcher) (ok : Bool) (os : List DispatchOutput) : Prop
  /-- The thread returns from a send. -/
  | returns (size : RgLength) : d.location = .sending size → d'.location = .inner →
      d'.bytesSent = d.bytesSent + (if ok then UInt64.ofNat size.toNatClampNeg else 0) →
      d'.failedSends = d.failedSends + (if ok then 0 else 1) → os = [] → Turn d d' ok os
  /-- The thread takes a message and calls the send function. -/
  | takes (m : Message) : (∀ size, d.location ≠ .sending size) →
      d'.location = .sending (Int16.ofNat m.size) → d'.payload = m.bytes →
      d'.bytesSent = d.bytesSent → d'.failedSends = d.failedSends →
      os = [.polled m.bytes, .sent m.bytes] → Turn d d' ok os
  /-- The thread waits or tests something. -/
  | idles : (∀ size, d.location ≠ .sending size) → (∀ size, d'.location ≠ .sending size) →
      d'.bytesSent = d.bytesSent → d'.failedSends = d.failedSends → os = [] → Turn d d' ok os

/-- **One turn of the dispatcher thread.** -/
theorem turn {d : Dispatcher} {as bs : List Message} (h : d.Queued pid as bs) (hjitter : d.NoJitter)
    (ok : Bool) :
    Turn d (Dispatcher.rbRgTcpSinkThread ok d).1 ok (Dispatcher.rbRgTcpSinkThread ok d).2 := by
  unfold Dispatcher.rbRgTcpSinkThread Dispatcher.sinkThread
  cases hlocation : d.location with
  | waiting => exact .idles (by simp [hlocation]) (by simp) rfl rfl rfl
  | outer =>
      dsimp only
      split <;> exact .idles (by simp [hlocation]) (by simp) rfl rfl rfl
  | inner =>
      dsimp only
      split
      · rename_i hmore
        cases as with
        | nil => exact absurd (h.tiled.isEmpty_iff.mpr rfl) hmore
        | cons m as =>
            rw [Dispatcher.drain_eq .tcp h.tiled]
            have htcp : ∀ d' : Dispatcher, d'.jitters .tcp = false := by
              intro d'
              simp [Dispatcher.jitters]
            simp only [htcp, Bool.false_eq_true, if_false]
            exact .takes m (by simp [hlocation]) rfl rfl rfl rfl rfl
      · exact .idles (by simp [hlocation]) (by simp) rfl rfl rfl
  | afterInner =>
      refine .idles (by simp [hlocation]) ?_ rfl rfl rfl
      intro size
      dsimp only
      split <;> simp
  | jittering ptr size => exact absurd hlocation (hjitter ptr size)
  | sending size =>
      dsimp only
      cases ok with
      | true => exact .returns size hlocation rfl rfl (UInt64.add_zero _).symm rfl
      | false => exact .returns size hlocation rfl (UInt64.add_zero _).symm rfl rfl
  | done => exact .idles (by simp [hlocation]) (by simp [hlocation]) rfl rfl rfl

/-- The ring shows nothing about the connection. -/
@[simp] theorem linkEvents_ring (os : List DispatchOutput) : linkEvents (os.map .ring) = [] := by
  induction os with
  | nil => rfl
  | cons o os ih => exact ih

/-- What the ring accepts does not depend on the connection. -/
@[simp] theorem accepted_ring (os : List DispatchOutput) :
    (os.map TcpOutput.ring).flatMap TcpOutput.acceptedMessage
      = os.flatMap DispatchOutput.acceptedMessage := by
  rw [List.flatMap_map]
  rfl

@[simp] theorem linkEvents_append (os os' : List TcpOutput) :
    linkEvents (os ++ os') = linkEvents os ++ linkEvents os' := List.flatMap_append

/-- A step shows one event of the connection, behind what it shows of the ring. -/
theorem linkEvents_concat (os : List TcpOutput) (shown : List DispatchOutput) (e : LinkEvent) :
    linkEvents (os ++ (shown.map .ring ++ [.link e])) = linkEvents os ++ [e] := by
  rw [linkEvents_append, linkEvents_append, linkEvents_ring]
  rfl

/-- What holds after every step. -/
structure History (pid : UInt32) (os : List TcpOutput) (s : TcpSink) : Prop where
  queue : ∃ as bs, s.dispatcher.Queued pid as bs ∧ os.flatMap TcpOutput.acceptedMessage =
    (linkEvents os).flatMap settledPayload ++ s.inFlight ++ (as ++ bs).map Message.bytes
  noJitter : s.dispatcher.NoJitter
  link : Link.Run Connector.Cautious .init (linkEvents os) s.link
  sending : ∀ size, s.dispatcher.location = .sending size →
    size.toNatClampNeg = s.dispatcher.payload.length
  bytesSent : s.dispatcher.bytesSent = UInt64.ofNat ((linkEvents os).map countedBytes).sum
  failedSends : s.dispatcher.failedSends = UInt64.ofNat ((linkEvents os).map countedFailures).sum

/-- One more event is counted on top of those before. -/
theorem counted_concat {counted : LinkEvent → Nat} {es : List LinkEvent} {e : LinkEvent}
    {counter counter' : UInt64} (h : counter = UInt64.ofNat (es.map counted).sum)
    (hmore : counter' = counter + UInt64.ofNat (counted e)) :
    counter' = UInt64.ofNat ((es ++ [e]).map counted).sum := by
  rw [hmore, h, ← UInt64.ofNat_add, List.map_append, List.sum_append, List.map_singleton,
    List.sum_singleton]

/-- What a step has to do that shows an event of the connection: the messages in flight and in the
ring before it are settled by the event or still there, and the event is counted. -/
structure Accounts (pid : UInt32) (s : TcpSink) (e : LinkEvent) (s' : TcpSink) : Prop where
  queue : ∀ as bs, s.dispatcher.Queued pid as bs → ∃ as' bs', s'.dispatcher.Queued pid as' bs' ∧
    s.inFlight ++ (as ++ bs).map Message.bytes
      = settledPayload e ++ s'.inFlight ++ (as' ++ bs').map Message.bytes
  noJitter : s'.dispatcher.NoJitter
  link : Link.Step Connector.Cautious s.link e s'.link
  sending : ∀ size, s'.dispatcher.location = .sending size →
    size.toNatClampNeg = s'.dispatcher.payload.length
  bytesSent : s'.dispatcher.bytesSent = s.dispatcher.bytesSent + UInt64.ofNat (countedBytes e)
  failedSends :
    s'.dispatcher.failedSends = s.dispatcher.failedSends + UInt64.ofNat (countedFailures e)

/-- **A step that shows an event of the connection** keeps the account. Its other outputs accept no
message. -/
theorem History.shows (h : History pid os s) {e : LinkEvent} {s' : TcpSink}
    (haccounts : Accounts pid s e s') (shown : List DispatchOutput)
    (hshown : shown.flatMap DispatchOutput.acceptedMessage = []) :
    History pid (os ++ (shown.map .ring ++ [.link e])) s' := by
  obtain ⟨as, bs, hqueued, hqueue⟩ := h.queue
  obtain ⟨as', bs', hqueued', hbalance⟩ := haccounts.queue as bs hqueued
  have hevents := linkEvents_concat os shown e
  have haccepted : (os ++ (shown.map TcpOutput.ring ++ [TcpOutput.link e])).flatMap
      TcpOutput.acceptedMessage = os.flatMap TcpOutput.acceptedMessage := by
    rw [List.flatMap_append, List.flatMap_append, accepted_ring, hshown]
    exact List.append_nil _
  refine ⟨⟨as', bs', hqueued', ?_⟩, haccounts.noJitter, ?_, haccounts.sending, ?_, ?_⟩
  · rw [haccepted, hqueue, hevents, List.append_assoc, hbalance]
    simp
  · exact hevents ▸ h.link.concat haccounts.link
  · exact hevents ▸ counted_concat h.bytesSent haccounts.bytesSent
  · exact hevents ▸ counted_concat h.failedSends haccounts.failedSends

/-- The payload in flight, if the thread is in the send function. -/
theorem inFlight_of_sending {size : RgLength} (h : s.dispatcher.location = .sending size) :
    s.inFlight = [s.dispatcher.payload] := by
  rw [inFlight, h]

/-- Outside of the send function no payload is in flight. -/
theorem inFlight_of_not_sending (h : ∀ size, s.dispatcher.location ≠ .sending size) :
    s.inFlight = [] := by
  unfold inFlight
  split
  · rename_i size hlocation
    exact absurd hlocation (h size)
  · rfl

/-- In the send function the connection is written to. -/
theorem link_of_sending {size : RgLength} (h : s.dispatcher.location = .sending size) :
    s.link =
      { sock := s.sock
        connections := s.connections
        writes := some (s.writes, s.dispatcher.payload)
        connecting := s.connecting } := by
  rw [link, h]

/-- Outside of the send function no connection is written to. -/
theorem link_of_not_sending (h : ∀ size, s.dispatcher.location ≠ .sending size) :
    s.link =
      { sock := s.sock, connections := s.connections, writes := none, connecting := s.connecting } := by
  rw [link]
  split
  · rename_i size hlocation
    exact absurd hlocation (h size)
  · rfl

/-- The thread returns from the send function. -/
theorem sinkThread_of_sending {ok : Bool} {size : RgLength}
    (h : s.dispatcher.location = .sending size) :
    s.sinkThread ok =
      if ok then
        ({ s with dispatcher := (Dispatcher.rbRgTcpSinkThread ok s.dispatcher).1 },
          [.link (.written s.writes s.dispatcher.payload)])
      else
        ({ s with
            dispatcher := (Dispatcher.rbRgTcpSinkThread ok s.dispatcher).1
            sock := none }, [.link (.failed s.writes s.dispatcher.payload)]) := by
  unfold sinkThread
  rw [h]

/-- The thread calls the send function. -/
theorem sinkThread_of_takes {ok : Bool} {size : RgLength}
    (h : ∀ size, s.dispatcher.location ≠ .sending size)
    (h' : (Dispatcher.rbRgTcpSinkThread ok s.dispatcher).1.location = .sending size) :
    s.sinkThread ok =
      let moved := Dispatcher.rbRgTcpSinkThread ok s.dispatcher
      match s.sock with
      | some connection =>
          ({ s with dispatcher := moved.1, writes := connection },
            moved.2.map .ring ++ [.link (.writing connection moved.1.payload)])
      | none =>
          ({ s with dispatcher := (Dispatcher.rbRgTcpSinkThread true moved.1).1 },
            moved.2.map .ring ++ [.link (.dropped moved.1.payload)]) := by
  unfold sinkThread
  dsimp only
  cases hlocation : s.dispatcher.location with
  | sending size => exact absurd hlocation (h size)
  | _ => rw [h']

/-- Where the dispatcher thread neither returns from a send nor begins one, its step is the step of
the dispatcher alone. -/
theorem sinkThread_of_idles {ok : Bool} (h : ∀ size, s.dispatcher.location ≠ .sending size)
    (h' : ∀ size, (Dispatcher.rbRgTcpSinkThread ok s.dispatcher).1.location ≠ .sending size) :
    s.sinkThread ok = ({ s with dispatcher := (Dispatcher.rbRgTcpSinkThread ok s.dispatcher).1 },
      (Dispatcher.rbRgTcpSinkThread ok s.dispatcher).2.map .ring) := by
  unfold sinkThread
  dsimp only
  split
  · exact absurd (by assumption) (h _)
  · exact absurd (by assumption) (h' _)
  · rfl

/-- What a turn does to the queue: what is polled goes out at the front. -/
theorem queue_turn {d : Dispatcher} {as bs : List Message} (h : d.Queued pid as bs)
    (hjitter : d.NoJitter) (ok : Bool) :
    ∃ as' bs', (Dispatcher.rbRgTcpSinkThread ok d).1.Queued pid as' bs' ∧
      (Dispatcher.rbRgTcpSinkThread ok d).1.NoJitter ∧
      (as ++ bs).map Message.bytes
          ++ (Dispatcher.rbRgTcpSinkThread ok d).2.flatMap DispatchOutput.acceptedMessage
        = (Dispatcher.rbRgTcpSinkThread ok d).2.flatMap DispatchOutput.polledMessage
          ++ (as' ++ bs').map Message.bytes := by
  obtain ⟨as', bs', hqueued, hring⟩ := Dispatcher.sinkThread_ring .tcp ok h
  exact ⟨as', bs', hqueued, Dispatcher.sinkThread_noJitter ok hjitter, hring.balance⟩

/-- A turn that shows nothing leaves the messages of the queue. -/
theorem queue_turn_of_quiet {d : Dispatcher} {as bs : List Message} (h : d.Queued pid as bs)
    (hjitter : d.NoJitter) {ok : Bool} (hos : (Dispatcher.rbRgTcpSinkThread ok d).2 = []) :
    ∃ as' bs', (Dispatcher.rbRgTcpSinkThread ok d).1.Queued pid as' bs' ∧
      (Dispatcher.rbRgTcpSinkThread ok d).1.NoJitter ∧
      (as ++ bs).map Message.bytes = (as' ++ bs').map Message.bytes := by
  obtain ⟨as', bs', hqueued, hjitter', hbalance⟩ := queue_turn h hjitter ok
  rw [hos, List.flatMap_nil, List.flatMap_nil, List.append_nil, List.nil_append] at hbalance
  exact ⟨as', bs', hqueued, hjitter', hbalance⟩

/-- The thread is behind the send function. -/
theorem not_sending_of_inner {d : Dispatcher} (h : d.location = .inner) (size : RgLength) :
    d.location ≠ .sending size := by
  rw [h]
  exact fun heq => by cases heq

/-- **The thread returns from the send function**: the payload in flight is done with, and a write
that fails leaves no socket. -/
theorem History.returns (h : History pid os s) {ok : Bool} {size : RgLength}
    (hlocation : s.dispatcher.location = .sending size)
    (hlocation' : (Dispatcher.rbRgTcpSinkThread ok s.dispatcher).1.location = .inner)
    (hbytes : (Dispatcher.rbRgTcpSinkThread ok s.dispatcher).1.bytesSent
      = s.dispatcher.bytesSent + (if ok then UInt64.ofNat size.toNatClampNeg else 0))
    (hfailed : (Dispatcher.rbRgTcpSinkThread ok s.dispatcher).1.failedSends
      = s.dispatcher.failedSends + (if ok then 0 else 1))
    (hos : (Dispatcher.rbRgTcpSinkThread ok s.dispatcher).2 = []) :
    History pid (os ++ (s.sinkThread ok).2) (s.sinkThread ok).1 := by
  have hsize := h.sending size hlocation
  have hnot := not_sending_of_inner hlocation'
  -- the event, and the socket that is left, depend on whether the write succeeded
  have hshows : ∀ (e : LinkEvent) (s' : TcpSink),
      s'.dispatcher = (Dispatcher.rbRgTcpSinkThread ok s.dispatcher).1 →
      settledPayload e = [s.dispatcher.payload] → Link.Step Connector.Cautious s.link e s'.link →
      (if ok then UInt64.ofNat size.toNatClampNeg else 0) = UInt64.ofNat (countedBytes e) →
      (if ok then 0 else 1) = UInt64.ofNat (countedFailures e) → History pid (os ++ [.link e]) s' := by
    intro e s' hdispatcher hsettles hlink hcounts hcounts'
    rw [← hdispatcher] at hnot hbytes hfailed
    refine h.shows ⟨fun as bs hqueued => ?_, ?_, hlink, fun size hsize => absurd hsize (hnot size),
      hcounts ▸ hbytes, hcounts' ▸ hfailed⟩ [] rfl
    · obtain ⟨as', bs', hqueued', -, hbalance⟩ := queue_turn_of_quiet hqueued h.noJitter hos
      refine ⟨as', bs', hdispatcher ▸ hqueued', ?_⟩
      rw [inFlight_of_sending hlocation, inFlight_of_not_sending hnot, hsettles, hbalance,
        List.append_nil]
    · rw [hdispatcher]
      exact Dispatcher.sinkThread_noJitter ok h.noJitter
  rw [sinkThread_of_sending hlocation]
  cases ok with
  | true =>
      refine hshows _ _ rfl rfl ?_ (congrArg UInt64.ofNat hsize) rfl
      rw [link_of_sending hlocation, link_of_not_sending hnot]
      exact .written _ s.writes s.dispatcher.payload rfl
  | false =>
      refine hshows _ _ rfl rfl ?_ rfl rfl
      rw [link_of_sending hlocation, link_of_not_sending hnot]
      exact .failed _ s.writes s.dispatcher.payload rfl

/-- The thread waits or tests something. -/
theorem History.idles (h : History pid os s) {ok : Bool}
    (hnot : ∀ size, s.dispatcher.location ≠ .sending size)
    (hnot' : ∀ size, (Dispatcher.rbRgTcpSinkThread ok s.dispatcher).1.location ≠ .sending size)
    (hbytes : (Dispatcher.rbRgTcpSinkThread ok s.dispatcher).1.bytesSent = s.dispatcher.bytesSent)
    (hfailed : (Dispatcher.rbRgTcpSinkThread ok s.dispatcher).1.failedSends
      = s.dispatcher.failedSends)
    (hos : (Dispatcher.rbRgTcpSinkThread ok s.dispatcher).2 = []) :
    History pid (os ++ (s.sinkThread ok).2) (s.sinkThread ok).1 := by
  obtain ⟨as, bs, hqueued, hqueue⟩ := h.queue
  obtain ⟨as', bs', hqueued', hjitter', hbalance⟩ := queue_turn_of_quiet hqueued h.noJitter hos
  have hlink := h.link
  rw [link_of_not_sending hnot] at hlink
  rw [sinkThread_of_idles hnot hnot', hos, List.map_nil, List.append_nil]
  refine ⟨⟨as', bs', hqueued', ?_⟩, hjitter', ?_, fun size hsize => absurd hsize (hnot' size),
    hbytes.trans h.bytesSent, hfailed.trans h.failedSends⟩
  · rw [hqueue, inFlight_of_not_sending hnot, inFlight_of_not_sending hnot', hbalance]
  · rw [link_of_not_sending hnot']
    exact hlink

/-- The message that the thread takes was the first one of the queue. -/
theorem queue_takes {d : Dispatcher} {as bs : List Message} (h : d.Queued pid as bs)
    (hjitter : d.NoJitter) {ok : Bool} {m : Message}
    (hos : (Dispatcher.rbRgTcpSinkThread ok d).2 = [.polled m.bytes, .sent m.bytes]) :
    ∃ as' bs', (Dispatcher.rbRgTcpSinkThread ok d).1.Queued pid as' bs' ∧
      (Dispatcher.rbRgTcpSinkThread ok d).1.NoJitter ∧
      (as ++ bs).map Message.bytes = m.bytes :: (as' ++ bs').map Message.bytes := by
  obtain ⟨as', bs', hqueued, hjitter', hbalance⟩ := queue_turn h hjitter ok
  rw [hos] at hbalance
  simp only [List.flatMap_cons, List.flatMap_nil, DispatchOutput.acceptedMessage,
    DispatchOutput.polledMessage, List.append_nil] at hbalance
  exact ⟨as', bs', hqueued, hjitter', hbalance⟩

/-- **The thread takes a message while there is a socket**: it is in flight. -/
theorem History.sends (h : History pid os s) {ok : Bool} {m : Message} {connection : Nat}
    (hsock : s.sock = some connection) (hnot : ∀ size, s.dispatcher.location ≠ .sending size)
    (hlocation : (Dispatcher.rbRgTcpSinkThread ok s.dispatcher).1.location
      = .sending (Int16.ofNat m.size))
    (hpayload : (Dispatcher.rbRgTcpSinkThread ok s.dispatcher).1.payload = m.bytes)
    (hbytes : (Dispatcher.rbRgTcpSinkThread ok s.dispatcher).1.bytesSent = s.dispatcher.bytesSent)
    (hfailed : (Dispatcher.rbRgTcpSinkThread ok s.dispatcher).1.failedSends
      = s.dispatcher.failedSends)
    (hos : (Dispatcher.rbRgTcpSinkThread ok s.dispatcher).2 = [.polled m.bytes, .sent m.bytes]) :
    History pid (os ++ (s.sinkThread ok).2) (s.sinkThread ok).1 := by
  rw [sinkThread_of_takes hnot hlocation]
  dsimp only
  rw [hsock, hos, hpayload]
  refine h.shows (e := .writing connection m.bytes) ⟨fun as bs hqueued => ?_,
    Dispatcher.sinkThread_noJitter ok h.noJitter, ?_, fun size hsending => ?_,
    hbytes.trans (UInt64.add_zero _).symm, hfailed.trans (UInt64.add_zero _).symm⟩ _ rfl
  · obtain ⟨as', bs', hqueued', -, hbalance⟩ := queue_takes hqueued h.noJitter hos
    refine ⟨as', bs', hqueued', ?_⟩
    rw [inFlight_of_not_sending hnot, inFlight_of_sending hlocation, hpayload, hbalance]
    rfl
  · rw [link_of_not_sending hnot, link_of_sending hlocation, hpayload, hsock]
    exact .writing _ connection m.bytes rfl rfl
  · obtain rfl : Int16.ofNat m.size = size :=
      Location.sending.inj (hlocation.symm.trans hsending)
    rw [m.size_toNat, hpayload]
    rfl

/-- **The thread takes a message while there is no socket**: the send function gives it up and
returns. -/
theorem History.drops (h : History pid os s) {ok : Bool} {m : Message} (hsock : s.sock = none)
    (hnot : ∀ size, s.dispatcher.location ≠ .sending size)
    (hlocation : (Dispatcher.rbRgTcpSinkThread ok s.dispatcher).1.location
      = .sending (Int16.ofNat m.size))
    (hpayload : (Dispatcher.rbRgTcpSinkThread ok s.dispatcher).1.payload = m.bytes)
    (hbytes : (Dispatcher.rbRgTcpSinkThread ok s.dispatcher).1.bytesSent = s.dispatcher.bytesSent)
    (hfailed : (Dispatcher.rbRgTcpSinkThread ok s.dispatcher).1.failedSends
      = s.dispatcher.failedSends)
    (hos : (Dispatcher.rbRgTcpSinkThread ok s.dispatcher).2 = [.polled m.bytes, .sent m.bytes]) :
    History pid (os ++ (s.sinkThread ok).2) (s.sinkThread ok).1 := by
  obtain ⟨as, bs, hqueued, -⟩ := h.queue
  obtain ⟨as', bs', hqueued', hjitter', -⟩ := queue_takes hqueued h.noJitter hos
  rw [sinkThread_of_takes hnot hlocation]
  dsimp only
  rw [hsock, hos, hpayload]
  -- the thread is in the send function, so that its next turn returns from it
  cases turn hqueued' hjitter' true with
  | takes _ hnot' => exact absurd hlocation (hnot' _)
  | idles hnot' => exact absurd hlocation (hnot' _)
  | returns size hsending hreturned hbytes' hfailed' hos' =>
      obtain rfl : Int16.ofNat m.size = size :=
        Location.sending.inj (hlocation.symm.trans hsending)
      have hnot'' := not_sending_of_inner hreturned
      rw [if_pos rfl, m.size_toNat, hbytes] at hbytes'
      rw [if_pos rfl, hfailed] at hfailed'
      refine h.shows (e := .dropped m.bytes) ⟨fun as bs hqueued => ?_,
        Dispatcher.sinkThread_noJitter true hjitter', ?_,
        fun size hsending => absurd hsending (hnot'' size), hbytes', hfailed'⟩ _ rfl
      · obtain ⟨as', bs', hqueued', hjitter', hbalance⟩ := queue_takes hqueued h.noJitter hos
        obtain ⟨as'', bs'', hqueued'', -, hbalance'⟩ :=
          queue_turn_of_quiet hqueued' hjitter' hos'
        refine ⟨as'', bs'', hqueued'', ?_⟩
        rw [inFlight_of_not_sending hnot, inFlight_of_not_sending hnot'', hbalance, hbalance']
        rfl
      · rw [link_of_not_sending hnot, link_of_not_sending hnot'', hsock]
        exact .dropped _ m.bytes rfl rfl

/-- **A turn of the dispatcher thread** keeps the account. -/
theorem History.sinkThread (h : History pid os s) (ok : Bool) :
    History pid (os ++ (s.sinkThread ok).2) (s.sinkThread ok).1 := by
  obtain ⟨as, bs, hqueued, -⟩ := h.queue
  cases turn hqueued h.noJitter ok with
  | returns size hlocation hlocation' hbytes hfailed hos =>
      exact h.returns hlocation hlocation' hbytes hfailed hos
  | idles hnot hnot' hbytes hfailed hos => exact h.idles hnot hnot' hbytes hfailed hos
  | takes m hnot hlocation hpayload hbytes hfailed hos =>
      cases hsock : s.sock with
      | some connection => exact h.sends hsock hnot hlocation hpayload hbytes hfailed hos
      | none => exact h.drops hsock hnot hlocation hpayload hbytes hfailed hos

/-- **A step of a producer** keeps the account. -/
theorem History.produce (h : History pid os s) {input : DispatchInput}
    (hproducer : ∀ ok, input ≠ .dispatch ok) :
    History pid (os ++ (s.dispatcher.step .tcp input).2.map .ring)
      { s with dispatcher := (s.dispatcher.step .tcp input).1 } := by
  obtain ⟨as, bs, hqueued, hqueue⟩ := h.queue
  obtain ⟨as', bs', hqueued', hring⟩ := Dispatcher.step_ring .tcp hqueued input
  have hjitter' := Dispatcher.step_noJitter h.noJitter input
  have hbalance := hring.balance
  -- only the sink data changes, and nothing is polled
  have hkeeps : (s.dispatcher.step .tcp input).1.location = s.dispatcher.location ∧
      (s.dispatcher.step .tcp input).1.payload = s.dispatcher.payload ∧
      (s.dispatcher.step .tcp input).1.bytesSent = s.dispatcher.bytesSent ∧
      (s.dispatcher.step .tcp input).1.failedSends = s.dispatcher.failedSends ∧
      (s.dispatcher.step .tcp input).2.flatMap DispatchOutput.polledMessage = [] := by
    rw [Dispatcher.step_produce .tcp s.dispatcher hproducer]
    split
    · exact ⟨rfl, rfl, rfl, rfl, (offerOutput_quiet _).1⟩
    · exact ⟨rfl, rfl, rfl, rfl, rfl⟩
  obtain ⟨hlocation, hpayload, hbytes, hfailed, hpolled⟩ := hkeeps
  rw [hpolled, List.nil_append] at hbalance
  have hinFlight : TcpSink.inFlight { s with dispatcher := (s.dispatcher.step .tcp input).1 }
      = s.inFlight := by
    rw [inFlight, inFlight, hlocation, hpayload]
  have hlinked : TcpSink.link { s with dispatcher := (s.dispatcher.step .tcp input).1 } = s.link := by
    rw [TcpSink.link, TcpSink.link, hlocation, hpayload]
  refine ⟨⟨as', bs', hqueued', ?_⟩, hjitter', ?_, fun size hsize => ?_, ?_, ?_⟩
  · rw [List.flatMap_append, accepted_ring, linkEvents_append, linkEvents_ring, List.append_nil,
      hinFlight, ← hbalance, hqueue, List.append_assoc]
  · rw [linkEvents_append, linkEvents_ring, List.append_nil, hlinked]
    exact h.link
  · have hlength := h.sending size (hlocation.symm.trans hsize)
    exact hlength.trans (congrArg List.length hpayload.symm)
  · rw [linkEvents_append, linkEvents_ring, List.append_nil]
    exact hbytes.trans h.bytesSent
  · rw [linkEvents_append, linkEvents_ring, List.append_nil]
    exact hfailed.trans h.failedSends

/-- **A step of a thread that connects** keeps the account: it moves no message. -/
theorem History.connects (h : History pid os s) {s' : TcpSink} {e : LinkEvent}
    (hdispatcher : s'.dispatcher = s.dispatcher) (hstep : Link.Step Connector.Cautious s.link e s'.link)
    (hsettles : settledPayload e = []) (hbytes : countedBytes e = 0)
    (hfailures : countedFailures e = 0) : History pid (os ++ [.link e]) s' := by
  have hinFlight : s'.inFlight = s.inFlight := by
    rw [inFlight, inFlight, hdispatcher]
  refine h.shows ⟨fun as bs hqueued => ⟨as, bs, hdispatcher ▸ hqueued, ?_⟩,
    hdispatcher ▸ h.noJitter, hstep, hdispatcher ▸ h.sending, ?_, ?_⟩ [] rfl
  · rw [hinFlight, hsettles, List.nil_append]
  · rw [hdispatcher, hbytes]
    exact (UInt64.add_zero _).symm
  · rw [hdispatcher, hfailures]
    exact (UInt64.add_zero _).symm

/-- **Every step** keeps the account. -/
theorem History.step (h : History pid os s) (input : TcpInput) :
    History pid (os ++ (s.step input).2) (s.step input).1 := by
  have hquiet : History pid (os ++ []) s := by
    rwa [List.append_nil]
  cases input with
  | dispatcher input =>
      cases input with
      | dispatch ok => exact h.sinkThread ok
      | offer m => exact @produce _ _ _ h (.offer m) fun ok heq => by cases heq
      | call c => exact @produce _ _ _ h (.call c) fun ok heq => by cases heq
      | stop => exact @produce _ _ _ h (.stop) fun ok heq => by cases heq
  | set =>
      rw [TcpSink.step]
      split
      · exact h.connects rfl (.connecting s.link .tcpSinkSet nofun) rfl rfl rfl
      · exact hquiet
  | connect =>
      rw [TcpSink.step]
      split
      · rename_i hdown
        exact h.connects rfl (.connecting s.link .timerThread fun _ => hdown.2.2.1) rfl rfl rfl
      · exact hquiet
  | returned thread ok =>
      rw [TcpSink.step]
      split
      · rename_i hconnecting
        cases ok with
        | true => exact h.connects rfl (.connected s.link thread hconnecting.2) rfl rfl rfl
        | false => exact h.connects rfl (.refused s.link thread hconnecting.2) rfl rfl rfl
      · exact hquiet

/-- A sink at the start has the account of no outputs. -/
theorem history_fresh (pid : UInt32) {memory : Bytes} (hmemory : memory.length < 2 ^ 32) :
    History pid [] (fresh pid memory) where
  queue := ⟨[], [], Dispatcher.fresh_queued pid hmemory 0, rfl⟩
  noJitter := fun _ _ => by simp [fresh, Dispatcher.fresh]
  link := .nil _
  sending := fun size hsize => by simp [fresh, Dispatcher.fresh] at hsize
  bytesSent := rfl
  failedSends := rfl

/-- **TCP with reconnects.** In every run each accepted message is written, lost in a failed write,
dropped, in flight or in the ring, in the order of acceptance; what goes to one connection is a
contiguous run, of which only the last message can be lost; and from a connection to the one that
the timer thread makes next, a run of messages is written, one write fails and the rest is dropped,
unless another attempt to connect returns in between. `bytes_sent` counts the dropped messages as
well as the written ones. -/
theorem tcp_reconnect (pid : UInt32) (memory : Bytes) (hmemory : memory.length < 2 ^ 32)
    (inputs : List TcpInput) :
    TcpDelivers (Mealy.run step (fresh pid memory) inputs).2
      (Mealy.run step (fresh pid memory) inputs).1 := by
  have h := @Mealy.run_history _ _ _ step (History pid) (fun _ _ input h => h.step input) _ _
    (history_fresh pid hmemory) inputs
  rw [List.nil_append] at h
  obtain ⟨as, bs, hqueued, hqueue⟩ := h.queue
  refine ⟨⟨as ++ bs, ?_, hqueue⟩, h.link, h.link.contiguous, ?_, ?_, h.bytesSent, h.failedSends⟩
  · rw [Bipbuf.contents, hqueued.tiled.regionA, hqueued.tiled.regionB, messageBytes_append]
  · intro before connection payload after hsplit
    have hlink := h.link
    rw [hsplit] at hlink
    exact hlink.not_on_of_failed
  · intro before thread waiting trying after hsplit hwaiting htrying
    have hlink := h.link
    rw [hsplit] at hlink
    obtain ⟨_, hbetween, -⟩ := hlink.split
    have hcautious : Connector.Cautious .timerThread := rfl
    exact hbetween.between_connections hcautious hwaiting htrying

/-- The end of a transaction. -/
def endOfTransaction : Event := { pid := 7, tid := 1, timestamp := 0, data := .endTransaction }

/-- A message is polled before there is a connection. Then both threads connect at the same time:
the timer thread succeeds, and the attempt of `rb_rg_tracer_tcp_sink_set` fails later and takes its
connection away. The timer thread connects again, a write fails, and it connects once more. -/
def failingWrite : List TcpInput :=
  [.dispatcher (.call (.event endOfTransaction.command)), .dispatcher (.call .null),
    .dispatcher (.dispatch true), .dispatcher (.dispatch true), .dispatcher (.dispatch true),
    .dispatcher (.dispatch true), .dispatcher (.dispatch true), .set, .connect,
    .returned .timerThread true, .returned .tcpSinkSet false, .connect, .returned .timerThread true,
    .dispatcher (.call (.event endOfTransaction.command)), .dispatcher (.call .null),
    .dispatcher (.dispatch true), .dispatcher (.dispatch true), .dispatcher (.dispatch true),
    .dispatcher (.dispatch false), .dispatcher (.dispatch true), .dispatcher (.dispatch true),
    .connect, .returned .timerThread true]

/-- There are three connections; one message is dropped, and the other one lost. -/
theorem tcp_reconnect_failingWrite :
    (Mealy.run step (fresh 7 (List.replicate 128 0)) failingWrite).1.connections = 3 ∧
      Link.destinations (linkEvents (Mealy.run step (fresh 7 (List.replicate 128 0)) failingWrite).2)
        (Mealy.run step (fresh 7 (List.replicate 128 0)) failingWrite).1.link = [none, some 1] ∧
      TcpDelivers (Mealy.run step (fresh 7 (List.replicate 128 0)) failingWrite).2
        (Mealy.run step (fresh 7 (List.replicate 128 0)) failingWrite).1 :=
  ⟨by decide +kernel, by decide +kernel,
    tcp_reconnect 7 (List.replicate 128 0) (by decide +kernel) failingWrite⟩

end TcpSink

end RaygunApm
