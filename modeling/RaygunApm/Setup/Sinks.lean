import RaygunApm.Dispatch.Thread
import RaygunApm.Wire.Variable

/-! # Setting up a sink

`callback_sink=`, `udp_sink` and `tcp_sink` check their arguments first, and change nothing when a
check fails. The transports go on in steps that can fail each: the encoder gets the batched sink,
the ring is allocated, the payload is registered with the garbage collector, and the thread is
started. Only then the type of the sink is set. So a tracer can be left with a batched sink and no
ring, which the next event or flush dereferences, and with a ring and a registration that
`rb_rg_tracer_free` does not take back. What a tracer is left with is what has come out of its
setups (`setups_run`). -/

namespace RaygunApm

/-! ## The setups -/

/-- A Ruby value, as far as the setups look at it. -/
inductive SinkArgument where
  | nil
  | string (bytes : Bytes)
  | integer (n : Int)
  | proc (arity : Int)
  /-- Another object, and the methods it responds to. -/
  | object (id : Nat) (send connect : Bool)
  deriving DecidableEq

namespace SinkArgument

/-- The argument responds to `send` and `connect`. Every object has a `send`, if not a basic one. -/
def isSocket : SinkArgument → Bool
  | .object _ send connect => send && connect
  | _ => false

/-- `T_STRING`. -/
def isString : SinkArgument → Bool
  | .string _ => true
  | _ => false

/-- `T_FIXNUM`. -/
def isFixnum : SinkArgument → Bool
  | .integer n => RaygunApm.isFixnum n
  | _ => false

/-- `NUM2INT`. -/
def num2Int : SinkArgument → Option Int32
  | .integer n => RaygunApm.num2Int n
  | _ => none

end SinkArgument

/-- `RB_RG_TRACER_SINK_NONE` and so on. -/
inductive SinkType where
  | none
  | callback
  | transport (transport : Transport)
  deriving DecidableEq

/-- `context->sink`. -/
inductive EventSink where
  /-- `rg_event_sink_blackhole`. -/
  | blackhole
  /-- `rb_rg_callback_sink`. -/
  | callback
  /-- `rb_rg_batched_sink`. -/
  | batched
  deriving DecidableEq

/-- What comes out of a setup. -/
inductive SetupOutcome where
  /-- A check of the arguments or of the type has failed. -/
  | refused (message : String)
  /-- `NUM2INT` has raised a `RangeError`. -/
  | outOfRange
  /-- There is no memory for the ring. -/
  | noRing (message : String)
  /-- The thread could not be started. -/
  | noThread (message : String)
  | done (type : SinkType)
  deriving DecidableEq

/-- The part of the tracer that the setups look at. -/
structure SinkSetup where
  /-- `sink_data.type`. -/
  type : SinkType
  /-- `context->sink`. -/
  sink : EventSink
  callback : SinkArgument
  sock : SinkArgument
  host : SinkArgument
  port : SinkArgument
  /-- The sink data, with a ring or `NULL`. -/
  data : SinkData (Option Bipbuf)
  /-- The dispatcher thread in `sink_thread`. -/
  sinkThread : Option Transport
  /-- How many rings are allocated. -/
  rings : Nat
  /-- How often the address of the payload is registered with the garbage collector. -/
  registrations : Nat
  /-- `NULL` has been dereferenced. -/
  crashed : Bool
  deriving DecidableEq

namespace SinkSetup

/-- `rb_rg_tracer_alloc`. -/
def new (pid : UInt32) : SinkSetup where
  type := .none
  sink := .blackhole
  callback := .nil
  sock := .nil
  host := .nil
  port := .nil
  data := freshSink pid none 0
  sinkThread := none
  rings := 0
  registrations := 0
  crashed := false

/-- `rb_rg_tracer_callback_sink_set`. -/
def rbRgTracerCallbackSinkSet (callback : SinkArgument) (s : SinkSetup) : SinkSetup × SetupOutcome :=
  match callback with
  | .proc arity =>
      if arity ≠ 1 then (s, .refused "Expected a sink callback that accepts exactly 1 argument")
      else if s.type ≠ .none then (s, .refused "Only one profiler sink can be set!")
      else
        ({ s with sink := .callback, callback := callback, type := .callback }, .done .callback)
  | _ => (s, .refused "Expected a Proc callback as sink")

/-- The part of a setup behind the receive buffer size. `memory` is the allocated block, and
`starts` tells whether the thread can be started. -/
def startSinkThread (transport : Transport) (message : String) (memory : Option Bytes) (starts : Bool)
    (s : SinkSetup) : SinkSetup × SetupOutcome :=
  match memory with
  | none => ({ s with data := { s.data with ringbuf := none } }, .noRing "Could not allocate bipbuf")
  | some memory =>
      let s := { s with
        data := { s.data with ringbuf := some (bipbufNew memory), running := true }
        rings := s.rings + 1
        registrations := s.registrations + 1 }
      if starts then
        ({ s with sinkThread := some transport, type := .transport transport },
          .done (.transport transport))
      else ({ s with sinkThread := none }, .noThread message)

/-- `rb_rg_tracer_udp_sink_set`. -/
def rbRgTracerUdpSinkSet (socket host port receiveBufferSize : SinkArgument) (memory : Option Bytes)
    (starts : Bool) (s : SinkSetup) : SinkSetup × SetupOutcome :=
  if ¬ socket.isSocket then
    (s, .refused "Expected a UDP socket that responds to 'send' and 'connect'")
  else if ¬ host.isString then
    (s, .refused "Expected the UDP socket hostname to be a string")
  else if ¬ port.isFixnum then
    (s, .refused "Expected the UDP socket port to be a numerical value")
  else if ¬ receiveBufferSize.isFixnum then
    (s, .refused "Expected the UDP receive buffer size to be a numerical value")
  else if s.type ≠ .none then (s, .refused "Only one profiler sink can be set!")
  else
    let s := { s with sink := .batched, sock := socket, host := host, port := port }
    match receiveBufferSize.num2Int with
    | none => (s, .outOfRange)
    | some n =>
        { s with data := { s.data with receiveBufferSize := n.toInt } }.startSinkThread .udp
          "Could not start the UDP sink dispatch thread" memory starts

/-- `rb_rg_tracer_tcp_sink_set`. `connected` is the socket that the attempt to connect returns. -/
def rbRgTracerTcpSinkSet (host port : SinkArgument) (memory : Option Bytes) (starts : Bool)
    (connected : SinkArgument) (s : SinkSetup) : SinkSetup × SetupOutcome :=
  if ¬ host.isString then
    (s, .refused "Expected the TCP socket hostname to be a string")
  else if ¬ port.isFixnum then
    (s, .refused "Expected the TCP socket port to be a numerical value")
  else if s.type ≠ .none then (s, .refused "Only one profiler sink can be set!")
  else
    let s := { s with
      sink := .batched
      sock := .nil
      host := host
      port := port
      data := { s.data with receiveBufferSize := 0 } }
    match s.startSinkThread .tcp "Could not start the TCP sink dispatch thread" memory starts with
    | (s, .done type) => ({ s with sock := connected }, .done type)
    | (s, outcome) => (s, outcome)

/-- The part of `rb_rg_tracer_free` for the sink. -/
def rbRgTracerFree (s : SinkSetup) : SinkSetup :=
  match s.type with
  | .transport _ =>
      { s with
        rings := if s.data.ringbuf.isSome then s.rings - 1 else s.rings
        registrations := s.registrations - 1 }
  | _ => s

/-- A call of `context->sink`. -/
def emit (call : SinkCall) (s : SinkSetup) : SinkSetup :=
  match s.sink with
  | .blackhole | .callback => s
  | .batched =>
      match s.data.ringbuf with
      | none => { s with crashed := true }
      | some ringbuf =>
          let data := (call.perform bipbufRing { s.data with ringbuf := ringbuf }).1
          { s with data := { data with ringbuf := some data.ringbuf } }

end SinkSetup

/-- A setup, or a call of the sink. -/
inductive SetupInput where
  | callbackSink (callback : SinkArgument)
  | udpSink (socket host port receiveBufferSize : SinkArgument) (memory : Option Bytes)
    (starts : Bool)
  | tcpSink (host port : SinkArgument) (memory : Option Bytes) (starts : Bool)
    (connected : SinkArgument)
  /-- An event, or a flush of the timer thread. -/
  | emit (call : SinkCall)

namespace SinkSetup

/-- The result of a setup. -/
def result (r : SinkSetup × SetupOutcome) : SinkSetup × List SetupOutcome := (r.1, [r.2])

/-- One step. Nothing happens behind a crash. -/
def step (s : SinkSetup) (input : SetupInput) : SinkSetup × List SetupOutcome :=
  if s.crashed then (s, [])
  else
    match input with
    | .callbackSink callback => result (s.rbRgTracerCallbackSinkSet callback)
    | .udpSink socket host port receiveBufferSize memory starts =>
        result (s.rbRgTracerUdpSinkSet socket host port receiveBufferSize memory starts)
    | .tcpSink host port memory starts connected =>
        result (s.rbRgTracerTcpSinkSet host port memory starts connected)
    | .emit call => (s.emit call, [])

/-- The steps one after the other. -/
def run : SinkSetup → List SetupInput → SinkSetup × List SetupOutcome := Mealy.run step

end SinkSetup

namespace SetupOutcome

/-- The type of the sink behind a setup. -/
def typeAfter (type : SinkType) : SetupOutcome → SinkType
  | .done type' => type'
  | _ => type

/-- The sink of the encoder behind a setup. -/
def sinkAfter (sink : EventSink) : SetupOutcome → EventSink
  | .refused _ => sink
  | .done .callback => .callback
  | _ => .batched

/-- Whether there is a ring behind a setup. -/
def ringAfter (ring : Bool) : SetupOutcome → Bool
  | .noRing _ => false
  | .noThread _ | .done (.transport _) => true
  | _ => ring

/-- The setup has failed with a ring. -/
def Leaks : SetupOutcome → Bool
  | .noThread _ => true
  | _ => false

end SetupOutcome

/-! ## What a setup does -/

namespace SinkSetup

variable {s s' : SinkSetup} {o : SetupOutcome} {os : List SetupOutcome} {pid : UInt32}

/-- What a setup can do. -/
inductive Sets (s : SinkSetup) : SinkSetup → SetupOutcome → Prop
  | refused (message : String) : Sets s s (.refused message)
  | callback (callback : SinkArgument) (hnone : s.type = .none) :
      Sets s { s with sink := .callback, callback := callback, type := .callback } (.done .callback)
  | outOfRange (sock host port : SinkArgument) (hnone : s.type = .none) :
      Sets s { s with sink := .batched, sock := sock, host := host, port := port } .outOfRange
  | noRing (sock host port : SinkArgument) (receiveBufferSize : Int) (message : String)
      (hnone : s.type = .none) :
      Sets s
        { s with
          sink := .batched, sock := sock, host := host, port := port
          data := { s.data with ringbuf := none, receiveBufferSize := receiveBufferSize } }
        (.noRing message)
  | noThread (sock host port : SinkArgument) (receiveBufferSize : Int) (memory : Bytes)
      (message : String) (hnone : s.type = .none) :
      Sets s
        { s with
          sink := .batched, sock := sock, host := host, port := port
          data := { s.data with
            ringbuf := some (bipbufNew memory), receiveBufferSize := receiveBufferSize, running := true }
          rings := s.rings + 1, registrations := s.registrations + 1, sinkThread := none }
        (.noThread message)
  | done (sock host port : SinkArgument) (receiveBufferSize : Int) (memory : Bytes)
      (transport : Transport) (hnone : s.type = .none) :
      Sets s
        { s with
          sink := .batched, sock := sock, host := host, port := port
          data := { s.data with
            ringbuf := some (bipbufNew memory), receiveBufferSize := receiveBufferSize, running := true }
          rings := s.rings + 1, registrations := s.registrations + 1
          sinkThread := some transport, type := .transport transport }
        (.done (.transport transport))

/-- `callback_sink=` is a setup. -/
theorem sets_callbackSinkSet (callback : SinkArgument) (s : SinkSetup) :
    s.Sets (s.rbRgTracerCallbackSinkSet callback).1 (s.rbRgTracerCallbackSinkSet callback).2 := by
  unfold rbRgTracerCallbackSinkSet
  split
  · split
    · exact .refused _
    · split
      · exact .refused _
      · rename_i hnone
        exact .callback _ (not_not.mp hnone)
  · exact .refused _

/-- `udp_sink=` is a setup. -/
theorem sets_udpSinkSet (socket host port receiveBufferSize : SinkArgument) (memory : Option Bytes)
    (starts : Bool) (s : SinkSetup) :
    s.Sets (s.rbRgTracerUdpSinkSet socket host port receiveBufferSize memory starts).1
      (s.rbRgTracerUdpSinkSet socket host port receiveBufferSize memory starts).2 := by
  unfold rbRgTracerUdpSinkSet
  iterate 4
    split
    next => exact .refused _
  split
  next => exact .refused _
  next hnone =>
    have hnone := not_not.mp hnone
    dsimp only
    cases receiveBufferSize.num2Int with
    | none => exact .outOfRange _ _ _ hnone
    | some n =>
        cases memory with
        | none => exact .noRing _ _ _ _ _ hnone
        | some memory =>
            cases starts with
            | false => exact .noThread _ _ _ _ _ _ hnone
            | true => exact .done _ _ _ _ _ _ hnone

/-- `tcp_sink=` is a setup. -/
theorem sets_tcpSinkSet (host port : SinkArgument) (memory : Option Bytes) (starts : Bool)
    (connected : SinkArgument) (s : SinkSetup) :
    s.Sets (s.rbRgTracerTcpSinkSet host port memory starts connected).1
      (s.rbRgTracerTcpSinkSet host port memory starts connected).2 := by
  unfold rbRgTracerTcpSinkSet
  iterate 2
    split
    next => exact .refused _
  split
  next => exact .refused _
  next hnone =>
    have hnone := not_not.mp hnone
    cases memory with
    | none => exact .noRing _ _ _ _ _ hnone
    | some memory =>
        cases starts with
        | false => exact .noThread _ _ _ _ _ _ hnone
        | true => exact .done _ _ _ _ _ _ hnone

/-- What a setup does to the type, the sink and the ring is in its outcome. -/
theorem Sets.after (h : s.Sets s' o) :
    s'.type = o.typeAfter s.type ∧ s'.sink = o.sinkAfter s.sink ∧
      s'.data.ringbuf.isSome = o.ringAfter s.data.ringbuf.isSome := by
  cases h <;> exact ⟨rfl, rfl, rfl⟩

/-- A call of the sink changes the sink data only, but for a crash, and the ring stays there. -/
theorem emit_spec (call : SinkCall) (s : SinkSetup) :
    ∃ data crashed, s.emit call = { s with data := data, crashed := crashed } ∧
      data.ringbuf.isSome = s.data.ringbuf.isSome ∧
      (s.sink ≠ .batched ∨ s.data.ringbuf = none → data = s.data) ∧
      (crashed = true ↔ s.crashed = true ∨ s.sink = .batched ∧ s.data.ringbuf.isSome = false) := by
  unfold emit
  split
  next hsink => exact ⟨s.data, s.crashed, rfl, rfl, fun _ => rfl, by simp [hsink]⟩
  next hsink => exact ⟨s.data, s.crashed, rfl, rfl, fun _ => rfl, by simp [hsink]⟩
  next hsink =>
    split
    next hring => exact ⟨s.data, true, rfl, rfl, fun _ => rfl, by simp [hsink, hring]⟩
    next ringbuf hring =>
      exact ⟨_, s.crashed, rfl, by rw [hring]; rfl, by simp [hsink, hring], by simp [hring]⟩

/-! ## The history -/

/-- What a tracer is left with by its setups. -/
structure History (pid : UInt32) (os : List SetupOutcome) (s : SinkSetup) : Prop where
  type : s.type = os.foldl SetupOutcome.typeAfter .none
  sink : s.sink = os.foldl SetupOutcome.sinkAfter .blackhole
  ring : s.data.ringbuf.isSome = os.foldl SetupOutcome.ringAfter false
  /-- The ring and the registration of a transport are those that `rb_rg_tracer_free` takes back. -/
  transport : ∀ transport, s.type = .transport transport → s.data.ringbuf.isSome ∧
    s.rings = os.countP SetupOutcome.Leaks + 1 ∧ s.registrations = os.countP SetupOutcome.Leaks + 1
  leaks : (∀ transport, s.type ≠ .transport transport) →
    s.rings = os.countP SetupOutcome.Leaks ∧ s.registrations = os.countP SetupOutcome.Leaks
  done : ∀ type, .done type ∈ os → s.type = type ∧ type ≠ .none
  once : ∀ before type after, os = before ++ .done type :: after →
    ∀ o ∈ after, ∃ message, o = .refused message
  /-- Until a ring is there the sink data are new. -/
  fresh : s.type = .none → os.countP SetupOutcome.Leaks = 0 →
    s.data = freshSink pid none s.data.receiveBufferSize

/-- Behind a setup that is done, another one has been refused. -/
theorem History.once_concat (h : History pid os s) (hsets : s.Sets s' o) :
    ∀ before type after, os ++ [o] = before ++ .done type :: after →
      ∀ o ∈ after, ∃ message, o = .refused message := by
  intro before type after hsplit o' ho'
  rcases List.eq_nil_or_concat' after with rfl | ⟨after, last, rfl⟩
  · cases ho'
  · have hconcat : os ++ [o] = (before ++ .done type :: after) ++ [last] := by
      simpa using hsplit
    obtain ⟨rfl, hlast⟩ := List.append_inj' hconcat rfl
    obtain rfl := List.singleton_injective hlast
    rcases List.mem_append.mp ho' with ho' | ho'
    · exact h.once before type after rfl o' ho'
    · obtain rfl := List.mem_singleton.mp ho'
      obtain ⟨htype, hne⟩ := h.done type (by simp)
      cases hsets with
      | refused message => exact ⟨message, rfl⟩
      | _ => exact absurd (htype.symm.trans ‹_›) hne

/-- The type, the sink and the ring are still what the outcomes say. -/
theorem History.after_concat (h : History pid os s) (hsets : s.Sets s' o) :
    s'.type = (os ++ [o]).foldl SetupOutcome.typeAfter .none ∧
      s'.sink = (os ++ [o]).foldl SetupOutcome.sinkAfter .blackhole ∧
      s'.data.ringbuf.isSome = (os ++ [o]).foldl SetupOutcome.ringAfter false := by
  obtain ⟨htype, hsink, hring⟩ := hsets.after
  refine ⟨?_, ?_, ?_⟩
  · rw [List.foldl_append, ← h.type]
    exact htype
  · rw [List.foldl_append, ← h.sink]
    exact hsink
  · rw [List.foldl_append, ← h.ring]
    exact hring

/-- What was done gives the type: a setup that was not refused is the first one to be done. -/
theorem History.done_concat (h : History pid os s) (hsets : s.Sets s' o) :
    ∀ type, .done type ∈ os ++ [o] → s'.type = type ∧ type ≠ .none := by
  intro type hmem
  rcases List.mem_append.mp hmem with hmem | hmem
  · obtain ⟨htype, hne⟩ := h.done type hmem
    cases hsets with
    | refused message => exact ⟨htype, hne⟩
    | _ => exact absurd (htype.symm.trans ‹_›) hne
  · obtain rfl := List.mem_singleton.mp hmem
    cases hsets with
    | callback callback hnone => exact ⟨rfl, by simp⟩
    | done sock host port receiveBufferSize memory transport hnone => exact ⟨rfl, by simp⟩

/-- **A setup adds to the history.** -/
theorem History.sets (h : History pid os s) (hsets : s.Sets s' o) : History pid (os ++ [o]) s' := by
  obtain ⟨htype, hsink, hring⟩ := h.after_concat hsets
  have hdone := h.done_concat hsets
  have honce := h.once_concat hsets
  have hcount : (os ++ [o]).countP SetupOutcome.Leaks
      = os.countP SetupOutcome.Leaks + if o.Leaks then 1 else 0 := by
    rw [List.countP_append, List.countP_singleton]
  have hfree (hnone : s.type = .none) : s.rings = os.countP SetupOutcome.Leaks ∧
      s.registrations = os.countP SetupOutcome.Leaks :=
    h.leaks fun transport htype => by
      rw [hnone] at htype
      cases htype
  cases hsets with
  | refused message =>
      refine ⟨htype, hsink, hring, ?_, ?_, hdone, honce, ?_⟩
      · rw [hcount]
        exact h.transport
      · rw [hcount]
        exact h.leaks
      · rw [hcount]
        exact h.fresh
  | callback callback hnone =>
      refine ⟨htype, hsink, hring, fun _ h => (by cases h), ?_, hdone, honce, fun h => (by cases h)⟩
      rw [hcount]
      exact fun _ => hfree hnone
  | outOfRange sock host port hnone =>
      refine ⟨htype, hsink, hring, ?_, ?_, hdone, honce, ?_⟩
      · rw [hcount]
        exact h.transport
      · rw [hcount]
        exact h.leaks
      · rw [hcount]
        exact h.fresh
  | noRing sock host port receiveBufferSize message hnone =>
      refine ⟨htype, hsink, hring, ?_, ?_, hdone, honce, ?_⟩
      · intro transport htransport
        exact absurd (htransport.symm.trans hnone) (by simp)
      · rw [hcount]
        exact h.leaks
      · intro _ hleaks
        rw [hcount] at hleaks
        dsimp only
        rw [h.fresh hnone hleaks]
        rfl
  | noThread sock host port receiveBufferSize memory message hnone =>
      refine ⟨htype, hsink, hring, ?_, ?_, hdone, honce, ?_⟩
      · intro transport htransport
        exact absurd (htransport.symm.trans hnone) (by simp)
      · rw [hcount]
        exact fun _ => ⟨congrArg (· + 1) (hfree hnone).1, congrArg (· + 1) (hfree hnone).2⟩
      · intro _ hleaks
        rw [hcount] at hleaks
        cases hleaks
  | done sock host port receiveBufferSize memory transport hnone =>
      refine ⟨htype, hsink, hring, ?_, ?_, hdone, honce, fun h => (by cases h)⟩
      · rw [hcount]
        exact fun _ _ => ⟨rfl, congrArg (· + 1) (hfree hnone).1, congrArg (· + 1) (hfree hnone).2⟩
      · exact fun hother => absurd rfl (hother transport)

/-- A call of the sink does not. -/
theorem History.emit (h : History pid os s) (call : SinkCall) : History pid os (s.emit call) := by
  obtain ⟨data, crashed, heq, hring, hdata, -⟩ := s.emit_spec call
  rw [heq]
  refine ⟨h.type, h.sink, hring.trans h.ring, ?_, h.leaks, h.done, h.once, ?_⟩
  · intro transport htype
    obtain ⟨hsome, hcounts⟩ := h.transport transport htype
    exact ⟨hring.trans hsome, hcounts⟩
  · intro htype hleaks
    have hfresh := h.fresh htype hleaks
    have hnone : s.data.ringbuf = none := by
      rw [hfresh]
      rfl
    have hsame : data = s.data := hdata (.inr hnone)
    dsimp only
    rw [hsame]
    exact hfresh

/-- **Every step adds to the history.** -/
theorem History.step (h : History pid os s) (input : SetupInput) :
    History pid (os ++ (s.step input).2) (s.step input).1 := by
  unfold SinkSetup.step
  split
  · rw [List.append_nil]
    exact h
  · cases input with
    | callbackSink callback => exact h.sets (s.sets_callbackSinkSet callback)
    | udpSink => exact h.sets (s.sets_udpSinkSet ..)
    | tcpSink => exact h.sets (s.sets_tcpSinkSet ..)
    | emit call =>
        rw [List.append_nil]
        exact h.emit call

/-- What the tracer is left with is taken back but for what has leaked. -/
theorem History.free (h : History pid os s) :
    s.rbRgTracerFree.rings = os.countP SetupOutcome.Leaks ∧
      s.rbRgTracerFree.registrations = os.countP SetupOutcome.Leaks := by
  unfold rbRgTracerFree
  cases htype : s.type with
  | transport transport =>
      obtain ⟨hring, hrings, hregistrations⟩ := h.transport transport htype
      dsimp only
      rw [if_pos hring, hrings, hregistrations]
      exact ⟨rfl, rfl⟩
  | none => exact h.leaks fun transport => by rw [htype]; simp
  | callback => exact h.leaks fun transport => by rw [htype]; simp

/-- A buffer size that is no `int`: the tracer has no sink, and the next flush crashes. -/
example :
    (run (new 7)
      [.udpSink (.object 1 true true) (.string []) (.integer 2799) (.integer (2 ^ 31)) (some []) true,
        .emit .null]).1.crashed = true := by decide

end SinkSetup
end RaygunApm
