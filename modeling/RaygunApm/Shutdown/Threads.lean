import RaygunApm.Dispatch.Accounting
import RaygunApm.Sink.Closing

/-! # The threads of a tracer

Around the batched sink of a tracer run its dispatcher thread, its timer thread
(`rb_rg_timer_thread`), the threads of the application that emit events, and in the end the one that
calls `rb_rg_process_ended`. A step of one of them lasts from one point where the interpreter may
switch threads to the next, so it makes at most one call of the sink. -/

namespace RaygunApm

/-- `RG_TIMER_THREAD_METHODINFO_TICK`. -/
def rgTimerThreadMethodinfoTick : Nat := 30

/-- `TIMESTAMP_UNITS_PER_SECOND`. -/
def timestampUnitsPerSecond : UInt64 := 1000000

/-- Where the timer thread is. -/
inductive TimerLocation where
  /-- In the pause of a round. -/
  | waiting
  /-- Behind the flush. -/
  | flushed
  /-- In the sync of the methodinfo table, behind the frequency. -/
  | frequency
  /-- In the walk of the methodinfo table, in front of this entry. -/
  | walking (entry : Nat)
  /-- The thread has returned. -/
  | done

/-- Where the thread is that ends the process. -/
inductive EnderLocation where
  /-- `rb_rg_process_ended` has not been called. -/
  | idle
  /-- Behind the flush. -/
  | flushed
  /-- Behind `rg_process_ended`. -/
  | emitted
  /-- `running` is cleared, and the dispatcher is joined. -/
  | joining

/-- The threads of a tracer with a batched sink. -/
structure Tracer where
  /-- `context->pid`. -/
  pid : UInt32
  /-- The sink data and the dispatcher thread. -/
  dispatcher : Dispatcher
  /-- The timer thread. -/
  timer : TimerLocation
  /-- `methodinfo_sync_ticks`. -/
  methodinfoSyncTicks : Nat
  /-- The thread that calls `rb_rg_process_ended`. -/
  ender : EnderLocation

/-- What the timer thread finds when it moves on. -/
structure MethodinfoSync where
  /-- The time. -/
  timestamp : Int64
  technologyType : EncodedString
  processType : EncodedString
  /-- The entries of the methodinfo table as it is now, in the order of their insertion; those of
  blacklisted methods have no event. -/
  methodinfo : List (Option Event)

/-- `rb_rg_process_frequency`, of the timer thread. -/
def rbRgProcessFrequency (pid : UInt32) (sync : MethodinfoSync) : Event :=
  { pid := pid, tid := 0, timestamp := sync.timestamp,
    data := .processFrequency timestampUnitsPerSecond }

/-- `rb_rg_process_type`. -/
def rbRgProcessType (pid : UInt32) (sync : MethodinfoSync) : Event :=
  { pid := pid, tid := 0, timestamp := sync.timestamp,
    data := .processType sync.technologyType sync.processType }

/-- A step of one of the threads. -/
inductive TracerInput where
  /-- A thread of the application emits an event. -/
  | emit (event : Event)
  /-- The timer thread moves on. -/
  | timer (sync : MethodinfoSync)
  /-- The thread that ends the process moves on. -/
  | ender (timestamp : Int64)
  /-- The dispatcher thread moves on. -/
  | dispatch (ok : Bool)

/-- What can be observed of the threads. -/
inductive TracerOutput where
  /-- The sink is called. -/
  | called (call : SinkCall)
  /-- The sink is called with the event of `rg_process_ended`. -/
  | ended (command : Command)
  /-- The ring or the socket shows something. -/
  | ring (output : DispatchOutput)
  /-- The dispatcher leaves its loop. -/
  | left

namespace Tracer

/-- A thread calls the sink. -/
def call (transport : Transport) (t : Tracer) (call : SinkCall) : Tracer × List TracerOutput :=
  ({ t with dispatcher := (t.dispatcher.step transport (.call call)).1 },
    .called call :: (t.dispatcher.step transport (.call call)).2.map .ring)

/-- The end of a round of the timer thread, and the test of its loop. -/
def timerRound (t : Tracer) : Tracer :=
  { t with
    methodinfoSyncTicks := t.methodinfoSyncTicks + 1
    timer := if t.dispatcher.data.running then .waiting else .done }

/-- `rb_rg_timer_thread`, with `rb_rg_async_emit_methodinfos`. The table may grow during the walk,
which comes to the new entries too. -/
def rbRgTimerThread (transport : Transport) (sync : MethodinfoSync) (t : Tracer) :
    Tracer × List TracerOutput :=
  match t.timer with
  | .waiting => { t with timer := .flushed }.call transport .null
  | .flushed =>
      if t.methodinfoSyncTicks = rgTimerThreadMethodinfoTick then
        if sync.methodinfo = [] then ({ t with methodinfoSyncTicks := 0 }.timerRound, [])
        else
          { t with timer := .frequency }.call transport
            (.event (rbRgProcessFrequency t.pid sync).command)
      else (t.timerRound, [])
  | .frequency =>
      { t with timer := .walking 0 }.call transport (.event (rbRgProcessType t.pid sync).command)
  | .walking entry =>
      match sync.methodinfo[entry]? with
      | some (some event) =>
          { t with timer := .walking (entry + 1) }.call transport (.event event.command)
      | some none => ({ t with timer := .walking (entry + 1) }, [])
      | none => ({ t with methodinfoSyncTicks := 0 }.timerRound, [])
  | .done => (t, [])

/-- The event that `rg_process_ended` encodes. -/
def processEnded (t : Tracer) (timestamp : Int64) : Event :=
  { pid := t.pid, tid := 0, timestamp := timestamp, data := .processEnded }

/-- `rb_rg_process_ended`. -/
def rbRgProcessEnded (transport : Transport) (timestamp : Int64) (t : Tracer) :
    Tracer × List TracerOutput :=
  match t.ender with
  | .idle => { t with ender := .flushed }.call transport .null
  | .flushed =>
      let command := (t.processEnded timestamp).command
      let step := t.dispatcher.step transport (.call (.event command))
      ({ t with dispatcher := step.1, ender := .emitted }, .ended command :: step.2.map .ring)
  | .emitted =>
      ({ t with dispatcher := (t.dispatcher.step transport .stop).1, ender := .joining }, [])
  | .joining => (t, [])

/-- The dispatcher thread moves on. -/
def dispatch (transport : Transport) (ok : Bool) (t : Tracer) : Tracer × List TracerOutput :=
  let step := t.dispatcher.step transport (.dispatch ok)
  ({ t with dispatcher := step.1 },
    step.2.map .ring ++
      if t.dispatcher.location ≠ .done ∧ step.1.location = .done then [.left] else [])

/-- One step. While the dispatcher is between two points where it may be switched, the other threads
cannot run. -/
def step (transport : Transport) (t : Tracer) : TracerInput → Tracer × List TracerOutput
  | .dispatch ok => t.dispatch transport ok
  | input =>
      if t.dispatcher.location.CanSwitch then
        match input with
        | .emit event => t.call transport (.event event.command)
        | .timer sync => t.rbRgTimerThread transport sync
        | .ender timestamp => t.rbRgProcessEnded transport timestamp
        | .dispatch _ => (t, [])
      else (t, [])

/-- The threads of a tracer that a batched sink was just set up on. -/
def fresh (pid : UInt32) (memory : Bytes) (receiveBufferSize : Int) (methodinfoSyncTicks : Nat) :
    Tracer where
  pid := pid
  dispatcher := Dispatcher.fresh pid memory receiveBufferSize
  timer := .waiting
  methodinfoSyncTicks := methodinfoSyncTicks
  ender := .idle

/-- The threads run through some steps. -/
def run (transport : Transport) : Tracer → List TracerInput → Tracer × List TracerOutput :=
  Mealy.run (step transport)

end Tracer

end RaygunApm
