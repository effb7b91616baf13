import RaygunApm.Agent.Reader
import RaygunApm.Hook.CallTree
import RaygunApm.Wire.RubyEvent

/-! # From a call to the call tree of the agent

The threads of the application call methods and return from them; the hook shows frames; a thread
hands what it has shown to the sink, one command after the other, and others take their turn in
between; the commands travel to the agent; and the agent puts the begins and ends of a `tid`
together again. What it gets is the call tree of the thread, without the frames that the tracer
hides (`agent_rebuilds`). -/

namespace RaygunApm

open CallForest

/-! ## The agent -/

/-- The bracket of a frame, if the event begins or ends one of this thread. -/
def Event.brackets (tid : UInt32) (e : Event) : List (CallEvent UInt32) :=
  if e.tid = tid then
    match e.data with
    | .beginFrame functionId _ _ => [.call functionId]
    | .endFrame functionId _ _ => [.ret functionId]
    | _ => []
  else []

/-- The brackets of a thread. -/
def bracketsOf (tid : UInt32) (es : List Event) : List (CallEvent UInt32) :=
  es.flatMap (Event.brackets tid)

/-- The call tree of a thread, from a stream of messages. -/
def agentCallTree (tid : UInt32) (stream : Bytes) : Option (CallForest UInt32) := do
  let es ← agentRead stream
  rebuild (bracketsOf tid es)

/-! ## The profiler -/

/-- `rg_method_source_t` as it is sent. -/
def MethodSource.code : MethodSource → UInt8
  | .userCode => 0x0
  | .system => 0x1
  | .knownLibrary => 0x2
  | .waitForUserInput => 0x3
  | .waitForSynchronization => 0x4
  | .jitCompilation => 0x5
  | .garbageCollection => 0x6

/-- What `rg_methodinfo`, `rg_begin` and `rg_end` put into the events they encode. The names are
those of the method that is declared. -/
def HookOutput.data (className methodName : EncodedString) : HookOutput → EventData
  | .methodinfo functionId source =>
      .methodinfo { functionId, className, methodName, methodSource := source.code }
  | .begin functionId instanceId => .beginFrame functionId instanceId 0
  | .end functionId _ => .endFrame functionId 0 0

/-- The tracing hook and the threads of the tracer. -/
structure Profiler where
  /-- What the hook keeps. -/
  hook : RuledHook
  /-- What the hook has shown on a thread and has not handed to the sink. -/
  shown : Nat → List HookOutput
  /-- The batched sink with its threads. -/
  tracer : Tracer

/-- A step of one of the threads. -/
inductive ProfilerInput where
  /-- A thread of the application calls a method or returns from one, or changes the rules. -/
  | hook (e : HookEvent)
  /-- The hook of a thread hands over the next command. -/
  | handOver (thread : Nat) (timestamp : Int64) (className methodName : EncodedString)
  /-- Another thread moves on, or a thread emits an event of its own. -/
  | other (input : TracerInput)

/-- What can be observed. -/
inductive ProfilerOutput where
  /-- The hook has handled the event. -/
  | hooked (e : HookEvent)
  /-- The tracer has made a step. -/
  | moved (input : TracerInput)
  /-- The step has shown this. -/
  | traced (o : TracerOutput)

namespace Profiler

/-- The tracer makes a step. -/
def move (transport : Transport) (p : Profiler) (input : TracerInput) :
    Profiler × List ProfilerOutput :=
  ({ p with tracer := (p.tracer.step transport input).1 },
    .moved input :: (p.tracer.step transport input).2.map .traced)

/-- The thread, if it is one, is not inside of the hook. -/
def outside (p : Profiler) : Option Nat → Bool
  | some thread => (p.shown thread).isEmpty
  | none => true

/-- One step. The threads have the tids `tid`. While the dispatcher is between two points where it
may be switched, the others cannot run. -/
def step (config : HookConfig) (transport : Transport) (tid : Nat → UInt32) (p : Profiler) :
    ProfilerInput → Profiler × List ProfilerOutput
  | .hook e =>
      if p.tracer.dispatcher.location.CanSwitch ∧ p.outside e.thread then
        let handled := hookStep config p.hook e
        ({ p with
            hook := handled.1
            shown := fun thread => if e.thread = some thread then handled.2 else p.shown thread },
          [.hooked e])
      else (p, [])
  | .handOver thread timestamp className methodName =>
      match p.shown thread with
      | o :: rest =>
          if p.tracer.dispatcher.location.CanSwitch then
            { p with shown := Function.update p.shown thread rest }.move transport
              (.emit { pid := p.tracer.pid, tid := tid thread, timestamp,
                       data := o.data className methodName })
          else (p, [])
      | [] => (p, [])
  | .other input => p.move transport input

/-- The profiler when a batched sink was just set up, with a hook that is in no call. -/
def fresh (hook : RuledHook) (pid : UInt32) (memory : Bytes) (receiveBufferSize : Int)
    (methodinfoSyncTicks : Nat) : Profiler where
  hook := hook
  shown _ := []
  tracer := Tracer.fresh pid memory receiveBufferSize methodinfoSyncTicks

/-- What the other threads hand over in the step shows no frame of this tid. -/
def OthersShowNone (tid : UInt32) (p : Profiler) : ProfilerInput → Prop
  | .other input => (bracketsOf tid (p.tracer.handsOver input)).isEmpty
  | _ => True

instance (tid : UInt32) (p : Profiler) : DecidablePred (p.OthersShowNone tid)
  | .other _ => instDecidableEqBool _ _
  | .hook _ => instDecidableTrue
  | .handOver .. => instDecidableTrue

end Profiler

/-- The event of the hook, if the output is one. -/
def ProfilerOutput.hookEvent : ProfilerOutput → List HookEvent
  | .hooked e => [e]
  | _ => []

/-- The step of the tracer, if the output is one. -/
def ProfilerOutput.tracerInput : ProfilerOutput → List TracerInput
  | .moved input => [input]
  | _ => []

/-- What the tracer has shown, if the output is that. -/
def ProfilerOutput.tracerOutput : ProfilerOutput → List TracerOutput
  | .traced o => [o]
  | _ => []

/-- The events that the hook has handled. -/
def hookEventsOf (os : List ProfilerOutput) : List HookEvent := os.flatMap ProfilerOutput.hookEvent

/-- The steps of the tracer. -/
def tracerInputsOf (os : List ProfilerOutput) : List TracerInput :=
  os.flatMap ProfilerOutput.tracerInput

/-- What the tracer has shown. -/
def tracerOutputsOf (os : List ProfilerOutput) : List TracerOutput :=
  os.flatMap ProfilerOutput.tracerOutput

section Outputs

variable (os os' : List ProfilerOutput)

@[simp] theorem hookEventsOf_append : hookEventsOf (os ++ os') = hookEventsOf os ++ hookEventsOf os' :=
  List.flatMap_append

@[simp] theorem tracerInputsOf_append :
    tracerInputsOf (os ++ os') = tracerInputsOf os ++ tracerInputsOf os' :=
  List.flatMap_append

@[simp] theorem tracerOutputsOf_append :
    tracerOutputsOf (os ++ os') = tracerOutputsOf os ++ tracerOutputsOf os' :=
  List.flatMap_append

end Outputs

/-- A step of the tracer shows itself and what the tracer shows, and nothing of the hook. -/
theorem outputs_moved (input : TracerInput) (os : List TracerOutput) :
    hookEventsOf (.moved input :: os.map .traced) = [] ∧
      tracerInputsOf (.moved input :: os.map .traced) = [input] ∧
      tracerOutputsOf (.moved input :: os.map .traced) = os := by
  refine ⟨?_, ?_, ?_⟩
  · simp [hookEventsOf, ProfilerOutput.hookEvent, List.flatMap_map]
  · simp [tracerInputsOf, ProfilerOutput.tracerInput, List.flatMap_map]
  · simp [tracerOutputsOf, ProfilerOutput.tracerOutput, List.flatMap_map]

/-! ## Brackets on the way -/

variable {tid : UInt32} {es es' : List Event}

@[simp] theorem bracketsOf_append :
    bracketsOf tid (es ++ es') = bracketsOf tid es ++ bracketsOf tid es' :=
  List.flatMap_append

/-- What is sent of an event shows its bracket. -/
theorem Event.brackets_transmitted (e : Event) : e.transmitted.brackets tid = e.brackets tid := by
  obtain ⟨pid, tid', timestamp, data⟩ := e
  cases data <;> rfl

/-- What is lost in transmission does not touch the brackets. -/
theorem bracketsOf_transmitted : bracketsOf tid (es.map Event.transmitted) = bracketsOf tid es := by
  rw [bracketsOf, List.flatMap_map]
  simp only [Event.brackets_transmitted, bracketsOf]

/-- The event that a thread hands over shows the bracket of the output. -/
theorem HookOutput.brackets_data (o : HookOutput) (pid tid : UInt32) (timestamp : Int64)
    (className methodName : EncodedString) :
    Event.brackets tid
        { pid := pid, tid := tid, timestamp := timestamp, data := o.data className methodName }
      = o.brackets := by
  rw [Event.brackets, if_pos rfl]
  cases o <;> rfl

namespace Tracer

variable {transport : Transport} {t : Tracer}

/-- Handing over changes nothing about the run. -/
theorem given_concat (inputs : List TracerInput) (input : TracerInput) :
    given transport t (inputs ++ [input])
      = given transport t inputs ++ (run transport t inputs).1.handsOver input := by
  induction inputs generalizing t with
  | nil => simp [given, run]
  | cons first inputs ih =>
      have htail := @ih (t.step transport first).1
      show t.handsOver first ++ given transport (t.step transport first).1 (inputs ++ [input]) = _
      rw [htail, ← List.append_assoc]
      rfl

end Tracer

/-- What a thread has shown when one more event is handled. -/
theorem threadOutputs_concat (config : HookConfig) (s : RuledHook) (thread : Nat)
    (events : List HookEvent) (e : HookEvent) :
    threadOutputs config s thread (events ++ [e]) = threadOutputs config s thread events ++
      (threadedStep config (Mealy.run (threadedStep config) s events).1 e).2.flatMap
        (shownOn thread) := by
  rw [threadOutputs, threadOutputs, Mealy.run_append, Mealy.run_singleton, List.flatMap_append]

/-- An event shows brackets on its own thread only. -/
theorem brackets_threadedStep (config : HookConfig) (s : RuledHook) (thread : Nat) (e : HookEvent) :
    ((threadedStep config s e).2.flatMap (shownOn thread)).flatMap HookOutput.brackets
      = if e.thread = some thread then (hookStep config s e).2.flatMap HookOutput.brackets else [] := by
  rw [threadedStep, List.flatMap_map]
  by_cases hthread : e.thread = some thread
  · simp only [shownOn, hthread, if_true]
    rw [flatMap_shown, flatMap_brackets_frames]
  · simp only [shownOn, hthread, if_false]
    rw [List.flatMap_eq_nil_iff.mpr fun _ _ => rfl]
    rfl

namespace Profiler

/-- What the profiler has done is a run of the hook and a run of the tracer, and the brackets that a
thread has shown are those that it has handed over and those that it is about to. -/
structure History (config : HookConfig) (transport : Transport) (tid : Nat → UInt32) (start : Profiler)
    (thread : Nat) (os : List ProfilerOutput) (p : Profiler) : Prop where
  hook : p.hook = (Mealy.run (threadedStep config) start.hook (hookEventsOf os)).1
  tracer : p.tracer = (Tracer.run transport start.tracer (tracerInputsOf os)).1
  traced : tracerOutputsOf os = (Tracer.run transport start.tracer (tracerInputsOf os)).2
  balance : bracketsOf (tid thread) (Tracer.given transport start.tracer (tracerInputsOf os))
      ++ (p.shown thread).flatMap HookOutput.brackets
    = (threadOutputs config start.hook thread (hookEventsOf os)).flatMap HookOutput.brackets

variable {config : HookConfig} {transport : Transport} {tid : Nat → UInt32} {start p : Profiler}
  {thread : Nat} {os : List ProfilerOutput}

/-- The tracer makes a step that hands over the brackets which the thread then has no more. -/
theorem History.move (h : History config transport tid start thread os p) (input : TracerInput)
    (shown : Nat → List HookOutput)
    (hshown : bracketsOf (tid thread) (p.tracer.handsOver input)
        ++ (shown thread).flatMap HookOutput.brackets
      = (p.shown thread).flatMap HookOutput.brackets) :
    History config transport tid start thread
      (os ++ ({ p with shown := shown }.move transport input).2)
      ({ p with shown := shown }.move transport input).1 := by
  obtain ⟨hnone, hinput, houtput⟩ := outputs_moved input (p.tracer.step transport input).2
  have hrun : Tracer.run transport start.tracer (tracerInputsOf os ++ [input])
      = ((p.tracer.step transport input).1,
        tracerOutputsOf os ++ (p.tracer.step transport input).2) := by
    rw [Tracer.run, Mealy.run_append, Mealy.run_singleton, ← Tracer.run, ← h.tracer, ← h.traced]
  constructor
  · rw [hookEventsOf_append, Profiler.move, hnone, List.append_nil]
    exact h.hook
  · rw [tracerInputsOf_append, Profiler.move, hinput, hrun]
  · rw [tracerInputsOf_append, tracerOutputsOf_append, Profiler.move, hinput, houtput, hrun]
  · rw [tracerInputsOf_append, hookEventsOf_append, Profiler.move, hinput, hnone, List.append_nil,
      Tracer.given_concat, ← h.tracer, bracketsOf_append, List.append_assoc, hshown]
    exact h.balance

/-- **Every step keeps the history**, when the tid is that of the thread alone. -/
theorem History.step (h : History config transport tid start thread os p)
    (htid : ∀ other, tid other = tid thread → other = thread) (input : ProfilerInput)
    (hothers : p.OthersShowNone (tid thread) input) :
    History config transport tid start thread (os ++ (p.step config transport tid input).2)
      (p.step config transport tid input).1 := by
  have hidle : History config transport tid start thread (os ++ []) p := by rwa [List.append_nil]
  cases input with
  | hook e =>
      rw [Profiler.step]
      split
      next hfree =>
        have hinputs : tracerInputsOf (os ++ [.hooked e]) = tracerInputsOf os :=
          (tracerInputsOf_append _ _).trans (List.append_nil _)
        have hevents : hookEventsOf (os ++ [.hooked e]) = hookEventsOf os ++ [e] :=
          hookEventsOf_append _ _
        refine ⟨?_, ?_, ?_, ?_⟩
        · rw [hevents, Mealy.run_append, Mealy.run_singleton, ← h.hook]
          rfl
        · rw [hinputs]
          exact h.tracer
        · rw [hinputs, tracerOutputsOf_append, ← h.traced]
          exact List.append_nil _
        · rw [hinputs, hevents, threadOutputs_concat, ← h.hook, List.flatMap_append, ← h.balance,
            brackets_threadedStep]
          dsimp only
          -- a thread that calls or returns has handed over what it has shown
          by_cases hthread : e.thread = some thread
          · have hfree' := hfree.2
            rw [hthread, outside, List.isEmpty_iff] at hfree'
            rw [if_pos hthread, if_pos hthread, hfree', List.flatMap_nil, List.append_nil]
          · rw [if_neg hthread, if_neg hthread, List.append_nil]
      next => exact hidle
  | handOver other timestamp className methodName =>
      rw [Profiler.step]
      split
      next o rest hshown =>
        split
        next hswitch =>
          refine h.move _ _ ?_
          rw [Tracer.handsOver, if_pos hswitch, bracketsOf, List.flatMap_singleton]
          by_cases hthread : other = thread
          · subst hthread
            rw [Function.update_self, hshown, List.flatMap_cons, HookOutput.brackets_data]
          · rw [Function.update_of_ne (Ne.symm hthread), Event.brackets,
              if_neg fun htids => hthread (htid other htids)]
            rfl
        next => exact hidle
      next => exact hidle
  | other input =>
      refine h.move input p.shown ?_
      rw [List.isEmpty_iff.mp hothers, List.nil_append]

/-- The profiler runs through some steps. -/
def run (config : HookConfig) (transport : Transport) (tid : Nat → UInt32) :
    Profiler → List ProfilerInput → Profiler × List ProfilerOutput :=
  Mealy.run (step config transport tid)

/-- The thread is not inside of the hook, and no command is on its way: none waits in the batch, in
the ring or with the dispatcher. -/
structure Settled (p : Profiler) (thread : Nat) : Prop where
  shown : p.shown thread = []
  batch : p.tracer.dispatcher.data.pendingBytes = []
  ring : p.tracer.dispatcher.data.ringbuf.contents = []
  dispatcher : p.tracer.dispatcher.NoJitter

/-- In a run, a thread calls the methods of a forest whose guards match, and returns from them. It
has its tid for itself, the rules stay as they are, and no polled message is written over. The
guards are those of a classification that the methodinfo table agrees with in the end. -/
structure CallsForest (config : HookConfig) (transport : Transport) (tid : Nat → UInt32)
    (start : Profiler) (inputs : List ProfilerInput) (classify : Nat → Option MethodSource)
    (thread : Nat) (forest : CallForest Frame) : Prop where
  ownTid : ∀ other, tid other = tid thread → other = thread
  others : Mealy.AllSteps (step config transport tid) (OthersShowNone (tid thread)) start inputs
  polled : Mealy.AllSteps (Tracer.step transport) Tracer.KeepsPolled start.tracer
    (tracerInputsOf (run config transport tid start inputs).2)
  rules : RulesKept (hookEventsOf (run config transport tid start inputs).2)
  agrees : (run config transport tid start inputs).1.hook.methodinfo.Agrees classify
  counters : (start.hook.on thread).At classify 0 0 0
  events : threadEvents thread (hookEventsOf (run config transport tid start inputs).2) = forest.events
  guards : Matched classify 0 0 0 forest

/-- **Every run keeps the history** of a thread. -/
theorem history_run (hshown : start.shown thread = [])
    (htid : ∀ other, tid other = tid thread → other = thread) {inputs : List ProfilerInput}
    (hothers : Mealy.AllSteps (step config transport tid) (OthersShowNone (tid thread)) start inputs) :
    History config transport tid start thread (run config transport tid start inputs).2
      (run config transport tid start inputs).1 := by
  have hstart : History config transport tid start thread [] start := by
    refine ⟨rfl, rfl, rfl, ?_⟩
    rw [hshown]
    rfl
  exact Mealy.run_history_of_allSteps
    (P := fun os p => History config transport tid start thread os p)
    (fun os p input h hstep => History.step h htid input hstep) hstart hothers

/-- What a thread has handed over are the first of the visible frames, and the others it is about to
hand over. -/
theorem CallsForest.brackets_given {inputs : List ProfilerInput} {forest : CallForest Frame}
    {classify : Nat → Option MethodSource}
    (h : CallsForest config transport tid start inputs classify thread forest)
    (hshown : start.shown thread = []) :
    bracketsOf (tid thread) (Tracer.given transport start.tracer
        (tracerInputsOf (run config transport tid start inputs).2))
      ++ ((run config transport tid start inputs).1.shown thread).flatMap HookOutput.brackets
    = (visible classify (run config transport tid start inputs).1.hook.methodinfo.functionId 0 0
        forest).events := by
  obtain ⟨hhook, -, -, hbalance⟩ := history_run hshown h.ownTid h.others
  have hagrees := h.agrees
  rw [hhook] at hagrees ⊢
  rw [hbalance, brackets_threadOutputs h.rules hagrees h.counters h.events h.guards]

/-- **The agent rebuilds the call tree.** Threads call and return, hand over commands, flush, send
and end in any order, and one of them calls the methods of a forest whose guards match. Whatever the
agent receives of the messages, it reads to the end, and the frames of this thread that it sees are
some of the visible ones, in their order. When nothing is rejected and no raw command comes directly
after one that was left waiting, it sees them from the first one on; and once everything has arrived
it puts them together to the visible part of the tree, with the ids of the methodinfo table. -/
theorem agent_rebuilds (config : HookConfig) (transport : Transport) (tid : Nat → UInt32)
    (hook : RuledHook) (pid : UInt32) (memory : Bytes) (hmemory : memory.length < 2 ^ 32)
    (receiveBufferSize : Int) (methodinfoSyncTicks : Nat) (inputs : List ProfilerInput)
    (classify : Nat → Option MethodSource) (thread : Nat) (forest : CallForest Frame)
    (hcalls : CallsForest config transport tid
      (fresh hook pid memory receiveBufferSize methodinfoSyncTicks) inputs classify thread forest) :
    let reached := run config transport tid
      (fresh hook pid memory receiveBufferSize methodinfoSyncTicks) inputs
    let tree := visible classify reached.1.hook.methodinfo.functionId 0 0 forest
    let traced := tracerOutputsOf reached.2
    (∀ received : List Bytes, received.Sublist (sentOf traced) →
      ∃ es, agentRead received.flatten = some es ∧ (bracketsOf (tid thread) es).Sublist tree.events) ∧
    ((∀ o ∈ traced, ¬ o.Rejects) → NoRawAfterWaiting (callsOf traced) →
      (∃ es, agentRead (sentOf traced).flatten = some es ∧
        bracketsOf (tid thread) es <+: tree.events) ∧
      (reached.1.Settled thread →
        agentCallTree (tid thread) (sentOf traced).flatten = some tree)) := by
  intro reached tree traced
  let moves := tracerInputsOf reached.2
  let start := Tracer.fresh pid memory receiveBufferSize methodinfoSyncTicks
  have hgiven : bracketsOf (tid thread) (Tracer.given transport start moves)
      ++ (reached.1.shown thread).flatMap HookOutput.brackets = tree.events :=
    hcalls.brackets_given rfl
  obtain ⟨-, htracer, htraced, -⟩ := history_run rfl hcalls.ownTid hcalls.others
  have hstate : reached.1.tracer = (Tracer.run transport start moves).1 := htracer
  have houtputs : traced = (Tracer.run transport start moves).2 := htraced
  refine ⟨?_, ?_⟩
  · intro received hreceived
    rw [houtputs] at hreceived
    obtain ⟨es, hes, hread⟩ := Tracer.agentRead_received hmemory hcalls.polled hreceived
    refine ⟨_, hread, ?_⟩
    rw [bracketsOf_transmitted, ← hgiven]
    exact (hes.flatMap _).trans (List.sublist_append_left _ _)
  · intro hroom hchain
    rw [houtputs] at hroom hchain ⊢
    obtain ⟨es, onTheWay, hes, hread, hnone⟩ :=
      Tracer.agentRead_sent hmemory hcalls.polled hroom hchain
    have htree : tree.events = bracketsOf (tid thread) es ++ (bracketsOf (tid thread) onTheWay
        ++ (reached.1.shown thread).flatMap HookOutput.brackets) := by
      rw [← List.append_assoc, ← bracketsOf_append, ← hes]
      exact hgiven.symm
    refine ⟨⟨_, hread, ?_⟩, ?_⟩
    · rw [bracketsOf_transmitted, htree]
      exact List.prefix_append _ _
    · rintro ⟨hshown, hbatch, hring, hjitter⟩
      rw [hstate] at hbatch hring hjitter
      rw [hnone hbatch hring hjitter, hshown] at htree
      have hall : bracketsOf (tid thread) es = tree.events :=
        (List.append_nil _).symm.trans htree.symm
      rw [agentCallTree, hread]
      show rebuild (bracketsOf (tid thread) (es.map Event.transmitted)) = _
      rw [bracketsOf_transmitted, hall, rebuild_events]

/-- Thread 0 has the tid 1, and the other threads have the tid 2. -/
def twoTids (thread : Nat) : UInt32 := if thread = 0 then 1 else 2

/-- A thread hands over a command of `Foo#bar`. -/
def handOverFooBar (thread : Nat) : ProfilerInput :=
  .handOver thread 0 (rbRgEncodeString 0 (some (ascii "Foo"))) (rbRgEncodeString 0 (some (ascii "bar")))

/-- Thread 0 calls `Foo#bar` in itself. Thread 1 calls it too, between the declaration of the method
and the begin of its first frame. Then the batch is flushed and sent. -/
def nestedCallsSent : List ProfilerInput :=
  [.hook (.call 0 (frameOf 0) 0), handOverFooBar 0, .hook (.call 1 (frameOf 0) 1), handOverFooBar 1,
    handOverFooBar 0, .hook (.call 0 (frameOf 0) 2), handOverFooBar 0, .hook (.ret 0 (frameOf 0)),
    handOverFooBar 0, .hook (.ret 0 (frameOf 0)), handOverFooBar 0, .other (.ender 0),
    .other (.dispatch true), .other (.dispatch true), .other (.dispatch true),
    .other (.dispatch true)]

deriving instance DecidableEq for Frame, CallEvent

/-- A ring of 512 bytes. -/
def smallRing : Bytes := List.replicate 512 0

/-- The agent gets the two frames of thread 0. -/
theorem agent_rebuilds_nestedCallsSent :
    agentCallTree 1 (sentOf (tracerOutputsOf (run fooBar .tcp twoTids
        (fresh .new 7 smallRing 0 0) nestedCallsSent).2)).flatten
      = some (.node 1 (.node 1 .nil .nil) .nil) := by
  have htable : (run fooBar .tcp twoTids (fresh .new 7 smallRing 0 0)
      nestedCallsSent).1.hook.methodinfo = [(0, some ⟨1, .userCode⟩)] := by decide +kernel
  have hempty : MethodTable.Agrees (fun _ => some .userCode) [] := fun _ _ h => by cases h
  have hcalls : CallsForest fooBar .tcp twoTids (fresh .new 7 smallRing 0 0)
      nestedCallsSent (fun _ => some .userCode) 0
      (.node (frameOf 0) (.node (frameOf 0) .nil .nil) .nil) := by
    constructor
    · intro other htid
      by_contra hne
      simp [twoTids, hne] at htid
    · decide +kernel
    · exact Tracer.keepsPolled_tcp (fun _ _ => by simp [fresh, Tracer.fresh, Dispatcher.fresh]) _
    · have hthreads : ∀ e ∈ hookEventsOf (run fooBar .tcp twoTids (fresh .new 7 smallRing 0 0)
          nestedCallsSent).2, e.thread ≠ none := by decide +kernel
      exact fun r hmem => absurd rfl (hthreads _ hmem)
    · rw [htable]
      exact hempty.cons rfl
    · exact ⟨rfl, rfl, rfl, List.length_replicate, hempty⟩
    · decide +kernel
    · simp [Matched, frameKind, frameOf, MethodSource.kind, rgShadowStackLimit]
  have hsettled : (run fooBar .tcp twoTids (fresh .new 7 smallRing 0 0) nestedCallsSent).1.Settled 0 := by
    have hinner : (run fooBar .tcp twoTids (fresh .new 7 smallRing 0 0)
        nestedCallsSent).1.tracer.dispatcher.location = .inner := by decide +kernel
    refine ⟨by decide +kernel, by decide +kernel, by decide +kernel, ?_⟩
    intro ptr size
    rw [hinner]
    simp
  have htree := ((agent_rebuilds fooBar .tcp twoTids .new 7 smallRing (by decide +kernel) 0 0
    nestedCallsSent _ 0 _ hcalls).2 (by decide +kernel)
    ((Batcher.keepsAll_init_iff _).mp (by decide +kernel))).2 hsettled
  refine htree.trans ?_
  rw [htable]
  simp [visible, frameKind, frameOf, MethodSource.kind, FrameKind.Opens, rgShadowStackLimit,
    MethodTable.functionId]

end Profiler

end RaygunApm
