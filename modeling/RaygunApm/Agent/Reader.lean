import RaygunApm.Dispatch.Tcp
import RaygunApm.Shutdown.Delivery
import RaygunApm.Sink.EmptyBatch
import RaygunApm.Wire.Lossless

/-! # What the agent reads

From an event to the agent: an event is encoded, waits in the batch, travels in a batch message or
as a raw command through the ring, and is sent by the dispatcher thread. The agent splits what it
receives into messages by their length prefix, and a message into events by the header of the batch
and the field layout of the commands. It reads whatever gets through to the end, and finds events
that were handed over, in their order (`agent_reads`). -/

namespace RaygunApm

open ByteMemory PrefixCode

/-! ## The agent -/

/-- Read a message: a batch holds as many commands as its header says, and any other message is a
command. -/
def readMessage (message : Bytes) : Option (List Event) :=
  if message[2]? = some 0xFA then
    (many decodeEvent message.length (message.drop rgBatchHeadlen)).filter
      fun es => es.length = countField message
  else many decodeEvent message.length message

/-- Read a stream of messages. -/
def agentRead (stream : Bytes) : Option (List Event) := do
  let messages ← many splitCommand stream.length stream
  let events ← messages.mapM readMessage
  pure events.flatten

/-! ## What is handed over -/

/-- The observation of the ring or of the socket, if it is one. -/
def TracerOutput.ringOutput : TracerOutput → List DispatchOutput
  | .ring output => [output]
  | _ => []

/-- The payloads given to the send function in a run. -/
def sentOf (os : List TracerOutput) : List Bytes :=
  (os.flatMap TracerOutput.ringOutput).flatMap DispatchOutput.sentPayload

@[simp] theorem sentOf_append (os os' : List TracerOutput) :
    sentOf (os ++ os') = sentOf os ++ sentOf os' := by
  simp [sentOf, List.flatMap_append]

/-- Among the outputs of the dispatcher thread, the payloads sent are those that the thread sends.
-/
theorem sentOf_ring (os : List DispatchOutput) :
    sentOf (os.map .ring) = os.flatMap DispatchOutput.sentPayload := by
  simp [sentOf, List.flatMap_map, TracerOutput.ringOutput]

namespace Tracer

/-- The event that the next step of the timer thread hands to the sink, if any. -/
def timerEvent (t : Tracer) (sync : MethodinfoSync) : Option Event :=
  match t.timer with
  | .flushed =>
      if t.methodinfoSyncTicks = rgTimerThreadMethodinfoTick ∧ sync.methodinfo ≠ [] then
        some (rbRgProcessFrequency t.pid sync)
      else none
  | .frequency => some (rbRgProcessType t.pid sync)
  | .walking entry => sync.methodinfo[entry]?.join
  | _ => none

/-- The event that a step hands to the sink, if any. -/
def handsOver (t : Tracer) (input : TracerInput) : List Event :=
  if t.dispatcher.location.CanSwitch then
    match input with
    | .emit event => [event]
    | .timer sync => (t.timerEvent sync).toList
    | .ender timestamp =>
        match t.ender with
        | .flushed => [t.processEnded timestamp]
        | _ => []
    | .dispatch _ => []
  else []

/-- The events that are handed over in a run. -/
def given (transport : Transport) (t : Tracer) (inputs : List TracerInput) : List Event :=
  (Mealy.run (fun t input => ((t.step transport input).1, t.handsOver input)) t inputs).2

/-- The input of the dispatcher machine that the step is, if it is one. -/
def moves (t : Tracer) : TracerInput → List DispatchInput
  | .dispatch ok => [.dispatch ok]
  | .emit event => [.call (.event event.command)]
  | .timer sync =>
      match t.timer with
      | .waiting => [.call .null]
      | _ => (t.timerEvent sync).toList.map fun event => .call (.event event.command)
  | .ender timestamp =>
      match t.ender with
      | .idle => [.call .null]
      | .flushed => [.call (.event (t.processEnded timestamp).command)]
      | .emitted => [.stop]
      | .joining => []

/-- In a jitter pause, the step leaves the polled bytes alone. -/
def KeepsPolled (t : Tracer) (input : TracerInput) : Prop :=
  ∀ move ∈ t.moves input, t.dispatcher.KeepsPolled move

instance (t : Tracer) (input : TracerInput) : Decidable (t.KeepsPolled input) :=
  inferInstanceAs (Decidable (∀ move ∈ t.moves input, _))

/-- What a step does to the dispatcher, what is observed of it, and the events it hands over: it
calls the sink, clears `running`, moves the dispatcher on, or none of these. -/
inductive Does (transport : Transport) (t : Tracer) (input : TracerInput) :
    Dispatcher → List TracerOutput → List Event → Prop
  | nothing : Does transport t input t.dispatcher [] []
  | stop (hmove : .stop ∈ t.moves input) :
      Does transport t input (t.dispatcher.step transport .stop).1 [] []
  | call (call : SinkCall) (o : TracerOutput) (es : List Event)
      (hswitch : t.dispatcher.location.CanSwitch = true) (hmove : .call call ∈ t.moves input)
      (ho : o = .called call ∨ ∃ command, o = .ended command ∧ call = .event command)
      (hes : call.commands = es.map Event.command) :
      Does transport t input (t.dispatcher.step transport (.call call)).1
        (o :: (t.dispatcher.step transport (.call call)).2.map .ring) es
  | dispatch (ok : Bool) (marks : List TracerOutput) (hmove : .dispatch ok ∈ t.moves input)
      (hmarks : marks = [] ∨ marks = [.left]) :
      Does transport t input (t.dispatcher.step transport (.dispatch ok)).1
        ((t.dispatcher.step transport (.dispatch ok)).2.map .ring ++ marks) []

variable {transport : Transport} {t : Tracer}

/-- A step of the timer thread. -/
theorem timer_does (hswitch : t.dispatcher.location.CanSwitch = true) (sync : MethodinfoSync) :
    Does transport t (.timer sync) (t.rbRgTimerThread transport sync).1.dispatcher
      (t.rbRgTimerThread transport sync).2 (t.handsOver (.timer sync)) := by
  -- A step that hands over an event makes the call with it.
  have hsends : ∀ {event : Event}, t.timerEvent sync = some event → t.timer ≠ .waiting →
      .call (.event event.command) ∈ t.moves (.timer sync) := by
    intro event hevent hbehind
    rw [moves]
    split
    · contradiction
    · rw [hevent]
      exact List.mem_singleton_self _
  rw [handsOver, if_pos hswitch, rbRgTimerThread]
  cases htimer : t.timer with
  | waiting =>
      rw [timerEvent, htimer]
      exact .call .null _ [] hswitch (by simp [moves, htimer]) (.inl rfl) rfl
  | flushed =>
      dsimp only
      by_cases hdue : t.methodinfoSyncTicks = rgTimerThreadMethodinfoTick
      · by_cases hempty : sync.methodinfo = []
        · rw [if_pos hdue, if_pos hempty, timerEvent, htimer]
          dsimp only
          rw [if_neg fun h => h.2 hempty]
          exact .nothing
        · have hevent : t.timerEvent sync = some (rbRgProcessFrequency t.pid sync) := by
            rw [timerEvent, htimer]
            exact if_pos ⟨hdue, hempty⟩
          rw [if_pos hdue, if_neg hempty, hevent]
          exact .call _ _ [_] hswitch (hsends hevent (by simp [htimer])) (.inl rfl) rfl
      · rw [if_neg hdue, timerEvent, htimer]
        dsimp only
        rw [if_neg fun h => hdue h.1]
        exact .nothing
  | frequency =>
      have hevent : t.timerEvent sync = some (rbRgProcessType t.pid sync) := by
        rw [timerEvent, htimer]
      rw [hevent]
      exact .call _ _ [_] hswitch (hsends hevent (by simp [htimer])) (.inl rfl) rfl
  | walking entry =>
      have hevent : t.timerEvent sync = sync.methodinfo[entry]?.join := by
        rw [timerEvent, htimer]
      dsimp only
      split
      · rename_i event hentry
        rw [hentry] at hevent
        rw [hevent]
        exact .call _ _ [event] hswitch (hsends hevent (by simp [htimer])) (.inl rfl) rfl
      · rename_i hentry
        rw [hevent, hentry]
        exact .nothing
      · rename_i hentry
        rw [hevent, hentry]
        exact .nothing
  | done =>
      rw [timerEvent, htimer]
      exact .nothing

/-- A step of the thread that ends the process. -/
theorem ender_does (hswitch : t.dispatcher.location.CanSwitch = true) (timestamp : Int64) :
    Does transport t (.ender timestamp) (t.rbRgProcessEnded transport timestamp).1.dispatcher
      (t.rbRgProcessEnded transport timestamp).2 (t.handsOver (.ender timestamp)) := by
  rw [handsOver, if_pos hswitch, rbRgProcessEnded]
  cases hender : t.ender with
  | idle => exact .call .null _ [] hswitch (by simp [moves, hender]) (.inl rfl) rfl
  | flushed =>
      exact .call (.event (t.processEnded timestamp).command) _ [t.processEnded timestamp] hswitch
        (by simp [moves, hender]) (.inr ⟨_, rfl, rfl⟩) rfl
  | emitted => exact .stop (by simp [moves, hender])
  | joining => exact .nothing

/-- **What a step of the tracer does** to the dispatcher, what it shows, and which calls it hands to
the sink. -/
theorem step_does (transport : Transport) (t : Tracer) (input : TracerInput) :
    Does transport t input (t.step transport input).1.dispatcher (t.step transport input).2
      (t.handsOver input) := by
  -- While the dispatcher cannot be switched, the others wait.
  have hwait : ¬ t.dispatcher.location.CanSwitch = true →
      Does transport t input t.dispatcher [] (t.handsOver input) := by
    intro hswitch
    rw [handsOver.eq_def, if_neg hswitch]
    exact .nothing
  by_cases hswitch : t.dispatcher.location.CanSwitch = true
  · cases input with
    | emit event =>
        rw [handsOver, step, if_pos hswitch, if_pos hswitch]
        exact .call (.event event.command) _ [event] hswitch (by simp [moves]) (.inl rfl) rfl
    | timer sync =>
        rw [step, if_pos hswitch]
        exact timer_does hswitch sync
    | ender timestamp =>
        rw [step, if_pos hswitch]
        exact ender_does hswitch timestamp
    | dispatch ok =>
        rw [handsOver, if_pos hswitch]
        refine .dispatch ok _ (by simp [moves]) ?_
        split
        · exact .inr rfl
        · exact .inl rfl
  · cases input with
    | dispatch ok =>
        rw [handsOver, if_neg hswitch]
        refine .dispatch ok _ (by simp [moves]) ?_
        split
        · exact .inr rfl
        · exact .inl rfl
    | _ =>
        rw [step, if_neg hswitch]
        exact hwait hswitch

end Tracer

/-! ## Messages and the commands they carry -/

/-- A message carries some commands: a batch all of its own, and any other message itself. -/
inductive Packs (pid : UInt32) : List Command → Bytes → Prop
  | batch (number : Nat) (cs : List Command) (message : Bytes)
      (hframe : BatchFrame pid number cs message) : Packs pid cs message
  | raw (c : Command) (hgenuine : (SinkCall.event c).Genuine) : Packs pid [c] c.bytes

/-- Bytes that start with their own size are split off by it. -/
theorem reads_splitCommand {bytes : Bytes} (hlength : LittleEndian.decode (bytes.take 2) = bytes.length)
    (htwo : 2 ≤ bytes.length) : Reads splitCommand bytes bytes := by
  intro rest
  have hfront : (bytes ++ rest).take 2 = bytes.take 2 := List.take_append_of_le_length htwo
  show (exactly (LittleEndian.decode ((bytes ++ rest).take 2))).run (bytes ++ rest) = _
  rw [hfront, hlength]
  exact reads_exactly rfl rest

section Messages

variable {pid : UInt32} {cs : List Command} {message : Bytes}

/-- The type byte of a frame. -/
theorem BatchFrame.type_byte {number : Nat} (h : BatchFrame pid number cs message) :
    message[2]? = some 0xFA := by
  have htype := congrArg List.head? h.type_field
  rwa [readAt, List.head?_take, if_neg one_ne_zero, List.head?_drop] at htype

/-- A message is split off by its length prefix, and it is not empty. -/
theorem Packs.split (h : Packs pid cs message) :
    Reads splitCommand message message ∧ message ≠ [] := by
  cases h with
  | batch number cs message hframe =>
      have htype := hframe.type_byte
      have hlt : 2 < message.length := (List.getElem?_eq_some_iff.mp htype).1
      refine ⟨reads_splitCommand hframe.length_field hlt.le, ?_⟩
      rintro rfl
      exact absurd hlt (Nat.not_lt_zero 2)
  | raw c hgenuine => exact ⟨c.reads_splitCommand, c.bytes_ne_nil⟩

/-- No event is encoded as nothing. -/
theorem Event.encoded_ne_nil (e : Event) : e.encoded ≠ [] := e.command.bytes_ne_nil

/-- The bytes of the commands of some events. -/
theorem payload_map_command (es : List Event) :
    payload (es.map Event.command) = es.flatMap Event.encoded := by
  rw [payload, List.flatMap_map]
  rfl

/-- **A message that carries the commands of some events is read as these.** -/
theorem Packs.readMessage_eq {es : List Event} (h : Packs pid (es.map Event.command) message) :
    readMessage message = some (es.map Event.transmitted) := by
  have hfuel : ∀ bytes : Bytes, bytes = es.flatMap Event.encoded → bytes.length ≤ message.length →
      many decodeEvent message.length bytes = some (es.map Event.transmitted) := by
    intro bytes hbytes hle
    rw [hbytes] at hle ⊢
    exact many_flatMap reads_decodeEvent Event.encoded_ne_nil es
      ((length_le_encodedEvents es).trans hle)
  generalize hcs : es.map Event.command = cs at h
  cases h with
  | batch number cs message hframe =>
      have hbody : message.drop rgBatchHeadlen = es.flatMap Event.encoded := by
        rw [← payload_map_command, hcs]
        exact hframe.commands
      have hcount : (es.map Event.transmitted).length = countField message := by
        rw [List.length_map, countField, hframe.count_field, ← hcs, List.length_map]
      rw [readMessage, if_pos hframe.type_byte, hfuel _ hbody (List.drop_sublist ..).length_le,
        Option.filter_some, if_pos (decide_eq_true hcount)]
  | raw c hgenuine =>
      have hbody : c.bytes = es.flatMap Event.encoded := by
        rw [← payload_map_command, hcs, payload_singleton]
      rw [readMessage, if_neg hgenuine, hfuel _ hbody le_rfl]

/-- The messages that carry the commands of some events are read one by one. -/
theorem mapM_readMessage {groups : List (List Command)} {messages : List Bytes}
    (h : List.Forall₂ (Packs pid) groups messages) {es : List Event}
    (hes : groups.flatten = es.map Event.command) :
    ∃ events, messages.mapM readMessage = some events ∧
      events.flatten = es.map Event.transmitted := by
  induction h generalizing es with
  | nil =>
      have hnil : es = [] := List.map_eq_nil_iff.mp hes.symm
      exact ⟨[], rfl, by rw [hnil]; rfl⟩
  | @cons cs message groups messages hhead _ ih =>
      rw [List.flatten_cons, List.append_eq_map_iff] at hes
      obtain ⟨first, rest, rfl, rfl, hrest⟩ := hes
      obtain ⟨events, hread, hevents⟩ := ih hrest.symm
      refine ⟨first.map Event.transmitted :: events, ?_, ?_⟩
      · rw [List.mapM_cons, hhead.readMessage_eq, hread]
        rfl
      · rw [List.flatten_cons, hevents, List.map_append]

/-- **The agent reads the messages that carry the commands of some events as these.** -/
theorem agentRead_flatten {groups : List (List Command)} {messages : List Bytes}
    (h : List.Forall₂ (Packs pid) groups messages) {es : List Event}
    (hes : groups.flatten = es.map Event.command) :
    agentRead messages.flatten = some (es.map Event.transmitted) := by
  have hmessages : ∀ m ∈ messages, Reads splitCommand m m ∧ m ≠ [] :=
    forall_of_forall₂ h fun _ _ hpacks => hpacks.split
  have hfuel := length_le_flatten fun m hm => (hmessages m hm).2
  obtain ⟨events, hread, hevents⟩ := mapM_readMessage h hes
  rw [agentRead, many_flatten hmessages hfuel]
  show (messages.mapM readMessage).bind _ = _
  rw [hread, ← hevents]
  rfl

/-! ## From the calls to the ring -/

/-- The message of an action carries the commands of the action, if it is accepted. -/
theorem Carries.packs {a : BatcherAction} {o : SinkAction} (h : Carries pid a o)
    (hgenuine : ∀ c, a = .raw c → (SinkCall.event c).Genuine) (hsized : a.WellSized) :
    ∃ groups, List.Forall₂ (Packs pid) groups
        ((offerOutput o).flatMap DispatchOutput.acceptedMessage) ∧
      groups.flatten.Sublist a.commands ∧ (o.Accepted → groups.flatten = a.commands) := by
  cases h with
  | append offset size => exact ⟨[], .nil, .slnil, fun _ => rfl⟩
  | batch number cs retval =>
      have hlt : rgBatchHeadlen + (payload cs).length < 2 ^ 15 := by
        have hmax : rgBatchHeadlen + (payload cs).length ≤ rgMaxCommandSize := hsized
        exact hmax.trans_lt (by decide)
      rw [accepted_offerBatch]
      by_cases hretval : retval = 0
      · rw [if_pos hretval]
        exact ⟨[], .nil, List.nil_sublist _, fun haccept => absurd hretval haccept⟩
      · rw [if_neg hretval]
        refine ⟨[cs], .cons (.batch number cs _ (batchMessage_frame pid number cs hlt)) .nil, ?_⟩
        simp [BatcherAction.commands]
  | raw c retval =>
      rw [accepted_offerRaw]
      by_cases hretval : retval = 0
      · rw [if_pos hretval]
        exact ⟨[], .nil, List.nil_sublist _, fun haccept => absurd hretval haccept⟩
      · rw [if_neg hretval]
        exact ⟨[[c]], .cons (.raw c (hgenuine c rfl)) .nil, by simp [BatcherAction.commands]⟩

/-- The messages of some actions carry the commands of the actions, as far as they are accepted. -/
theorem packs_of_forall₂ {as : List BatcherAction} {os : List SinkAction}
    (h : List.Forall₂ (Carries pid) as os)
    (hgenuine : ∀ c, .raw c ∈ as → (SinkCall.event c).Genuine) (hsized : ∀ a ∈ as, a.WellSized) :
    ∃ groups, List.Forall₂ (Packs pid) groups
        ((os.flatMap offerOutput).flatMap DispatchOutput.acceptedMessage) ∧
      groups.flatten.Sublist (sentCommands as) ∧
      ((∀ o ∈ os, o.Accepted) → groups.flatten = sentCommands as) := by
  induction h with
  | nil => exact ⟨[], .nil, .slnil, fun _ => rfl⟩
  | @cons a o as os hhead _ ih =>
      obtain ⟨hsize, hsizes⟩ := List.forall_mem_cons.mp hsized
      obtain ⟨first, hfirst, hsub, hall⟩ :=
        hhead.packs (fun c hc => hgenuine c (hc ▸ List.mem_cons_self ..)) hsize
      obtain ⟨rest, hrest, hsub', hall'⟩ :=
        ih (fun c hc => hgenuine c (List.mem_cons_of_mem _ hc)) hsizes
      have hcommands : sentCommands (a :: as) = a.commands ++ sentCommands as := List.flatMap_cons
      refine ⟨first ++ rest, ?_, ?_, ?_⟩
      · rw [List.flatMap_cons, List.flatMap_append]
        exact List.rel_append hfirst hrest
      · rw [hcommands, List.flatten_append]
        exact hsub.append hsub'
      · intro haccept
        obtain ⟨hfirst', hrest'⟩ := List.forall_mem_cons.mp haccept
        rw [hcommands, List.flatten_append, hall hfirst', hall' hrest']

/-- A step sends what waits and what it is given, or some of it. -/
theorem Batcher.step_sublist (b : Batcher) (call : SinkCall) :
    (sentCommands (b.step call).2 ++ (b.step call).1.pending).Sublist
      (b.pending ++ call.commands) := by
  by_cases hkeep : b.Keeps call
  · rw [sentCommands, step_keeps hkeep]
  · obtain ⟨hraw, -⟩ := Classical.not_imp.mp hkeep
    cases call with
    | null => exact hraw.elim
    | event c =>
        rw [step_raw b hraw]
        exact List.sublist_append_right _ _

/-- A run sends what waits and what it is given, or some of it, in order. -/
theorem Batcher.run_sublist (b : Batcher) (calls : List SinkCall) :
    (sentCommands (b.run calls).2 ++ (b.run calls).1.pending).Sublist
      (b.pending ++ calls.flatMap SinkCall.commands) := by
  induction calls generalizing b with
  | nil => simp [run, sentCommands]
  | cons call calls ih =>
      have hstep := b.step_sublist call
      have hrest := ih (b.step call).1
      rw [run_cons, sentCommands_append, List.append_assoc, List.flatMap_cons]
      refine (hrest.append_left _).trans ?_
      rw [← List.append_assoc, ← List.append_assoc]
      exact hstep.append_right _

end Messages

/-! ## Histories of messages -/

/-- What the run so far has made of the commands: the accepted messages carry some of those sent by
the batcher, all of them unless one was rejected, and the polled messages were sent, but for one in
a jitter pause. -/
structure MessageHistory (pid : UInt32) (os : List TracerOutput) (d : Dispatcher) : Prop where
  packs : ∃ groups, List.Forall₂ (Packs pid) groups (acceptedOf os) ∧
    groups.flatten.Sublist (sentCommands (Batcher.init.run (callsOf os)).2) ∧
    ((∀ o ∈ os, ¬ o.Rejects) →
      groups.flatten = sentCommands (Batcher.init.run (callsOf os)).2)
  socket : ∃ polled, d.Polled polled ∧ polledOf os = sentOf os ++ polled.map Message.bytes

namespace MessageHistory

variable {pid : UInt32} {os os' : List TracerOutput} {d d' : Dispatcher} {transport : Transport}

/-- A step without calls and offers keeps the carried commands. -/
theorem packs_quiet (h : MessageHistory pid os d) (hcalls : callsOf os' = [])
    (haccepted : acceptedOf os' = []) :
    ∃ groups, List.Forall₂ (Packs pid) groups (acceptedOf (os ++ os')) ∧
      groups.flatten.Sublist (sentCommands (Batcher.init.run (callsOf (os ++ os'))).2) ∧
      ((∀ o ∈ os ++ os', ¬ o.Rejects) →
        groups.flatten = sentCommands (Batcher.init.run (callsOf (os ++ os'))).2) := by
  obtain ⟨groups, hpacks, hsub, hall⟩ := h.packs
  rw [acceptedOf_append, callsOf_append, hcalls, haccepted, List.append_nil, List.append_nil]
  exact ⟨groups, hpacks, hsub, fun hroom => hall fun o ho => hroom o (List.mem_append_left _ ho)⟩

/-- The messages of a call carry the commands that the batcher sends. -/
theorem packs_call (h : MessageHistory pid os d) (hring : RingHistory pid os d)
    (hswitch : d.location.CanSwitch = true) (call : SinkCall) (hgenuine : call.Genuine)
    {o : TracerOutput} (hcalls : o.calls = [call]) (haccepted : o.accepted = []) :
    let os' := o :: (d.step transport (.call call)).2.map .ring
    ∃ groups, List.Forall₂ (Packs pid) groups (acceptedOf (os ++ os')) ∧
      groups.flatten.Sublist (sentCommands (Batcher.init.run (callsOf (os ++ os'))).2) ∧
      ((∀ o ∈ os ++ os', ¬ o.Rejects) →
        groups.flatten = sentCommands (Batcher.init.run (callsOf (os ++ os'))).2) := by
  intro os'
  obtain ⟨groups, hpacks, hsub, hall⟩ := h.packs
  obtain ⟨-, hcarries⟩ := perform_refines bipbufRing hring.refines call
  obtain ⟨groups', hpacks', hsub', hall'⟩ := packs_of_forall₂ hcarries
    (fun c hc => Batcher.eq_of_raw_mem hc ▸ hgenuine)
    (Batcher.step_wellSized hring.refines.fits call)
  have hstep : (d.step transport (.call call)).2
      = (call.perform bipbufRing d.data).2.1.flatMap offerOutput := by
    rw [Dispatcher.step_produce transport d fun ok => by simp, if_pos hswitch]
    rfl
  have hcallsOf : callsOf os' = [call] := by
    show callsOf ([o] ++ _) = _
    rw [callsOf_append, callsOf_ring, callsOf, List.flatMap_singleton, hcalls]
    rfl
  have hacceptedOf : acceptedOf os' = ((call.perform bipbufRing d.data).2.1.flatMap offerOutput).flatMap
      DispatchOutput.acceptedMessage := by
    show acceptedOf ([o] ++ _) = _
    rw [acceptedOf_append, acceptedOf_ring, acceptedOf, List.flatMap_singleton, haccepted, hstep]
    rfl
  have hrun : (Batcher.init.run (callsOf os ++ [call])).2
      = (Batcher.init.run (callsOf os)).2 ++ ((Batcher.init.run (callsOf os)).1.step call).2 := by
    rw [Batcher.run, Mealy.run_append, Mealy.run_singleton]
  rw [acceptedOf_append, callsOf_append, hcallsOf, hacceptedOf, hrun, sentCommands_append]
  refine ⟨groups ++ groups', List.rel_append hpacks hpacks', ?_, ?_⟩
  · rw [List.flatten_append]
    exact hsub.append hsub'
  · intro hroom
    -- With room for everything, each offer of the call is accepted.
    have haccept : ∀ action ∈ (call.perform bipbufRing d.data).2.1, action.Accepted := by
      intro action haction
      apply accepted_of_not_rejected
      intro m hm
      refine hroom (.ring (.rejected m)) (List.mem_append_right _ (List.mem_cons_of_mem _ ?_)) trivial
      rw [hstep]
      exact List.mem_map_of_mem (List.mem_flatMap_of_mem haction hm)
    rw [List.flatten_append, hall fun o ho => hroom o (List.mem_append_left _ ho), hall' haccept]

/-- A step of the dispatcher machine sends what it polls. -/
theorem socket_step (h : MessageHistory pid os d) (hring : RingHistory pid os d)
    (input : DispatchInput) (hkeep : d.KeepsPolled input)
    (hpolled : polledOf os' = (d.step transport input).2.flatMap DispatchOutput.polledMessage)
    (hsent : sentOf os' = (d.step transport input).2.flatMap DispatchOutput.sentPayload) :
    ∃ polled, (d.step transport input).1.Polled polled ∧
      polledOf (os ++ os') = sentOf (os ++ os') ++ polled.map Message.bytes := by
  obtain ⟨polled, hheld, hbalance⟩ := h.socket
  obtain ⟨as, bs, hqueued, -⟩ := hring.queued
  obtain ⟨polled', hheld', hstep⟩ := Dispatcher.step_socket transport hqueued hheld input hkeep
  refine ⟨polled', hheld', ?_⟩
  rw [polledOf_append, sentOf_append, hbalance, hpolled, hsent, List.append_assoc, hstep,
    List.append_assoc]

variable {t : Tracer} {input : TracerInput} {es : List Event}

/-- A call that hands over events hands over their commands. -/
theorem genuine_of_commands {call : SinkCall} (hes : call.commands = es.map Event.command) :
    call.Genuine := by
  cases call with
  | null => trivial
  | event c =>
      have hmem : c ∈ es.map Event.command := by
        rw [← hes]
        exact List.mem_singleton_self c
      obtain ⟨e, -, rfl⟩ := List.mem_map.mp hmem
      exact e.genuine

/-- **Every step keeps the history of the messages**, if it leaves a polled message alone. -/
theorem does (h : MessageHistory pid os t.dispatcher) (hring : RingHistory pid os t.dispatcher)
    (hkeep : t.KeepsPolled input) (hdoes : t.Does transport input d' os' es) :
    MessageHistory pid (os ++ os') d' := by
  cases hdoes with
  | nothing =>
      rw [List.append_nil]
      exact h
  | stop hmove =>
      have hquiet : (t.dispatcher.step transport .stop).2 = [] := by
        rw [Dispatcher.step_produce transport t.dispatcher fun ok => by simp]
        split <;> rfl
      exact ⟨h.packs_quiet rfl rfl,
        h.socket_step hring .stop (hkeep _ hmove) (by rw [hquiet]; rfl) (by rw [hquiet]; rfl)⟩
  | call call o es hswitch hmove ho hes =>
      -- Either way of observing a call shows the call alone.
      have hobserved : o.calls = [call] ∧ o.accepted = [] ∧ o.polled = [] ∧ o.ringOutput = [] := by
        rcases ho with rfl | ⟨command, rfl, rfl⟩ <;> exact ⟨rfl, rfl, rfl, rfl⟩
      obtain ⟨hcalls, haccepted, hpolled, hring'⟩ := hobserved
      refine ⟨h.packs_call hring hswitch call (genuine_of_commands hes) hcalls haccepted,
        h.socket_step hring (.call call) (hkeep _ hmove) ?_ ?_⟩
      · show polledOf ([o] ++ _) = _
        rw [polledOf_append, polledOf_ring, polledOf, List.flatMap_singleton, hpolled]
        rfl
      · show sentOf ([o] ++ _) = _
        rw [sentOf_append, sentOf_ring, sentOf, List.flatMap_singleton, hring']
        rfl
  | dispatch ok marks hmove hmarks =>
      -- The mark behind the exit of the dispatcher shows nothing of the ring.
      have hmark : callsOf marks = [] ∧ acceptedOf marks = [] ∧ polledOf marks = [] ∧
          sentOf marks = [] := by
        rcases hmarks with rfl | rfl <;> exact ⟨rfl, rfl, rfl, rfl⟩
      obtain ⟨hcalls, haccepted, hpolled, hsent⟩ := hmark
      refine ⟨h.packs_quiet ?_ ?_, h.socket_step hring (.dispatch ok) (hkeep _ hmove) ?_ ?_⟩
      · rw [callsOf_append, callsOf_ring, hcalls]
        rfl
      · rw [acceptedOf_append, acceptedOf_ring, haccepted, List.append_nil]
        exact Dispatcher.sinkThread_accepted ok
      · rw [polledOf_append, polledOf_ring, hpolled, List.append_nil]
      · rw [sentOf_append, sentOf_ring, hsent, List.append_nil]

end MessageHistory

namespace Tracer

/-- The calls of a step hand over the commands of its events. -/
theorem Does.calls {transport : Transport} {t : Tracer} {input : TracerInput} {d : Dispatcher}
    {os : List TracerOutput} {es : List Event} (h : t.Does transport input d os es) :
    (callsOf os).flatMap SinkCall.commands = es.map Event.command := by
  cases h with
  | nothing => rfl
  | stop hmove => rfl
  | call call o es hswitch hmove ho hes =>
      have hcalls : callsOf [o] = [call] := by
        rcases ho with rfl | ⟨command, rfl, rfl⟩ <;> rfl
      show (callsOf ([o] ++ _)).flatMap _ = _
      rw [callsOf_append, hcalls, callsOf_ring, List.append_nil, List.flatMap_singleton, hes]
  | dispatch ok marks hmove hmarks =>
      rw [callsOf_append, callsOf_ring]
      rcases hmarks with rfl | rfl <;> rfl

/-- **The calls of a run hand over the commands of the given events.** -/
theorem run_calls (transport : Transport) (t : Tracer) (inputs : List TracerInput) :
    (callsOf (run transport t inputs).2).flatMap SinkCall.commands
      = (given transport t inputs).map Event.command := by
  let handing : Tracer → TracerInput → Tracer × List Event := fun t input =>
    ((t.step transport input).1, t.handsOver input)
  have hstep : ∀ t t' input, t = t' →
      (t.step transport input).1 = (handing t' input).1 ∧
        (t.step transport input).2.flatMap (fun o => o.calls.flatMap SinkCall.commands)
          = (handing t' input).2.flatMap fun e => [e.command] := by
    rintro t _ input rfl
    refine ⟨rfl, ?_⟩
    rw [← List.flatMap_assoc, ← List.map_eq_flatMap]
    exact (step_does transport t input).calls
  have hrun := (Mealy.run_observation Eq _ _ hstep (Eq.refl t) inputs).2
  rw [← List.flatMap_assoc, ← List.map_eq_flatMap] at hrun
  exact hrun

/-- **Every run keeps the history of the messages.** -/
theorem messageHistory_run (transport : Transport) (pid : UInt32) {memory : Bytes}
    (hmemory : memory.length < 2 ^ 32) (receiveBufferSize : Int) (methodinfoSyncTicks : Nat)
    {inputs : List TracerInput}
    (hkeep : Mealy.AllSteps (step transport) KeepsPolled
      (fresh pid memory receiveBufferSize methodinfoSyncTicks) inputs) :
    let reached := run transport (fresh pid memory receiveBufferSize methodinfoSyncTicks) inputs
    RingHistory pid reached.2 reached.1.dispatcher ∧
      MessageHistory pid reached.2 reached.1.dispatcher := by
  intro reached
  have hrun := Mealy.run_history_of_allSteps
    (P := fun os (t : Tracer) => History pid os t ∧ MessageHistory pid os t.dispatcher)
    (fun os t input ⟨h, hmessages⟩ hkeep => ⟨history_step transport h input,
      hmessages.does h.ring hkeep (step_does transport t input)⟩)
    ⟨History.fresh pid hmemory receiveBufferSize methodinfoSyncTicks,
      ⟨[], .nil, .slnil, fun _ => rfl⟩, [], Dispatcher.polled_nil (by simp [fresh, Dispatcher.fresh]),
      rfl⟩ hkeep
  exact ⟨hrun.1.ring, hrun.2⟩

/-- A part of the messages carries a part of the commands. -/
theorem forall₂_of_sublist {α β : Type*} {r : α → β → Prop} {as : List α} {bs bs' : List β}
    (h : List.Forall₂ r as bs) (hsub : bs'.Sublist bs) :
    ∃ as', as'.Sublist as ∧ List.Forall₂ r as' bs' := by
  induction hsub generalizing as with
  | slnil => exact ⟨as, .refl as, h⟩
  | cons b _ ih =>
      cases h with
      | cons _ hrest =>
          obtain ⟨as', hsub', h'⟩ := ih hrest
          exact ⟨as', hsub'.cons _, h'⟩
  | cons_cons b _ ih =>
      cases h with
      | cons hhead hrest =>
          obtain ⟨as', hsub', h'⟩ := ih hrest
          exact ⟨_ :: as', hsub'.cons_cons _, .cons hhead h'⟩

section Sent

variable {transport : Transport} {pid : UInt32} {memory : Bytes} {receiveBufferSize : Int}
  {methodinfoSyncTicks : Nat} {inputs : List TracerInput}

/-- **What the agent receives of the messages sent** it reads to the end, as events that were handed
over, in their order. -/
theorem agentRead_received (hmemory : memory.length < 2 ^ 32)
    (hkeep : Mealy.AllSteps (step transport) KeepsPolled
      (fresh pid memory receiveBufferSize methodinfoSyncTicks) inputs)
    {received : List Bytes} (hreceived : received.Sublist
      (sentOf (run transport (fresh pid memory receiveBufferSize methodinfoSyncTicks) inputs).2)) :
    ∃ es : List Event, es.Sublist (given transport
        (fresh pid memory receiveBufferSize methodinfoSyncTicks) inputs) ∧
      agentRead received.flatten = some (es.map Event.transmitted) := by
  obtain ⟨hring, hmessages⟩ := messageHistory_run transport pid hmemory receiveBufferSize
    methodinfoSyncTicks hkeep
  generalize fresh pid memory receiveBufferSize methodinfoSyncTicks = start at *
  obtain ⟨groups, hpacks, hsub, -⟩ := hmessages.packs
  obtain ⟨polled, -, hsent⟩ := hmessages.socket
  obtain ⟨as, bs, -, haccepted⟩ := hring.queued
  -- What was sent comes first of what was accepted.
  have hpart : received.Sublist (acceptedOf (run transport start inputs).2) := by
    rw [haccepted, hsent, List.append_assoc]
    exact hreceived.trans (List.sublist_append_left _ _)
  obtain ⟨groups', hgroups', hpacks'⟩ := forall₂_of_sublist hpacks hpart
  have hcommands : groups'.flatten.Sublist ((given transport start inputs).map Event.command) := by
    rw [← run_calls]
    exact ((hgroups'.flatten.trans hsub).trans (List.sublist_append_left _ _)).trans
      (Batcher.run_sublist Batcher.init _)
  obtain ⟨es, hes, hflat⟩ := List.sublist_map_iff.mp hcommands
  exact ⟨es, hes, agentRead_flatten hpacks' hflat⟩

/-- **When nothing is rejected**, and no raw command comes directly after one that was left waiting,
the agent reads everything sent as what was handed over, up to what is still on the way. -/
theorem agentRead_sent (hmemory : memory.length < 2 ^ 32)
    (hkeep : Mealy.AllSteps (step transport) KeepsPolled
      (fresh pid memory receiveBufferSize methodinfoSyncTicks) inputs)
    (hroom : ∀ o ∈ (run transport (fresh pid memory receiveBufferSize methodinfoSyncTicks)
      inputs).2, ¬ o.Rejects)
    (hchain : NoRawAfterWaiting (callsOf (run transport
      (fresh pid memory receiveBufferSize methodinfoSyncTicks) inputs).2)) :
    let start := fresh pid memory receiveBufferSize methodinfoSyncTicks
    let reached := run transport start inputs
    ∃ es onTheWay : List Event, given transport start inputs = es ++ onTheWay ∧
      agentRead (sentOf reached.2).flatten = some (es.map Event.transmitted) ∧
      (reached.1.dispatcher.data.pendingBytes = [] →
        reached.1.dispatcher.data.ringbuf.contents = [] → reached.1.dispatcher.NoJitter →
        onTheWay = []) := by
  intro start reached
  obtain ⟨hring, hmessages⟩ := messageHistory_run transport pid hmemory receiveBufferSize
    methodinfoSyncTicks hkeep
  obtain ⟨groups, hpacks, -, hall⟩ := hmessages.packs
  obtain ⟨polled, hpolled, hsent⟩ := hmessages.socket
  obtain ⟨as, bs, hqueued, haccepted⟩ := hring.queued
  have hgiven := run_calls transport start inputs
  have hsplit : acceptedOf reached.2
      = sentOf reached.2 ++ (polled ++ (as ++ bs)).map Message.bytes := by
    rw [haccepted, hsent, List.append_assoc, ← List.map_append]
  -- The groups of the messages sent, then those of the messages held, then what waits in the batch.
  have hkeeps := Batcher.run_keeps ((Batcher.keepsAll_init_iff _).mpr hchain)
  rw [hsplit] at hpacks
  have htaken := List.forall₂_take_append _ _ _ hpacks
  have hheld := List.forall₂_drop_append _ _ _ hpacks
  have hcommands : (given transport start inputs).map Event.command
      = (groups.take (sentOf reached.2).length).flatten
        ++ ((groups.drop (sentOf reached.2).length).flatten
          ++ (Batcher.init.run (callsOf reached.2)).1.pending) := by
    rw [← List.append_assoc, ← List.flatten_append, List.take_append_drop, hall hroom, ← hgiven]
    exact hkeeps.symm
  obtain ⟨es, onTheWay, hes, hflat, hrest⟩ := List.append_eq_map_iff.mp hcommands.symm
  refine ⟨es, onTheWay, hes, agentRead_flatten htaken hflat.symm, ?_⟩
  intro hpending hcontents hjitter
  have hbatch : (Batcher.init.run (callsOf reached.2)).1.pending = [] := by
    by_contra hne
    have hpos := payload_pos hne
    rw [← hring.refines.pendingBytes_eq, hpending] at hpos
    exact absurd hpos (lt_irrefl 0)
  have hqueue : as ++ bs = [] := by
    rw [← messageBytes_eq_nil_iff, messageBytes_append, ← hqueued.tiled.regionA,
      ← hqueued.tiled.regionB]
    exact hcontents
  rw [hqueue, hpolled.eq_nil hjitter] at hheld
  rw [List.forall₂_nil_right_iff.mp hheld, hbatch] at hrest
  exact List.map_eq_nil_iff.mp hrest

end Sent

/-- **End to end.** As long as no polled message is written over in a jitter pause, the agent reads
whatever it receives of the messages sent, to the end, as events that were handed over, in their
order. When the ring had room for everything, and no raw command came directly after one that was
left waiting, it reads everything sent as what was handed over, up to what is still on the way:
nothing, when the batch and the ring are empty and no message is polled. -/
theorem agent_reads (transport : Transport) (pid : UInt32) (memory : Bytes)
    (hmemory : memory.length < 2 ^ 32) (receiveBufferSize : Int) (methodinfoSyncTicks : Nat)
    (inputs : List TracerInput)
    (hkeep : Mealy.AllSteps (step transport) KeepsPolled
      (fresh pid memory receiveBufferSize methodinfoSyncTicks) inputs) :
    let start := fresh pid memory receiveBufferSize methodinfoSyncTicks
    let reached := run transport start inputs
    (∀ received : List Bytes, received.Sublist (sentOf reached.2) →
      ∃ es : List Event, es.Sublist (given transport start inputs) ∧
        agentRead received.flatten = some (es.map Event.transmitted)) ∧
    ((∀ o ∈ reached.2, ¬ o.Rejects) → NoRawAfterWaiting (callsOf reached.2) →
      ∃ es onTheWay : List Event, given transport start inputs = es ++ onTheWay ∧
        agentRead (sentOf reached.2).flatten = some (es.map Event.transmitted) ∧
        (reached.1.dispatcher.data.pendingBytes = [] →
          reached.1.dispatcher.data.ringbuf.contents = [] → reached.1.dispatcher.NoJitter →
          onTheWay = [])) :=
  ⟨fun _ hreceived => agentRead_received hmemory hkeep hreceived,
    fun hroom hchain => agentRead_sent hmemory hkeep hroom hchain⟩

/-- The TCP thread never pauses with a polled message, so nothing is written over. -/
theorem keepsPolled_tcp {start : Tracer} (h : start.dispatcher.NoJitter) (inputs : List TracerInput) :
    Mealy.AllSteps (step .tcp) KeepsPolled start inputs := by
  refine Mealy.allSteps_of_invariant (P := fun t : Tracer => t.dispatcher.NoJitter) ?_ ?_ h inputs
  · intro t input ht
    have hdoes := step_does .tcp t input
    generalize (t.step .tcp input).1.dispatcher = d, (t.step .tcp input).2 = os,
      t.handsOver input = es at hdoes ⊢
    cases hdoes with
    | nothing => exact ht
    | _ => exact Dispatcher.step_noJitter ht _
  · intro t input ht move _
    exact ht.keepsPolled move

/-- Two events are emitted, and the batch is flushed, before the dispatcher sends it. -/
def emitFlushSend : List TracerInput :=
  [.emit { pid := 7, tid := 1, timestamp := 0, data := .threadStarted 0 },
    .emit { pid := 7, tid := 1, timestamp := 5, data := .endTransaction },
    .ender 0, .dispatch true, .dispatch true, .dispatch true, .dispatch true]

/-- The agent reads the two events. -/
theorem agent_reads_emitFlushSend :
    ∃ es onTheWay : List Event,
      given .tcp (fresh 7 (List.replicate 128 0) 0 0) emitFlushSend = es ++ onTheWay ∧
        agentRead (sentOf (run .tcp (fresh 7 (List.replicate 128 0) 0 0) emitFlushSend).2).flatten
          = some (es.map Event.transmitted) ∧ onTheWay = [] := by
  have hjitter : (run .tcp (fresh 7 (List.replicate 128 0) 0 0) emitFlushSend).1.dispatcher.NoJitter := by
    intro ptr size
    have hinner : (run .tcp (fresh 7 (List.replicate 128 0) 0 0) emitFlushSend).1.dispatcher.location
        = .inner := by decide +kernel
    rw [hinner]
    simp
  obtain ⟨es, onTheWay, hgiven, hread, hnone⟩ :=
    (agent_reads .tcp 7 (List.replicate 128 0) (by decide +kernel) 0 0 emitFlushSend
      (keepsPolled_tcp (fun _ _ => by simp [fresh, Dispatcher.fresh]) _)).2 (by decide +kernel)
      ((Batcher.keepsAll_init_iff _).mp (by decide +kernel))
  exact ⟨es, onTheWay, hgiven, hread, hnone (by decide +kernel) (by decide +kernel) hjitter⟩

end Tracer

end RaygunApm
