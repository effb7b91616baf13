import RaygunApm.Shutdown.Threads

/-! # The history of a run

Invariants that tie the state of the threads to everything observed so far: the batch is what the
calls made of it (`RingHistory`), and once the dispatcher has left its loop, what it polled is what
had been accepted by then (`LeftHistory`). -/

namespace RaygunApm

open ByteMemory

/-! ## Observations -/

/-- The call that is observed, if any. -/
def TracerOutput.calls : TracerOutput → List SinkCall
  | .called call => [call]
  | .ended command => [.event command]
  | _ => []

/-- The messages that the ring is observed to accept. -/
def TracerOutput.accepted : TracerOutput → List Bytes
  | .ring output => output.acceptedMessage
  | _ => []

/-- The messages that the dispatcher is observed to poll. -/
def TracerOutput.polled : TracerOutput → List Bytes
  | .ring output => output.polledMessage
  | _ => []

/-- The ring is observed to reject a message. -/
def TracerOutput.Rejects : TracerOutput → Prop
  | .ring (.rejected _) => True
  | _ => False

/-- The event of `rg_process_ended` is observed. -/
def TracerOutput.IsEnded : TracerOutput → Prop
  | .ended _ => True
  | _ => False

/-- The dispatcher is observed to leave its loop. -/
def TracerOutput.IsLeft : TracerOutput → Prop
  | .left => True
  | _ => False

instance : DecidablePred TracerOutput.Rejects := fun o =>
  match o with
  | .ring (.rejected _) => isTrue trivial
  | .ring (.accepted _) | .ring (.polled _) | .ring (.sent _) | .ring .quit => isFalse id
  | .called _ | .ended _ | .left => isFalse id

instance : DecidablePred TracerOutput.IsEnded := fun o =>
  match o with
  | .ended _ => isTrue trivial
  | .called _ | .ring _ | .left => isFalse id

instance : DecidablePred TracerOutput.IsLeft := fun o =>
  match o with
  | .left => isTrue trivial
  | .called _ | .ring _ | .ended _ => isFalse id

/-- The calls of a run. -/
def callsOf (os : List TracerOutput) : List SinkCall := os.flatMap TracerOutput.calls

/-- The messages accepted in a run. -/
def acceptedOf (os : List TracerOutput) : List Bytes := os.flatMap TracerOutput.accepted

/-- The messages polled in a run. -/
def polledOf (os : List TracerOutput) : List Bytes := os.flatMap TracerOutput.polled

@[simp] theorem callsOf_append (os os' : List TracerOutput) :
    callsOf (os ++ os') = callsOf os ++ callsOf os' := List.flatMap_append

@[simp] theorem acceptedOf_append (os os' : List TracerOutput) :
    acceptedOf (os ++ os') = acceptedOf os ++ acceptedOf os' := List.flatMap_append

@[simp] theorem polledOf_append (os os' : List TracerOutput) :
    polledOf (os ++ os') = polledOf os ++ polledOf os' := List.flatMap_append

/-- The ring and the socket make no calls. -/
theorem callsOf_ring (os : List DispatchOutput) : callsOf (os.map .ring) = [] := by
  simp [callsOf, List.flatMap_map, TracerOutput.calls]

/-- Among the outputs of the dispatcher, the messages accepted are those that the ring accepts. -/
theorem acceptedOf_ring (os : List DispatchOutput) :
    acceptedOf (os.map .ring) = os.flatMap DispatchOutput.acceptedMessage := by
  simp [acceptedOf, List.flatMap_map, TracerOutput.accepted]

/-- Among the outputs of the dispatcher, the messages polled are those that the thread polls. -/
theorem polledOf_ring (os : List DispatchOutput) :
    polledOf (os.map .ring) = os.flatMap DispatchOutput.polledMessage := by
  simp [polledOf, List.flatMap_map, TracerOutput.polled]

/-! ## Bodies of messages -/

/-- The command bytes of a message: a batch without its header, or a raw command. The type byte
tells them apart. -/
def messageBody (message : Bytes) : Bytes :=
  if message[2]? = some 0xFA then message.drop rgBatchHeadlen else message

/-- The command bytes of some messages. -/
def messageBodies (messages : List Bytes) : Bytes := messages.flatMap messageBody

@[simp] theorem messageBodies_append (ms ns : List Bytes) :
    messageBodies (ms ++ ns) = messageBodies ms ++ messageBodies ns := List.flatMap_append

/-- The call hands over an encoded event, if any: its type is not that of a batch. -/
def SinkCall.Genuine : SinkCall → Prop
  | .event c => c.bytes[2]? ≠ some 0xFA
  | .null => True

/-- The type byte of an encoded event. -/
theorem Event.type_byte (e : Event) : e.command.bytes[2]? = some e.data.type.code := by
  have hlen : (packLength (rgEncodeSize e.data)).length = 2 := length_packLength _
  show (rgEncodeHeaderImpl _ ++ _)[2]? = _
  rw [rgEncodeHeaderImpl, List.append_assoc, List.getElem?_append_right (by exact hlen.le), packByte]
  show _[2 - (packLength (rgEncodeSize e.data)).length]? = _
  rw [hlen]
  rfl

/-- No event has the type of a batch. -/
theorem Event.genuine (e : Event) : (SinkCall.event e.command).Genuine := by
  intro h
  rw [Event.type_byte] at h
  have hcode : e.data.type.code = 0xFA := Option.some.inj h
  revert hcode
  cases e.data.type <;> decide

/-- The body of a batch message. -/
theorem messageBody_batchMessage (pid : UInt32) (number : Nat) (cs : List Command) :
    messageBody (batchMessage pid number cs) = payload cs := by
  have htype : (batchMessage pid number cs)[2]? = some 0xFA := by
    have hlen := length_packLength (Int16.ofNat (rgBatchHeadlen + (payload cs).length))
    simp only [batchMessage, batchHeader, List.append_assoc, packByte]
    rw [List.getElem?_append_right hlen.le, hlen]
    rfl
  rw [messageBody, if_pos htype, batchMessage, List.drop_left' (length_batchHeader _ _ _ _ _)]

/-- The message of an accepted action carries the commands of the action. -/
theorem Carries.messageBodies_eq {pid : UInt32} {a : BatcherAction} {o : SinkAction}
    (h : Carries pid a o) (hgenuine : ∀ c, a = .raw c → (SinkCall.event c).Genuine)
    (haccept : o.Accepted) :
    messageBodies ((offerOutput o).flatMap DispatchOutput.acceptedMessage) = payload a.commands := by
  cases h with
  | append offset size => rfl
  | batch number cs retval =>
      have hne : retval ≠ 0 := haccept
      rw [accepted_offerBatch, if_neg hne, messageBodies, List.flatMap_singleton,
        messageBody_batchMessage]
      rfl
  | raw c retval =>
      have hne : retval ≠ 0 := haccept
      have htype : c.bytes[2]? ≠ some 0xFA := hgenuine c rfl
      rw [accepted_offerRaw, if_neg hne, messageBodies, List.flatMap_singleton, messageBody,
        if_neg htype]
      exact (payload_singleton c).symm

/-- The messages of accepted actions carry the commands of the actions. -/
theorem messageBodies_of_forall₂ {pid : UInt32} {as : List BatcherAction} {os : List SinkAction}
    (h : List.Forall₂ (Carries pid) as os)
    (hgenuine : ∀ c, .raw c ∈ as → (SinkCall.event c).Genuine) (haccept : ∀ o ∈ os, o.Accepted) :
    messageBodies ((os.flatMap offerOutput).flatMap DispatchOutput.acceptedMessage)
      = payload (sentCommands as) := by
  induction h with
  | nil => rfl
  | @cons a o as os hhead _ ih =>
      have hfirst := hhead.messageBodies_eq (fun c hc => hgenuine c (hc ▸ List.mem_cons_self ..))
        (haccept _ (List.mem_cons_self ..))
      have hrest := ih (fun c hc => hgenuine c (List.mem_cons_of_mem _ hc))
        fun o ho => haccept o (List.mem_cons_of_mem _ ho)
      rw [List.flatMap_cons, List.flatMap_append, messageBodies_append, hfirst, hrest,
        ← payload_append]
      rfl

/-- A raw action sends the command it was called with. -/
theorem Batcher.eq_of_raw_mem {b : Batcher} {call : SinkCall} {c : Command}
    (h : .raw c ∈ (b.step call).2) : call = .event c := by
  cases call with
  | null => by_cases hpending : b.pending = [] <;> simp [step, hpending] at h
  | event d =>
      rw [step] at h
      split at h
      · simp at h
      · split at h
        · simp at h
        · split at h
          · rw [BatcherAction.raw.inj (List.mem_singleton.mp h)]
          · simp at h

/-- An action whose output is not a rejection was accepted. -/
theorem accepted_of_not_rejected {o : SinkAction}
    (h : ∀ m, DispatchOutput.rejected m ∉ offerOutput o) : o.Accepted := by
  cases o with
  | append offset buflen => trivial
  | offerBatch message retval =>
      intro hzero
      exact h message (by simp [offerOutput, hzero])
  | offerRaw message retval =>
      intro hzero
      exact h message (by simp [offerOutput, hzero])

/-! ## The ring -/

/-- What the run so far has made of the batch and of the ring: the batch holds what the calls leave
waiting, the accepted messages carry what the calls send, unless one was rejected, and they are the
polled messages followed by those in the ring. -/
structure RingHistory (pid : UInt32) (os : List TracerOutput) (d : Dispatcher) : Prop where
  refines : d.data.Refines pid (Batcher.init.run (callsOf os)).1
  bodies : (∀ o ∈ os, ¬ o.Rejects) →
    messageBodies (acceptedOf os) = payload (sentCommands (Batcher.init.run (callsOf os)).2)
  queued : ∃ as bs, d.Queued pid as bs ∧
    acceptedOf os = polledOf os ++ (as ++ bs).map Message.bytes

variable {pid : UInt32} {os : List TracerOutput} {d : Dispatcher} {transport : Transport}

/-- The accounts of a step of the dispatcher machine, on the history. -/
theorem RingHistory.queued_step (h : RingHistory pid os d) (os' : List TracerOutput)
    {outputs : List DispatchOutput} (input : DispatchInput)
    (houtputs : (d.step transport input).2 = outputs)
    (haccepted : acceptedOf os' = outputs.flatMap DispatchOutput.acceptedMessage)
    (hpolled : polledOf os' = outputs.flatMap DispatchOutput.polledMessage) :
    ∃ as bs, (d.step transport input).1.Queued pid as bs ∧
      acceptedOf (os ++ os') = polledOf (os ++ os') ++ (as ++ bs).map Message.bytes := by
  obtain ⟨as, bs, hqueued, hbalance⟩ := h.queued
  obtain ⟨as', bs', hqueued', haccounts⟩ := Dispatcher.step_ring transport hqueued input
  refine ⟨as', bs', hqueued', ?_⟩
  have hstep := haccounts.balance
  rw [houtputs] at hstep
  rw [acceptedOf_append, polledOf_append, haccepted, hpolled, hbalance, List.append_assoc, hstep,
    List.append_assoc]

/-- **A call of the sink** keeps the history of the ring. -/
theorem RingHistory.call (h : RingHistory pid os d) (hswitch : d.location.CanSwitch = true)
    (call : SinkCall) (hgenuine : call.Genuine) {o : TracerOutput} (hcalls : o.calls = [call])
    (haccepted : o.accepted = []) (hpolled : o.polled = []) :
    RingHistory pid (os ++ o :: (d.step transport (.call call)).2.map .ring)
      (d.step transport (.call call)).1 := by
  have hstep : d.step transport (.call call)
      = ({ d with data := (call.perform bipbufRing d.data).1 },
        (call.perform bipbufRing d.data).2.1.flatMap offerOutput) := by
    show (if d.location.CanSwitch then _ else _) = _
    rw [if_pos hswitch]
    rfl
  obtain ⟨hrefines, hcarries⟩ := perform_refines bipbufRing h.refines call
  have hcallsOf : callsOf (os ++ o :: (d.step transport (.call call)).2.map .ring)
      = callsOf os ++ [call] := by
    rw [callsOf_append, callsOf, callsOf, List.flatMap_cons, hcalls]
    show _ ++ ([call] ++ callsOf _) = _
    rw [callsOf_ring, List.append_nil]
  have hacceptedOf : acceptedOf (o :: (d.step transport (.call call)).2.map .ring)
      = (d.step transport (.call call)).2.flatMap DispatchOutput.acceptedMessage := by
    rw [← acceptedOf_ring, acceptedOf, List.flatMap_cons, haccepted]
    rfl
  have hpolledOf : polledOf (o :: (d.step transport (.call call)).2.map .ring)
      = (d.step transport (.call call)).2.flatMap DispatchOutput.polledMessage := by
    rw [← polledOf_ring, polledOf, List.flatMap_cons, hpolled]
    rfl
  have hrun : Batcher.init.run (callsOf os ++ [call])
      = (((Batcher.init.run (callsOf os)).1.step call).1,
        (Batcher.init.run (callsOf os)).2 ++ ((Batcher.init.run (callsOf os)).1.step call).2) := by
    rw [Batcher.run, Mealy.run_append, Mealy.run_singleton]
  refine ⟨?_, ?_, h.queued_step _ (.call call) rfl hacceptedOf hpolledOf⟩
  · rw [hcallsOf, hrun, hstep]
    exact hrefines
  · intro hroom
    have hbefore := h.bodies fun o' ho' => hroom o' (List.mem_append_left _ ho')
    -- With room for everything, each offer of the call is accepted.
    have haccept : ∀ action ∈ (call.perform bipbufRing d.data).2.1, action.Accepted := by
      intro action haction
      apply accepted_of_not_rejected
      intro m hm
      refine hroom (.ring (.rejected m)) ?_ trivial
      rw [hstep]
      exact List.mem_append_right _ (List.mem_cons_of_mem _
        (List.mem_map_of_mem (List.mem_flatMap_of_mem haction hm)))
    have hraw : ∀ c, .raw c ∈ ((Batcher.init.run (callsOf os)).1.step call).2 →
        (SinkCall.event c).Genuine := by
      intro c hc
      exact Batcher.eq_of_raw_mem hc ▸ hgenuine
    rw [acceptedOf_append, messageBodies_append, hbefore, hacceptedOf, hcallsOf, hrun, hstep,
      messageBodies_of_forall₂ hcarries hraw haccept, sentCommands_append, payload_append]

/-- A round of the dispatcher does not touch the batch. -/
theorem Dispatcher.sinkThread_refines {b : Batcher} (ok : Bool) (h : d.data.Refines pid b) :
    (d.sinkThread transport ok).1.data.Refines pid b := by
  have hbatch : (d.sinkThread transport ok).1.data.batch = d.data.batch := by
    unfold sinkThread
    cases d.location with
    | inner =>
        dsimp only
        split
        · unfold drain
          dsimp only
          split
          · rfl
          · split
            · rfl
            · split <;> rfl
        · rfl
    | outer =>
        dsimp only
        split <;> rfl
    | sending size =>
        dsimp only
        split <;> rfl
    | _ => rfl
  exact ⟨⟨hbatch ▸ h.holds.batch, hbatch ▸ h.holds.pid_eq, hbatch ▸ h.holds.sequence_eq⟩, h.fits⟩

/-- The dispatcher offers nothing to the ring. -/
theorem Dispatcher.sinkThread_accepted (ok : Bool) :
    (d.sinkThread transport ok).2.flatMap DispatchOutput.acceptedMessage = [] := by
  unfold sinkThread
  cases d.location with
  | inner =>
      dsimp only
      split
      · rcases drain_cases transport d with
          ⟨hout, -⟩ | ⟨-, _, ⟨-, hout, -⟩ | ⟨_, _, hout, -⟩⟩ <;> rw [hout] <;> rfl
      · rfl
  | outer =>
      dsimp only
      split <;> rfl
  | sending size =>
      dsimp only
      split <;> rfl
  | _ => rfl

/-- **A step of the dispatcher** keeps the history of the ring. -/
theorem RingHistory.dispatch (transport : Transport) (h : RingHistory pid os d) (ok : Bool) :
    RingHistory pid (os ++ (d.step transport (.dispatch ok)).2.map .ring)
      (d.step transport (.dispatch ok)).1 := by
  have hcalls : callsOf (os ++ (d.step transport (.dispatch ok)).2.map .ring) = callsOf os := by
    rw [callsOf_append, callsOf_ring, List.append_nil]
  refine ⟨?_, ?_, h.queued_step _ (.dispatch ok) rfl (acceptedOf_ring _) (polledOf_ring _)⟩
  · rw [hcalls]
    exact Dispatcher.sinkThread_refines ok h.refines
  · intro hroom
    have haccepted : acceptedOf ((d.step transport (.dispatch ok)).2.map .ring) = [] := by
      rw [acceptedOf_ring]
      exact Dispatcher.sinkThread_accepted ok
    rw [acceptedOf_append, haccepted, List.append_nil, hcalls]
    exact h.bodies fun o ho => hroom o (List.mem_append_left _ ho)

/-- Clearing `running` keeps the history of the ring. -/
theorem RingHistory.stop (h : RingHistory pid os d) :
    RingHistory pid os (d.step transport .stop).1 := by
  have hdata : (d.step transport .stop).1.data.batch = d.data.batch ∧
      (d.step transport .stop).2 = [] := by
    rw [Dispatcher.step_produce transport d fun ok => by simp]
    split <;> exact ⟨rfl, rfl⟩
  have hqueued := h.queued_step [] .stop hdata.2 rfl rfl
  rw [List.append_nil] at hqueued
  have hrefines := h.refines
  exact ⟨⟨⟨hdata.1 ▸ hrefines.holds.batch, hdata.1 ▸ hrefines.holds.pid_eq,
    hdata.1 ▸ hrefines.holds.sequence_eq⟩, hrefines.fits⟩, h.bodies, hqueued⟩

/-- A marker that shows neither call nor message does not matter. -/
theorem RingHistory.left (h : RingHistory pid os d) : RingHistory pid (os ++ [.left]) d := by
  have hcalls : callsOf (os ++ [.left]) = callsOf os := by
    rw [callsOf_append]
    exact List.append_nil _
  have haccepted : acceptedOf (os ++ [.left]) = acceptedOf os := by
    rw [acceptedOf_append]
    exact List.append_nil _
  have hpolled : polledOf (os ++ [.left]) = polledOf os := by
    rw [polledOf_append]
    exact List.append_nil _
  refine ⟨hcalls ▸ h.refines, ?_, haccepted ▸ hpolled ▸ h.queued⟩
  intro hroom
  rw [hcalls, haccepted]
  exact h.bodies fun o ho => hroom o (List.mem_append_left _ ho)

/-! ## The end of the dispatcher -/

/-- **The dispatcher leaves its loop** only when it is not to run and the ring is empty; it shows
nothing when it does. -/
theorem Dispatcher.sinkThread_leaves {ok : Bool} (hlocation : d.location ≠ .done)
    (hdone : (d.sinkThread transport ok).1.location = .done) :
    d.data.running = false ∧ bipbufIsEmpty d.data.ringbuf = true ∧
      d.sinkThread transport ok = ({ d with location := .done }, []) := by
  unfold sinkThread at hdone ⊢
  cases hat : d.location with
  | outer =>
      simp only [hat] at hdone ⊢
      -- The loop is entered again while the thread is to run or the ring has messages.
      split at hdone
      · simp at hdone
      · rename_i hexit
        rw [if_neg hexit]
        obtain ⟨hrunning, hempty⟩ := not_or.mp hexit
        exact ⟨by simpa using hrunning, by simpa using hempty, rfl⟩
  | inner =>
      simp only [hat] at hdone
      split at hdone
      · -- A round that polls goes on, or ends by a quit.
        rcases drain_cases transport d with
          ⟨-, hquit⟩ | ⟨-, _, ⟨-, -, _, _, hjittering⟩ | ⟨_, _, -, hsending⟩⟩
        · simp [hquit] at hdone
        · simp [hjittering] at hdone
        · simp [hsending] at hdone
      · simp at hdone
  | afterInner =>
      simp only [hat] at hdone
      split at hdone <;> simp at hdone
  | sending size =>
      simp only [hat] at hdone
      split at hdone <;> simp at hdone
  | waiting => simp [hat] at hdone
  | jittering ptr size => simp [hat, send] at hdone
  | done => exact absurd hat hlocation

/-- With an empty ring everything accepted has been polled. -/
theorem RingHistory.polled_of_isEmpty (h : RingHistory pid os d)
    (hempty : bipbufIsEmpty d.data.ringbuf = true) : acceptedOf os = polledOf os := by
  obtain ⟨as, bs, hqueued, hbalance⟩ := h.queued
  have has : as = [] := hqueued.tiled.isEmpty_iff.mp hempty
  subst has
  rw [hbalance, hqueued.tiled.nil_of_nil]
  exact List.append_nil _

/-- What has been observed before the dispatcher left its loop, and since. -/
structure LeftHistory (pid : UInt32) (before after : List TracerOutput) : Prop where
  not_left : ∀ o ∈ before, ¬ o.IsLeft
  ended : ∃ o ∈ before, o.IsEnded
  bodies : (∀ o ∈ before, ¬ o.Rejects) →
    messageBodies (polledOf before) = payload (sentCommands (Batcher.init.run (callsOf before)).2)
  quiet : polledOf after = []

/-- **The history of a run.** The dispatcher runs until the process ends, and once it has left its
loop it polls no more. -/
structure History (pid : UInt32) (os : List TracerOutput) (t : Tracer) : Prop where
  ring : RingHistory pid os t.dispatcher
  running : t.ender ≠ .joining → t.dispatcher.data.running = true ∧ t.dispatcher.location ≠ .done
  ended : t.ender = .emitted ∨ t.ender = .joining → ∃ o ∈ os, o.IsEnded
  not_left : t.dispatcher.location ≠ .done → ∀ o ∈ os, ¬ o.IsLeft
  left : t.dispatcher.location = .done →
    ∃ before after, os = before ++ .left :: after ∧ LeftHistory pid before after

namespace History

variable {t t' : Tracer}

/-- A fresh tracer has no history. -/
theorem fresh (pid : UInt32) {memory : Bytes} (hmemory : memory.length < 2 ^ 32)
    (receiveBufferSize : Int) (methodinfoSyncTicks : Nat) :
    History pid [] (Tracer.fresh pid memory receiveBufferSize methodinfoSyncTicks) where
  ring := ⟨freshSink_refines pid _ receiveBufferSize, fun _ => rfl,
    ⟨[], [], Dispatcher.fresh_queued pid hmemory receiveBufferSize, rfl⟩⟩
  running _ := ⟨rfl, by simp [Tracer.fresh, Dispatcher.fresh]⟩
  ended h := by simp [Tracer.fresh] at h
  not_left _ := List.forall_mem_nil _
  left h := by simp [Tracer.fresh, Dispatcher.fresh] at h

/-- The timer thread's own state does not matter. -/
theorem of_eq (h : History pid os t) (hdispatcher : t'.dispatcher = t.dispatcher)
    (hender : t'.ender = t.ender) : History pid os t' := by
  obtain ⟨hring, hrunning, hended, hnot, hleft⟩ := h
  rw [← hdispatcher] at hring hrunning hnot hleft
  rw [← hender] at hrunning hended
  exact ⟨hring, hrunning, hended, hnot, hleft⟩

/-- **A call of the sink** keeps the history. -/
theorem call (h : History pid os t) (hswitch : t.dispatcher.location.CanSwitch = true)
    (call : SinkCall) (hgenuine : call.Genuine) {o : TracerOutput} (hcalls : o.calls = [call])
    (haccepted : o.accepted = []) (hpolled : o.polled = []) (hnotLeft : ¬ o.IsLeft)
    (hdispatcher : t'.dispatcher = (t.dispatcher.step transport (.call call)).1)
    (hjoining : t.ender = .joining → t'.ender = .joining)
    (hender : t'.ender = .emitted ∨ t'.ender = .joining →
      (t.ender = .emitted ∨ t.ender = .joining) ∨ o.IsEnded) :
    History pid (os ++ o :: (t.dispatcher.step transport (.call call)).2.map .ring) t' := by
  have hstep : t.dispatcher.step transport (.call call)
      = ({ t.dispatcher with data := (call.perform bipbufRing t.dispatcher.data).1 },
        (call.perform bipbufRing t.dispatcher.data).2.1.flatMap offerOutput) := by
    rw [Dispatcher.step_produce transport t.dispatcher fun ok => by simp, if_pos hswitch]
    rfl
  have hlocation : t'.dispatcher.location = t.dispatcher.location := by
    rw [hdispatcher, hstep]
  -- A call offers and does not poll, and the thread stays where it is.
  have hquiet : polledOf (o :: (t.dispatcher.step transport (.call call)).2.map .ring) = [] := by
    rw [polledOf, List.flatMap_cons, hpolled]
    show polledOf _ = []
    rw [polledOf_ring, hstep]
    exact (offerOutput_quiet _).1
  have hnew : ∀ o' ∈ o :: (t.dispatcher.step transport (.call call)).2.map .ring,
      ¬ o'.IsLeft := by
    refine List.forall_mem_cons.mpr ⟨hnotLeft, ?_⟩
    simp [TracerOutput.IsLeft]
  refine ⟨?_, ?_, ?_, ?_, ?_⟩
  · rw [hdispatcher]
    exact h.ring.call hswitch _ hgenuine hcalls haccepted hpolled
  · intro hne
    obtain ⟨hrunning, hdone⟩ := h.running fun heq => hne (hjoining heq)
    rw [hlocation]
    refine ⟨?_, hdone⟩
    rw [hdispatcher, hstep, ← hrunning]
    exact @Dispatcher.running_produce _ (.call call) (by simp)
  · intro hemitted
    rcases hender hemitted with hbefore | hnow
    · obtain ⟨o', ho', hended⟩ := h.ended hbefore
      exact ⟨o', List.mem_append_left _ ho', hended⟩
    · exact ⟨o, List.mem_append_right _ (List.mem_cons_self ..), hnow⟩
  · intro hne
    rw [hlocation] at hne
    exact List.forall_mem_append.mpr ⟨h.not_left hne, hnew⟩
  · intro hdone
    rw [hlocation] at hdone
    -- The call of a dispatcher that has left is behind its exit.
    obtain ⟨before, after, hos, hleft⟩ := h.left hdone
    refine ⟨before, after ++ o :: (t.dispatcher.step transport (.call call)).2.map .ring, ?_,
      hleft.not_left, hleft.ended, hleft.bodies, ?_⟩
    · rw [hos, List.append_assoc, List.cons_append]
    · rw [polledOf_append, hleft.quiet, hquiet]
      rfl

/-- **A step of the dispatcher** keeps the history. -/
theorem dispatch (h : History pid os t) (ok : Bool) :
    History pid (os ++ (t.dispatch transport ok).2) (t.dispatch transport ok).1 := by
  by_cases hdone : t.dispatcher.location = .done
  · -- the thread has returned
    have hstep : t.dispatch transport ok = (t, []) := by
      have hthread : t.dispatcher.step transport (.dispatch ok) = (t.dispatcher, []) := by
        show t.dispatcher.sinkThread transport ok = _
        rw [Dispatcher.sinkThread, hdone]
      simp [Tracer.dispatch, hthread, hdone]
    rw [hstep, List.append_nil]
    exact h
  · by_cases hleaves : (t.dispatcher.step transport (.dispatch ok)).1.location = .done
    · -- the thread leaves its loop
      obtain ⟨hrunning, hempty, hthread⟩ := Dispatcher.sinkThread_leaves hdone hleaves
      have hstep : t.dispatch transport ok
          = ({ t with dispatcher := { t.dispatcher with location := .done } }, [.left]) := by
        have hthread' : t.dispatcher.step transport (.dispatch ok) = _ := hthread
        simp [Tracer.dispatch, hthread', hdone]
      have hjoining : t.ender = .joining := by
        by_contra hne
        rw [(h.running hne).1] at hrunning
        exact absurd hrunning (by decide)
      have hring := h.ring.dispatch transport ok
      rw [show t.dispatcher.step transport (.dispatch ok) = _ from hthread, List.map_nil,
        List.append_nil] at hring
      rw [hstep]
      refine ⟨hring.left, fun hne => absurd hjoining hne, fun _ => ?_,
        fun hne => absurd rfl hne, fun _ => ⟨os, [], rfl, h.not_left hdone, ?_, ?_, rfl⟩⟩
      · obtain ⟨o, ho, hended⟩ := h.ended (.inr hjoining)
        exact ⟨o, List.mem_append_left _ ho, hended⟩
      · exact h.ended (.inr hjoining)
      · intro hroom
        rw [← h.ring.polled_of_isEmpty hempty]
        exact h.ring.bodies hroom
    · -- the thread goes on
      have hstep : t.dispatch transport ok
          = ({ t with dispatcher := (t.dispatcher.step transport (.dispatch ok)).1 },
            (t.dispatcher.step transport (.dispatch ok)).2.map .ring) := by
        simp [Tracer.dispatch, hleaves]
      rw [hstep]
      refine ⟨h.ring.dispatch transport ok, ?_, ?_, ?_, fun heq => absurd heq hleaves⟩
      · intro hne
        obtain ⟨as, bs, hqueued, -⟩ := h.ring.queued
        obtain ⟨_, _, _, haccounts⟩ := Dispatcher.step_ring transport hqueued (.dispatch ok)
        exact Dispatcher.step_running (by simp) (h.running hne).1 hdone haccounts.no_quit
      · intro hemitted
        obtain ⟨o, ho, hended⟩ := h.ended hemitted
        exact ⟨o, List.mem_append_left _ ho, hended⟩
      · intro _
        refine List.forall_mem_append.mpr ⟨h.not_left hdone, ?_⟩
        simp [TracerOutput.IsLeft]

/-- **Clearing `running`** keeps the history. -/
theorem stop (h : History pid os t) (hemitted : t.ender = .emitted)
    (hdispatcher : t'.dispatcher = (t.dispatcher.step transport .stop).1)
    (hjoining : t'.ender = .joining) : History pid os t' := by
  have hlocation : t'.dispatcher.location = t.dispatcher.location := by
    rw [hdispatcher, Dispatcher.step_produce transport t.dispatcher fun ok => by simp]
    split <;> rfl
  refine ⟨hdispatcher ▸ h.ring.stop, fun hne => absurd hjoining hne,
    fun _ => h.ended (.inl hemitted), ?_, ?_⟩
  · rw [hlocation]
    exact h.not_left
  · rw [hlocation]
    exact h.left

end History

end RaygunApm
