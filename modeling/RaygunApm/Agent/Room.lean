import RaygunApm.Agent.Reader
import RaygunApm.Ring.Capacity

/-! # Room for everything

What a call of the sink offers fits one message of the largest size. As a bip buffer has room for as
much as there is missing to half of its size, nothing is rejected as long as the calls find the ring
filled to less than half, by one message (`run_rejects_nothing`): it does not matter where the
messages lie, nor how the threads take turns. -/

namespace RaygunApm

open ByteMemory

/-! ## The fill level -/

/-- `bipbuf_used` counts the bytes that are queued. -/
theorem bipbufUsed_eq_length {me : Bipbuf} (h : me.Wf) (hsize : me.size < 2 ^ 31) :
    bipbufUsed me = me.contents.length := by
  have hA := h.length_regionA
  have hse := h.start_le_end
  have hbs := h.bEnd_le_start
  have hes := h.end_le_size
  have hB : me.regionB.length = me.bEnd := length_readAt (by rw [h.data_length]; omega)
  rw [bipbufUsed_eq h hsize, Bipbuf.contents, List.length_append, hA, hB]
  omega

/-- A ring of the given size, in balance. -/
structure Bipbuf.Settled (size : Nat) (me : Bipbuf) : Prop where
  balanced : me.Balanced
  size_eq : me.size = size

/-- An offer of a message keeps it. -/
theorem Bipbuf.Settled.offer {me : Bipbuf} {size : Nat} (h : me.Settled size) {as bs : List Message}
    (ht : Tiled me as bs) (m : Message) :
    (bipbufOffer me m.bytes m.bytes.length).1.Settled size := by
  obtain ⟨as', bs', -, ht', -, -⟩ := ht.offer_or_reject m
  generalize hoffer : bipbufOffer me m.bytes m.bytes.length = offered at ht' ⊢
  obtain ⟨me', retval⟩ := offered
  exact ⟨h.balanced.offer hoffer ht'.wf, (size_bipbufOffer hoffer).trans h.size_eq⟩

/-- Up to half of the size, and one byte, a message is accepted. -/
theorem Bipbuf.Settled.accepts {me : Bipbuf} {size : Nat} (h : me.Settled size) (hwf : me.Wf)
    (hpos : 0 < size) (hlt : size < 2 ^ 31) {m : Message}
    (hhalf : me.contents.length + m.bytes.length ≤ size / 2 + 1) :
    (bipbufOffer me m.bytes m.bytes.length).2 ≠ 0 ∧
      (bipbufOffer me m.bytes m.bytes.length).1.contents.length
        = me.contents.length + m.bytes.length := by
  obtain ⟨hbalanced, rfl⟩ := h
  have hused := bipbufUsed_eq_length hwf hlt
  have hfree := hbalanced.room hwf hpos hlt m.size_pos
    (by rw [hused]; exact_mod_cast hhalf)
  have hroom : ¬ bipbufUnused me < m.bytes.length := not_lt.mpr hfree
  refine ⟨?_, ?_⟩
  · rw [bipbufOffer, if_neg hroom]
    exact Int.natCast_ne_zero.mpr m.size_pos.ne'
  · rw [contents_bipbufOffer hwf m.size_pos hroom, List.length_append]

/-- A poll of the first message keeps it. -/
theorem Bipbuf.Settled.poll {me : Bipbuf} {size : Nat} (h : me.Settled size) {m : Message}
    {as bs : List Message} (ht : Tiled me (m :: as) bs) :
    (bipbufPoll me m.size).1.Settled size :=
  ⟨h.balanced.poll ht.wf m.size_pos ht.size_le, (size_bipbufPoll me m.size).trans h.size_eq⟩

/-! ## What a call offers -/

/-- The bytes that an action offers to the ring. -/
def SinkAction.offered : SinkAction → Nat
  | .append _ _ => 0
  | .offerBatch message _ => message.length
  | .offerRaw message _ => message.length

/-- The bytes that an action on commands offers to the ring. -/
def BatcherAction.offered : BatcherAction → Nat
  | .append _ _ => 0
  | .batch _ cs => rgBatchHeadlen + (payload cs).length
  | .raw c => c.size

/-- The bytes of an action are those of the action it carries out. -/
theorem Carries.offered_eq {pid : UInt32} {a : BatcherAction} {o : SinkAction}
    (h : Carries pid a o) : o.offered = a.offered := by
  cases h with
  | append offset size => rfl
  | batch number cs retval =>
      show (batchMessage pid number cs).length = _
      rw [batchMessage, List.length_append, length_batchHeader]
      rfl
  | raw c retval => rfl

/-- The sink offers as many bytes as the actions of the batcher that it carries out. -/
theorem offered_of_forall₂ {pid : UInt32} {as : List BatcherAction} {os : List SinkAction}
    (h : List.Forall₂ (Carries pid) as os) :
    (os.map SinkAction.offered).sum = (as.map BatcherAction.offered).sum := by
  induction h with
  | nil => rfl
  | cons hhead _ ih =>
      rw [List.map_cons, List.map_cons, List.sum_cons, List.sum_cons, ih, hhead.offered_eq]

/-- **A call offers no more** than the largest command. -/
theorem Batcher.offered_step_le {b : Batcher} (h : b.length ≤ rgBatchPacketSize) (call : SinkCall) :
    ((b.step call).2.map BatcherAction.offered).sum ≤ rgMaxCommandSize := by
  have hbatch : rgBatchHeadlen + (payload b.pending).length ≤ rgBatchPacketSize := h
  cases call with
  | null =>
      rw [step]
      split
      · exact Nat.zero_le _
      · exact hbatch.trans (by decide)
  | event c =>
      have hmax : c.size ≤ rgMaxCommandSize := c.max_size
      have hpayload : (payload [c]).length = c.size := by
        rw [payload_singleton]
        rfl
      rw [step]
      split
      · exact Nat.zero_le _
      · split
        · exact hbatch.trans (by decide)
        · split
          · exact hmax
          · -- a command of less than a packet, behind what waited
            rename_i hraw
            simp only [List.map_cons, List.map_nil, List.sum_cons, List.sum_nil,
              BatcherAction.offered, hpayload]
            simp only [rgBatchPacketSize, rgBatchHeadlen, rgMaxBatchPacketSize,
              rgMaxCommandSize] at hbatch hraw ⊢
            omega

/-- The offers of a call keep a settled ring, and as long as there is room for all of them they are
all accepted. -/
theorem OffersTo.settled {me me' : Bipbuf} {os : List SinkAction}
    (h : OffersTo bipbufRing me os me') (hmessage : ∀ o ∈ os, o.IsMessage) {as bs : List Message}
    (ht : Tiled me as bs) {size : Nat} (hpos : 0 < size) (hlt : size < 2 ^ 31)
    (hsettled : me.Settled size) :
    me'.Settled size ∧
      (me.contents.length + (os.map SinkAction.offered).sum ≤ size / 2 + 1 →
        ∀ o ∈ os, o.Accepted) := by
  -- One offer, and those that follow.
  have hoffer : ∀ (me : Bipbuf) (as bs : List Message) (m : Message) (rest : Nat), Tiled me as bs →
      me.Settled size → me.contents.length + (m.bytes.length + rest) ≤ size / 2 + 1 →
      (bipbufOffer me m.bytes m.bytes.length).2 ≠ 0 ∧
        (bipbufOffer me m.bytes m.bytes.length).1.contents.length + rest ≤ size / 2 + 1 := by
    intro me as bs m rest ht hsettled hhalf
    obtain ⟨haccept, hlength⟩ := hsettled.accepts ht.wf hpos hlt (m := m) (by omega)
    exact ⟨haccept, by rw [hlength]; omega⟩
  induction h generalizing as bs with
  | nil me => exact ⟨hsettled, fun _ => List.forall_mem_nil _⟩
  | append offset buflen _ ih =>
      obtain ⟨hkept, haccept⟩ := ih (List.forall_mem_cons.mp hmessage).2 ht hsettled
      refine ⟨hkept, fun hhalf => List.forall_mem_cons.mpr ⟨trivial, haccept ?_⟩⟩
      rwa [List.map_cons, List.sum_cons, SinkAction.offered, Nat.zero_add] at hhalf
  | batch message _ ih =>
      obtain ⟨⟨m, rfl⟩, hrest⟩ := List.forall_mem_cons.mp hmessage
      obtain ⟨as₁, bs₁, -, ht₁, -, -⟩ := ht.offer_or_reject m
      obtain ⟨hkept, haccept⟩ := ih hrest ht₁ (hsettled.offer ht m)
      refine ⟨hkept, fun hhalf => ?_⟩
      rw [List.map_cons, List.sum_cons] at hhalf
      obtain ⟨hfirst, hroom⟩ := hoffer _ as bs m _ ht hsettled hhalf
      exact List.forall_mem_cons.mpr ⟨hfirst, haccept hroom⟩
  | raw message _ ih =>
      obtain ⟨⟨m, rfl⟩, hrest⟩ := List.forall_mem_cons.mp hmessage
      obtain ⟨as₁, bs₁, -, ht₁, -, -⟩ := ht.offer_or_reject m
      obtain ⟨hkept, haccept⟩ := ih hrest ht₁ (hsettled.offer ht m)
      refine ⟨hkept, fun hhalf => ?_⟩
      rw [List.map_cons, List.sum_cons] at hhalf
      obtain ⟨hfirst, hroom⟩ := hoffer _ as bs m _ ht hsettled hhalf
      exact List.forall_mem_cons.mpr ⟨hfirst, haccept hroom⟩

/-! ## The threads -/

namespace Dispatcher

variable {pid : UInt32} {s : Dispatcher} {as bs : List Message} {size : Nat}

/-- The dispatcher thread keeps a settled ring: it polls the first message. -/
theorem sinkThread_settled (transport : Transport) (ok : Bool) (h : s.Queued pid as bs)
    (hsettled : s.data.ringbuf.Settled size) :
    (s.sinkThread transport ok).1.data.ringbuf.Settled size := by
  unfold sinkThread
  split
  · exact hsettled
  · split <;> exact hsettled
  · split
    · rename_i hempty
      cases as with
      | nil => exact absurd (h.tiled.isEmpty_iff.mpr rfl) hempty
      | cons m as =>
          rw [drain_eq transport h.tiled]
          dsimp only
          split <;> exact hsettled.poll h.tiled
    · exact hsettled
  · exact hsettled
  · exact hsettled
  · split <;> exact hsettled
  · exact hsettled

/-- A producer keeps it. A call that finds room for the largest command is not turned down. -/
theorem produce_settled (h : s.Queued pid as bs) (hpos : 0 < size) (hlt : size < 2 ^ 31)
    (hsettled : s.data.ringbuf.Settled size) (input : DispatchInput) :
    (produce s.data input).1.ringbuf.Settled size ∧
      ∀ call, input = .call call →
        s.data.ringbuf.contents.length + rgMaxCommandSize ≤ size / 2 + 1 →
          ∀ o ∈ (produce s.data input).2, o.Accepted := by
  obtain ⟨⟨b, hb⟩, ht⟩ := h
  obtain ⟨hkept, haccept⟩ := (produce_offersTo s.data input).settled (produce_refines hb input).2 ht
    hpos hlt hsettled
  refine ⟨hkept, ?_⟩
  rintro call rfl hroom
  apply haccept
  have hoffered : ((produce s.data (.call call)).2.map SinkAction.offered).sum ≤ rgMaxCommandSize := by
    rw [produce, offered_of_forall₂ (perform_refines bipbufRing hb call).2]
    exact Batcher.offered_step_le hb.fits call
  exact (Nat.add_le_add_left hoffered _).trans hroom

/-- An accepted action shows no rejection. -/
theorem not_rejected_of_accepted {o : SinkAction} (h : o.Accepted) (message : Bytes) :
    DispatchOutput.rejected message ∉ offerOutput o := by
  cases o with
  | append offset buflen => exact List.not_mem_nil
  | offerBatch message' retval =>
      rw [offerOutput, if_neg h]
      simp
  | offerRaw message' retval =>
      rw [offerOutput, if_neg h]
      simp

/-- The dispatcher thread turns nothing down. -/
theorem sinkThread_not_rejected (transport : Transport) (ok : Bool) (s : Dispatcher)
    (message : Bytes) : DispatchOutput.rejected message ∉ (s.sinkThread transport ok).2 := by
  unfold sinkThread
  cases s.location with
  | inner =>
      dsimp only
      split
      · rcases drain_cases transport s with
          ⟨hout, -⟩ | ⟨-, _, ⟨-, hout, -⟩ | ⟨_, _, hout, -⟩⟩ <;> rw [hout] <;> simp
      · exact List.not_mem_nil
  | outer =>
      dsimp only
      split <;> exact List.not_mem_nil
  | sending size =>
      dsimp only
      split <;> exact List.not_mem_nil
  | jittering ptr size => simp [send]
  | _ => exact List.not_mem_nil

/-- **Every step** keeps a settled ring, and rejects nothing if it does not call the sink, or finds
room. -/
theorem step_settled (transport : Transport) (h : s.Queued pid as bs) (hpos : 0 < size)
    (hlt : size < 2 ^ 31) (hsettled : s.data.ringbuf.Settled size) {input : DispatchInput}
    (hinput : ∀ message, input ≠ .offer message)
    (hroom : ∀ call, input = .call call →
      s.data.ringbuf.contents.length + rgMaxCommandSize ≤ size / 2 + 1) :
    (s.step transport input).1.data.ringbuf.Settled size ∧
      ∀ message, DispatchOutput.rejected message ∉ (s.step transport input).2 := by
  by_cases hproducer : ∀ ok, input ≠ .dispatch ok
  · rw [step_produce transport s hproducer]
    split
    · obtain ⟨hkept, haccept⟩ := produce_settled h hpos hlt hsettled input
      refine ⟨hkept, fun message hmem => ?_⟩
      obtain ⟨o, ho, hrejected⟩ := List.mem_flatMap.mp hmem
      cases input with
      | call call =>
          exact not_rejected_of_accepted (haccept call rfl (hroom call rfl) o ho) message hrejected
      | offer message => exact hinput message rfl
      | stop => exact absurd ho List.not_mem_nil
      | dispatch ok => exact hproducer ok rfl
    · exact ⟨hsettled, fun _ => List.not_mem_nil⟩
  · obtain ⟨ok, hok⟩ := not_forall_not.mp hproducer
    rw [hok]
    exact ⟨sinkThread_settled transport ok h hsettled, sinkThread_not_rejected transport ok s⟩

end Dispatcher

namespace Tracer

/-- If the step calls the sink, the ring is filled to less than half, by the largest command. -/
def HasRoom (t : Tracer) (input : TracerInput) : Prop :=
  ∀ move ∈ t.moves input, ∀ call, move = .call call →
    bipbufUsed t.dispatcher.data.ringbuf + rgMaxCommandSize
      ≤ (t.dispatcher.data.ringbuf.size / 2 + 1 : Nat)

/-- A step that finds room keeps a settled ring and shows no rejection. -/
theorem Does.settled {transport : Transport} {t : Tracer} {input : TracerInput} {d : Dispatcher}
    {os : List TracerOutput} {es : List Event} {pid : UInt32} {as bs : List Message} {size : Nat}
    (hdoes : t.Does transport input d os es) (h : t.dispatcher.Queued pid as bs) (hpos : 0 < size)
    (hlt : size < 2 ^ 31) (hsettled : t.dispatcher.data.ringbuf.Settled size)
    (hroom : t.HasRoom input) :
    d.data.ringbuf.Settled size ∧ ∀ o ∈ os, ¬ o.Rejects := by
  have hused := bipbufUsed_eq_length h.tiled.wf (hsettled.size_eq.trans_lt hlt)
  -- The moves of the step find room in the ring.
  have hmoves : ∀ move ∈ t.moves input, ∀ call, move = .call call →
      t.dispatcher.data.ringbuf.contents.length + rgMaxCommandSize ≤ size / 2 + 1 := by
    intro move hmove call hcall
    have hle := hroom move hmove call hcall
    rw [hused, hsettled.size_eq] at hle
    exact_mod_cast hle
  -- The outputs of the ring show no rejection.
  have hring : ∀ outputs : List DispatchOutput, (∀ message, .rejected message ∉ outputs) →
      ∀ o ∈ outputs.map TracerOutput.ring, ¬ o.Rejects := by
    intro outputs hout o ho hrejects
    obtain ⟨output, houtput, rfl⟩ := List.mem_map.mp ho
    cases output with
    | rejected message => exact hout message houtput
    | _ => exact hrejects
  cases hdoes with
  | nothing => exact ⟨hsettled, List.forall_mem_nil _⟩
  | stop hmove =>
      exact ⟨(Dispatcher.step_settled transport h hpos hlt hsettled (by simp) (by simp)).1,
        List.forall_mem_nil _⟩
  | call call o es hswitch hmove ho hes =>
      have hinput : ∀ message, DispatchInput.call call ≠ .offer message := by simp
      obtain ⟨hkept, hout⟩ := Dispatcher.step_settled transport h hpos hlt hsettled hinput
        fun c hc => hmoves _ hmove c hc
      refine ⟨hkept, List.forall_mem_cons.mpr ⟨?_, hring _ hout⟩⟩
      rcases ho with rfl | ⟨command, rfl, -⟩ <;> exact id
  | dispatch ok marks hmove hmarks =>
      have hinput : ∀ message, DispatchInput.dispatch ok ≠ .offer message := by simp
      obtain ⟨hkept, hout⟩ := Dispatcher.step_settled transport h hpos hlt hsettled hinput (by simp)
      refine ⟨hkept, List.forall_mem_append.mpr ⟨hring _ hout, ?_⟩⟩
      rcases hmarks with rfl | rfl
      · exact List.forall_mem_nil _
      · exact List.forall_mem_singleton.mpr id

/-- **Nothing is turned down** in a run, however the threads take turns, when each call of the sink
finds the ring filled to less than half, by the largest command. What the batcher sends is then in
the accepted messages. -/
theorem run_rejects_nothing (transport : Transport) (pid : UInt32) (memory : Bytes)
    (hne : memory ≠ []) (hmemory : memory.length < 2 ^ 31) (receiveBufferSize : Int)
    (methodinfoSyncTicks : Nat) (inputs : List TracerInput)
    (hroom : Mealy.AllSteps (step transport) HasRoom
      (fresh pid memory receiveBufferSize methodinfoSyncTicks) inputs) :
    let reached := run transport (fresh pid memory receiveBufferSize methodinfoSyncTicks) inputs
    (∀ o ∈ reached.2, ¬ o.Rejects) ∧
      messageBodies (acceptedOf reached.2)
        = payload (sentCommands (Batcher.init.run (callsOf reached.2)).2) := by
  intro reached
  have hpos : 0 < memory.length := List.length_pos_iff.mpr hne
  have hrun := Mealy.run_history_of_allSteps
    (P := fun os (t : Tracer) => History pid os t ∧
      t.dispatcher.data.ringbuf.Settled memory.length ∧ ∀ o ∈ os, ¬ o.Rejects)
    (fun os t input ⟨h, hsettled, hbefore⟩ hstep => by
      obtain ⟨as, bs, hqueued, -⟩ := h.ring.queued
      obtain ⟨hkept, hout⟩ := (step_does transport t input).settled hqueued hpos hmemory hsettled hstep
      exact ⟨history_step transport h input, hkept, List.forall_mem_append.mpr ⟨hbefore, hout⟩⟩)
    ⟨History.fresh pid (by omega) receiveBufferSize methodinfoSyncTicks,
      ⟨balanced_bipbufNew memory, rfl⟩, List.forall_mem_nil _⟩ hroom
  obtain ⟨hhistory, -, hrejects⟩ := hrun
  exact ⟨hrejects, hhistory.ring.bodies hrejects⟩

/-- An event is emitted and waits in the batch, the batch is flushed into the ring, and the
dispatcher sends it. -/
def emitFlushDispatch : List TracerInput :=
  [.emit { pid := 7, tid := 1, timestamp := 0, data := .threadStarted 0 }, .ender 0, .dispatch true,
    .dispatch true, .dispatch true]

/-- In a ring of 33000 bytes nothing is turned down, and the event goes out in one message. -/
theorem run_rejects_nothing_emitFlushDispatch :
    let outputs := (run .tcp (fresh 7 (List.replicate 33000 0) 0 0) emitFlushDispatch).2
    (messageBodies (acceptedOf outputs) = payload (sentCommands (Batcher.init.run (callsOf outputs)).2)) ∧
      (sentOf outputs).length = 1 := by
  have hlength : (List.replicate 33000 (0 : UInt8)).length = 33000 := List.length_replicate
  refine ⟨(run_rejects_nothing .tcp 7 _ (List.ne_nil_of_length_pos (by omega)) (by omega) 0 0
    emitFlushDispatch ?_).2, by decide +kernel⟩
  -- both calls of the sink find the ring empty, and the dispatcher makes none
  have hdispatch : ∀ t : Tracer, t.HasRoom (.dispatch true) := by
    intro t move hmove call hcall
    rw [List.mem_singleton.mp hmove] at hcall
    cases hcall
  exact ⟨fun _ _ _ _ => by decide +kernel, fun _ _ _ _ => by decide +kernel, hdispatch _,
    hdispatch _, hdispatch _, trivial⟩

end Tracer

end RaygunApm
