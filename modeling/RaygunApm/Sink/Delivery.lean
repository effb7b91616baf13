import RaygunApm.Sink.Refinement

/-! # What reaches the ring

Every branch of the batched sink hands on the pending commands before it starts a new batch, except
the branch for raw commands, which resets the batch it finds. So a run delivers its commands
completely and in order exactly when no raw command finds a command waiting, and this can be read
off the sizes of the commands (`sinkRun_delivers_iff`). -/

namespace RaygunApm

open ByteMemory

variable {ρ : Type} {pid : UInt32}

/-! ## On commands -/

/-- The command that a call hands over. -/
def SinkCall.commands : SinkCall → List Command
  | .event c => [c]
  | .null => []

/-- The call leaves a command in the current batch. -/
def SinkCall.Waits : SinkCall → Prop
  | .event c => rgBatchHeadlen + c.size ≤ rgBatchPacketSize
  | .null => False

/-- The call hands over a command too large for any batch. -/
def SinkCall.Raw : SinkCall → Prop
  | .event c => rgMaxBatchPacketSize - 2 ≤ c.size
  | .null => False

/-- The commands that an action sends. -/
def BatcherAction.commands : BatcherAction → List Command
  | .append _ _ => []
  | .batch _ cs => cs
  | .raw c => [c]

/-- The call finds nothing waiting that it would drop. -/
def Batcher.Keeps (b : Batcher) (call : SinkCall) : Prop := call.Raw → b.pending = []

/-- A raw command does not wait. -/
theorem SinkCall.Raw.not_waits {call : SinkCall} (h : call.Raw) : ¬ call.Waits := by
  cases call with
  | event c =>
      simp only [Raw, Waits, rgMaxBatchPacketSize, rgBatchHeadlen, rgBatchPacketSize] at h ⊢
      omega
  | null => exact h.elim

/-- What a raw command does: it is sent, and whatever waits is gone. -/
theorem Batcher.step_raw (b : Batcher) {c : Command} (h : (SinkCall.event c).Raw) :
    b.step (.event c) = (⟨b.sent, []⟩, [.raw c]) := by
  have hnew : ¬ rgBatchHeadlen + c.size ≤ rgBatchPacketSize := h.not_waits
  have hcur : ¬ b.length + c.size ≤ rgBatchPacketSize := by
    unfold Batcher.length
    omega
  have hraw : rgMaxBatchPacketSize - 2 ≤ c.size := h
  rw [Batcher.step, if_neg hcur, if_neg hnew, if_pos hraw]

/-- **A step hands on what waits and what it is given**, unless a raw command drops the first. -/
theorem Batcher.step_keeps {b : Batcher} {call : SinkCall} (h : b.Keeps call) :
    (b.step call).2.flatMap BatcherAction.commands ++ (b.step call).1.pending
      = b.pending ++ call.commands := by
  cases call with
  | null =>
      by_cases hcs : b.pending = []
      · simp [Batcher.step, hcs, SinkCall.commands]
      · simp [Batcher.step, hcs, SinkCall.commands, BatcherAction.commands]
  | event c =>
      by_cases hraw : (SinkCall.event c).Raw
      · rw [Batcher.step_raw b hraw, h hraw]
        rfl
      · have hsmall : ¬ rgMaxBatchPacketSize - 2 ≤ c.size := hraw
        rw [Batcher.step, if_neg hsmall]
        split
        · rfl
        · split <;> simp [SinkCall.commands, BatcherAction.commands]

/-- A step that drops what waits comes out short. -/
theorem Batcher.step_drops {b : Batcher} {call : SinkCall} (h : ¬ b.Keeps call) :
    (payload ((b.step call).2.flatMap BatcherAction.commands ++ (b.step call).1.pending)).length
      < (payload (b.pending ++ call.commands)).length := by
  obtain ⟨hraw, hne⟩ := Classical.not_imp.mp h
  cases call with
  | null => exact hraw.elim
  | event c =>
      have hpos := payload_pos hne
      rw [Batcher.step_raw b hraw]
      simp only [List.flatMap_cons, BatcherAction.commands, List.flatMap_nil, List.append_nil,
        SinkCall.commands, payload_append, List.length_append]
      omega

/-- Whether a step leaves commands waiting depends on its call only. -/
theorem Batcher.pending_step_eq_nil (b : Batcher) (call : SinkCall) :
    (b.step call).1.pending = [] ↔ ¬ call.Waits := by
  cases call with
  | null => by_cases hcs : b.pending = [] <;> simp [Batcher.step, hcs, SinkCall.Waits]
  | event c =>
      simp only [Batcher.step, SinkCall.Waits]
      split
      · rename_i hcur
        have hnew : rgBatchHeadlen + c.size ≤ rgBatchPacketSize := by
          unfold Batcher.length at hcur
          omega
        simp [hnew]
      · split
        · rename_i hnew
          simp [hnew]
        · rename_i hnew
          split <;> simp [hnew]

/-- No call of a run drops what waits. -/
def Batcher.KeepsAll (b : Batcher) : List SinkCall → Prop
  | [] => True
  | call :: calls => b.Keeps call ∧ (b.step call).1.KeepsAll calls

/-- No raw command comes directly after a command that is left waiting. -/
def NoRawAfterWaiting (calls : List SinkCall) : Prop :=
  List.IsChain (fun call next => ¬ (call.Waits ∧ next.Raw)) calls

/-- After a call, dropping is a matter of the calls alone. -/
theorem Batcher.keepsAll_step_iff (b : Batcher) (call : SinkCall) (calls : List SinkCall) :
    (b.step call).1.KeepsAll calls ↔ NoRawAfterWaiting (call :: calls) := by
  induction calls generalizing b call with
  | nil => exact ⟨fun _ => .singleton call, fun _ => trivial⟩
  | cons next calls ih =>
      rw [KeepsAll, ih, NoRawAfterWaiting, NoRawAfterWaiting, List.isChain_cons_cons, Keeps,
        pending_step_eq_nil, not_and']

/-- From an empty batch on, dropping is a matter of the calls alone. -/
theorem Batcher.keepsAll_init_iff (calls : List SinkCall) :
    Batcher.init.KeepsAll calls ↔ NoRawAfterWaiting calls := by
  cases calls with
  | nil => exact ⟨fun _ => .nil, fun _ => trivial⟩
  | cons call calls =>
      rw [KeepsAll, keepsAll_step_iff]
      exact and_iff_right fun _ => rfl

/-- **A run that drops nothing hands on everything in order.** -/
theorem Batcher.run_keeps {b : Batcher} {calls : List SinkCall} (h : b.KeepsAll calls) :
    (b.run calls).2.flatMap BatcherAction.commands ++ (b.run calls).1.pending
      = b.pending ++ calls.flatMap SinkCall.commands := by
  induction calls generalizing b with
  | nil => simp [Batcher.run]
  | cons call calls ih =>
      obtain ⟨hcall, hcalls⟩ := h
      have hrest := ih hcalls
      rw [run_cons, List.flatMap_append, List.append_assoc, hrest, ← List.append_assoc,
        step_keeps hcall, List.append_assoc, List.flatMap_cons]

/-- A step sends and keeps no more bytes than waited and came in. -/
theorem Batcher.step_length_le (b : Batcher) (call : SinkCall) :
    (payload ((b.step call).2.flatMap BatcherAction.commands ++ (b.step call).1.pending)).length
      ≤ (payload (b.pending ++ call.commands)).length := by
  by_cases h : b.Keeps call
  · rw [step_keeps h]
  · exact (step_drops h).le

/-- The bytes of a run: what the first step sends, then what the rest of the run makes of what waits
then. -/
theorem Batcher.run_cons_length (b : Batcher) (call : SinkCall) (calls : List SinkCall) :
    (payload ((b.run (call :: calls)).2.flatMap BatcherAction.commands
        ++ (b.run (call :: calls)).1.pending)).length
      = (payload ((b.step call).2.flatMap BatcherAction.commands)).length
        + (payload (((b.step call).1.run calls).2.flatMap BatcherAction.commands
          ++ ((b.step call).1.run calls).1.pending)).length := by
  simp only [run_cons, List.flatMap_append, List.append_assoc, payload_append,
    List.length_append]

/-- A run sends and keeps no more bytes than waited and came in. -/
theorem Batcher.run_length_le (b : Batcher) (calls : List SinkCall) :
    (payload ((b.run calls).2.flatMap BatcherAction.commands ++ (b.run calls).1.pending)).length
      ≤ (payload (b.pending ++ calls.flatMap SinkCall.commands)).length := by
  induction calls generalizing b with
  | nil => simp [Batcher.run]
  | cons call calls ih =>
      have hstep := b.step_length_le call
      have hrest := ih (b.step call).1
      rw [run_cons_length]
      simp only [List.flatMap_cons, payload_append, List.length_append] at hstep hrest ⊢
      omega

/-- **A run that drops something comes out short.** -/
theorem Batcher.run_drops {b : Batcher} {calls : List SinkCall} (h : ¬ b.KeepsAll calls) :
    (payload ((b.run calls).2.flatMap BatcherAction.commands ++ (b.run calls).1.pending)).length
      < (payload (b.pending ++ calls.flatMap SinkCall.commands)).length := by
  induction calls generalizing b with
  | nil => exact absurd trivial h
  | cons call calls ih =>
      have hle := (b.step call).1.run_length_le calls
      have hstep := b.step_length_le call
      rw [run_cons_length]
      by_cases hcall : b.Keeps call
      · have hrest := ih fun hcalls => h ⟨hcall, hcalls⟩
        simp only [List.flatMap_cons, payload_append, List.length_append] at hstep hrest ⊢
        omega
      · have hdrop := step_drops hcall
        simp only [List.flatMap_cons, payload_append, List.length_append] at hdrop hle ⊢
        omega

/-! ## On bytes -/

/-- The offer of the action, if it makes one, was accepted. -/
def SinkAction.Accepted : SinkAction → Prop
  | .append _ _ => True
  | .offerBatch _ retval => retval ≠ 0
  | .offerRaw _ retval => retval ≠ 0

instance : DecidablePred SinkAction.Accepted := fun a => by
  cases a <;> unfold SinkAction.Accepted <;> infer_instance

/-- The command bytes that an action puts into the ring: an accepted batch without its header, or an
accepted raw command. -/
def SinkAction.queued : SinkAction → Bytes
  | .append _ _ => []
  | .offerBatch message retval => if retval = 0 then [] else message.drop rgBatchHeadlen
  | .offerRaw message retval => if retval = 0 then [] else message

/-- The command bytes in the current batch. -/
def SinkData.pendingBytes (s : SinkData ρ) : Bytes :=
  readAt s.batch.buf rgBatchHeadlen (s.batch.length.toNatClampNeg - rgBatchHeadlen)

/-- The commands that a run is given. -/
def handedOver (steps : List (SinkStep ρ)) : List Command :=
  (steps.flatMap SinkStep.calls).flatMap SinkCall.commands

/-- An accepted action queues the bytes of its commands. -/
theorem Carries.queued_eq {a : BatcherAction} {o : SinkAction} (h : Carries pid a o)
    (haccept : o.Accepted) : o.queued = payload a.commands := by
  cases h with
  | append offset size => rfl
  | batch number cs retval =>
      have hne : retval ≠ 0 := haccept
      rw [SinkAction.queued, if_neg hne, batchMessage, List.drop_left' (length_batchHeader _ _ _ _ _)]
      rfl
  | raw c retval =>
      have hne : retval ≠ 0 := haccept
      rw [SinkAction.queued, if_neg hne]
      exact (payload_singleton c).symm

/-- The accepted actions of a run queue the bytes of their commands. -/
theorem queued_of_forall₂ {as : List BatcherAction} {os : List SinkAction}
    (h : List.Forall₂ (Carries pid) as os) (haccept : ∀ o ∈ os, o.Accepted) :
    os.flatMap SinkAction.queued = payload (as.flatMap BatcherAction.commands) := by
  induction h with
  | nil => rfl
  | cons hhead _ ih =>
      rw [List.flatMap_cons, List.flatMap_cons, payload_append,
        hhead.queued_eq (haccept _ (List.mem_cons_self ..)),
        ih fun o ho => haccept o (List.mem_cons_of_mem _ ho)]

/-- The current batch holds the bytes of what waits. -/
theorem SinkData.Refines.pendingBytes_eq {s : SinkData ρ} {b : Batcher} (h : s.Refines pid b) :
    s.pendingBytes = payload b.pending := by
  rw [SinkData.pendingBytes, h.holds.batch.length_toNat, Nat.add_sub_cancel_left,
    h.holds.batch.stored]

/-- Every call on a ring that accepts every offer has its offers accepted. -/
theorem rbRgBatchedSink_accepted {R : Ring ρ} (hR : ∀ r message, (R.offer r message).2 ≠ 0)
    (buf : Bytes) (event : Bool) (buflen : RgLength) (s : SinkData ρ) :
    ∀ o ∈ (rbRgBatchedSink R buf event buflen s).2.1, o.Accepted := by
  unfold rbRgBatchedSink
  dsimp only
  split
  · simp [sinkIntoCurrentBatch, SinkData.encodeIntoBatch, SinkAction.Accepted]
  · split
    · unfold sinkIntoNewBatch
      split
      · simp
      · cases event <;>
          simp [SinkData.offerBatch, SinkData.encodeIntoBatch, SinkAction.Accepted, hR]
    · split
      · simp [sinkRaw, SinkAction.Accepted, hR]
      · simp [sinkInOwnBatch, SinkData.offerBatch, SinkData.encodeIntoBatch, SinkAction.Accepted,
          hR]

/-- Every run on a ring that accepts every offer has its offers accepted. -/
theorem sinkRun_accepted {R : Ring ρ} (hR : ∀ r message, (R.offer r message).2 ≠ 0)
    (s : SinkData ρ) (steps : List (SinkStep ρ)) : ∀ o ∈ (sinkRun R s steps).2, o.Accepted := by
  refine Mealy.run_outputs (P := fun _ => True) (fun _ _ _ => trivial) (fun s step _ => ?_) trivial
    steps
  cases step with
  | call c =>
      cases c with
      | event c => exact rbRgBatchedSink_accepted hR _ _ _ s
      | null => exact rbRgBatchedSink_accepted hR _ _ _ s
  | drain ringbuf => exact fun _ h => absurd h List.not_mem_nil

/-- The command bytes that a run puts into the ring, followed by those it leaves in the batch. -/
def delivered (R : Ring ρ) (s : SinkData ρ) (steps : List (SinkStep ρ)) : Bytes :=
  (sinkRun R s steps).2.flatMap SinkAction.queued ++ (sinkRun R s steps).1.pendingBytes

/-- What a run delivers, on commands. -/
theorem delivered_eq {R : Ring ρ} {s : SinkData ρ} {b : Batcher} (h : s.Refines pid b)
    {steps : List (SinkStep ρ)} (haccept : ∀ o ∈ (sinkRun R s steps).2, o.Accepted) :
    delivered R s steps
      = payload ((b.run (steps.flatMap SinkStep.calls)).2.flatMap BatcherAction.commands
        ++ (b.run (steps.flatMap SinkStep.calls)).1.pending) := by
  obtain ⟨hstate, hactions⟩ := sinkRun_refines R h steps
  rw [delivered, queued_of_forall₂ hactions haccept, hstate.pendingBytes_eq, payload_append]

/-- **Delivery.** While every offer is accepted, the bytes queued by a run from a fresh sink,
followed by those still in the batch, are the bytes of the commands handed over if and only if no
raw command comes directly after one that is left waiting. -/
theorem sinkRun_delivers_iff (R : Ring ρ) (pid : UInt32) (ringbuf : ρ) (receiveBufferSize : Int)
    (steps : List (SinkStep ρ))
    (haccept : ∀ o ∈ (sinkRun R (freshSink pid ringbuf receiveBufferSize) steps).2, o.Accepted) :
    delivered R (freshSink pid ringbuf receiveBufferSize) steps = payload (handedOver steps) ↔
      NoRawAfterWaiting (steps.flatMap SinkStep.calls) := by
  rw [delivered_eq (freshSink_refines pid ringbuf receiveBufferSize) haccept,
    ← Batcher.keepsAll_init_iff, handedOver]
  constructor
  · intro heq
    by_contra hdrop
    have hshort := Batcher.run_drops hdrop
    rw [heq] at hshort
    exact absurd hshort (lt_irrefl _)
  · intro hkeep
    rw [Batcher.run_keeps hkeep]
    rfl

/-- A small command, one with a batch of its own, and a raw one behind a flush are delivered. -/
theorem sinkRun_delivers_flushed :
    delivered queueRing (freshSink 7 [] 0)
        [.call (.event (.blank 19 (by decide) (by decide))),
          .call (.event (.blank 1500 (by decide) (by decide))), .call .null,
          .call (.event (.blank 4094 (by decide) (by decide)))]
      = payload [.blank 19 (by decide) (by decide), .blank 1500 (by decide) (by decide),
          .blank 4094 (by decide) (by decide)] := by
  refine (sinkRun_delivers_iff queueRing 7 [] 0
    [.call (.event (.blank 19 (by decide) (by decide))),
      .call (.event (.blank 1500 (by decide) (by decide))), .call .null,
      .call (.event (.blank 4094 (by decide) (by decide)))]
    (sinkRun_accepted (fun _ _ => one_ne_zero) _ _)).mpr ?_
  have hown : ¬ (SinkCall.event (.blank 1500 (by decide) (by decide))).Raw := by
    rw [SinkCall.Raw, size_blank]
    decide
  refine List.isChain_cons_cons.mpr ⟨fun h => hown h.2, ?_⟩
  refine List.isChain_cons_cons.mpr ⟨fun h => h.2, ?_⟩
  exact List.isChain_cons_cons.mpr ⟨fun h => h.1, .singleton _⟩

/-- A small command is dropped when a command of 4094 bytes follows. -/
theorem sinkRun_drops_waiting :
    (∀ o ∈ (sinkRun queueRing (freshSink 7 [] 0)
        [.call (.event (.blank 19 (by decide) (by decide))),
          .call (.event (.blank 4094 (by decide) (by decide)))]).2, o.Accepted) ∧
      delivered queueRing (freshSink 7 [] 0)
          [.call (.event (.blank 19 (by decide) (by decide))),
            .call (.event (.blank 4094 (by decide) (by decide)))]
        ≠ payload [.blank 19 (by decide) (by decide), .blank 4094 (by decide) (by decide)] := by
  have haccept := sinkRun_accepted (R := queueRing) (fun _ _ => one_ne_zero) (freshSink 7 [] 0)
    [.call (.event (.blank 19 (by decide) (by decide))),
      .call (.event (.blank 4094 (by decide) (by decide)))]
  refine ⟨haccept, fun heq => ?_⟩
  rw [delivered_eq (freshSink_refines 7 [] 0) haccept] at heq
  have hdrop : ¬ Batcher.init.KeepsAll
      [.event (.blank 19 (by decide) (by decide)), .event (.blank 4094 (by decide) (by decide))] := by
    rw [Batcher.keepsAll_init_iff, NoRawAfterWaiting, List.isChain_cons_cons]
    intro hchain
    apply hchain.1
    simp only [SinkCall.Waits, SinkCall.Raw, size_blank]
    decide
  have hshort := Batcher.run_drops hdrop
  exact absurd (congrArg List.length heq) hshort.ne

end RaygunApm
