import RaygunApm.Sink.Delivery

/-! # The static batch buffer

`batch.buf` has 4096 bytes. Commands are stored behind the commands already waiting, which never
fill more than a packet, or alone behind the header. The second kind is bounded by the test for raw
commands only, which leaves no room for the header: `sinkRun_inside_iff`. -/

namespace RaygunApm

variable {ρ : Type} {pid : UInt32}

/-- The copy that the action makes, if any, stays inside `batch.buf` behind the header. -/
def SinkAction.InsideBuf : SinkAction → Prop
  | .append offset buflen =>
      (rgBatchHeadlen : Int) ≤ offset ∧ offset + buflen ≤ rgMaxBatchPacketSize
  | .offerBatch _ _ => True
  | .offerRaw _ _ => True

/-- The copy that an action on commands stands for stays inside `batch.buf` behind the header. -/
def BatcherAction.InsideBuf : BatcherAction → Prop
  | .append offset size => rgBatchHeadlen ≤ offset ∧ offset + size ≤ rgMaxBatchPacketSize
  | .batch _ _ => True
  | .raw _ => True

/-- The command fits into the static buffer behind a header, or is too large to be tried. -/
def Command.Storable (c : Command) : Prop :=
  rgBatchHeadlen + c.size ≤ rgMaxBatchPacketSize ∨ rgMaxBatchPacketSize - 2 ≤ c.size

/-- Carrying out an action does not move its copy. -/
theorem Carries.insideBuf_iff {a : BatcherAction} {o : SinkAction} (h : Carries pid a o) :
    o.InsideBuf ↔ a.InsideBuf := by
  cases h with
  | append offset size =>
      simp only [SinkAction.InsideBuf, BatcherAction.InsideBuf]
      norm_cast
  | batch number cs retval => exact Iff.rfl
  | raw c retval => exact Iff.rfl

/-- A run of the sink makes the copies that the batcher makes. -/
theorem insideBuf_of_forall₂ {as : List BatcherAction} {os : List SinkAction}
    (h : List.Forall₂ (Carries pid) as os) :
    (∀ o ∈ os, o.InsideBuf) ↔ ∀ a ∈ as, a.InsideBuf := by
  induction h with
  | nil => simp
  | cons hhead _ ih => rw [List.forall_mem_cons, List.forall_mem_cons, hhead.insideBuf_iff, ih]

/-- **A call copies inside the buffer exactly if its command is storable.** -/
theorem Batcher.step_insideBuf_iff (b : Batcher) (call : SinkCall) :
    (∀ a ∈ (b.step call).2, a.InsideBuf) ↔ ∀ c ∈ call.commands, c.Storable := by
  cases call with
  | null => by_cases hcs : b.pending = [] <;>
      simp [Batcher.step, hcs, SinkCall.commands, BatcherAction.InsideBuf]
  | event c =>
      have hlength : rgBatchHeadlen ≤ b.length := Nat.le_add_right _ _
      have hpacket : rgBatchPacketSize ≤ rgMaxBatchPacketSize := by decide
      simp only [SinkCall.commands, List.forall_mem_singleton, Command.Storable, Batcher.step]
      by_cases hcur : b.length + c.size ≤ rgBatchPacketSize
      · have hinside : b.length + c.size ≤ rgMaxBatchPacketSize := hcur.trans hpacket
        simp only [if_pos hcur, List.forall_mem_singleton, BatcherAction.InsideBuf]
        exact iff_of_true ⟨hlength, hinside⟩ (.inl (by omega))
      · rw [if_neg hcur]
        by_cases hnew : rgBatchHeadlen + c.size ≤ rgBatchPacketSize
        · have hinside : rgBatchHeadlen + c.size ≤ rgMaxBatchPacketSize := hnew.trans hpacket
          simp only [if_pos hnew, List.forall_mem_cons, BatcherAction.InsideBuf]
          exact iff_of_true ⟨trivial, ⟨le_rfl, hinside⟩, by simp⟩ (.inl hinside)
        · rw [if_neg hnew]
          by_cases hraw : rgMaxBatchPacketSize - 2 ≤ c.size
          · simp [hraw, BatcherAction.InsideBuf]
          · simp [hraw, BatcherAction.InsideBuf]

/-- A run copies inside the buffer exactly if its commands are storable. -/
theorem Batcher.run_insideBuf_iff (b : Batcher) (calls : List SinkCall) :
    (∀ a ∈ (b.run calls).2, a.InsideBuf) ↔ ∀ c ∈ calls.flatMap SinkCall.commands, c.Storable := by
  induction calls generalizing b with
  | nil => simp [Batcher.run]
  | cons call calls ih =>
      have hrest := ih (b.step call).1
      rw [run_cons, List.forall_mem_append, hrest, step_insideBuf_iff, List.flatMap_cons,
        List.forall_mem_append]

/-- Between calls the length of the batch is within `batch.buf`, header included. -/
theorem SinkData.Refines.length_range {s : SinkData ρ} {b : Batcher} (h : s.Refines pid b) :
    (rgBatchHeadlen : Int) ≤ s.batch.length.toInt ∧
      s.batch.length.toInt ≤ rgMaxBatchPacketSize := by
  have hlength : s.batch.length.toInt = b.length := h.holds.batch.length_toInt
  have hfits : b.length ≤ rgMaxBatchPacketSize := h.fits.trans (by decide)
  have hhead : rgBatchHeadlen ≤ b.length := Nat.le_add_right _ _
  rw [hlength]
  exact ⟨by exact_mod_cast hhead, by exact_mod_cast hfits⟩

/-- **The static buffer.** In a run from a fresh sink every copy stays inside `batch.buf`, behind
the header, and the batch length stays in range between the steps, if and only if no command handed
over has one of the sizes 4084 to 4093. -/
theorem sinkRun_inside_iff (R : Ring ρ) (pid : UInt32) (ringbuf : ρ) (receiveBufferSize : Int)
    (steps : List (SinkStep ρ)) :
    ((∀ o ∈ (sinkRun R (freshSink pid ringbuf receiveBufferSize) steps).2, o.InsideBuf) ∧
        ∀ k, let s := (sinkRun R (freshSink pid ringbuf receiveBufferSize) (steps.take k)).1
          (rgBatchHeadlen : Int) ≤ s.batch.length.toInt ∧
            s.batch.length.toInt ≤ rgMaxBatchPacketSize) ↔
      ∀ c ∈ handedOver steps, ¬ (4084 ≤ c.size ∧ c.size ≤ 4093) := by
  have hfresh := freshSink_refines pid ringbuf receiveBufferSize
  have hrange : ∀ k, _ := fun k => (sinkRun_refines R hfresh (steps.take k)).1.length_range
  rw [and_iff_left hrange, insideBuf_of_forall₂ (sinkRun_refines R hfresh steps).2,
    Batcher.run_insideBuf_iff]
  refine forall₂_congr fun c _ => ?_
  simp only [Command.Storable, rgBatchHeadlen, rgMaxBatchPacketSize]
  omega

/-- A command of 4084 bytes is copied one byte over the end of the buffer. -/
theorem sinkRun_overruns :
    ¬ ∀ o ∈ (sinkRun queueRing (freshSink 7 [] 0)
      [.call (.event (.blank 4084 (by decide) (by decide)))]).2, o.InsideBuf := by
  rw [insideBuf_of_forall₂ (sinkRun_refines queueRing (freshSink_refines 7 [] 0) _).2,
    Batcher.run_insideBuf_iff]
  intro h
  have hstorable := h (.blank 4084 (by decide) (by decide)) (by simp [SinkStep.calls, SinkCall.commands])
  simp only [Command.Storable, size_blank] at hstorable
  exact absurd hstorable (by decide)

end RaygunApm
