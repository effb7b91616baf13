import RaygunApm.Sink.Frames

/-! # Empty batches

The sink does not flush an empty batch, so a sequence number that goes out stands for at least one
command. The branch that sends a large command in a batch of its own offers the current batch first
and does not look whether it is empty: `sinkRun_nonEmptyBatch_iff` says which calls get there with
nothing pending. -/

namespace RaygunApm

open ByteMemory

variable {ρ : Type} {pid : UInt32}

/-- The number of commands that a batch message declares. -/
def countField (message : Bytes) : Nat := LittleEndian.decode (readAt message 3 2)

/-- A batch that is offered has a command. -/
def SinkAction.NonEmptyBatch : SinkAction → Prop
  | .append _ _ => True
  | .offerBatch message _ => 1 ≤ countField message
  | .offerRaw _ _ => True

/-- A batch that an action on commands sends has a command. -/
def BatcherAction.NonEmptyBatch : BatcherAction → Prop
  | .append _ _ => True
  | .batch _ cs => cs ≠ []
  | .raw _ => True

/-- The command is sent in a batch of its own: it is too large to wait for others and not so large
that it goes raw. -/
def Command.OwnBatch (c : Command) : Prop := 1388 ≤ c.size ∧ c.size ≤ 4093

/-! ## On commands -/

/-- Nothing waits exactly where the last call has left nothing. -/
theorem Batcher.pending_run_eq_nil_iff (calls : List SinkCall) :
    (init.run calls).1.pending = [] ↔
      ¬ ∃ before call, calls = before ++ [call] ∧ call.Waits := by
  rcases List.eq_nil_or_concat calls with rfl | ⟨before, call, rfl⟩
  · simp [Batcher.run, Batcher.init]
  · have hstep : (init.run (before.concat call)).1 = ((init.run before).1.step call).1 := by
      rw [List.concat_eq_append, Batcher.run, Mealy.run_append, Mealy.run_singleton]
    rw [hstep, pending_step_eq_nil]
    simp only [List.concat_eq_append, List.append_singleton_inj, not_exists, not_and]
    constructor
    · rintro hnot _ _ ⟨-, rfl⟩
      exact hnot
    · exact fun hnone => hnone before call ⟨rfl, rfl⟩

/-- **A step sends an empty batch exactly if its command goes into a batch of its own and nothing
waits.** -/
theorem Batcher.step_nonEmptyBatch_iff (b : Batcher) (call : SinkCall) :
    (∀ a ∈ (b.step call).2, a.NonEmptyBatch) ↔
      ∀ c, call = .event c → c.OwnBatch → b.pending ≠ [] := by
  cases call with
  | null => by_cases hcs : b.pending = [] <;> simp [step, hcs, BatcherAction.NonEmptyBatch]
  | event c =>
      have hempty : b.pending = [] → b.length = rgBatchHeadlen := by
        intro hcs
        simp [Batcher.length, hcs]
      have hlength : rgBatchHeadlen ≤ b.length := Nat.le_add_right _ _
      have hcommand : (∀ d, SinkCall.event c = .event d → d.OwnBatch → b.pending ≠ []) ↔
          (c.OwnBatch → b.pending ≠ []) := by simp
      rw [hcommand, step, Command.OwnBatch]
      split
      · rename_i hcur
        simp only [rgBatchHeadlen, rgBatchPacketSize] at hlength hcur
        exact iff_of_true (by simp [BatcherAction.NonEmptyBatch]) fun hown => by omega
      · rename_i hcur
        split
        · -- There was no room in the current batch, so it is not empty.
          rename_i hnew
          have hne : b.pending ≠ [] := fun hcs => hcur (by rw [hempty hcs]; exact hnew)
          exact iff_of_true (by simp [BatcherAction.NonEmptyBatch, hne]) fun _ => hne
        · rename_i hnew
          simp only [rgBatchHeadlen, rgBatchPacketSize] at hnew
          split
          · rename_i hraw
            simp only [rgMaxBatchPacketSize] at hraw
            exact iff_of_true (by simp [BatcherAction.NonEmptyBatch]) fun hown => by omega
          · rename_i hraw
            simp only [rgMaxBatchPacketSize] at hraw
            have hown : 1388 ≤ c.size ∧ c.size ≤ 4093 := by omega
            simp [BatcherAction.NonEmptyBatch, hown]

/-- **The empty batches of a run.** -/
theorem Batcher.run_nonEmptyBatch_iff (calls : List SinkCall) :
    (∀ a ∈ (init.run calls).2, a.NonEmptyBatch) ↔
      ∀ before c after, calls = before ++ .event c :: after → c.OwnBatch →
        ∃ before' call, before = before' ++ [call] ∧ call.Waits := by
  rw [Batcher.run, Mealy.run_outputs_iff_split]
  constructor
  · intro h before c after hsplit hown
    have hpending := (step_nonEmptyBatch_iff _ _).mp (h before (.event c) after hsplit) c rfl hown
    exact not_not.mp fun hnone => hpending ((pending_run_eq_nil_iff before).mpr hnone)
  · intro h before call after hsplit
    apply (step_nonEmptyBatch_iff _ _).mpr
    rintro c rfl hown hnil
    exact (pending_run_eq_nil_iff before).mp hnil (h before c after hsplit hown)

/-! ## On bytes -/

/-- The message of a batch declares the commands it holds. -/
theorem countField_batchMessage (pid : UInt32) (number : Nat) (cs : List Command)
    (hlt : rgBatchHeadlen + (payload cs).length < 2 ^ 15) :
    countField (batchMessage pid number cs) = cs.length :=
  (batchMessage_frame pid number cs hlt).count_field

/-- Carrying out an action does not change whether its batch is empty. -/
theorem Carries.nonEmptyBatch_iff {a : BatcherAction} {o : SinkAction} (h : Carries pid a o)
    (hsize : a.WellSized) : o.NonEmptyBatch ↔ a.NonEmptyBatch := by
  cases h with
  | append offset size => exact Iff.rfl
  | batch number cs retval =>
      have hlt : rgBatchHeadlen + (payload cs).length < 2 ^ 15 := lt_of_le_of_lt hsize (by decide)
      rw [SinkAction.NonEmptyBatch, BatcherAction.NonEmptyBatch, countField_batchMessage _ _ _ hlt,
        Nat.one_le_iff_ne_zero, Ne, List.length_eq_zero_iff]
  | raw c retval => exact Iff.rfl

/-- A run of the sink offers an empty batch exactly if the batcher sends one. -/
theorem nonEmptyBatch_of_forall₂ {as : List BatcherAction} {os : List SinkAction}
    (h : List.Forall₂ (Carries pid) as os) (hsize : ∀ a ∈ as, a.WellSized) :
    (∀ o ∈ os, o.NonEmptyBatch) ↔ ∀ a ∈ as, a.NonEmptyBatch := by
  induction h with
  | nil => simp
  | cons hhead _ ih =>
      obtain ⟨hfirst, hrest⟩ := List.forall_mem_cons.mp hsize
      rw [List.forall_mem_cons, List.forall_mem_cons, hhead.nonEmptyBatch_iff hfirst, ih hrest]

/-- **Empty batches.** In a run from a fresh sink every batch offered to the ring counts at least
one command if and only if every command of 1388 to 4093 bytes directly follows one of at most 1387
bytes: such a command is sent in a batch of its own, after a current batch that is not looked at. -/
theorem sinkRun_nonEmptyBatch_iff (R : Ring ρ) (pid : UInt32) (ringbuf : ρ)
    (receiveBufferSize : Int) (steps : List (SinkStep ρ)) :
    (∀ o ∈ (sinkRun R (freshSink pid ringbuf receiveBufferSize) steps).2, o.NonEmptyBatch) ↔
      ∀ before c after, steps.flatMap SinkStep.calls = before ++ .event c :: after → c.OwnBatch →
        ∃ before' call, before = before' ++ [call] ∧ call.Waits := by
  have hcarries := (sinkRun_refines R (freshSink_refines pid ringbuf receiveBufferSize) steps).2
  rw [nonEmptyBatch_of_forall₂ hcarries (Batcher.run_wellSized _), Batcher.run_nonEmptyBatch_iff]

/-- A fresh sink that is handed a command of 1400 bytes sends an empty batch before it. -/
theorem sinkRun_offers_empty_batch :
    ¬ ∀ o ∈ (sinkRun queueRing (freshSink 7 [] 0)
      [.call (.event (.blank 1400 (by decide) (by decide)))]).2, o.NonEmptyBatch := by
  have hcarries := (sinkRun_refines queueRing (freshSink_refines 7 [] 0)
    [.call (.event (.blank 1400 (by decide) (by decide)))]).2
  rw [nonEmptyBatch_of_forall₂ hcarries (Batcher.run_wellSized _), Batcher.run_nonEmptyBatch_iff]
  intro h
  obtain ⟨before, call, hnil, -⟩ := h [] (.blank 1400 (by decide) (by decide)) [] rfl
    (by rw [Command.OwnBatch, size_blank]; decide)
  simp at hnil

end RaygunApm
