import RaygunApm.Sink.Delivery
import RaygunApm.Wire.Lossless

/-! # When waiting commands leave the batch

A command that waits in the current batch is handed on by the first call that closes the batch: a
flush, or a command that no longer fits. Whether a later call does so before a raw command drops the
batch decides whether everything up to a given call reaches the ring (`Batcher.run_reaches_iff`). -/

namespace RaygunApm

open PrefixCode

/-- The call closes the current batch: a flush, or a command that does not fit behind what waits. -/
def Batcher.Closes (b : Batcher) : SinkCall → Prop
  | .event c => rgBatchPacketSize < b.length + c.size
  | .null => True

/-- Some call closes the current batch, and it is not a raw command. -/
def Batcher.HandsOn (b : Batcher) : List SinkCall → Prop
  | [] => False
  | call :: calls => b.Keeps call ∧ (b.Closes call ∨ (b.step call).1.HandsOn calls)

/-- The commands of the first calls all reach the ring in the course of the calls after them: no
call drops what waits, and one of the later calls hands on what is left waiting. -/
def Batcher.Reaches (b : Batcher) (calls later : List SinkCall) : Prop :=
  b.KeepsAll calls ∧ ((b.run calls).1.pending = [] ∨ (b.run calls).1.HandsOn later)

instance (call : SinkCall) : Decidable call.Raw := by
  cases call <;> unfold SinkCall.Raw <;> infer_instance

instance (b : Batcher) (call : SinkCall) : Decidable (b.Closes call) := by
  cases call <;> unfold Batcher.Closes <;> infer_instance

instance (b : Batcher) (call : SinkCall) : Decidable (b.Keeps call) :=
  inferInstanceAs (Decidable (call.Raw → b.pending = []))

instance Batcher.decidableKeepsAll : (b : Batcher) → (calls : List SinkCall) →
    Decidable (b.KeepsAll calls)
  | _, [] => isTrue trivial
  | b, call :: calls =>
      have := Batcher.decidableKeepsAll (b.step call).1 calls
      inferInstanceAs (Decidable (_ ∧ _))

instance Batcher.decidableHandsOn : (b : Batcher) → (calls : List SinkCall) →
    Decidable (b.HandsOn calls)
  | _, [] => isFalse id
  | b, call :: calls =>
      have := Batcher.decidableHandsOn (b.step call).1 calls
      inferInstanceAs (Decidable (_ ∧ (_ ∨ _)))

instance (b : Batcher) (calls later : List SinkCall) : Decidable (b.Reaches calls later) :=
  inferInstanceAs (Decidable (_ ∧ (_ ∨ _)))

/-- The commands that some actions send. -/
def sentCommands (as : List BatcherAction) : List Command := as.flatMap BatcherAction.commands

@[simp] theorem sentCommands_append (as bs : List BatcherAction) :
    sentCommands (as ++ bs) = sentCommands as ++ sentCommands bs := List.flatMap_append

/-! ## Commands as a prefix code -/

/-- A command that starts a list of commands is its first command. -/
theorem bytes_eq_of_prefix {c d : Command} {cs ds : List Command}
    (h : payload (c :: cs) <+: payload (d :: ds)) : c.bytes = d.bytes := by
  obtain ⟨rest, hrest⟩ := h
  simp only [payload, List.flatMap_cons, List.append_assoc] at hrest
  exact (c.reads_splitCommand.append_inj d.reads_splitCommand hrest).1

/-- What waits is small enough for a batch. -/
theorem Batcher.size_le_of_pending {b : Batcher} (hfits : b.length ≤ rgBatchPacketSize)
    {c : Command} {cs : List Command} (h : b.pending = c :: cs) :
    rgBatchHeadlen + c.size ≤ rgBatchPacketSize := by
  have hlength : b.length = rgBatchHeadlen + (c.size + (payload cs).length) := by
    rw [length, h]
    simp [payload, Command.size]
  omega

/-- What a dropping call sends does not start with the first command that waits. -/
theorem Batcher.not_prefix_of_drops {b : Batcher} (hfits : b.length ≤ rgBatchPacketSize)
    {call : SinkCall} (h : ¬ b.Keeps call) {c : Command} {ps : List Command}
    (hpending : b.pending = c :: ps) (cs ds : List Command) :
    ¬ payload (c :: cs) <+: payload (sentCommands (b.step call).2 ++ ds) := by
  have hraw : call.Raw := (Classical.not_imp.mp h).1
  intro hpre
  cases call with
  | null => exact hraw
  | event d =>
      rw [step_raw b hraw] at hpre
      have hbytes : c.bytes = d.bytes := bytes_eq_of_prefix hpre
      have hwaits : rgBatchHeadlen + c.size ≤ rgBatchPacketSize := size_le_of_pending hfits hpending
      rw [Command.size, hbytes] at hwaits
      exact hraw.not_waits hwaits

/-! ## The first closing call -/

/-- A call that closes the batch sends what waits, and more. -/
theorem Batcher.step_closes {b : Batcher} {call : SinkCall} (hkeep : b.Keeps call)
    (hclose : b.Closes call) (hne : b.pending ≠ []) :
    ∃ cs, sentCommands (b.step call).2 = b.pending ++ cs := by
  cases call with
  | null =>
      refine ⟨[], ?_⟩
      rw [step, if_neg hne]
      rfl
  | event c =>
      have hfull : ¬ b.length + c.size ≤ rgBatchPacketSize := not_le.mpr hclose
      rw [step, if_neg hfull]
      split
      · exact ⟨[], by simp [sentCommands, BatcherAction.commands]⟩
      · split
        · rename_i hraw
          exact absurd (hkeep hraw) hne
        · exact ⟨[c], by simp [sentCommands, BatcherAction.commands]⟩

/-- A call that leaves the batch open sends nothing and adds its command to what waits. -/
theorem Batcher.step_open {b : Batcher} {call : SinkCall} (hclose : ¬ b.Closes call) :
    sentCommands (b.step call).2 = [] ∧ (b.step call).1.pending = b.pending ++ call.commands := by
  cases call with
  | null => exact absurd trivial hclose
  | event c =>
      have hfits : b.length + c.size ≤ rgBatchPacketSize := not_lt.mp hclose
      rw [step, if_pos hfits]
      exact ⟨rfl, rfl⟩

/-- **What waits is handed on** exactly if some later call does so. -/
theorem Batcher.run_handsOn_iff {b : Batcher} (hfits : b.length ≤ rgBatchPacketSize) {c : Command}
    {ps qs : List Command} (hpending : b.pending = c :: ps ++ qs) (calls : List SinkCall) :
    payload (c :: ps) <+: payload (sentCommands (b.run calls).2) ↔ b.HandsOn calls := by
  induction calls generalizing b qs with
  | nil =>
      -- Without a call nothing is sent, and what waits is not empty.
      have hpos : 0 < (payload (c :: ps)).length := payload_pos (List.cons_ne_nil c ps)
      constructor
      · intro hpre
        have hle := hpre.length_le
        exact absurd hpos (not_lt.mpr hle)
      · exact False.elim
  | cons call calls ih =>
      rw [run_cons, sentCommands_append, HandsOn]
      by_cases hkeep : b.Keeps call
      · rw [and_iff_right hkeep]
        by_cases hclose : b.Closes call
        · -- The call closes the batch: all that waits is sent.
          have hne : b.pending ≠ [] := by
            rw [hpending]
            exact List.cons_ne_nil c (ps ++ qs)
          obtain ⟨cs, hsent⟩ := step_closes hkeep hclose hne
          rw [hsent, hpending, List.append_assoc, List.append_assoc, payload_append]
          exact ⟨fun _ => .inl hclose, fun _ => List.prefix_append _ _⟩
        · -- It only fills the batch: what waits is still in front.
          obtain ⟨hsent, hpending'⟩ := step_open hclose
          rw [hpending, List.append_assoc] at hpending'
          rw [hsent, List.nil_append, or_iff_right hclose]
          exact ih (length_step_le hfits call) hpending'
      · -- A call that drops the batch is the end of what waits in it.
        have hno := not_prefix_of_drops hfits hkeep hpending ps
          (sentCommands ((b.step call).1.run calls).2)
        exact ⟨fun h => absurd h hno, fun h => absurd h.1 hkeep⟩

/-- **Reaching the ring.** The commands of some calls, behind what waits, come first among those
sent in the course of these and later calls exactly if the calls drop nothing and a later one hands
on what they leave. -/
theorem Batcher.run_reaches_iff {b : Batcher} (hfits : b.length ≤ rgBatchPacketSize)
    (calls later : List SinkCall) :
    payload (b.pending ++ calls.flatMap SinkCall.commands)
        <+: payload (sentCommands (b.run (calls ++ later)).2) ↔ b.Reaches calls later := by
  induction calls generalizing b with
  | nil =>
      rw [List.flatMap_nil, List.append_nil, List.nil_append, Reaches]
      show _ ↔ True ∧ (b.pending = [] ∨ b.HandsOn later)
      rw [true_and]
      rcases hpending : b.pending with _ | ⟨c, ps⟩
      · exact ⟨fun _ => .inl rfl, fun _ => List.nil_prefix⟩
      · have hiff := run_handsOn_iff hfits (hpending.trans (List.append_nil _).symm) later
        rw [hiff, or_iff_right (List.cons_ne_nil c ps)]
  | cons call calls ih =>
      rw [List.cons_append, run_cons, sentCommands_append, List.flatMap_cons, ← List.append_assoc]
      by_cases hkeep : b.Keeps call
      · -- What the call sends and leaves is what waited and its own commands.
        have hkept : sentCommands (b.step call).2 ++ (b.step call).1.pending
            = b.pending ++ call.commands := step_keeps hkeep
        rw [← hkept, List.append_assoc, payload_append (sentCommands _),
          payload_append (sentCommands _), List.prefix_append_right_inj,
          ih (length_step_le hfits call)]
        simp only [Reaches, KeepsAll, run_cons, and_iff_right hkeep]
      · -- It drops the batch, which was not empty.
        have hne : b.pending ≠ [] := (Classical.not_imp.mp hkeep).2
        obtain ⟨c, ps, hpending⟩ := List.exists_cons_of_ne_nil hne
        rw [hpending, List.append_assoc, List.cons_append]
        have hno := not_prefix_of_drops hfits hkeep hpending
          (ps ++ (call.commands ++ calls.flatMap SinkCall.commands))
          (sentCommands ((b.step call).1.run (calls ++ later)).2)
        exact ⟨fun h => absurd h hno, fun h => absurd h.1.1 hkeep⟩

end RaygunApm
