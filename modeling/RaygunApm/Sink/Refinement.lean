import RaygunApm.Library.Mealy
import RaygunApm.Sink.Batcher

/-! # The batched sink refines the batcher

One call of `rb_rg_batched_sink` carries out one step of `Batcher.step`, for every ring
(`perform_refines`), and so does every run of calls between which the dispatcher changes the ring at
will (`sinkRun_refines`). -/

namespace RaygunApm

variable {ρ : Type} {R : Ring ρ} {s : SinkData ρ} {pid : UInt32} {number : Nat} {cs : List Command}

/-- The current batch holds the commands `cs` and will be sent under the given numbers. -/
structure SinkData.Holds (s : SinkData ρ) (pid : UInt32) (number : Nat) (cs : List Command) :
    Prop where
  batch : s.batch.Holds cs
  pid_eq : s.batch.pid = pid
  sequence_eq : s.batch.sequence = UInt32.ofNat number

/-- The state between calls: the sink holds what the batcher holds, and it fits a packet. -/
structure SinkData.Refines (s : SinkData ρ) (pid : UInt32) (b : Batcher) : Prop where
  holds : s.Holds pid b.sent b.pending
  fits : b.length ≤ rgBatchPacketSize

/-- An empty batch fits a packet. -/
theorem length_empty (sent : Nat) : (Batcher.mk sent []).length ≤ rgBatchPacketSize := by
  simp [Batcher.length, rgBatchHeadlen, rgBatchPacketSize]

/-- A step leaves no more than a packet. -/
theorem Batcher.length_step_le {b : Batcher} (h : b.length ≤ rgBatchPacketSize) (call : SinkCall) :
    (b.step call).1.length ≤ rgBatchPacketSize := by
  cases call with
  | null =>
      rw [step]
      split
      · exact h
      · exact length_empty _
  | event c =>
      rw [step]
      split
      · rename_i hcur
        simpa [Batcher.length, Command.size, Nat.add_assoc] using hcur
      · split
        · rename_i hnew
          simpa [Batcher.length, Command.size] using hnew
        · split
          · exact length_empty _
          · exact length_empty _

/-- Tracking the fill level does not touch the batch. -/
theorem batch_trackBufUsed (R : Ring ρ) (s : SinkData ρ) : (s.trackBufUsed R).batch = s.batch := by
  unfold SinkData.trackBufUsed
  dsimp only
  split <;> rfl

/-- A reset batch holds nothing. -/
theorem SinkData.Holds.spawnNewBatch (h : s.Holds pid number cs) :
    (rbRgSpawnNewBatch s).Holds pid number [] :=
  ⟨holds_nil rfl rfl h.batch.type_eq h.batch.capacity, h.pid_eq, h.sequence_eq⟩

/-- Appending a command, and the copy it makes. -/
theorem SinkData.Holds.encodeIntoBatch (h : s.Holds pid number cs) (c : Command)
    (hlt : rgBatchHeadlen + (payload cs).length + c.size < 2 ^ 15) :
    (s.encodeIntoBatch c.bytes (Int16.ofNat c.size)).1.Holds pid number (cs ++ [c]) ∧
      (s.encodeIntoBatch c.bytes (Int16.ofNat c.size)).2
        = [.append (rgBatchHeadlen + (payload cs).length : Nat) c.size] := by
  refine ⟨⟨h.batch.encodeIntoBatch c hlt, h.pid_eq, h.sequence_eq⟩, ?_⟩
  rw [SinkData.encodeIntoBatch, h.batch.length_toInt, Int16.toInt_ofNat_of_lt (by omega)]

/-- Offering the current batch shows its message and uses up its number. -/
theorem SinkData.Holds.offerBatch (h : s.Holds pid number cs) :
    (s.offerBatch R).1.Holds pid (number + 1) cs ∧
      ∃ retval, (s.offerBatch R).2.1 = [.offerBatch (batchMessage pid number cs) retval] := by
  obtain ⟨hbatch, rfl, hnumber⟩ := h
  refine ⟨⟨hbatch.encodeBatchHeader, rfl, ?_⟩, (s.offerBatch R).2.2, ?_⟩
  · show s.batch.sequence + 1 = _
    rw [hnumber, UInt32.ofNat_add]
    rfl
  · simp only [SinkData.offerBatch, hbatch.message_encodeBatchHeader hnumber]

/-- The batch is sent and reset. -/
theorem SinkData.Holds.offerBatch_spawn (h : s.Holds pid number cs) :
    (rbRgSpawnNewBatch { (s.offerBatch R).1 with batches := (s.offerBatch R).1.batches + 1 }).Holds
        pid (number + 1) [] ∧
      ∃ retval, (s.offerBatch R).2.1 = [.offerBatch (batchMessage pid number cs) retval] := by
  obtain ⟨hholds, hoffer⟩ := h.offerBatch (R := R)
  exact ⟨SinkData.Holds.spawnNewBatch ⟨hholds.batch, hholds.pid_eq, hholds.sequence_eq⟩, hoffer⟩

/-! ## One branch at a time -/

section Branches

variable {b : Batcher}

/-- An event with room in the current batch is added to it, as by the batcher. -/
theorem sinkIntoCurrentBatch_refines (h : s.Refines pid b) (c : Command)
    (hfits : b.length + c.size ≤ rgBatchPacketSize) :
    (sinkIntoCurrentBatch c.bytes (Int16.ofNat c.size) s).1.Refines pid
        { b with pending := b.pending ++ [c] } ∧
      List.Forall₂ (Carries pid) [.append b.length c.size]
        (sinkIntoCurrentBatch c.bytes (Int16.ofNat c.size) s).2.1 := by
  obtain ⟨hholds, happend⟩ := h.holds.encodeIntoBatch c (hfits.trans_lt (by decide))
  refine ⟨⟨⟨hholds.batch, hholds.pid_eq, hholds.sequence_eq⟩, ?_⟩, ?_⟩
  · simpa [Batcher.length, Command.size, Nat.add_assoc] using hfits
  · simp only [sinkIntoCurrentBatch, happend]
    exact .cons (.append _ _) .nil

/-- An event with room in a new batch only is added to that one, as by the batcher, behind an offer
of the current one. -/
theorem sinkIntoNewBatch_event_refines (h : s.Refines pid b) (c : Command) (hne : b.pending ≠ [])
    (hfits : rgBatchHeadlen + c.size ≤ rgBatchPacketSize) :
    (sinkIntoNewBatch R c.bytes true (Int16.ofNat c.size) s).1.Refines pid ⟨b.sent + 1, [c]⟩ ∧
      List.Forall₂ (Carries pid) [.batch b.sent b.pending, .append rgBatchHeadlen c.size]
        (sinkIntoNewBatch R c.bytes true (Int16.ofNat c.size) s).2.1 := by
  have hpos := payload_pos hne
  have hlength : ¬ s.batch.length.toInt = rgBatchHeadlen := by
    rw [h.holds.batch.length_toInt]
    omega
  obtain ⟨hspawn, retval, hoffer⟩ := h.holds.offerBatch_spawn (R := R)
  have hlt : rgBatchHeadlen + (payload []).length + c.size < 2 ^ 15 := hfits.trans_lt (by decide)
  obtain ⟨hholds, happend⟩ := hspawn.encodeIntoBatch c hlt
  simp only [sinkIntoNewBatch, if_neg hlength, if_true, hoffer, happend]
  refine ⟨⟨⟨hholds.batch, hholds.pid_eq, hholds.sequence_eq⟩, ?_⟩, ?_⟩
  · simpa [Batcher.length, Command.size] using hfits
  · exact .cons (.batch _ _ retval) (.cons (.append _ _) .nil)

/-- A flush. -/
theorem sinkIntoNewBatch_null_refines (h : s.Refines pid b) (buf : Bytes) (buflen : RgLength) :
    (sinkIntoNewBatch R buf false buflen s).1.Refines pid (b.step .null).1 ∧
      List.Forall₂ (Carries pid) (b.step .null).2 (sinkIntoNewBatch R buf false buflen s).2.1 := by
  by_cases hcs : b.pending = []
  · have hlength : s.batch.length.toInt = rgBatchHeadlen := by
      rw [h.holds.batch.length_toInt, hcs]
      simp
    simp only [sinkIntoNewBatch, if_pos hlength, Batcher.step, if_pos hcs]
    exact ⟨h, .nil⟩
  · have hpos := payload_pos hcs
    have hlength : ¬ s.batch.length.toInt = rgBatchHeadlen := by
      rw [h.holds.batch.length_toInt]
      omega
    obtain ⟨hspawn, retval, hoffer⟩ := h.holds.offerBatch_spawn (R := R)
    simp only [sinkIntoNewBatch, if_neg hlength, Bool.false_eq_true, if_false, hoffer, Batcher.step,
      if_neg hcs]
    exact ⟨⟨hspawn, length_empty _⟩, .cons (.batch _ _ retval) .nil⟩

/-- A command sent as it is. -/
theorem sinkRaw_refines (h : s.Refines pid b) (c : Command) :
    (sinkRaw R c.bytes (Int16.ofNat c.size) s).1.Refines pid ⟨b.sent, []⟩ ∧
      List.Forall₂ (Carries pid) [.raw c] (sinkRaw R c.bytes (Int16.ofNat c.size) s).2.1 := by
  have hsize : (Int16.ofNat c.size).toNatClampNeg = c.size :=
    toNatClampNeg_ofNat (c.max_size.trans_lt (by decide))
  have htake : c.bytes.take c.size = c.bytes := List.take_length
  have hspawn := SinkData.Holds.spawnNewBatch
    (s := { s with ringbuf := (R.offer s.ringbuf c.bytes).1 })
    ⟨h.holds.batch, h.holds.pid_eq, h.holds.sequence_eq⟩
  simp only [sinkRaw, hsize, htake]
  exact ⟨⟨⟨hspawn.batch, hspawn.pid_eq, hspawn.sequence_eq⟩, length_empty _⟩, .cons (.raw c _) .nil⟩

/-- A command sent in a batch of its own. -/
theorem sinkInOwnBatch_refines (h : s.Refines pid b) (c : Command) :
    (sinkInOwnBatch R c.bytes (Int16.ofNat c.size) s).1.Refines pid ⟨b.sent + 2, []⟩ ∧
      List.Forall₂ (Carries pid)
        [.batch b.sent b.pending, .append rgBatchHeadlen c.size, .batch (b.sent + 1) [c]]
        (sinkInOwnBatch R c.bytes (Int16.ofNat c.size) s).2.1 := by
  have hmax : c.size ≤ rgMaxCommandSize := c.max_size
  have hlt : rgBatchHeadlen + (payload []).length + c.size < 2 ^ 15 := by
    simp only [rgBatchHeadlen, rgMaxCommandSize, payload_nil, List.length_nil] at hmax ⊢
    omega
  obtain ⟨hspawn, retval, hoffer⟩ := h.holds.offerBatch_spawn (R := R)
  obtain ⟨hholds, happend⟩ := hspawn.encodeIntoBatch c hlt
  obtain ⟨hholds', retval', hoffer'⟩ := hholds.offerBatch (R := R)
  simp only [sinkInOwnBatch, hoffer, happend, hoffer', List.nil_append]
  exact ⟨⟨hholds'.spawnNewBatch, length_empty _⟩,
    .cons (.batch _ _ retval) (.cons (.append _ _) (.cons (.batch _ _ retval') .nil))⟩

end Branches

/-! ## Calls and runs -/

/-- **One call of the sink carries out one step of the batcher**, whatever the ring answers. -/
theorem perform_refines (R : Ring ρ) {b : Batcher} (h : s.Refines pid b) (call : SinkCall) :
    (call.perform R s).1.Refines pid (b.step call).1 ∧
      List.Forall₂ (Carries pid) (b.step call).2 (call.perform R s).2.1 := by
  have hbatch := batch_trackBufUsed R s
  have ht : (s.trackBufUsed R).Refines pid b :=
    ⟨⟨hbatch ▸ h.holds.batch, hbatch ▸ h.holds.pid_eq, hbatch ▸ h.holds.sequence_eq⟩, h.fits⟩
  cases call with
  | null =>
      simp only [SinkCall.perform, rbRgFlushBatchedSink, rbRgBatchedSink, Bool.false_eq_true,
        false_and, if_false, not_false_eq_true, true_or, if_true]
      exact sinkIntoNewBatch_null_refines ht _ _
  | event c =>
      -- The sizes stay below `2 ^ 15`, so the signed comparisons are those of the batcher.
      have hsize : (Int16.ofNat c.size).toInt = c.size :=
        Int16.toInt_ofNat_of_lt (c.max_size.trans_lt (by decide))
      have hlength : (s.trackBufUsed R).batch.length.toInt = b.length := ht.holds.batch.length_toInt
      have hraw : ((c.size : Int) ≥ rgMaxBatchPacketSize - 2) = (rgMaxBatchPacketSize - 2 ≤ c.size) := by
        simp only [rgMaxBatchPacketSize, eq_iff_iff]
        omega
      simp only [SinkCall.perform, rbRgBatchedSink, hlength, hsize, Batcher.step, true_and,
        not_true_eq_false, false_or, hraw]
      norm_cast
      split
      · rename_i hfits
        exact sinkIntoCurrentBatch_refines ht c hfits
      · rename_i hfull
        split
        · rename_i hfits
          refine sinkIntoNewBatch_event_refines ht c (fun hcs => hfull ?_) hfits
          simpa [Batcher.length, hcs] using hfits
        · -- Too large for the batch: raw, or in a batch of its own.
          by_cases hlarge : rgMaxBatchPacketSize - 2 ≤ c.size
          · simp only [if_pos hlarge]
            exact sinkRaw_refines ht c
          · simp only [if_neg hlarge]
            exact sinkInOwnBatch_refines ht c

/-- The sink data after a batched sink was set up on a new tracer: an empty batch and a ring. -/
def freshSink (pid : UInt32) (ringbuf : ρ) (receiveBufferSize : Int) : SinkData ρ where
  ringbuf := ringbuf
  running := true
  encodedBatched := 0
  encodedRaw := 0
  resets := 0
  batches := 0
  maxBufUsed := 0
  receiveBufferSize := receiveBufferSize
  batch :=
    { length := Int16.ofNat rgBatchHeadlen
      type := 0xFA
      count := 0
      sequence := 0
      pid := pid
      buf := List.replicate rgMaxBatchPacketSize 0 }

/-- A step of a run: a call of the sink, or the dispatcher turns the ring into another one. -/
inductive SinkStep (ρ : Type) where
  /-- A call. -/
  | call (call : SinkCall)
  /-- The ring changes between calls. -/
  | drain (ringbuf : ρ)

/-- One step of a run. -/
def SinkStep.perform (R : Ring ρ) (s : SinkData ρ) : SinkStep ρ → SinkData ρ × List SinkAction
  | .call c => ((c.perform R s).1, (c.perform R s).2.1)
  | .drain ringbuf => ({ s with ringbuf := ringbuf }, [])

/-- The calls of a step. -/
def SinkStep.calls : SinkStep ρ → List SinkCall
  | .call c => [c]
  | .drain _ => []

/-- The sink runs through some steps. -/
def sinkRun (R : Ring ρ) : SinkData ρ → List (SinkStep ρ) → SinkData ρ × List SinkAction :=
  Mealy.run (SinkStep.perform R)

/-- The batcher runs through some calls. -/
def Batcher.run : Batcher → List SinkCall → Batcher × List BatcherAction := Mealy.run Batcher.step

/-- A run goes on from where its first call ends. -/
theorem Batcher.run_cons (b : Batcher) (call : SinkCall) (calls : List SinkCall) :
    b.run (call :: calls)
      = (((b.step call).1.run calls).1, (b.step call).2 ++ ((b.step call).1.run calls).2) := rfl

/-- The batcher at the start. -/
def Batcher.init : Batcher := ⟨0, []⟩

/-- A fresh sink holds nothing. -/
theorem freshSink_refines (pid : UInt32) (ringbuf : ρ) (receiveBufferSize : Int) :
    (freshSink pid ringbuf receiveBufferSize).Refines pid Batcher.init := by
  refine ⟨⟨holds_nil rfl rfl rfl ?_, rfl, rfl⟩, by decide⟩
  exact (List.length_replicate (n := rgMaxBatchPacketSize) (a := (0 : UInt8))).ge

/-- **Every run of the sink carries out the batcher's run on its calls**, whatever the ring answers
and however the dispatcher changes it in between. -/
theorem sinkRun_refines (R : Ring ρ) {b : Batcher} (h : s.Refines pid b)
    (steps : List (SinkStep ρ)) :
    (sinkRun R s steps).1.Refines pid (b.run (steps.flatMap SinkStep.calls)).1 ∧
      List.Forall₂ (Carries pid) (b.run (steps.flatMap SinkStep.calls)).2
        (sinkRun R s steps).2 := by
  refine Mealy.run_simulation (fun (s : SinkData ρ) b => s.Refines pid b) (Carries pid) SinkStep.calls
    (fun s b step h => ?_) h steps
  cases step with
  | call c => simpa [SinkStep.calls, SinkStep.perform] using perform_refines R h c
  | drain ringbuf =>
      exact ⟨⟨⟨h.holds.batch, h.holds.pid_eq, h.holds.sequence_eq⟩, h.fits⟩, .nil⟩

end RaygunApm
