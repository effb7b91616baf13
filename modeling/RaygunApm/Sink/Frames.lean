import RaygunApm.Ring.Messages
import RaygunApm.Sink.Bounds

/-! # The messages on the ring

Every message that the batched sink offers is a raw command or a well-formed batch frame, and the
frames are numbered by the order in which they are offered. As a rejected offer uses up its number
and leaves nothing else behind, the numbers that come out of the ring are those of the accepted
frames: a rejected frame is a gap of one (`sinkRun_frames`). -/

namespace RaygunApm

open ByteMemory

variable {ρ : Type} {pid : UInt32}

/-- A message is the batch frame of the given number around some commands: 13 bytes of header that
give the size of the message, the type, the number of commands, the sequence number and the process
id, and then the commands, complete and one after the other. -/
structure BatchFrame (pid : UInt32) (number : Nat) (cs : List Command) (message : Bytes) : Prop where
  length_field : LittleEndian.decode (readAt message 0 2) = message.length
  type_field : readAt message 2 1 = [0xFA]
  count_field : LittleEndian.decode (readAt message 3 2) = cs.length
  sequence_field : LittleEndian.decode (readAt message 5 4) = number % 2 ^ 32
  pid_field : LittleEndian.decode (readAt message 9 4) = pid.toNat
  commands : message.drop 13 = payload cs
  size_lt : message.length < 2 ^ 15

/-- The offers of batches, with their results. -/
def SinkAction.batchOffer : SinkAction → Option (Bytes × Int)
  | .append _ _ => none
  | .offerBatch message retval => some (message, retval)
  | .offerRaw _ _ => none

/-- The action offers a message, if it offers anything. -/
def SinkAction.IsMessage : SinkAction → Prop
  | .append _ _ => True
  | .offerBatch message _ => ∃ m : Message, m.bytes = message
  | .offerRaw message _ => ∃ m : Message, m.bytes = message

/-- The sequence number of a batch message. -/
def sequenceField (message : Bytes) : Nat := LittleEndian.decode (readAt message 5 4)

/-! ## The frame around a batch -/

/-- There are fewer commands than bytes. -/
theorem length_le_payload (cs : List Command) : cs.length ≤ (payload cs).length := by
  induction cs with
  | nil => simp
  | cons c cs ih =>
      have hmin := c.min_size
      simp only [payload, List.flatMap_cons, List.length_append, List.length_cons, rgMinPayload]
        at ih hmin ⊢
      omega

/-- A field of a byte string that starts with known blocks. -/
theorem readAt_blocks {α : Type*} {front field rest : List α} {offset size : Nat}
    (hfront : front.length = offset) (hfield : field.length = size) :
    readAt (front ++ (field ++ rest)) offset size = field := by
  rw [readAt, List.drop_left' hfront, List.take_left' hfield]

/-- **The message of a batch is a frame** while its size is one. -/
theorem batchMessage_frame (pid : UInt32) (number : Nat) (cs : List Command)
    (hlt : rgBatchHeadlen + (payload cs).length < 2 ^ 15) :
    BatchFrame pid number cs (batchMessage pid number cs) := by
  have hcount : cs.length < 2 ^ 16 := by
    have := length_le_payload cs
    omega
  have hlength : (batchMessage pid number cs).length = rgBatchHeadlen + (payload cs).length := by
    simp [batchMessage]
  have hfields : batchMessage pid number cs
      = packLength (Int16.ofNat (rgBatchHeadlen + (payload cs).length)) ++ (packByte 0xFA ++
        (packLength (Int16.ofNat cs.length) ++ (packUInt32 (UInt32.ofNat number) ++
          (packUInt32 pid ++ payload cs)))) := by
    simp only [batchMessage, batchHeader, List.append_assoc]
  -- Each field is read behind the blocks in front of it.
  refine ⟨?_, ?_, ?_, ?_, ?_, ?_, hlength ▸ hlt⟩
  · have hfield : readAt (batchMessage pid number cs) 0 2
        = packLength (Int16.ofNat (rgBatchHeadlen + (payload cs).length)) := by
      rw [hfields]
      exact readAt_blocks (rfl : ([] : Bytes).length = 0) (length_packLength _)
    rw [hfield, decode_packLength (hlt.trans (by decide)), hlength]
  · rw [hfields]
    exact readAt_blocks (length_packLength _) (length_packByte _)
  · rw [hfields, ← List.append_assoc, readAt_blocks (by simp) (length_packLength _),
      decode_packLength hcount]
  · rw [hfields, ← List.append_assoc, ← List.append_assoc, readAt_blocks (by simp)
      (length_packUInt32 _), decode_packUInt32, UInt32.toNat_ofNat']
  · rw [hfields, ← List.append_assoc, ← List.append_assoc, ← List.append_assoc,
      readAt_blocks (by simp) (length_packUInt32 _), decode_packUInt32]
  · rw [batchMessage]
    exact List.drop_left' (length_batchHeader _ _ _ _ _)

/-! ## Numbers and sizes, on commands -/

/-- The batches among the actions, with their numbers. -/
def BatcherAction.asBatch : BatcherAction → Option (Nat × List Command)
  | .append _ _ => none
  | .batch number cs => some (number, cs)
  | .raw _ => none

/-- A batch keeps below the largest message, and a raw command is larger than any batch may be. -/
def BatcherAction.WellSized : BatcherAction → Prop
  | .append _ _ => True
  | .batch _ cs => rgBatchHeadlen + (payload cs).length ≤ rgMaxCommandSize
  | .raw c => rgMaxBatchPacketSize - 2 ≤ c.size

/-- A step numbers its batches from `sent` on. -/
theorem Batcher.step_numbers (b : Batcher) (call : SinkCall) :
    ∃ n, (b.step call).1.sent = b.sent + n ∧
      ((b.step call).2.filterMap BatcherAction.asBatch).map Prod.fst = List.range' b.sent n := by
  cases call with
  | null =>
      by_cases hcs : b.pending = []
      · exact ⟨0, by simp [step, hcs]⟩
      · exact ⟨1, by simp [step, hcs, BatcherAction.asBatch]⟩
  | event c =>
      rw [step]
      split
      · exact ⟨0, by simp [BatcherAction.asBatch]⟩
      · split
        · exact ⟨1, by simp [BatcherAction.asBatch]⟩
        · split
          · exact ⟨0, by simp [BatcherAction.asBatch]⟩
          · exact ⟨2, rfl, rfl⟩

/-- A run numbers its batches from `sent` on. -/
theorem Batcher.run_numbers (b : Batcher) (calls : List SinkCall) :
    ∃ n, (b.run calls).1.sent = b.sent + n ∧
      ((b.run calls).2.filterMap BatcherAction.asBatch).map Prod.fst = List.range' b.sent n := by
  induction calls generalizing b with
  | nil => exact ⟨0, by simp [run]⟩
  | cons call calls ih =>
      obtain ⟨m, hm, hfirst⟩ := b.step_numbers call
      obtain ⟨n, hn, hrest⟩ := ih (b.step call).1
      rw [hm] at hn hrest
      refine ⟨m + n, ?_, ?_⟩
      · rw [← Nat.add_assoc, ← hn, run_cons]
      · rw [← List.range'_append_1, ← hfirst, ← hrest, run_cons, List.filterMap_append,
          List.map_append]

/-- A step sends messages of the right sizes. -/
theorem Batcher.step_wellSized {b : Batcher} (h : b.length ≤ rgBatchPacketSize) (call : SinkCall) :
    ∀ a ∈ (b.step call).2, a.WellSized := by
  have hpending : rgBatchHeadlen + (payload b.pending).length ≤ rgMaxCommandSize :=
    h.trans (by decide)
  cases call with
  | null =>
      rw [step]
      split
      · exact List.forall_mem_nil _
      · exact List.forall_mem_singleton.mpr hpending
  | event c =>
      rw [step]
      split
      · exact List.forall_mem_singleton.mpr trivial
      · split
        · exact List.forall_mem_cons.mpr ⟨hpending, List.forall_mem_singleton.mpr trivial⟩
        · split
          · rename_i hraw
            exact List.forall_mem_singleton.mpr hraw
          · rename_i hraw
            -- A command that does not go raw fits a batch of its own.
            have hown : rgBatchHeadlen + (payload [c]).length ≤ rgMaxCommandSize := by
              have hsize : (payload [c]).length = c.size := by simp [Command.size]
              simp only [rgMaxBatchPacketSize, rgBatchHeadlen, rgMaxCommandSize] at hraw ⊢
              omega
            exact List.forall_mem_cons.mpr ⟨hpending,
              List.forall_mem_cons.mpr ⟨trivial, List.forall_mem_singleton.mpr hown⟩⟩

/-- A run from an empty batch sends messages of the right sizes. -/
theorem Batcher.run_wellSized (calls : List SinkCall) :
    ∀ a ∈ (Batcher.init.run calls).2, a.WellSized :=
  Mealy.run_outputs (P := fun b => b.length ≤ rgBatchPacketSize)
    (fun _ call h => length_step_le h call) (fun _ call h => step_wellSized h call)
    (length_empty 0) calls

/-! ## On bytes -/

/-- The batch offers of a run are the batches of the batcher, frame by frame. -/
theorem batchOffers_frames {as : List BatcherAction} {os : List SinkAction}
    (h : List.Forall₂ (Carries pid) as os) (hsize : ∀ a ∈ as, a.WellSized) :
    List.Forall₂ (fun (p : Nat × List Command) (q : Bytes × Int) => BatchFrame pid p.1 p.2 q.1)
      (as.filterMap BatcherAction.asBatch) (os.filterMap SinkAction.batchOffer) := by
  induction h with
  | nil => exact .nil
  | cons hhead _ ih =>
      obtain ⟨hfirst, hrest⟩ := List.forall_mem_cons.mp hsize
      cases hhead with
      | append offset size => exact ih hrest
      | batch number cs retval =>
          have hlt : rgBatchHeadlen + (payload cs).length < 2 ^ 15 :=
            lt_of_le_of_lt hfirst (by decide)
          exact .cons (batchMessage_frame pid number cs hlt) (ih hrest)
      | raw c retval => exact ih hrest

/-- The number of the `k`-th entry of a list that is numbered through. -/
theorem getElem_fst_of_map_fst {β : Type*} {l : List (Nat × β)} {s n k : Nat}
    (h : l.map Prod.fst = List.range' s n) (hk : k < l.length) : l[k].1 = s + k := by
  have hmap : (l.map Prod.fst)[k]? = some l[k].1 := by
    rw [List.getElem?_map, List.getElem?_eq_getElem hk]
    rfl
  rw [h] at hmap
  obtain ⟨_, heq⟩ := List.getElem?_eq_some_iff.mp hmap
  rw [← heq, List.getElem_range', Nat.one_mul]

/-- The `k`-th batch offered is the frame of number `k`. -/
theorem sinkRun_batchOffer (R : Ring ρ) (pid : UInt32) (ringbuf : ρ) (receiveBufferSize : Int)
    (steps : List (SinkStep ρ)) {k : Nat} {message : Bytes} {retval : Int}
    (h : ((sinkRun R (freshSink pid ringbuf receiveBufferSize) steps).2.filterMap
      SinkAction.batchOffer)[k]? = some (message, retval)) :
    ∃ cs, BatchFrame pid k cs message := by
  have hcarries := (sinkRun_refines R (freshSink_refines pid ringbuf receiveBufferSize) steps).2
  have hframes := batchOffers_frames hcarries (Batcher.run_wellSized _)
  obtain ⟨n, -, hnumbers⟩ := Batcher.init.run_numbers (steps.flatMap SinkStep.calls)
  obtain ⟨hlt, hget⟩ := List.getElem?_eq_some_iff.mp h
  have hlt' := hframes.length_eq ▸ hlt
  have hframe := hframes.get hlt' hlt
  have hnumber := getElem_fst_of_map_fst hnumbers hlt'
  rw [List.get_eq_getElem, List.get_eq_getElem, hnumber, hget] at hframe
  exact ⟨_, (Nat.zero_add k) ▸ hframe⟩

/-- **Every offer is a message**: it starts with its own size. -/
theorem Carries.isMessage {a : BatcherAction} {o : SinkAction} (h : Carries pid a o)
    (hsize : a.WellSized) : o.IsMessage := by
  cases h with
  | append offset size => trivial
  | batch number cs retval =>
      have hmax : rgBatchHeadlen + (payload cs).length ≤ rgMaxCommandSize := hsize
      have hframe := batchMessage_frame pid number cs (lt_of_le_of_lt hmax (by decide))
      have hlength : (batchMessage pid number cs).length = rgBatchHeadlen + (payload cs).length := by
        simp [batchMessage]
      exact ⟨⟨_, hframe.length_field, hlength ▸ Nat.le_add_right _ _, hlength ▸ hmax⟩, rfl⟩
  | raw c retval =>
      exact ⟨⟨c.bytes, c.length_prefix, le_trans (by decide) c.min_size, c.max_size⟩, rfl⟩

/-- Every offer of a run is a message. -/
theorem isMessage_of_forall₂ {as : List BatcherAction} {os : List SinkAction}
    (h : List.Forall₂ (Carries pid) as os) (hsize : ∀ a ∈ as, a.WellSized) :
    ∀ o ∈ os, o.IsMessage := by
  induction h with
  | nil => exact List.forall_mem_nil _
  | cons hhead _ ih =>
      obtain ⟨hfirst, hrest⟩ := List.forall_mem_cons.mp hsize
      exact List.forall_mem_cons.mpr ⟨hhead.isMessage hfirst, ih hrest⟩

/-- A raw offer is one command of at least 4094 bytes. -/
theorem rawOffer_command {as : List BatcherAction} {os : List SinkAction}
    (h : List.Forall₂ (Carries pid) as os) (hsize : ∀ a ∈ as, a.WellSized) {message : Bytes}
    {retval : Int} (hmem : .offerRaw message retval ∈ os) :
    ∃ c : Command, message = c.bytes ∧ 4094 ≤ message.length := by
  induction h with
  | nil => exact absurd hmem List.not_mem_nil
  | cons hhead _ ih =>
      obtain ⟨hfirst, hrest⟩ := List.forall_mem_cons.mp hsize
      rcases List.mem_cons.mp hmem with heq | htail
      · subst heq
        cases hhead with
        | raw c _ => exact ⟨c, rfl, hfirst⟩
      · exact ih hrest htail

/-- In a list whose entries carry their own position, the values of the entries kept by a filter are
the positions kept. -/
theorem map_filter_eq_positions {α : Type*} {l : List α} {f : α → Nat} {g : Nat → Nat}
    (p : α → Bool) (h : ∀ k a, l[k]? = some a → f a = g k) :
    (l.filter p).map f = (l.zipIdx.filter fun q => p q.1).map fun q => g q.2 := by
  conv_lhs => rw [← List.zipIdx_map_fst 0 l, List.filter_map, List.map_map]
  refine List.map_congr_left fun q hq => ?_
  exact h q.2 q.1 (List.mem_zipIdx_iff_getElem?.mp (List.mem_of_mem_filter hq))

/-! ## What the ring makes of the offers -/

/-- The ring after an action: it takes the message if it accepted it, and stays as it is
otherwise. -/
def SinkAction.ringAfter (R : Ring ρ) (ringbuf : ρ) : SinkAction → ρ
  | .append _ _ => ringbuf
  | .offerBatch message retval => if retval = 0 then ringbuf else (R.offer ringbuf message).1
  | .offerRaw message retval => if retval = 0 then ringbuf else (R.offer ringbuf message).1

/-- The action offers no empty message. -/
def SinkAction.NonEmpty : SinkAction → Prop
  | .append _ _ => True
  | .offerBatch message _ => message ≠ []
  | .offerRaw message _ => message ≠ []

/-- An action that carries out an action on commands offers no empty message. -/
theorem Carries.nonEmpty {a : BatcherAction} {o : SinkAction} (h : Carries pid a o) :
    o.NonEmpty := by
  cases h with
  | append offset size => trivial
  | batch number cs retval =>
      intro hnil
      have hlen := congrArg List.length (List.append_eq_nil_iff.mp hnil).1
      rw [length_batchHeader] at hlen
      exact absurd hlen (by decide)
  | raw c retval =>
      intro hnil
      have hmin := c.min_size
      rw [hnil] at hmin
      exact absurd hmin (by decide)

/-- An offer that is rejected leaves the ring as it is. -/
theorem offer_ringbuf (R : Ring ρ) (ringbuf : ρ) {message : Bytes} (hne : message ≠ []) :
    (R.offer ringbuf message).1
      = if (R.offer ringbuf message).2 = 0 then ringbuf else (R.offer ringbuf message).1 := by
  by_cases h : (R.offer ringbuf message).2 = 0
  · rw [if_pos h, R.offer_rejected ringbuf message hne h]
  · rw [if_neg h]

/-- **The ring has taken the accepted messages**, in order, and nothing else. -/
theorem OffersTo.eq_ringAfter {R : Ring ρ} {r r' : ρ} {os : List SinkAction}
    (h : OffersTo R r os r') (hne : ∀ o ∈ os, o.NonEmpty) :
    r' = os.foldl (SinkAction.ringAfter R) r := by
  induction h with
  | nil r => rfl
  | append offset buflen _ ih => exact ih (List.forall_mem_cons.mp hne).2
  | batch message _ ih =>
      obtain ⟨hfirst, hrest⟩ := List.forall_mem_cons.mp hne
      rw [ih hrest, List.foldl_cons, SinkAction.ringAfter, ← offer_ringbuf R _ hfirst]
  | raw message _ ih =>
      obtain ⟨hfirst, hrest⟩ := List.forall_mem_cons.mp hne
      rw [ih hrest, List.foldl_cons, SinkAction.ringAfter, ← offer_ringbuf R _ hfirst]

/-- What one list of actions says about each of its elements, the other list says too. -/
theorem forall_of_forall₂ {α β : Type*} {r : α → β → Prop} {P : β → Prop} {as : List α}
    {bs : List β} (h : List.Forall₂ r as bs) (hP : ∀ a b, r a b → P b) : ∀ b ∈ bs, P b := by
  induction h with
  | nil => simp
  | cons hhead _ ih => exact List.forall_mem_cons.mpr ⟨hP _ _ hhead, ih⟩

/-- After a call the ring has taken the accepted messages. -/
theorem perform_ringbuf (R : Ring ρ) {s : SinkData ρ} {b : Batcher} (h : s.Refines pid b)
    (call : SinkCall) :
    (call.perform R s).1.ringbuf
      = (call.perform R s).2.1.foldl (SinkAction.ringAfter R) s.ringbuf :=
  (perform_offersTo R s call).eq_ringAfter
    (forall_of_forall₂ (perform_refines R h call).2 fun _ _ h => h.nonEmpty)

/-- **The messages of a run.** Whatever commands are handed over and whichever offers the ring
accepts: a raw message is one command of at least 4094 bytes; the `k`-th batch offered is the frame
of number `k`; the sequence numbers of the accepted batches are the positions of the accepted
offers among all batch offers, modulo `2 ^ 32`; a call changes the ring by the accepted messages
only; and in particular a rejected offer leaves the bip buffer as it is. -/
theorem sinkRun_frames (R : Ring ρ) (pid : UInt32) (ringbuf : ρ) (receiveBufferSize : Int)
    (steps : List (SinkStep ρ)) :
    let fresh := freshSink pid ringbuf receiveBufferSize
    let offers := (sinkRun R fresh steps).2.filterMap SinkAction.batchOffer
    (∀ message retval, .offerRaw message retval ∈ (sinkRun R fresh steps).2 →
      ∃ c : Command, message = c.bytes ∧ 4094 ≤ message.length) ∧
    (∀ (k : Nat) message retval, offers[k]? = some (message, retval) →
      ∃ cs, BatchFrame pid k cs message) ∧
    (offers.filter fun p => p.2 ≠ 0).map (fun p => sequenceField p.1)
      = (offers.zipIdx.filter fun q => q.1.2 ≠ 0).map (fun q => q.2 % 2 ^ 32) ∧
    (∀ (k : Nat) call, steps[k]? = some (.call call) →
      let s := (sinkRun R fresh (steps.take k)).1
      (call.perform R s).1.ringbuf
        = (call.perform R s).2.1.foldl (SinkAction.ringAfter R) s.ringbuf) ∧
    ∀ (me : Bipbuf) (message : Bytes), message ≠ [] →
      (bipbufOffer me message message.length).2 = 0 →
      (bipbufOffer me message message.length).1 = me := by
  intro fresh offers
  have hrun := fun steps => sinkRun_refines R (freshSink_refines pid ringbuf receiveBufferSize) steps
  have hframe : ∀ (k : Nat) message retval, offers[k]? = some (message, retval) →
      ∃ cs, BatchFrame pid k cs message :=
    fun k message retval h => sinkRun_batchOffer R pid ringbuf receiveBufferSize steps h
  refine ⟨?_, hframe, ?_, ?_, bipbufRing.offer_rejected⟩
  · intro message retval hmem
    exact rawOffer_command (hrun steps).2 (Batcher.run_wellSized _) hmem
  · refine map_filter_eq_positions (g := fun k => k % 2 ^ 32) _ fun k p hget => ?_
    obtain ⟨cs, hcs⟩ := hframe k p.1 p.2 hget
    exact hcs.sequence_field
  · intro k call _
    exact perform_ringbuf R (hrun (steps.take k)).1 call

end RaygunApm
