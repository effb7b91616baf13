import RaygunApm.Dispatch.Thread

/-! # The dispatcher's accounts

Between the offer and the send a message is in the ring, or polled and not yet copied. Every step
takes accepted messages into the ring at its end and polled ones out of it at its front
(`step_ring`); and it sends the polled ones in their order, as long as no offer of a jitter pause is
written onto the message polled before it (`step_socket`). -/

namespace RaygunApm

open ByteMemory

/-- The offer is rejected or does not write onto the `size` bytes at `ptr`. -/
def WritesClear (ptr size : Nat) (me : Bipbuf) (message : Bytes) : Prop :=
  bipbufUnused me < message.length ∨ bipbufWritePos me + message.length ≤ ptr ∨
    ptr + size ≤ bipbufWritePos me

/-- None of the offers, made one after the other, writes onto the `size` bytes at `ptr`. -/
def AllClear (ptr size : Nat) : Bipbuf → List SinkAction → Prop
  | _, [] => True
  | me, .append _ _ :: os => AllClear ptr size me os
  | me, .offerBatch message _ :: os =>
      WritesClear ptr size me message ∧
        AllClear ptr size (bipbufOffer me message message.length).1 os
  | me, .offerRaw message _ :: os =>
      WritesClear ptr size me message ∧
        AllClear ptr size (bipbufOffer me message message.length).1 os

/-- In a jitter pause, the input leaves the polled bytes alone. -/
def Dispatcher.KeepsPolled (s : Dispatcher) (input : DispatchInput) : Prop :=
  match s.location with
  | .jittering ptr size =>
      AllClear ptr size.toNatClampNeg s.data.ringbuf (produce s.data input).2
  | _ => True

instance (ptr size : Nat) (me : Bipbuf) (message : Bytes) :
    Decidable (WritesClear ptr size me message) :=
  inferInstanceAs (Decidable (_ ∨ _ ∨ _))

instance decidableAllClear (ptr size : Nat) :
    (me : Bipbuf) → (os : List SinkAction) → Decidable (AllClear ptr size me os)
  | _, [] => isTrue trivial
  | me, .append _ _ :: os => decidableAllClear ptr size me os
  | me, .offerBatch message _ :: os =>
      have := decidableAllClear ptr size (bipbufOffer me message message.length).1 os
      inferInstanceAs (Decidable (_ ∧ _))
  | me, .offerRaw message _ :: os =>
      have := decidableAllClear ptr size (bipbufOffer me message message.length).1 os
      inferInstanceAs (Decidable (_ ∧ _))

instance (s : Dispatcher) (input : DispatchInput) : Decidable (s.KeepsPolled input) := by
  unfold Dispatcher.KeepsPolled
  split <;> infer_instance

/-! ## Offers -/

/-- What the ring does with one message. -/
theorem Tiled.offer_or_reject {me : Bipbuf} {as bs : List Message} (h : Tiled me as bs)
    (m : Message) :
    ∃ as' bs' ms, Tiled (bipbufOffer me m.bytes m.bytes.length).1 as' bs' ∧
      as' ++ bs' = as ++ bs ++ ms ∧
      (if (bipbufOffer me m.bytes m.bytes.length).2 = 0 then [] else [m.bytes])
        = ms.map Message.bytes := by
  by_cases hreject : (bipbufOffer me m.bytes m.bytes.length).2 = 0
  · have hsize : (m.bytes.length : Int) ≠ 0 := Int.natCast_ne_zero.mpr m.size_pos.ne'
    rw [bipbufOffer_rejected hsize hreject, if_pos hreject]
    exact ⟨as, bs, [], h, by simp, rfl⟩
  · obtain ⟨as', bs', ht, happend⟩ := h.offer m hreject
    exact ⟨as', bs', [m], ht, happend, by rw [if_neg hreject]; rfl⟩

/-- A message that is written elsewhere leaves the bytes at `ptr` alone. -/
theorem WritesClear.readAt_eq {me : Bipbuf} (h : me.Wf) {m : Message} {ptr size : Nat}
    (hclear : WritesClear ptr size me m.bytes) :
    readAt (bipbufOffer me m.bytes m.bytes.length).1.data ptr size = readAt me.data ptr size := by
  by_cases hfull : bipbufUnused me < m.bytes.length
  · rw [bipbufOffer, if_pos hfull]
  · exact readAt_bipbufOffer h hfull (hclear.resolve_left hfull).symm

/-- The message that an offer of a batch takes in. -/
theorem accepted_offerBatch (message : Bytes) (retval : Int) :
    (offerOutput (.offerBatch message retval)).flatMap DispatchOutput.acceptedMessage
      = if retval = 0 then [] else [message] := by
  by_cases h : retval = 0 <;> simp [offerOutput, h, DispatchOutput.acceptedMessage]

/-- The message that a raw offer takes in. -/
theorem accepted_offerRaw (message : Bytes) (retval : Int) :
    (offerOutput (.offerRaw message retval)).flatMap DispatchOutput.acceptedMessage
      = if retval = 0 then [] else [message] := by
  by_cases h : retval = 0 <;> simp [offerOutput, h, DispatchOutput.acceptedMessage]

/-- The outputs of some actions account for the messages that the ring takes in. -/
theorem OffersTo.tiled {me me' : Bipbuf} {os : List SinkAction}
    (h : OffersTo bipbufRing me os me') (hmessage : ∀ o ∈ os, o.IsMessage) {as bs : List Message}
    (ht : Tiled me as bs) :
    ∃ as' bs' ms, Tiled me' as' bs' ∧ as' ++ bs' = as ++ bs ++ ms ∧
      (os.flatMap offerOutput).flatMap DispatchOutput.acceptedMessage = ms.map Message.bytes := by
  induction h generalizing as bs with
  | nil me => exact ⟨as, bs, [], ht, by simp, rfl⟩
  | append offset buflen _ ih => exact ih (List.forall_mem_cons.mp hmessage).2 ht
  | @batch me me' os message _ ih =>
      obtain ⟨⟨m, rfl⟩, hrest⟩ := List.forall_mem_cons.mp hmessage
      obtain ⟨as₁, bs₁, ms, ht₁, happend, hms⟩ := ht.offer_or_reject m
      obtain ⟨as', bs', ns, ht', happend', hns⟩ := ih hrest ht₁
      refine ⟨as', bs', ms ++ ns, ht', by rw [happend', happend, List.append_assoc], ?_⟩
      rw [List.flatMap_cons, List.flatMap_append, hns, List.map_append, ← hms,
        accepted_offerBatch]
      rfl
  | @raw me me' os message _ ih =>
      obtain ⟨⟨m, rfl⟩, hrest⟩ := List.forall_mem_cons.mp hmessage
      obtain ⟨as₁, bs₁, ms, ht₁, happend, hms⟩ := ht.offer_or_reject m
      obtain ⟨as', bs', ns, ht', happend', hns⟩ := ih hrest ht₁
      refine ⟨as', bs', ms ++ ns, ht', by rw [happend', happend, List.append_assoc], ?_⟩
      rw [List.flatMap_cons, List.flatMap_append, hns, List.map_append, ← hms, accepted_offerRaw]
      rfl

/-- Offers that are written elsewhere leave the bytes at `ptr` alone. -/
theorem OffersTo.readAt_eq {me me' : Bipbuf} {os : List SinkAction}
    (h : OffersTo bipbufRing me os me') (hmessage : ∀ o ∈ os, o.IsMessage) {as bs : List Message}
    (ht : Tiled me as bs) {ptr size : Nat} (hclear : AllClear ptr size me os) :
    readAt me'.data ptr size = readAt me.data ptr size := by
  induction h generalizing as bs with
  | nil me => rfl
  | append offset buflen _ ih => exact ih (List.forall_mem_cons.mp hmessage).2 ht hclear
  | batch message _ ih =>
      obtain ⟨⟨m, rfl⟩, hrest⟩ := List.forall_mem_cons.mp hmessage
      obtain ⟨as₁, bs₁, -, ht₁, -, -⟩ := ht.offer_or_reject m
      exact (ih hrest ht₁ hclear.2).trans (hclear.1.readAt_eq ht.wf)
  | raw message _ ih =>
      obtain ⟨⟨m, rfl⟩, hrest⟩ := List.forall_mem_cons.mp hmessage
      obtain ⟨as₁, bs₁, -, ht₁, -, -⟩ := ht.offer_or_reject m
      exact (ih hrest ht₁ hclear.2).trans (hclear.1.readAt_eq ht.wf)

/-- The action is one of a producer: it neither polls nor sends nor quits. -/
theorem offerOutput_quiet (os : List SinkAction) :
    (os.flatMap offerOutput).flatMap DispatchOutput.polledMessage = [] ∧
      (os.flatMap offerOutput).flatMap DispatchOutput.sentPayload = [] ∧
      .quit ∉ os.flatMap offerOutput := by
  induction os with
  | nil => exact ⟨rfl, rfl, List.not_mem_nil⟩
  | cons o os ih =>
      obtain ⟨hpolled, hsent, hquit⟩ := ih
      rw [List.flatMap_cons, List.flatMap_append, List.flatMap_append, hpolled, hsent,
        List.mem_append, not_or]
      cases o with
      | append offset buflen => exact ⟨rfl, rfl, List.not_mem_nil, hquit⟩
      | offerBatch message retval =>
          by_cases hretval : retval = 0 <;> simp [offerOutput, hretval, DispatchOutput.sentPayload,
            DispatchOutput.polledMessage, hquit]
      | offerRaw message retval =>
          by_cases hretval : retval = 0 <;> simp [offerOutput, hretval, DispatchOutput.sentPayload,
            DispatchOutput.polledMessage, hquit]

/-- The size of a message as an `rg_short_t`. -/
theorem Message.size_toNat (m : Message) : (Int16.ofNat m.size).toNatClampNeg = m.size :=
  toNatClampNeg_ofNat (lt_of_le_of_lt m.max_size (by decide))

/-- The size of a message is positive as an `rg_length_t`. -/
theorem Message.size_toInt_pos (m : Message) : (Int16.ofNat m.size).toInt > 0 := by
  have hlt : m.size < 2 ^ 15 := lt_of_le_of_lt m.max_size (by decide)
  rw [Int16.toInt_ofNat_of_lt hlt]
  exact Int.natCast_pos.mpr m.size_pos

namespace Dispatcher

variable {pid : UInt32} {s : Dispatcher} {as bs : List Message}

/-! ## What a round of the inner loop does -/

/-- **A round of the inner loop** polls the next message, whose bytes are then sent or, in a jitter
pause, left where they are. -/
theorem drain_eq (transport : Transport) {m : Message} (ht : Tiled s.data.ringbuf (m :: as) bs) :
    s.drain transport =
      let s' : Dispatcher :=
        { s with
          data := { s.data with ringbuf := (bipbufPoll s.data.ringbuf m.size).1 }
          bytesToSendOnWakeup := cInt (s.bytesToSendOnWakeup + (Int16.ofNat m.size).toInt) }
      if s'.jitters transport then
        ({ s' with location := .jittering s.data.ringbuf.aStart (Int16.ofNat m.size) },
          [.polled m.bytes])
      else
        ({ s' with payload := m.bytes, location := .sending (Int16.ofNat m.size) },
          [.polled m.bytes, .sent m.bytes]) := by
  obtain ⟨-, hptr, hread⟩ := ht.poll
  have hpoll : bipbufPoll s.data.ringbuf m.size
      = ((bipbufPoll s.data.ringbuf m.size).1, some s.data.ringbuf.aStart) := by
    rw [← hptr]
  simp only [drain, ht.nextMessageSize, m.size_toNat, m.size_toInt_pos, not_true_eq_false, if_false]
  rw [hpoll]
  simp only [send, m.size_toNat, hread]

/-! ## Accounts of the ring -/

/-- The sink's batch is in order and the ring holds the messages `as` and `bs`. -/
structure Queued (pid : UInt32) (s : Dispatcher) (as bs : List Message) : Prop where
  refines : ∃ b, s.data.Refines pid b
  tiled : Tiled s.data.ringbuf as bs

/-- Changes of other fields do not matter. -/
theorem Queued.of_eq (h : s.Queued pid as bs) {s' : Dispatcher} (heq : s'.data = s.data) :
    s'.Queued pid as bs := by
  obtain ⟨hrefines, ht⟩ := h
  exact ⟨heq ▸ hrefines, heq ▸ ht⟩

/-- The outputs take accepted messages in at the end and give polled messages out at the front, and
the thread does not quit. -/
structure RingAccounts (held held' : List Message) (os : List DispatchOutput) : Prop where
  balance : held.map Message.bytes ++ os.flatMap DispatchOutput.acceptedMessage
    = os.flatMap DispatchOutput.polledMessage ++ held'.map Message.bytes
  no_quit : .quit ∉ os

/-- A step without outputs holds what it held. -/
theorem ringAccounts_nil (held : List Message) : RingAccounts held held [] :=
  ⟨by simp, List.not_mem_nil⟩

/-- A change of the ring does not touch the batch. -/
theorem refines_ringbuf {data : SinkData Bipbuf} {b : Batcher} (h : data.Refines pid b)
    (ringbuf : Bipbuf) : ({ data with ringbuf := ringbuf } : SinkData Bipbuf).Refines pid b :=
  ⟨⟨h.holds.batch, h.holds.pid_eq, h.holds.sequence_eq⟩, h.fits⟩

/-- **A step of the dispatcher accounts for the ring.** -/
theorem sinkThread_ring (transport : Transport) (ok : Bool) (h : s.Queued pid as bs) :
    ∃ as' bs', (s.sinkThread transport ok).1.Queued pid as' bs' ∧
      RingAccounts (as ++ bs) (as' ++ bs') (s.sinkThread transport ok).2 := by
  -- A step that does not poll leaves the ring and shows nothing of it.
  have hidle : ∀ s' : Dispatcher, s'.data = s.data →
      ∃ as' bs', s'.Queued pid as' bs' ∧ RingAccounts (as ++ bs) (as' ++ bs') [] :=
    fun s' heq => ⟨as, bs, h.of_eq heq, ringAccounts_nil _⟩
  unfold sinkThread
  split
  · exact hidle _ rfl
  · split
    · exact hidle _ rfl
    · exact hidle _ rfl
  · split
    · rename_i hempty
      cases as with
      | nil => exact absurd (h.tiled.isEmpty_iff.mpr rfl) hempty
      | cons m as =>
          -- The polled message is the first in the ring, whichever way it goes from here.
          obtain ⟨⟨b, hb⟩, ht⟩ := h
          obtain ⟨⟨as', bs', ht', hrest⟩, -, -⟩ := ht.poll
          rw [drain_eq transport ht]
          dsimp only
          split
          · refine ⟨as', bs', ⟨⟨b, refines_ringbuf hb _⟩, ht'⟩, ?_, by simp⟩
            simp [hrest, DispatchOutput.acceptedMessage, DispatchOutput.polledMessage]
          · refine ⟨as', bs', ⟨⟨b, refines_ringbuf hb _⟩, ht'⟩, ?_, by simp⟩
            simp [hrest, DispatchOutput.acceptedMessage, DispatchOutput.polledMessage]
    · exact hidle _ rfl
  · exact hidle _ rfl
  · refine ⟨as, bs, h.of_eq rfl, ?_, by simp [send]⟩
    simp [send, DispatchOutput.acceptedMessage, DispatchOutput.polledMessage]
  · split
    · exact hidle _ rfl
    · exact hidle _ rfl
  · exact hidle _ rfl

/-- What a producer does to the ring. -/
theorem produce_offersTo (data : SinkData Bipbuf) (input : DispatchInput) :
    OffersTo bipbufRing data.ringbuf (produce data input).2 (produce data input).1.ringbuf := by
  cases input with
  | offer m => exact .raw m.bytes (.nil _)
  | call c => exact perform_offersTo bipbufRing data c
  | stop => exact .nil _
  | dispatch ok => exact .nil _

/-- Producers offer messages and keep the batch in order. -/
theorem produce_refines {data : SinkData Bipbuf} {b : Batcher} (h : data.Refines pid b)
    (input : DispatchInput) :
    (∃ b', (produce data input).1.Refines pid b') ∧ ∀ o ∈ (produce data input).2, o.IsMessage := by
  cases input with
  | offer m => exact ⟨⟨b, refines_ringbuf h _⟩, List.forall_mem_singleton.mpr ⟨m, rfl⟩⟩
  | call c =>
      obtain ⟨hrefines, hcarries⟩ := perform_refines bipbufRing h c
      exact ⟨⟨_, hrefines⟩, isMessage_of_forall₂ hcarries (Batcher.step_wellSized h.fits c)⟩
  | stop =>
      exact ⟨⟨b, ⟨h.holds.batch, h.holds.pid_eq, h.holds.sequence_eq⟩, h.fits⟩,
        List.forall_mem_nil _⟩
  | dispatch ok => exact ⟨⟨b, h⟩, List.forall_mem_nil _⟩

/-- **A step of a producer accounts for the ring.** -/
theorem produce_ring (h : s.Queued pid as bs) (input : DispatchInput) :
    ∃ as' bs', ({ s with data := (produce s.data input).1 } : Dispatcher).Queued pid as' bs' ∧
      RingAccounts (as ++ bs) (as' ++ bs') ((produce s.data input).2.flatMap offerOutput) := by
  obtain ⟨⟨b, hb⟩, ht⟩ := h
  obtain ⟨hrefines, hmessage⟩ := produce_refines hb input
  obtain ⟨as', bs', ms, ht', happend, haccepted⟩ :=
    (produce_offersTo s.data input).tiled hmessage ht
  obtain ⟨hpolled, -, hquit⟩ := offerOutput_quiet (produce s.data input).2
  refine ⟨as', bs', ⟨hrefines, ht'⟩, ?_, hquit⟩
  rw [haccepted, hpolled, List.nil_append, happend, ← List.map_append]

/-- A step of a producer, or nothing. -/
theorem step_produce (transport : Transport) (s : Dispatcher) {input : DispatchInput}
    (hproducer : ∀ ok, input ≠ .dispatch ok) :
    s.step transport input
      = if s.location.CanSwitch then
          ({ s with data := (produce s.data input).1 },
            (produce s.data input).2.flatMap offerOutput)
        else (s, []) := by
  cases input with
  | dispatch ok => exact absurd rfl (hproducer ok)
  | _ => rfl

/-- **Every step accounts for the ring.** -/
theorem step_ring (transport : Transport) (h : s.Queued pid as bs) (input : DispatchInput) :
    ∃ as' bs', (s.step transport input).1.Queued pid as' bs' ∧
      RingAccounts (as ++ bs) (as' ++ bs') (s.step transport input).2 := by
  by_cases hproducer : ∀ ok, input ≠ .dispatch ok
  · rw [step_produce transport s hproducer]
    split
    · exact produce_ring h input
    · exact ⟨as, bs, h, ringAccounts_nil _⟩
  · obtain ⟨ok, hok⟩ := not_forall_not.mp hproducer
    rw [hok]
    exact sinkThread_ring transport ok h

/-! ## Accounts of the socket -/

/-- The message that is polled and not yet copied, if there is one. -/
def Polled (s : Dispatcher) (polled : List Message) : Prop :=
  match s.location with
  | .jittering ptr size =>
      ∃ m : Message, polled = [m] ∧ size = Int16.ofNat m.size ∧
        readAt s.data.ringbuf.data ptr m.size = m.bytes
  | _ => polled = []

/-- No message is polled outside of a jitter pause. -/
theorem polled_nil (h : ∀ ptr size, s.location ≠ .jittering ptr size) : s.Polled [] := by
  unfold Polled
  split
  · rename_i ptr size hlocation
    exact absurd hlocation (h ptr size)
  · rfl

/-- Outside of a jitter pause the messages polled are none. -/
theorem Polled.eq_nil {polled : List Message} (hpolled : s.Polled polled)
    (h : ∀ ptr size, s.location ≠ .jittering ptr size) : polled = [] := by
  unfold Polled at hpolled
  split at hpolled
  · rename_i ptr size hlocation
    exact absurd hlocation (h ptr size)
  · exact hpolled

/-- At most one message is polled. -/
theorem Polled.length_le {polled : List Message} (hpolled : s.Polled polled) :
    polled.length ≤ 1 := by
  unfold Polled at hpolled
  split at hpolled
  · obtain ⟨m, rfl, -⟩ := hpolled
    exact le_rfl
  · rw [hpolled]
    exact Nat.zero_le _

/-- Polled messages are sent, but for the one left in the end. -/
def SocketBalance (polled polled' : List Message) (os : List DispatchOutput) : Prop :=
  polled.map Message.bytes ++ os.flatMap DispatchOutput.polledMessage
    = os.flatMap DispatchOutput.sentPayload ++ polled'.map Message.bytes

/-- **A step of the dispatcher sends what it polled.** -/
theorem sinkThread_socket (transport : Transport) (ok : Bool) (h : s.Queued pid as bs)
    {polled : List Message} (hpolled : s.Polled polled) :
    ∃ polled', (s.sinkThread transport ok).1.Polled polled' ∧
      SocketBalance polled polled' (s.sinkThread transport ok).2 := by
  -- Only a jittering thread holds a polled message.
  have hidle : (∀ ptr size, s.location ≠ .jittering ptr size) → ∀ s' : Dispatcher,
      (∀ ptr size, s'.location ≠ .jittering ptr size) →
      ∃ polled', s'.Polled polled' ∧ SocketBalance polled polled' [] := by
    intro hs s' hs'
    rw [hpolled.eq_nil hs]
    exact ⟨[], polled_nil hs', by simp [SocketBalance]⟩
  unfold sinkThread
  cases hlocation : s.location with
  | waiting => exact hidle (by simp [hlocation]) _ (by simp)
  | outer =>
      dsimp only
      split <;> exact hidle (by simp [hlocation]) _ (by simp)
  | inner =>
      dsimp only
      split
      · rename_i hempty
        -- A poll either sends the message at once or leaves it to the jittering thread.
        have hnone := hpolled.eq_nil (by simp [hlocation])
        cases as with
        | nil => exact absurd (h.tiled.isEmpty_iff.mpr rfl) hempty
        | cons m as =>
            have hread := h.tiled.poll.2.2
            rw [drain_eq transport h.tiled, hnone]
            dsimp only
            split
            · exact ⟨[m], ⟨m, rfl, rfl, hread⟩, by
                simp [SocketBalance, DispatchOutput.polledMessage, DispatchOutput.sentPayload]⟩
            · exact ⟨[], polled_nil (by simp), by
                simp [SocketBalance, DispatchOutput.polledMessage, DispatchOutput.sentPayload]⟩
      · exact hidle (by simp [hlocation]) _ (by simp)
  | afterInner =>
      apply hidle (by simp [hlocation]) _
      intro ptr size
      dsimp only
      split <;> simp
  | jittering ptr size =>
      unfold Polled at hpolled
      rw [hlocation] at hpolled
      -- Sending it, after its producers kept its bytes.
      obtain ⟨m, rfl, rfl, hread⟩ := hpolled
      refine ⟨[], polled_nil (by simp [send]), ?_⟩
      simp only [send, m.size_toNat, hread]
      simp [SocketBalance, DispatchOutput.polledMessage, DispatchOutput.sentPayload]
  | sending size =>
      dsimp only
      split <;> exact hidle (by simp [hlocation]) _ (by simp)
  | done => exact hidle (by simp [hlocation]) _ (by simp [hlocation])

/-- **A step of a producer leaves the polled message alone**, if it keeps its bytes. -/
theorem produce_socket (h : s.Queued pid as bs) {polled : List Message}
    (hpolled : s.Polled polled) (input : DispatchInput) (hkeep : s.KeepsPolled input) :
    ({ s with data := (produce s.data input).1 } : Dispatcher).Polled polled ∧
      SocketBalance polled polled ((produce s.data input).2.flatMap offerOutput) := by
  obtain ⟨⟨b, hb⟩, ht⟩ := h
  obtain ⟨-, hmessage⟩ := produce_refines hb input
  obtain ⟨hquiet, hsent, -⟩ := offerOutput_quiet (produce s.data input).2
  refine ⟨?_, by rw [SocketBalance, hquiet, hsent, List.append_nil, List.nil_append]⟩
  unfold Polled KeepsPolled at *
  dsimp only
  cases hlocation : s.location with
  | jittering ptr size =>
      simp only [hlocation] at hpolled hkeep
      obtain ⟨m, rfl, rfl, hread⟩ := hpolled
      rw [m.size_toNat] at hkeep
      exact ⟨m, rfl, rfl,
        ((produce_offersTo s.data input).readAt_eq hmessage ht hkeep).trans hread⟩
  | _ => simpa only [hlocation] using hpolled

/-- **Every step sends what was polled**, if it keeps the polled bytes. -/
theorem step_socket (transport : Transport) (h : s.Queued pid as bs) {polled : List Message}
    (hpolled : s.Polled polled) (input : DispatchInput) (hkeep : s.KeepsPolled input) :
    ∃ polled', (s.step transport input).1.Polled polled' ∧
      SocketBalance polled polled' (s.step transport input).2 := by
  by_cases hproducer : ∀ ok, input ≠ .dispatch ok
  · rw [step_produce transport s hproducer]
    split
    · exact ⟨polled, produce_socket h hpolled input hkeep⟩
    · exact ⟨polled, hpolled, by simp [SocketBalance]⟩
  · obtain ⟨ok, hok⟩ := not_forall_not.mp hproducer
    rw [hok]
    exact sinkThread_socket transport ok h hpolled

/-! ## Runs -/

/-- A fresh dispatcher holds nothing. -/
theorem fresh_queued (pid : UInt32) {memory : Bytes} (hmemory : memory.length < 2 ^ 32)
    (receiveBufferSize : Int) : (fresh pid memory receiveBufferSize).Queued pid [] [] :=
  ⟨⟨_, freshSink_refines pid _ receiveBufferSize⟩, tiled_bipbufNew hmemory⟩

/-- The ring holds whole messages. -/
def RingTiled (pid : UInt32) (s : Dispatcher) : Prop := ∃ as bs, s.Queued pid as bs

/-- The ring holds whole messages after every step. -/
theorem RingTiled.step (transport : Transport) (h : s.RingTiled pid) (input : DispatchInput) :
    (s.step transport input).1.RingTiled pid := by
  obtain ⟨as, bs, hqueued⟩ := h
  obtain ⟨as', bs', hqueued', -⟩ := step_ring transport hqueued input
  exact ⟨as', bs', hqueued'⟩

/-- **Every run accounts for the ring**: the messages accepted are the messages polled followed by
those in the ring, and the thread does not terminate itself. -/
theorem run_ring (transport : Transport) (h : s.Queued pid as bs) (inputs : List DispatchInput) :
    ∃ as' bs', (run transport s inputs).1.Queued pid as' bs' ∧
      RingAccounts (as ++ bs) (as' ++ bs') (run transport s inputs).2 := by
  have hquit := Mealy.run_outputs (P := RingTiled pid) (Q := fun o : DispatchOutput => o ≠ .quit)
    (fun _ input h => h.step transport input)
    (fun s input ⟨as, bs, h⟩ o ho heq => by
      obtain ⟨_, _, _, haccounts⟩ := step_ring transport h input
      exact haccounts.no_quit (heq ▸ ho))
    ⟨as, bs, h⟩ inputs
  obtain ⟨held, ⟨as', bs', hqueued, rfl⟩, hbalance⟩ := Mealy.run_accounting
    (P := fun (s : Dispatcher) held => ∃ as bs, s.Queued pid as bs ∧
      held = (as ++ bs).map Message.bytes) (C := fun _ _ => True)
    (fun s input held ⟨_, _, h, hheld⟩ _ => by
      obtain ⟨as', bs', h', haccounts⟩ := step_ring transport h input
      exact ⟨_, ⟨as', bs', h', rfl⟩, hheld ▸ haccounts.balance⟩)
    ⟨as, bs, h, rfl⟩ (Mealy.allSteps_of_forall (fun _ _ => trivial) s)
  exact ⟨as', bs', hqueued, hbalance, fun hmem => hquit .quit hmem rfl⟩

/-- **Every run sends what it polls**, but for the one message left in the end, if its steps keep
the polled bytes. -/
theorem run_socket (transport : Transport) (h : s.RingTiled pid) {polled : List Message}
    (hpolled : s.Polled polled) {inputs : List DispatchInput}
    (hkeep : Mealy.AllSteps (step transport) KeepsPolled s inputs) :
    ∃ polled', (run transport s inputs).1.Polled polled' ∧
      SocketBalance polled polled' (run transport s inputs).2 := by
  obtain ⟨held, ⟨-, polled', hpolled', rfl⟩, hbalance⟩ := Mealy.run_accounting
    (P := fun (s : Dispatcher) held => s.RingTiled pid ∧ ∃ polled, s.Polled polled ∧
      held = polled.map Message.bytes)
    (fun s input held ⟨⟨as, bs, h⟩, _, hpolled, hheld⟩ hkeep => by
      obtain ⟨polled', hpolled', hbalance⟩ := step_socket transport h hpolled input hkeep
      refine ⟨_, ⟨RingTiled.step transport ⟨as, bs, h⟩ input, polled', hpolled', rfl⟩, ?_⟩
      rw [hheld]
      exact hbalance)
    ⟨h, polled, hpolled, rfl⟩ hkeep
  exact ⟨polled', hpolled', hbalance⟩

/-! ## The thread does not end by itself -/

/-- The thread keeps running while it does not quit. -/
theorem sinkThread_running {transport : Transport} {ok : Bool} (hrunning : s.data.running = true)
    (hdone : s.location ≠ .done) (hquit : .quit ∉ (s.sinkThread transport ok).2) :
    (s.sinkThread transport ok).1.data.running = true ∧
      (s.sinkThread transport ok).1.location ≠ .done := by
  unfold sinkThread at hquit ⊢
  cases hlocation : s.location with
  | waiting => simp [hrunning]
  | outer => simp [hrunning]
  | inner =>
      simp only [hlocation] at hquit ⊢
      split at hquit
      · rename_i hmore
        rw [if_pos hmore]
        -- A round that polls ends the thread by a quit only.
        rcases drain_cases transport s with
          ⟨hout, -⟩ | ⟨hkeep, _, ⟨-, -, _, _, hjittering⟩ | ⟨_, _, -, hsending⟩⟩
        · rw [hout] at hquit
          exact absurd (List.mem_singleton_self _) hquit
        · simp [hkeep, hrunning, hjittering]
        · simp [hkeep, hrunning, hsending]
      · rename_i hmore
        rw [if_neg hmore]
        simp [hrunning]
  | afterInner => simp [hrunning]
  | jittering ptr size => simp [send, hrunning]
  | sending size => by_cases hok : ok <;> simp [hok, hrunning]
  | done => exact absurd hlocation hdone

/-- Only the end of the process stops the sink from outside. -/
theorem running_produce {data : SinkData Bipbuf} {input : DispatchInput} (hstop : input ≠ .stop) :
    (produce data input).1.running = data.running := by
  cases input with
  | offer m => rfl
  | call c => cases c <;> exact running_rbRgBatchedSink _ _ _ _ _
  | stop => exact absurd rfl hstop
  | dispatch ok => rfl

/-- Once `running` is cleared it stays cleared. -/
theorem cleared_step (transport : Transport) (input : DispatchInput)
    (hcleared : s.data.running = false) : (s.step transport input).1.data.running = false := by
  have hdrain : (s.drain transport).1.data.running = false := by
    unfold drain
    dsimp only
    split
    · rfl
    · split
      · rfl
      · split <;> exact hcleared
  cases input with
  | dispatch ok =>
      rw [step, sinkThread]
      cases s.location with
      | waiting => exact hcleared
      | outer =>
          dsimp only
          split <;> exact hcleared
      | inner =>
          dsimp only
          split
          · exact hdrain
          · exact hcleared
      | afterInner => exact hcleared
      | jittering ptr size => exact hcleared
      | sending size => cases ok <;> exact hcleared
      | done => exact hcleared
  | stop =>
      unfold step
      dsimp only
      split
      · rfl
      · exact hcleared
  | _ =>
      unfold step
      dsimp only
      split
      · exact (running_produce (by simp)).trans hcleared
      · exact hcleared

/-- A step keeps the thread running unless it quits or the process ends. -/
theorem step_running {transport : Transport} {input : DispatchInput} (hstop : input ≠ .stop)
    (hrunning : s.data.running = true) (hdone : s.location ≠ .done)
    (hquit : .quit ∉ (s.step transport input).2) :
    (s.step transport input).1.data.running = true ∧
      (s.step transport input).1.location ≠ .done := by
  cases input with
  | dispatch ok => exact sinkThread_running hrunning hdone hquit
  | _ =>
      unfold step
      dsimp only
      split
      · exact ⟨(running_produce hstop).trans hrunning, hdone⟩
      · exact ⟨hrunning, hdone⟩

/-- **Without a stop the thread never ends.** -/
theorem run_running (transport : Transport) (pid : UInt32) {memory : Bytes}
    (hmemory : memory.length < 2 ^ 32) (receiveBufferSize : Int) {inputs : List DispatchInput}
    (hstop : .stop ∉ inputs) :
    (run transport (fresh pid memory receiveBufferSize) inputs).1.data.running = true ∧
      (run transport (fresh pid memory receiveBufferSize) inputs).1.location ≠ .done := by
  have hinputs : ∀ input ∈ inputs, input ≠ .stop := fun input hmem heq => hstop (heq ▸ hmem)
  have hrun := Mealy.run_of_allSteps (C := fun _ input => input ≠ DispatchInput.stop)
    (Q := fun _ => True)
    (P := fun s : Dispatcher => s.RingTiled pid ∧ s.data.running = true ∧ s.location ≠ .done)
    (fun s input ⟨⟨as, bs, hqueued⟩, hrunning, hdone⟩ hne => by
      obtain ⟨_, _, _, haccounts⟩ := step_ring transport hqueued input
      exact ⟨⟨RingTiled.step transport ⟨as, bs, hqueued⟩ input,
        step_running hne hrunning hdone haccounts.no_quit⟩, fun _ _ => trivial⟩)
    ⟨⟨[], [], fresh_queued pid hmemory receiveBufferSize⟩, rfl, by simp [fresh]⟩
    (Mealy.allSteps_of_forall hinputs _)
  exact hrun.1.2

end Dispatcher

end RaygunApm
