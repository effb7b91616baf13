import RaygunApm.Hooks.Requests

/-! # A hooked connection

The hook of a client keeps one event object for all requests of a connection
(`@_raygun_apm_http_out_event`, `@_raygun_apm_sql_event`), fills it when `super` has returned, and
hands it to `Tracer#emit`. Requests are nested when a client sends some of its own inside `super`,
and threads take turns between any two calls. As long as only one thread at a time is behind
`super`, every hooked call that completes ends once: it raises if a value of its request raises, it
is ignored after `Tracer#noop!`, and otherwise the sink is given the event of this request, with
nothing left in it from another one (`hooked_requests`). -/

namespace RaygunApm

/-- Where a thread is in a hooked method. -/
inductive RequestFrame {ρ : Type} (hook : RequestHook ρ) where
  /-- In `super`, without a tracer. -/
  | plain
  /-- In `super`. -/
  | inside (started : Int64)
  /-- Behind `super`, with these attributes to come. -/
  | assigning (request : ρ) (timing : HookTiming) (rest : List (Assignment hook.type))

/-- The frame is behind `super`. -/
def RequestFrame.Behind {ρ : Type} {hook : RequestHook ρ} : RequestFrame hook → Prop
  | .assigning _ _ _ => True
  | _ => False

/-- A connection with a hook, and the threads that use it. -/
structure Connection {ρ : Type} (hook : RequestHook ρ) where
  /-- The event object, once there is one. -/
  event : Option EventMemory
  /-- `tracer->noop`. -/
  noop : Bool
  /-- The hooked calls of each thread, the innermost first. -/
  frames : Nat → List (RequestFrame hook)

/-- What happens to a connection. -/
inductive RequestInput (ρ : Type) where
  /-- A thread calls the hooked method; `tracer` tells whether `Tracer.instance` is there. -/
  | enter (thread : Nat) (tracer : Bool) (now : Int64)
  /-- `super` returns. -/
  | returned (thread : Nat) (now : Int64) (tid : UInt32) (request : ρ)
  /-- `super` raises. -/
  | raised (thread : Nat)
  /-- A thread makes the next call behind `super`. -/
  | advance (thread : Nat)
  /-- `Tracer#noop!`. -/
  | noop

/-- How a hooked call ends, once `super` has returned. -/
inductive HookResult where
  /-- `Tracer#emit` calls the sink with these bytes. -/
  | sunk (command : Bytes)
  /-- `Tracer#emit` returns false. -/
  | ignored
  /-- The hook raises, and there is no call of `Tracer#emit`. -/
  | raised

/-- How the hooked call of a request is to end: it raises if a value of the request does, it is
ignored after `Tracer#noop!`, and otherwise the sink is given the event of the request. -/
def RequestHook.result {ρ : Type} (hook : RequestHook ρ) (noop : Bool) (request : ρ)
    (timing : HookTiming) : HookResult :=
  if hook.raises request then .raised
  else if noop then .ignored
  else .sunk (hook.event request timing).encoded

/-- What can be observed. -/
inductive RequestOutput (ρ : Type) where
  /-- `super` has returned for a request. -/
  | completed (request : ρ) (timing : HookTiming)
  /-- A hooked call ends, for which `super` has returned. -/
  | ended (result : HookResult)
  /-- `Tracer#noop!` has been called. -/
  | silenced

/-- What there is around a connection. -/
structure HookContext where
  /-- `Process.pid`. -/
  pid : UInt32
  /-- What a new string of a length holds. -/
  newString : Nat → Bytes
  /-- A new string has the length asked for. -/
  length_newString : ∀ n, (newString n).length = n

namespace Connection

variable {ρ : Type} {hook : RequestHook ρ}

/-- `rb_rg_tracer_emit`. -/
def rbRgTracerEmit (hook : RequestHook ρ) (context : HookContext) (noop : Bool) (event : EventMemory) :
    HookResult :=
  if noop then .ignored
  else .sunk (EventMemory.rbRgEventEncoded (.event hook.type) event
    (context.newString event.length.toNatClampNeg))

/-- The next call behind `super`: an assignment, then what raises in the place of the next one, or
`Tracer#emit`. -/
def advance (context : HookContext) (thread : Nat) (s : Connection hook) :
    Connection hook × List (RequestOutput ρ) :=
  match s.frames thread, s.event with
  | .assigning request timing (a :: rest) :: frames, some event =>
      match EventMemory.rbRgEventAset (.event hook.type) event (EventMemory.toCall a) with
      | some event =>
          ({ s with
              event := some event
              frames := Function.update s.frames thread (.assigning request timing rest :: frames) },
            [])
      | none => ({ s with frames := Function.update s.frames thread frames }, [.ended .raised])
  | .assigning request _ [] :: frames, some event =>
      ({ s with frames := Function.update s.frames thread frames },
        [.ended (if hook.raises request then .raised
          else rbRgTracerEmit hook context s.noop event)])
  | _, _ => (s, [])

/-- One step. -/
def step (context : HookContext) (s : Connection hook) :
    RequestInput ρ → Connection hook × List (RequestOutput ρ)
  | .enter thread tracer now =>
      match s.frames thread with
      | .assigning _ _ _ :: _ => (s, [])
      | frames =>
          ({ s with
              frames := Function.update s.frames thread
                ((if tracer then .inside now else .plain) :: frames) }, [])
  | .returned thread now tid request =>
      match s.frames thread with
      | .plain :: frames => ({ s with frames := Function.update s.frames thread frames }, [])
      | .inside started :: frames =>
          let timing : HookTiming :=
            { pid := context.pid, tid := tid, started := started, ended := now }
          ({ s with
              event := some (s.event.getD EventMemory.rbRgEventAlloc)
              frames := Function.update s.frames thread
                (.assigning request timing (hook.assignments request timing) :: frames) },
            [.completed request timing])
      | _ => (s, [])
  | .raised thread =>
      match s.frames thread with
      | .plain :: frames | .inside _ :: frames =>
          ({ s with frames := Function.update s.frames thread frames }, [])
      | _ => (s, [])
  | .advance thread => s.advance context thread
  | .noop => ({ s with noop := true }, [.silenced])

/-- A new connection. -/
def fresh : Connection hook where
  event := none
  noop := false
  frames _ := []

/-- A connection goes through some steps. -/
def run (context : HookContext) : Connection hook → List (RequestInput ρ) →
    Connection hook × List (RequestOutput ρ) :=
  Mealy.run (step context)

/-- The thread is behind `super`. -/
def Behind (s : Connection hook) (thread : Nat) : Prop := ∃ frame ∈ s.frames thread, frame.Behind

/-- The thread that returns from `super`, or moves on behind it, is the only one there. -/
def Exclusive (s : Connection hook) : RequestInput ρ → Prop
  | .returned thread _ _ _ | .advance thread => ∀ other, s.Behind other → other = thread
  | _ => True

/-! ## Filling the event -/

/-- What is assigned does not depend on what was there. -/
theorem foldl_rbRgEventAset_congr {type : EventType} {sets : List (Assignment type)} {attr : Attribute}
    (h : ∃ a ∈ sets, a.attr = attr) (event event' : RgEvent) :
    (sets.foldl rbRgEventAset event).member attr = (sets.foldl rbRgEventAset event').member attr := by
  induction sets generalizing event event' with
  | nil => simp at h
  | cons b sets ih =>
      by_cases hlater : ∃ a ∈ sets, a.attr = attr
      · exact ih hlater _ _
      · -- the first assignment is the last of the attribute
        have hother : ∀ a ∈ sets, a.attr ≠ attr := fun a ha hattr => hlater ⟨a, ha, hattr⟩
        obtain ⟨a, ha, rfl⟩ := h
        obtain rfl : a = b := (List.mem_cons.mp ha).resolve_right fun hin => hlater ⟨a, hin, rfl⟩
        rw [List.foldl_cons, List.foldl_cons, foldl_rbRgEventAset_member_of_ne hother,
          foldl_rbRgEventAset_member_of_ne hother, rbRgEventAset_member, rbRgEventAset_member,
          Function.update_self, Function.update_self]

/-- After an assignment the length is the size of the command. -/
theorem foldl_rbRgEventAset_length {type : EventType} {sets : List (Assignment type)} (hne : sets ≠ [])
    (event : RgEvent) :
    (sets.foldl rbRgEventAset event).length = rgEncodeSize (sets.foldl rbRgEventAset event).data := by
  rcases List.eq_nil_or_concat sets with rfl | ⟨before, a, rfl⟩
  · exact absurd rfl hne
  · rw [List.concat_eq_append, List.foldl_append]
    rfl

/-- The data are of the type of the event. -/
theorem type_data (event : RgEvent) : event.data.type = event.type := by
  obtain ⟨length, type, member⟩ := event
  cases type <;> rfl

/-- The data of an event are those of the members of its type. -/
theorem data_congr {event event' : RgEvent} (htype : event.type = event'.type)
    (h : ∀ attr ∈ event.type.attributes, event.member attr = event'.member attr) :
    event.data = event'.data := by
  obtain ⟨length, type, member⟩ := event
  obtain ⟨length', type', member'⟩ := event'
  obtain rfl : type = type' := htype
  cases type <;> simp [EventType.attributes] at h <;> simp [RgEvent.data, h]

/-- **The event object encodes the event of the request** once all attributes are assigned, whatever
it held before, provided no value of the request raises. -/
theorem filled_encoded (context : HookContext) (request : ρ) (timing : HookTiming)
    (hraises : hook.raises request = false) {base : RgEvent} (htype : base.type = hook.type)
    {memory : EventMemory}
    (hunion : EventMemory.InUnion hook.type
      ((hook.assignments request timing).foldl rbRgEventAset base).member memory)
    (hlength : memory.length
      = ((hook.assignments request timing).foldl rbRgEventAset base).length) :
    EventMemory.rbRgEventEncoded (.event hook.type) memory
        (context.newString memory.length.toNatClampNeg)
      = (hook.event request timing).encoded := by
  obtain ⟨sets, hsets⟩ : ∃ sets, sets = hook.assignments request timing := ⟨_, rfl⟩
  have hall := hook.assigns_all request timing hraises
  rw [← hsets] at hunion hlength hall
  have hpid : .pid ∈ hook.type.attributes := by cases hook.type <;> decide
  have htid : .tid ∈ hook.type.attributes := by cases hook.type <;> decide
  have htimestamp : .timestamp ∈ hook.type.attributes := by cases hook.type <;> decide
  have hne : sets ≠ [] := by
    rintro rfl
    obtain ⟨a, ha, -⟩ := hall .pid hpid
    exact absurd ha List.not_mem_nil
  obtain ⟨event, hevent⟩ : ∃ event, event = sets.foldl rbRgEventAset base := ⟨_, rfl⟩
  have hmembers : ∀ attr ∈ hook.type.attributes,
      event.member attr = (rubyEvent hook.type sets).member attr := by
    intro attr hattr
    rw [hevent]
    exact foldl_rbRgEventAset_congr (hall attr hattr) base (rbRgEventAlloc hook.type)
  have htype' : event.type = hook.type := by rw [hevent, foldl_rbRgEventAset_type, htype]
  have hsize : event.length = rgEncodeSize event.data := by
    rw [hevent]
    exact foldl_rbRgEventAset_length hne base
  have hdata : event.data = (rubyEvent hook.type sets).data := by
    refine data_congr (htype'.trans (rubyEvent_type sets).symm) ?_
    rw [htype']
    exact hmembers
  rw [← hevent] at hunion hlength
  rw [← htype'] at hunion
  have hencoded := hunion.encoded_eq hlength (.inr hsize)
    (context.newString memory.length.toNatClampNeg)
  rw [htype'] at hencoded
  have hbuf : (context.newString memory.length.toNatClampNeg).length
      = event.length.toNatClampNeg := by
    rw [context.length_newString, hlength]
  have hnot : ¬ event.type.Copied := by
    rw [htype']
    rcases hook.of_request with hrequest | hrequest <;> simp [hrequest, EventType.Copied]
  have hpayload : event.payload = event.data.payload := by
    obtain ⟨length, type, member⟩ := event
    obtain rfl : type = hook.type := htype'
    rcases hook.of_request with hrequest | hrequest <;> rw [hrequest] <;> rfl
  have hheader : event.header
      = (hook.event request timing).header (rgEncodeSize (hook.event request timing).data) := by
    simp only [RequestHook.event, Event.header, RgEvent.header, ← hsets]
    rw [← hdata, hsize, hmembers .pid hpid, hmembers .tid htid, hmembers .timestamp htimestamp,
      type_data]
  rw [hencoded, (rbRgEventEncoded_of_not_copied hsize hbuf hnot).1, hheader, hpayload, hdata, hsets]
  rfl

/-! ## The history -/

/-- The requests for which `super` has returned, in this order. -/
def completedOf (os : List (RequestOutput ρ)) : List (ρ × HookTiming) :=
  os.flatMap fun
    | .completed request timing => [(request, timing)]
    | _ => []

/-- A look at the next output: whether `Tracer#noop!` has been called, and with it how a hooked call
ends. -/
def resultStep (noop : Bool) : RequestOutput ρ → Bool × List (Bool × HookResult)
  | .completed _ _ => (noop, [])
  | .ended result => (noop, [(noop, result)])
  | .silenced => (true, [])

/-- How the hooked calls end, in this order, each with whether `Tracer#noop!` has been called
before. -/
def resultsOf (os : List (RequestOutput ρ)) : List (Bool × HookResult) :=
  (Mealy.run resultStep false os).2

@[simp] theorem completedOf_append (os os' : List (RequestOutput ρ)) :
    completedOf (os ++ os') = completedOf os ++ completedOf os' := List.flatMap_append

/-- The results of some more outputs depend on whether `Tracer#noop!` has been called in the first
ones. -/
theorem resultsOf_append (os os' : List (RequestOutput ρ)) :
    resultsOf (os ++ os')
      = resultsOf os ++ (Mealy.run resultStep (Mealy.run resultStep false os).1 os').2 := by
  rw [resultsOf, Mealy.run_append]
  rfl

/-- A hooked call has ended as its request and an earlier `Tracer#noop!` demand. -/
def Ends (hook : RequestHook ρ) (done : ρ × HookTiming) (result : Bool × HookResult) : Prop :=
  result.2 = hook.result result.1 done.1 done.2

/-- The event object is being filled: it is what some event would be after the first assignments. -/
structure Filling (hook : RequestHook ρ) (event : Option EventMemory) (request : ρ)
    (timing : HookTiming) (rest : List (Assignment hook.type)) : Prop where
  exists_base : ∃ (memory : EventMemory) (base : RgEvent) (sets : List (Assignment hook.type)),
    event = some memory ∧ base.type = hook.type ∧ sets ++ rest = hook.assignments request timing ∧
      EventMemory.InUnion hook.type (sets.foldl rbRgEventAset base).member memory ∧
      memory.length = (sets.foldl rbRgEventAset base).length

/-- The request that has completed and is not yet reported, if there is one. -/
inductive Pending (s : Connection hook) : List (ρ × HookTiming) → Prop
  | none (hnone : ∀ thread, ¬ s.Behind thread) : Pending s []
  | one (thread : Nat) (request : ρ) (timing : HookTiming) (rest : List (Assignment hook.type))
      (frames : List (RequestFrame hook))
      (hframes : s.frames thread = .assigning request timing rest :: frames)
      (honly : ∀ other, s.Behind other → other = thread)
      (hfilling : Filling hook s.event request timing rest) : Pending s [(request, timing)]

/-- What a run so far has made of the requests. -/
structure Reported (os : List (RequestOutput ρ)) (s : Connection hook) : Prop where
  /-- Only the innermost call of a thread is behind `super`. -/
  outer : ∀ thread, ∀ frame ∈ (s.frames thread).tail, ¬ frame.Behind
  /-- The event object is one of its class. -/
  memory : ∀ event, s.event = some event → ∃ base : RgEvent, base.type = hook.type ∧
    EventMemory.InUnion hook.type base.member event ∧ event.length = base.length
  /-- The flag tells of the calls of `Tracer#noop!`. -/
  noop : (Mealy.run resultStep false os).1 = s.noop
  /-- Every completed request but the pending one has ended as it is to end. -/
  reports : ∃ done pending, completedOf os = done ++ pending ∧
    List.Forall₂ (Ends hook) done (resultsOf os) ∧ s.Pending pending

/-- A thread whose innermost call assigns attributes is behind `super`. -/
theorem behind_of_top {s : Connection hook} {thread : Nat} {request : ρ} {timing : HookTiming}
    {rest : List (Assignment hook.type)} {frames : List (RequestFrame hook)}
    (h : s.frames thread = .assigning request timing rest :: frames) : s.Behind thread :=
  ⟨.assigning request timing rest, h ▸ List.mem_cons_self .., trivial⟩

/-- The other threads are where they were. -/
theorem behind_update_of_ne {s : Connection hook} {event : Option EventMemory} {thread other : Nat}
    {frames : List (RequestFrame hook)} (hne : other ≠ thread) :
    ({ s with event := event, frames := Function.update s.frames thread frames } :
      Connection hook).Behind other ↔ s.Behind other := by
  rw [Behind, Behind]
  dsimp only
  rw [Function.update_of_ne hne]

/-- A thread behind `super` is there with its innermost call. -/
theorem Reported.not_behind {os : List (RequestOutput ρ)} {s : Connection hook} (h : Reported os s)
    {thread : Nat} {frames : List (RequestFrame hook)} (hframes : s.frames thread = frames)
    (htop : ∀ request timing rest outer, frames ≠ .assigning request timing rest :: outer) :
    ¬ s.Behind thread := by
  rintro ⟨frame, hmem, hbehind⟩
  have houter := h.outer thread
  rw [hframes] at hmem houter
  cases frames with
  | nil => exact absurd hmem List.not_mem_nil
  | cons top outer =>
      rcases List.mem_cons.mp hmem with rfl | hin
      · cases frame with
        | assigning request timing rest => exact htop request timing rest outer rfl
        | plain => exact hbehind
        | inside started => exact hbehind
      · exact houter frame hin hbehind

/-- The innermost call of a thread is replaced, or left. -/
theorem Reported.outer_update {os : List (RequestOutput ρ)} {s : Connection hook} (h : Reported os s)
    {thread : Nat} {top : RequestFrame hook} {frames frames' : List (RequestFrame hook)}
    (hframes : s.frames thread = top :: frames) (hsub : ∀ frame ∈ frames'.tail, frame ∈ frames) :
    ∀ other, ∀ frame ∈ (Function.update s.frames thread frames' other).tail, ¬ frame.Behind := by
  intro other
  by_cases hne : other = thread
  · subst hne
    have houter := h.outer other
    rw [hframes] at houter
    rw [Function.update_self]
    exact fun frame hin => houter frame (hsub frame hin)
  · rw [Function.update_of_ne hne]
    exact h.outer other

/-- A thread that is not behind `super` enters or leaves a call. -/
theorem Reported.quiet {os : List (RequestOutput ρ)} {s : Connection hook} (h : Reported os s)
    {thread : Nat} (hbefore : ¬ s.Behind thread) {frames : List (RequestFrame hook)}
    (hframes : ∀ frame ∈ frames, ¬ frame.Behind) :
    Reported os { s with frames := Function.update s.frames thread frames } := by
  have hself : ¬ ({ s with frames := Function.update s.frames thread frames } :
      Connection hook).Behind thread := by
    rintro ⟨frame, hmem, hbehind⟩
    dsimp only at hmem
    rw [Function.update_self] at hmem
    exact hframes frame hmem hbehind
  have hother : ∀ other, ({ s with frames := Function.update s.frames thread frames } :
      Connection hook).Behind other → s.Behind other := by
    intro other hbehind
    by_cases hne : other = thread
    · subst hne
      exact absurd hbehind hself
    · exact (behind_update_of_ne hne).mp hbehind
  obtain ⟨done, pending, hcompleted, hended, hpending⟩ := h.reports
  refine ⟨?_, h.memory, h.noop, done, pending, hcompleted, hended, ?_⟩
  · intro other
    by_cases hne : other = thread
    · subst hne
      dsimp only
      rw [Function.update_self]
      exact fun frame hin => hframes frame (List.mem_of_mem_tail hin)
    · dsimp only
      rw [Function.update_of_ne hne]
      exact h.outer other
  · cases hpending with
    | none hnone => exact .none fun other hbehind => hnone other (hother other hbehind)
    | one thread' request timing rest outer htop honly hfilling =>
        have hne : thread' ≠ thread := by
          rintro rfl
          exact hbefore (behind_of_top htop)
        exact .one thread' request timing rest outer (by dsimp only; rw [Function.update_of_ne hne, htop])
          (fun other hbehind => honly other (hother other hbehind)) hfilling

/-- `super` returns, and the thread is the only one behind it. -/
theorem Reported.returned {os : List (RequestOutput ρ)} {s : Connection hook} (h : Reported os s)
    {thread : Nat} {started : Int64} {frames : List (RequestFrame hook)}
    (hframes : s.frames thread = .inside started :: frames)
    (hexclusive : ∀ other, s.Behind other → other = thread) (request : ρ) (timing : HookTiming) :
    Reported (os ++ [.completed request timing])
      { s with
        event := some (s.event.getD EventMemory.rbRgEventAlloc)
        frames := Function.update s.frames thread
          (.assigning request timing (hook.assignments request timing) :: frames) } := by
  have hbefore : ¬ s.Behind thread := h.not_behind hframes (by simp)
  have hnone : ∀ other, ¬ s.Behind other := by
    intro other hbehind
    obtain rfl := hexclusive other hbehind
    exact hbefore hbehind
  -- the object is new, or it is the one of the requests before
  have hmemory : ∃ base : RgEvent, base.type = hook.type ∧
      EventMemory.InUnion hook.type base.member (s.event.getD EventMemory.rbRgEventAlloc) ∧
      (s.event.getD EventMemory.rbRgEventAlloc).length = base.length := by
    cases hevent : s.event with
    | none => exact ⟨rbRgEventAlloc hook.type, rfl, EventMemory.inUnion_alloc hook.type, rfl⟩
    | some event => exact h.memory event hevent
  obtain ⟨base, htype, hunion, hlength⟩ := hmemory
  obtain ⟨done, pending, hcompleted, hended, hpending⟩ := h.reports
  have hpending : pending = [] := by
    cases hpending with
    | none _ => rfl
    | one thread' request timing rest outer htop _ _ =>
        exact absurd (behind_of_top htop) (hnone thread')
  subst hpending
  refine ⟨h.outer_update hframes fun frame hin => hin, ?_, ?_, done, [(request, timing)], ?_, ?_, ?_⟩
  · rintro event ⟨⟩
    exact ⟨base, htype, hunion, hlength⟩
  · rw [Mealy.run_append]
    exact h.noop
  · rw [completedOf_append, hcompleted, List.append_nil]
    rfl
  · rw [resultsOf_append]
    exact (List.append_nil (resultsOf os)).symm ▸ hended
  · refine .one thread request timing _ frames (Function.update_self ..) ?_
      ⟨_, base, [], rfl, htype, rfl, hunion, hlength⟩
    intro other hbehind
    by_contra hne
    exact hnone other ((behind_update_of_ne hne).mp hbehind)

/-- The next assignment is carried out. -/
theorem Filling.assign {event : Option EventMemory} {request : ρ} {timing : HookTiming}
    {a : Assignment hook.type} {rest : List (Assignment hook.type)}
    (h : Filling hook event request timing (a :: rest)) :
    ∃ memory memory', event = some memory ∧
      EventMemory.rbRgEventAset (.event hook.type) memory (EventMemory.toCall a) = some memory' ∧
      Filling hook (some memory') request timing rest := by
  obtain ⟨memory, base, sets, rfl, htype, hsets, hunion, hlength⟩ := h
  obtain ⟨memory', hassigned, hunion', hlength'⟩ :=
    EventMemory.foldl_inUnion (sets.foldl rbRgEventAset base) hunion
      ((foldl_rbRgEventAset_type base sets).trans htype) hlength [a]
  refine ⟨memory, memory', rfl, ?_, memory', base, sets ++ [a], rfl, htype, ?_, ?_, ?_⟩
  · simpa using hassigned
  · rw [List.append_assoc, List.singleton_append, hsets]
  · rw [List.foldl_append]
    exact hunion'
  · rw [List.foldl_append]
    exact hlength'

/-- The only thread behind `super` assigns one more attribute. -/
theorem Reported.assigns {os : List (RequestOutput ρ)} {s : Connection hook} (h : Reported os s)
    (context : HookContext) {thread : Nat} {request : ρ} {timing : HookTiming}
    {a : Assignment hook.type} {rest : List (Assignment hook.type)} {frames : List (RequestFrame hook)}
    {done : List (ρ × HookTiming)} (hcompleted : completedOf os = done ++ [(request, timing)])
    (hended : List.Forall₂ (Ends hook) done (resultsOf os))
    (hframes : s.frames thread = .assigning request timing (a :: rest) :: frames)
    (honly : ∀ other, s.Behind other → other = thread)
    (hfilling : Filling hook s.event request timing (a :: rest)) :
    Reported (os ++ (s.advance context thread).2) (s.advance context thread).1 := by
  obtain ⟨memory, memory', hevent, hassigned, hfilling'⟩ := hfilling.assign
  have heq : s.advance context thread =
      ({ s with
        event := some memory'
        frames := Function.update s.frames thread (.assigning request timing rest :: frames) },
        []) := by
    unfold Connection.advance
    rw [hframes, hevent]
    dsimp only
    rw [hassigned]
  rw [heq, List.append_nil]
  obtain ⟨memory'', base, sets, hsome, htype, hsets, hunion, hlength⟩ := hfilling'
  refine ⟨h.outer_update hframes fun frame hin => hin, ?_, h.noop, done,
    [(request, timing)], hcompleted, hended, ?_⟩
  · rintro event ⟨⟩
    obtain rfl : memory' = memory'' := Option.some.inj hsome
    exact ⟨_, (foldl_rbRgEventAset_type base sets).trans htype, hunion, hlength⟩
  · refine .one thread request timing rest frames (Function.update_self ..) ?_
      ⟨memory'', base, sets, hsome, htype, hsets, hunion, hlength⟩
    intro other hbehind
    by_contra hne
    exact hne (honly other ((behind_update_of_ne hne).mp hbehind))

/-- With all attributes assigned, up to one that raises, the hooked call ends as its request
demands. -/
theorem Filling.result {s : Connection hook} {request : ρ} {timing : HookTiming}
    (h : Filling hook s.event request timing []) (context : HookContext) :
    ∃ memory, s.event = some memory ∧
      (if hook.raises request then .raised else rbRgTracerEmit hook context s.noop memory)
        = hook.result s.noop request timing := by
  obtain ⟨memory, base, sets, hevent, htype, hsets, hunion, hlength⟩ := h
  rw [List.append_nil] at hsets
  subst hsets
  refine ⟨memory, hevent, ?_⟩
  rw [RequestHook.result]
  by_cases hraises : hook.raises request = true
  · rw [if_pos hraises, if_pos hraises]
  · rw [if_neg hraises, if_neg hraises, rbRgTracerEmit,
      filled_encoded context request timing (Bool.eq_false_iff.mpr hraises) htype hunion hlength]

/-- The hooked call of the only thread behind `super` ends, as its request demands. -/
theorem Reported.ends {os : List (RequestOutput ρ)} {s : Connection hook} (h : Reported os s)
    (context : HookContext) {thread : Nat} {request : ρ} {timing : HookTiming}
    {frames : List (RequestFrame hook)} {done : List (ρ × HookTiming)}
    (hcompleted : completedOf os = done ++ [(request, timing)])
    (hended : List.Forall₂ (Ends hook) done (resultsOf os))
    (hframes : s.frames thread = .assigning request timing [] :: frames)
    (honly : ∀ other, s.Behind other → other = thread)
    (hfilling : Filling hook s.event request timing []) :
    Reported (os ++ (s.advance context thread).2) (s.advance context thread).1 := by
  obtain ⟨memory, hevent, hresult⟩ := hfilling.result context
  have heq : s.advance context thread =
      ({ s with frames := Function.update s.frames thread frames },
        [.ended (hook.result s.noop request timing)]) := by
    unfold Connection.advance
    rw [hframes, hevent]
    dsimp only
    rw [hresult]
  rw [heq]
  refine ⟨h.outer_update hframes fun frame hin => List.mem_of_mem_tail hin, h.memory, ?_,
    done ++ [(request, timing)], [], ?_, ?_, ?_⟩
  · rw [Mealy.run_append]
    exact h.noop
  · rw [completedOf_append, hcompleted, List.append_nil]
    exact List.append_nil _
  · rw [resultsOf_append, h.noop]
    exact List.rel_append hended (.cons rfl .nil)
  · -- behind the innermost call no other one of the thread is behind `super`
    refine .none fun other hbehind => ?_
    by_cases hne : other = thread
    · subst hne
      obtain ⟨frame, hin, hframe⟩ := hbehind
      dsimp only at hin
      rw [Function.update_self] at hin
      have houter := h.outer other
      rw [hframes] at houter
      exact houter frame hin hframe
    · exact hne (honly other ((behind_update_of_ne hne).mp hbehind))

/-- A thread that is not behind `super` does not move on. -/
theorem advance_of_not_behind {s : Connection hook} (context : HookContext) {thread : Nat}
    (hnot : ¬ s.Behind thread) : s.advance context thread = (s, []) := by
  unfold Connection.advance
  split
  · rename_i hframes _
    exact absurd (behind_of_top hframes) hnot
  · rename_i hframes _
    exact absurd (behind_of_top hframes) hnot
  · rfl

/-- A thread moves on behind `super`, and it is the only one there. -/
theorem Reported.advance {os : List (RequestOutput ρ)} {s : Connection hook} (h : Reported os s)
    (context : HookContext) {thread : Nat}
    (hexclusive : ∀ other, s.Behind other → other = thread) :
    Reported (os ++ (s.advance context thread).2) (s.advance context thread).1 := by
  obtain ⟨done, pending, hcompleted, hended, hpending⟩ := h.reports
  cases hpending with
  | none hnone =>
      rw [advance_of_not_behind context (hnone thread), List.append_nil]
      exact h
  | one thread' request timing rest frames hframes honly hfilling =>
      obtain rfl := hexclusive thread' (behind_of_top hframes)
      cases rest with
      | cons a rest => exact h.assigns context hcompleted hended hframes honly hfilling
      | nil => exact h.ends context hcompleted hended hframes honly hfilling

/-- **Every step** keeps the history, if only one thread at a time is behind `super`. -/
theorem Reported.step {os : List (RequestOutput ρ)} {s : Connection hook} (h : Reported os s)
    (context : HookContext) (input : RequestInput ρ) (hexclusive : s.Exclusive input) :
    Reported (os ++ (s.step context input).2) (s.step context input).1 := by
  -- Where nothing is shown, the history is the same.
  have hquiet : ∀ s' : Connection hook, Reported os s' → Reported (os ++ []) s' := by
    intro s' h'
    rwa [List.append_nil]
  have hinner : ∀ {thread : Nat} {top : RequestFrame hook} {frames : List (RequestFrame hook)},
      s.frames thread = top :: frames → ∀ frame ∈ frames, ¬ frame.Behind := by
    intro thread top frames hframes
    have houter := h.outer thread
    rwa [hframes] at houter
  cases input with
  | enter thread tracer now =>
      rw [Connection.step]
      split
      · exact hquiet _ h
      · rename_i frames htop
        have hnot : ¬ s.Behind thread := h.not_behind rfl htop
        refine hquiet _ (h.quiet hnot (List.forall_mem_cons.mpr ⟨?_, fun frame hin hframe =>
          hnot ⟨frame, hin, hframe⟩⟩))
        cases tracer <;> exact id
  | returned thread now tid request =>
      rw [Connection.step]
      split
      · rename_i frames hframes
        exact hquiet _ (h.quiet (h.not_behind hframes (by simp)) (hinner hframes))
      · rename_i started frames hframes
        exact h.returned hframes hexclusive request _
      · exact hquiet _ h
  | raised thread =>
      rw [Connection.step]
      split
      · rename_i frames hframes
        exact hquiet _ (h.quiet (h.not_behind hframes (by simp)) (hinner hframes))
      · rename_i started frames hframes
        exact hquiet _ (h.quiet (h.not_behind hframes (by simp)) (hinner hframes))
      · exact hquiet _ h
  | advance thread => exact h.advance context hexclusive
  | noop =>
      obtain ⟨done, pending, hcompleted, hended, hpending⟩ := h.reports
      refine ⟨h.outer, h.memory, ?_, done, pending, ?_, ?_, ?_⟩
      · rw [Mealy.run_append]
        rfl
      · rw [completedOf_append, hcompleted]
        exact List.append_nil _
      · rw [resultsOf_append]
        exact (List.append_nil (resultsOf os)).symm ▸ hended
      · cases hpending with
        | none hnone => exact .none hnone
        | one thread request timing rest frames hframes honly hfilling =>
            exact .one thread request timing rest frames hframes honly hfilling

end Connection

end RaygunApm
