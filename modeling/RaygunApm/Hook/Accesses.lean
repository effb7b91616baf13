import RaygunApm.Hook.Brackets

/-! # Accesses to the shadow stack

Calls, returns and exceptions of one thread, in any order. `rb_rg_stack_push`, `rb_rg_stack_pop` and
`rb_rg_stack_peek` check nothing themselves, so their handlers have to. Those of calls and returns
do, the one of exceptions does not look whether there is a frame: the accesses are in range exactly
if every exception is raised inside a reported frame (`shadowStackInRange_iff`). -/

namespace RaygunApm

/-- `RG_TRACE_ENTRYPOINT_FRAME_ID`. -/
def rgTraceEntrypointFrameId : UInt32 := 1

/-- An exception. -/
structure Raised where
  /-- `rb_eRaygunFatal`, which shuts the tracer down. -/
  fatal : Bool
  /-- The exception object. -/
  exceptionId : UInt64
  /-- What the memory in front of the shadow stack holds. -/
  before : UInt32

/-- An event of a thread. -/
inductive ThreadEvent where
  /-- `RUBY_EVENT_CALL`. -/
  | call (frame : Frame)
  /-- `RUBY_EVENT_RETURN`. -/
  | ret (frame : Frame)
  /-- `RUBY_EVENT_RAISE`. -/
  | raise (raised : Raised)

/-- What can be observed of a handler. -/
inductive ThreadOutput where
  /-- The shadow stack is accessed at an index. -/
  | access (index : Int)
  /-- A call or a return is reported. -/
  | hook (output : HookOutput)
  /-- An exception is reported. -/
  | exceptionThrown (exceptionId : UInt64)

/-- `rb_rg_stack_peek`, with the index of the shadow stack that it reads. -/
def rbRgStackPeek (thread : ShadowThread) (before : UInt32) : UInt32 × Int :=
  let top := thread.shadowTop
  (if top < 0 then before else thread.shadowStack.getD top.toNat 0, top)

/-- The output of a handler with the access in front of it: the handlers push the function of a
frame before they report that it begins, and pop one before they report that it ends. -/
def HookOutput.withAccess (thread : ShadowThread) (o : HookOutput) : List ThreadOutput :=
  match o with
  | .methodinfo _ _ => [.hook o]
  | .begin functionId _ => [.access (rbRgStackPush thread functionId).2, .hook o]
  | .end _ _ => [.access (rbRgStackPop thread).2.2, .hook o]

/-- The `RUBY_EVENT_RAISE` handler. -/
def rubyEventRaise (raised : Raised) (s : HookState) : List ThreadOutput :=
  if raised.fatal then []
  else
    let peeked := rbRgStackPeek s.thread raised.before
    .access peeked.2 ::
      if peeked.1 = rgTraceEntrypointFrameId then []
      else if s.thread.levelDeepIntoThirdPartyLib > 0 then []
      else [.exceptionThrown raised.exceptionId]

/-- `rb_rg_tracing_hook_i` on the events of a thread. -/
def threadStep (classify : Nat → Option MethodSource) (s : HookState) :
    ThreadEvent → HookState × List ThreadOutput
  | .call frame =>
      ((rubyEventCall classify frame s).1,
        (rubyEventCall classify frame s).2.flatMap (HookOutput.withAccess s.thread))
  | .ret frame =>
      ((rubyEventReturn frame s).1,
        (rubyEventReturn frame s).2.flatMap (HookOutput.withAccess s.thread))
  | .raise raised => (s, rubyEventRaise raised s)

/-! ## The property -/

/-- The index is inside the shadow stack. -/
def InShadowStack (index : Int) : Prop := 0 ≤ index ∧ index ≤ (rgShadowStackLimit : Int) - 1

/-- The top of the shadow stack stays in bounds in every state of a run, and every access of the run
is inside the stack. -/
structure ShadowStackInRange (classify : Nat → Option MethodSource) (s : HookState)
    (events : List ThreadEvent) : Prop where
  top : ∀ before, before <+: events →
    -1 ≤ (Mealy.run (threadStep classify) s before).1.thread.shadowTop ∧
      (Mealy.run (threadStep classify) s before).1.thread.shadowTop ≤ (rgShadowStackLimit : Int) - 1
  accesses : ∀ index, .access index ∈ (Mealy.run (threadStep classify) s events).2 →
    InShadowStack index

/-- An exception other than the fatal one is raised inside a reported frame. -/
def RaiseFramed (s : HookState) : ThreadEvent → Prop
  | .raise raised => raised.fatal = true ∨ s.thread.shadowTop ≠ -1
  | _ => True

instance (s : HookState) (e : ThreadEvent) : Decidable (RaiseFramed s e) := by
  unfold RaiseFramed; split <;> infer_instance

/-- The top of the shadow stack is in bounds. -/
def ShadowThread.TopInBounds (thread : ShadowThread) : Prop :=
  -1 ≤ thread.shadowTop ∧ thread.shadowTop ≤ (rgShadowStackLimit : Int) - 1

/-! ## What the handlers do to the shadow stack -/

/-- `begin` pushes what it shows, and shows nothing else. -/
theorem HookState.begin_top (rgMethod : RgMethod) (frame : Frame) (s : HookState) :
    ((s.begin rgMethod frame).2 = [] ∧
        (s.begin rgMethod frame).1.thread.shadowTop = s.thread.shadowTop) ∨
      ((s.begin rgMethod frame).2 = [.begin rgMethod.functionId frame.instanceId] ∧
        (s.begin rgMethod frame).1.thread.shadowTop = s.thread.shadowTop + 1) := by
  rw [s.begin_eq_ite]
  split
  · exact .inr ⟨rfl, rfl⟩
  · exact .inl ⟨rfl, rfl⟩

/-- `resolve` leaves the thread alone and shows no frame. -/
theorem HookState.resolve_thread (classify : Nat → Option MethodSource) (method : Nat)
    (s : HookState) :
    (s.resolve classify method).1.thread = s.thread ∧
      ∀ o ∈ (s.resolve classify method).2.1, ∃ functionId source, o = .methodinfo functionId source := by
  unfold resolve rbRgMethodinfo
  split
  · exact ⟨rfl, by simp⟩
  · split
    · exact ⟨rfl, by simp⟩
    · exact ⟨rfl, by simp⟩

/-- **A call pushes what it shows**, and only onto a stack that is not full. -/
theorem rubyEventCall_top (classify : Nat → Option MethodSource) (frame : Frame) (s : HookState) :
    ∃ declared shown, (rubyEventCall classify frame s).2 = declared ++ shown ∧
      (∀ o ∈ declared, ∃ functionId source, o = HookOutput.methodinfo functionId source) ∧
      ((shown = [] ∧ (rubyEventCall classify frame s).1.thread.shadowTop = s.thread.shadowTop) ∨
        ∃ functionId, shown = [.begin functionId frame.instanceId] ∧
          s.thread.shadowTop ≠ (rgShadowStackLimit : Int) - 1 ∧
          (rubyEventCall classify frame s).1.thread.shadowTop = s.thread.shadowTop + 1) := by
  unfold rubyEventCall
  dsimp only
  by_cases hfull : s.thread.shadowTop = (rgShadowStackLimit : Int) - 1
  · rw [if_pos hfull]
    exact ⟨[], [], rfl, List.forall_mem_nil _, .inl ⟨rfl, rfl⟩⟩
  rw [if_neg hfull]
  by_cases hinternal : frame.tracerInternal = true
  · rw [if_pos hinternal]
    exact ⟨[], [], rfl, List.forall_mem_nil _, .inl ⟨rfl, rfl⟩⟩
  rw [if_neg hinternal]
  -- past the guards, `resolve` leaves the stack to `begin`
  obtain ⟨hthread, hdeclared⟩ := HookState.resolve_thread classify frame.method
    { s with thread := { s.thread with vmTop := s.thread.vmTop + 1 } }
  generalize HookState.resolve classify frame.method _ = resolved at hthread hdeclared ⊢
  obtain ⟨s', declared, entry⟩ := resolved
  have htop : s'.thread.shadowTop = s.thread.shadowTop := (congrArg ShadowThread.shadowTop hthread :)
  cases entry with
  | none => exact ⟨declared, [], (List.append_nil _).symm, hdeclared, .inl ⟨rfl, htop⟩⟩
  | some rgMethod =>
      refine ⟨declared, (s'.begin rgMethod frame).2, rfl, hdeclared, ?_⟩
      rcases s'.begin_top rgMethod frame with ⟨hos, hkeep⟩ | ⟨hos, hpush⟩
      · exact .inl ⟨hos, hkeep.trans htop⟩
      · exact .inr ⟨rgMethod.functionId, hos, hfull, by rw [← htop]; exact hpush⟩

/-- **A return pops what it shows**, and only from a stack that is not empty. -/
theorem rubyEventReturn_top (frame : Frame) (s : HookState) :
    ((rubyEventReturn frame s).2 = [] ∧
        (rubyEventReturn frame s).1.thread.shadowTop = s.thread.shadowTop) ∨
      ∃ functionId popped, (rubyEventReturn frame s).2 = [.end functionId popped] ∧
        s.thread.shadowTop ≠ -1 ∧
        (rubyEventReturn frame s).1.thread.shadowTop = s.thread.shadowTop - 1 := by
  unfold rubyEventReturn
  dsimp only
  split
  · exact .inl ⟨rfl, rfl⟩
  · split
    · exact .inl ⟨rfl, rfl⟩
    · rename_i hframes
      split
      · exact .inl ⟨rfl, rfl⟩
      · split
        · exact .inl ⟨rfl, rfl⟩
        · rename_i rgMethod _
          unfold HookState.end rbRgStackPop
          dsimp only
          -- whatever the level, a frame is popped if and only if it is shown
          generalize (if rgMethod.source = .knownLibrary then s.thread.levelDeepIntoThirdPartyLib - 1
            else s.thread.levelDeepIntoThirdPartyLib) = level
          split
          · exact .inl ⟨rfl, rfl⟩
          · split
            · exact .inl ⟨rfl, rfl⟩
            · exact .inr ⟨_, _, rfl, hframes, rfl⟩

/-- **The top stays in bounds**, whatever the event. -/
theorem topInBounds_threadStep (classify : Nat → Option MethodSource) (s : HookState)
    (e : ThreadEvent) (h : s.thread.TopInBounds) : (threadStep classify s e).1.thread.TopInBounds := by
  obtain ⟨hlow, hhigh⟩ := h
  cases e with
  | call frame =>
      obtain ⟨_, _, _, _, ⟨-, hkeep⟩ | ⟨_, -, hroom, hpush⟩⟩ := rubyEventCall_top classify frame s
      · rw [threadStep, ShadowThread.TopInBounds, hkeep]
        exact ⟨hlow, hhigh⟩
      · -- the guard has left room for one more
        rw [threadStep, ShadowThread.TopInBounds, hpush]
        omega
  | ret frame =>
      obtain ⟨-, hkeep⟩ | ⟨_, _, -, hframes, hpop⟩ := rubyEventReturn_top frame s
      · rw [threadStep, ShadowThread.TopInBounds, hkeep]
        exact ⟨hlow, hhigh⟩
      · rw [threadStep, ShadowThread.TopInBounds, hpop]
        omega
  | raise raised => exact ⟨hlow, hhigh⟩

/-- The accesses of an output are in the shadow stack. -/
def ThreadOutput.InRange (o : ThreadOutput) : Prop := ∀ index, o = .access index → InShadowStack index

/-- The accesses for a declaration: there are none. -/
theorem inRange_of_methodinfo {declared : List HookOutput} (thread : ShadowThread)
    (h : ∀ o ∈ declared, ∃ functionId source, o = HookOutput.methodinfo functionId source) :
    ∀ o ∈ declared.flatMap (HookOutput.withAccess thread), o.InRange := by
  intro o ho index heq
  obtain ⟨o', ho', hmem⟩ := List.mem_flatMap.mp ho
  obtain ⟨functionId, source, rfl⟩ := h o' ho'
  rw [HookOutput.withAccess, List.mem_singleton, heq] at hmem
  cases hmem

/-- **The accesses of a step** are in range exactly if no exception is raised outside of the
reported frames. -/
theorem inRange_threadStep_iff (classify : Nat → Option MethodSource) (s : HookState)
    (e : ThreadEvent) (h : s.thread.TopInBounds) :
    (∀ o ∈ (threadStep classify s e).2, o.InRange) ↔ RaiseFramed s e := by
  obtain ⟨hlow, hhigh⟩ := h
  cases e with
  | call frame =>
      -- a push writes one above the top, which the guard has found below the last index
      refine iff_of_true ?_ trivial
      obtain ⟨declared, shown, hos, hdeclared, hshown⟩ := rubyEventCall_top classify frame s
      rw [threadStep, hos, List.flatMap_append, List.forall_mem_append]
      refine ⟨inRange_of_methodinfo _ hdeclared, ?_⟩
      rcases hshown with ⟨rfl, -⟩ | ⟨functionId, rfl, hroom, -⟩
      · exact List.forall_mem_nil _
      · simp only [HookOutput.withAccess, rbRgStackPush, List.flatMap_cons, List.flatMap_nil,
          List.append_nil, List.forall_mem_cons, ThreadOutput.InRange, InShadowStack,
          ThreadOutput.access.injEq, forall_eq', reduceCtorEq, false_implies, implies_true,
          List.not_mem_nil, and_true]
        omega
  | ret frame =>
      -- a pop reads at the top, which the guard has found not to be -1
      refine iff_of_true ?_ trivial
      rcases rubyEventReturn_top frame s with ⟨hos, -⟩ | ⟨functionId, popped, hos, hframes, -⟩
      · rw [threadStep, hos]
        exact List.forall_mem_nil _
      · rw [threadStep, hos]
        simp only [HookOutput.withAccess, rbRgStackPop, List.flatMap_cons, List.flatMap_nil,
          List.append_nil, List.forall_mem_cons, ThreadOutput.InRange, InShadowStack,
          ThreadOutput.access.injEq, forall_eq', reduceCtorEq, false_implies, implies_true,
          List.not_mem_nil, and_true]
        omega
  | raise raised =>
      rw [threadStep, rubyEventRaise, RaiseFramed]
      -- the handler peeks at the top without a guard
      by_cases hfatal : raised.fatal = true
      · rw [if_pos hfatal]
        exact iff_of_true (List.forall_mem_nil _) (.inl hfatal)
      · have hrest : ∀ o ∈ (if (rbRgStackPeek s.thread raised.before).1 = rgTraceEntrypointFrameId then []
            else if s.thread.levelDeepIntoThirdPartyLib > 0 then []
            else [ThreadOutput.exceptionThrown raised.exceptionId]), o.InRange := by
          intro o ho index heq
          subst heq
          split at ho
          · cases ho
          · split at ho
            · cases ho
            · cases List.mem_singleton.mp ho
        rw [if_neg hfatal, List.forall_mem_cons, or_iff_right hfatal]
        simp only [ThreadOutput.InRange, ThreadOutput.access.injEq, forall_eq', InShadowStack,
          rbRgStackPeek] at hrest ⊢
        constructor
        · rintro ⟨⟨hpos, -⟩, -⟩
          omega
        · intro hframes
          exact ⟨by omega, hrest⟩

/-! ## Runs -/

/-- **Accesses to the shadow stack.** From a fresh shadow thread, they are all in range if and only
if every exception but the fatal one is raised inside a reported frame. -/
theorem shadowStackInRange_iff (classify : Nat → Option MethodSource) (methodinfo : MethodTable)
    (methods : UInt32) (events : List ThreadEvent) :
    ShadowStackInRange classify (.fresh methodinfo methods) events ↔
      Mealy.AllSteps (threadStep classify) RaiseFramed (.fresh methodinfo methods) events := by
  have hfresh : ShadowThread.fresh.TopInBounds := ⟨le_rfl, by decide⟩
  have hstep := topInBounds_threadStep classify
  rw [← Mealy.run_outputs_iff (P := fun s : HookState => s.thread.TopInBounds) hstep
    (inRange_threadStep_iff classify) hfresh events]
  constructor
  · intro h o ho index heq
    exact h.accesses index (heq ▸ ho)
  · intro h
    refine ⟨fun before _ => ?_, fun index hindex => h _ hindex index rfl⟩
    exact Mealy.run_invariant (P := fun s : HookState => s.thread.TopInBounds) hstep hfresh before

/-- An exception in user code, whose frame is on the shadow stack. -/
example : Mealy.AllSteps (threadStep fun _ => some .userCode) RaiseFramed (.fresh [] 0)
    [.call ⟨false, 0, 0, none⟩, .raise ⟨false, 7, 0⟩, .ret ⟨false, 0, 0, none⟩] := by decide

/-- The first event of a thread is an exception: the memory in front of the shadow stack is read. -/
theorem not_shadowStackInRange_raise :
    ¬ ShadowStackInRange (fun _ => some .userCode) (.fresh [] 0) [.raise ⟨false, 7, 0⟩] :=
  fun h => absurd (h.accesses (-1) (.head _)).1 (by decide)

end RaygunApm
