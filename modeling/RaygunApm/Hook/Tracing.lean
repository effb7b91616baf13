import RaygunApm.Library.CallForest

/-! # The tracing hook

`rb_rg_tracing_hook_i` on the call and return events of one thread: the methodinfo table with the
discovery of methods, the shadow thread with its stack of function ids, and the guards on the way
in and on the way out. -/

namespace RaygunApm

/-- `RG_SHADOW_STACK_LIMIT`. -/
def rgShadowStackLimit : Nat := 256

/-- `RG_THREAD_FRAMELESS`. -/
def rgThreadFrameless : Int := -1

/-- `rg_method_source_t`. -/
inductive MethodSource where
  | userCode | system | knownLibrary | waitForUserInput | waitForSynchronization | jitCompilation
  | garbageCollection
  deriving DecidableEq

/-- `rg_method_t`. -/
structure RgMethod where
  /-- The id under which the method is reported. -/
  functionId : UInt32
  /-- Where the method comes from. -/
  source : MethodSource
  deriving DecidableEq

/-- The methodinfo table by method hash; a blacklisted method has the entry
`RG_BLACKLIST_BLACKLISTED`, which is `none`. -/
abbrev MethodTable : Type := List (Nat × Option RgMethod)

/-! ## The shadow thread -/

/-- `rg_thread_t`, but for the ids of the thread and its parent. -/
structure ShadowThread where
  /-- Index of the top of the shadow stack. -/
  shadowTop : Int
  /-- Index of the top of the stack of the VM. -/
  vmTop : Int
  /-- `level_deep_into_third_party_lib`. -/
  levelDeepIntoThirdPartyLib : Int
  /-- The memory of the shadow stack. -/
  shadowStack : List UInt32

/-- A shadow thread at the start of a trace. -/
def ShadowThread.fresh : ShadowThread where
  shadowTop := rgThreadFrameless
  vmTop := rgThreadFrameless
  levelDeepIntoThirdPartyLib := 0
  shadowStack := List.replicate rgShadowStackLimit 0

/-- `rb_rg_stack_push`, with the index of the shadow stack that it writes. -/
def rbRgStackPush (thread : ShadowThread) (function : UInt32) : ShadowThread × Int :=
  let top := thread.shadowTop + 1
  ({ thread with shadowTop := top, shadowStack := thread.shadowStack.set top.toNat function }, top)

/-- `rb_rg_stack_pop`, with the index of the shadow stack that it reads. -/
def rbRgStackPop (thread : ShadowThread) : ShadowThread × UInt32 × Int :=
  let top := thread.shadowTop
  ({ thread with shadowTop := top - 1 }, thread.shadowStack.getD top.toNat 0, top)

/-! ## The hook -/

/-- What the hook finds out about the frame of an event. -/
structure Frame where
  /-- The class is the tracer's own, `rb_cRaygunTracer`. -/
  tracerInternal : Bool
  /-- `rb_rg_method_id`. -/
  method : Nat
  /-- The object the method is called on. -/
  instanceId : UInt64
  /-- What the uninitialised `entry` happens to hold at the return. -/
  stale : Option RgMethod

/-- What the hook keeps between events. -/
structure HookState where
  /-- `tracer->methodinfo`. -/
  methodinfo : MethodTable
  /-- `tracer->methods`: the number of methods reported so far. -/
  methods : UInt32
  /-- The shadow thread of the thread the events belong to. -/
  thread : ShadowThread

/-- What the hook emits. -/
inductive HookOutput where
  /-- A method is declared. -/
  | methodinfo (functionId : UInt32) (source : MethodSource)
  /-- A frame begins. -/
  | begin (functionId : UInt32) (instanceId : UInt64)
  /-- A frame ends; `popped` is what the shadow stack held for it. -/
  | end (functionId popped : UInt32)
  deriving DecidableEq

/-- `rb_rg_methodinfo`: enter a method into the table; `classify` says where methods come from, and
has nothing for those that are blacklisted. -/
def rbRgMethodinfo (classify : Nat → Option MethodSource) (method : Nat) (s : HookState) :
    HookState × List HookOutput × Option RgMethod :=
  match classify method with
  | some source =>
      let rgMethod : RgMethod := { functionId := s.methods + 1, source := source }
      ({ s with
          methods := s.methods + 1
          methodinfo := (method, some rgMethod) :: s.methodinfo },
        [.methodinfo rgMethod.functionId source], some rgMethod)
  | none => ({ s with methodinfo := (method, none) :: s.methodinfo }, [], none)

/-- The lookup of the method on the way in. -/
def HookState.resolve (classify : Nat → Option MethodSource) (method : Nat) (s : HookState) :
    HookState × List HookOutput × Option RgMethod :=
  match s.methodinfo.lookup method with
  | some entry => (s, [], entry)
  | none => rbRgMethodinfo classify method s

/-- The rest of the `RUBY_EVENT_CALL` handler, for a method that is not blacklisted. -/
def HookState.begin (rgMethod : RgMethod) (frame : Frame) (s : HookState) :
    HookState × List HookOutput :=
  let level := s.thread.levelDeepIntoThirdPartyLib
  let level := if rgMethod.source = .knownLibrary then level + 1 else level
  let s := { s with thread := { s.thread with levelDeepIntoThirdPartyLib := level } }
  if rgMethod.source = .knownLibrary ∧ level > 1 then (s, [])
  else if rgMethod.source = .waitForSynchronization ∧ level > 1 then (s, [])
  else
    ({ s with thread := (rbRgStackPush s.thread rgMethod.functionId).1 },
      [.begin rgMethod.functionId frame.instanceId])

/-- The `RUBY_EVENT_CALL` handler. -/
def rubyEventCall (classify : Nat → Option MethodSource) (frame : Frame) (s : HookState) :
    HookState × List HookOutput :=
  let s := { s with thread := { s.thread with vmTop := s.thread.vmTop + 1 } }
  if s.thread.shadowTop = (rgShadowStackLimit : Int) - 1 then (s, [])
  else if frame.tracerInternal then (s, [])
  else
    match s.resolve classify frame.method with
    | (s, declared, none) => (s, declared)
    | (s, declared, some rgMethod) =>
        ((s.begin rgMethod frame).1, declared ++ (s.begin rgMethod frame).2)

/-- The rest of the `RUBY_EVENT_RETURN` handler, for a method that is not blacklisted. -/
def HookState.end (rgMethod : RgMethod) (s : HookState) : HookState × List HookOutput :=
  let level := s.thread.levelDeepIntoThirdPartyLib
  let level := if rgMethod.source = .knownLibrary then level - 1 else level
  let s := { s with thread := { s.thread with levelDeepIntoThirdPartyLib := level } }
  if rgMethod.source = .knownLibrary ∧ level > 0 then (s, [])
  else if rgMethod.source = .waitForSynchronization ∧ level > 0 then (s, [])
  else
    let (thread, popped, _) := rbRgStackPop s.thread
    ({ s with thread := thread }, [.end rgMethod.functionId popped])

/-- The `RUBY_EVENT_RETURN` handler. -/
def rubyEventReturn (frame : Frame) (s : HookState) : HookState × List HookOutput :=
  let s := { s with thread := { s.thread with vmTop := s.thread.vmTop - 1 } }
  if s.thread.vmTop ≥ (rgShadowStackLimit : Int) - 1 then (s, [])
  else if s.thread.shadowTop = -1 then (s, [])
  else if frame.tracerInternal then (s, [])
  else
    -- a failed lookup leaves `entry` as it is
    match (s.methodinfo.lookup frame.method).getD frame.stale with
    | none => (s, [])
    | some rgMethod => s.end rgMethod

/-- `rb_rg_tracing_hook_i` on the calls and returns of a thread. -/
def rbRgTracingHookI (classify : Nat → Option MethodSource) (s : HookState) :
    CallEvent Frame → HookState × List HookOutput
  | .call frame => rubyEventCall classify frame s
  | .ret frame => rubyEventReturn frame s

/-! ## The table and the frames that begin -/

/-- One more entry is none for the other methods. -/
theorem MethodTable.lookup_cons_of_ne (table : MethodTable) (entry : Option RgMethod)
    {method method' : Nat} (h : method' ≠ method) :
    ((method, entry) :: table).lookup method' = table.lookup method' := by
  rw [List.lookup_cons, beq_false_of_ne h]

/-- The library level inside a frame from this source. -/
def levelInside (source : MethodSource) (level : Int) : Int :=
  if source = .knownLibrary then level + 1 else level

/-- A frame from this source begins. -/
def Begins (source : MethodSource) (level : Int) : Prop :=
  ¬ (source = .knownLibrary ∧ levelInside source level > 1) ∧
    ¬ (source = .waitForSynchronization ∧ levelInside source level > 1)

instance (source : MethodSource) (level : Int) : Decidable (Begins source level) :=
  inferInstanceAs (Decidable (_ ∧ _))

/-- **What `begin` comes to.** It counts the library level, and shows and pushes the frames that
begin. -/
theorem HookState.begin_eq_ite (m : RgMethod) (frame : Frame) (s : HookState) :
    s.begin m frame =
      if Begins m.source s.thread.levelDeepIntoThirdPartyLib then
        ({ s with thread := (rbRgStackPush { s.thread with
            levelDeepIntoThirdPartyLib :=
              levelInside m.source s.thread.levelDeepIntoThirdPartyLib } m.functionId).1 },
          [.begin m.functionId frame.instanceId])
      else
        ({ s with thread := { s.thread with
            levelDeepIntoThirdPartyLib :=
              levelInside m.source s.thread.levelDeepIntoThirdPartyLib } }, []) := by
  unfold HookState.begin
  dsimp only
  rw [← levelInside]
  by_cases hlibrary : m.source = .knownLibrary ∧
      levelInside m.source s.thread.levelDeepIntoThirdPartyLib > 1
  · rw [if_pos hlibrary, if_neg fun h => h.1 hlibrary]
  · rw [if_neg hlibrary]
    by_cases hsync : m.source = .waitForSynchronization ∧
        levelInside m.source s.thread.levelDeepIntoThirdPartyLib > 1
    · rw [if_pos hsync, if_neg fun h => h.2 hsync]
    · rw [if_neg hsync, if_pos ⟨hlibrary, hsync⟩]

end RaygunApm
