import RaygunApm.Hook.Discovery
import RaygunApm.Library.Declarations
import RaygunApm.Library.Mealy

/-! # Declaration and resync of methods

A batched sink lets other threads run before it returns, so a thread that has discovered a method
may see other calls, new rules and a resync pass of the timer between its METHODINFO and its BEGIN.
The machine below takes the `RUBY_EVENT_CALL` handler and `rb_rg_async_emit_methodinfos` apart at
their calls of the sink. A rule frees the methods of the table, also those that such threads hold.
When the sink does not yield, the machine is the handler as a whole (`syncStep_call_resume`). -/

namespace RaygunApm

open Declarations

/-! ## The machine -/

/-- METHODINFO. -/
structure Methodinfo where
  functionId : UInt32
  source : MethodSource
  className : CString
  methodName : CString

/-- The fully qualified name that a METHODINFO declares. -/
def Methodinfo.name (info : Methodinfo) : Bytes := fullyQualified info.className info.methodName

/-- A thread between the METHODINFO of a method it has discovered and the rest of its handler. -/
structure Discovering where
  /-- What `rb_rg_methodinfo` returns. -/
  rgMethod : RgMethod
  /-- The frame of the call. -/
  frame : Frame
  /-- The method has been freed. -/
  freed : Bool

/-- How far the timer thread is in `rb_rg_async_emit_methodinfos`. -/
inductive ResyncPass where
  /-- The process frequency has been sent. -/
  | frequency
  /-- The process type has been sent. -/
  | processType
  /-- `st_foreach` walks over the table; `pending` are the methods it has found there and not yet
  visited. -/
  | walking (pending : List Nat)

/-- The hook with the threads that yield in the sink. -/
structure SyncedHook where
  /-- The hook. -/
  hook : RuledHook
  /-- `encoded`, the METHODINFO that the entry of a method keeps. -/
  encoded : Nat → Option Methodinfo
  /-- The threads that discover a method. -/
  discovering : Nat → Option Discovering
  /-- The resync pass in progress. -/
  pass : Option ResyncPass

/-- The hook of a new tracer. -/
def SyncedHook.new : SyncedHook where
  hook := .new
  encoded _ := none
  discovering _ := none
  pass := none

/-- What reaches the sink, and where passes begin and end. -/
inductive SyncOutput where
  | methodinfo (info : Methodinfo)
  | begin (functionId : UInt32) (instanceId : UInt64)
  | processFrequency
  | processType
  | passStarted
  | passCompleted

/-- What happens to the hook. -/
inductive SyncEvent where
  /-- `add_blacklist` or `add_whitelist`. -/
  | addRule (r : Rule)
  /-- `RUBY_EVENT_CALL`, up to the first call of the sink, with the byte that the classifier would
  find in its buffer. -/
  | call (thread : Nat) (frame : Frame) (traced : TracedMethod) (garbage : UInt8)
  /-- The sink returns to a thread that has discovered a method. `stale` is what is left of the
  method if it has been freed. -/
  | resume (thread : Nat) (stale : RgMethod)
  /-- The thread is killed or gets an exception while it yields: there is no rest of its handler. -/
  | interrupt (thread : Nat)
  /-- Another handler, which leaves the table alone, has changed the shadow thread. -/
  | other (thread : Nat) (shadow : ShadowThread)
  /-- The timer begins a pass. -/
  | startPass
  /-- The sink returns to the timer, which has not begun to walk yet. -/
  | continuePass
  /-- `rb_rg_async_emit_methodinfo_i` on the entry of a method. -/
  | visit (method : Nat)
  /-- The walk ends. -/
  | finishPass

/-- The frames that begin. -/
def begunFrames (os : List HookOutput) : List SyncOutput :=
  os.filterMap fun
    | .begin functionId instanceId => some (.begin functionId instanceId)
    | _ => none

/-- The configuration, with what the call says about its method. -/
def HookConfig.tracing (config : HookConfig) (traced : TracedMethod) : HookConfig :=
  { config with method := fun _ => traced }

/-- The METHODINFO that `rg_methodinfo` encodes and keeps. -/
def Methodinfo.of (rgMethod : RgMethod) (traced : TracedMethod) : Methodinfo where
  functionId := rgMethod.functionId
  source := rgMethod.source
  className := (rbRgFillClassAndMethod traced).1
  methodName := (rbRgFillClassAndMethod traced).2

/-- The hook after a handler on a thread. -/
def SyncedHook.put (s : SyncedHook) (thread : Nat) (h : HookState) : SyncedHook :=
  { s with hook := s.hook.put thread h }

/-- The `RUBY_EVENT_CALL` handler. After a METHODINFO, the sink yields. Nothing yields before, so
the second lookup of `rb_rg_methodinfo` finds as little as the first one. -/
def SyncedHook.call (config : HookConfig) (s : SyncedHook) (thread : Nat) (frame : Frame)
    (traced : TracedMethod) (garbage : UInt8) : SyncedHook × List SyncOutput :=
  let h := (s.hook.on thread).entered
  if (s.hook.on thread).PassesCall frame then
    match h.methodinfo.lookup frame.method with
    | some none => (s.put thread h, [])
    | some (some rgMethod) =>
        (s.put thread (h.begin rgMethod frame).1, begunFrames (h.begin rgMethod frame).2)
    | none =>
        match rbRgMethodinfo ((config.tracing traced).classifyMethod s.hook.lists garbage)
          frame.method h with
        | (h, _, none) => (s.put thread h, [])
        | (h, _, some rgMethod) =>
            ({ s.put thread h with
                encoded := Function.update s.encoded frame.method (some (.of rgMethod traced))
                discovering :=
                  Function.update s.discovering thread (some ⟨rgMethod, frame, false⟩) },
              [.methodinfo (.of rgMethod traced)])
  else (s.put thread h, [])

/-- The rest of the `RUBY_EVENT_CALL` handler, after the METHODINFO. -/
def SyncedHook.resume (s : SyncedHook) (thread : Nat) (d : Discovering) (stale : RgMethod) :
    SyncedHook × List SyncOutput :=
  -- the method is read from where the table had it
  let begun := (s.hook.on thread).begin (if d.freed then stale else d.rgMethod) d.frame
  ({ s.put thread begun.1 with discovering := Function.update s.discovering thread none },
    begunFrames begun.2)

/-- A walk over a table that is emptied has nothing left to visit. -/
def ResyncPass.flushed : ResyncPass → ResyncPass
  | .walking _ => .walking []
  | pass => pass

/-- `rb_rg_flush_caches`, as far as others hold what it frees. -/
def SyncedHook.flushed (s : SyncedHook) : SyncedHook :=
  { s with
      discovering := fun thread => (s.discovering thread).map fun d => { d with freed := true }
      pass := s.pass.map ResyncPass.flushed }

/-- `add_blacklist` and `add_whitelist`. -/
def SyncedHook.addRule (s : SyncedHook) (r : Rule) : SyncedHook :=
  if r.Effective then { s.flushed with hook := s.hook.addRule r } else s

/-- `rb_rg_async_emit_methodinfos` up to the first call of the sink. -/
def SyncedHook.startPass (s : SyncedHook) : SyncedHook × List SyncOutput :=
  if s.hook.methodinfo = [] then (s, [.passStarted, .passCompleted])
  else ({ s with pass := some .frequency }, [.passStarted, .processFrequency])

/-- `rb_rg_async_emit_methodinfo_i`. -/
def SyncedHook.visit (s : SyncedHook) (pending : List Nat) (method : Nat) :
    SyncedHook × List SyncOutput :=
  -- the walk does not come back to an entry
  let s' := { s with pass := some (.walking (pending.filter (· ≠ method))) }
  match s.hook.methodinfo.lookup method with
  | none => (s, [])
  | some none => (s', [])
  | some (some _) => (s', (s.encoded method).toList.map .methodinfo)

/-- The hook, from one call of the sink to the next. What cannot happen in a state changes nothing.
-/
def syncStep (config : HookConfig) (s : SyncedHook) : SyncEvent → SyncedHook × List SyncOutput
  | .addRule r => (s.addRule r, [])
  | .call thread frame traced garbage =>
      match s.discovering thread with
      | some _ => (s, [])
      | none => s.call config thread frame traced garbage
  | .resume thread stale =>
      match s.discovering thread with
      | some d => s.resume thread d stale
      | none => (s, [])
  | .interrupt thread =>
      ({ s with discovering := Function.update s.discovering thread none }, [])
  | .other thread shadow =>
      ({ s with hook := { s.hook with
          threads := Function.update s.hook.threads thread shadow } }, [])
  | .startPass =>
      match s.pass with
      | some _ => (s, [])
      | none => s.startPass
  | .continuePass =>
      match s.pass with
      | some .frequency => ({ s with pass := some .processType }, [.processType])
      | some .processType =>
          ({ s with pass := some (.walking (s.hook.methodinfo.map Prod.fst)) }, [])
      | _ => (s, [])
  | .visit method =>
      match s.pass with
      | some (.walking pending) => s.visit pending method
      | _ => (s, [])
  | .finishPass =>
      match s.pass with
      -- `st_foreach` leaves out none of the entries that stay in the table
      | some (.walking []) => ({ s with pass := none }, [.passCompleted])
      | _ => (s, [])

/-! ## The property -/

/-- What an output declares or uses. -/
def SyncOutput.item : SyncOutput → Item UInt32 Bytes
  | .methodinfo info => .declare info.functionId info.name
  | .begin functionId _ => .use functionId
  | .passStarted => .started
  | .passCompleted => .completed
  | .processFrequency | .processType => .other

/-- **Function ids are declared before use** when these events happen to a new tracer. -/
def DeclaresBeforeUse (config : HookConfig) (events : List SyncEvent) : Prop :=
  DeclaredBeforeUse ((Mealy.run (syncStep config) .new events).2.map SyncOutput.item)

/-- The call discovers a method that is not blacklisted. -/
def SyncedHook.Discovers (config : HookConfig) (s : SyncedHook) (thread : Nat) (frame : Frame)
    (traced : TracedMethod) (garbage : UInt8) : Prop :=
  s.discovering thread = none ∧ (s.hook.on thread).PassesCall frame ∧
    s.hook.methodinfo.lookup frame.method = none ∧
    (config.tracing traced).classifyMethod s.hook.lists garbage frame.method ≠ none

/-- No effective rule comes while a thread is between METHODINFO and BEGIN, and the counter of
methods does not wrap. -/
def Undisturbed (config : HookConfig) (s : SyncedHook) : SyncEvent → Prop
  | .addRule r => r.Effective → ∀ thread, s.discovering thread = none
  | .call thread frame traced garbage => s.Discovers config thread frame traced garbage →
      s.hook.methods.toNat + 1 < UInt32.size
  | _ => True

/-! ## Calls -/

/-- The table has an entry for a method, which is not blacklisted. -/
def SyncedHook.Holds (s : SyncedHook) (method : Nat) (m : RgMethod) : Prop :=
  s.hook.methodinfo.lookup method = some (some m)

/-- What `begin` emits of a method: its id, if its frame begins. -/
theorem begunFrames_begin (m : RgMethod) (frame : Frame) (h : HookState) :
    begunFrames (h.begin m frame).2 = [] ∨
      begunFrames (h.begin m frame).2 = [.begin m.functionId frame.instanceId] := by
  rw [h.begin_eq_ite]
  split
  · exact .inr rfl
  · exact .inl rfl

/-- What a call comes to, up to the first call of the sink. -/
inductive CallSyncs (config : HookConfig) (s : SyncedHook) (thread : Nat) (frame : Frame)
    (traced : TracedMethod) (garbage : UInt8) : SyncedHook × List SyncOutput → Prop
  /-- The call does not get past the guards, or the table says that the method is blacklisted. -/
  | ignored :
      ¬ (s.hook.on thread).PassesCall frame ∨ (s.hook.on thread).PassesCall frame ∧
        s.hook.methodinfo.lookup frame.method = some none →
      CallSyncs config s thread frame traced garbage (s.put thread (s.hook.on thread).entered, [])
  /-- The table has an entry. -/
  | known (m : RgMethod) : (s.hook.on thread).PassesCall frame → s.Holds frame.method m →
      CallSyncs config s thread frame traced garbage
        (s.put thread ((s.hook.on thread).entered.begin m frame).1,
          begunFrames ((s.hook.on thread).entered.begin m frame).2)
  /-- The method is discovered and blacklisted. -/
  | blacklisted : (s.hook.on thread).PassesCall frame →
      s.hook.methodinfo.lookup frame.method = none →
      (config.tracing traced).classifyMethod s.hook.lists garbage frame.method = none →
      CallSyncs config s thread frame traced garbage
        (s.put thread { (s.hook.on thread).entered with
          methodinfo := (frame.method, none) :: s.hook.methodinfo }, [])
  /-- The method is discovered and declared. -/
  | discovered (m : RgMethod) : (s.hook.on thread).PassesCall frame →
      s.hook.methodinfo.lookup frame.method = none →
      (config.tracing traced).classifyMethod s.hook.lists garbage frame.method = some m.source →
      m.functionId = s.hook.methods + 1 →
      CallSyncs config s thread frame traced garbage
        ({ s.put thread { (s.hook.on thread).entered with
              methods := s.hook.methods + 1
              methodinfo := (frame.method, some m) :: s.hook.methodinfo } with
            encoded := Function.update s.encoded frame.method (some (.of m traced))
            discovering := Function.update s.discovering thread (some ⟨m, frame, false⟩) },
          [.methodinfo (.of m traced)])

/-- **A call, up to the first call of the sink.** -/
theorem SyncedHook.callSyncs (config : HookConfig) (s : SyncedHook) (thread : Nat) (frame : Frame)
    (traced : TracedMethod) (garbage : UInt8) :
    CallSyncs config s thread frame traced garbage (s.call config thread frame traced garbage) := by
  unfold SyncedHook.call
  dsimp only
  by_cases hpasses : (s.hook.on thread).PassesCall frame
  · rw [if_pos hpasses]
    have htable : (s.hook.on thread).entered.methodinfo = s.hook.methodinfo := rfl
    rw [htable]
    cases hlookup : s.hook.methodinfo.lookup frame.method with
    | some entry =>
        cases entry with
        | none => exact .ignored (.inr ⟨hpasses, hlookup⟩)
        | some m => exact .known m hpasses hlookup
    | none =>
        dsimp only
        unfold rbRgMethodinfo
        cases hclassify : (config.tracing traced).classifyMethod s.hook.lists garbage frame.method with
        | none => exact .blacklisted hpasses hlookup hclassify
        | some source => exact .discovered ⟨s.hook.methods + 1, source⟩ hpasses hlookup hclassify rfl
  · rw [if_neg hpasses]
    exact .ignored (.inl hpasses)

/-! ## Without yields -/

/-- What the hook emits for a call. -/
def SyncOutput.hookOutput : SyncOutput → Option HookOutput
  | .methodinfo info => some (.methodinfo info.functionId info.source)
  | .begin functionId instanceId => some (.begin functionId instanceId)
  | _ => none

/-- The state put on a thread is the state of the thread. -/
@[simp] theorem RuledHook.put_on (s : RuledHook) (thread : Nat) (h : HookState) :
    (s.put thread h).on thread = h := by
  simp [RuledHook.put, RuledHook.on]

/-- Of two states put on a thread the second one stays. -/
@[simp] theorem RuledHook.put_put (s : RuledHook) (thread : Nat) (h h' : HookState) :
    (s.put thread h).put thread h' = s.put thread h' := by
  simp [RuledHook.put]

/-- `begin` emits nothing but frames that begin. -/
theorem filterMap_begunFrames (m : RgMethod) (frame : Frame) (h : HookState) :
    (begunFrames (h.begin m frame).2).filterMap SyncOutput.hookOutput = (h.begin m frame).2 := by
  rw [h.begin_eq_ite]
  split <;> rfl

section Resolve

variable {classify : Nat → Option MethodSource} {method : Nat} {h : HookState}

/-- A method with an entry is resolved to it, without an output. -/
theorem HookState.resolve_of_some (classify : Nat → Option MethodSource) {entry : Option RgMethod}
    (hlookup : h.methodinfo.lookup method = some entry) :
    h.entered.resolve classify method = (h.entered, [], entry) := by
  have htable : h.entered.methodinfo = h.methodinfo := rfl
  rw [HookState.resolve, htable, hlookup]

/-- A blacklisted method without an entry is given an empty one, without an output. -/
theorem HookState.resolve_of_blacklisted (hlookup : h.methodinfo.lookup method = none)
    (hclassify : classify method = none) :
    h.entered.resolve classify method
      = ({ h.entered with methodinfo := (method, none) :: h.methodinfo }, [], none) := by
  have htable : h.entered.methodinfo = h.methodinfo := rfl
  rw [HookState.resolve, htable, hlookup]
  dsimp only
  rw [rbRgMethodinfo, hclassify]
  rfl

/-- A whitelisted method without an entry is given the next id and announced. -/
theorem HookState.resolve_of_whitelisted {m : RgMethod}
    (hlookup : h.methodinfo.lookup method = none) (hclassify : classify method = some m.source)
    (hid : m.functionId = h.methods + 1) :
    h.entered.resolve classify method
      = ({ h.entered with
            methods := h.methods + 1
            methodinfo := (method, some m) :: h.methodinfo },
          [.methodinfo m.functionId m.source], some m) := by
  obtain ⟨functionId, source⟩ := m
  obtain rfl : functionId = h.methods + 1 := hid
  have htable : h.entered.methodinfo = h.methodinfo := rfl
  rw [HookState.resolve, htable, hlookup]
  dsimp only
  rw [rbRgMethodinfo, hclassify]
  rfl

end Resolve

/-- A thread that does not discover a method has nothing left to do when the sink returns. -/
theorem syncStep_resume_of_none (config : HookConfig) {s : SyncedHook} {thread : Nat}
    (h : s.discovering thread = none) (stale : RgMethod) :
    syncStep config s (.resume thread stale) = (s, []) := by
  rw [syncStep, h]

/-- **A call whose sink does not yield** is the `RUBY_EVENT_CALL` handler. -/
theorem syncStep_call_resume (config : HookConfig) {s : SyncedHook} {thread : Nat}
    (h : s.discovering thread = none) (frame : Frame) (garbage : UInt8) (stale : RgMethod) :
    (Mealy.run (syncStep config) s
        [.call thread frame (config.method frame.method) garbage, .resume thread stale]).1.hook
        = (s.hook.call config thread frame garbage).1 ∧
      (Mealy.run (syncStep config) s
        [.call thread frame (config.method frame.method) garbage, .resume thread stale]).2.filterMap
          SyncOutput.hookOutput = (s.hook.call config thread frame garbage).2 := by
  have hcall : syncStep config s (.call thread frame (config.method frame.method) garbage)
      = s.call config thread frame (config.method frame.method) garbage := by
    rw [syncStep, h]
  have htracing : (config.tracing (config.method frame.method)).classifyMethod s.hook.lists garbage
      frame.method = config.classifyMethod s.hook.lists garbage frame.method := rfl
  have hput : ∀ hook, (s.put thread hook).discovering thread = none := fun _ => h
  have hsync := s.callSyncs config thread frame (config.method frame.method) garbage
  rw [Mealy.run_cons, Mealy.run_singleton, hcall, RuledHook.call]
  generalize s.call config thread frame _ garbage = called at hsync ⊢
  cases hsync with
  | ignored hwhy =>
      dsimp only
      rw [syncStep_resume_of_none config (hput _)]
      rcases hwhy with hpasses | ⟨hpasses, hlookup⟩
      · rw [rubyEventCall_of_not_passes _ hpasses]
        exact ⟨rfl, rfl⟩
      · rw [rubyEventCall_of_none hpasses (HookState.resolve_of_some _ hlookup)]
        exact ⟨rfl, rfl⟩
  | known m hpasses hlookup =>
      dsimp only
      rw [syncStep_resume_of_none config (hput _),
        rubyEventCall_of_some hpasses (HookState.resolve_of_some _ hlookup), List.append_nil]
      exact ⟨rfl, filterMap_begunFrames m frame _⟩
  | blacklisted hpasses hlookup hclassify =>
      rw [htracing] at hclassify
      dsimp only
      rw [syncStep_resume_of_none config (hput _),
        rubyEventCall_of_none hpasses (HookState.resolve_of_blacklisted hlookup hclassify)]
      exact ⟨rfl, rfl⟩
  | discovered m hpasses hlookup hclassify hid =>
      have hresume : ∀ s' : SyncedHook, s'.discovering thread = some ⟨m, frame, false⟩ →
          syncStep config s' (.resume thread stale) = s'.resume thread ⟨m, frame, false⟩ stale := by
        intro s' hs'
        rw [syncStep, hs']
      rw [htracing] at hclassify
      dsimp only
      rw [hresume _ (Function.update_self _ _ _),
        rubyEventCall_of_some hpasses (HookState.resolve_of_whitelisted hlookup hclassify hid)]
      -- the thread finds its own shadow thread as it has left it
      have hon : ∀ hook, (s.hook.put thread hook).on thread = hook := RuledHook.put_on s.hook thread
      unfold SyncedHook.resume
      dsimp only [SyncedHook.put]
      rw [hon, if_neg Bool.false_ne_true, RuledHook.put_put, List.filterMap_append,
        filterMap_begunFrames]
      exact ⟨rfl, rfl⟩

end RaygunApm
