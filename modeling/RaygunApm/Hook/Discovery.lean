import Mathlib.Logic.Function.Basic
import RaygunApm.Hook.Tracing
import RaygunApm.Rules.Classifier
import RaygunApm.Wire.Scalar

/-! # Discovery of methods

What `rb_rg_methodinfo` does with a method that the methodinfo table does not hold: it forms the
name to look up in the rules, asks the classifier, and finds out where the method comes from. The
hook with its rules, and with the shadow threads of all threads, is `RuledHook`: a rule empties the
table (`addRule`), and a call goes through the `RUBY_EVENT_CALL` handler with the rules in force
(`call`). -/

namespace RaygunApm

/-! ## Names -/

/-- The bytes of an ASCII string. -/
def ascii (s : String) : Bytes := s.toList.map fun c => UInt8.ofNat c.toNat

/-- A method as the trace argument of an event shows it. -/
structure TracedMethod where
  /-- The path of its class. -/
  className : CString
  /-- The name of the method. -/
  methodName : CString
  /-- The file it is defined in. -/
  path : CString

/-- `tracer->builtin_translator`. -/
def builtinTranslator : List (Bytes × CString) :=
  [(ascii "Raygun::Apm::Hooks::Object", ⟨ascii "Object", by decide⟩),
    (ascii "Raygun::Apm::Hooks::IO", ⟨ascii "IO", by decide⟩),
    (ascii "Raygun::Apm::Hooks::Random", ⟨ascii "Random", by decide⟩),
    (ascii "Raygun::Apm::Hooks::Signal", ⟨ascii "Signal", by decide⟩),
    (ascii "Raygun::Apm::Hooks::Mutex", ⟨ascii "Thread::Mutex", by decide⟩)]

/-- `tracer->synchronization_methods`. -/
def synchronizationMethods : List Bytes :=
  [ascii "Object#sleep", ascii "Thread::Mutex#synchronize", ascii "Thread::Mutex#lock",
    ascii "Thread::Mutex#unlock", ascii "Thread::Mutex#sleep"]

/-- `RG_TRACE_ENTRYPOINT_FRAME_NAME`. -/
def rgTraceEntrypointFrameName : Bytes := ascii "Ruby_APM_profiler_trace"

/-- `rb_rg_fill_class_and_method`. -/
def rbRgFillClassAndMethod (m : TracedMethod) : CString × CString :=
  ((builtinTranslator.lookup m.className.bytes).getD m.className, m.methodName)

/-- The needle of `rb_rg_methodinfo`. The class path and the name are counted with
`RG_MAX_STRING_SIZE` bytes at most, but written in full, as far as there is room. -/
def blacklistNeedle (className methodName : CString) : Bytes :=
  (fullyQualified className methodName).take
    (min className.bytes.length rgMaxStringSize + 1 + min methodName.bytes.length rgMaxStringSize)

/-! ## Classification -/

/-- What the classification of methods rests on besides the rules. -/
structure HookConfig where
  /-- The method with a hash. -/
  method : Nat → TracedMethod
  /-- `tracer->libraries`. -/
  libraries : Rax Verdict

/-- `rb_rg_blacklisted_method_p` as `rb_rg_methodinfo` calls it. `garbage` is what this call finds
in the first byte of its key buffer, which is on the stack. -/
def HookConfig.verdict (config : HookConfig) (lists : Blacklist) (garbage : UInt8) (hash : Nat) :
    Option Verdict :=
  let (className, methodName) := rbRgFillClassAndMethod (config.method hash)
  rbRgBlacklistedMethodP lists (blacklistNeedle className methodName)
    (className.bytes.take rgMaxStringSize) (methodName.bytes.take rgMaxStringSize) garbage

/-- The source of a method that is not blacklisted. -/
def HookConfig.source (config : HookConfig) (hash : Nat) : MethodSource :=
  let (className, methodName) := rbRgFillClassAndMethod (config.method hash)
  let source : MethodSource :=
    if blacklistNeedle className methodName ∈ synchronizationMethods then .waitForSynchronization
    else .userCode
  let source : MethodSource :=
    if rbRgBlacklistedStringP config.libraries (config.method hash).path.bytes = some .whitelisted ∧
        source = .userCode then .knownLibrary
    else source
  if methodName.bytes = rgTraceEntrypointFrameName then .system else source

/-- Where a method comes from under the rules; a blacklisted one comes from nowhere. -/
def HookConfig.classifyMethod (config : HookConfig) (lists : Blacklist) (garbage : UInt8)
    (hash : Nat) : Option MethodSource :=
  if config.verdict lists garbage hash = some .blacklisted then none else some (config.source hash)

/-- A method is ignored exactly if it is blacklisted. -/
theorem HookConfig.classifyMethod_eq_none_iff {config : HookConfig} {lists : Blacklist}
    {garbage : UInt8} {hash : Nat} : config.classifyMethod lists garbage hash = none ↔
      config.verdict lists garbage hash = some .blacklisted := by
  unfold classifyMethod
  split <;> simp_all

/-! ## The hook with its rules -/

/-- What the tracer keeps for the hook. -/
structure RuledHook where
  /-- The trees of rules. -/
  lists : Blacklist
  /-- `tracer->methodinfo`. -/
  methodinfo : MethodTable
  /-- `tracer->methods`. -/
  methods : UInt32
  /-- The shadow threads. -/
  threads : Nat → ShadowThread

/-- The hook of a new tracer. -/
def RuledHook.new : RuledHook where
  lists := .new
  methodinfo := []
  methods := 0
  threads _ := .fresh

/-- The hook as the handlers see it on a thread. -/
def RuledHook.on (s : RuledHook) (thread : Nat) : HookState where
  methodinfo := s.methodinfo
  methods := s.methods
  thread := s.threads thread

/-- What a handler on a thread has made of the hook. -/
def RuledHook.put (s : RuledHook) (thread : Nat) (h : HookState) : RuledHook where
  lists := s.lists
  methodinfo := h.methodinfo
  methods := h.methods
  threads := Function.update s.threads thread h.thread

/-- The rule changes the lists: it has a path or a method. -/
def Rule.Effective (r : Rule) : Prop := r.path ≠ none ∨ r.method ≠ none

instance (r : Rule) : Decidable r.Effective := inferInstanceAs (Decidable (_ ∨ _))

/-- `add_blacklist` and `add_whitelist`: an effective rule flushes the table. -/
def RuledHook.addRule (s : RuledHook) (r : Rule) : RuledHook :=
  if r.Effective then { s with lists := s.lists.add r, methodinfo := [] } else s

/-- The `RUBY_EVENT_CALL` handler on a thread, under the rules in force. It calls the classifier at
most once, with this byte in the buffer. -/
def RuledHook.call (config : HookConfig) (s : RuledHook) (thread : Nat) (frame : Frame)
    (garbage : UInt8) : RuledHook × List HookOutput :=
  let handled := rubyEventCall (config.classifyMethod s.lists garbage) frame (s.on thread)
  (s.put thread handled.1, handled.2)

/-- The `RUBY_EVENT_RETURN` handler on a thread. -/
def RuledHook.ret (s : RuledHook) (thread : Nat) (frame : Frame) : RuledHook × List HookOutput :=
  let handled := rubyEventReturn frame (s.on thread)
  (s.put thread handled.1, handled.2)

/-- A rule that changes nothing changes the lists in no way either. -/
theorem RuledHook.addRule_lists (s : RuledHook) (r : Rule) :
    (s.addRule r).lists = s.lists.add r := by
  unfold addRule
  split
  · rfl
  · rename_i hnot
    rw [Rule.Effective, not_or, not_not, not_not] at hnot
    obtain ⟨path, method, verdict⟩ := r
    obtain ⟨rfl, rfl⟩ : path = none ∧ method = none := hnot
    cases verdict <;> rfl

/-! ## One call -/

/-- The call gets past the guards in front of the lookup. -/
def HookState.PassesCall (s : HookState) (frame : Frame) : Prop :=
  s.thread.shadowTop ≠ (rgShadowStackLimit : Int) - 1 ∧ frame.tracerInternal = false

instance (s : HookState) (frame : Frame) : Decidable (s.PassesCall frame) :=
  inferInstanceAs (Decidable (_ ∧ _))

/-- The hook with one more frame of the VM open. -/
def HookState.entered (s : HookState) : HookState :=
  { s with thread := { s.thread with vmTop := s.thread.vmTop + 1 } }

/-- A call that does not get past the guards. -/
theorem rubyEventCall_of_not_passes (classify : Nat → Option MethodSource) {frame : Frame}
    {s : HookState} (h : ¬ s.PassesCall frame) : rubyEventCall classify frame s = (s.entered, []) := by
  unfold rubyEventCall
  dsimp only
  by_cases hfull : s.thread.shadowTop = (rgShadowStackLimit : Int) - 1
  · rw [if_pos hfull]
    rfl
  · have hinternal : frame.tracerInternal = true := by
      by_contra hne
      exact h ⟨hfull, Bool.eq_false_iff.mpr hne⟩
    rw [if_neg hfull, if_pos hinternal]
    rfl

/-- A call of a blacklisted method ends with the lookup. -/
theorem rubyEventCall_of_none {classify : Nat → Option MethodSource} {frame : Frame}
    {s s' : HookState} {declared : List HookOutput} (h : s.PassesCall frame)
    (hresolve : s.entered.resolve classify frame.method = (s', declared, none)) :
    rubyEventCall classify frame s = (s', declared) := by
  have hinternal : ¬ frame.tracerInternal = true := by
    rw [h.2]
    exact Bool.false_ne_true
  unfold HookState.entered at hresolve
  unfold rubyEventCall
  dsimp only
  rw [if_neg h.1, if_neg hinternal, hresolve]

/-- A call of another method goes on with `begin`. -/
theorem rubyEventCall_of_some {classify : Nat → Option MethodSource} {frame : Frame}
    {s s' : HookState} {declared : List HookOutput} {rgMethod : RgMethod} (h : s.PassesCall frame)
    (hresolve : s.entered.resolve classify frame.method = (s', declared, some rgMethod)) :
    rubyEventCall classify frame s
      = ((s'.begin rgMethod frame).1, declared ++ (s'.begin rgMethod frame).2) := by
  have hinternal : ¬ frame.tracerInternal = true := by
    rw [h.2]
    exact Bool.false_ne_true
  unfold HookState.entered at hresolve
  unfold rubyEventCall
  dsimp only
  rw [if_neg h.1, if_neg hinternal, hresolve]

/-- What the lookup of a method comes to: an entry of the table, or a new one. -/
inductive Resolves (classify : Nat → Option MethodSource) (method : Nat) (s : HookState) :
    HookState × List HookOutput × Option RgMethod → Prop
  /-- The table has an entry. -/
  | known (entry : Option RgMethod) : s.methodinfo.lookup method = some entry →
      Resolves classify method s (s, [], entry)
  /-- The method is discovered and whitelisted. -/
  | whitelisted (source : MethodSource) : s.methodinfo.lookup method = none →
      classify method = some source →
      Resolves classify method s
        ({ s with
            methods := s.methods + 1
            methodinfo := (method, some ⟨s.methods + 1, source⟩) :: s.methodinfo },
          [.methodinfo (s.methods + 1) source], some ⟨s.methods + 1, source⟩)
  /-- The method is discovered and blacklisted. -/
  | blacklisted : s.methodinfo.lookup method = none → classify method = none →
      Resolves classify method s ({ s with methodinfo := (method, none) :: s.methodinfo }, [], none)

/-- **The lookup of a method** finds its entry or makes one, which `Resolves` states. -/
theorem HookState.resolves (classify : Nat → Option MethodSource) (method : Nat) (s : HookState) :
    Resolves classify method s (s.resolve classify method) := by
  unfold resolve
  cases hlookup : s.methodinfo.lookup method with
  | some entry => exact .known entry hlookup
  | none =>
      dsimp only
      unfold rbRgMethodinfo
      cases hclassify : classify method with
      | some source => exact .whitelisted source hlookup hclassify
      | none => exact .blacklisted hlookup hclassify

/-- `begin` leaves the table and the counter of methods alone. -/
theorem HookState.begin_methodinfo (rgMethod : RgMethod) (frame : Frame) (s : HookState) :
    (s.begin rgMethod frame).1.methodinfo = s.methodinfo ∧
      (s.begin rgMethod frame).1.methods = s.methods := by
  rw [s.begin_eq_ite]
  split <;> exact ⟨rfl, rfl⟩

/-- **The table after a call** that gets past the guards is the one of the lookup. -/
theorem rubyEventCall_methodinfo (classify : Nat → Option MethodSource) {frame : Frame}
    {s : HookState} (h : s.PassesCall frame) :
    (rubyEventCall classify frame s).1.methodinfo
      = (s.entered.resolve classify frame.method).1.methodinfo := by
  generalize hresolve : s.entered.resolve classify frame.method = resolved
  obtain ⟨s', declared, entry⟩ := resolved
  cases entry with
  | none => rw [rubyEventCall_of_none h hresolve]
  | some rgMethod =>
      rw [rubyEventCall_of_some h hresolve]
      exact (s'.begin_methodinfo rgMethod frame).1

end RaygunApm
