import RaygunApm.Hook.Brackets
import RaygunApm.Hook.Discovery
import RaygunApm.Hook.Lookups
import RaygunApm.Rules.Decision

/-! # The methodinfo table as a cache

The table remembers what the classifier has said of a method, a blacklisted one included. Rules
empty it, so what it remembers is what the rules in force say, and the hook treats methods as it
would without the table, as far as the classifier says the same whenever it is asked: it may come to
read a byte of its stack that nothing has written, and then it need not. Between two rules a method
is discovered at most once, which gives it one function id and one METHODINFO
(`methodinfo_transparent`). -/

namespace RaygunApm

/-! ## The property -/

/-- A rule, a call, or anything else that happens to a shadow thread. -/
inductive CacheEvent where
  /-- `add_blacklist` or `add_whitelist`. -/
  | addRule (r : Rule)
  /-- `RUBY_EVENT_CALL`, with the byte that the classifier would find in its buffer. -/
  | call (thread : Nat) (frame : Frame) (garbage : UInt8)
  /-- Another handler, which leaves the table alone, has changed the shadow thread. -/
  | other (thread : Nat) (shadow : ShadowThread)

/-- What the handler makes of a method, and what it emits for it. -/
inductive CacheOutput where
  /-- A method that gets past the guards is treated as blacklisted, or not. -/
  | treated (method : Nat) (blacklisted : Bool)
  /-- Something is emitted. -/
  | hook (method : Nat) (output : HookOutput)
  deriving DecidableEq

/-- How the `RUBY_EVENT_CALL` handler treats the method of a frame. -/
def RuledHook.treats (config : HookConfig) (s : RuledHook) (thread : Nat) (frame : Frame)
    (garbage : UInt8) : List CacheOutput :=
  if (s.on thread).PassesCall frame then
    [.treated frame.method ((s.on thread).entered.resolve (config.classifyMethod s.lists garbage)
      frame.method).2.2.isNone]
  else []

/-- The hook. -/
def cacheStep (config : HookConfig) (s : RuledHook) : CacheEvent → RuledHook × List CacheOutput
  | .addRule r => (s.addRule r, [])
  | .call thread frame garbage =>
      ((s.call config thread frame garbage).1,
        s.treats config thread frame garbage ++
          (s.call config thread frame garbage).2.map (.hook frame.method))
  | .other thread shadow =>
      ({ s with threads := Function.update s.threads thread shadow }, [])

/-- The hook without the table. -/
def uncachedStep (config : HookConfig) (s : RuledHook) (e : CacheEvent) :
    RuledHook × List CacheOutput :=
  cacheStep config { s with methodinfo := [] } e

/-- The rules that were added. -/
def addedRules (events : List CacheEvent) : List Rule :=
  events.filterMap fun
    | .addRule r => some r
    | _ => none

/-- How a method is treated, and for which object its frame begins, if it does. -/
inductive Treatment where
  | treated (method : Nat) (blacklisted : Bool)
  | begun (method : Nat) (instanceId : UInt64)

/-- What is seen of an output, whatever the function ids. -/
def CacheOutput.treatment : CacheOutput → List Treatment
  | .treated method blacklisted => [.treated method blacklisted]
  | .hook method (.begin _ instanceId) => [.begun method instanceId]
  | .hook _ _ => []

/-- The METHODINFO commands for a method. -/
def announcements (method : Nat) (os : List CacheOutput) : List (UInt32 × MethodSource) :=
  os.filterMap fun
    | .hook method' (.methodinfo functionId source) =>
        if method' = method then some (functionId, source) else none
    | _ => none

/-- The event is a rule that changes the lists. -/
def CacheEvent.Effective : CacheEvent → Prop
  | .addRule r => r.Effective
  | _ => False

/-- The methods that these outputs treat as whitelisted are announced once, and others not at all.
Their frames begin with the id that was announced. -/
structure AnnouncedOnce (os : List CacheOutput) : Prop where
  whitelisted : ∀ method, .treated method false ∈ os → ∃ functionId source,
    announcements method os = [(functionId, source)] ∧
      ∀ functionId' instanceId, .hook method (.begin functionId' instanceId) ∈ os →
        functionId' = functionId
  others : ∀ method, .treated method false ∉ os → announcements method os = []

/-- What the classifier says of the method would rest on the byte that it finds in its buffer. -/
def HookConfig.ReadsGarbage (config : HookConfig) (rules : List Rule) (hash : Nat) : Prop :=
  let (className, methodName) := rbRgFillClassAndMethod (config.method hash)
  RaygunApm.ReadsGarbage rules (blacklistNeedle className methodName)
    (className.bytes.take rgMaxStringSize) (methodName.bytes.take rgMaxStringSize)

/-- No call that gets past the guards is of a method for which the classifier would read the byte.
-/
def NoGarbageRead (config : HookConfig) (events : List CacheEvent) : Prop :=
  ∀ before thread frame garbage after, events = before ++ .call thread frame garbage :: after →
    ((Mealy.run (cacheStep config) .new before).1.on thread).PassesCall frame →
    ¬ config.ReadsGarbage (addedRules before) frame.method

/-- **The cache is transparent** for these events, from a new tracer on. -/
structure CacheTransparent (config : HookConfig) (events : List CacheEvent) : Prop where
  /-- A method is treated as blacklisted if and only if the rules in force say so. -/
  decisions : ∀ before thread frame garbage after blacklisted,
    events = before ++ .call thread frame garbage :: after →
    .treated frame.method blacklisted ∈
      (cacheStep config (Mealy.run (cacheStep config) .new before).1 (.call thread frame garbage)).2 →
    (blacklisted = true ↔
      config.verdict (.ofRules (addedRules before)) garbage frame.method = some .blacklisted)
  /-- Methods are treated as they are without the table. -/
  uncached : (Mealy.run (cacheStep config) .new events).2.flatMap CacheOutput.treatment
    = (Mealy.run (uncachedStep config) .new events).2.flatMap CacheOutput.treatment
  /-- From one rule to the next, what is whitelisted is announced once. -/
  announced : ∀ before segment after, events = before ++ segment ++ after →
    before = [] ∨ (∃ earlier e, before = earlier ++ [e] ∧ e.Effective) →
    (∀ e ∈ segment, ¬ e.Effective) →
    AnnouncedOnce (Mealy.run (cacheStep config)
      (Mealy.run (cacheStep config) .new before).1 segment).2

/-! ## One lookup -/

variable {classify : Nat → Option MethodSource} {method : Nat} {s s' : HookState}
  {declared : List HookOutput} {entry : Option RgMethod}

/-- From a table that agrees with the classification, a lookup returns what it says, leaves a table
that agrees, and touches nothing of the thread. -/
theorem Resolves.agrees (h : Resolves classify method s (s', declared, entry))
    (hagrees : s.methodinfo.Agrees classify) :
    entry.map RgMethod.source = classify method ∧ s'.methodinfo.Agrees classify ∧
      s'.thread = s.thread ∧ ∀ m, (declared.map (CacheOutput.hook m)).flatMap
        CacheOutput.treatment = [] := by
  cases h with
  | known entry hlookup => exact ⟨hagrees _ _ hlookup, hagrees, rfl, fun _ => rfl⟩
  | whitelisted source _ hclassify =>
      exact ⟨hclassify.symm, hagrees.cons hclassify.symm, rfl, fun _ => rfl⟩
  | blacklisted _ hclassify =>
      exact ⟨hclassify.symm, hagrees.cons hclassify.symm, rfl, fun _ => rfl⟩

/-- A lookup asks for the classification of its method only. -/
theorem Resolves.congr {classify' : Nat → Option MethodSource}
    {result : HookState × List HookOutput × Option RgMethod} (h : Resolves classify method s result)
    (heq : classify method = classify' method) : Resolves classify' method s result := by
  cases h with
  | known entry hlookup => exact .known entry hlookup
  | whitelisted source hlookup hclassify => exact .whitelisted source hlookup (heq ▸ hclassify)
  | blacklisted hlookup hclassify => exact .blacklisted hlookup (heq ▸ hclassify)

/-- What `begin` does to the counters and what it emits, which depends on the source of the method
and the library level. -/
theorem HookState.begin_eq (m : RgMethod) (frame : Frame) (s : HookState) :
    (s.begin m frame).2 =
        (if Begins m.source s.thread.levelDeepIntoThirdPartyLib then
          [.begin m.functionId frame.instanceId] else []) ∧
      (s.begin m frame).1.thread.vmTop = s.thread.vmTop ∧
      (s.begin m frame).1.thread.shadowTop = s.thread.shadowTop +
        (if Begins m.source s.thread.levelDeepIntoThirdPartyLib then 1 else 0) ∧
      (s.begin m frame).1.thread.levelDeepIntoThirdPartyLib
        = levelInside m.source s.thread.levelDeepIntoThirdPartyLib := by
  rw [s.begin_eq_ite]
  by_cases hbegins : Begins m.source s.thread.levelDeepIntoThirdPartyLib
  · rw [if_pos hbegins, if_pos hbegins, if_pos hbegins]
    exact ⟨rfl, rfl, rfl, rfl⟩
  · rw [if_neg hbegins, if_neg hbegins, if_neg hbegins]
    exact ⟨rfl, rfl, (Int.add_zero _).symm, rfl⟩

/-! ## One call -/

variable {config : HookConfig}

/-- What a call that gets past the guards comes to: a lookup, and a frame that begins or not. -/
structure CallResolves (config : HookConfig) (s : RuledHook) (thread : Nat) (frame : Frame)
    (garbage : UInt8) (s' : HookState) (declared begun : List HookOutput) (entry : Option RgMethod) : Prop where
  resolves : Resolves (config.classifyMethod s.lists garbage) frame.method (s.on thread).entered
    (s', declared, entry)
  lists : (cacheStep config s (.call thread frame garbage)).1.lists = s.lists
  methodinfo : (cacheStep config s (.call thread frame garbage)).1.methodinfo = s'.methodinfo
  outputs : (cacheStep config s (.call thread frame garbage)).2 =
    .treated frame.method entry.isNone :: (declared ++ begun).map (.hook frame.method)
  others : ∀ thread' ≠ thread,
    (cacheStep config s (.call thread frame garbage)).1.threads thread' = s.threads thread'
  blacklisted : entry = none → begun = [] ∧
    (cacheStep config s (.call thread frame garbage)).1.threads thread = s'.thread
  whitelisted : ∀ m, entry = some m → begun = (s'.begin m frame).2 ∧
    (cacheStep config s (.call thread frame garbage)).1.threads thread = (s'.begin m frame).1.thread

/-- **A call that gets past the guards.** -/
theorem exists_callResolves (config : HookConfig) {s : RuledHook} {thread : Nat} {frame : Frame}
    (garbage : UInt8) (h : (s.on thread).PassesCall frame) :
    ∃ s' declared begun entry, CallResolves config s thread frame garbage s' declared begun entry := by
  have hresolves := (s.on thread).entered.resolves (config.classifyMethod s.lists garbage)
    frame.method
  generalize hresolve : (s.on thread).entered.resolve _ frame.method = resolved at hresolves
  obtain ⟨s', declared, entry⟩ := resolved
  have htreats : s.treats config thread frame garbage = [.treated frame.method entry.isNone] := by
    rw [RuledHook.treats, if_pos h, hresolve]
  -- only for a method that is not blacklisted the handler goes on
  cases entry with
  | none =>
      have hcall : s.call config thread frame garbage = (s.put thread s', declared) := by
        rw [RuledHook.call, rubyEventCall_of_none h hresolve]
      refine ⟨s', declared, [], none, hresolves, ?_, ?_, ?_, ?_, ?_, ?_⟩
      · rw [cacheStep, hcall]
        rfl
      · rw [cacheStep, hcall]
        rfl
      · rw [cacheStep, hcall, htreats, List.append_nil]
        rfl
      · intro thread' hne
        rw [cacheStep, hcall]
        exact Function.update_of_ne hne _ _
      · intro _
        rw [cacheStep, hcall]
        exact ⟨rfl, Function.update_self _ _ _⟩
      · intro m hm
        cases hm
  | some m =>
      have hcall : s.call config thread frame garbage
          = (s.put thread (s'.begin m frame).1, declared ++ (s'.begin m frame).2) := by
        rw [RuledHook.call, rubyEventCall_of_some h hresolve]
      refine ⟨s', declared, (s'.begin m frame).2, some m, hresolves, ?_, ?_, ?_, ?_, ?_, ?_⟩
      · rw [cacheStep, hcall]
        rfl
      · rw [cacheStep, hcall]
        exact (s'.begin_methodinfo m frame).1
      · rw [cacheStep, hcall, htreats]
        rfl
      · intro thread' hne
        rw [cacheStep, hcall]
        exact Function.update_of_ne hne _ _
      · intro hm
        cases hm
      · rintro m' hm
        obtain rfl := Option.some.inj hm
        rw [cacheStep, hcall]
        exact ⟨rfl, Function.update_self _ _ _⟩

/-- A call that does not get past the guards only opens a frame of the VM. -/
theorem cacheStep_of_not_passes (config : HookConfig) {s : RuledHook} {thread : Nat} {frame : Frame}
    (garbage : UInt8) (h : ¬ (s.on thread).PassesCall frame) :
    cacheStep config s (.call thread frame garbage) = (s.put thread (s.on thread).entered, []) := by
  rw [cacheStep, RuledHook.treats, if_neg h, RuledHook.call, rubyEventCall_of_not_passes _ h]
  rfl

/-! ## The table agrees with the rules in force -/

/-- A call keeps the table in agreement with what the classifier says of its method. -/
theorem RuledHook.agrees_call {s : RuledHook} (h : s.methodinfo.Agrees classify) (thread : Nat)
    {frame : Frame} {garbage : UInt8}
    (heq : config.classifyMethod s.lists garbage frame.method = classify frame.method) :
    (s.call config thread frame garbage).1.methodinfo.Agrees classify := by
  show (rubyEventCall _ frame (s.on thread)).1.methodinfo.Agrees classify
  by_cases hpasses : (s.on thread).PassesCall frame
  · have hresolves := (s.on thread).entered.resolves (config.classifyMethod s.lists garbage)
      frame.method
    rw [rubyEventCall_methodinfo _ hpasses]
    exact ((hresolves.congr heq).agrees h).2.1
  · rw [rubyEventCall_of_not_passes _ hpasses]
    exact h

/-- The table remembers what the rules in force say, where they say it whatever is in the buffer. -/
def RuledHook.CacheAgrees (config : HookConfig) (s : RuledHook) : Prop :=
  s.methodinfo.Agrees (config.classifyMethod s.lists 0)

/-- If the event is a call that gets past the guards, the byte in the buffer does not matter. -/
def Settled (config : HookConfig) (s : RuledHook) (e : CacheEvent) : Prop :=
  ∀ thread frame garbage, e = .call thread frame garbage → (s.on thread).PassesCall frame →
    config.classifyMethod s.lists garbage frame.method = config.classifyMethod s.lists 0 frame.method

/-- **Every event that is settled keeps the table in agreement** with the rules in force: calls
because they enter what the classifier says, rules because they empty the table. -/
theorem cacheAgrees_cacheStep (s : RuledHook) (e : CacheEvent) (h : s.CacheAgrees config)
    (hsettled : Settled config s e) : (cacheStep config s e).1.CacheAgrees config := by
  cases e with
  | addRule r =>
      rw [cacheStep, RuledHook.addRule]
      by_cases heffective : r.Effective
      · rw [if_pos heffective]
        intro method entry hlookup
        cases hlookup
      · rw [if_neg heffective]
        exact h
  | call thread frame garbage =>
      by_cases hpasses : (s.on thread).PassesCall frame
      · exact RuledHook.agrees_call h thread (hsettled _ _ _ rfl hpasses)
      · rw [cacheStep_of_not_passes config garbage hpasses]
        exact h
  | other thread shadow => exact h

/-- The rules added by one event more. -/
theorem addedRules_append (events : List CacheEvent) (e : CacheEvent) :
    addedRules (events ++ [e]) = addedRules events ++ addedRules [e] :=
  List.filterMap_append ..

/-- The rules in force are those that were added. -/
theorem lists_run (events : List CacheEvent) :
    (Mealy.run (cacheStep config) .new events).1.lists = .ofRules (addedRules events) := by
  induction events using List.reverseRecOn with
  | nil => rfl
  | append_singleton events e ih =>
      rw [Mealy.run_append, Mealy.run_singleton, addedRules_append]
      dsimp only
      cases e with
      | addRule r =>
          rw [cacheStep, RuledHook.addRule_lists, ih]
          exact (Blacklist.ofRules_append _ r).symm
      | call thread frame garbage =>
          have hput : ∀ s : RuledHook,
              (cacheStep config s (.call thread frame garbage)).1.lists = s.lists := fun _ => rfl
          rw [hput, ih]
          exact congrArg Blacklist.ofRules (List.append_nil _).symm
      | other thread shadow =>
          rw [cacheStep, ih]
          exact congrArg Blacklist.ofRules (List.append_nil _).symm

/-! ## Without the table -/

/-- The counters of two shadow threads are the same. -/
structure SameCounters (a b : ShadowThread) : Prop where
  shadowTop : a.shadowTop = b.shadowTop
  vmTop : a.vmTop = b.vmTop
  level : a.levelDeepIntoThirdPartyLib = b.levelDeepIntoThirdPartyLib

theorem SameCounters.symm {a b : ShadowThread} (h : SameCounters a b) : SameCounters b a :=
  ⟨h.shadowTop.symm, h.vmTop.symm, h.level.symm⟩

theorem SameCounters.trans {a b c : ShadowThread} (h : SameCounters a b) (h' : SameCounters b c) :
    SameCounters a c :=
  ⟨h.shadowTop.trans h'.shadowTop, h.vmTop.trans h'.vmTop, h.level.trans h'.level⟩

/-- The hook and the one without the table have the same rules and counters, and the table agrees
with the rules. -/
structure UncachedBy (config : HookConfig) (s u : RuledHook) : Prop where
  lists : s.lists = u.lists
  agrees : s.CacheAgrees config
  threads : ∀ thread, SameCounters (s.threads thread) (u.threads thread)

/-- The counters after a call of a method from this source, or of a blacklisted one. -/
def ShadowThread.afterCall (thread : ShadowThread) (source : Option MethodSource) : ShadowThread :=
  { thread with
    vmTop := thread.vmTop + 1
    shadowTop := thread.shadowTop +
      source.elim 0 fun source => if Begins source thread.levelDeepIntoThirdPartyLib then 1 else 0
    levelDeepIntoThirdPartyLib := source.elim thread.levelDeepIntoThirdPartyLib fun source =>
      levelInside source thread.levelDeepIntoThirdPartyLib }

/-- What is seen of a call that gets past its guards. -/
def ShadowThread.seenAtCall (thread : ShadowThread) (source : Option MethodSource) (frame : Frame) :
    List Treatment :=
  .treated frame.method source.isNone :: source.elim [] fun source =>
    if Begins source thread.levelDeepIntoThirdPartyLib then
      [.begun frame.method frame.instanceId] else []

/-- What a call that gets past the guards does to the counters, and what is seen of it, when the
table agrees with the rules: the table makes no difference. -/
theorem CallResolves.effect {s : RuledHook} {thread : Nat} {frame : Frame} {garbage : UInt8}
    {begun : List HookOutput}
    (h : CallResolves config s thread frame garbage s' declared begun entry)
    (hagrees : s.CacheAgrees config)
    (hsettled : config.classifyMethod s.lists garbage frame.method =
      config.classifyMethod s.lists 0 frame.method) :
    SameCounters ((cacheStep config s (.call thread frame garbage)).1.threads thread)
        ((s.threads thread).afterCall (config.classifyMethod s.lists 0 frame.method)) ∧
      (cacheStep config s (.call thread frame garbage)).2.flatMap CacheOutput.treatment =
        (s.threads thread).seenAtCall (config.classifyMethod s.lists 0 frame.method) frame := by
  obtain ⟨hsource, -, hthread, hdeclared⟩ := (h.resolves.congr hsettled).agrees hagrees
  rw [← hsource, h.outputs, List.map_append, List.flatMap_cons, List.flatMap_append, hdeclared]
  cases entry with
  | none =>
      obtain ⟨rfl, hafter⟩ := h.blacklisted rfl
      rw [hafter, hthread]
      exact ⟨⟨(Int.add_zero _).symm, rfl, rfl⟩, rfl⟩
  | some m =>
      obtain ⟨rfl, hafter⟩ := h.whitelisted m rfl
      obtain ⟨hbegun, hvm, htop, hlevel⟩ := s'.begin_eq m frame
      rw [hthread] at hbegun hvm htop hlevel
      rw [hafter, hbegun]
      refine ⟨⟨htop, hvm, hlevel⟩, ?_⟩
      have hsame : (s.on thread).entered.thread.levelDeepIntoThirdPartyLib
          = (s.threads thread).levelDeepIntoThirdPartyLib := rfl
      rw [hsame, ShadowThread.seenAtCall, Option.map_some, Option.elim_some]
      split <;> rfl

/-- The counters decide what is seen of a call, and what the counters are after it. -/
theorem SameCounters.call {a b : ShadowThread} (h : SameCounters a b) (source : Option MethodSource)
    (frame : Frame) :
    SameCounters (a.afterCall source) (b.afterCall source) ∧
      a.seenAtCall source frame = b.seenAtCall source frame := by
  obtain ⟨htop, hvm, hlevel⟩ := h
  refine ⟨⟨?_, ?_, ?_⟩, ?_⟩
  · simp only [ShadowThread.afterCall, htop, hlevel]
  · simp only [ShadowThread.afterCall, hvm]
  · simp only [ShadowThread.afterCall, hlevel]
  · simp only [ShadowThread.seenAtCall, hlevel]

/-- The counters decide whether a call gets past the guards. -/
theorem passesCall_iff {s u : RuledHook} {thread : Nat} {frame : Frame}
    (h : SameCounters (s.threads thread) (u.threads thread)) :
    (s.on thread).PassesCall frame ↔ (u.on thread).PassesCall frame := by
  rw [HookState.PassesCall, HookState.PassesCall, RuledHook.on, RuledHook.on, h.shadowTop]

/-- Threads with the same counters have them where the states of one thread change alike. -/
theorem sameCounters_update {shadows shadows' : Nat → ShadowThread}
    (h : ∀ thread, SameCounters (shadows thread) (shadows' thread)) {a b : ShadowThread}
    (hab : SameCounters a b) (thread thread' : Nat) :
    SameCounters (Function.update shadows thread a thread')
      (Function.update shadows' thread b thread') := by
  by_cases hthread : thread' = thread
  · subst hthread
    rw [Function.update_self, Function.update_self]
    exact hab
  · rw [Function.update_of_ne hthread, Function.update_of_ne hthread]
    exact h thread'

/-- **A call that gets past the guards**, with the table and without it: both look the method up, in
tables that agree with the same rules. -/
theorem UncachedBy.call {s u : RuledHook} (h : UncachedBy config s u) {thread : Nat} {frame : Frame}
    {garbage : UInt8} (hpasses : (s.on thread).PassesCall frame)
    (hsettled : Settled config s (.call thread frame garbage)) :
    UncachedBy config (cacheStep config s (.call thread frame garbage)).1
        (uncachedStep config u (.call thread frame garbage)).1 ∧
      (cacheStep config s (.call thread frame garbage)).2.flatMap CacheOutput.treatment
        = (uncachedStep config u (.call thread frame garbage)).2.flatMap CacheOutput.treatment := by
  have hempty : RuledHook.CacheAgrees config { u with methodinfo := [] } := by
    intro method entry hlookup
    cases hlookup
  have hpasses' : (RuledHook.on { u with methodinfo := [] } thread).PassesCall frame :=
    (passesCall_iff (h.threads thread)).mp hpasses
  obtain ⟨_, _, _, _, hcall⟩ := exists_callResolves config garbage hpasses
  obtain ⟨_, _, _, _, hcall'⟩ := exists_callResolves config garbage hpasses'
  have hbyte := hsettled _ _ _ rfl hpasses
  obtain ⟨hafter, hseen⟩ := hcall.effect h.agrees hbyte
  rw [h.lists] at hafter hseen hbyte
  obtain ⟨hafter', hseen'⟩ := hcall'.effect hempty hbyte
  obtain ⟨hsame, heq⟩ := (h.threads thread).call
    (config.classifyMethod u.lists 0 frame.method) frame
  rw [uncachedStep]
  refine ⟨⟨?_, cacheAgrees_cacheStep s _ h.agrees hsettled, ?_⟩, ?_⟩
  · rw [hcall.lists, hcall'.lists]
    exact h.lists
  · intro thread'
    by_cases hthread : thread' = thread
    · subst hthread
      exact hafter.trans (hsame.trans hafter'.symm)
    · rw [hcall.others _ hthread, hcall'.others _ hthread]
      exact h.threads thread'
  · rw [hseen, hseen', heq]

/-- **One event**, with the table and without it. -/
theorem UncachedBy.step {s u : RuledHook} (h : UncachedBy config s u) (e : CacheEvent)
    (hsettled : Settled config s e) :
    UncachedBy config (cacheStep config s e).1 (uncachedStep config u e).1 ∧
      (cacheStep config s e).2.flatMap CacheOutput.treatment
        = (uncachedStep config u e).2.flatMap CacheOutput.treatment := by
  have hagrees := cacheAgrees_cacheStep s e h.agrees hsettled
  cases e with
  | addRule r =>
      refine ⟨⟨?_, hagrees, ?_⟩, rfl⟩
      · rw [uncachedStep, cacheStep, cacheStep, RuledHook.addRule_lists, RuledHook.addRule_lists,
          h.lists]
      · intro thread
        rw [uncachedStep, cacheStep, cacheStep, RuledHook.addRule, RuledHook.addRule]
        split <;> exact h.threads thread
  | call thread frame garbage =>
      by_cases hpasses : (s.on thread).PassesCall frame
      · exact h.call hpasses hsettled
      · -- a call that does not get past the guards opens a frame of the VM in both
        have hpasses' : ¬ (RuledHook.on { u with methodinfo := [] } thread).PassesCall frame :=
          fun hp => hpasses ((passesCall_iff (h.threads thread)).mpr hp)
        rw [uncachedStep, cacheStep_of_not_passes config garbage hpasses']
        rw [cacheStep_of_not_passes config garbage hpasses] at hagrees ⊢
        obtain ⟨htop, hvm, hlevel⟩ := h.threads thread
        have hentered : SameCounters (s.on thread).entered.thread (u.on thread).entered.thread :=
          ⟨htop, congrArg (· + 1) hvm, hlevel⟩
        exact ⟨⟨h.lists, hagrees, sameCounters_update h.threads hentered thread⟩, rfl⟩
  | other thread shadow =>
      exact ⟨⟨h.lists, hagrees, sameCounters_update h.threads ⟨rfl, rfl, rfl⟩ thread⟩, rfl⟩

/-! ## Announcements -/

/-- The METHODINFO of an entry, which a blacklisted method does not have. -/
def RgMethod.announcement (entry : Option RgMethod) : List (UInt32 × MethodSource) :=
  entry.elim [] fun m => [(m.functionId, m.source)]

theorem announcements_append (method : Nat) (os os' : List CacheOutput) :
    announcements method (os ++ os') = announcements method os ++ announcements method os' :=
  List.filterMap_append ..

/-- The entry after a lookup, and the METHODINFO of the lookup: the one of the entry, if it is new.
-/
theorem Resolves.announces (h : Resolves classify method s (s', declared, entry)) :
    s'.methodinfo.lookup method = some entry ∧
      (∀ method' ≠ method, s'.methodinfo.lookup method' = s.methodinfo.lookup method') ∧
      RgMethod.announcement (s.methodinfo.lookup method).join
          ++ announcements method (declared.map (.hook method)) = RgMethod.announcement entry ∧
      (∀ method' ≠ method, announcements method' (declared.map (.hook method)) = []) ∧
      (∀ m, s.methodinfo.lookup method = some (some m) → entry = some m) ∧
      ∀ functionId instanceId, HookOutput.begin functionId instanceId ∉ declared := by
  have hcons : ∀ entry : Option RgMethod,
      ((method, entry) :: s.methodinfo).lookup method = some entry ∧
        ∀ method' ≠ method, ((method, entry) :: s.methodinfo).lookup method'
          = s.methodinfo.lookup method' :=
    fun entry => ⟨List.lookup_cons_self, fun _ => s.methodinfo.lookup_cons_of_ne entry⟩
  cases h with
  | known entry hlookup =>
      -- an old entry has been announced
      refine ⟨hlookup, fun _ _ => rfl, ?_, fun _ _ => rfl, ?_, fun _ _ => List.not_mem_nil⟩
      · rw [hlookup]
        exact List.append_nil _
      · intro m hm
        exact Option.some.inj (hlookup.symm.trans hm)
  | whitelisted source hlookup =>
      -- a new one is announced now
      refine ⟨(hcons _).1, (hcons _).2, ?_, ?_, ?_, ?_⟩
      · rw [hlookup]
        simp [announcements, RgMethod.announcement]
      · intro method' hne
        simp [announcements, hne.symm]
      · intro m hm
        rw [hlookup] at hm
        cases hm
      · simp
  | blacklisted hlookup =>
      refine ⟨(hcons _).1, (hcons _).2, ?_, fun _ _ => rfl, ?_, fun _ _ => List.not_mem_nil⟩
      · rw [hlookup]
        rfl
      · intro m hm
        rw [hlookup] at hm
        cases hm

/-- What has been emitted since the table was empty: a METHODINFO for every whitelisted entry, and
frames that begin with the ids of their entries. -/
structure Announced (os : List CacheOutput) (s : RuledHook) : Prop where
  announced : ∀ method,
    announcements method os = RgMethod.announcement (s.methodinfo.lookup method).join
  treated : ∀ method, .treated method false ∈ os ↔
    ∃ m, s.methodinfo.lookup method = some (some m)
  begun : ∀ method functionId instanceId, .hook method (.begin functionId instanceId) ∈ os →
    ∃ m, s.methodinfo.lookup method = some (some m) ∧ functionId = m.functionId

/-- A frame that begins does so with the id of the entry, and is no METHODINFO. -/
theorem CallResolves.begun_eq {s : RuledHook} {thread : Nat} {frame : Frame} {garbage : UInt8}
    {begun : List HookOutput}
    (h : CallResolves config s thread frame garbage s' declared begun entry) :
    begun = [] ∨ ∃ m, entry = some m ∧ begun = [.begin m.functionId frame.instanceId] := by
  cases hentry : entry with
  | none => exact .inl (h.blacklisted hentry).1
  | some m =>
      have hbegun := (h.whitelisted m hentry).1.trans (s'.begin_eq m frame).1
      split at hbegun
      · exact .inr ⟨m, rfl, hbegun⟩
      · exact .inl hbegun

/-- The METHODINFO of the lookup is the only one of a call. -/
theorem CallResolves.announcements_eq {s : RuledHook} {thread : Nat} {frame : Frame} {garbage : UInt8}
    {begun : List HookOutput}
    (h : CallResolves config s thread frame garbage s' declared begun entry) (method : Nat) :
    announcements method (cacheStep config s (.call thread frame garbage)).2
      = announcements method (declared.map (.hook frame.method)) := by
  have hbegun : announcements method (begun.map (.hook frame.method)) = [] := by
    rcases h.begun_eq with rfl | ⟨m, -, rfl⟩ <;> rfl
  rw [h.outputs, List.map_append]
  apply (announcements_append method _ _).trans
  rw [hbegun, List.append_nil]

/-- A call treats its own method only, and as the entry of the method says. -/
theorem CallResolves.treated_iff {s : RuledHook} {thread : Nat} {frame : Frame} {garbage : UInt8}
    {begun : List HookOutput}
    (h : CallResolves config s thread frame garbage s' declared begun entry) (method : Nat) :
    .treated method false ∈ (cacheStep config s (.call thread frame garbage)).2 ↔
      method = frame.method ∧ ∃ m, entry = some m := by
  rw [h.outputs]
  cases entry <;> simp

/-- A frame that begins in a call is one of its method, and has the id of the entry. -/
theorem CallResolves.exists_of_begin {s : RuledHook} {thread : Nat} {frame : Frame} {garbage : UInt8}
    {begun : List HookOutput}
    (h : CallResolves config s thread frame garbage s' declared begun entry) {method : Nat}
    {functionId : UInt32} {instanceId : UInt64}
    (hmem : .hook method (.begin functionId instanceId)
      ∈ (cacheStep config s (.call thread frame garbage)).2) :
    method = frame.method ∧ ∃ m, entry = some m ∧ functionId = m.functionId := by
  rw [h.outputs] at hmem
  rcases List.mem_cons.mp hmem with htreated | hmapped
  · cases htreated
  obtain ⟨o, ho, heq⟩ := List.mem_map.mp hmapped
  obtain ⟨hmethod, rfl⟩ := CacheOutput.hook.inj heq
  have hnone := h.resolves.announces.2.2.2.2.2
  have hbegin := (List.mem_append.mp ho).resolve_left (hnone _ _)
  rcases h.begun_eq with rfl | ⟨m, hm, rfl⟩
  · cases hbegin
  · obtain ⟨rfl, -⟩ := HookOutput.begin.inj (List.mem_singleton.mp hbegin)
    exact ⟨hmethod.symm, m, hm, rfl⟩

/-- **A call keeps the history**: a method is announced when its entry is made. -/
theorem Announced.call {os : List CacheOutput} {s : RuledHook} (h : Announced os s) (thread : Nat)
    (frame : Frame) (garbage : UInt8) :
    Announced (os ++ (cacheStep config s (.call thread frame garbage)).2)
      (cacheStep config s (.call thread frame garbage)).1 := by
  by_cases hpasses : (s.on thread).PassesCall frame
  · obtain ⟨s', declared, begun, entry, hcall⟩ := exists_callResolves config garbage hpasses
    obtain ⟨hself, hothers, hnew, hsilent, hkept, -⟩ := hcall.resolves.announces
    have hbefore : (s.on thread).entered.methodinfo = s.methodinfo := rfl
    rw [hbefore] at hothers hnew hkept
    refine ⟨fun method => ?_, fun method => ?_, fun method functionId instanceId hmem => ?_⟩
    · rw [hcall.methodinfo, announcements_append, h.announced, hcall.announcements_eq]
      by_cases hmethod : method = frame.method
      · subst hmethod
        rw [hnew, hself, Option.join_some]
      · rw [hsilent _ hmethod, hothers _ hmethod, List.append_nil]
    · rw [hcall.methodinfo, List.mem_append, h.treated, hcall.treated_iff]
      by_cases hmethod : method = frame.method
      · subst hmethod
        rw [hself]
        constructor
        · rintro (⟨m, hm⟩ | ⟨-, m, hm⟩)
          · exact ⟨m, congrArg some (hkept m hm)⟩
          · exact ⟨m, congrArg some hm⟩
        · rintro ⟨m, hm⟩
          exact .inr ⟨rfl, m, Option.some.inj hm⟩
      · rw [hothers _ hmethod]
        exact or_iff_left fun hm => hmethod hm.1
    · rw [hcall.methodinfo]
      rcases List.mem_append.mp hmem with hold | hfresh
      · obtain ⟨m, hm, hid⟩ := h.begun _ _ _ hold
        refine ⟨m, ?_, hid⟩
        by_cases hmethod : method = frame.method
        · subst hmethod
          rw [hself, hkept m hm]
        · rw [hothers _ hmethod, hm]
      · obtain ⟨rfl, m, hm, hid⟩ := hcall.exists_of_begin hfresh
        exact ⟨m, hself.trans (congrArg some hm), hid⟩
  · rw [cacheStep_of_not_passes config garbage hpasses, List.append_nil]
    exact ⟨h.announced, h.treated, h.begun⟩

/-- Between two rules, the history is kept. -/
theorem announced_run {s : RuledHook} (hempty : s.methodinfo = []) {events : List CacheEvent}
    (hkept : ∀ e ∈ events, ¬ e.Effective) :
    Announced (Mealy.run (cacheStep config) s events).2
      (Mealy.run (cacheStep config) s events).1 := by
  have hstart : Announced [] s := by
    refine ⟨fun method => ?_, fun method => ?_, fun _ _ _ h => absurd h List.not_mem_nil⟩
    · rw [hempty]
      rfl
    · rw [hempty]
      simp
  refine Mealy.run_history_of_allSteps (C := fun _ e => ¬ e.Effective) ?_ hstart
    (Mealy.allSteps_of_forall hkept s)
  intro os s e h hnot
  cases e with
  | addRule r =>
      have hsame : s.addRule r = s := if_neg hnot
      rw [cacheStep, hsame, List.append_nil]
      exact h
  | call thread frame garbage => exact h.call thread frame garbage
  | other thread shadow =>
      rw [cacheStep, List.append_nil]
      exact ⟨h.announced, h.treated, h.begun⟩

/-- A history announces what is whitelisted once. -/
theorem Announced.once {os : List CacheOutput} {s : RuledHook} (h : Announced os s) :
    AnnouncedOnce os := by
  constructor
  · intro method htreated
    obtain ⟨m, hm⟩ := (h.treated method).mp htreated
    refine ⟨m.functionId, m.source, ?_, ?_⟩
    · rw [h.announced, hm]
      rfl
    · intro functionId' instanceId hbegun
      obtain ⟨m', hm', hid⟩ := h.begun _ _ _ hbegun
      rw [hm] at hm'
      obtain rfl := Option.some.inj (Option.some.inj hm')
      exact hid
  · intro method htreated
    rw [h.announced]
    cases hlookup : s.methodinfo.lookup method with
    | none => rfl
    | some entry =>
        cases entry with
        | none => rfl
        | some m => exact absurd ((h.treated method).mpr ⟨m, hlookup⟩) htreated

/-! ## Transparency -/

/-- The table is empty at the start, and after every effective rule. -/
theorem methodinfo_run_eq_nil {before : List CacheEvent}
    (h : before = [] ∨ ∃ earlier e, before = earlier ++ [e] ∧ e.Effective) :
    (Mealy.run (cacheStep config) .new before).1.methodinfo = [] := by
  rcases h with rfl | ⟨earlier, e, rfl, heffective⟩
  · rfl
  · rw [Mealy.run_append, Mealy.run_singleton]
    cases e with
    | addRule r =>
        have hflush : ∀ s : RuledHook, (s.addRule r).methodinfo = [] := by
          intro s
          exact congrArg RuledHook.methodinfo (if_pos heffective)
        exact hflush _
    | call thread frame garbage => exact heffective.elim
    | other thread shadow => exact heffective.elim

/-- A new tracer has the same counters with the table and without it. -/
theorem uncachedBy_new : UncachedBy config .new .new :=
  ⟨rfl, fun _ _ h => absurd h (by simp [RuledHook.new]), fun _ => ⟨rfl, rfl, rfl⟩⟩

/-- The needle begins with the class path that is looked up. -/
theorem exists_blacklistNeedle (className methodName : CString) :
    ∃ rest, blacklistNeedle className methodName = className.bytes.take rgMaxStringSize ++ rest := by
  have hpath : className.bytes.take rgMaxStringSize <+: fullyQualified className methodName :=
    (List.take_prefix _ _).trans (List.prefix_append _ _)
  have hneedle : blacklistNeedle className methodName <+: fullyQualified className methodName :=
    List.take_prefix _ _
  obtain ⟨rest, hrest⟩ := List.prefix_of_prefix_length_le hpath hneedle (by
    rw [blacklistNeedle, fullyQualified, List.length_take, List.length_take, List.length_append,
      List.length_cons]
    omega)
  exact ⟨rest, hrest.symm⟩

/-- **What does not read the byte does not depend on it.** -/
theorem HookConfig.verdict_eq {rules : List Rule} {hash : Nat}
    (h : ¬ config.ReadsGarbage rules hash) (garbage garbage' : UInt8) :
    config.verdict (.ofRules rules) garbage hash = config.verdict (.ofRules rules) garbage' hash := by
  rw [HookConfig.ReadsGarbage] at h
  rw [verdict, verdict]
  dsimp only at h ⊢
  obtain ⟨rest, hrest⟩ := exists_blacklistNeedle (rbRgFillClassAndMethod (config.method hash)).1
    (rbRgFillClassAndMethod (config.method hash)).2
  rw [hrest] at h ⊢
  exact rbRgBlacklistedMethodP_eq_of_not_readsGarbage h garbage garbage'

/-- Where no call reads the byte, it matters to none. -/
theorem allSteps_settled {events : List CacheEvent} (h : NoGarbageRead config events) :
    Mealy.AllSteps (cacheStep config) (Settled config) .new events := by
  rw [Mealy.allSteps_iff_split]
  rintro before e after hsplit thread frame garbage rfl hpasses
  have hread := h before thread frame garbage after hsplit hpasses
  rw [lists_run, HookConfig.classifyMethod, HookConfig.classifyMethod,
    HookConfig.verdict_eq hread garbage 0]

/-- **The methodinfo cache is transparent**, whatever the rules, the calls and their order, as long
as no call is of a method for which the classifier would read the byte. -/
theorem methodinfo_transparent (config : HookConfig) (events : List CacheEvent)
    (hread : NoGarbageRead config events) : CacheTransparent config events := by
  have hsettled := allSteps_settled hread
  constructor
  · rintro before thread frame garbage after blacklisted rfl htreated
    obtain ⟨hbefore, hlast⟩ := Mealy.allSteps_append.mp hsettled
    have hagrees : (Mealy.run (cacheStep config) .new before).1.CacheAgrees config :=
      Mealy.run_invariant_of_allSteps cacheAgrees_cacheStep uncachedBy_new.agrees hbefore
    have hlists : (Mealy.run (cacheStep config) .new before).1.lists = _ := lists_run before
    have hstep := hlast.1
    generalize (Mealy.run (cacheStep config) .new before).1 = s at *
    rw [← hlists, ← HookConfig.classifyMethod_eq_none_iff]
    by_cases hpasses : (s.on thread).PassesCall frame
    · obtain ⟨_, _, begun, entry, hcall⟩ := exists_callResolves config garbage hpasses
      have hbyte := hstep _ _ _ rfl hpasses
      obtain ⟨hsource, -⟩ := (hcall.resolves.congr hbyte).agrees hagrees
      rw [hcall.outputs] at htreated
      have hentry : blacklisted = entry.isNone := by simpa using htreated
      rw [hentry, hbyte, ← hsource, Option.map_eq_none_iff, Option.isNone_iff_eq_none]
    · rw [cacheStep_of_not_passes config garbage hpasses] at htreated
      cases htreated
  · exact (Mealy.run_observation_of_allSteps (UncachedBy config) _ _
      (fun _ _ e h hstep => h.step e hstep) uncachedBy_new hsettled).2
  · intro before segment after _ hflushed hkept
    exact (announced_run (methodinfo_run_eq_nil hflushed) hkept).once

/-- Nothing is read of the buffer where no rule is the empty path. -/
theorem methodinfo_transparent_fooBar :
    CacheTransparent fooBar
      [.addRule whitelistBaz, .call 0 (frameOf 0) 0, .addRule ⟨none, none, .blacklisted⟩,
        .call 0 (frameOf 0) 0x47] := by
  refine methodinfo_transparent fooBar _ ?_
  intro before thread frame garbage after hsplit _ hread
  obtain ⟨r, hr, hkey⟩ := hread.nearest.filed
  have hmem : r ∈ addedRules [.addRule whitelistBaz, .call 0 (frameOf 0) 0,
      .addRule ⟨none, none, .blacklisted⟩, .call 0 (frameOf 0) 0x47] := by
    rw [hsplit, addedRules, List.filterMap_append]
    exact List.mem_append_left _ hr
  simp only [addedRules, List.filterMap_cons, List.filterMap_nil, List.mem_cons, List.not_mem_nil,
    or_false] at hmem
  rcases hmem with rfl | rfl
  · exact absurd hkey (by decide)
  · exact absurd hkey (by decide)

/-- The rules `''`, whitelisted, and `Foo#`, blacklisted. -/
def emptyAndFoo : List CacheEvent :=
  [.addRule ⟨some ⟨[], by decide⟩, none, .whitelisted⟩,
    .addRule ⟨some ⟨ascii "Foo#", by decide⟩, none, .blacklisted⟩]

/-- With these rules, a call of `Foo#bar` is classified by the byte in the buffer: the table goes on
to treat the method as blacklisted where the classifier would say that it is whitelisted. -/
theorem not_cacheTransparent_emptyAndFoo :
    ¬ CacheTransparent fooBar (emptyAndFoo ++ [.call 0 (frameOf 0) 0, .call 0 (frameOf 0) 0x47]) := by
  intro h
  have hcached := h.decisions (emptyAndFoo ++ [.call 0 (frameOf 0) 0]) 0 (frameOf 0) 0x47 [] true rfl
    (by decide +kernel)
  exact absurd (hcached.mp rfl) (by decide +kernel)

end RaygunApm
