import RaygunApm.Hook.Cache
import RaygunApm.Rules.Prefixes

/-! # Sources of methods

`register_libraries` files the paths of libraries in a radix tree, and `rb_rg_methodinfo` looks the
file of a method up in it, once, when it discovers the method. In every run the METHODINFO of a
method names the source that the libraries registered by then imply (`declares_iff`). -/

namespace RaygunApm

/-- The hook, with the libraries that are known. -/
structure LibraryHook where
  hook : RuledHook
  /-- `tracer->libraries`. -/
  libraries : Rax Verdict

/-- What happens to the hook. -/
inductive SourceEvent where
  /-- `register_libraries`. -/
  | registerLibraries (libraries : List CString)
  /-- `add_blacklist` or `add_whitelist`. -/
  | addRule (r : Rule)
  /-- `RUBY_EVENT_CALL`, with the byte that the classifier would find in its buffer. -/
  | call (thread : Nat) (frame : Frame) (traced : TracedMethod) (garbage : UInt8)
  /-- `RUBY_EVENT_RETURN`. -/
  | ret (thread : Nat) (frame : Frame)

namespace LibraryHook

/-- The hook of a new tracer. -/
def new : LibraryHook where
  hook := .new
  libraries := raxNew

/-- `rb_rg_tracer_register_libraries`. -/
def rbRgTracerRegisterLibraries (s : LibraryHook) (libraries : List CString) : LibraryHook :=
  { s with
    libraries :=
      libraries.foldl (fun tree library => raxInsert tree library.bytes .whitelisted) s.libraries }

/-- What the hook classifies the method of a call with. -/
def config (s : LibraryHook) (traced : TracedMethod) : HookConfig where
  method _ := traced
  libraries := s.libraries

/-- One step of the hook. -/
def step (s : LibraryHook) : SourceEvent → LibraryHook × List HookOutput
  | .registerLibraries libraries => (s.rbRgTracerRegisterLibraries libraries, [])
  | .addRule r => ({ s with hook := s.hook.addRule r }, [])
  | .call thread frame traced garbage =>
      let handled := s.hook.call (s.config traced) thread frame garbage
      ({ s with hook := handled.1 }, handled.2)
  | .ret thread frame =>
      let handled := s.hook.ret thread frame
      ({ s with hook := handled.1 }, handled.2)

/-- The hook goes through some events. -/
def run : LibraryHook → List SourceEvent → LibraryHook × List HookOutput :=
  Mealy.run step

end LibraryHook

/-! ## The documented source -/

/-- The libraries that an event registers. -/
def SourceEvent.libraries : SourceEvent → List CString
  | .registerLibraries libraries => libraries
  | _ => []

/-- A file is in a known library: a registered path is a prefix of it, and some registered path
begins with its first character. The second condition follows from the first one unless that prefix
is the empty path, which alone makes no file one of a library: the lookup gives up at the first
character. -/
def KnownLibrary (registered : List CString) (path : Bytes) : Prop :=
  path ≠ [] ∧ (∃ library ∈ registered, library.bytes.head? = path.head?) ∧
    ∃ library ∈ registered, library.bytes <+: path

instance (registered : List CString) (path : Bytes) : Decidable (KnownLibrary registered path) :=
  inferInstanceAs (Decidable (_ ∧ _ ∧ _))

/-- The source of a method: the entry point is system code, then come the methods that wait for
synchronization, then those of known libraries, and everything else is user code. -/
def TracedMethod.documentedSource (traced : TracedMethod) (registered : List CString) : MethodSource :=
  if traced.methodName.bytes = rgTraceEntrypointFrameName then .system
  else if synchronizationMethods.contains
      (blacklistNeedle (rbRgFillClassAndMethod traced).1 traced.methodName) then
    .waitForSynchronization
  else if KnownLibrary registered traced.path.bytes then .knownLibrary
  else .userCode

/-! ## The tree of libraries -/

namespace LibraryHook

/-- The calls of `raxInsert` for some libraries. -/
def inserts (registered : List CString) : List (Bytes × Verdict) :=
  registered.map fun library => (library.bytes, .whitelisted)

/-- The keys inserted for the known libraries are those registered, all of them whitelisted. -/
theorem lastInserted_inserts (registered : List CString) (key : Bytes) (v : Verdict) :
    lastInserted (inserts registered) key = some v ↔
      v = .whitelisted ∧ ∃ library ∈ registered, library.bytes = key := by
  induction registered using List.reverseRecOn with
  | nil => simp [inserts, lastInserted]
  | append_singleton registered library ih =>
      rw [inserts, List.map_append, List.map_singleton, lastInserted_append]
      split
      next hkey => simp [← hkey, eq_comm]
      next hkey =>
        rw [← inserts, ih]
        simp [hkey]

/-- **The tree** of the registered libraries finds the files in them. -/
theorem known_iff (registered : List CString) (path : Bytes) :
    rbRgBlacklistedStringP (raxOf (inserts registered)) path = some .whitelisted ↔
      KnownLibrary registered path := by
  have hentries : ∀ key v, (key, v) ∈ (raxOf (inserts registered)).entries ↔
      v = .whitelisted ∧ ∃ library ∈ registered, library.bytes = key := fun key v =>
    (mem_entries_raxOf _ key v).trans (lastInserted_inserts registered key v)
  have hstart : StartsAlong (raxOf (inserts registered)).entries path ↔
      path ≠ [] ∧ ∃ library ∈ registered, library.bytes.head? = path.head? := by
    refine and_congr_right' ⟨?_, ?_⟩
    · rintro ⟨⟨key, v⟩, hmem, hhead⟩
      obtain ⟨-, library, hlibrary, rfl⟩ := (hentries key v).mp hmem
      exact ⟨library, hlibrary, hhead⟩
    · rintro ⟨library, hlibrary, hhead⟩
      exact ⟨_, (hentries library.bytes .whitelisted).mpr ⟨rfl, library, hlibrary, rfl⟩, hhead⟩
  rw [rbRgBlacklistedStringP_eq, prefixWalk, KnownLibrary, ← and_assoc, ← hstart]
  split
  next hs =>
    rw [prefixVerdict_eq_whitelisted_iff, and_iff_right hs]
    constructor
    · rintro ⟨⟨key, v⟩, hmem, hpre, -⟩
      obtain ⟨-, library, hlibrary, rfl⟩ := (hentries key v).mp hmem
      exact ⟨library, hlibrary, hpre⟩
    · rintro ⟨library, hlibrary, hpre⟩
      exact ⟨_, (hentries library.bytes .whitelisted).mpr ⟨rfl, library, hlibrary, rfl⟩, hpre, rfl⟩
  next hs => simp [hs]

/-- What waits for synchronization does so in a library too. -/
theorem source_priority (known waits : Prop) [Decidable known] [Decidable waits] :
    (if known ∧ (if waits then MethodSource.waitForSynchronization else .userCode) = .userCode then
        MethodSource.knownLibrary
      else if waits then .waitForSynchronization else .userCode)
      = if waits then .waitForSynchronization else if known then .knownLibrary else .userCode := by
  by_cases hwaits : waits <;> by_cases hknown : known <;> simp [hwaits, hknown]

/-- The source of a discovered method is the documented one. -/
theorem source_config {s : LibraryHook} {registered : List CString}
    (h : s.libraries = raxOf (inserts registered)) (traced : TracedMethod) (hash : Nat) :
    (s.config traced).source hash = traced.documentedSource registered := by
  have hknown := known_iff registered traced.path.bytes
  rw [← h] at hknown
  show (if traced.methodName.bytes = rgTraceEntrypointFrameName then _ else _) = _
  rw [TracedMethod.documentedSource]
  split
  · rfl
  · exact (source_priority _ _).trans
      (if_congr List.contains_iff_mem.symm rfl (if_congr hknown rfl rfl))

/-- The libraries are those that the run has registered. -/
theorem libraries_run (events : List SourceEvent) :
    (run new events).1.libraries = raxOf (inserts (events.flatMap SourceEvent.libraries)) := by
  induction events using List.reverseRecOn with
  | nil => rfl
  | append_singleton events e ih =>
      rw [run, Mealy.run_append, Mealy.run_singleton, ← run, List.flatMap_append, inserts,
        List.map_append, List.flatMap_singleton]
      cases e with
      | registerLibraries libraries =>
          show libraries.foldl _ (run new events).1.libraries = _
          rw [ih, raxOf, raxOf, List.foldl_append, List.foldl_map, SourceEvent.libraries, inserts]
      | addRule r => exact ih.trans (by simp [SourceEvent.libraries, inserts])
      | call thread frame traced garbage => exact ih.trans (by simp [SourceEvent.libraries, inserts])
      | ret thread frame => exact ih.trans (by simp [SourceEvent.libraries, inserts])

/-- A call declares its method if it gets past the guards, and the method is not in the table and
comes from somewhere. -/
theorem mem_rubyEventCall_iff (classify : Nat → Option MethodSource) {frame : Frame} {s : HookState}
    {functionId : UInt32} {source : MethodSource} :
    .methodinfo functionId source ∈ (rubyEventCall classify frame s).2 ↔
      s.PassesCall frame ∧ s.methodinfo.lookup frame.method = none ∧
        classify frame.method = some source ∧ functionId = s.methods + 1 := by
  have hbegin : ∀ (rgMethod : RgMethod) (s : HookState),
      .methodinfo functionId source ∉ (s.begin rgMethod frame).2 := by
    intro rgMethod s
    rw [s.begin_eq_ite]
    split <;> simp
  by_cases hpasses : s.PassesCall frame
  · rw [and_iff_right hpasses]
    generalize hresolve : s.entered.resolve classify frame.method = resolved
    have hresolves := s.entered.resolves classify frame.method
    rw [hresolve] at hresolves
    cases hresolves with
    | known entry hlookup =>
        have hknown : s.methodinfo.lookup frame.method = some entry := hlookup
        cases entry with
        | none => simp [rubyEventCall_of_none hpasses hresolve, hknown]
        | some rgMethod => simp [rubyEventCall_of_some hpasses hresolve, hknown, hbegin]
    | whitelisted found hlookup hclassify =>
        have hunknown : s.methodinfo.lookup frame.method = none := hlookup
        rw [rubyEventCall_of_some hpasses hresolve]
        simp only [List.mem_append, hbegin, or_false, List.mem_singleton, hunknown, hclassify]
        simp [HookState.entered, and_comm, eq_comm]
    | blacklisted hlookup hclassify =>
        simp [rubyEventCall_of_none hpasses hresolve, hclassify]
  · simp [rubyEventCall_of_not_passes classify hpasses, hpasses]

/-- **METHODINFO names the source.** In every run, a call declares its method exactly if it gets
past the guards and the table does not hold the method, which the rules do not blacklist; and the
source that it declares is the documented one for the libraries that have been registered by then.
-/
theorem declares_iff (before : List SourceEvent) (thread : Nat) (frame : Frame)
    (traced : TracedMethod) (garbage : UInt8) (functionId : UInt32) (source : MethodSource) :
    let s := (run new before).1
    .methodinfo functionId source ∈ (s.step (.call thread frame traced garbage)).2 ↔
      ((s.hook.on thread).PassesCall frame ∧ s.hook.methodinfo.lookup frame.method = none ∧
        (s.config traced).verdict s.hook.lists garbage frame.method ≠ some .blacklisted) ∧
      functionId = s.hook.methods + 1 ∧
      source = traced.documentedSource (before.flatMap SourceEvent.libraries) := by
  intro s
  have hsource := source_config (libraries_run before) traced frame.method
  show _ ∈ (rubyEventCall _ frame (s.hook.on thread)).2 ↔ _
  rw [mem_rubyEventCall_iff, HookConfig.classifyMethod, hsource]
  show (_ ∧ s.hook.methodinfo.lookup frame.method = none ∧ _ ∧ functionId = s.hook.methods + 1) ↔ _
  by_cases hblack : (s.config traced).verdict s.hook.lists garbage frame.method = some .blacklisted
  · simp [hblack]
  · rw [if_neg hblack, Option.some.injEq]
    simp only [ne_eq, hblack, not_false_eq_true, and_true]
    constructor
    · rintro ⟨hpasses, hunknown, rfl, rfl⟩
      exact ⟨⟨hpasses, hunknown⟩, rfl, rfl⟩
    · rintro ⟨⟨hpasses, hunknown⟩, rfl, rfl⟩
      exact ⟨hpasses, hunknown, rfl, rfl⟩

end LibraryHook

end RaygunApm
