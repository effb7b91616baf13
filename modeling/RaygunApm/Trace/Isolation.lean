import RaygunApm.Trace.Contexts

/-! # Concurrent traces

Whatever threads do, every trace context is registered under its thread group, and the thread that
has started the trace is still in this group. So a thread group has at most one context, a thread
has started at most one of them, and the events of a thread pass the filter of the context of its
group, and of no other (`traces_isolated`). -/

namespace RaygunApm

/-! ## The property -/

/-- Concurrent traces are isolated from each other. -/
structure TracesIsolated (s : TraceState) : Prop where
  /-- A thread group has at most one context. -/
  group : ∀ group group' c c', s.tracecontexts group = some c → s.tracecontexts group' = some c' →
    c.thgroup = c'.thgroup → group = group'
  /-- A thread has started at most one of them. -/
  thread : ∀ group group' c c', s.tracecontexts group = some c → s.tracecontexts group' = some c' →
    c.thread = c'.thread → group = group'
  /-- The thread that has started a trace is still in its group. -/
  owner : ∀ group c, s.tracecontexts group = some c →
    ∃ v, s.vm c.thread = some v ∧ v.group = c.thgroup
  /-- The filter lets the events of a thread through for at most one context. -/
  filter : ∀ thread group group' c c', s.tracecontexts group = some c →
    s.tracecontexts group' = some c' → PassesFilter s c thread → PassesFilter s c' thread →
    group = group'
  /-- The hook emits something for at most one of them. -/
  reported : ∀ thread group group' flag m m', (rbRgTracingHook s group thread flag m).2 ≠ [] →
    (rbRgTracingHook s group' thread flag m').2 ≠ [] → group = group'

/-! ## What changes a context, and the group of a thread -/

/-- A context but for its parent thread. -/
def TraceContext.fixed (c : TraceContext) : TraceContext := { c with parentThread := none }

/-- The threads keep their groups, and the contexts all but their parent threads. -/
structure TraceState.Keeps (s s' : TraceState) : Prop where
  groups : ∀ thread, (s'.vm thread).map VmThread.group = (s.vm thread).map VmThread.group
  contexts : ∀ group, (s'.tracecontexts group).map TraceContext.fixed
    = (s.tracecontexts group).map TraceContext.fixed

variable {s s' s'' : TraceState} {c : TraceContext} {group thread : Nat}

theorem TraceState.Keeps.refl (s : TraceState) : s.Keeps s := ⟨fun _ => rfl, fun _ => rfl⟩

/-- Two steps that keep groups and contexts keep them together. -/
theorem TraceState.Keeps.trans (h : s.Keeps s') (h' : s'.Keeps s'') : s.Keeps s'' :=
  ⟨fun thread => (h'.groups thread).trans (h.groups thread),
    fun group => (h'.contexts group).trans (h.contexts group)⟩

/-- Groups and contexts are kept where threads and contexts do not change. -/
theorem TraceState.Keeps.of_eq (hvm : s'.vm = s.vm) (hcontexts : s'.tracecontexts = s.tracecontexts) :
    s.Keeps s' :=
  ⟨fun _ => by rw [hvm], fun _ => by rw [hcontexts]⟩

/-- Threads stay in their groups. -/
theorem TraceState.Keeps.thread_group (h : s.Keeps s') (thread : Nat) :
    rbRgThreadGroup s' thread = rbRgThreadGroup s thread := by
  have hgroup : ∀ v : Option VmThread, v.elim rbRgDefaultThreadGroup VmThread.group
      = (v.map VmThread.group).getD rbRgDefaultThreadGroup := fun v => by cases v <;> rfl
  rw [rbRgThreadGroup, rbRgThreadGroup, hgroup, hgroup, h.groups]

/-- A context of the later state was there before. -/
theorem TraceState.Keeps.exists_context (h : s.Keeps s') (hc : s'.tracecontexts group = some c) :
    ∃ c', s.tracecontexts group = some c' ∧ c'.thread = c.thread ∧ c'.thgroup = c.thgroup ∧
      c'.rgThread = c.rgThread := by
  have hfixed := h.contexts group
  rw [hc, Option.map_some] at hfixed
  obtain ⟨c', hc', heq⟩ := Option.map_eq_some_iff.mp hfixed.symm
  exact ⟨c', hc', (congrArg TraceContext.thread heq :), (congrArg TraceContext.thgroup heq :),
    (congrArg TraceContext.rgThread heq :)⟩

/-- Entering a phase keeps the groups. -/
theorem TraceState.keeps_enter (s : TraceState) (thread : Nat) (phase : Phase) :
    s.Keeps (s.enter thread phase) := by
  refine ⟨fun thread' => ?_, fun _ => rfl⟩
  by_cases h : thread' = thread
  · subst h
    rw [s.enter_vm_self, Option.map_map]
    rfl
  · rw [s.enter_vm_of_ne h]

/-- Looking up a shadow thread changes neither threads nor contexts. -/
theorem rbRgThread_tables (s : TraceState) (thread address : Nat) :
    (rbRgThread s thread address).1.vm = s.vm ∧
      (rbRgThread s thread address).1.tracecontexts = s.tracecontexts := by
  unfold rbRgThread
  cases s.threadsinfo thread with
  | some th => exact ⟨rfl, rfl⟩
  | none => exact ⟨rfl, rfl⟩

/-- The hook behind the filter changes neither threads nor contexts. -/
theorem TraceState.handle_tables (s : TraceState) (c : TraceContext) (thread th : Nat)
    (flag : TraceFlag) (m : Memory) :
    (s.handle c thread th flag m).1.vm = s.vm ∧
      (s.handle c thread th flag m).1.tracecontexts = s.tracecontexts := by
  cases flag with
  | code => exact ⟨rfl, rfl⟩
  | threadBegin => exact ⟨rfl, rfl⟩
  | threadEnd => exact rbRgThread_tables s thread m.second

/-- Seeing a thread does not change the fixed part of a context. -/
theorem TraceContext.seen_fixed (c : TraceContext) (thread : Nat) (flag : TraceFlag) :
    (c.seen thread flag).fixed = c.fixed := by
  unfold seen
  split <;> rfl

/-- The state in which the hook has seen a thread. -/
def TraceState.see (s : TraceState) (group : Nat) (c : TraceContext) (thread : Nat)
    (flag : TraceFlag) : TraceState :=
  { s with tracecontexts := Function.update s.tracecontexts group (some (c.seen thread flag)) }

/-- What the hook does. -/
inductive HookCases (s : TraceState) (group thread : Nat) (flag : TraceFlag) (m : Memory) :
    TraceState × List TraceOutput → Prop
  /-- The group has no context, or the thread is the tracer's own. -/
  | silent : s.tracecontexts group = none ∨ s.OwnThread thread →
      HookCases s group thread flag m (s, [])
  /-- The filter stops the event. -/
  | filtered (c : TraceContext) : s.tracecontexts group = some c → ¬ s.OwnThread thread →
      ¬ PassesFilter s c thread → HookCases s group thread flag m (s.see group c thread flag, [])
  /-- The event is of the thread that has started the trace. -/
  | starter (c : TraceContext) : s.tracecontexts group = some c → ¬ s.OwnThread thread →
      thread = c.thread → HookCases s group thread flag m
        ((s.see group c thread flag).handle (c.seen thread flag) thread c.rgThread flag m)
  /-- The event is of another thread of the group. -/
  | member (c : TraceContext) : s.tracecontexts group = some c → ¬ s.OwnThread thread →
      thread ≠ c.thread → PassesFilter s c thread → HookCases s group thread flag m
        ((rbRgThread (s.see group c thread flag) thread m.first).1.handle (c.seen thread flag) thread
          (rbRgThread (s.see group c thread flag) thread m.first).2 flag m)

/-- **What the hook does.** -/
theorem hookCases (s : TraceState) (group thread : Nat) (flag : TraceFlag) (m : Memory) :
    HookCases s group thread flag m (rbRgTracingHook s group thread flag m) := by
  unfold rbRgTracingHook
  cases hc : s.tracecontexts group with
  | none => exact .silent (.inl hc)
  | some c =>
      dsimp only
      -- What the hook notes down about the event leaves the fields it looks at alone.
      have hthread : (c.seen thread flag).thread = c.thread :=
        (congrArg TraceContext.thread (c.seen_fixed thread flag) :)
      have hgroup : (c.seen thread flag).thgroup = c.thgroup :=
        (congrArg TraceContext.thgroup (c.seen_fixed thread flag) :)
      have hrgThread : (c.seen thread flag).rgThread = c.rgThread :=
        (congrArg TraceContext.rgThread (c.seen_fixed thread flag) :)
      have hpasses : PassesFilter (s.see group c thread flag) (c.seen thread flag) thread
          ↔ PassesFilter s c thread := by
        rw [PassesFilter, PassesFilter, hthread, hgroup]
        rfl
      rw [← TraceState.see, hthread, hrgThread]
      split
      · rename_i hown
        exact .silent (.inr hown)
      · rename_i hown
        split
        · rename_i hstarter
          exact .starter c hc hown hstarter
        · rename_i hother
          split
          · rename_i hp
            exact .member c hc hown hother (hpasses.mp hp)
          · rename_i hp
            exact .filtered c hc hown fun h => hp (hpasses.mpr h)

/-- A thread that has been seen is remembered as the parent thread, and nowhere else. -/
theorem TraceState.keeps_see (flag : TraceFlag) (thread : Nat) (hc : s.tracecontexts group = some c) :
    s.Keeps (s.see group c thread flag) := by
  refine ⟨fun _ => rfl, fun group' => ?_⟩
  rw [see]
  dsimp only
  by_cases h : group' = group
  · subst h
    rw [Function.update_self, hc, Option.map_some, Option.map_some, c.seen_fixed]
  · rw [Function.update_of_ne h]

/-- **The hook keeps the contexts**, all but their parent threads. -/
theorem keeps_rbRgTracingHook (s : TraceState) (group thread : Nat) (flag : TraceFlag) (m : Memory) :
    s.Keeps (rbRgTracingHook s group thread flag m).1 := by
  have h := hookCases s group thread flag m
  generalize rbRgTracingHook s group thread flag m = result at h ⊢
  cases h with
  | silent => exact .refl s
  | filtered c hc => exact s.keeps_see flag thread hc
  | starter c hc =>
      obtain ⟨hvm, hcontexts⟩ := (s.see group c thread flag).handle_tables (c.seen thread flag) thread
        c.rgThread flag m
      exact (s.keeps_see flag thread hc).trans (.of_eq hvm hcontexts)
  | member c hc =>
      obtain ⟨hvm, hcontexts⟩ := rbRgThread_tables (s.see group c thread flag) thread m.first
      obtain ⟨hvm', hcontexts'⟩ :=
        (rbRgThread (s.see group c thread flag) thread m.first).1.handle_tables (c.seen thread flag)
          thread (rbRgThread (s.see group c thread flag) thread m.first).2 flag m
      exact (s.keeps_see flag thread hc).trans
        (.of_eq (hvm'.trans hvm) (hcontexts'.trans hcontexts))

/-! ## The invariant -/

/-- Every context is registered under its own group, which its thread is in. -/
structure TraceState.Owned (s : TraceState) : Prop where
  key : ∀ group c, s.tracecontexts group = some c →
    c.thgroup = group ∧ group ≠ rbRgDefaultThreadGroup
  owner : ∀ group c, s.tracecontexts group = some c →
    ∃ v, s.vm c.thread = some v ∧ v.group = group

/-- The invariant is about what `Keeps` keeps. -/
theorem TraceState.Owned.keeps (h : s.Owned) (hkeeps : s.Keeps s') : s'.Owned := by
  constructor
  · intro group c hc
    obtain ⟨c', hc', -, hgroup, -⟩ := hkeeps.exists_context hc
    rw [← hgroup]
    exact h.key group c' hc'
  · intro group c hc
    obtain ⟨c', hc', hthread, -, -⟩ := hkeeps.exists_context hc
    obtain ⟨v, hv, hgroup⟩ := h.owner group c' hc'
    have hvm := hkeeps.groups c.thread
    rw [← hthread, hv, Option.map_some] at hvm
    obtain ⟨v', hv', heq⟩ := Option.map_eq_some_iff.mp hvm
    exact ⟨v', hthread ▸ hv', heq.trans hgroup⟩

/-- The group of a thread of the VM. -/
theorem rbRgThreadGroup_eq {v : VmThread} (h : s.vm thread = some v) :
    rbRgThreadGroup s thread = v.group := by
  rw [rbRgThreadGroup, h]
  rfl

/-- The state in which a thread has started a trace: it has the new group, which has the new
context. -/
def TraceState.started (s : TraceState) (thread : Nat) (m : Memory) : TraceState :=
  { rbRgThreadGroupAdd m.group (rbRgThread s thread m.first).1 thread with
    tracecontexts := Function.update s.tracecontexts m.group (some
      { thread := thread, parentThread := none, thgroup := m.group,
        rgThread := (rbRgThread s thread m.first).2 }) }

/-- **What `start_trace` does.** -/
theorem startTrace_cases (s : TraceState) (thread : Nat) (m : Memory) :
    rbRgTracerStartTrace s thread m = (s, []) ∨
      rbRgGetCurrentThreadTraceContext s thread = none ∧
        rbRgTracerStartTrace s thread m = (s.started thread m, [.beginTransaction m.group thread
          ((rbRgThread s thread m.first).1.tidAt m (rbRgThread s thread m.first).2)]) := by
  unfold rbRgTracerStartTrace
  by_cases hnoop : s.noop = true
  · rw [if_pos hnoop]
    exact .inl rfl
  · rw [if_neg hnoop]
    cases hc : rbRgGetCurrentThreadTraceContext s thread with
    | some c => exact .inl rfl
    | none =>
        refine .inr ⟨rfl, ?_⟩
        rw [TraceState.started, ← (rbRgThread_tables s thread m.first).2]
        rfl

/-- The groups in the state in which a thread has started a trace. -/
theorem TraceState.started_vm (s : TraceState) (thread : Nat) (m : Memory) :
    (s.started thread m).vm = (rbRgThreadGroupAdd m.group s thread).vm := by
  show (rbRgThreadGroupAdd m.group (rbRgThread s thread m.first).1 thread).vm = _
  rw [rbRgThreadGroupAdd, rbRgThreadGroupAdd, (rbRgThread_tables s thread m.first).1]

/-- A thread whose group has no context has started no trace that is open. -/
theorem TraceState.Owned.not_starter_of_none (h : s.Owned)
    (hnone : rbRgGetCurrentThreadTraceContext s thread = none)
    (hc : s.tracecontexts group = some c) : c.thread ≠ thread := by
  rintro rfl
  obtain ⟨v, hv, hgroup⟩ := h.owner group c hc
  rw [rbRgGetCurrentThreadTraceContext, rbRgThreadGroup_eq hv, hgroup, hc] at hnone
  cases hnone

/-- **`start_trace` keeps the invariant**: the context of the old group of the thread would have
been found, so no other context loses its thread. -/
theorem TraceState.Owned.startTrace (h : s.Owned) {v : VmThread} (hv : s.vm thread = some v)
    {m : Memory} (hgroup : m.group ≠ rbRgDefaultThreadGroup) :
    (rbRgTracerStartTrace s thread m).1.Owned := by
  rcases startTrace_cases s thread m with heq | ⟨hnone, heq⟩
  · rw [heq]
    exact h
  · rw [heq]
    constructor
    · intro group c hc
      rw [TraceState.started] at hc
      dsimp only at hc
      rcases PartialMap.insert_eq_some_iff.mp hc with ⟨rfl, rfl⟩ | ⟨-, hc⟩
      · exact ⟨rfl, hgroup⟩
      · exact h.key group c hc
    · intro group c hc
      rw [TraceState.started] at hc
      dsimp only at hc ⊢
      rw [s.started_vm]
      rcases PartialMap.insert_eq_some_iff.mp hc with ⟨rfl, rfl⟩ | ⟨-, hc⟩
      · refine ⟨{ v with group := m.group }, ?_, rfl⟩
        rw [rbRgThreadGroupAdd_vm_self, hv, Option.map_some]
      · obtain ⟨v', hv', hgroup'⟩ := h.owner group c hc
        have hother := h.not_starter_of_none hnone hc
        exact ⟨v', by rw [rbRgThreadGroupAdd_vm_of_ne _ _ hother, hv'], hgroup'⟩

/-- The state in which a thread has ended the trace of its group. -/
def TraceState.ended (s : TraceState) (thread : Nat) : TraceState :=
  { s with tracecontexts := Function.update s.tracecontexts (rbRgThreadGroup s thread) none }

/-- **What `end_trace` does.** -/
theorem endTrace_cases (s : TraceState) (thread : Nat) (m : Memory) :
    rbRgTracerEndTrace s thread m = (s, []) ∨
      ∃ c, s.tracecontexts (rbRgThreadGroup s thread) = some c ∧
        rbRgTracerEndTrace s thread m = (s.ended thread,
          [.endTransaction (rbRgThreadGroup s thread) thread (s.tidAt m c.rgThread)]) := by
  unfold rbRgTracerEndTrace
  cases hc : rbRgGetCurrentThreadTraceContext s thread with
  | none => exact .inl rfl
  | some c => exact .inr ⟨c, hc, rfl⟩

/-- The contexts that are left were there before. -/
theorem TraceState.context_of_ended (hc : (s.ended thread).tracecontexts group = some c) :
    s.tracecontexts group = some c :=
  (PartialMap.erase_eq_some_iff.mp hc).2

/-! ## Settings -/

/-- What no event but `noop!` changes: the tracer's own threads, and whether it is silent. -/
structure TraceState.SameSettings (s s' : TraceState) : Prop where
  noop : s'.noop = s.noop
  sinkThread : s'.sinkThread = s.sinkThread
  timerThread : s'.timerThread = s.timerThread

/-- Two steps that keep the settings keep them together. -/
theorem TraceState.SameSettings.trans {s'' : TraceState} (h : s.SameSettings s')
    (h' : s'.SameSettings s'') : s.SameSettings s'' :=
  ⟨h'.noop.trans h.noop, h'.sinkThread.trans h.sinkThread, h'.timerThread.trans h.timerThread⟩

/-- With the same settings the tracer has the same threads of its own. -/
theorem TraceState.SameSettings.ownThread (h : s.SameSettings s') (thread : Nat) :
    s'.OwnThread thread ↔ s.OwnThread thread := by
  rw [TraceState.OwnThread, TraceState.OwnThread, h.sinkThread, h.timerThread]

/-- Looking up a shadow thread keeps the settings. -/
theorem sameSettings_rbRgThread (s : TraceState) (thread address : Nat) :
    s.SameSettings (rbRgThread s thread address).1 := by
  unfold rbRgThread
  split <;> exact ⟨rfl, rfl, rfl⟩

/-- The hook behind the filter keeps the settings. -/
theorem sameSettings_handle (s : TraceState) (c : TraceContext) (thread th : Nat) (flag : TraceFlag)
    (m : Memory) : s.SameSettings (s.handle c thread th flag m).1 := by
  cases flag with
  | code => exact ⟨rfl, rfl, rfl⟩
  | threadBegin => exact ⟨rfl, rfl, rfl⟩
  | threadEnd =>
      have h := sameSettings_rbRgThread s thread m.second
      exact ⟨h.noop, h.sinkThread, h.timerThread⟩

/-- The hook keeps the settings. -/
theorem sameSettings_hook (s : TraceState) (group thread : Nat) (flag : TraceFlag) (m : Memory) :
    s.SameSettings (rbRgTracingHook s group thread flag m).1 := by
  have hcases := hookCases s group thread flag m
  generalize rbRgTracingHook s group thread flag m = result at hcases
  cases hcases with
  | silent => exact ⟨rfl, rfl, rfl⟩
  | filtered c => exact ⟨rfl, rfl, rfl⟩
  | starter c =>
      have hsee : s.SameSettings (s.see group c thread flag) := ⟨rfl, rfl, rfl⟩
      exact hsee.trans (sameSettings_handle ..)
  | member c =>
      have hsee : s.SameSettings (s.see group c thread flag) := ⟨rfl, rfl, rfl⟩
      exact (hsee.trans (sameSettings_rbRgThread ..)).trans (sameSettings_handle ..)

/-- The tracer's own threads stay the same. -/
theorem ownThread_traceStep (s : TraceState) (e : TraceEvent) (thread : Nat) :
    (traceStep s e).1.OwnThread thread ↔ s.OwnThread thread := by
  cases e with
  | startTrace thread' m =>
      rw [traceStep]
      rcases startTrace_cases (s.enter thread' .running) thread' m with heq | ⟨-, heq⟩
      · rw [heq]
        rfl
      · rw [heq]
        exact (sameSettings_rbRgThread (s.enter thread' .running) thread' m.first).ownThread thread
  | endTrace thread' m =>
      rcases endTrace_cases (s.enter thread' .running) thread' m with heq | ⟨_, -, heq⟩
      · rw [traceStep, heq]
        rfl
      · rw [traceStep, heq]
        rfl
  | hook group thread' flag m =>
      exact (sameSettings_hook (s.enter thread' flag.phase) group thread' flag m).ownThread thread
  | _ => rfl

/-- **`end_trace` keeps the invariant.** -/
theorem TraceState.Owned.endTrace (h : s.Owned) (thread : Nat) (m : Memory) :
    (rbRgTracerEndTrace s thread m).1.Owned := by
  rcases endTrace_cases s thread m with heq | ⟨_, -, heq⟩
  · rw [heq]
    exact h
  · rw [heq]
    exact ⟨fun group c hc => h.key group c (TraceState.context_of_ended hc),
      fun group c hc => h.owner group c (TraceState.context_of_ended hc)⟩

/-- **Every event keeps the invariant.** -/
theorem owned_traceStep (h : s.Owned) {e : TraceEvent} (hpossible : Possible s e) :
    (traceStep s e).1.Owned := by
  cases e with
  | noop => exact h.keeps (.of_eq rfl rfl)
  | startTrace thread m =>
      obtain ⟨⟨v, hv, -⟩, hgroup, -⟩ := hpossible
      have hv' : (s.enter thread .running).vm thread = some { v with phase := .running } := by
        rw [s.enter_vm_self, hv, Option.map_some]
      exact (h.keeps (s.keeps_enter thread .running)).startTrace hv' hgroup
  | endTrace thread m => exact (h.keeps (s.keeps_enter thread .running)).endTrace thread m
  | spawn thread child =>
      obtain ⟨-, -, -, hcontexts⟩ := hpossible
      have hentered := h.keeps (s.keeps_enter thread .running)
      refine ⟨hentered.key, fun group c hc => ?_⟩
      obtain ⟨v, hv, hgroup⟩ := hentered.owner group c hc
      refine ⟨v.forget child, ?_, hgroup⟩
      rw [traceStep]
      dsimp only
      rw [Function.update_of_ne (hcontexts group c hc).1, hv, Option.map_some]
  | hook group thread flag m =>
      exact h.keeps ((s.keeps_enter thread flag.phase).trans (keeps_rbRgTracingHook _ _ _ _ _))
  | finish thread => exact h.keeps (s.keeps_enter thread .dead)

/-- A new tracer has no contexts. -/
theorem owned_new (vm : Nat → Option VmThread) (sinkThread timerThread : Option Nat) :
    (TraceState.new vm sinkThread timerThread).Owned :=
  ⟨fun _ _ h => absurd h (by simp [TraceState.new]), fun _ _ h => absurd h (by simp [TraceState.new])⟩

/-- The invariant holds in every state of a run. -/
theorem owned_run (h : s.Owned) {events : List TraceEvent}
    (hpossible : Mealy.AllSteps traceStep Possible s events) :
    (Mealy.run traceStep s events).1.Owned :=
  Mealy.run_invariant_of_allSteps (P := TraceState.Owned) (fun _ _ h hp => owned_traceStep h hp) h
    hpossible

/-! ## Isolation -/

/-- A thread that passes the filter of a context is in its group. -/
theorem TraceState.Owned.group_of_passes (h : s.Owned) (hc : s.tracecontexts group = some c)
    (hpasses : PassesFilter s c thread) : rbRgThreadGroup s thread = group := by
  rcases hpasses with rfl | ⟨-, hgroup⟩
  · obtain ⟨v, hv, hgroup⟩ := h.owner group c hc
    rw [rbRgThreadGroup_eq hv, hgroup]
  · rw [hgroup, (h.key group c hc).1]

/-- What the hook emits it emits for a thread that passes the filter. -/
theorem passes_of_hook_ne_nil {flag : TraceFlag} {m : Memory}
    (h : (rbRgTracingHook s group thread flag m).2 ≠ []) :
    ∃ c, s.tracecontexts group = some c ∧ PassesFilter s c thread := by
  have hcases := hookCases s group thread flag m
  generalize rbRgTracingHook s group thread flag m = result at h hcases
  cases hcases with
  | silent => exact absurd rfl h
  | filtered => exact absurd rfl h
  | starter c hc _ hthread => exact ⟨c, hc, .inl hthread⟩
  | member c hc _ _ hpasses => exact ⟨c, hc, hpasses⟩

/-- Where the invariant holds, traces are isolated. -/
theorem TraceState.Owned.isolated (h : s.Owned) : TracesIsolated s where
  group := by
    intro group group' c c' hc hc' heq
    rw [← (h.key group c hc).1, heq, (h.key group' c' hc').1]
  thread := by
    intro group group' c c' hc hc' heq
    obtain ⟨v, hv, hgroup⟩ := h.owner group c hc
    obtain ⟨v', hv', hgroup'⟩ := h.owner group' c' hc'
    rw [heq, hv'] at hv
    rw [← hgroup, ← hgroup', Option.some.inj hv]
  owner := by
    intro group c hc
    obtain ⟨v, hv, hgroup⟩ := h.owner group c hc
    exact ⟨v, hv, hgroup.trans (h.key group c hc).1.symm⟩
  filter := by
    intro thread group group' c c' hc hc' hpasses hpasses'
    rw [← h.group_of_passes hc hpasses, h.group_of_passes hc' hpasses']
  reported := by
    intro thread group group' flag m m' hout hout'
    obtain ⟨c, hc, hpasses⟩ := passes_of_hook_ne_nil hout
    obtain ⟨c', hc', hpasses'⟩ := passes_of_hook_ne_nil hout'
    rw [← h.group_of_passes hc hpasses, h.group_of_passes hc' hpasses']

/-- **Concurrent traces stay isolated**, in every run of threads that start and end traces, spawn
threads, run code and end. -/
theorem traces_isolated (vm : Nat → Option VmThread) (sinkThread timerThread : Option Nat)
    {events : List TraceEvent}
    (hpossible : Mealy.AllSteps traceStep Possible (.new vm sinkThread timerThread) events) :
    TracesIsolated (Mealy.run traceStep (.new vm sinkThread timerThread) events).1 :=
  (owned_run (owned_new vm sinkThread timerThread) hpossible).isolated

/-- Two threads that run, in the default group. -/
def twoThreads (thread : Nat) : Option VmThread :=
  if thread < 2 then some ⟨rbRgDefaultThreadGroup, .running, none⟩ else none

/-- What the allocators return, the first block at this address. -/
def memoryAt (group first : Nat) : Memory := ⟨group, first, first + 1, 0⟩

/-- A thread starts a trace and creates a thread, while another thread starts a trace of its own. -/
def twoTraces : List TraceEvent :=
  [.startTrace 0 (memoryAt 1 10), .spawn 0 2, .startTrace 1 (memoryAt 2 20),
    .hook 1 2 .threadBegin (memoryAt 0 30), .hook 2 2 .threadBegin (memoryAt 0 40)]

/-- Two traces side by side can occur. -/
theorem possible_twoTraces :
    Mealy.AllSteps traceStep Possible (.new twoThreads none none) twoTraces := by
  refine ⟨⟨⟨_, rfl, .inr rfl⟩, by decide, rfl, ?_, ⟨rfl, rfl, by decide⟩⟩,
    ⟨⟨_, rfl, .inr rfl⟩, ?_, ⟨rfl, ?_⟩⟩,
    ⟨⟨_, rfl, .inr rfl⟩, by decide, rfl, ?_, ⟨rfl, rfl, by decide⟩⟩,
    ⟨⟨_, rfl, rfl⟩, ⟨rfl, rfl, by decide⟩⟩, ⟨⟨_, rfl, rfl⟩, ⟨rfl, rfl, by decide⟩⟩, trivial⟩
  · intro thread' v hv
    obtain ⟨-, hv⟩ := Option.ite_none_right_eq_some.mp hv
    obtain rfl := Option.some.inj hv
    decide
  · intro v hv
    cases hv
  · intro group c hc
    rcases group with _ | _ | n
    · cases hc
    · obtain rfl := Option.some.inj hc
      decide
    · cases hc
  · intro thread' v hv
    rcases thread' with _ | _ | _ | n
    · obtain rfl := Option.some.inj hv
      decide
    · obtain rfl := Option.some.inj hv
      decide
    · obtain rfl := Option.some.inj hv
      decide
    · cases hv

/-- The two traces side by side are isolated. -/
theorem traces_isolated_twoTraces :
    TracesIsolated (Mealy.run traceStep (.new twoThreads none none) twoTraces).1 :=
  traces_isolated twoThreads none none possible_twoTraces

end RaygunApm
