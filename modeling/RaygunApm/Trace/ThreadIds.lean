import RaygunApm.Trace.Ancestry

/-! # Shadow threads of threads

Shadow threads are made on two paths: by `rb_rg_thread`, for a thread that has none, and by
`rb_rg_thread_started`, for a thread that begins, whether it has one or not. An event touches the
entry, the block and the tid of at most one thread, the one that is observed in it
(`threadEffect_tidStep`). -/

namespace RaygunApm

/-! ## Events and steps -/

/-- What a thread does, lookups of tids from Ruby included. -/
inductive TidEvent where
  | trace (e : TraceEvent)
  /-- `rb_rg_get_thread_id`, and `rb_rg_tracer_diagnostics` for the thread itself. -/
  | getThreadId (thread target : Nat) (m : Memory)

/-- `rb_rg_get_thread_id`. -/
def rbRgGetThreadId (s : TraceState) (thread : Nat) (m : Memory) : TraceState × UInt32 :=
  let (s, th) := rbRgThread s thread m.first
  (s, s.tidAt m th)

/-- The state behind an event. -/
def tidStep (s : TraceState) : TidEvent → TraceState
  | .trace e => (traceStep s e).1
  | .getThreadId thread target m => (rbRgGetThreadId (s.enter thread .running) target m).1

/-- The events that can occur: the argument of `rb_rg_get_thread_id` is a thread. -/
def TidPossible (s : TraceState) : TidEvent → Prop
  | .trace e => Possible s e
  | .getThreadId thread target m => s.Running thread ∧ s.vm target ≠ none ∧ m.Free s

/-- The hook handles events of this thread for the context of this group. -/
def TraceState.Handles (s : TraceState) (group thread : Nat) : Prop :=
  match s.tracecontexts group with
  | none => False
  | some c => ¬ s.OwnThread thread ∧ PassesFilter s c thread

instance (s : TraceState) (group thread : Nat) : Decidable (s.Handles group thread) :=
  match h : s.tracecontexts group with
  | none => isFalse (by simp [TraceState.Handles, h])
  | some c => decidable_of_iff (¬ s.OwnThread thread ∧ PassesFilter s c thread)
      (by simp [TraceState.Handles, h])

/-- The thread that the tracer observes in an event. -/
def TidEvent.observed (s : TraceState) : TidEvent → Option Nat
  | .trace (.startTrace thread _) =>
      if s.noop = true ∨ (rbRgGetCurrentThreadTraceContext s thread).isSome then none else some thread
  | .trace (.hook group thread _ _) => if s.Handles group thread then some thread else none
  | .trace _ => none
  | .getThreadId _ target _ => some target

/-! ## What an event does to the shadow threads -/

variable {s s' s'' : TraceState} {thread address : Nat}

/-- The table, the blocks and the counter are the same. -/
structure TraceState.SameTables (s s' : TraceState) : Prop where
  threadsinfo : s'.threadsinfo = s.threadsinfo
  heap : s'.heap = s.heap
  threads : s'.threads = s.threads

/-- The thread has started a trace that is open. -/
def TraceState.Starter (s : TraceState) (thread : Nat) : Prop :=
  ∃ group c, s.tracecontexts group = some c ∧ c.thread = thread

/-- What an event of this kind, in which a thread is observed, does to the shadow threads. -/
inductive ThreadEffect (s : TraceState) : TraceFlag → Option Nat → TraceState → Prop
  | unobserved {flag : TraceFlag} {s' : TraceState} : s.SameTables s' → ThreadEffect s flag none s'
  /-- The thread has a shadow thread, or the context has its address. -/
  | kept {reported : Bool} {s' : TraceState} (thread : Nat) :
      s.threadsinfo thread ≠ none ∨ s.Starter thread → s.SameTables s' →
      ThreadEffect s (.code reported) (some thread) s'
  | made {reported : Bool} {s' : TraceState} (thread address : Nat) (parentTid : UInt32) :
      s.threadsinfo thread = none → s.heap address = none →
      (s.register thread address parentTid).SameTables s' →
      ThreadEffect s (.code reported) (some thread) s'
  | freed {s' : TraceState} (thread address : Nat) : s.threadsinfo thread = some address →
      (s.free thread address).SameTables s' → ThreadEffect s .threadEnd (some thread) s'
  /-- A shadow thread is made and freed at once. -/
  | passed {s' : TraceState} (thread : Nat) : s.threadsinfo thread = none →
      TraceState.SameTables { s with threads := s.threads + 1 } s' →
      ThreadEffect s .threadEnd (some thread) s'
  /-- The thread is given a second tid, or two. -/
  | begun {s' : TraceState} (thread : Nat) :
      (s.threadsinfo thread ≠ none ∨ s.Starter thread) ∧ s'.threads = s.threads + 1 ∨
        s'.threads = s.threads + 1 + 1 → ThreadEffect s .threadBegin (some thread) s'

/-- The effect of looking up a shadow thread. -/
theorem threadEffect_rbRgThread (s : TraceState) (thread : Nat) {reported : Bool}
    (hfree : s.heap address = none) :
    ThreadEffect s (.code reported) (some thread) (rbRgThread s thread address).1 := by
  unfold rbRgThread
  cases hentry : s.threadsinfo thread with
  | some th => exact .kept thread (.inl (by rw [hentry]; exact Option.some_ne_none _)) ⟨rfl, rfl, rfl⟩
  | none => exact .made thread address rgThreadOrphaned hentry hfree ⟨rfl, rfl, rfl⟩

/-- A shadow thread that is freed as soon as it is made leaves nothing but the counter. -/
theorem TraceState.sameTables_free_register (s : TraceState) {thread address : Nat}
    (parentTid : UInt32) (hentry : s.threadsinfo thread = none) (hfree : s.heap address = none) :
    SameTables { s with threads := s.threads + 1 }
      ((s.register thread address parentTid).free thread address) := by
  refine ⟨?_, ?_, rfl⟩
  · show Function.update (Function.update s.threadsinfo thread _) thread none = s.threadsinfo
    rw [Function.update_idem, ← hentry, Function.update_eq_self]
  · show Function.update (Function.update s.heap address _) address none = s.heap
    rw [Function.update_idem, ← hfree, Function.update_eq_self]

/-- What the end of a thread does. -/
theorem threadEffect_rbRgThreadEnded (s : TraceState) (thread : Nat) {m : Memory}
    (hfree : s.heap m.second = none) :
    ThreadEffect s .threadEnd (some thread) (rbRgThreadEnded s thread m).1 := by
  rw [rbRgThreadEnded_eq, rbRgThread]
  cases hentry : s.threadsinfo thread with
  | some th => exact .freed thread th hentry ⟨rfl, rfl, rfl⟩
  | none => exact .passed thread hentry (s.sameTables_free_register _ hentry hfree)

/-- What the hook does behind the filter, for the thread of the context. -/
theorem threadEffect_starter (hstarter : s.Starter thread) (c : TraceContext) (th : Nat)
    (flag : TraceFlag) {m : Memory} (hfree : s.heap m.second = none) :
    ThreadEffect s flag (some thread) (s.handle c thread th flag m).1 := by
  cases flag with
  | code => exact .kept thread (.inr hstarter) ⟨rfl, rfl, rfl⟩
  | threadBegin => exact .begun thread (.inl ⟨.inr hstarter, rfl⟩)
  | threadEnd => exact threadEffect_rbRgThreadEnded s thread hfree

/-- What the hook does for a thread other than the starter, once it has been looked up. -/
theorem threadEffect_member (s : TraceState) (thread : Nat) (c : TraceContext) (flag : TraceFlag)
    {m : Memory} (hfree : m.Free s) :
    ThreadEffect s flag (some thread) ((rbRgThread s thread m.first).1.handle c thread
      (rbRgThread s thread m.first).2 flag m).1 := by
  cases flag with
  | code => exact threadEffect_rbRgThread s thread hfree.first
  | threadBegin =>
      unfold rbRgThread
      -- with a shadow thread this is the second one, and without one it is the third
      cases hentry : s.threadsinfo thread with
      | some th =>
          exact .begun thread (.inl ⟨.inl (by rw [hentry]; exact Option.some_ne_none _), rfl⟩)
      | none => exact .begun thread (.inr rfl)
  | threadEnd =>
      show ThreadEffect s .threadEnd (some thread)
        (rbRgThreadEnded (rbRgThread s thread m.first).1 thread m).1
      rw [rbRgThreadEnded_eq]
      unfold rbRgThread
      cases hentry : s.threadsinfo thread with
      | some th =>
          dsimp only
          rw [hentry]
          exact .freed thread th hentry ⟨rfl, rfl, rfl⟩
      | none =>
          have hnew : (s.register thread m.first rgThreadOrphaned).threadsinfo thread
              = some m.first := Function.update_self ..
          dsimp only
          rw [hnew]
          exact .passed thread hentry (s.sameTables_free_register _ hentry hfree.first)

/-- An effect on a state is one on every state with the same tables. -/
theorem ThreadEffect.of_tables {flag : TraceFlag} {who : Option Nat} (h : ThreadEffect s' flag who s'')
    (htables : s.SameTables s') (hstarter : ∀ thread, s'.Starter thread → s.Starter thread) :
    ThreadEffect s flag who s'' := by
  obtain ⟨hinfo, hheap, hthreads⟩ := htables
  cases h with
  | unobserved hsame =>
      exact .unobserved ⟨hsame.threadsinfo.trans hinfo, hsame.heap.trans hheap,
        hsame.threads.trans hthreads⟩
  | kept thread hthread hsame =>
      rw [hinfo] at hthread
      exact .kept thread (hthread.imp_right (hstarter thread)) ⟨hsame.threadsinfo.trans hinfo,
        hsame.heap.trans hheap, hsame.threads.trans hthreads⟩
  | made thread address parentTid hentry hfree hsame =>
      rw [hinfo] at hentry
      rw [hheap] at hfree
      rw [TraceState.register, hinfo, hheap, hthreads] at hsame
      exact .made thread address parentTid hentry hfree
        ⟨hsame.threadsinfo, hsame.heap, hsame.threads⟩
  | freed thread address hentry hsame =>
      rw [hinfo] at hentry
      rw [TraceState.free, hinfo, hheap] at hsame
      exact .freed thread address hentry
        ⟨hsame.threadsinfo, hsame.heap, hsame.threads.trans hthreads⟩
  | passed thread hentry hsame =>
      rw [hinfo] at hentry
      rw [hthreads] at hsame
      exact .passed thread hentry ⟨hsame.threadsinfo.trans hinfo, hsame.heap.trans hheap,
        hsame.threads⟩
  | begun thread hthreads' =>
      rw [hinfo, hthreads] at hthreads'
      exact .begun thread (hthreads'.imp_left (And.imp_left (Or.imp_right (hstarter thread))))

/-- An effect is one on the tables. -/
theorem ThreadEffect.to_tables {flag : TraceFlag} {who : Option Nat} (h : ThreadEffect s flag who s')
    (htables : s'.SameTables s'') : ThreadEffect s flag who s'' := by
  obtain ⟨hinfo, hheap, hthreads⟩ := htables
  have htrans : ∀ t : TraceState, t.SameTables s' → t.SameTables s'' := fun t hsame =>
    ⟨hinfo.trans hsame.threadsinfo, hheap.trans hsame.heap, hthreads.trans hsame.threads⟩
  cases h with
  | unobserved hsame => exact .unobserved (htrans _ hsame)
  | kept thread hthread hsame => exact .kept thread hthread (htrans _ hsame)
  | made thread address parentTid hentry hfree hsame =>
      exact .made thread address parentTid hentry hfree (htrans _ hsame)
  | freed thread address hentry hsame => exact .freed thread address hentry (htrans _ hsame)
  | passed thread hentry hsame => exact .passed thread hentry (htrans _ hsame)
  | begun thread hbegun => exact .begun thread (by rwa [hthreads])

/-- A context that the hook has noted a thread in is of the same thread. -/
theorem TraceState.starter_of_see {group : Nat} {c : TraceContext} {flag : TraceFlag}
    (hc : s.tracecontexts group = some c) {thread thread' : Nat}
    (h : (s.see group c thread flag).Starter thread') : s.Starter thread' := by
  obtain ⟨group', c', hc', rfl⟩ := h
  obtain ⟨c'', hc'', hthread, -, -⟩ := (s.keeps_see flag thread hc).exists_context hc'
  exact ⟨group', c'', hc'', hthread⟩

/-- Where the context of the group is `c`, the hook handles the threads that are not the tracer's
own and pass the filter of `c`. -/
theorem TraceState.handles_iff {group : Nat} {c : TraceContext} (hc : s.tracecontexts group = some c) :
    s.Handles group thread ↔ ¬ s.OwnThread thread ∧ PassesFilter s c thread := by
  rw [Handles, hc]

/-- **The hook touches the shadow threads** of a thread that it handles the event of. -/
theorem threadEffect_rbRgTracingHook (s : TraceState) (group thread : Nat) (flag : TraceFlag)
    {m : Memory} (hfree : m.Free s) :
    ThreadEffect s flag (if s.Handles group thread then some thread else none)
      (rbRgTracingHook s group thread flag m).1 := by
  have hcases := hookCases s group thread flag m
  generalize rbRgTracingHook s group thread flag m = result at hcases ⊢
  have hseen : ∀ c, s.SameTables (s.see group c thread flag) := fun _ => ⟨rfl, rfl, rfl⟩
  cases hcases with
  | silent hwhy =>
      have hnot : ¬ s.Handles group thread := by
        rw [TraceState.Handles]
        rcases hwhy with hnone | hown
        · rw [hnone]
          exact not_false
        · cases hc : s.tracecontexts group with
          | none => exact not_false
          | some c => exact fun h => h.1 hown
      rw [if_neg hnot]
      exact .unobserved ⟨rfl, rfl, rfl⟩
  | filtered c hc _ hnot =>
      rw [if_neg fun h => hnot ((TraceState.handles_iff hc).mp h).2]
      exact .unobserved (hseen c)
  | starter c hc hown hthread =>
      rw [if_pos ((TraceState.handles_iff hc).mpr ⟨hown, .inl hthread⟩)]
      -- the address in the context is the one to work with
      have hstarter : (s.see group c thread flag).Starter thread := by
        refine ⟨group, c.seen thread flag, Function.update_self .., ?_⟩
        exact (congrArg TraceContext.thread (c.seen_fixed thread flag) :).trans hthread.symm
      exact (threadEffect_starter hstarter _ _ flag hfree.second).of_tables (hseen c)
        fun _ => TraceState.starter_of_see hc
  | member c hc hown _ hpasses =>
      rw [if_pos ((TraceState.handles_iff hc).mpr ⟨hown, hpasses⟩)]
      have hfree' : m.Free (s.see group c thread flag) := ⟨hfree.first, hfree.second, hfree.apart⟩
      exact (threadEffect_member _ thread _ flag hfree').of_tables (hseen c)
        fun _ => TraceState.starter_of_see hc

/-- Entering a phase changes nothing about which threads the hook handles. -/
theorem TraceState.handles_enter (s : TraceState) (thread : Nat) (phase : Phase) {group thread' : Nat} :
    (s.enter thread phase).Handles group thread' ↔ s.Handles group thread' := by
  unfold Handles
  rw [show (s.enter thread phase).tracecontexts group = s.tracecontexts group from rfl]
  cases s.tracecontexts group with
  | none => exact Iff.rfl
  | some c =>
      dsimp only
      rw [PassesFilter, PassesFilter, (s.keeps_enter thread phase).thread_group]
      exact Iff.rfl

/-- Entering a phase changes no current context. -/
theorem rbRgGetCurrentThreadTraceContext_enter (s : TraceState) (thread : Nat) (phase : Phase)
    (thread' : Nat) : rbRgGetCurrentThreadTraceContext (s.enter thread phase) thread'
      = rbRgGetCurrentThreadTraceContext s thread' := by
  rw [rbRgGetCurrentThreadTraceContext, (s.keeps_enter thread phase).thread_group]
  rfl

/-- `start_trace` does nothing in a tracer that is off or in a thread with a trace. -/
theorem rbRgTracerStartTrace_of_quiet
    (h : s.noop = true ∨ (rbRgGetCurrentThreadTraceContext s thread).isSome) (m : Memory) :
    rbRgTracerStartTrace s thread m = (s, []) := by
  unfold rbRgTracerStartTrace
  by_cases hnoop : s.noop = true
  · rw [if_pos hnoop]
  · rw [if_neg hnoop, if_pos (h.resolve_left hnoop)]

/-- **`start_trace` touches the shadow threads** of its thread, unless there is nothing to start. -/
theorem threadEffect_rbRgTracerStartTrace (s : TraceState) (thread : Nat) {m : Memory}
    (reported : Bool) (hfree : s.heap m.first = none) :
    ThreadEffect s (.code reported)
      (if s.noop = true ∨ (rbRgGetCurrentThreadTraceContext s thread).isSome then none
        else some thread)
      (rbRgTracerStartTrace s thread m).1 := by
  by_cases hquiet : s.noop = true ∨ (rbRgGetCurrentThreadTraceContext s thread).isSome
  · rw [if_pos hquiet, rbRgTracerStartTrace_of_quiet hquiet]
    exact .unobserved ⟨rfl, rfl, rfl⟩
  · obtain ⟨hnoop, hopen⟩ := not_or.mp hquiet
    rw [if_neg hquiet, rbRgTracerStartTrace, if_neg hnoop, if_neg hopen]
    exact (threadEffect_rbRgThread s thread hfree).to_tables ⟨rfl, rfl, rfl⟩

/-- The kind of an event. All but the beginning and the end of a thread are like code. -/
def TidEvent.flag : TidEvent → TraceFlag
  | .trace (.hook _ _ flag _) => flag
  | _ => .code false

/-- **Every event touches the shadow threads** of the thread that is observed in it. -/
theorem threadEffect_tidStep {e : TidEvent} (hpossible : TidPossible s e) :
    ThreadEffect s e.flag (e.observed s) (tidStep s e) := by
  have hentered : ∀ thread phase, s.SameTables (s.enter thread phase) := fun _ _ => ⟨rfl, rfl, rfl⟩
  cases e with
  | getThreadId thread target m =>
      obtain ⟨-, -, hfree⟩ := hpossible
      exact (threadEffect_rbRgThread (s.enter thread .running) target hfree.first).of_tables
        (hentered thread .running) fun _ h => h
  | trace e =>
      cases e with
      | startTrace thread m =>
          obtain ⟨-, -, -, -, hfree⟩ := hpossible
          have heffect :=
            threadEffect_rbRgTracerStartTrace (s.enter thread .running) thread false hfree.first
          rw [rbRgGetCurrentThreadTraceContext_enter] at heffect
          exact heffect.of_tables (hentered thread .running) fun _ h => h
      | hook group thread flag m =>
          obtain ⟨-, hfree⟩ := hpossible
          have heffect := threadEffect_rbRgTracingHook (s.enter thread flag.phase) group thread flag
            ⟨hfree.first, hfree.second, hfree.apart⟩
          simp only [s.handles_enter thread flag.phase] at heffect
          exact heffect.of_tables (hentered thread flag.phase) fun _ h => h
      | endTrace thread m =>
          rw [tidStep, traceStep]
          rcases endTrace_cases (s.enter thread .running) thread m with heq | ⟨_, -, heq⟩
          · rw [heq]
            exact .unobserved ⟨rfl, rfl, rfl⟩
          · rw [heq]
            exact .unobserved ⟨rfl, rfl, rfl⟩
      | noop => exact .unobserved ⟨rfl, rfl, rfl⟩
      | spawn thread child => exact .unobserved ⟨rfl, rfl, rfl⟩
      | finish thread => exact .unobserved (hentered thread .dead)

/-! ## Threads that run -/

/-- Where the phases are the same, the same threads run. -/
theorem TraceState.running_congr (h : ∀ thread, (s'.vm thread).map VmThread.phase
      = (s.vm thread).map VmThread.phase) (hrunning : s'.Running thread) : s.Running thread := by
  obtain ⟨v', hv', hactive⟩ := hrunning
  have hphase := h thread
  rw [hv', Option.map_some] at hphase
  obtain ⟨v, hv, heq⟩ := Option.map_eq_some_iff.mp hphase.symm
  refine ⟨v, hv, ?_⟩
  rwa [VmThread.Active, heq]

/-- Entering a phase makes no thread run that has not run before. -/
theorem TraceState.running_of_enter {phase : Phase} {thread' : Nat}
    (hactive : phase = .fresh ∨ phase = .running → s.Running thread)
    (h : (s.enter thread phase).Running thread') : s.Running thread' := by
  obtain ⟨v, hv, hphase⟩ := h
  by_cases hthread : thread' = thread
  · subst hthread
    rw [s.enter_vm_self] at hv
    obtain ⟨v', -, rfl⟩ := Option.map_eq_some_iff.mp hv
    exact hactive hphase
  · rw [s.enter_vm_of_ne hthread] at hv
    exact ⟨v, hv, hphase⟩

/-- The hook leaves the VM alone. -/
theorem rbRgTracingHook_vm (s : TraceState) (group thread : Nat) (flag : TraceFlag) (m : Memory) :
    (rbRgTracingHook s group thread flag m).1.vm = s.vm := by
  have hcases := hookCases s group thread flag m
  generalize rbRgTracingHook s group thread flag m = result at hcases ⊢
  cases hcases with
  | silent => rfl
  | filtered => rfl
  | starter c => exact (TraceState.handle_tables _ _ _ _ _ _).1
  | member c => exact (TraceState.handle_tables _ _ _ _ _ _).1.trans (rbRgThread_tables _ _ _).1

/-- A trace that is started changes no phase. -/
theorem rbRgTracerStartTrace_phase (s : TraceState) (thread : Nat) (m : Memory) (thread' : Nat) :
    ((rbRgTracerStartTrace s thread m).1.vm thread').map VmThread.phase
      = (s.vm thread').map VmThread.phase := by
  rcases startTrace_cases s thread m with heq | ⟨-, heq⟩
  · rw [heq]
  · rw [heq]
    dsimp only
    rw [s.started_vm]
    by_cases hthread : thread' = thread
    · subst hthread
      rw [rbRgThreadGroupAdd_vm_self, Option.map_map]
      rfl
    · rw [rbRgThreadGroupAdd_vm_of_ne _ _ hthread]

/-- **A thread that runs has run before**, or it has just been created. -/
theorem running_of_tidStep {e : TidEvent} (hpossible : TidPossible s e)
    (h : (tidStep s e).Running thread) :
    s.Running thread ∨ ∃ creator, e = .trace (.spawn creator thread) := by
  cases e with
  | getThreadId caller target m =>
      obtain ⟨hcaller, -⟩ := hpossible
      have hvm := (rbRgThread_tables (s.enter caller .running) target m.first).1
      exact .inl (TraceState.running_of_enter (fun _ => hcaller)
        (TraceState.running_congr (fun _ => congrArg _ (congrFun hvm _)) h))
  | trace e =>
      cases e with
      | noop => exact .inl h
      | startTrace starter m =>
          exact .inl (TraceState.running_of_enter (fun _ => hpossible.1)
            (TraceState.running_congr (rbRgTracerStartTrace_phase _ _ _) h))
      | endTrace ender m =>
          have hvm : (rbRgTracerEndTrace (s.enter ender .running) ender m).1.vm
              = (s.enter ender .running).vm := by
            rcases endTrace_cases (s.enter ender .running) ender m with heq | ⟨_, -, heq⟩
            · rw [heq]
            · rw [heq]
              rfl
          exact .inl (TraceState.running_of_enter (fun _ => hpossible)
            (TraceState.running_congr (fun _ => congrArg _ (congrFun hvm _)) h))
      | spawn creator child =>
          by_cases hchild : thread = child
          · exact .inr ⟨creator, by rw [hchild]⟩
          · obtain ⟨v, hv, hactive⟩ := h
            rw [tidStep, traceStep] at hv
            dsimp only at hv
            rw [Function.update_of_ne hchild] at hv
            obtain ⟨v', hv', rfl⟩ := Option.map_eq_some_iff.mp hv
            have hentered : (s.enter creator .running).Running thread := ⟨v', hv', hactive⟩
            exact .inl (TraceState.running_of_enter (fun _ => hpossible.1) hentered)
      | hook group hooked flag m =>
          obtain ⟨⟨v, hv, hphase⟩, -⟩ := hpossible
          have hvm := rbRgTracingHook_vm (s.enter hooked flag.phase) group hooked flag m
          refine .inl (TraceState.running_of_enter ?_
            (TraceState.running_congr (fun _ => congrArg _ (congrFun hvm _)) h))
          -- a thread is alive before its code and its beginning
          cases flag with
          | code => exact fun _ => ⟨v, hv, hphase⟩
          | threadBegin => exact fun _ => ⟨v, hv, .inl hphase⟩
          | threadEnd => simp [TraceFlag.phase]
      | finish dead =>
          exact .inl (TraceState.running_of_enter (by simp) h)

/-- Behind its end a thread does not run. -/
theorem not_running_of_end {e : TidEvent} (hflag : e.flag = .threadEnd)
    (hobserved : e.observed s = some thread) : ¬ (tidStep s e).Running thread := by
  cases e with
  | getThreadId => cases hflag
  | trace e =>
      cases e with
      | hook group hooked flag m =>
          obtain rfl : flag = .threadEnd := hflag
          obtain ⟨-, hthread⟩ := Option.ite_none_right_eq_some.mp hobserved
          obtain rfl := Option.some.inj hthread
          rintro ⟨v, hv, hactive⟩
          have hvm := rbRgTracingHook_vm (s.enter hooked TraceFlag.threadEnd.phase) group hooked
            .threadEnd m
          rw [tidStep, traceStep, hvm, s.enter_vm_self] at hv
          obtain ⟨v', -, rfl⟩ := Option.map_eq_some_iff.mp hv
          rcases hactive with hfresh | hrunning
          · cases hfresh
          · cases hrunning
      | _ => cases hflag

/-- **Only an event in which a thread is observed makes it the starter of a trace.** -/
theorem starter_of_tidStep {e : TidEvent} (h : (tidStep s e).Starter thread) :
    s.Starter thread ∨ e.observed s = some thread := by
  obtain ⟨group, c, hc, rfl⟩ := h
  cases e with
  | getThreadId caller target m =>
      have hcontexts := (rbRgThread_tables (s.enter caller .running) target m.first).2
      exact .inl ⟨group, c, (congrFun hcontexts group).symm.trans hc, rfl⟩
  | trace e =>
      cases e with
      | startTrace starter m =>
          rw [tidStep, traceStep] at hc
          by_cases hquiet : s.noop = true ∨ (rbRgGetCurrentThreadTraceContext s starter).isSome
          · have hquiet' := hquiet
            rw [← rbRgGetCurrentThreadTraceContext_enter s starter .running] at hquiet'
            rw [rbRgTracerStartTrace_of_quiet (s := s.enter starter .running) hquiet'] at hc
            exact .inl ⟨group, c, hc, rfl⟩
          · rcases startTrace_cases (s.enter starter .running) starter m with heq | ⟨-, heq⟩
            · rw [heq] at hc
              exact .inl ⟨group, c, hc, rfl⟩
            · rw [heq, TraceState.started] at hc
              rcases PartialMap.insert_eq_some_iff.mp hc with ⟨-, rfl⟩ | ⟨-, hold⟩
              · exact .inr (if_neg hquiet)
              · exact .inl ⟨group, c, hold, rfl⟩
      | endTrace ender m =>
          rw [tidStep, traceStep] at hc
          rcases endTrace_cases (s.enter ender .running) ender m with heq | ⟨_, -, heq⟩
          · rw [heq] at hc
            exact .inl ⟨group, c, hc, rfl⟩
          · rw [heq] at hc
            exact .inl ⟨group, c, TraceState.context_of_ended (s := s.enter ender .running) hc, rfl⟩
      -- the hook changes no thread of a context
      | hook group' hooked flag m =>
          have hkeeps := keeps_rbRgTracingHook (s.enter hooked flag.phase) group' hooked flag m
          obtain ⟨c', hc', hthread, -, -⟩ := hkeeps.exists_context hc
          exact .inl ⟨group, c', hc', hthread⟩
      | _ => exact .inl ⟨group, c, hc, rfl⟩

end RaygunApm
