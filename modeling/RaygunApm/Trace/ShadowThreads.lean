import RaygunApm.Trace.Isolation

/-! # Cached shadow threads

A trace context holds the address of the shadow thread of the thread that has started the trace, and
`end_trace` reads the tid there, on whichever thread of the group it is called. The block is the one
in the threadsinfo table until the handler of `RUBY_EVENT_THREAD_END` frees it, and the handler does
not look for a context that holds its address. So contexts hold live shadow threads, and
transactions end under the tid they have begun with, exactly if no thread ends while the trace that
it has started is open (`contexts_holdShadows_iff`). -/

namespace RaygunApm

/-! ## The property -/

/-- Every context holds the shadow thread that the table has for its thread. -/
def PointersValid (s : TraceState) : Prop :=
  ∀ group c, s.tracecontexts group = some c →
    s.threadsinfo c.thread = some c.rgThread ∧ s.heap c.rgThread ≠ none

/-- The tid under which the last transaction for a group has begun. -/
def lastBegin (group : Nat) : List TraceOutput → Option UInt32
  | [] => none
  | .beginTransaction group' _ tid :: os =>
      (lastBegin group os).or (if group' = group then some tid else none)
  | _ :: os => lastBegin group os

/-- A transaction ends under the tid under which it has begun. -/
def TransactionsMatch (os : List TraceOutput) : Prop :=
  ∀ before group thread tid after, os = before ++ .endTransaction group thread tid :: after →
    lastBegin group before = some tid

/-- In all states of the run, the contexts hold live shadow threads, and its transactions match. -/
structure ContextsHoldShadows (s : TraceState) (events : List TraceEvent) : Prop where
  pointers : ∀ before, before <+: events → PointersValid (Mealy.run traceStep s before).1
  transactions : TransactionsMatch (Mealy.run traceStep s events).2

/-- The event is not the end of a thread whose own trace is open. -/
def KeepsStarter (s : TraceState) : TraceEvent → Prop
  | .hook group thread .threadEnd _ =>
      ∀ c, s.tracecontexts group = some c → thread = c.thread → s.OwnThread thread
  | _ => True

/-! ## The table and the blocks -/

/-- Every entry of the table is a block of its own. -/
structure TraceState.Tabled (s : TraceState) : Prop where
  allocated : ∀ thread a, s.threadsinfo thread = some a → s.heap a ≠ none
  apart : ∀ thread thread' a, s.threadsinfo thread = some a → s.threadsinfo thread' = some a →
    thread = thread'

/-- Only the entry of one thread and its block change. -/
structure TraceState.OnlyThread (s s' : TraceState) (thread : Nat) : Prop where
  others : ∀ thread' ≠ thread, s'.threadsinfo thread' = s.threadsinfo thread'
  blocks : ∀ a, s.heap a ≠ none → s.threadsinfo thread ≠ some a → s'.heap a = s.heap a
  entry : ∀ a, s'.threadsinfo thread = some a → s.threadsinfo thread = some a ∨ s.heap a = none

variable {s s' s'' : TraceState} {c : TraceContext} {group thread address : Nat}

theorem TraceState.OnlyThread.refl (s : TraceState) (thread : Nat) : s.OnlyThread s thread :=
  ⟨fun _ _ => rfl, fun _ _ _ => rfl, fun _ h => .inl h⟩

/-- Two steps that touch one thread only touch it only together. -/
theorem TraceState.OnlyThread.trans (h : s.OnlyThread s' thread) (h' : s'.OnlyThread s'' thread) :
    s.OnlyThread s'' thread := by
  -- a block that is not the thread's is still not the thread's after the first change
  have hblocks : ∀ a, s.heap a ≠ none → s.threadsinfo thread ≠ some a →
      s'.heap a ≠ none ∧ s'.threadsinfo thread ≠ some a := by
    intro a ha hnot
    refine ⟨by rw [h.blocks a ha hnot]; exact ha, fun hentry => ?_⟩
    rcases h.entry a hentry with hold | hfree
    · exact hnot hold
    · exact ha hfree
  constructor
  · intro thread' hne
    rw [h'.others thread' hne, h.others thread' hne]
  · intro a ha hnot
    obtain ⟨ha', hnot'⟩ := hblocks a ha hnot
    rw [h'.blocks a ha' hnot', h.blocks a ha hnot]
  · intro a hentry
    by_contra hcon
    obtain ⟨hnot, ha⟩ := not_or.mp hcon
    obtain ⟨ha', hnot'⟩ := hblocks a ha hnot
    rcases h'.entry a hentry with hold | hfree
    · exact hnot' hold
    · exact ha' hfree

/-- A new shadow thread in a free block. -/
theorem TraceState.onlyThread_register (thread : Nat) (parentTid : UInt32)
    (hfree : s.heap address = none) :
    s.OnlyThread (s.register thread address parentTid) thread := by
  rw [register]
  constructor
  · intro thread' hne
    exact Function.update_of_ne hne _ _
  · intro a ha _
    have hne : a ≠ address := by
      rintro rfl
      exact ha hfree
    exact Function.update_of_ne hne _ _
  · intro a hentry
    dsimp only at hentry
    rw [Function.update_self] at hentry
    exact .inr (Option.some.inj hentry ▸ hfree)

/-- A new shadow thread at a free address keeps the tables well formed. -/
theorem TraceState.Tabled.register (h : s.Tabled) (thread : Nat) (parentTid : UInt32)
    (hfree : s.heap address = none) : (s.register thread address parentTid).Tabled := by
  -- the new block is free, so no entry points to it
  have hne : ∀ thread' a, s.threadsinfo thread' = some a → a ≠ address := by
    rintro thread' a hentry rfl
    exact h.allocated _ _ hentry hfree
  rw [TraceState.register]
  constructor
  · intro thread' a hentry
    dsimp only at hentry ⊢
    rcases PartialMap.insert_eq_some_iff.mp hentry with ⟨rfl, rfl⟩ | ⟨-, hentry⟩
    · rw [Function.update_self]
      exact Option.some_ne_none _
    · rw [Function.update_of_ne (hne _ _ hentry)]
      exact h.allocated _ _ hentry
  · intro thread' thread'' a hentry hentry'
    -- no entry from before is at the new address
    rcases PartialMap.insert_eq_some_iff.mp hentry with ⟨rfl, rfl⟩ | ⟨-, hold⟩ <;>
      rcases PartialMap.insert_eq_some_iff.mp hentry' with ⟨rfl, heq⟩ | ⟨-, hold'⟩
    · rfl
    · exact absurd rfl (hne _ _ hold')
    · exact absurd heq.symm (hne _ _ hold)
    · exact h.apart _ _ _ hold hold'

/-- The shadow thread that a lookup returns, new or not. -/
theorem TraceState.Tabled.rbRgThread (h : s.Tabled) (thread : Nat) (hfree : s.heap address = none) :
    (rbRgThread s thread address).1.Tabled ∧ s.OnlyThread (rbRgThread s thread address).1 thread ∧
      (rbRgThread s thread address).1.threadsinfo thread
        = some (rbRgThread s thread address).2 ∧
      ∀ a ≠ address, (RaygunApm.rbRgThread s thread address).1.heap a = s.heap a := by
  unfold RaygunApm.rbRgThread
  cases hentry : s.threadsinfo thread with
  | some th => exact ⟨h, .refl s thread, hentry, fun _ _ => rfl⟩
  | none =>
      refine ⟨h.register thread _ hfree, s.onlyThread_register thread _ hfree, ?_, fun a hne => ?_⟩
      · exact Function.update_self ..
      · exact Function.update_of_ne hne _ _

/-- The state in which the entry of a thread is taken out, and its shadow thread freed. -/
def TraceState.free (s : TraceState) (thread address : Nat) : TraceState :=
  { s with
    heap := Function.update s.heap address none
    threadsinfo := Function.update s.threadsinfo thread none }

/-- Freeing a shadow thread touches its thread only. -/
theorem TraceState.onlyThread_free (hentry : s.threadsinfo thread = some address) :
    s.OnlyThread (s.free thread address) thread := by
  rw [free]
  constructor
  · intro thread' hne
    exact Function.update_of_ne hne _ _
  · intro a _ hnot
    have hne : a ≠ address := by
      rintro rfl
      exact hnot hentry
    exact Function.update_of_ne hne _ _
  · intro a ha
    dsimp only at ha
    rw [Function.update_self] at ha
    cases ha

/-- Freeing a shadow thread keeps the tables well formed. -/
theorem TraceState.Tabled.free (h : s.Tabled) (hentry : s.threadsinfo thread = some address) :
    (s.free thread address).Tabled := by
  rw [TraceState.free]
  constructor
  · intro thread' a ha
    dsimp only at ha ⊢
    obtain ⟨hthread, hold⟩ := PartialMap.erase_eq_some_iff.mp ha
    -- the block of another entry is not the one that is freed
    have hne : a ≠ address := by
      rintro rfl
      exact hthread (h.apart _ _ _ hold hentry)
    rw [Function.update_of_ne hne]
    exact h.allocated _ _ hold
  · intro thread' thread'' a ha ha'
    exact h.apart _ _ _ (PartialMap.erase_eq_some_iff.mp ha).2 (PartialMap.erase_eq_some_iff.mp ha').2

/-- The shadow thread is looked up and freed. -/
theorem rbRgThreadEnded_eq (s : TraceState) (thread : Nat) (m : Memory) :
    (rbRgThreadEnded s thread m).1
      = (rbRgThread s thread m.second).1.free thread (rbRgThread s thread m.second).2 := rfl

/-- The end of a thread: its entry goes, and its block is freed. -/
theorem TraceState.Tabled.rbRgThreadEnded (h : s.Tabled) (thread : Nat) {m : Memory}
    (hfree : s.heap m.second = none) :
    (rbRgThreadEnded s thread m).1.Tabled ∧ s.OnlyThread (rbRgThreadEnded s thread m).1 thread ∧
      (rbRgThreadEnded s thread m).1.threadsinfo thread = none := by
  obtain ⟨htabled, honly, hentry, -⟩ := h.rbRgThread thread hfree
  rw [rbRgThreadEnded_eq]
  exact ⟨htabled.free hentry, honly.trans (TraceState.onlyThread_free hentry),
    Function.update_self ..⟩

/-! ## The hook -/

/-- The output is neither the beginning nor the end of a transaction. -/
def TraceOutput.Silent : TraceOutput → Prop
  | .beginTransaction _ _ _ | .endTransaction _ _ _ => False
  | _ => True

/-- What the hook does behind the filter. -/
theorem TraceState.Tabled.handle (h : s.Tabled) (c : TraceContext) (thread th : Nat)
    (flag : TraceFlag) {m : Memory} (hfree : s.heap m.second = none) :
    (s.handle c thread th flag m).1.Tabled ∧ s.OnlyThread (s.handle c thread th flag m).1 thread ∧
      (∀ o ∈ (s.handle c thread th flag m).2, o.Silent) ∧
      (flag = .threadEnd → (s.handle c thread th flag m).1.threadsinfo thread = none) := by
  cases flag with
  | code reported =>
      refine ⟨h, .refl s thread, ?_, nofun⟩
      cases reported <;> simp [TraceState.handle, TraceOutput.Silent]
  | threadBegin =>
      exact ⟨h.register thread _ hfree, s.onlyThread_register thread _ hfree,
        by simp [TraceState.handle, TraceOutput.Silent], nofun⟩
  | threadEnd =>
      obtain ⟨htabled, honly, hentry⟩ := h.rbRgThreadEnded thread hfree
      exact ⟨htabled, honly, by simp [TraceState.handle, TraceOutput.Silent], fun _ => hentry⟩

/-- A thread that passes the filter of another thread's context has started no trace that is open.
-/
theorem TraceState.Owned.not_starter (h : s.Owned) (hc : s.tracecontexts group = some c)
    (hother : thread ≠ c.thread) (hpasses : PassesFilter s c thread) {group' : Nat}
    {c' : TraceContext} (hc' : s.tracecontexts group' = some c') : c'.thread ≠ thread := by
  rintro rfl
  have hgroup : group' = group := h.isolated.filter _ _ _ _ _ hc' hc (.inl rfl) hpasses
  rw [hgroup, hc] at hc'
  exact hother (congrArg TraceContext.thread (Option.some.inj hc')).symm

/-- **What the hook does to the table and the blocks**: it touches only those of its thread, and
those of a thread that has started a trace only at the end of the thread. -/
structure HookEffect (s : TraceState) (group thread : Nat) (flag : TraceFlag)
    (result : TraceState × List TraceOutput) : Prop where
  vm : result.1.vm = s.vm
  keeps : s.Keeps result.1
  tabled : result.1.Tabled
  only : s.OnlyThread result.1 thread
  silent : ∀ o ∈ result.2, o.Silent
  starter : ∀ group' c, s.tracecontexts group' = some c → c.thread = thread →
    (result.1.threadsinfo = s.threadsinfo ∧ result.1.heap = s.heap) ∨
      flag = .threadEnd ∧ group' = group ∧ ¬ s.OwnThread thread ∧
        result.1.threadsinfo thread = none

/-- **The effect of the hook** on threads, contexts and shadow threads. -/
theorem hookEffect (howned : s.Owned) (htabled : s.Tabled) {flag : TraceFlag} {m : Memory}
    (hfree : m.Free s) (hbegin : flag = .threadBegin →
      ∀ group' c, s.tracecontexts group' = some c → c.thread ≠ thread) :
    HookEffect s group thread flag (rbRgTracingHook s group thread flag m) := by
  have hkeeps := keeps_rbRgTracingHook s group thread flag m
  have hcases := hookCases s group thread flag m
  generalize rbRgTracingHook s group thread flag m = result at hkeeps hcases ⊢
  cases hcases with
  | silent =>
      exact ⟨rfl, hkeeps, htabled, .refl s thread, by simp, fun _ _ _ _ => .inl ⟨rfl, rfl⟩⟩
  | filtered c hc =>
      exact ⟨rfl, hkeeps, ⟨htabled.allocated, htabled.apart⟩, ⟨fun _ _ => rfl, fun _ _ _ => rfl,
        fun _ h => .inl h⟩, by simp, fun _ _ _ _ => .inl ⟨rfl, rfl⟩⟩
  -- the thread of the context: the handler works on the shadow thread in the context
  | starter c hc hown hthread =>
      have hseen : (s.see group c thread flag).Tabled := ⟨htabled.allocated, htabled.apart⟩
      obtain ⟨htabled', honly, hsilent, hend⟩ :=
        hseen.handle (c.seen thread flag) thread c.rgThread flag hfree.second
      have hvm := ((s.see group c thread flag).handle_tables (c.seen thread flag) thread c.rgThread
        flag m).1
      refine ⟨hvm, hkeeps, htabled', ⟨honly.others, honly.blocks, honly.entry⟩, hsilent, ?_⟩
      intro group' c' hc' hthread'
      cases flag with
      | code => exact .inl ⟨rfl, rfl⟩
      | threadBegin => exact absurd hthread' (hbegin rfl _ _ hc')
      | threadEnd =>
          have hgroup : group' = group :=
            howned.isolated.thread _ _ _ _ hc' hc (hthread'.trans hthread)
          exact .inr ⟨rfl, hgroup, hown, hend rfl⟩
  -- another thread of the group: its shadow thread is looked up, the contexts are not touched
  | member c hc hown hother hpasses =>
      have hseen : (s.see group c thread flag).Tabled := ⟨htabled.allocated, htabled.apart⟩
      obtain ⟨hlooked, honly, -, hblocks⟩ := hseen.rbRgThread thread hfree.first
      have hfree' : (rbRgThread (s.see group c thread flag) thread m.first).1.heap m.second = none := by
        rw [hblocks _ hfree.apart.symm]
        exact hfree.second
      obtain ⟨htabled', honly', hsilent, -⟩ := hlooked.handle (c.seen thread flag) thread
        (rbRgThread (s.see group c thread flag) thread m.first).2 flag hfree'
      obtain ⟨hothers, hkept, hentry⟩ := honly.trans honly'
      have hvm := (rbRgThread_tables (s.see group c thread flag) thread m.first).1
      have hvm' := ((rbRgThread (s.see group c thread flag) thread m.first).1.handle_tables
        (c.seen thread flag) thread (rbRgThread (s.see group c thread flag) thread m.first).2
        flag m).1
      exact ⟨hvm'.trans hvm, hkeeps, htabled', ⟨hothers, hkept, hentry⟩, hsilent,
        fun group' c' hc' hthread' => absurd hthread' (howned.not_starter hc hother hpasses hc')⟩

/-! ## The invariant -/

/-- A context holds the shadow thread of its thread, or the thread has ended. -/
def TraceState.Cached (s : TraceState) : Prop :=
  ∀ group c, s.tracecontexts group = some c → ∃ v, s.vm c.thread = some v ∧
    (s.threadsinfo c.thread = some c.rgThread ∧ v.phase ≠ .fresh ∨
      s.threadsinfo c.thread = none ∧ (v.phase = .ending ∨ v.phase = .dead))

/-- What is true of the threads, the contexts and the table. -/
structure TraceState.Sound (s : TraceState) : Prop where
  owned : s.Owned
  tabled : s.Tabled
  cached : s.Cached

/-- The phases that a thread can go on to. -/
def Phase.Follows (v : VmThread) (phase : Phase) : Prop :=
  phase = .ending ∨ phase = .dead ∨ (v.Active ∧ phase = .running) ∨
    (v.phase = .fresh ∧ phase = .fresh)

/-- A thread that can run code can go on running. -/
theorem Phase.follows_running {v : VmThread} (h : v.Active) : Phase.running.Follows v :=
  .inr (.inr (.inl ⟨h, rfl⟩))

/-- A thread that enters a phase keeps what the contexts have cached. -/
theorem TraceState.Cached.enter (h : s.Cached) {v : VmThread} (hv : s.vm thread = some v)
    {phase : Phase} (hfollows : phase.Follows v) : (s.enter thread phase).Cached := by
  intro group c hc
  obtain ⟨v', hv', hcached⟩ := h group c hc
  by_cases hthread : c.thread = thread
  · subst hthread
    obtain rfl := Option.some.inj (hv'.symm.trans hv)
    refine ⟨{ v' with phase := phase }, by rw [s.enter_vm_self, hv, Option.map_some], ?_⟩
    -- a thread that has ended does not run, and one that has started a trace does not begin
    rcases hfollows with rfl | rfl | ⟨hactive, rfl⟩ | ⟨hfresh, rfl⟩
    · rcases hcached with ⟨hentry, -⟩ | ⟨hentry, -⟩
      · exact .inl ⟨hentry, nofun⟩
      · exact .inr ⟨hentry, .inl rfl⟩
    · rcases hcached with ⟨hentry, -⟩ | ⟨hentry, -⟩
      · exact .inl ⟨hentry, nofun⟩
      · exact .inr ⟨hentry, .inr rfl⟩
    · rcases hcached with ⟨hentry, -⟩ | ⟨-, hended⟩
      · exact .inl ⟨hentry, nofun⟩
      · rcases hactive with hactive | hactive <;> rw [hactive] at hended <;> simp at hended
    · rcases hcached with ⟨-, hnot⟩ | ⟨-, hended⟩
      · exact absurd hfresh hnot
      · rw [hfresh] at hended
        simp at hended
  · exact ⟨v', by rw [s.enter_vm_of_ne hthread, hv'], hcached⟩

/-- A thread that enters a phase keeps the invariant. -/
theorem TraceState.Sound.enter (h : s.Sound) {v : VmThread} (hv : s.vm thread = some v)
    {phase : Phase} (hfollows : phase.Follows v) : (s.enter thread phase).Sound :=
  ⟨h.owned.keeps (s.keeps_enter thread phase), ⟨h.tabled.allocated, h.tabled.apart⟩,
    h.cached.enter hv hfollows⟩

/-- **`start_trace` keeps the invariant.** -/
theorem TraceState.Sound.startTrace (h : s.Sound) {v : VmThread} (hv : s.vm thread = some v)
    (hphase : v.phase = .running) {m : Memory} (hfree : s.heap m.first = none)
    (howned : (rbRgTracerStartTrace s thread m).1.Owned) :
    (rbRgTracerStartTrace s thread m).1.Sound := by
  rcases startTrace_cases s thread m with heq | ⟨hnone, heq⟩
  · rw [heq]
    exact h
  · obtain ⟨htabled, honly, hentry, -⟩ := h.tabled.rbRgThread thread hfree
    rw [heq] at howned ⊢
    refine ⟨howned, ⟨htabled.allocated, htabled.apart⟩, fun group c hc => ?_⟩
    rw [s.started_vm]
    rw [TraceState.started] at hc ⊢
    dsimp only at hc ⊢
    rcases PartialMap.insert_eq_some_iff.mp hc with ⟨rfl, rfl⟩ | ⟨-, hc⟩
    · -- the new context has just looked its shadow thread up
      refine ⟨{ v with group := m.group }, ?_, .inl ⟨hentry, ?_⟩⟩
      · rw [rbRgThreadGroupAdd_vm_self, hv, Option.map_some]
      · rw [hphase]
        rintro ⟨⟩
    · -- the thread had no context, so the others are of other threads
      obtain ⟨v', hv', hcached⟩ := h.cached group c hc
      have hother := h.owned.not_starter_of_none hnone hc
      refine ⟨v', by rw [rbRgThreadGroupAdd_vm_of_ne _ _ hother, hv'], ?_⟩
      have hsame : (rbRgThreadGroupAdd m.group (rbRgThread s thread m.first).1
          thread).threadsinfo c.thread = s.threadsinfo c.thread := honly.others _ hother
      rw [hsame]
      exact hcached

/-- **The hook keeps the invariant.** -/
theorem TraceState.Sound.hook (h : s.Sound) {flag : TraceFlag} {result : TraceState × List TraceOutput}
    (heffect : HookEffect s group thread flag result)
    (hend : flag = .threadEnd → ∀ v, s.vm thread = some v → v.phase = .ending) : result.1.Sound := by
  refine ⟨h.owned.keeps heffect.keeps, heffect.tabled, fun group' c hc => ?_⟩
  obtain ⟨c', hc', hthread, -, hrgThread⟩ := heffect.keeps.exists_context hc
  obtain ⟨v, hv, hcached⟩ := h.cached group' c' hc'
  rw [← hthread, ← hrgThread]
  refine ⟨v, by rw [heffect.vm, hv], ?_⟩
  -- only an event of its own thread can change what a context points to
  by_cases hstarter : c'.thread = thread
  · rcases heffect.starter group' c' hc' hstarter with ⟨hsame, -⟩ | ⟨hflag, -, -, hnone⟩
    · rw [hsame]
      exact hcached
    · subst hstarter
      exact .inr ⟨hnone, .inl (hend hflag v hv)⟩
  · rw [heffect.only.others _ hstarter]
    exact hcached

/-- The hook on an event that can occur, once its thread has entered the phase of the event. -/
theorem TraceState.Sound.hookEffect (h : s.Sound) {flag : TraceFlag} {m : Memory}
    (hpossible : Possible s (.hook group thread flag m)) :
    (s.enter thread flag.phase).Sound ∧
      HookEffect (s.enter thread flag.phase) group thread flag
        (rbRgTracingHook (s.enter thread flag.phase) group thread flag m) ∧
      (flag = .threadEnd → ∀ v, (s.enter thread flag.phase).vm thread = some v →
        v.phase = .ending) := by
  obtain ⟨⟨v, hv, hphase⟩, hfree⟩ := hpossible
  have hfollows : flag.phase.Follows v := by
    cases flag with
    | code => exact Phase.follows_running hphase
    | threadBegin => exact .inr (.inr (.inr ⟨hphase, rfl⟩))
    | threadEnd => exact .inl rfl
  have hentered := h.enter hv hfollows
  have hv' : (s.enter thread flag.phase).vm thread = some { v with phase := flag.phase } := by
    rw [s.enter_vm_self, hv, Option.map_some]
  refine ⟨hentered, RaygunApm.hookEffect hentered.owned hentered.tabled
    ⟨hfree.first, hfree.second, hfree.apart⟩ ?_, ?_⟩
  · -- a thread that begins has not started a trace
    rintro rfl group' c hc rfl
    obtain ⟨v'', hv'', hcached⟩ := hentered.cached group' c hc
    obtain rfl := Option.some.inj (hv'.symm.trans hv'')
    rcases hcached with ⟨-, hnot⟩ | ⟨-, hended | hended⟩
    · exact hnot rfl
    · cases hended
    · cases hended
  · rintro rfl v'' hv''
    obtain rfl := Option.some.inj (hv'.symm.trans hv'')
    rfl

/-- **Every event keeps the invariant.** -/
theorem sound_traceStep (h : s.Sound) {e : TraceEvent} (hpossible : Possible s e) :
    (traceStep s e).1.Sound := by
  have howned := owned_traceStep h.owned hpossible
  cases e with
  | noop => exact ⟨howned, ⟨h.tabled.allocated, h.tabled.apart⟩, h.cached⟩
  | startTrace thread m =>
      obtain ⟨⟨v, hv, hactive⟩, -, -, -, hfree⟩ := hpossible
      have hv' : (s.enter thread .running).vm thread = some { v with phase := .running } := by
        rw [s.enter_vm_self, hv, Option.map_some]
      exact (h.enter hv (Phase.follows_running hactive)).startTrace hv' rfl hfree.first howned
  | endTrace thread m =>
      obtain ⟨v, hv, hactive⟩ := hpossible
      have hentered := h.enter hv (Phase.follows_running hactive)
      rw [traceStep] at howned ⊢
      -- Ending a trace frees one context and leaves the others.
      rcases endTrace_cases (s.enter thread .running) thread m with heq | ⟨c, -, heq⟩
      · rw [heq]
        exact hentered
      · rw [heq] at howned ⊢
        exact ⟨howned, ⟨hentered.tabled.allocated, hentered.tabled.apart⟩, fun group c hc =>
          hentered.cached group c (TraceState.context_of_ended hc)⟩
  | spawn thread child =>
      obtain ⟨⟨v, hv, hactive⟩, -, hchild⟩ := hpossible
      have hentered := h.enter hv (Phase.follows_running hactive)
      refine ⟨howned, ⟨hentered.tabled.allocated, hentered.tabled.apart⟩, fun group c hc => ?_⟩
      obtain ⟨v', hv', hcached⟩ := hentered.cached group c hc
      -- The new thread has no context, so the VM threads of the contexts are as before.
      have hother : c.thread ≠ child := (hchild.contexts group c hc).1
      refine ⟨v'.forget child, ?_, hcached⟩
      rw [traceStep]
      dsimp only
      rw [Function.update_of_ne hother, hv', Option.map_some]
  | hook group thread flag m =>
      obtain ⟨hentered, heffect, hend⟩ := h.hookEffect hpossible
      exact hentered.hook heffect hend
  | finish thread =>
      obtain ⟨v, hv, -⟩ := hpossible
      exact h.enter hv (.inr (.inl rfl))

/-- A new tracer satisfies the invariant. -/
theorem sound_new (vm : Nat → Option VmThread) (sinkThread timerThread : Option Nat) :
    (TraceState.new vm sinkThread timerThread).Sound :=
  ⟨owned_new vm sinkThread timerThread, ⟨nofun, nofun⟩, nofun⟩

/-! ## Transactions -/

/-- Every context holds the shadow thread of its thread, with the tid under which its transaction
has begun. -/
def Recorded (os : List TraceOutput) (s : TraceState) : Prop :=
  ∀ group c, s.tracecontexts group = some c → s.threadsinfo c.thread = some c.rgThread ∧
    ∃ ids, s.heap c.rgThread = some ids ∧ lastBegin group os = some ids.tid

/-- The last beginning in two stretches of outputs is that of the second one, if any, or else of the
first. -/
theorem lastBegin_append (group : Nat) (os os' : List TraceOutput) :
    lastBegin group (os ++ os') = (lastBegin group os').or (lastBegin group os) := by
  induction os with
  | nil => exact (Option.or_none ..).symm
  | cons o os ih =>
      cases o with
      | beginTransaction group' thread tid =>
          rw [List.cons_append, lastBegin, lastBegin, ih, Option.or_assoc]
      | _ => exact ih

/-- Among outputs without transactions there is no last beginning. -/
theorem lastBegin_of_silent (group : Nat) {os : List TraceOutput} (h : ∀ o ∈ os, o.Silent) :
    lastBegin group os = none := by
  induction os with
  | nil => rfl
  | cons o os ih =>
      obtain ⟨ho, hos⟩ := List.forall_mem_cons.mp h
      cases o with
      | beginTransaction => exact ho.elim
      | _ => exact ih hos

/-- Transactions match as before behind more outputs without transactions. -/
theorem transactionsMatch_append_of_silent {os os' : List TraceOutput} (h : TransactionsMatch os)
    (hsilent : ∀ o ∈ os', o.Silent) : TransactionsMatch (os ++ os') := by
  intro before group thread tid after heq
  rcases List.append_eq_append_iff.mp heq with ⟨mid, rfl, hmid⟩ | ⟨mid, rfl, hmid⟩
  · have hmem : .endTransaction group thread tid ∈ os' := by
      rw [hmid]
      simp
    exact (hsilent _ hmem).elim
  · cases mid with
    | nil =>
        have hmem : .endTransaction group thread tid ∈ os' := by
          rw [← List.nil_append os', ← hmid]
          simp
        exact (hsilent _ hmem).elim
    | cons o mid =>
        obtain ⟨rfl, -⟩ := List.cons.inj hmid
        exact h before group thread tid mid rfl

/-- Transactions match behind one more output, if it ends the transaction that has begun last. -/
theorem transactionsMatch_concat {os : List TraceOutput} (h : TransactionsMatch os)
    {o : TraceOutput} (ho : ∀ group thread tid, o = .endTransaction group thread tid →
      lastBegin group os = some tid) : TransactionsMatch (os ++ [o]) := by
  intro before group thread tid after heq
  rcases List.eq_nil_or_concat after with rfl | ⟨after', o', rfl⟩
  · obtain ⟨rfl, heq'⟩ := List.append_inj' heq rfl
    exact ho _ _ _ (List.cons.inj heq').1
  · rw [List.concat_eq_append, ← List.cons_append, ← List.append_assoc] at heq
    obtain ⟨rfl, -⟩ := List.append_inj' heq rfl
    exact h before group thread tid after' rfl

/-- What changes no context, and no shadow thread that one holds. -/
theorem Recorded.congr {os os' : List TraceOutput} (h : Recorded os s) (hkeeps : s.Keeps s')
    (hsilent : ∀ o ∈ os', o.Silent)
    (hkept : ∀ group c, s.tracecontexts group = some c → s.heap c.rgThread ≠ none →
      s.threadsinfo c.thread = some c.rgThread →
      s'.threadsinfo c.thread = s.threadsinfo c.thread ∧ s'.heap c.rgThread = s.heap c.rgThread) :
    Recorded (os ++ os') s' := by
  intro group c hc
  obtain ⟨c', hc', hthread, -, hrgThread⟩ := hkeeps.exists_context hc
  obtain ⟨hentry, ids, hids, hbegin⟩ := h group c' hc'
  obtain ⟨hentry', hids'⟩ := hkept group c' hc' (by rw [hids]; exact Option.some_ne_none _) hentry
  rw [← hthread, ← hrgThread]
  refine ⟨hentry'.trans hentry, ids, hids'.trans hids, ?_⟩
  rw [lastBegin_append, lastBegin_of_silent group hsilent, hbegin]
  rfl

/-- A shadow thread of another thread than the one that is touched. -/
theorem TraceState.Tabled.kept (h : s.Tabled) (honly : s.OnlyThread s' thread)
    (hother : c.thread ≠ thread) (hids : s.heap c.rgThread ≠ none)
    (hentry : s.threadsinfo c.thread = some c.rgThread) :
    s'.threadsinfo c.thread = s.threadsinfo c.thread ∧ s'.heap c.rgThread = s.heap c.rgThread :=
  ⟨honly.others _ hother, honly.blocks _ hids fun hthread =>
    hother (h.apart _ _ _ hentry hthread)⟩

/-- **Every event keeps the record**, unless it ends a thread whose own trace is open. -/
theorem recorded_traceStep {os : List TraceOutput} (hsound : s.Sound) (h : Recorded os s)
    (hmatch : TransactionsMatch os) {e : TraceEvent} (hpossible : Possible s e)
    (hkeeps : KeepsStarter s e) :
    Recorded (os ++ (traceStep s e).2) (traceStep s e).1 ∧
      TransactionsMatch (os ++ (traceStep s e).2) := by
  have hentered : ∀ thread phase, Recorded os (s.enter thread phase) := fun _ _ => h
  cases e with
  | noop =>
      rw [traceStep, List.append_nil]
      exact ⟨h, hmatch⟩
  | startTrace thread m =>
      obtain ⟨-, -, -, -, hfree⟩ := hpossible
      rw [traceStep]
      have howned := hsound.owned.keeps (s.keeps_enter thread .running)
      have htabled : (s.enter thread .running).Tabled := ⟨hsound.tabled.allocated, hsound.tabled.apart⟩
      have hrecorded := hentered thread .running
      have hfree' : (s.enter thread .running).heap m.first = none := hfree.first
      generalize s.enter thread .running = s at howned htabled hrecorded hfree' ⊢
      rcases startTrace_cases s thread m with heq | ⟨hnone, heq⟩
      · rw [heq, List.append_nil]
        exact ⟨hrecorded, hmatch⟩
      · rw [heq]
        obtain ⟨htabled', honly, hentry, -⟩ := htabled.rbRgThread thread hfree'
        refine ⟨fun group c hc => ?_, transactionsMatch_concat hmatch (by simp)⟩
        rw [TraceState.started] at hc ⊢
        dsimp only at hc ⊢
        rw [lastBegin_append]
        rcases PartialMap.insert_eq_some_iff.mp hc with ⟨rfl, rfl⟩ | ⟨hnew, hc⟩
        · -- the new trace begins with the tid that the table now has
          obtain ⟨ids, hids⟩ := Option.ne_none_iff_exists'.mp (htabled'.allocated _ _ hentry)
          refine ⟨hentry, ids, hids, ?_⟩
          rw [lastBegin, if_pos rfl, TraceState.tidAt, hids]
          rfl
        · -- an open trace is another thread's, whose entry stays
          obtain ⟨hentry', ids, hids, hbegin⟩ := hrecorded group c hc
          obtain ⟨hsame, hsame'⟩ := htabled.kept honly (howned.not_starter_of_none hnone hc)
            (by rw [hids]; exact Option.some_ne_none _) hentry'
          refine ⟨hsame.trans hentry', ids, hsame'.trans hids, ?_⟩
          rw [lastBegin, if_neg (Ne.symm hnew), hbegin]
          rfl
  | endTrace thread m =>
      rw [traceStep]
      have hrecorded := hentered thread .running
      generalize s.enter thread .running = s at hrecorded ⊢
      rcases endTrace_cases s thread m with heq | ⟨c, hc, heq⟩
      · rw [heq, List.append_nil]
        exact ⟨hrecorded, hmatch⟩
      · rw [heq]
        refine ⟨fun group c' hc' => ?_, transactionsMatch_concat hmatch ?_⟩
        · obtain ⟨hentry, ids, hids, hbegin⟩ := hrecorded group c' (TraceState.context_of_ended hc')
          refine ⟨hentry, ids, hids, ?_⟩
          rw [lastBegin_append, hbegin]
          rfl
        · intro group thread' tid heq'
          -- the record has the tid that the context reads
          obtain ⟨rfl, rfl, rfl⟩ := TraceOutput.endTransaction.inj heq'
          obtain ⟨-, ids, hids, hbegin⟩ := hrecorded _ c hc
          rw [hbegin, TraceState.tidAt, hids]
          rfl
  | spawn thread child =>
      rw [traceStep, List.append_nil]
      exact ⟨h, hmatch⟩
  | hook group thread flag m =>
      obtain ⟨hsound', heffect, -⟩ := hsound.hookEffect hpossible
      rw [traceStep]
      refine ⟨?_, transactionsMatch_append_of_silent hmatch heffect.silent⟩
      apply Recorded.congr (hentered thread flag.phase) heffect.keeps heffect.silent
      intro group' c hc hids hentry
      -- an event of the starter would have to end it, which the condition excludes
      by_cases hstarter : c.thread = thread
      · rcases heffect.starter group' c hc hstarter with ⟨hsame, hsame'⟩ | ⟨rfl, rfl, hown, -⟩
        · rw [hsame, hsame']
          exact ⟨rfl, rfl⟩
        · exact absurd (hkeeps c hc hstarter.symm) hown
      · exact hsound'.tabled.kept heffect.only hstarter hids hentry
  | finish thread =>
      rw [traceStep, List.append_nil]
      exact ⟨h, hmatch⟩

/-- What is true along the runs in which no thread ends while its own trace is open. -/
structure KeepsRecord (os : List TraceOutput) (s : TraceState) : Prop where
  sound : s.Sound
  recorded : Recorded os s
  transactions : TransactionsMatch os

/-- A new tracer keeps the record of no outputs. -/
theorem keepsRecord_new (vm : Nat → Option VmThread) (sinkThread timerThread : Option Nat) :
    KeepsRecord [] (.new vm sinkThread timerThread) := by
  refine ⟨sound_new vm sinkThread timerThread, nofun, ?_⟩
  intro before group thread tid after heq
  simp at heq

/-- Every step keeps the record. -/
theorem keepsRecord_traceStep (os : List TraceOutput) (s : TraceState) (e : TraceEvent)
    (h : KeepsRecord os s) (he : Possible s e ∧ KeepsStarter s e) :
    KeepsRecord (os ++ (traceStep s e).2) (traceStep s e).1 := by
  obtain ⟨hrecorded, hmatch⟩ := recorded_traceStep h.sound h.recorded h.transactions he.1 he.2
  exact ⟨sound_traceStep h.sound he.1, hrecorded, hmatch⟩

/-- The end of a thread whose own trace is open takes the entry out of the table. -/
theorem threadsinfo_of_end (htabled : s.Tabled) {m : Memory} (hfree : s.heap m.second = none)
    (hc : s.tracecontexts group = some c) (hstarter : thread = c.thread)
    (hown : ¬ s.OwnThread thread) :
    (rbRgTracingHook s group thread .threadEnd m).1.threadsinfo thread = none := by
  have hcases := hookCases s group thread .threadEnd m
  generalize rbRgTracingHook s group thread .threadEnd m = result at hcases ⊢
  cases hcases with
  | silent hwhy =>
      rcases hwhy with hnone | hown'
      · rw [hc] at hnone
        cases hnone
      · exact absurd hown' hown
  | filtered c' hc' _ hnot =>
      rw [hc] at hc'
      exact absurd (.inl (Option.some.inj hc' ▸ hstarter)) hnot
  | starter c' =>
      have hseen : (s.see group c' thread .threadEnd).Tabled := ⟨htabled.allocated, htabled.apart⟩
      exact (hseen.handle (c'.seen thread .threadEnd) thread c'.rgThread .threadEnd hfree).2.2.2 rfl
  | member c' hc' _ hother =>
      rw [hc] at hc'
      exact absurd (Option.some.inj hc' ▸ hstarter) hother

/-- Where contexts still hold the shadow threads of the table, no such thread has ended. -/
theorem keepsStarter_of_pointersValid (hsound : s.Sound) {e : TraceEvent} (hpossible : Possible s e)
    (hvalid : PointersValid (traceStep s e).1) : KeepsStarter s e := by
  cases e with
  | hook group thread flag m =>
      cases flag with
      | threadEnd =>
          intro c hc hstarter
          by_contra hown
          obtain ⟨hsound', heffect, -⟩ := hsound.hookEffect hpossible
          have hnone := threadsinfo_of_end hsound'.tabled hpossible.2.second hc hstarter hown
          have hfixed := heffect.keeps.contexts group
          rw [show (s.enter thread TraceFlag.threadEnd.phase).tracecontexts group = some c from hc,
            Option.map_some] at hfixed
          obtain ⟨c', hc', heq⟩ := Option.map_eq_some_iff.mp hfixed
          have hthread : c'.thread = thread :=
            (congrArg TraceContext.thread heq :).trans hstarter.symm
          have hentry := (hvalid group c' hc').1
          rw [hthread] at hentry
          exact Option.some_ne_none _ (hentry.symm.trans hnone)
      | _ => trivial
  | _ => trivial

/-- **Contexts hold live shadow threads**, and transactions end as they have begun, if and only if
no thread ends while the trace that it has started is open. -/
theorem contexts_holdShadows_iff (vm : Nat → Option VmThread) (sinkThread timerThread : Option Nat)
    {events : List TraceEvent}
    (hpossible : Mealy.AllSteps traceStep Possible (.new vm sinkThread timerThread) events) :
    ContextsHoldShadows (.new vm sinkThread timerThread) events ↔
      Mealy.AllSteps traceStep KeepsStarter (.new vm sinkThread timerThread) events := by
  have hnew := sound_new vm sinkThread timerThread
  constructor
  · intro h
    exact Mealy.allSteps_of_states (P := TraceState.Sound) (V := PointersValid) (C := KeepsStarter)
      (fun _ _ h hp _ => sound_traceStep h hp)
      (fun _ _ h hp hvalid => keepsStarter_of_pointersValid h hp hvalid) hnew hpossible h.pointers
  · intro hkeeps
    have hrun : ∀ before, before <+: events →
        KeepsRecord (Mealy.run traceStep (.new vm sinkThread timerThread) before).2
          (Mealy.run traceStep (.new vm sinkThread timerThread) before).1 := by
      intro before hbefore
      have hsteps := (hpossible.and hkeeps).of_isPrefix hbefore
      have hhistory := Mealy.run_history_of_allSteps (P := KeepsRecord) keepsRecord_traceStep
        (keepsRecord_new vm sinkThread timerThread) hsteps
      rwa [List.nil_append] at hhistory
    refine ⟨fun before hbefore group c hc => ?_, (hrun events List.prefix_rfl).transactions⟩
    obtain ⟨hentry, ids, hids, -⟩ := (hrun before hbefore).recorded group c hc
    exact ⟨hentry, by rw [hids]; exact Option.some_ne_none _⟩

/-- Contexts hold live shadow threads where two threads trace and neither ends. -/
theorem contexts_holdShadows_twoTraces :
    ContextsHoldShadows (.new twoThreads none none) twoTraces :=
  (contexts_holdShadows_iff twoThreads none none possible_twoTraces).mpr
    ⟨trivial, trivial, trivial, trivial, trivial, trivial⟩

/-- A thread starts a trace and creates another one, which ends the trace behind the end of the
first thread. -/
def deadStarter : List TraceEvent :=
  [.startTrace 0 (memoryAt 1 10), .spawn 0 2, .hook 1 2 .threadBegin (memoryAt 0 20),
    .hook 1 0 .threadEnd (memoryAt 0 30), .finish 0, .endTrace 2 (memoryAt 0 40)]

/-- The context then holds a freed shadow thread, and the transaction ends under whatever is there.
-/
theorem not_contexts_holdShadows_deadStarter :
    Mealy.AllSteps traceStep Possible (.new twoThreads none none) deadStarter ∧
      ¬ ContextsHoldShadows (.new twoThreads none none) deadStarter := by
  constructor
  · refine ⟨⟨⟨_, rfl, .inr rfl⟩, by decide, rfl, ?_, ⟨rfl, rfl, by decide⟩⟩,
      ⟨⟨_, rfl, .inr rfl⟩, ?_, ⟨rfl, ?_⟩⟩, ⟨⟨_, rfl, rfl⟩, ⟨rfl, rfl, by decide⟩⟩,
      ⟨⟨_, rfl, by decide⟩, ⟨rfl, rfl, by decide⟩⟩, ⟨_, rfl, by decide⟩, ⟨_, rfl, .inl rfl⟩, trivial⟩
    · intro thread' v hv
      obtain ⟨-, hv⟩ := Option.ite_none_right_eq_some.mp hv
      obtain rfl := Option.some.inj hv
      decide
    · intro v hv
      cases hv
    · intro group c hc
      rcases group with _ | _ | n
      · cases hc
      · obtain rfl := Option.some.inj hc
        decide
      · cases hc
  · intro h
    obtain ⟨hentry, -⟩ := h.pointers (deadStarter.take 5) ⟨deadStarter.drop 5, rfl⟩ 1 _ rfl
    cases hentry

end RaygunApm
