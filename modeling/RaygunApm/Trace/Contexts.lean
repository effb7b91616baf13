import Mathlib.Logic.Function.Basic
import RaygunApm.Library.Mealy
import RaygunApm.Library.PartialMap

/-! # Trace contexts

Threads that start and end traces, spawn other threads and run code that is traced. A trace context
belongs to a thread group, which `start_trace` makes for it, and has a tracepoint of its own, whose
hook sees the events of all threads and picks out those of its group. The shadow threads are blocks
of memory: the hook and the contexts hold their addresses.

What the VM and the allocators choose comes with the events. `Possible` says which events can occur.
-/

namespace RaygunApm

/-- `rb_rg_DefaultThreadGroup`. -/
def rbRgDefaultThreadGroup : Nat := 0

/-- `RG_THREAD_ORPHANED`. -/
def rgThreadOrphaned : UInt32 := 0

/-! ## State -/

/-- Where a thread is in its life. -/
inductive Phase where
  /-- Nothing of it has run yet. -/
  | fresh
  | running
  /-- The handlers of its end are running. -/
  | ending
  | dead
  deriving DecidableEq

/-- A thread of the VM. -/
structure VmThread where
  /-- The thread group it belongs to. -/
  group : Nat
  phase : Phase
  /-- The thread that has created it. -/
  creator : Option Nat

/-- The object that has been this thread's creator is another thread now. -/
def VmThread.forget (v : VmThread) (object : Nat) : VmThread :=
  { v with creator := if v.creator = some object then none else v.creator }

/-- The thread can run code. -/
def VmThread.Active (v : VmThread) : Prop := v.phase = .fresh ∨ v.phase = .running

instance (v : VmThread) : Decidable v.Active := inferInstanceAs (Decidable (_ ∨ _))

/-- `rb_rg_trace_context_t`. -/
structure TraceContext where
  /-- The thread that has started the trace. -/
  thread : Nat
  /-- The thread to which new threads are attributed. -/
  parentThread : Option Nat
  thgroup : Nat
  /-- The address of the shadow thread of `thread`. -/
  rgThread : Nat
  deriving DecidableEq

/-- The ids in an `rg_thread_t`. -/
structure ThreadIds where
  tid : UInt32
  parentTid : UInt32
  deriving DecidableEq

/-- The VM and the tracer. -/
structure TraceState where
  /-- The threads of the VM, dead ones included until their objects are reused. -/
  vm : Nat → Option VmThread
  /-- `tracer->tracecontexts`. -/
  tracecontexts : Nat → Option TraceContext
  /-- `tracer->threadsinfo`. -/
  threadsinfo : Nat → Option Nat
  /-- The allocated shadow threads. -/
  heap : Nat → Option ThreadIds
  /-- `tracer->threads`: the number of shadow threads made so far. -/
  threads : UInt32
  /-- `tracer->sink_thread`. -/
  sinkThread : Option Nat
  /-- `tracer->timer_thread`. -/
  timerThread : Option Nat
  /-- `tracer->noop`. -/
  noop : Bool

/-- A new tracer, in a VM with these threads. -/
def TraceState.new (vm : Nat → Option VmThread) (sinkThread timerThread : Option Nat) :
    TraceState where
  vm := vm
  tracecontexts _ := none
  threadsinfo _ := none
  heap _ := none
  threads := 0
  sinkThread := sinkThread
  timerThread := timerThread
  noop := false

/-! ## Events and outputs -/

/-- What an allocation returns, and what freed memory holds. -/
structure Memory where
  /-- The thread group of a new trace context. -/
  group : Nat
  /-- The address of a shadow thread. -/
  first : Nat
  /-- The address of another one. -/
  second : Nat
  /-- The tid in a shadow thread that has been freed. -/
  stale : UInt32

/-- The kinds of tracepoint events: those of code, and those of the beginning and the end of a
thread. -/
inductive TraceFlag where
  /-- `RUBY_EVENT_CALL`, `RUBY_EVENT_RETURN` or `RUBY_EVENT_RAISE`. Its handler reports it, or it
  returns silently: for methods that are blacklisted or the tracer's own, behind a full shadow
  stack, deep in libraries, and for exceptions there or in the entrypoint. -/
  | code (reported : Bool)
  | threadBegin
  | threadEnd
  deriving DecidableEq

/-- What a thread does. -/
inductive TraceEvent where
  /-- `noop!`. -/
  | noop
  | startTrace (thread : Nat) (m : Memory)
  | endTrace (thread : Nat) (m : Memory)
  | spawn (thread child : Nat)
  /-- The tracepoint of the context of a group calls the hook. -/
  | hook (group thread : Nat) (flag : TraceFlag) (m : Memory)
  | finish (thread : Nat)

/-- What the tracer emits: for the context of a group, a thread, and under a tid. -/
inductive TraceOutput where
  | beginTransaction (group thread : Nat) (tid : UInt32)
  | endTransaction (group thread : Nat) (tid : UInt32)
  /-- A call, a return or an exception. -/
  | reported (group thread : Nat) (tid : UInt32)
  | threadStarted (group thread : Nat) (tid parentTid : UInt32)
  | threadEnded (group thread : Nat) (tid : UInt32)
  deriving DecidableEq

/-! ## The tracer -/

/-- `rb_rg_thread_group`. -/
def rbRgThreadGroup (s : TraceState) (thread : Nat) : Nat :=
  (s.vm thread).elim rbRgDefaultThreadGroup VmThread.group

/-- `rb_rg_thread_group_add`. -/
def rbRgThreadGroupAdd (thgroup : Nat) (s : TraceState) (thread : Nat) : TraceState :=
  { s with
    vm := Function.update s.vm thread ((s.vm thread).map fun v => { v with group := thgroup }) }

/-- `rb_rg_get_current_thread_trace_context`. -/
def rbRgGetCurrentThreadTraceContext (s : TraceState) (thread : Nat) : Option TraceContext :=
  s.tracecontexts (rbRgThreadGroup s thread)

/-- The tid in a shadow thread. -/
def TraceState.tidAt (s : TraceState) (m : Memory) (address : Nat) : UInt32 :=
  (s.heap address).elim m.stale ThreadIds.tid

/-- Make a shadow thread with the next tid, and enter it. -/
def TraceState.register (s : TraceState) (thread address : Nat) (parentTid : UInt32) : TraceState :=
  { s with
    threads := s.threads + 1
    heap := Function.update s.heap address (some { tid := s.threads + 1, parentTid := parentTid })
    threadsinfo := Function.update s.threadsinfo thread (some address) }

/-- `rb_rg_thread`. -/
def rbRgThread (s : TraceState) (thread address : Nat) : TraceState × Nat :=
  match s.threadsinfo thread with
  | some th => (s, th)
  | none => (s.register thread address rgThreadOrphaned, address)

/-- `rb_rg_thread_started`. The current thread is the new one. -/
def rbRgThreadStarted (s : TraceState) (parentThread : Option Nat) (thread : Nat) (m : Memory) :
    TraceState × UInt32 × UInt32 :=
  let parentTid := (s.threadsinfo (parentThread.getD thread)).elim rgThreadOrphaned (s.tidAt m)
  (s.register thread m.second parentTid, s.threads + 1, parentTid)

/-- `rb_rg_thread_ended`. -/
def rbRgThreadEnded (s : TraceState) (thread : Nat) (m : Memory) : TraceState × UInt32 :=
  let (s, th) := rbRgThread s thread m.second
  ({ s with
      heap := Function.update s.heap th none
      threadsinfo := Function.update s.threadsinfo thread none },
    s.tidAt m th)

/-- `rb_rg_tracer_start_trace`. -/
def rbRgTracerStartTrace (s : TraceState) (thread : Nat) (m : Memory) :
    TraceState × List TraceOutput :=
  if s.noop then (s, [])
  else if (rbRgGetCurrentThreadTraceContext s thread).isSome then (s, [])
  else
    let (s, th) := rbRgThread s thread m.first
    let traceContext : TraceContext :=
      { thread := thread, parentThread := none, thgroup := m.group, rgThread := th }
    let s := rbRgThreadGroupAdd m.group s thread
    ({ s with tracecontexts := Function.update s.tracecontexts m.group (some traceContext) },
      [.beginTransaction m.group thread (s.tidAt m th)])

/-- `rb_rg_tracer_end_trace`. Freeing the context disables its tracepoint. -/
def rbRgTracerEndTrace (s : TraceState) (thread : Nat) (m : Memory) :
    TraceState × List TraceOutput :=
  match rbRgGetCurrentThreadTraceContext s thread with
  | none => (s, [])
  | some traceContext =>
      ({ s with
          tracecontexts := Function.update s.tracecontexts (rbRgThreadGroup s thread) none },
        [.endTransaction (rbRgThreadGroup s thread) thread (s.tidAt m traceContext.rgThread)])

/-- The thread filter of the hook, for a thread that is not the tracer's own. -/
def PassesFilter (s : TraceState) (traceContext : TraceContext) (thread : Nat) : Prop :=
  thread = traceContext.thread ∨
    rbRgThreadGroup s thread ≠ rbRgDefaultThreadGroup ∧
      rbRgThreadGroup s thread = traceContext.thgroup

instance (s : TraceState) (traceContext : TraceContext) (thread : Nat) :
    Decidable (PassesFilter s traceContext thread) := inferInstanceAs (Decidable (_ ∨ _))

/-- The thread is one of the tracer's own. -/
def TraceState.OwnThread (s : TraceState) (thread : Nat) : Prop :=
  s.sinkThread = some thread ∨ s.timerThread = some thread

instance (s : TraceState) (thread : Nat) : Decidable (s.OwnThread thread) :=
  inferInstanceAs (Decidable (_ ∨ _))

/-- The context as the hook leaves it: it remembers the last thread that has run code. -/
def TraceContext.seen (traceContext : TraceContext) (thread : Nat) (flag : TraceFlag) :
    TraceContext :=
  if flag = .threadBegin then traceContext else { traceContext with parentThread := some thread }

/-- The part of the hook behind the filter. -/
def TraceState.handle (s : TraceState) (traceContext : TraceContext) (thread th : Nat)
    (flag : TraceFlag) (m : Memory) : TraceState × List TraceOutput :=
  match flag with
  | .code reported =>
      (s, if reported then [.reported traceContext.thgroup thread (s.tidAt m th)] else [])
  | .threadBegin =>
      let (s, tid, parentTid) := rbRgThreadStarted s traceContext.parentThread thread m
      (s, [.threadStarted traceContext.thgroup thread tid parentTid])
  | .threadEnd =>
      let (s, tid) := rbRgThreadEnded s thread m
      (s, [.threadEnded traceContext.thgroup thread tid])

/-- `rb_rg_tracing_hook_i`, called with the context of a group. -/
def rbRgTracingHook (s : TraceState) (group thread : Nat) (flag : TraceFlag) (m : Memory) :
    TraceState × List TraceOutput :=
  match s.tracecontexts group with
  | none => (s, [])
  | some traceContext =>
      if s.OwnThread thread then (s, [])
      else
        let traceContext := traceContext.seen thread flag
        let s := { s with
          tracecontexts := Function.update s.tracecontexts group (some traceContext) }
        if thread = traceContext.thread then
          s.handle traceContext thread traceContext.rgThread flag m
        else if PassesFilter s traceContext thread then
          let (s, th) := rbRgThread s thread m.first
          s.handle traceContext thread th flag m
        else (s, [])

/-! ## The VM -/

/-- A thread goes on to another phase of its life. -/
def TraceState.enter (s : TraceState) (thread : Nat) (phase : Phase) : TraceState :=
  { s with
    vm := Function.update s.vm thread ((s.vm thread).map fun v => { v with phase := phase }) }

/-- The thread that enters a phase is in it. -/
theorem TraceState.enter_vm_self (s : TraceState) (thread : Nat) (phase : Phase) :
    (s.enter thread phase).vm thread = (s.vm thread).map fun v => { v with phase := phase } :=
  Function.update_self ..

/-- A thread that enters a phase leaves the others as they are. -/
theorem TraceState.enter_vm_of_ne (s : TraceState) {thread thread' : Nat} (h : thread' ≠ thread)
    (phase : Phase) : (s.enter thread phase).vm thread' = s.vm thread' :=
  Function.update_of_ne h ..

/-- The thread that is added to a group is in it. -/
theorem rbRgThreadGroupAdd_vm_self (thgroup : Nat) (s : TraceState) (thread : Nat) :
    (rbRgThreadGroupAdd thgroup s thread).vm thread
      = (s.vm thread).map fun v => { v with group := thgroup } :=
  Function.update_self ..

/-- A thread that is added to a group leaves the others as they are. -/
theorem rbRgThreadGroupAdd_vm_of_ne (thgroup : Nat) (s : TraceState) {thread thread' : Nat}
    (h : thread' ≠ thread) : (rbRgThreadGroupAdd thgroup s thread).vm thread' = s.vm thread' :=
  Function.update_of_ne h ..

/-- The phase of a thread behind an event. -/
def TraceFlag.phase : TraceFlag → Phase
  | .code _ => .running
  | .threadBegin => .fresh
  | .threadEnd => .ending

/-- One event. A new thread has the group of its creator. -/
def traceStep (s : TraceState) : TraceEvent → TraceState × List TraceOutput
  | .noop => ({ s with noop := true }, [])
  | .startTrace thread m => rbRgTracerStartTrace (s.enter thread .running) thread m
  | .endTrace thread m => rbRgTracerEndTrace (s.enter thread .running) thread m
  | .spawn thread child =>
      let s := s.enter thread .running
      let v : VmThread :=
        { group := rbRgThreadGroup s thread, phase := .fresh, creator := some thread }
      let others thread' := (s.vm thread').map fun v => v.forget child
      ({ s with vm := Function.update others child (some v) }, [])
  | .hook group thread flag m => rbRgTracingHook (s.enter thread flag.phase) group thread flag m
  | .finish thread => (s.enter thread .dead, [])

/-- The thread can run code. -/
def TraceState.Running (s : TraceState) (thread : Nat) : Prop :=
  ∃ v, s.vm thread = some v ∧ v.Active

/-- The blocks that an allocation returns are not in use. -/
structure Memory.Free (m : Memory) (s : TraceState) : Prop where
  first : s.heap m.first = none
  second : s.heap m.second = none
  apart : m.first ≠ m.second

/-- An object that is reachable from the tracer is not collected. -/
structure Unreferenced (s : TraceState) (object : Nat) : Prop where
  threadsinfo : s.threadsinfo object = none
  contexts : ∀ group traceContext, s.tracecontexts group = some traceContext →
    traceContext.thread ≠ object ∧ traceContext.parentThread ≠ some object

/-- **The events that can occur.** Code runs on threads that are alive. A thread begins before
anything else of it happens, and behind its end nothing happens but the handlers of its end. New
groups, new threads and new blocks are objects that nothing else refers to. -/
def Possible (s : TraceState) : TraceEvent → Prop
  | .noop => True
  | .startTrace thread m =>
      s.Running thread ∧ m.group ≠ rbRgDefaultThreadGroup ∧ s.tracecontexts m.group = none ∧
        (∀ thread' v, s.vm thread' = some v → v.group ≠ m.group) ∧ m.Free s
  | .endTrace thread _ => s.Running thread
  | .spawn thread child =>
      s.Running thread ∧ (∀ v, s.vm child = some v → v.phase = .dead) ∧ Unreferenced s child
  | .hook _ thread flag m =>
      (∃ v, s.vm thread = some v ∧
        match flag with
        | .code _ => v.Active
        | .threadBegin => v.phase = .fresh
        | .threadEnd => v.phase ≠ .dead) ∧ m.Free s
  | .finish thread => ∃ v, s.vm thread = some v ∧ v.phase ≠ .dead

end RaygunApm
