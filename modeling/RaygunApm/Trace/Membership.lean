import RaygunApm.Trace.Isolation

/-! # What belongs to a trace

A trace is for the work of a thread: it covers the thread that has started it and the threads that
are created by those that it covers. `Traces` says so with numbers in place of thread groups,
contexts and shadow threads. The tracer does the same (`traces_refine`): every event of a thread
that a handler reports it reports once, for the trace that covers the thread, while this trace is
open, and none else. -/

namespace RaygunApm

/-! ## The traces of a process -/

/-- What happens in a process. For an event of a thread the VM calls the hook of every trace. -/
inductive ProcessEvent where
  /-- `noop!`. -/
  | noop
  | startTrace (thread : Nat) (m : Memory)
  | endTrace (thread : Nat) (m : Memory)
  | spawn (thread child : Nat)
  /-- The hooks are called for the contexts of these groups, in this order. -/
  | tracepoint (thread : Nat) (flag : TraceFlag) (calls : List (Nat × Memory))
  | finish (thread : Nat)

/-- The handler of the event reports it. -/
def TraceFlag.reports : TraceFlag → Bool
  | .code reported => reported
  | .threadBegin | .threadEnd => true

/-- What is emitted for a trace. -/
inductive TracesOutput where
  | began (trace thread : Nat)
  | reported (trace : Option Nat) (thread : Nat) (flag : TraceFlag)
  | ended (trace : Option Nat) (thread : Nat)
  deriving DecidableEq

/-- The trace. -/
def TracesOutput.trace : TracesOutput → Option Nat
  | .began trace _ => some trace
  | .reported trace _ _ | .ended trace _ => trace

/-- The traces of a process, by number. -/
structure Traces where
  /-- How many have begun. -/
  begun : Nat
  /-- The last trace that a thread has started, or was created in. -/
  member : Nat → Option Nat
  /-- The traces that have not ended. -/
  opened : Nat → Bool
  noop : Bool

namespace Traces

/-- There is no trace yet. -/
def new : Traces where
  begun := 0
  member _ := none
  opened _ := false
  noop := false

/-- The open trace that covers a thread. -/
def traceOf (t : Traces) (thread : Nat) : Option Nat := (t.member thread).filter t.opened

/-- One event. `Own` are the tracer's own threads. -/
def step (Own : Nat → Prop) [DecidablePred Own] (t : Traces) :
    ProcessEvent → Traces × List TracesOutput
  | .noop => ({ t with noop := true }, [])
  | .startTrace thread _ =>
      if t.noop ∨ (t.traceOf thread).isSome then (t, [])
      else
        ({ t with
            begun := t.begun + 1
            member := Function.update t.member thread (some t.begun)
            opened := Function.update t.opened t.begun true },
          [.began t.begun thread])
  | .endTrace thread _ =>
      match t.traceOf thread with
      | none => (t, [])
      | some trace =>
          ({ t with opened := Function.update t.opened trace false }, [.ended (some trace) thread])
  | .spawn thread child =>
      ({ t with member := Function.update t.member child (t.member thread) }, [])
  | .tracepoint thread flag _ =>
      if flag.reports ∧ ¬ Own thread ∧ (t.traceOf thread).isSome then
        (t, [.reported (t.traceOf thread) thread flag])
      else (t, [])
  | .finish _ => (t, [])

end Traces

/-! ## The tracer -/

/-- The steps of the tracer in an event. -/
def ProcessEvent.events : ProcessEvent → List TraceEvent
  | .noop => [.noop]
  | .startTrace thread m => [.startTrace thread m]
  | .endTrace thread m => [.endTrace thread m]
  | .spawn thread child => [.spawn thread child]
  | .tracepoint thread flag calls => calls.map fun call => .hook call.1 thread flag call.2
  | .finish thread => [.finish thread]

/-- One event. -/
def processStep (s : TraceState) (e : ProcessEvent) : TraceState × List TraceOutput :=
  Mealy.run traceStep s e.events

/-- The hook is called for every context, and once. -/
def ProcessEvent.CallsAll (s : TraceState) : ProcessEvent → Prop
  | .tracepoint _ _ calls => (calls.map Prod.fst).Nodup ∧
      ∀ group, (s.tracecontexts group).isSome → group ∈ calls.map Prod.fst
  | _ => True

/-- The events that can occur. -/
def ProcessPossible (s : TraceState) (e : ProcessEvent) : Prop :=
  Mealy.AllSteps traceStep Possible s e.events ∧ e.CallsAll s

/-- The numbers of the traces: each BEGIN_TRANSACTION begins one, which has its group from then on.
-/
structure Numbering where
  next : Nat
  number : Nat → Option Nat

/-- No trace has begun. -/
def Numbering.new : Numbering := ⟨0, fun _ => none⟩

/-- Number what the tracer emits. -/
def numberStep (n : Numbering) : TraceOutput → Numbering × List TracesOutput
  | .beginTransaction group thread _ =>
      (⟨n.next + 1, Function.update n.number group (some n.next)⟩, [.began n.next thread])
  | .endTransaction group thread _ => (n, [.ended (n.number group) thread])
  | .reported group thread _ => (n, [.reported (n.number group) thread (.code true)])
  | .threadStarted group thread _ _ => (n, [.reported (n.number group) thread .threadBegin])
  | .threadEnded group thread _ => (n, [.reported (n.number group) thread .threadEnd])

/-! ## The relation -/

variable {s s' : TraceState} {n : Numbering} {t : Traces} {group thread : Nat}

/-- The number of the open trace of a thread. -/
def TraceState.traceNumber (s : TraceState) (n : Numbering) (thread : Nat) : Option Nat :=
  (rbRgGetCurrentThreadTraceContext s thread).bind fun _ => n.number (rbRgThreadGroup s thread)

/-- The tracer has these traces. -/
structure RefinesTraces (s : TraceState) (n : Numbering) (t : Traces) : Prop where
  owned : s.Owned
  noop : t.noop = s.noop
  begun : t.begun = n.next
  /-- Threads are covered by the traces that the contexts of their groups stand for. -/
  traceOf : ∀ thread, t.traceOf thread = s.traceNumber n thread
  /-- A context stands for an open trace. -/
  numbered : ∀ group, (s.tracecontexts group).isSome →
    ∃ trace, n.number group = some trace ∧ trace < n.next ∧ t.opened trace = true
  /-- No two contexts stand for the same trace. -/
  apart : ∀ group group', (s.tracecontexts group).isSome → (s.tracecontexts group').isSome →
    n.number group = n.number group' → group = group'
  member : ∀ thread trace, t.member thread = some trace → trace < n.next

/-- The same groups have contexts as before. -/
theorem TraceState.Keeps.isSome_context (h : s.Keeps s') (group : Nat) :
    (s'.tracecontexts group).isSome = (s.tracecontexts group).isSome := by
  have hfixed := congrArg Option.isSome (h.contexts group)
  rwa [Option.isSome_map, Option.isSome_map] at hfixed

/-- Threads have the traces that they had before. -/
theorem TraceState.Keeps.traceNumber (h : s.Keeps s') (n : Numbering) (thread : Nat) :
    s'.traceNumber n thread = s.traceNumber n thread := by
  have hsome := h.isSome_context (rbRgThreadGroup s thread)
  rw [TraceState.traceNumber, TraceState.traceNumber, rbRgGetCurrentThreadTraceContext,
    rbRgGetCurrentThreadTraceContext, h.thread_group]
  cases hc : s.tracecontexts (rbRgThreadGroup s thread) with
  | none =>
      rw [hc, Option.isSome_none, Option.isSome_eq_false_iff, Option.isNone_iff_eq_none] at hsome
      rw [hsome]
  | some c =>
      rw [hc, Option.isSome_some, Option.isSome_iff_exists] at hsome
      obtain ⟨c', hc'⟩ := hsome
      rw [hc']
      rfl

/-- The relation is about what `Keeps` keeps. -/
theorem RefinesTraces.keeps (h : RefinesTraces s n t) (hkeeps : s.Keeps s')
    (hnoop : s'.noop = s.noop) : RefinesTraces s' n t where
  owned := h.owned.keeps hkeeps
  noop := h.noop.trans hnoop.symm
  begun := h.begun
  traceOf thread := (h.traceOf thread).trans (hkeeps.traceNumber n thread).symm
  numbered group hc := h.numbered group (hkeeps.isSome_context group ▸ hc)
  apart group group' hc hc' :=
    h.apart group group' (hkeeps.isSome_context group ▸ hc) (hkeeps.isSome_context group' ▸ hc')
  member := h.member

/-- A thread is covered by an open trace exactly if its group has a context. -/
theorem RefinesTraces.isSome_traceOf (h : RefinesTraces s n t) (thread : Nat) :
    (t.traceOf thread).isSome = (rbRgGetCurrentThreadTraceContext s thread).isSome := by
  rw [h.traceOf, TraceState.traceNumber]
  cases hc : rbRgGetCurrentThreadTraceContext s thread with
  | none => rfl
  | some c =>
      have hsome : (s.tracecontexts (rbRgThreadGroup s thread)).isSome = true := by
        rw [← rbRgGetCurrentThreadTraceContext, hc, Option.isSome_some]
      obtain ⟨trace, hnumber, -⟩ := h.numbered _ hsome
      rw [Option.bind_some, hnumber]
      rfl

/-- A step of the tracer and one of the traces match. -/
def Matches (n : Numbering) (r : TraceState × List TraceOutput) (r' : Traces × List TracesOutput) :
    Prop :=
  RefinesTraces r.1 (Mealy.run numberStep n r.2).1 r'.1 ∧ (Mealy.run numberStep n r.2).2 = r'.2

/-- A step that changes and shows nothing matches an abstract one of the same kind. -/
theorem RefinesTraces.matches (h : RefinesTraces s n t) : Matches n (s, []) (t, []) := ⟨h, rfl⟩

/-! ## Events -/

/-- When `start_trace` does something, and what. -/
theorem startTrace_eq (s : TraceState) (thread : Nat) (m : Memory) :
    rbRgTracerStartTrace s thread m
      = if s.noop ∨ (rbRgGetCurrentThreadTraceContext s thread).isSome then (s, [])
        else (s.started thread m, [.beginTransaction m.group thread
          ((rbRgThread s thread m.first).1.tidAt m (rbRgThread s thread m.first).2)]) := by
  unfold rbRgTracerStartTrace
  by_cases hnoop : s.noop = true
  · rw [if_pos hnoop, if_pos (.inl hnoop)]
  · by_cases hc : (rbRgGetCurrentThreadTraceContext s thread).isSome = true
    · rw [if_neg hnoop, if_pos hc, if_pos (.inr hc)]
    · rw [if_neg hnoop, if_neg hc, if_neg (not_or.mpr ⟨hnoop, hc⟩), TraceState.started,
        ← (rbRgThread_tables s thread m.first).2]
      rfl

/-- The thread that has started a trace is in its group. -/
theorem TraceState.started_group_self {v : VmThread} (hv : s.vm thread = some v) (m : Memory) :
    rbRgThreadGroup (s.started thread m) thread = m.group := by
  rw [rbRgThreadGroup, s.started_vm, rbRgThreadGroupAdd_vm_self, hv]
  rfl

/-- The other threads are in the groups that they were in before. -/
theorem TraceState.started_group_of_ne {thread' : Nat} (h : thread' ≠ thread) (m : Memory) :
    rbRgThreadGroup (s.started thread m) thread' = rbRgThreadGroup s thread' := by
  rw [rbRgThreadGroup, s.started_vm, rbRgThreadGroupAdd_vm_of_ne _ _ h]
  rfl

/-- The other groups have the contexts that they had before. -/
theorem TraceState.started_context_of_ne {m : Memory} (h : group ≠ m.group) :
    (s.started thread m).tracecontexts group = s.tracecontexts group :=
  Function.update_of_ne h ..

/-- A group that no thread is in. -/
theorem rbRgThreadGroup_ne {group : Nat} (hgroup : group ≠ rbRgDefaultThreadGroup)
    (hothers : ∀ thread v, s.vm thread = some v → v.group ≠ group) (thread : Nat) :
    rbRgThreadGroup s thread ≠ group := by
  rw [rbRgThreadGroup]
  cases hv : s.vm thread with
  | none => exact hgroup.symm
  | some v => exact hothers thread v hv

/-- A trace that begins in the tracer is a new trace of the abstract model. -/
theorem RefinesTraces.started (h : RefinesTraces s n t) {v : VmThread} (hv : s.vm thread = some v)
    {m : Memory} (howned : (s.started thread m).Owned) (hgroup : m.group ≠ rbRgDefaultThreadGroup)
    (hothers : ∀ thread v, s.vm thread = some v → v.group ≠ m.group) :
    RefinesTraces (s.started thread m) ⟨n.next + 1, Function.update n.number m.group (some n.next)⟩
      { t with
        begun := t.begun + 1
        member := Function.update t.member thread (some t.begun)
        opened := Function.update t.opened t.begun true } where
  owned := howned
  noop := h.noop.trans <| by
    rw [TraceState.started, rbRgThreadGroupAdd, rbRgThread]
    split <;> rfl
  begun := congrArg (· + 1) h.begun
  traceOf thread' := by
    rw [Traces.traceOf, TraceState.traceNumber, rbRgGetCurrentThreadTraceContext]
    by_cases hthread : thread' = thread
    · subst hthread
      rw [TraceState.started_group_self hv]
      simp [TraceState.started, h.begun]
    · -- the trace of another thread is an older one
      have hne := rbRgThreadGroup_ne hgroup hothers thread'
      have hold := h.traceOf thread'
      rw [Traces.traceOf, TraceState.traceNumber, rbRgGetCurrentThreadTraceContext] at hold
      rw [TraceState.started_group_of_ne hthread, TraceState.started]
      dsimp only
      rw [Function.update_of_ne hthread, Function.update_of_ne hne, Function.update_of_ne hne,
        ← hold]
      cases hmember : t.member thread' with
      | none => rfl
      | some trace =>
          have hlt := h.member thread' trace hmember
          rw [Option.filter_some, Option.filter_some, Function.update_of_ne]
          rw [h.begun]
          exact Nat.ne_of_lt hlt
  numbered group hc := by
    by_cases heq : group = m.group
    · subst heq
      refine ⟨n.next, Function.update_self .., n.next.lt_succ_self, ?_⟩
      rw [h.begun]
      exact Function.update_self ..
    · rw [TraceState.started_context_of_ne heq] at hc
      obtain ⟨trace, hnumber, hlt, hopened⟩ := h.numbered group hc
      refine ⟨trace, (Function.update_of_ne heq ..).trans hnumber, Nat.lt_succ_of_lt hlt, ?_⟩
      dsimp only
      rw [h.begun, Function.update_of_ne (Nat.ne_of_lt hlt)]
      exact hopened
  apart group group' hc hc' heq := by
    dsimp only at heq
    by_cases hnew : group = m.group <;> by_cases hnew' : group' = m.group
    · rw [hnew, hnew']
    · -- the number of an older group is smaller than the new one
      rw [TraceState.started_context_of_ne hnew'] at hc'
      obtain ⟨trace, hnumber, hlt, -⟩ := h.numbered group' hc'
      rw [hnew, Function.update_self, Function.update_of_ne hnew', hnumber] at heq
      exact absurd (Option.some.inj heq) (Nat.ne_of_gt hlt)
    · rw [TraceState.started_context_of_ne hnew] at hc
      obtain ⟨trace, hnumber, hlt, -⟩ := h.numbered group hc
      rw [hnew', Function.update_self, Function.update_of_ne hnew, hnumber] at heq
      exact absurd (Option.some.inj heq) (Nat.ne_of_lt hlt)
    · rw [TraceState.started_context_of_ne hnew] at hc
      rw [TraceState.started_context_of_ne hnew'] at hc'
      rw [Function.update_of_ne hnew, Function.update_of_ne hnew'] at heq
      exact h.apart group group' hc hc' heq
  member thread' trace hmember := by
    dsimp only at hmember
    rcases PartialMap.insert_eq_some_iff.mp hmember with ⟨-, rfl⟩ | ⟨-, hold⟩
    · rw [h.begun]
      exact n.next.lt_succ_self
    · exact Nat.lt_succ_of_lt (h.member thread' trace hold)

/-- The contexts that are left are those of other groups. -/
theorem TraceState.ended_context (h : ((s.ended thread).tracecontexts group).isSome) :
    group ≠ rbRgThreadGroup s thread ∧ (s.tracecontexts group).isSome := by
  obtain ⟨c, hc⟩ := Option.isSome_iff_exists.mp h
  obtain ⟨hne, hc⟩ := PartialMap.erase_eq_some_iff.mp hc
  exact ⟨hne, Option.isSome_of_eq_some hc⟩

/-- The state of a trace that ends. -/
theorem RefinesTraces.ended (h : RefinesTraces s n t) {trace : Nat}
    (hc : (s.tracecontexts (rbRgThreadGroup s thread)).isSome)
    (hnumber : n.number (rbRgThreadGroup s thread) = some trace) (howned : (s.ended thread).Owned) :
    RefinesTraces (s.ended thread) n { t with opened := Function.update t.opened trace false } where
  owned := howned
  noop := h.noop
  begun := h.begun
  traceOf thread' := by
    have hgroup : rbRgThreadGroup (s.ended thread) thread' = rbRgThreadGroup s thread' := rfl
    have hold := h.traceOf thread'
    rw [Traces.traceOf, TraceState.traceNumber, rbRgGetCurrentThreadTraceContext] at hold ⊢
    rw [hgroup, TraceState.ended]
    dsimp only
    by_cases hsame : rbRgThreadGroup s thread' = rbRgThreadGroup s thread
    · -- the trace was that of the thread
      obtain ⟨c, hc⟩ := Option.isSome_iff_exists.mp hc
      rw [hsame, hc, Option.bind_some, hnumber, Option.filter_eq_some_iff] at hold
      rw [hsame, Function.update_self, hold.1]
      simp
    · rw [Function.update_of_ne hsame, ← hold]
      cases hmember : t.member thread' with
      | none => rfl
      | some trace' =>
          have hne : trace' ≠ trace := by
            rintro rfl
            obtain ⟨trace'', hnumber', -, hopened⟩ := h.numbered _ hc
            obtain rfl := Option.some.inj (hnumber.symm.trans hnumber')
            rw [hmember, Option.filter_some, if_pos hopened] at hold
            obtain ⟨c, hc', hnumber''⟩ := Option.bind_eq_some_iff.mp hold.symm
            have hsome : (s.tracecontexts (rbRgThreadGroup s thread')).isSome := by
              rw [hc']
              rfl
            exact hsame (h.apart _ _ hsome hc (hnumber''.trans hnumber.symm))
          rw [Option.filter_some, Option.filter_some, Function.update_of_ne hne]
  numbered group hc' := by
    obtain ⟨hne, hc'⟩ := TraceState.ended_context hc'
    obtain ⟨trace', hnumber', hlt, hopened⟩ := h.numbered group hc'
    refine ⟨trace', hnumber', hlt, ?_⟩
    have hother : trace' ≠ trace := by
      rintro rfl
      exact hne (h.apart _ _ hc' hc (hnumber'.trans hnumber.symm))
    dsimp only
    rw [Function.update_of_ne hother]
    exact hopened
  apart group group' hc hc' heq :=
    h.apart group group' (TraceState.ended_context hc).2 (TraceState.ended_context hc').2 heq
  member := h.member

/-- **A hook reports** the events of the threads in its group. -/
theorem numbered_hook (h : s.Owned) (n : Numbering) (group thread : Nat) (flag : TraceFlag)
    (m : Memory) :
    Mealy.run numberStep n (rbRgTracingHook s group thread flag m).2
      = (n, if flag.reports ∧ ¬ s.OwnThread thread ∧ group = rbRgThreadGroup s thread ∧
            (s.tracecontexts group).isSome then
          [.reported (n.number group) thread flag] else []) := by
  have hhandle : ∀ (s' : TraceState) (c : TraceContext) (th : Nat), c.thgroup = group →
      ¬ s.OwnThread thread → rbRgThreadGroup s thread = group → (s.tracecontexts group).isSome →
      Mealy.run numberStep n (s'.handle c thread th flag m).2
        = (n, if flag.reports ∧ ¬ s.OwnThread thread ∧ group = rbRgThreadGroup s thread ∧
            (s.tracecontexts group).isSome then
          [.reported (n.number group) thread flag] else []) := by
    rintro s' c th rfl hown hgroup hsome
    simp only [hown, hgroup, hsome, not_false_eq_true, and_true]
    -- a handler of code reports it or not, and the others report their event
    match flag with
    | .code true | .code false | .threadBegin | .threadEnd => rfl
  have hcases := hookCases s group thread flag m
  generalize rbRgTracingHook s group thread flag m = result at hcases
  cases hcases with
  | silent hnone =>
      rw [if_neg]
      · rfl
      · rintro ⟨-, hown, -, hc⟩
        rcases hnone with hnone | hown'
        · rw [hnone] at hc
          cases hc
        · exact hown hown'
  | filtered c hc hown hpasses =>
      rw [if_neg]
      · rfl
      · rintro ⟨-, -, hgroup, -⟩
        obtain ⟨hkey, hne⟩ := h.key group c hc
        exact hpasses (.inr ⟨hgroup ▸ hne, hgroup.symm.trans hkey.symm⟩)
  | starter c hc hown hthread =>
      have hgroup := h.group_of_passes hc (.inl hthread)
      refine hhandle _ _ _ ?_ hown hgroup (Option.isSome_of_eq_some hc)
      exact (congrArg TraceContext.thgroup (c.seen_fixed thread flag) :).trans (h.key group c hc).1
  | member c hc hown hthread hpasses =>
      have hgroup := h.group_of_passes hc hpasses
      refine hhandle _ _ _ ?_ hown hgroup (Option.isSome_of_eq_some hc)
      exact (congrArg TraceContext.thgroup (c.seen_fixed thread flag) :).trans (h.key group c hc).1

/-- The hooks of an event. -/
def hooks (thread : Nat) (flag : TraceFlag) (calls : List (Nat × Memory)) : List TraceEvent :=
  calls.map fun call => .hook call.1 thread flag call.2

/-- **Of the hooks one reports**, if the handlers report the event and the group of the thread has a
context. -/
theorem numbered_hooks (h : s.Owned) (n : Numbering) (thread : Nat) (flag : TraceFlag)
    {calls : List (Nat × Memory)} (hnodup : (calls.map Prod.fst).Nodup) :
    s.Keeps (Mealy.run traceStep s (hooks thread flag calls)).1 ∧
      s.SameSettings (Mealy.run traceStep s (hooks thread flag calls)).1 ∧
      Mealy.run numberStep n (Mealy.run traceStep s (hooks thread flag calls)).2
        = (n, if flag.reports ∧ ¬ s.OwnThread thread ∧ rbRgThreadGroup s thread ∈ calls.map Prod.fst ∧
              (s.tracecontexts (rbRgThreadGroup s thread)).isSome then
            [.reported (n.number (rbRgThreadGroup s thread)) thread flag] else []) := by
  induction calls generalizing s with
  | nil => exact ⟨.refl s, ⟨rfl, rfl, rfl⟩, by simp [hooks]⟩
  | cons call calls ih =>
      obtain ⟨hnotin, hnodup⟩ := List.nodup_cons.mp hnodup
      have henter := s.keeps_enter thread flag.phase
      have hkeeps : s.Keeps (traceStep s (.hook call.1 thread flag call.2)).1 :=
        henter.trans (keeps_rbRgTracingHook ..)
      have hsettings : s.SameSettings (traceStep s (.hook call.1 thread flag call.2)).1 := by
        have hsame : s.SameSettings (s.enter thread flag.phase) := ⟨rfl, rfl, rfl⟩
        exact hsame.trans (sameSettings_hook ..)
      have hfirst : Mealy.run numberStep n (traceStep s (.hook call.1 thread flag call.2)).2
          = (n, if flag.reports ∧ ¬ s.OwnThread thread ∧ call.1 = rbRgThreadGroup s thread ∧
                (s.tracecontexts call.1).isSome then
              [.reported (n.number call.1) thread flag] else []) := by
        have hhook := numbered_hook (h.keeps henter) n call.1 thread flag call.2
        rw [henter.thread_group] at hhook
        exact hhook
      obtain ⟨hkeeps', hsettings', hrest⟩ := ih (h.keeps hkeeps) hnodup
      rw [hooks, List.map_cons, Mealy.run_cons, ← hooks]
      refine ⟨hkeeps.trans hkeeps', hsettings.trans hsettings', ?_⟩
      rw [Mealy.run_append, hfirst]
      simp only [hrest, hkeeps.thread_group, hkeeps.isSome_context, hsettings.ownThread]
      by_cases hgroup : call.1 = rbRgThreadGroup s thread
      · -- the hook of this group reports, and the later ones are of others
        have hlater : ¬ rbRgThreadGroup s thread ∈ calls.map Prod.fst := hgroup ▸ hnotin
        have hmem : rbRgThreadGroup s thread ∈ (call :: calls).map Prod.fst := hgroup ▸ .head _
        simp only [hgroup, hlater, hmem, true_and, false_and, and_false, if_false, List.append_nil]
      · have hmem : rbRgThreadGroup s thread ∈ (call :: calls).map Prod.fst
            ↔ rbRgThreadGroup s thread ∈ calls.map Prod.fst :=
          List.mem_cons.trans (or_iff_right (Ne.symm hgroup))
        simp only [hgroup, hmem, false_and, and_false, if_false, List.nil_append]

/-! ## The refinement -/

/-- The groups behind the creation of a thread. -/
theorem TraceState.spawn_group (s : TraceState) (thread child thread' : Nat) :
    rbRgThreadGroup (traceStep s (.spawn thread child)).1 thread'
      = rbRgThreadGroup s (if thread' = child then thread else thread') := by
  have hentered := (s.keeps_enter thread .running).thread_group
  by_cases hchild : thread' = child
  · rw [if_pos hchild, rbRgThreadGroup, traceStep]
    dsimp only
    rw [hchild, Function.update_self, ← hentered thread]
    rfl
  · rw [if_neg hchild, rbRgThreadGroup, traceStep]
    dsimp only
    rw [Function.update_of_ne hchild, ← hentered thread', rbRgThreadGroup]
    cases (s.enter thread .running).vm thread' with
    | none => rfl
    | some v => rfl

/-- A thread that is created is covered by the trace of its creator. -/
theorem RefinesTraces.spawn (h : RefinesTraces s n t) {child : Nat}
    (howned : (traceStep s (.spawn thread child)).1.Owned) :
    RefinesTraces (traceStep s (.spawn thread child)).1 n
      { t with member := Function.update t.member child (t.member thread) } where
  owned := howned
  noop := h.noop
  begun := h.begun
  traceOf thread' := by
    have hold := h.traceOf (if thread' = child then thread else thread')
    rw [Traces.traceOf, TraceState.traceNumber, rbRgGetCurrentThreadTraceContext] at hold ⊢
    rw [s.spawn_group]
    refine Eq.trans ?_ hold
    dsimp only
    rw [Function.update_apply]
    split <;> rfl
  numbered := h.numbered
  apart := h.apart
  member thread' trace hmember := by
    dsimp only at hmember
    by_cases hchild : thread' = child
    · rw [hchild, Function.update_self] at hmember
      exact h.member thread trace hmember
    · rw [Function.update_of_ne hchild] at hmember
      exact h.member thread' trace hmember

/-- A thread starts a trace, or is in one. -/
theorem matches_startTrace (h : RefinesTraces s n t) {thread : Nat} {m : Memory}
    (hpossible : Possible s (.startTrace thread m)) (Own : Nat → Prop) [DecidablePred Own] :
    Matches n (processStep s (.startTrace thread m)) (t.step Own (.startTrace thread m)) := by
  have howned := owned_traceStep h.owned hpossible
  obtain ⟨⟨v, hv, -⟩, hgroup, -, hothers, -⟩ := hpossible
  have hentered := h.keeps (s.keeps_enter thread .running) rfl
  have hv' : (s.enter thread .running).vm thread = some { v with phase := .running } := by
    rw [s.enter_vm_self, hv, Option.map_some]
  rw [processStep, ProcessEvent.events, Mealy.run_singleton, traceStep, startTrace_eq, Traces.step]
  rw [traceStep, startTrace_eq] at howned
  have hcond : t.noop ∨ (t.traceOf thread).isSome ↔ (s.enter thread .running).noop ∨
      (rbRgGetCurrentThreadTraceContext (s.enter thread .running) thread).isSome := by
    rw [hentered.isSome_traceOf, hentered.noop]
  by_cases hquiet : (s.enter thread .running).noop ∨
      (rbRgGetCurrentThreadTraceContext (s.enter thread .running) thread).isSome
  · rw [if_pos hquiet, if_pos (hcond.mpr hquiet)]
    exact hentered.matches
  · rw [if_neg hquiet] at howned
    rw [if_neg hquiet, if_neg (mt hcond.mp hquiet)]
    refine ⟨hentered.started hv' howned hgroup ?_, ?_⟩
    · intro thread' v' hv'
      obtain ⟨v'', hv'', heq⟩ := Option.map_eq_some_iff.mp
        (((s.keeps_enter thread .running).groups thread').symm.trans
          (congrArg (Option.map VmThread.group) hv'))
      rw [← heq]
      exact hothers thread' v'' hv''
    · rw [hentered.begun]
      rfl

/-- A thread ends its trace, or is in none. -/
theorem matches_endTrace (h : RefinesTraces s n t) {thread : Nat} {m : Memory}
    (hpossible : Possible s (.endTrace thread m)) (Own : Nat → Prop) [DecidablePred Own] :
    Matches n (processStep s (.endTrace thread m)) (t.step Own (.endTrace thread m)) := by
  have howned := owned_traceStep h.owned hpossible
  have hentered := h.keeps (s.keeps_enter thread .running) rfl
  have hsome := hentered.isSome_traceOf thread
  rw [processStep, ProcessEvent.events, Mealy.run_singleton, traceStep, rbRgTracerEndTrace,
    Traces.step]
  rw [traceStep, rbRgTracerEndTrace] at howned
  cases hc : rbRgGetCurrentThreadTraceContext (s.enter thread .running) thread with
  | none =>
      rw [hc, Option.isSome_none, Option.isSome_eq_false_iff, Option.isNone_iff_eq_none] at hsome
      rw [hsome]
      exact hentered.matches
  | some c =>
      rw [hc] at howned
      have hnumber := hentered.traceOf thread
      rw [TraceState.traceNumber, hc, Option.bind_some] at hnumber
      rw [hc, Option.isSome_some, Option.isSome_iff_exists] at hsome
      obtain ⟨trace, htrace⟩ := hsome
      rw [htrace] at hnumber ⊢
      refine ⟨hentered.ended (Option.isSome_of_eq_some hc) hnumber.symm howned, ?_⟩
      show [TracesOutput.ended (n.number _) thread] = _
      rw [← hnumber]

/-- An event of a thread, for which the VM calls the hook of every context. -/
theorem matches_tracepoint (h : RefinesTraces s n t) {thread : Nat} {flag : TraceFlag}
    {calls : List (Nat × Memory)}
    (hcalls : (ProcessEvent.tracepoint thread flag calls).CallsAll s) (Own : Nat → Prop)
    [DecidablePred Own] (hown : ∀ thread, s.OwnThread thread ↔ Own thread) :
    Matches n (processStep s (.tracepoint thread flag calls))
      (t.step Own (.tracepoint thread flag calls)) := by
  obtain ⟨hnodup, hall⟩ := hcalls
  obtain ⟨hkeeps, hsettings, hnumbered⟩ := numbered_hooks h.owned n thread flag hnodup
  rw [Matches, processStep, ProcessEvent.events, ← hooks, hnumbered, Traces.step]
  have htraceOf := h.traceOf thread
  have hsome := h.isSome_traceOf thread
  rw [rbRgGetCurrentThreadTraceContext] at hsome
  rw [TraceState.traceNumber, rbRgGetCurrentThreadTraceContext] at htraceOf
  have hkept := h.keeps hkeeps hsettings.noop
  by_cases hreports : flag.reports ∧ ¬ Own thread ∧ (t.traceOf thread).isSome
  · have hc : (s.tracecontexts (rbRgThreadGroup s thread)).isSome := hsome ▸ hreports.2.2
    obtain ⟨c, hc'⟩ := Option.isSome_iff_exists.mp hc
    rw [hc', Option.bind_some] at htraceOf
    have hother : ¬ s.OwnThread thread := (hown thread).not.mpr hreports.2.1
    rw [if_pos hreports, if_pos ⟨hreports.1, hother, hall _ hc, hc⟩, htraceOf]
    exact ⟨hkept, rfl⟩
  · rw [if_neg hreports, if_neg]
    · exact ⟨hkept, rfl⟩
    · rintro ⟨hflag, hother, -, hc⟩
      exact hreports ⟨hflag, (hown thread).not.mp hother, hsome ▸ hc⟩

/-- **Every event** does to the tracer what it does to the traces. -/
theorem matches_processStep (h : RefinesTraces s n t) {e : ProcessEvent}
    (hpossible : ProcessPossible s e) (Own : Nat → Prop) [DecidablePred Own]
    (hown : ∀ thread, s.OwnThread thread ↔ Own thread) :
    Matches n (processStep s e) (t.step Own e) := by
  obtain ⟨hsteps, hcalls⟩ := hpossible
  cases e with
  | noop =>
      refine ⟨?_, rfl⟩
      exact ⟨h.owned.keeps (.of_eq rfl rfl), rfl, h.begun, h.traceOf, h.numbered, h.apart, h.member⟩
  | startTrace thread m => exact matches_startTrace h hsteps.1 Own
  | endTrace thread m => exact matches_endTrace h hsteps.1 Own
  | spawn thread child =>
      rw [processStep, ProcessEvent.events, Mealy.run_singleton]
      exact ⟨h.spawn (owned_traceStep h.owned hsteps.1), rfl⟩
  | tracepoint thread flag calls => exact matches_tracepoint h hcalls Own hown
  | finish thread =>
      rw [processStep, ProcessEvent.events, Mealy.run_singleton]
      exact (h.keeps (s.keeps_enter thread .dead) rfl).matches

/-- The tracer's own threads stay the same in every event of the process. -/
theorem ownThread_processStep (s : TraceState) (e : ProcessEvent) (thread : Nat) :
    (processStep s e).1.OwnThread thread ↔ s.OwnThread thread :=
  Mealy.run_invariant (P := fun s' => s'.OwnThread thread ↔ s.OwnThread thread)
    (fun s' e h => (ownThread_traceStep s' e thread).trans h) Iff.rfl e.events

/-- The tracer, with the numbers of its traces, follows the traces. -/
def Follows (Own : Nat → Prop) (w : TraceState × Numbering) (t : Traces) : Prop :=
  RefinesTraces w.1 w.2 t ∧ ∀ thread, w.1.OwnThread thread ↔ Own thread

/-- The tracer follows the traces in every event. -/
theorem Follows.step {Own : Nat → Prop} [DecidablePred Own] {w : TraceState × Numbering}
    (h : Follows Own w t) {e : ProcessEvent} (hpossible : ProcessPossible w.1 e) :
    Follows Own (Mealy.cascade processStep numberStep w e).1 (t.step Own e).1 ∧
      (Mealy.cascade processStep numberStep w e).2 = (t.step Own e).2 := by
  obtain ⟨hrefines, houtputs⟩ := matches_processStep h.1 hpossible Own h.2
  exact ⟨⟨hrefines, fun thread => (ownThread_processStep w.1 e thread).trans (h.2 thread)⟩, houtputs⟩

/-- What is emitted for a trace. -/
def ofTrace (trace : Nat) (os : List TracesOutput) : List TracesOutput :=
  os.filter fun o => o.trace = some trace

/-- One more output of the trace comes last among its outputs. -/
theorem ofTrace_append_self {trace : Nat} {o : TracesOutput} (h : o.trace = some trace)
    (os : List TracesOutput) : ofTrace trace (os ++ [o]) = ofTrace trace os ++ [o] := by
  simp [ofTrace, List.filter_append, h]

/-- An output of another trace is none of the trace. -/
theorem ofTrace_append_of_ne {trace : Nat} {o : TracesOutput} (h : o.trace ≠ some trace)
    (os : List TracesOutput) : ofTrace trace (os ++ [o]) = ofTrace trace os := by
  simp [ofTrace, List.filter_append, h]

/-- A transaction begins, reports what its threads do, and ends when it is not open any more. -/
def IsTransaction (trace : Nat) (opened : Bool) (os : List TracesOutput) : Prop :=
  ∃ starter reports, (∀ o ∈ reports, ∃ thread flag, o = .reported (some trace) thread flag) ∧
    if opened then os = .began trace starter :: reports
    else ∃ thread, os = .began trace starter :: (reports ++ [.ended (some trace) thread])

/-- What has been emitted so far are transactions. -/
structure Traces.Transacts (os : List TracesOutput) (t : Traces) : Prop where
  member : ∀ thread trace, t.member thread = some trace → trace < t.begun
  known : ∀ o ∈ os, ∃ trace, trace < t.begun ∧ o.trace = some trace
  transaction : ∀ trace, trace < t.begun → IsTransaction trace (t.opened trace) (ofTrace trace os)

namespace Traces.Transacts

variable {os : List TracesOutput}

/-- A trace that covers a thread is open. -/
theorem of_traceOf (h : Transacts os t) {trace : Nat} (htrace : t.traceOf thread = some trace) :
    trace < t.begun ∧ t.opened trace = true := by
  obtain ⟨hmember, hopened⟩ := Option.filter_eq_some_iff.mp htrace
  exact ⟨h.member thread trace hmember, hopened⟩

/-- The beginning of a trace keeps the transactions. -/
theorem start (h : Transacts os t) (thread : Nat) :
    Transacts (os ++ [.began t.begun thread])
      { t with
        begun := t.begun + 1
        member := Function.update t.member thread (some t.begun)
        opened := Function.update t.opened t.begun true } where
  member thread' trace hmember := by
    dsimp only at hmember
    rcases PartialMap.insert_eq_some_iff.mp hmember with ⟨-, rfl⟩ | ⟨-, hold⟩
    · exact t.begun.lt_succ_self
    · exact Nat.lt_succ_of_lt (h.member thread' trace hold)
  known o ho := by
    rcases List.mem_append.mp ho with ho | ho
    · obtain ⟨trace, hlt, htrace⟩ := h.known o ho
      exact ⟨trace, Nat.lt_succ_of_lt hlt, htrace⟩
    · rw [List.mem_singleton.mp ho]
      exact ⟨t.begun, t.begun.lt_succ_self, rfl⟩
  transaction trace hlt := by
    dsimp only
    rcases Nat.lt_succ_iff_lt_or_eq.mp hlt with hlt | rfl
    · have hne : (TracesOutput.began t.begun thread).trace ≠ some trace :=
        fun heq => Nat.ne_of_gt hlt (Option.some.inj heq)
      rw [Function.update_of_ne (Nat.ne_of_lt hlt), ofTrace_append_of_ne hne]
      exact h.transaction trace hlt
    · -- nothing has been emitted for the new trace
      have hnil : ofTrace t.begun os = [] := by
        refine List.filter_eq_nil_iff.mpr fun o ho => ?_
        obtain ⟨trace, hlt, htrace⟩ := h.known o ho
        simp [htrace, Nat.ne_of_lt hlt]
      rw [Function.update_self, ofTrace_append_self rfl, hnil]
      exact ⟨thread, [], List.forall_mem_nil _, rfl⟩

/-- Something is emitted for a trace that covers a thread. -/
theorem emit (h : Transacts os t) {trace : Nat} (htrace : t.traceOf thread = some trace)
    {o : TracesOutput} (ho : o.trace = some trace) {opened : Nat → Bool}
    (hothers : ∀ trace', trace' ≠ trace → opened trace' = t.opened trace')
    (htransaction : ∀ os', IsTransaction trace true os' →
      IsTransaction trace (opened trace) (os' ++ [o])) :
    Transacts (os ++ [o]) { t with opened := opened } where
  member := h.member
  known o' ho' := by
    rcases List.mem_append.mp ho' with ho' | ho'
    · exact h.known o' ho'
    · rw [List.mem_singleton.mp ho']
      exact ⟨trace, (h.of_traceOf htrace).1, ho⟩
  transaction trace' hlt := by
    dsimp only
    by_cases hsame : trace' = trace
    · subst hsame
      have hopen := h.transaction trace' hlt
      rw [(h.of_traceOf htrace).2] at hopen
      rw [ofTrace_append_self ho]
      exact htransaction _ hopen
    · have hne : o.trace ≠ some trace' := fun heq =>
        hsame (Option.some.inj (heq.symm.trans ho))
      rw [hothers trace' hsame, ofTrace_append_of_ne hne]
      exact h.transaction trace' hlt

/-- **Every event** keeps what is emitted transactions. -/
theorem step (h : Transacts os t) (Own : Nat → Prop) [DecidablePred Own] (e : ProcessEvent) :
    Transacts (os ++ (t.step Own e).2) (t.step Own e).1 := by
  cases e with
  | startTrace thread m =>
      rw [Traces.step]
      split
      · rw [List.append_nil]
        exact h
      · exact h.start thread
  | endTrace thread m =>
      rw [Traces.step]
      cases htrace : t.traceOf thread with
      | none =>
          rw [List.append_nil]
          exact h
      | some trace =>
          refine h.emit htrace rfl (fun trace' hne => Function.update_of_ne hne ..) ?_
          rintro os' ⟨starter, reports, hreports, rfl⟩
          rw [Function.update_self]
          exact ⟨starter, reports, hreports, thread, rfl⟩
  | spawn thread child =>
      rw [Traces.step, List.append_nil]
      refine ⟨fun thread' trace hmember => ?_, h.known, h.transaction⟩
      dsimp only at hmember
      rw [Function.update_apply] at hmember
      split at hmember
      · exact h.member thread trace hmember
      · exact h.member thread' trace hmember
  | tracepoint thread flag calls =>
      rw [Traces.step]
      split
      · rename_i hreports
        obtain ⟨trace, htrace⟩ := Option.isSome_iff_exists.mp hreports.2.2
        rw [htrace]
        refine h.emit htrace rfl (fun _ _ => rfl) ?_
        rintro os' ⟨starter, reports, hreports, rfl⟩
        rw [(h.of_traceOf htrace).2]
        refine ⟨starter, reports ++ [.reported (some trace) thread flag], ?_, ?_⟩
        · refine List.forall_mem_append.mpr ⟨hreports, fun o ho => ?_⟩
          exact ⟨thread, flag, List.mem_singleton.mp ho⟩
        · rw [if_pos rfl, List.cons_append]
      · rw [List.append_nil]
        exact h
  | noop =>
      rw [Traces.step, List.append_nil]
      exact ⟨h.member, h.known, h.transaction⟩
  | finish thread =>
      rw [Traces.step, List.append_nil]
      exact h

/-- Before the first event there are no transactions. -/
theorem new : Transacts [] .new where
  member _ _ h := by cases h
  known _ h := by cases h
  transaction _ h := by cases h

end Traces.Transacts

end RaygunApm
