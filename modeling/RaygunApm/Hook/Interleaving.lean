import RaygunApm.Hook.Cache
import RaygunApm.Hook.Lookups
import RaygunApm.Hook.Resync
import RaygunApm.Hook.Truncation

/-! # Threads that take turns

The threads of a process share the methodinfo table and the counter of methods, and the hook runs
for them in any order. What a thread gets to see of the others is the table alone: as long as the
rules stay and its own returns find their entries, it shows what it would show alone, with a table
that has everything in it from the start (`threadOutputs_eq_alone`). So the frames of a thread are
bracketed, and its counters restored, whatever the other threads do in between
(`interleaved_bracketsFrames`). An event is one step here; the switches inside a discovery are those
of the resync. -/

namespace RaygunApm

open CallForest

/-! ## The property -/

/-- The thread of an event. -/
def HookEvent.thread : HookEvent → Option Nat
  | .addRule _ => none
  | .call thread _ _ | .ret thread _ => some thread

/-- The hook, with the thread of every output: commands carry a `tid`. -/
def threadedStep (config : HookConfig) (s : RuledHook) (e : HookEvent) :
    RuledHook × List (Option Nat × HookOutput) :=
  ((hookStep config s e).1, (hookStep config s e).2.map (e.thread, ·))

/-- The call or the return, if it is one of this thread. -/
def HookEvent.own (thread : Nat) : HookEvent → List (CallEvent Frame)
  | .addRule _ => []
  | .call thread' frame _ => if thread' = thread then [.call frame] else []
  | .ret thread' frame => if thread' = thread then [.ret frame] else []

/-- The calls and returns of a thread. -/
def threadEvents (thread : Nat) (events : List HookEvent) : List (CallEvent Frame) :=
  events.flatMap (HookEvent.own thread)

/-- The output, if it begins or ends a frame. -/
def HookOutput.shown (o : HookOutput) : List HookOutput := if o.isFrame then [o] else []

/-- The output, if it begins or ends a frame of this thread. -/
def shownOn (thread : Nat) (o : Option Nat × HookOutput) : List HookOutput :=
  if o.1 = some thread then o.2.shown else []

/-- The frames that a thread begins and ends, in order. -/
def threadOutputs (config : HookConfig) (s : RuledHook) (thread : Nat) (events : List HookEvent) :
    List HookOutput :=
  (Mealy.run (threadedStep config) s events).2.flatMap (shownOn thread)

/-- The hook that a thread has for itself, with this table. -/
def RuledHook.alone (s : RuledHook) (thread : Nat) (table : MethodTable) : HookState where
  methodinfo := table
  methods := s.methods
  thread := s.threads thread

/-- Whenever a return of the thread gets past its guards, the method is in the table. -/
def OwnReturnsFindEntries (config : HookConfig) (s : RuledHook) (thread : Nat)
    (events : List HookEvent) : Prop :=
  ∀ before frame after, events = before ++ .ret thread frame :: after →
    ((Mealy.run (hookStep config) s before).1.on thread).PassesReturn frame →
    (Mealy.run (hookStep config) s before).1.methodinfo.lookup frame.method ≠ none

/-- The thread brackets its frames: what it shows is well nested, and its counters are restored. -/
structure ThreadBrackets (config : HookConfig) (s : RuledHook) (thread : Nat)
    (events : List HookEvent) : Prop where
  nested : ∃ shown : CallForest UInt32,
    (threadOutputs config s thread events).flatMap HookOutput.brackets = shown.events
  popped : ∀ functionId popped, .end functionId popped ∈ threadOutputs config s thread events →
    popped = functionId
  shadowTop : ((Mealy.run (threadedStep config) s events).1.threads thread).shadowTop
    = (s.threads thread).shadowTop
  vmTop : ((Mealy.run (threadedStep config) s events).1.threads thread).vmTop
    = (s.threads thread).vmTop
  level : ((Mealy.run (threadedStep config) s events).1.threads thread).levelDeepIntoThirdPartyLib
    = (s.threads thread).levelDeepIntoThirdPartyLib

/-! ## The shared table -/

variable {config : HookConfig} {s : RuledHook} {thread : Nat} {frame : Frame}
  {events : List HookEvent}

/-- The outputs that begin or end frames, one by one. -/
theorem flatMap_shown (os : List HookOutput) : os.flatMap HookOutput.shown = frames os := by
  induction os with
  | nil => rfl
  | cons o os ih =>
      rw [List.flatMap_cons, ih, HookOutput.shown, frames, frames, List.filter_cons]
      cases o.isFrame <;> rfl

/-- A call takes nothing out of the table. -/
theorem rubyEventCall_within (classify : Nat → Option MethodSource) (frame : Frame) (h : HookState) :
    h.methodinfo.Within (rubyEventCall classify frame h).1.methodinfo := by
  by_cases hpasses : h.PassesCall frame
  · rw [rubyEventCall_methodinfo _ hpasses]
    have hresolves := h.entered.resolves classify frame.method
    generalize h.entered.resolve classify frame.method = resolved at hresolves ⊢
    cases hresolves with
    | known => exact fun _ _ h => h
    | whitelisted source hnone => exact MethodTable.within_cons hnone _
    | blacklisted hnone => exact MethodTable.within_cons hnone _
  · rw [rubyEventCall_of_not_passes _ hpasses]
    exact fun _ _ h => h

/-- No event but an effective rule takes anything out of the table. -/
theorem hookStep_within {e : HookEvent} (hkept : ∀ r, e = .addRule r → ¬ r.Effective) :
    s.methodinfo.Within (hookStep config s e).1.methodinfo := by
  cases e with
  | addRule r =>
      rw [hookStep, RuledHook.addRule, if_neg (hkept r rfl)]
      exact fun _ _ h => h
  | call thread frame garbage => exact rubyEventCall_within _ frame (s.on thread)
  | ret thread frame =>
      rw [hookStep, ret_methodinfo]
      exact fun _ _ h => h

/-- A rule that is not effective changes nothing, and the other events leave the lists alone. -/
theorem hookStep_lists {e : HookEvent} (hkept : ∀ r, e = .addRule r → ¬ r.Effective) :
    (hookStep config s e).1.lists = s.lists := by
  cases e with
  | addRule r => rw [hookStep, RuledHook.addRule, if_neg (hkept r rfl)]
  | call thread frame => rfl
  | ret thread frame => rfl

/-! ## One step, on the thread and off it -/

/-- Where the second table has the entry that the first one has after the call, a call does the same
to the thread and begins the same frame. The second hook has nothing to classify. -/
theorem rubyEventCall_alone (classify classify' : Nat → Option MethodSource) (frame : Frame)
    (h a : HookState) (hthread : a.thread = h.thread)
    (hwithin : (rubyEventCall classify frame h).1.methodinfo.Within a.methodinfo) :
    (rubyEventCall classify' frame a).1.thread = (rubyEventCall classify frame h).1.thread ∧
      (rubyEventCall classify' frame a).1.methodinfo = a.methodinfo ∧
      (rubyEventCall classify frame h).2.flatMap HookOutput.shown
        = (rubyEventCall classify' frame a).2.flatMap HookOutput.shown := by
  by_cases hpasses : h.PassesCall frame
  · have hpasses' : a.PassesCall frame := by rwa [HookState.PassesCall, hthread]
    rw [rubyEventCall_methodinfo _ hpasses] at hwithin
    have hresolves := h.entered.resolves classify frame.method
    generalize hresolve : h.entered.resolve classify frame.method = resolved at hresolves hwithin
    obtain ⟨h', declared, entry⟩ := resolved
    -- the entry that the lookup leaves in the shared table is also in the other one
    have hentry : h'.methodinfo.lookup frame.method = some entry ∧ h'.thread = h.entered.thread ∧
        declared.flatMap HookOutput.shown = [] := by
      cases hresolves with
      | known _ hlookup => exact ⟨hlookup, rfl, rfl⟩
      | whitelisted => exact ⟨List.lookup_cons_self, rfl, rfl⟩
      | blacklisted => exact ⟨List.lookup_cons_self, rfl, rfl⟩
    obtain ⟨hlookup, hthread', hdeclared⟩ := hentry
    have hresolve' : a.entered.resolve classify' frame.method = (a.entered, [], entry) :=
      HookState.resolve_of_some classify' (hwithin _ _ hlookup)
    have hentered : a.entered.thread = h'.thread := by
      rw [hthread', HookState.entered, HookState.entered, hthread]
    cases entry with
    | none =>
        rw [rubyEventCall_of_none hpasses hresolve, rubyEventCall_of_none hpasses' hresolve']
        exact ⟨hentered, rfl, hdeclared⟩
    | some m =>
        rw [rubyEventCall_of_some hpasses hresolve, rubyEventCall_of_some hpasses' hresolve',
          List.flatMap_append, hdeclared, List.nil_append, List.nil_append,
          a.entered.begin_eq_ite, h'.begin_eq_ite, hentered]
        split <;> exact ⟨rfl, rfl, rfl⟩
  · have hpasses' : ¬ a.PassesCall frame := by rwa [HookState.PassesCall, hthread]
    rw [rubyEventCall_of_not_passes _ hpasses, rubyEventCall_of_not_passes _ hpasses']
    exact ⟨by rw [HookState.entered, HookState.entered, hthread], rfl, rfl⟩

/-- The hook with one frame of the VM less open. -/
def HookState.left (h : HookState) : HookState :=
  { h with thread := { h.thread with vmTop := h.thread.vmTop - 1 } }

/-- A return that does not get past the guards. -/
theorem rubyEventReturn_of_not_passes {h : HookState} (hpasses : ¬ h.PassesReturn frame) :
    rubyEventReturn frame h = (h.left, []) := by
  unfold rubyEventReturn
  dsimp only
  split_ifs with hdeep hframeless hinternal
  · rfl
  · rfl
  · rfl
  · exact absurd ⟨lt_of_not_ge hdeep, hframeless, Bool.eq_false_iff.mpr hinternal⟩ hpasses

/-- A return that gets past the guards and finds an entry. -/
theorem rubyEventReturn_of_lookup {h : HookState} (hpasses : h.PassesReturn frame)
    {entry : Option RgMethod} (hlookup : h.methodinfo.lookup frame.method = some entry) :
    rubyEventReturn frame h = entry.elim (h.left, []) fun m => h.left.end m := by
  obtain ⟨hdeep, hframeless, hinternal⟩ := hpasses
  have hinternal' : ¬ frame.tracerInternal = true := by
    rw [hinternal]
    exact Bool.false_ne_true
  unfold rubyEventReturn
  dsimp only
  rw [if_neg (not_le.mpr hdeep), if_neg hframeless, if_neg hinternal', hlookup, Option.getD_some]
  cases entry <;> rfl

/-- What the end of a frame does to the thread depends on the thread alone. -/
theorem HookState.end_congr {h a : HookState} (hthread : a.thread = h.thread) (m : RgMethod) :
    (a.end m).1.thread = (h.end m).1.thread ∧ (a.end m).1.methodinfo = a.methodinfo ∧
      (a.end m).2 = (h.end m).2 := by
  simp only [HookState.end, hthread]
  split_ifs <;> exact ⟨rfl, rfl, rfl⟩

/-- Where the entry is in both tables, or not looked up, a return does the same to the thread and
ends the same frame. -/
theorem rubyEventReturn_alone (frame : Frame) (h a : HookState) (hthread : a.thread = h.thread)
    (hwithin : h.methodinfo.Within a.methodinfo)
    (hfound : h.PassesReturn frame → h.methodinfo.lookup frame.method ≠ none) :
    (rubyEventReturn frame a).1.thread = (rubyEventReturn frame h).1.thread ∧
      (rubyEventReturn frame a).1.methodinfo = a.methodinfo ∧
      (rubyEventReturn frame a).2 = (rubyEventReturn frame h).2 := by
  have hleft : a.left.thread = h.left.thread := by
    rw [HookState.left, HookState.left, hthread]
  by_cases hpasses : h.PassesReturn frame
  · have hpasses' : a.PassesReturn frame := by rwa [HookState.PassesReturn, hthread]
    obtain ⟨entry, hlookup⟩ := Option.ne_none_iff_exists'.mp (hfound hpasses)
    rw [rubyEventReturn_of_lookup hpasses hlookup,
      rubyEventReturn_of_lookup hpasses' (hwithin _ _ hlookup)]
    cases entry with
    | none => exact ⟨hleft, rfl, rfl⟩
    | some m => exact HookState.end_congr hleft m
  · have hpasses' : ¬ a.PassesReturn frame := by rwa [HookState.PassesReturn, hthread]
    rw [rubyEventReturn_of_not_passes hpasses, rubyEventReturn_of_not_passes hpasses']
    exact ⟨hleft, rfl, rfl⟩

/-! ## Projection onto a thread -/

/-- A handler changes the shadow thread of its own thread. -/
theorem RuledHook.put_threads_self (s : RuledHook) (thread : Nat) (h : HookState) :
    (s.put thread h).threads thread = h.thread := Function.update_self _ _ _

/-- A handler leaves the shadow threads of the others alone. -/
theorem RuledHook.put_threads_of_ne (s : RuledHook) {thread thread' : Nat} (hne : thread' ≠ thread)
    (h : HookState) : (s.put thread' h).threads thread = s.threads thread :=
  Function.update_of_ne (Ne.symm hne) _ _

/-- What is known of the steps: they stay within the table at the end, and the returns of the thread
find their entries. -/
def StepWithin (config : HookConfig) (table : MethodTable) (thread : Nat) (s : RuledHook)
    (e : HookEvent) : Prop :=
  (∀ r, e = .addRule r → ¬ r.Effective) ∧ (hookStep config s e).1.methodinfo.Within table ∧
    ∀ frame, e = .ret thread frame → (s.on thread).PassesReturn frame →
      s.methodinfo.lookup frame.method ≠ none

/-- The hook of a thread among others, and the one that the thread has for itself. -/
structure SeenBy (table : MethodTable) (thread : Nat) (s : RuledHook) (a : HookState) : Prop where
  within : s.methodinfo.Within table
  table : a.methodinfo = table
  thread : a.thread = s.threads thread

/-- **One step, seen by a thread.** An event of the thread does what it would do alone, and the
events of the others do nothing. -/
theorem seenBy_threadedStep (classify : Nat → Option MethodSource) {table : MethodTable}
    {a : HookState} (h : SeenBy table thread s a) {e : HookEvent}
    (hstep : StepWithin config table thread s e) :
    SeenBy table thread (threadedStep config s e).1
        (Mealy.run (rbRgTracingHookI classify) a (e.own thread)).1 ∧
      (threadedStep config s e).2.flatMap (shownOn thread)
        = (Mealy.run (rbRgTracingHookI classify) a (e.own thread)).2.flatMap HookOutput.shown := by
  obtain ⟨hkept, hwithin, hfound⟩ := hstep
  -- the outputs of an event are all those of its thread, or none
  have hview : ∀ os : List HookOutput, e.thread = some thread →
      (os.map (e.thread, ·)).flatMap (shownOn thread) = os.flatMap HookOutput.shown := by
    intro os hthread
    rw [List.flatMap_map, hthread]
    simp only [shownOn, if_true]
  have hother : ∀ os : List HookOutput, e.thread ≠ some thread →
      (os.map (e.thread, ·)).flatMap (shownOn thread) = [] := by
    intro os hthread
    rw [List.flatMap_map]
    simp only [shownOn, if_neg hthread]
    exact List.flatMap_eq_nil_iff.mpr fun _ _ => rfl
  cases e with
  | addRule r =>
      refine ⟨⟨hwithin, h.table, ?_⟩, rfl⟩
      rw [threadedStep, hookStep, RuledHook.addRule, if_neg (hkept r rfl)]
      exact h.thread
  | call thread' frame garbage =>
      by_cases hthread : thread' = thread
      · subst hthread
        rw [HookEvent.own, if_pos rfl, Mealy.run_singleton]
        obtain ⟨hsame, htable, hshown⟩ := rubyEventCall_alone (config.classifyMethod s.lists garbage)
          classify frame (s.on thread') a h.thread (by rw [h.table]; exact hwithin)
        refine ⟨⟨hwithin, htable.trans h.table, ?_⟩, ?_⟩
        · rw [rbRgTracingHookI, hsame]
          exact (s.put_threads_self thread' _).symm
        · rw [threadedStep, hview _ rfl, rbRgTracingHookI, ← hshown]
          rfl
      · rw [HookEvent.own, if_neg hthread, Mealy.run_nil]
        refine ⟨⟨hwithin, h.table, ?_⟩, hother _ fun h => hthread (Option.some.inj h)⟩
        exact h.thread.trans (s.put_threads_of_ne hthread _).symm
  | ret thread' frame =>
      by_cases hthread : thread' = thread
      · subst hthread
        rw [HookEvent.own, if_pos rfl, Mealy.run_singleton]
        obtain ⟨hsame, htable, hshown⟩ := rubyEventReturn_alone frame (s.on thread') a h.thread
          (by rw [h.table]; exact h.within) (hfound frame rfl)
        refine ⟨⟨hwithin, htable.trans h.table, ?_⟩, ?_⟩
        · rw [rbRgTracingHookI, hsame]
          exact (s.put_threads_self thread' _).symm
        · rw [threadedStep, hview _ rfl, rbRgTracingHookI, hshown]
          rfl
      · rw [HookEvent.own, if_neg hthread, Mealy.run_nil]
        refine ⟨⟨hwithin, h.table, ?_⟩, hother _ fun h => hthread (Option.some.inj h)⟩
        exact h.thread.trans (s.put_threads_of_ne hthread _).symm

/-- The threads of the outputs make no difference to the state. -/
theorem run_threadedStep_fst (s : RuledHook) (events : List HookEvent) :
    (Mealy.run (threadedStep config) s events).1 = (Mealy.run (hookStep config) s events).1 := by
  induction events generalizing s with
  | nil => rfl
  | cons e events ih => exact ih _

/-- No step of a run that keeps the rules adds an effective one. -/
theorem allSteps_rulesKept (hrules : RulesKept events) :
    Mealy.AllSteps (threadedStep config) (fun _ e => ∀ r, e = .addRule r → ¬ r.Effective) s events :=
  Mealy.allSteps_of_forall (C := fun e : HookEvent => ∀ r, e = .addRule r → ¬ r.Effective)
    (fun _ he r hr => hrules r (hr ▸ he)) s

/-- Without effective rules, a run stays within the table at its end. -/
theorem allSteps_within (hrules : RulesKept events) :
    s.methodinfo.Within (Mealy.run (threadedStep config) s events).1.methodinfo ∧
      Mealy.AllSteps (threadedStep config) (fun s' e => (hookStep config s' e).1.methodinfo.Within
        (Mealy.run (threadedStep config) s events).1.methodinfo) s events :=
  Mealy.allSteps_le_run (R := fun s s' => s.methodinfo.Within s'.methodinfo)
    (fun _ _ _ h => h) (fun _ _ _ h h' => h.trans h') (fun _ _ h => hookStep_within h)
    (allSteps_rulesKept hrules)

/-- **Threads do not interfere.** As long as the rules stay and the returns of a thread find their
entries, the thread begins and ends the frames that it would begin and end alone with the table at
the end, however methods would be classified then, and is left in the same state, whatever the other
threads do in between. -/
theorem threadOutputs_eq_alone (config : HookConfig) (s : RuledHook) (thread : Nat)
    (events : List HookEvent) (hrules : RulesKept events)
    (hfound : OwnReturnsFindEntries config s thread events)
    (classify : Nat → Option MethodSource) :
    let last := (Mealy.run (threadedStep config) s events).1
    let alone := Mealy.run (rbRgTracingHookI classify) (s.alone thread last.methodinfo)
      (threadEvents thread events)
    threadOutputs config s thread events = frames alone.2 ∧
      last.threads thread = alone.1.thread := by
  obtain ⟨hstart, hwithin⟩ := @allSteps_within config s events hrules
  have hsteps : Mealy.AllSteps (threadedStep config)
      (StepWithin config (Mealy.run (threadedStep config) s events).1.methodinfo thread) s events := by
    rw [Mealy.allSteps_iff_split] at hwithin ⊢
    intro before e after hsplit
    refine ⟨fun r hr => hrules r ?_, hwithin before e after hsplit, ?_⟩
    · rw [hsplit, hr]
      simp
    · rintro frame rfl
      rw [run_threadedStep_fst]
      exact hfound before frame after hsplit
  have hown : Mealy.AllSteps (rbRgTracingHookI classify) (fun _ _ => True)
      (s.alone thread (Mealy.run (threadedStep config) s events).1.methodinfo)
      (events.flatMap (HookEvent.own thread)) := Mealy.allSteps_of_forall (fun _ _ => trivial) _
  obtain ⟨hlast, hshown⟩ := Mealy.run_projection
    (SeenBy (Mealy.run (threadedStep config) s events).1.methodinfo thread)
    (HookEvent.own thread) (shownOn thread) HookOutput.shown
    (fun _ _ _ h hstep _ => seenBy_threadedStep classify h hstep) ⟨hstart, rfl, rfl⟩ hsteps hown
  exact ⟨hshown.trans (flatMap_shown _), hlast.thread.symm⟩

/-- The second of two threads finds what the first one has discovered. -/
theorem threadOutputs_eq_alone_second :
    let events := [HookEvent.call 0 (frameOf 0) 0, .call 1 (frameOf 0) 1, .ret 1 (frameOf 0)]
    RulesKept events ∧ OwnReturnsFindEntries fooBar .new 1 events ∧
      threadOutputs fooBar .new 1 events
        = frames (Mealy.run (rbRgTracingHookI (fooBar.classifyMethod .new 0))
            (RuledHook.new.alone 1 [(0, some ⟨1, .userCode⟩)])
            [.call (frameOf 0), .ret (frameOf 0)]).2 := by
  intro events
  have hrules : RulesKept events := by
    intro r hmem
    simp [events] at hmem
  have hfound : OwnReturnsFindEntries fooBar .new 1 events := by
    rintro before frame after heq -
    rcases before with _ | ⟨_, _ | ⟨_, _ | ⟨_, before⟩⟩⟩ <;> simp [events] at heq
    obtain ⟨rfl, rfl, rfl, -⟩ := heq
    decide +kernel
  exact ⟨hrules, hfound, (threadOutputs_eq_alone fooBar .new 1 events hrules hfound _).1⟩

/-! ## The returns of matched frames find their entries -/

/-- The hook of a thread, along with the methods whose calls have got past the guards. -/
def recallStep (classify : Nat → Option MethodSource) (s : HookState × List Nat)
    (e : CallEvent Frame) : (HookState × List Nat) × List HookOutput :=
  let handled := rbRgTracingHookI classify s.1 e
  let called := match e with
    | .call frame => if s.1.PassesCall frame then frame.method :: s.2 else s.2
    | .ret _ => s.2
  ((handled.1, called), handled.2)

/-- A call of the method has got past the guards before a return of it does. -/
def Recalls (s : HookState × List Nat) (e : CallEvent Frame) : Prop :=
  ∀ frame, e = .ret frame → s.1.PassesReturn frame → frame.method ∈ s.2

/-- Remembering the calls changes nothing else. -/
theorem run_recallStep (classify : Nat → Option MethodSource) (h : HookState) (called : List Nat)
    (es : List (CallEvent Frame)) :
    (Mealy.run (recallStep classify) (h, called) es).1.1
        = (Mealy.run (rbRgTracingHookI classify) h es).1 ∧
      (Mealy.run (recallStep classify) (h, called) es).2
        = (Mealy.run (rbRgTracingHookI classify) h es).2 := by
  induction es generalizing h called with
  | nil => exact ⟨rfl, rfl⟩
  | cons e es ih =>
      obtain ⟨hstate, hout⟩ := ih (rbRgTracingHookI classify h e).1
        (recallStep classify (h, called) e).1.2
      exact ⟨hstate, congrArg ((rbRgTracingHookI classify h e).2 ++ ·) hout⟩

/-- A return that gets past the guards has a call that got past them: as many frames were on the
shadow stack as were open, at most. -/
theorem passesCall_of_passesReturn {classify : Nat → Option MethodSource}
    {opened reported level reported' level' : Nat} {h h' : HookState}
    (hat : h.At classify opened reported level) (hle : reported ≤ opened)
    (hat' : h'.At classify (opened + 1) reported' level') (hpasses : h'.PassesReturn frame) :
    h.PassesCall frame := by
  obtain ⟨hdeep, -, hinternal⟩ := hpasses
  rw [hat'.vmTop] at hdeep
  refine ⟨hat.shadowTop_ne ?_, hinternal⟩
  omega

/-- **The returns of a forest whose guards match** are those of methods that it has called. -/
theorem recalls_of_matched {classify : Nat → Option MethodSource} {forest : CallForest Frame}
    {opened reported level : Nat} {h : HookState}
    (hmatched : Matched classify opened reported level forest)
    (hat : h.At classify opened reported level) (hle : reported ≤ opened)
    (hlimit : reported ≤ rgShadowStackLimit) (hlevel : 0 < level → 0 < reported)
    (called : List Nat) :
    Mealy.AllSteps (recallStep classify) Recalls (h, called) forest.events ∧
      called ⊆ (Mealy.run (recallStep classify) (h, called) forest.events).1.2 := by
  -- over the forest, as for the brackets: the children start from the counters inside the frame
  induction forest generalizing opened reported level h called with
  | nil => exact ⟨trivial, List.Subset.refl _⟩
  | node frame children rest ihc ihr =>
      have hrest := (matched_node_iff.mp hmatched).2
      obtain ⟨hcall, -, -⟩ := rubyEventCall_spec hat hlimit frame
      obtain ⟨reported', level', -, hle', hlimit', hlevel', hat₁, hinside, hreturn⟩ :=
        hcall.matched hmatched hle hlimit hlevel
      obtain ⟨-, hat₂, hgrows₂, hbelow₂⟩ :=
        allFrames_of_matched hinside hat₁ hle' hlimit' hlevel'
      obtain ⟨-, hat₃⟩ := hreturn _ hat₂ hgrows₂ hbelow₂
      -- the methods called before the children, and those called before the return
      generalize hcalled₁ : (recallStep classify (h, called) (.call frame)).1.2 = called₁
      obtain ⟨hsteps₂, hsub₂⟩ := ihc hinside hat₁ hle' hlimit' hlevel' called₁
      have hstate₁ : (recallStep classify (h, called) (.call frame)).1
          = ((rubyEventCall classify frame h).1, called₁) := Prod.ext rfl hcalled₁
      generalize hinner : Mealy.run (recallStep classify) ((rubyEventCall classify frame h).1, called₁)
        children.events = inner at hsteps₂ hsub₂
      have hinner₁ : inner.1.1 = (runForest classify (rubyEventCall classify frame h).1 children).1 := by
        rw [← hinner]
        exact (run_recallStep classify _ _ _).1
      have hat₃' : (recallStep classify inner.1 (.ret frame)).1.1.At classify opened reported level := by
        rw [recallStep, hinner₁]
        exact hat₃
      obtain ⟨hsteps₃, hsub₃⟩ := ihr hrest hat₃' hle hlimit hlevel inner.1.2
      have hsub₁ : called ⊆ called₁ := by
        rw [← hcalled₁, recallStep]
        dsimp only
        split
        · exact List.subset_cons_self _ _
        · exact List.Subset.refl _
      have hrecalls : Recalls inner.1 (.ret frame) := by
        rintro frame' heq hpasses
        obtain rfl := CallEvent.ret.inj heq
        rw [hinner₁] at hpasses
        have hcallPasses := passesCall_of_passesReturn hat hle hat₂ hpasses
        apply hsub₂
        rw [← hcalled₁, recallStep]
        dsimp only
        rw [if_pos hcallPasses]
        exact List.mem_cons_self
      constructor
      · have hnone : Recalls (h, called) (.call frame) := by
          intro frame' heq
          cases heq
        refine ⟨hnone, ?_⟩
        rw [hstate₁, Mealy.allSteps_append, hinner]
        exact ⟨hsteps₂, hrecalls, hsteps₃⟩
      · rw [events, Mealy.run_cons, hstate₁, Mealy.run_append, hinner]
        exact List.Subset.trans hsub₁ (List.Subset.trans hsub₂ hsub₃)

/-- The frames that end are those that are popped. -/
theorem popped_of_allFrames {classify : Nat → Option MethodSource} {h : HookState}
    {forest : CallForest Frame}
    (hall : AllFrames (rbRgTracingHookI classify) BracketPair h forest) {functionId popped : UInt32}
    (hmem : .end functionId popped ∈ frames (runForest classify h forest).2) :
    popped = functionId := by
  induction forest generalizing h with
  | nil => exact absurd hmem List.not_mem_nil
  | node frame children rest ihc ihr =>
      obtain ⟨hpair, hchildren, hafter⟩ := allFrames_node_iff.mp hall
      rw [runForest, run_node, frames_append, frames_append, frames_append, List.mem_append,
        List.mem_append, List.mem_append] at hmem
      -- at the call, in the children, at the return, or in the rest
      rcases hmem with hcall | hinside | hreturn | hrest
      · rcases bracketPair_iff.mp hpair with ⟨_, _, hos, -⟩ | ⟨hos, -⟩
        · have hos' : frames (rbRgTracingHookI classify h (.call frame)).2 = _ := hos
          rw [hos'] at hcall
          exact absurd hcall (by simp)
        · have hos' : frames (rbRgTracingHookI classify h (.call frame)).2 = _ := hos
          rw [hos'] at hcall
          exact absurd hcall List.not_mem_nil
      · exact ihc hchildren hinside
      · rcases bracketPair_iff.mp hpair with ⟨m, _, -, hos⟩ | ⟨-, hos⟩
        · have hend : HookOutput.end functionId popped ∈ [HookOutput.end m m] := hos ▸ hreturn
          obtain ⟨rfl, rfl⟩ := HookOutput.end.inj (List.mem_singleton.mp hend)
          rfl
        · exact absurd (hos ▸ hreturn) List.not_mem_nil
      · exact ihr hafter hrest

/-! ## Bracketing among other threads -/

/-- What a thread has seen, and the methods it has called are in the table. -/
structure RecalledBy (table : MethodTable) (thread : Nat) (s : RuledHook) (a : HookState × List Nat) :
    Prop where
  seen : SeenBy table thread s a.1
  called : ∀ method ∈ a.2, s.methodinfo.lookup method ≠ none

/-- **One step, when the returns of the thread are of methods it has called.** -/
theorem recalledBy_threadedStep (classify : Nat → Option MethodSource) {table : MethodTable}
    {a : HookState × List Nat} (h : RecalledBy table thread s a) {e : HookEvent}
    (hkept : ∀ r, e = .addRule r → ¬ r.Effective)
    (hwithin : (hookStep config s e).1.methodinfo.Within table)
    (hrecalls : Mealy.AllSteps (recallStep classify) Recalls a (e.own thread)) :
    RecalledBy table thread (threadedStep config s e).1
        (Mealy.run (recallStep classify) a (e.own thread)).1 ∧
      (threadedStep config s e).2.flatMap (shownOn thread)
        = (Mealy.run (recallStep classify) a (e.own thread)).2.flatMap HookOutput.shown := by
  have hfound : ∀ frame, e = .ret thread frame → (s.on thread).PassesReturn frame →
      s.methodinfo.lookup frame.method ≠ none := by
    rintro frame rfl hpasses
    rw [HookEvent.own, if_pos rfl] at hrecalls
    refine h.called _ (hrecalls.1 frame rfl ?_)
    rwa [HookState.PassesReturn, h.seen.thread]
  obtain ⟨hstate, hout⟩ := run_recallStep classify a.1 a.2 (e.own thread)
  obtain ⟨hseen, hshown⟩ := seenBy_threadedStep classify h.seen ⟨hkept, hwithin, hfound⟩
  refine ⟨⟨hstate ▸ hseen, ?_⟩, hout ▸ hshown⟩
  -- what was called stays in the table, and a call that gets past the guards enters its method
  have hstays : ∀ method ∈ a.2, (hookStep config s e).1.methodinfo.lookup method ≠ none := by
    intro method hmem
    obtain ⟨entry, hlookup⟩ := Option.ne_none_iff_exists'.mp (h.called method hmem)
    rw [hookStep_within hkept _ _ hlookup]
    exact Option.some_ne_none _
  cases e with
  | addRule r => exact hstays
  | ret thread' frame =>
      rw [HookEvent.own]
      split <;> exact hstays
  | call thread' frame garbage =>
      rw [HookEvent.own]
      by_cases hthread : thread' = thread
      · subst hthread
        rw [if_pos rfl, Mealy.run_singleton, recallStep]
        dsimp only
        by_cases hpasses : a.1.PassesCall frame
        · rw [if_pos hpasses]
          refine List.forall_mem_cons.mpr ⟨?_, hstays⟩
          have hpasses' : (s.on thread').PassesCall frame := by
            rw [HookState.PassesCall, h.seen.thread] at hpasses
            exact hpasses
          exact (lookup_call_ne_none_iff thread' frame garbage).mpr (.inl ⟨rfl, hpasses'⟩)
        · rw [if_neg hpasses]
          exact hstays
      · rw [if_neg hthread]
        exact hstays

/-- Without effective rules, a table that agrees with a classification goes on to do so, if that is
how the methods of the calls are classified. -/
theorem agrees_run {classify : Nat → Option MethodSource} (hrules : RulesKept events)
    (hagrees : s.methodinfo.Agrees classify)
    (hclassify : ∀ thread frame garbage, .call thread frame garbage ∈ events →
      config.classifyMethod s.lists garbage frame.method = classify frame.method) :
    (Mealy.run (threadedStep config) s events).1.methodinfo.Agrees classify := by
  have hcalls : Mealy.AllSteps (threadedStep config) (fun _ e => ∀ thread frame garbage,
      e = HookEvent.call thread frame garbage →
        config.classifyMethod s.lists garbage frame.method = classify frame.method) s events := by
    refine Mealy.allSteps_of_forall (fun e he => ?_) s
    rintro thread frame garbage rfl
    exact hclassify thread frame garbage he
  refine (Mealy.run_invariant_of_allSteps (P := fun s' => s'.lists = s.lists ∧
    s'.methodinfo.Agrees classify) ?_ ⟨rfl, hagrees⟩ ((allSteps_rulesKept hrules).and hcalls)).2
  rintro s' e ⟨hlists, hagrees'⟩ ⟨hkept', hcall⟩
  refine ⟨(hookStep_lists hkept').trans hlists, ?_⟩
  cases e with
  | addRule r =>
      rw [threadedStep, hookStep, RuledHook.addRule, if_neg (hkept' r rfl)]
      exact hagrees'
  | call thread frame garbage =>
      exact RuledHook.agrees_call hagrees' thread (hlists ▸ hcall thread frame garbage rfl)
  | ret thread frame =>
      rw [threadedStep, hookStep, ret_methodinfo]
      exact hagrees'

/-- **A thread that calls a forest whose guards match** shows what it would show by itself, with the
table as it is in the end, and gets to the same counters. -/
theorem threadOutputs_eq_frames {classify : Nat → Option MethodSource} {forest : CallForest Frame}
    (hrules : RulesKept events)
    (hagrees : (Mealy.run (threadedStep config) s events).1.methodinfo.Agrees classify)
    (hat : (s.on thread).At classify 0 0 0) (hevents : threadEvents thread events = forest.events)
    (hmatched : Matched classify 0 0 0 forest) :
    let reached := (Mealy.run (threadedStep config) s events).1
    let alone := s.alone thread reached.methodinfo
    alone.At classify 0 0 0 ∧
      threadOutputs config s thread events = frames (runForest classify alone forest).2 ∧
      reached.methodinfo = (runForest classify alone forest).1.methodinfo ∧
      reached.threads thread = (runForest classify alone forest).1.thread := by
  intro reached
  obtain ⟨hstart, hwithin⟩ := @allSteps_within config s events hrules
  generalize htable : reached.methodinfo = table at *
  have hat' : (s.alone thread table).At classify 0 0 0 :=
    ⟨hat.vmTop, hat.shadowTop, hat.level_eq, hat.stack_length, hagrees⟩
  have hsteps := hwithin.and (allSteps_rulesKept hrules)
  obtain ⟨hrecalls, -⟩ := recalls_of_matched hmatched hat' le_rfl (Nat.zero_le _) id []
  rw [← hevents] at hrecalls
  -- the thread by itself, with the table at the end
  obtain ⟨hrecalled, hshown⟩ := Mealy.run_projection (RecalledBy table thread)
    (HookEvent.own thread) (shownOn thread) HookOutput.shown
    (fun s' a e h hstep hown => recalledBy_threadedStep classify h hstep.2 hstep.1 hown)
    ⟨⟨hstart, rfl, rfl⟩, List.forall_mem_nil _⟩ hsteps hrecalls
  obtain ⟨hstate, hout⟩ := run_recallStep classify (s.alone thread table) []
    (threadEvents thread events)
  have hseen := hrecalled.seen
  rw [← threadEvents, hstate, hevents] at hseen
  refine ⟨hat', ?_, hseen.table.symm, hseen.thread.symm⟩
  rw [threadOutputs, hshown, flatMap_shown, runForest, ← hevents]
  exact congrArg frames hout

/-- **Bracketing among other threads.** If the calls and returns of a thread form a forest whose
guards match, its frames are bracketed and its counters restored, whatever the other threads call
and return from in between. The guards are those of any classification that the table agrees with in
the end, and there it is if the methods of all calls are classified so. -/
theorem interleaved_bracketsFrames (config : HookConfig) (s : RuledHook) (thread : Nat)
    (events : List HookEvent) (hrules : RulesKept events) (classify : Nat → Option MethodSource)
    (hagrees : (Mealy.run (threadedStep config) s events).1.methodinfo.Agrees classify)
    (hat : (s.on thread).At classify 0 0 0) (forest : CallForest Frame)
    (hevents : threadEvents thread events = forest.events)
    (hmatched : Matched classify 0 0 0 forest) : ThreadBrackets config s thread events := by
  obtain ⟨hat', houtputs, -, hthread⟩ := threadOutputs_eq_frames hrules hagrees hat hevents hmatched
  obtain ⟨hframes, hlast, -, -⟩ :=
    allFrames_of_matched hmatched hat' le_rfl (Nat.zero_le _) id
  constructor
  · obtain ⟨shown, hnested⟩ := exists_events_of_allFrames (hframes.imp fun _ _ => BracketPair.paired)
    refine ⟨shown, ?_⟩
    rw [houtputs, ← hnested]
    exact flatMap_brackets_frames _
  · intro functionId popped hmem
    exact popped_of_allFrames hframes (houtputs ▸ hmem)
  · exact ((congrArg ShadowThread.shadowTop hthread).trans hlast.shadowTop).trans
      hat.shadowTop.symm
  · exact ((congrArg ShadowThread.vmTop hthread).trans hlast.vmTop).trans hat.vmTop.symm
  · exact ((congrArg ShadowThread.levelDeepIntoThirdPartyLib hthread).trans
      hlast.level_eq).trans hat.level_eq.symm

/-- Two threads take turns: the first one calls `Foo#bar` in itself, the second one returns from a
frame it has not called. -/
def twoThreadsNesting : List HookEvent :=
  [.call 0 (frameOf 0) 0, .ret 1 (frameOf 0), .call 0 (frameOf 0) 1, .call 1 (frameOf 0) 2,
    .ret 0 (frameOf 0), .ret 0 (frameOf 0)]

/-- The first thread brackets its frames. -/
theorem interleaved_bracketsFrames_twoThreads : ThreadBrackets fooBar .new 0 twoThreadsNesting := by
  have hrules : RulesKept twoThreadsNesting := by
    intro r hmem
    simp [twoThreadsNesting] at hmem
  have hclassify : ∀ thread frame garbage, .call thread frame garbage ∈ twoThreadsNesting →
      fooBar.classifyMethod .new garbage frame.method = some .userCode := by
    intro thread frame garbage hmem
    simp only [twoThreadsNesting, List.mem_cons, HookEvent.call.injEq, List.not_mem_nil, or_false,
      reduceCtorEq, false_or] at hmem
    rcases hmem with ⟨-, rfl, rfl⟩ | ⟨-, rfl, rfl⟩ | ⟨-, rfl, rfl⟩ <;> decide +kernel
  have hempty : RuledHook.new.methodinfo.Agrees fun _ => some .userCode := fun _ _ h => by cases h
  refine interleaved_bracketsFrames fooBar .new 0 twoThreadsNesting hrules (fun _ => some .userCode)
    (agrees_run hrules hempty hclassify) ⟨rfl, rfl, rfl, List.length_replicate, hempty⟩
    (.node (frameOf 0) (.node (frameOf 0) .nil .nil) .nil) rfl ?_
  simp [Matched, frameKind, frameOf, MethodSource.kind, rgShadowStackLimit]

end RaygunApm
