import Mathlib.Data.List.Induction
import RaygunApm.Hook.Brackets
import RaygunApm.Hook.Discovery

/-! # Lookups on the way out

The `RUBY_EVENT_RETURN` handler ignores the result of its lookup, so the method of a return that
gets past the guards has to be in the methodinfo table. What fills the table are the calls that get
past their own guards, and what empties it are rules. So every such return finds its entry exactly
if a call of its method has got past the guards since the last effective rule
(`returnsFindEntries_iff`). -/

namespace RaygunApm

/-! ## The property -/

/-- An event of a thread, or a change of the rules. -/
inductive HookEvent where
  /-- `add_blacklist` or `add_whitelist`. -/
  | addRule (r : Rule)
  /-- `RUBY_EVENT_CALL`, with the byte that the classifier would find in its buffer. -/
  | call (thread : Nat) (frame : Frame) (garbage : UInt8)
  /-- `RUBY_EVENT_RETURN`. -/
  | ret (thread : Nat) (frame : Frame)

/-- The hook on calls, returns and rules. -/
def hookStep (config : HookConfig) (s : RuledHook) : HookEvent → RuledHook × List HookOutput
  | .addRule r => (s.addRule r, [])
  | .call thread frame garbage => s.call config thread frame garbage
  | .ret thread frame => s.ret thread frame

/-- The return gets past the guards in front of the lookup. -/
def HookState.PassesReturn (s : HookState) (frame : Frame) : Prop :=
  s.thread.vmTop - 1 < (rgShadowStackLimit : Int) - 1 ∧ s.thread.shadowTop ≠ -1 ∧
    frame.tracerInternal = false

instance (s : HookState) (frame : Frame) : Decidable (s.PassesReturn frame) :=
  inferInstanceAs (Decidable (_ ∧ _ ∧ _))

/-- Whenever a return gets past its guards, the method is in the table. -/
def ReturnsFindEntries (config : HookConfig) (s : RuledHook) (events : List HookEvent) : Prop :=
  ∀ before thread frame after, events = before ++ .ret thread frame :: after →
    ((Mealy.run (hookStep config) s before).1.on thread).PassesReturn frame →
    (Mealy.run (hookStep config) s before).1.methodinfo.lookup frame.method ≠ none

/-- No rule of these events changes the lists. -/
def RulesKept (events : List HookEvent) : Prop := ∀ r, .addRule r ∈ events → ¬ r.Effective

/-- Since the last effective rule, a call of the method has got past its guards. If there was no
such rule, the method may have been in the table from the start. -/
def CalledSinceRule (config : HookConfig) (s : RuledHook) (events : List HookEvent)
    (method : Nat) : Prop :=
  (∃ before thread frame garbage after, events = before ++ .call thread frame garbage :: after ∧
      frame.method = method ∧
      ((Mealy.run (hookStep config) s before).1.on thread).PassesCall frame ∧ RulesKept after) ∨
    (s.methodinfo.lookup method ≠ none ∧ RulesKept events)

/-- The method of every return that gets past its guards has been called since the last effective
rule. -/
def ReturnsCalled (config : HookConfig) (s : RuledHook) (events : List HookEvent) : Prop :=
  ∀ before thread frame after, events = before ++ .ret thread frame :: after →
    ((Mealy.run (hookStep config) s before).1.on thread).PassesReturn frame →
    CalledSinceRule config s before frame.method

/-! ## What is in the table -/

variable {config : HookConfig} {s : RuledHook} {method : Nat}

/-- The rules are kept through one more event where they are kept before it and the event adds no
effective one. -/
theorem rulesKept_append {events : List HookEvent} {e : HookEvent} :
    RulesKept (events ++ [e]) ↔ RulesKept events ∧ ∀ r, e = .addRule r → ¬ r.Effective := by
  simp only [RulesKept, List.mem_append, List.mem_singleton, or_imp, forall_and, eq_comm]

/-- The last event is the call, or the call was before and the last event is no effective rule. -/
theorem calledSinceRule_append {events : List HookEvent} {e : HookEvent} :
    CalledSinceRule config s (events ++ [e]) method ↔
      (∃ thread frame garbage, e = .call thread frame garbage ∧ frame.method = method ∧
        ((Mealy.run (hookStep config) s events).1.on thread).PassesCall frame) ∨
      (CalledSinceRule config s events method ∧ ∀ r, e = .addRule r → ¬ r.Effective) := by
  constructor
  · rintro (⟨before, thread, frame, garbage, after, heq, hmethod, hpasses, hkept⟩ | ⟨hknown, hkept⟩)
    · rcases List.eq_nil_or_concat after with rfl | ⟨after', e', rfl⟩
      · obtain ⟨rfl, heq'⟩ := List.append_inj' heq rfl
        exact .inl ⟨thread, frame, garbage, (List.cons.inj heq').1, hmethod, hpasses⟩
      · rw [List.concat_eq_append, ← List.cons_append, ← List.append_assoc] at heq
        obtain ⟨rfl, heq'⟩ := List.append_inj' heq rfl
        obtain rfl := (List.cons.inj heq').1
        rw [List.concat_eq_append, rulesKept_append] at hkept
        exact .inr ⟨.inl ⟨before, thread, frame, garbage, after', rfl, hmethod, hpasses, hkept.1⟩, hkept.2⟩
    · obtain ⟨hkept', hlast⟩ := rulesKept_append.mp hkept
      exact .inr ⟨.inr ⟨hknown, hkept'⟩, hlast⟩
  · rintro (⟨thread, frame, garbage, rfl, hmethod, hpasses⟩ | ⟨hcalled, hlast⟩)
    · exact .inl ⟨events, thread, frame, garbage, [], rfl, hmethod, hpasses, fun _ h => absurd h (by simp)⟩
    · rcases hcalled with
        ⟨before, thread, frame, garbage, after, rfl, hmethod, hpasses, hkept⟩ | ⟨hknown, hkept⟩
      · refine .inl ⟨before, thread, frame, garbage, after ++ [e], by simp, hmethod, hpasses, ?_⟩
        exact rulesKept_append.mpr ⟨hkept, hlast⟩
      · exact .inr ⟨hknown, rulesKept_append.mpr ⟨hkept, hlast⟩⟩

/-- A call adds its method to the table if it gets past the guards, and takes none out of it. -/
theorem lookup_call_ne_none_iff (thread : Nat) (frame : Frame) (garbage : UInt8) :
    (s.call config thread frame garbage).1.methodinfo.lookup method ≠ none ↔
      (frame.method = method ∧ (s.on thread).PassesCall frame) ∨
        s.methodinfo.lookup method ≠ none := by
  have hput : (s.call config thread frame garbage).1.methodinfo
      = (rubyEventCall (config.classifyMethod s.lists garbage) frame (s.on thread)).1.methodinfo := rfl
  rw [hput]
  by_cases hpasses : (s.on thread).PassesCall frame
  · rw [rubyEventCall_methodinfo _ hpasses]
    have hresolves := (s.on thread).entered.resolves (config.classifyMethod s.lists garbage)
      frame.method
    generalize HookState.resolve _ frame.method _ = resolved at hresolves ⊢
    have hcons : ∀ entry : Option RgMethod,
        ((frame.method, entry) :: s.methodinfo).lookup method ≠ none ↔
          (frame.method = method ∧ (s.on thread).PassesCall frame) ∨
            s.methodinfo.lookup method ≠ none := by
      intro entry
      by_cases hmethod : method = frame.method
      · subst hmethod
        simp [hpasses]
      · rw [s.methodinfo.lookup_cons_of_ne entry hmethod]
        simp [Ne.symm hmethod]
    -- a lookup that finds nothing enters the method, blacklisted or not
    cases hresolves with
    | known entry hlookup =>
        by_cases hmethod : frame.method = method
        · subst hmethod
          exact iff_of_true (by rw [hlookup]; exact Option.some_ne_none _) (.inl ⟨rfl, hpasses⟩)
        · rw [or_iff_right fun h => hmethod h.1]
          rfl
    | whitelisted => exact hcons _
    | blacklisted => exact hcons _
  · rw [rubyEventCall_of_not_passes _ hpasses, or_iff_right fun h => hpasses h.2]
    rfl

/-- A return leaves the table alone. -/
theorem ret_methodinfo (s : RuledHook) (thread : Nat) (frame : Frame) :
    (s.ret thread frame).1.methodinfo = s.methodinfo :=
  (rubyEventReturn_keeps frame (s.on thread)).1

/-- **What is in the table**: the methods called since the last effective rule. -/
theorem lookup_run_ne_none_iff (events : List HookEvent) :
    (Mealy.run (hookStep config) s events).1.methodinfo.lookup method ≠ none ↔
      CalledSinceRule config s events method := by
  -- over the events, from the last one: it decides whether those before it still count
  induction events using List.reverseRecOn with
  | nil => simp [CalledSinceRule, RulesKept]
  | append_singleton events e ih =>
      rw [calledSinceRule_append, ← ih, Mealy.run_append, Mealy.run_singleton]
      dsimp only
      generalize (Mealy.run (hookStep config) s events).1 = s'
      cases e with
      | addRule r =>
          by_cases heffective : r.Effective
          · simp [hookStep, RuledHook.addRule, heffective]
          · simp [hookStep, RuledHook.addRule, heffective]
      | call thread frame garbage =>
          rw [hookStep, lookup_call_ne_none_iff]
          simp
      | ret thread frame =>
          rw [hookStep, ret_methodinfo]
          simp

/-! ## Returns -/

/-- **Lookups on the way out.** Every return that gets past its guards finds its method in the table
if and only if a call of the method has got past the guards since the last effective rule. -/
theorem returnsFindEntries_iff (config : HookConfig) (s : RuledHook) (events : List HookEvent) :
    ReturnsFindEntries config s events ↔ ReturnsCalled config s events := by
  refine forall_congr' fun before => forall_congr' fun thread => forall_congr' fun frame =>
    forall_congr' fun after => forall_congr' fun _ => forall_congr' fun _ => ?_
  exact lookup_run_ne_none_iff before

/-- One method, `Foo#bar`, and no libraries. -/
def fooBar : HookConfig where
  method _ := ⟨⟨ascii "Foo", by decide⟩, ⟨ascii "bar", by decide⟩, ⟨ascii "foo.rb", by decide⟩⟩
  libraries := raxNew

/-- A rule for another path. -/
def whitelistBaz : Rule := ⟨some ⟨ascii "Baz", by decide⟩, none, .whitelisted⟩

/-- A rule is added while `Foo#bar` runs: its return finds nothing. -/
theorem not_returnsFindEntries_addRule :
    ¬ ReturnsFindEntries fooBar .new
      [.call 0 (frameOf 0) 0, .addRule whitelistBaz, .ret 0 (frameOf 0)] := by
  intro h
  refine h [.call 0 (frameOf 0) 0, .addRule whitelistBaz] 0 (frameOf 0) [] rfl ?_ rfl
  decide +kernel

end RaygunApm
