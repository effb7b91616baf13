import Mathlib.Algebra.Order.Group.Nat
import RaygunApm.Hook.Tracing

/-! # Bracketing of the emitted frames

Every guard of the hook on the way in has a counterpart on the way out, but two pairs do not match:
the depth is limited by the reported frames on the way in and by all open frames on the way out, and
a frame that waits for synchronization is hidden above level 1 on the way in and above level 0 on
the way out. `Matched` says when a call forest meets neither, and only then every frame is emitted
as a pair of brackets or not at all, and the counters are restored (`bracketsFrames_iff`). -/

namespace RaygunApm

open CallForest

/-! ## Kinds of frames -/

/-- How the hook treats a frame. -/
inductive FrameKind where
  /-- Of the tracer itself, or blacklisted. -/
  | ignored
  /-- Of user code, the system entrypoint, or another source without a rule of its own. -/
  | ordinary
  /-- Of a known library. -/
  | library
  /-- Waiting for synchronization. -/
  | synchronization
  deriving DecidableEq

/-- The kind of a method source. -/
def MethodSource.kind : MethodSource → FrameKind
  | .knownLibrary => .library
  | .waitForSynchronization => .synchronization
  | _ => .ordinary

/-- The kind of a frame. -/
def frameKind (classify : Nat → Option MethodSource) (frame : Frame) : FrameKind :=
  if frame.tracerInternal then .ignored
  else match classify frame.method with
    | some source => source.kind
    | none => .ignored

/-- The library level inside a frame. -/
def FrameKind.entered (kind : FrameKind) (level : Nat) : Nat :=
  if kind = .library then level + 1 else level

/-- The library level behind a frame. -/
def FrameKind.left (kind : FrameKind) (level : Nat) : Nat :=
  if kind = .library then level - 1 else level

/-- The frame is emitted at its call. -/
def FrameKind.Opens : FrameKind → Nat → Prop
  | .ignored, _ => False
  | .ordinary, _ => True
  | .library, level => level = 0
  | .synchronization, level => level ≤ 1

/-- The frame is emitted at its return. -/
def FrameKind.Closes : FrameKind → Nat → Prop
  | .ignored, _ => False
  | .ordinary, _ => True
  | .library, level => level ≤ 1
  | .synchronization, level => level = 0

/-! ## The property -/

/-- The output begins or ends a frame. -/
def HookOutput.isFrame : HookOutput → Bool
  | .methodinfo _ _ => false
  | .begin _ _ | .end _ _ => true

/-- The outputs that begin or end frames. -/
def frames (os : List HookOutput) : List HookOutput := os.filter HookOutput.isFrame

/-- A frame is shown as a begin and an end with the same id, which is the one that was popped, or
not at all. -/
def BracketPair (os os' : List HookOutput) : Prop :=
  match frames os, frames os' with
  | [.begin functionId _], [.end functionId' popped] => functionId' = functionId ∧ popped = functionId
  | [], [] => True
  | _, _ => False

instance (os os' : List HookOutput) : Decidable (BracketPair os os') := by
  unfold BracketPair
  generalize frames os = xs
  generalize frames os' = ys
  rcases xs with _ | ⟨⟨⟩ | ⟨⟩ | ⟨⟩, _ | ⟨_, _⟩⟩ <;>
    rcases ys with _ | ⟨⟨⟩ | ⟨⟩ | ⟨⟩, _ | ⟨_, _⟩⟩ <;> dsimp only <;> infer_instance

/-- Shown with the id that was popped, or not at all. -/
theorem bracketPair_iff {os os' : List HookOutput} :
    BracketPair os os' ↔
      (∃ functionId instanceId, frames os = [.begin functionId instanceId] ∧
        frames os' = [.end functionId functionId]) ∨ (frames os = [] ∧ frames os' = []) := by
  unfold BracketPair
  generalize frames os = xs
  generalize frames os' = ys
  rcases xs with _ | ⟨⟨⟩ | ⟨⟩ | ⟨⟩, _ | ⟨_, _⟩⟩ <;>
    rcases ys with _ | ⟨⟨⟩ | ⟨⟩ | ⟨⟩, _ | ⟨_, _⟩⟩ <;> simp

/-- The bracket that an output shows. -/
def HookOutput.brackets : HookOutput → List (CallEvent UInt32)
  | .methodinfo _ _ => []
  | .begin functionId _ => [.call functionId]
  | .end functionId _ => [.ret functionId]

/-- The hook brackets the frames of a forest: each of them is shown as a pair of brackets or not at
all, so the emitted sequence is well nested, and the counters of the thread are restored. -/
structure BracketsFrames (classify : Nat → Option MethodSource) (s : HookState)
    (forest : CallForest Frame) : Prop where
  frames : AllFrames (rbRgTracingHookI classify) BracketPair s forest
  nested : ∃ shown : CallForest UInt32,
    (Mealy.run (rbRgTracingHookI classify) s forest.events).2.flatMap HookOutput.brackets
      = shown.events
  shadowTop : (Mealy.run (rbRgTracingHookI classify) s forest.events).1.thread.shadowTop
    = s.thread.shadowTop
  vmTop : (Mealy.run (rbRgTracingHookI classify) s forest.events).1.thread.vmTop = s.thread.vmTop
  level : (Mealy.run (rbRgTracingHookI classify) s
      forest.events).1.thread.levelDeepIntoThirdPartyLib
    = s.thread.levelDeepIntoThirdPartyLib

/-- The guards match for the frames of a forest that is called with `opened` frames open, `reported`
of them on the shadow stack, `level` levels deep in libraries. -/
def Matched (classify : Nat → Option MethodSource) : Nat → Nat → Nat → CallForest Frame → Prop
  | _, _, _, .nil => True
  | opened, reported, level, .node frame children rest =>
      (reported < rgShadowStackLimit →
        match frameKind classify frame with
        | .ignored => Matched classify (opened + 1) reported level children
        | .ordinary =>
            opened < rgShadowStackLimit ∧ Matched classify (opened + 1) (reported + 1) level children
        | .library =>
            opened < rgShadowStackLimit ∧
              if level = 0 then Matched classify (opened + 1) (reported + 1) 1 children
              else Matched classify (opened + 1) reported (level + 1) children
        | .synchronization =>
            if level = 0 then
              opened < rgShadowStackLimit ∧ Matched classify (opened + 1) (reported + 1) 0 children
            else level ≠ 1 ∧ Matched classify (opened + 1) reported level children) ∧
      Matched classify opened reported level rest

/-- The outputs that begin or end frames show all the brackets. -/
theorem flatMap_brackets_frames (os : List HookOutput) :
    (frames os).flatMap HookOutput.brackets = os.flatMap HookOutput.brackets := by
  induction os with
  | nil => rfl
  | cons o os ih =>
      rw [frames] at ih
      cases o <;> simp [frames, List.filter_cons, HookOutput.isFrame, HookOutput.brackets, ih]

/-- A pair of brackets in the sense of the library. -/
theorem BracketPair.paired {os os' : List HookOutput} (h : BracketPair os os') :
    Paired HookOutput.brackets os os' := by
  rw [Paired, ← flatMap_brackets_frames os, ← flatMap_brackets_frames os']
  rcases bracketPair_iff.mp h with ⟨functionId, _, hos, hos'⟩ | ⟨hos, hos'⟩
  · exact .inl ⟨functionId, by rw [hos]; rfl, by rw [hos']; rfl⟩
  · exact .inr ⟨by rw [hos]; rfl, by rw [hos']; rfl⟩

/-! ## What the hook does at a call and at a return -/

/-- The table agrees with the classification. -/
def MethodTable.Agrees (classify : Nat → Option MethodSource) (table : MethodTable) : Prop :=
  ∀ method entry, table.lookup method = some entry → entry.map RgMethod.source = classify method

/-- The counters of the thread, with `opened` frames open, `reported` of them on the shadow stack,
and a table that agrees with the classification. -/
structure HookState.At (classify : Nat → Option MethodSource) (opened reported level : Nat)
    (s : HookState) : Prop where
  vmTop : s.thread.vmTop = (opened : Int) - 1
  shadowTop : s.thread.shadowTop = (reported : Int) - 1
  level_eq : s.thread.levelDeepIntoThirdPartyLib = level
  stack_length : s.thread.shadowStack.length = rgShadowStackLimit
  agrees : s.methodinfo.Agrees classify

/-- The entry at an index of the shadow stack. -/
def HookState.stackAt (s : HookState) (i : Nat) : UInt32 := s.thread.shadowStack.getD i 0

/-- No entry of the one table is missing in the other, or differs there. -/
def MethodTable.Within (table table' : MethodTable) : Prop :=
  ∀ method entry, table.lookup method = some entry → table'.lookup method = some entry

/-- Tables that contain one another in turn contain one another. -/
theorem MethodTable.Within.trans {table table' table'' : MethodTable} (h : table.Within table')
    (h' : table'.Within table'') : table.Within table'' :=
  fun method entry hlookup => h' method entry (h method entry hlookup)

/-- An entry that is new hides no other one. -/
theorem MethodTable.within_cons {table : MethodTable} {method : Nat}
    (hnone : table.lookup method = none) (entry : Option RgMethod) :
    table.Within ((method, entry) :: table) := by
  intro method' entry' hlookup
  have hne : method' ≠ method := by
    rintro rfl
    rw [hnone] at hlookup
    cases hlookup
  rw [MethodTable.lookup_cons_of_ne _ _ hne, hlookup]

/-- No entry of the table is lost. -/
def HookState.Grows (s s' : HookState) : Prop := s.methodinfo.Within s'.methodinfo

/-- The hook knows the method of the frame. -/
def HookState.Knows (s : HookState) (frame : Frame) : Prop :=
  frame.tracerInternal = true ∨ ∃ entry, s.methodinfo.lookup frame.method = some entry

variable {classify : Nat → Option MethodSource} {opened reported level : Nat} {s s' : HookState}
  {frame : Frame}

/-- A method that the hook knows stays known as the table grows. -/
theorem HookState.Grows.knows (h : s.Grows s') (hknows : s.Knows frame) : s'.Knows frame := by
  rcases hknows with hinternal | ⟨entry, hentry⟩
  · exact .inl hinternal
  · exact .inr ⟨entry, h _ _ hentry⟩

/-- One more entry, which agrees too. -/
theorem MethodTable.Agrees.cons {table : MethodTable} {method : Nat}
    {entry : Option RgMethod} (h : table.Agrees classify)
    (hentry : entry.map RgMethod.source = classify method) :
    MethodTable.Agrees classify ((method, entry) :: table) := by
  intro method' entry' hlookup
  by_cases hmethod : method' = method
  · rw [hmethod, List.lookup_cons_self] at hlookup
    rw [← Option.some.inj hlookup, hentry, hmethod]
  · rw [table.lookup_cons_of_ne entry hmethod] at hlookup
    exact h _ _ hlookup

/-- What `resolve` returns: the entry that the table then has. -/
theorem HookState.resolve_spec (h : s.At classify opened reported level) (method : Nat) :
    (s.resolve classify method).1.At classify opened reported level ∧
      s.Grows (s.resolve classify method).1 ∧
      (s.resolve classify method).1.thread = s.thread ∧
      frames (s.resolve classify method).2.1 = [] ∧
      (s.resolve classify method).1.methodinfo.lookup method
        = some (s.resolve classify method).2.2 ∧
      (s.resolve classify method).2.2.map RgMethod.source = classify method := by
  unfold resolve
  cases hlookup : s.methodinfo.lookup method with
  | some entry => exact ⟨h, fun _ _ h => h, rfl, rfl, hlookup, h.agrees _ _ hlookup⟩
  -- a discovery adds an entry where there was none, so the others stay
  | none =>
      have hgrows := MethodTable.within_cons hlookup
      simp only [rbRgMethodinfo]
      cases hclassify : classify method with
      | some source =>
          exact ⟨⟨h.vmTop, h.shadowTop, h.level_eq, h.stack_length, h.agrees.cons hclassify.symm⟩,
            hgrows _, rfl, rfl, by simp, rfl⟩
      | none =>
          exact ⟨⟨h.vmTop, h.shadowTop, h.level_eq, h.stack_length, h.agrees.cons hclassify.symm⟩,
            hgrows _, rfl, rfl, by simp, rfl⟩

/-- The level as the hook computes it on the way in. -/
theorem FrameKind.entered_eq (source : MethodSource) (level : Nat) :
    (if source = .knownLibrary then (level : Int) + 1 else level)
      = (source.kind.entered level : Nat) := by
  cases source <;> rfl

/-- The hook hides a frame on the way in exactly if its kind does not open. -/
theorem FrameKind.not_opens_iff (source : MethodSource) (level : Nat) :
    ((source = .knownLibrary ∧ (source.kind.entered level : Int) > 1) ∨
      (source = .waitForSynchronization ∧ (source.kind.entered level : Int) > 1))
      ↔ ¬ source.kind.Opens level := by
  cases source with
  | knownLibrary =>
      simp only [MethodSource.kind, entered, Opens, true_and, reduceCtorEq, if_true, false_and,
        or_false]
      omega
  | waitForSynchronization =>
      simp only [MethodSource.kind, entered, Opens, true_and, reduceCtorEq, if_false, false_and,
        false_or]
      omega
  | _ => simp [MethodSource.kind, entered, Opens]

/-- A frame that opens is pushed and shown. -/
theorem HookState.begin_opens (frame : Frame) (h : s.At classify opened reported level)
    (hlt : reported < rgShadowStackLimit) {m : RgMethod} (hopens : m.source.kind.Opens level) :
    (s.begin m frame).2 = [.begin m.functionId frame.instanceId] ∧
      (s.begin m frame).1.At classify opened (reported + 1) (m.source.kind.entered level) ∧
      (s.begin m frame).1.methodinfo = s.methodinfo ∧
      (s.begin m frame).1.stackAt reported = m.functionId ∧
      ∀ i < reported, (s.begin m frame).1.stackAt i = s.stackAt i := by
  have hshown := (not_iff_not.mpr (FrameKind.not_opens_iff m.source level)).mpr
    (not_not.mpr hopens)
  obtain ⟨hlibrary, hsync⟩ := not_or.mp hshown
  have htop : (s.thread.shadowTop + 1).toNat = reported := by
    rw [h.shadowTop]
    omega
  simp only [begin, h.level_eq, FrameKind.entered_eq, if_neg hlibrary, if_neg hsync, rbRgStackPush]
  -- the counters and the size of the stack, then its new top, then what is below
  refine ⟨trivial, ⟨h.vmTop, ?_, rfl, ?_, h.agrees⟩, trivial, ?_, ?_⟩
  · show s.thread.shadowTop + 1 = _
    rw [h.shadowTop]
    omega
  · show (s.thread.shadowStack.set _ _).length = _
    rw [List.length_set, h.stack_length]
  · rw [stackAt, htop, List.getD_eq_getElem?_getD, List.getElem?_set_self (by rwa [h.stack_length])]
    rfl
  · intro i hi
    rw [stackAt, stackAt, htop, List.getD_eq_getElem?_getD, List.getElem?_set_ne hi.ne',
      ← List.getD_eq_getElem?_getD]

/-- A frame that does not open is hidden. -/
theorem HookState.begin_hidden (frame : Frame) (h : s.At classify opened reported level) {m : RgMethod}
    (hopens : ¬ m.source.kind.Opens level) :
    (s.begin m frame).2 = [] ∧
      (s.begin m frame).1.At classify opened reported (m.source.kind.entered level) ∧
      (s.begin m frame).1.methodinfo = s.methodinfo ∧
      ∀ i, (s.begin m frame).1.stackAt i = s.stackAt i := by
  have hhidden := (FrameKind.not_opens_iff m.source level).mpr hopens
  have hat : ({ s with thread := { s.thread with
      levelDeepIntoThirdPartyLib := (m.source.kind.entered level : Int) } } : HookState).At classify
      opened reported (m.source.kind.entered level) :=
    ⟨h.vmTop, h.shadowTop, rfl, h.stack_length, h.agrees⟩
  simp only [begin, h.level_eq, FrameKind.entered_eq]
  by_cases hlibrary : m.source = .knownLibrary ∧ (m.source.kind.entered level : Int) > 1
  · rw [if_pos hlibrary]
    exact ⟨rfl, hat, rfl, fun _ => rfl⟩
  · rw [if_neg hlibrary, if_pos (hhidden.resolve_left hlibrary)]
    exact ⟨rfl, hat, rfl, fun _ => rfl⟩

/-- What a call does to the counters, the table and the stack, and what it shows. -/
inductive CallSpec (classify : Nat → Option MethodSource) (opened reported level : Nat)
    (frame : Frame) (s' : HookState) (os : List HookOutput) : Prop
  /-- The shadow stack is full. -/
  | full : reported = rgShadowStackLimit → s'.At classify (opened + 1) reported level →
      frames os = [] → CallSpec classify opened reported level frame s' os
  /-- The frame is ignored. -/
  | ignored : reported < rgShadowStackLimit → frameKind classify frame = .ignored →
      s'.At classify (opened + 1) reported level → s'.Knows frame → frames os = [] →
      CallSpec classify opened reported level frame s' os
  /-- The frame is hidden. -/
  | hidden : reported < rgShadowStackLimit → frameKind classify frame ≠ .ignored →
      ¬ (frameKind classify frame).Opens level →
      s'.At classify (opened + 1) reported ((frameKind classify frame).entered level) →
      s'.Knows frame → frames os = [] → CallSpec classify opened reported level frame s' os
  /-- The frame is shown and pushed. -/
  | shown (m : RgMethod) : reported < rgShadowStackLimit → frameKind classify frame ≠ .ignored →
      (frameKind classify frame).Opens level →
      s'.At classify (opened + 1) (reported + 1) ((frameKind classify frame).entered level) →
      s'.methodinfo.lookup frame.method = some (some m) → s'.stackAt reported = m.functionId →
      frames os = [.begin m.functionId frame.instanceId] →
      CallSpec classify opened reported level frame s' os

/-- A shadow stack that is not full. -/
theorem HookState.At.shadowTop_ne (h : s.At classify opened reported level)
    (hlt : reported < rgShadowStackLimit) :
    s.thread.shadowTop ≠ (rgShadowStackLimit : Int) - 1 := by
  rw [h.shadowTop]
  omega

/-- **What a call does**: the frame is too deep for the stack, ignored, hidden by its kind, or
pushed and shown, and the table only grows. -/
theorem rubyEventCall_spec (h : s.At classify opened reported level)
    (hle : reported ≤ rgShadowStackLimit) (frame : Frame) :
    CallSpec classify opened reported level frame (rubyEventCall classify frame s).1
        (rubyEventCall classify frame s).2 ∧
      s.Grows (rubyEventCall classify frame s).1 ∧
      ∀ i < reported, (rubyEventCall classify frame s).1.stackAt i = s.stackAt i := by
  have hat : ({ s with thread := { s.thread with vmTop := s.thread.vmTop + 1 } } : HookState).At
      classify (opened + 1) reported level := by
    refine ⟨?_, h.shadowTop, h.level_eq, h.stack_length, h.agrees⟩
    show s.thread.vmTop + 1 = _
    rw [h.vmTop]
    omega
  unfold rubyEventCall
  dsimp only
  -- the guards, in the order of the handler: a full shadow stack, the methods of the tracer
  rcases hle.eq_or_lt with hfull | hlt
  · have htop : s.thread.shadowTop = (rgShadowStackLimit : Int) - 1 := by
      rw [h.shadowTop, hfull]
    rw [if_pos htop]
    exact ⟨.full hfull hat rfl, fun _ _ h => h, fun _ _ => rfl⟩
  · rw [if_neg (h.shadowTop_ne hlt)]
    by_cases hinternal : frame.tracerInternal = true
    · rw [if_pos hinternal]
      exact ⟨.ignored hlt (if_pos hinternal) hat (.inl hinternal) rfl, fun _ _ h => h,
        fun _ _ => rfl⟩
    · rw [if_neg hinternal]
      obtain ⟨hat', hgrows, hthread, hframes, hlookup, hsource⟩ :=
        HookState.resolve_spec hat frame.method
      generalize HookState.resolve classify frame.method _ = resolved at *
      obtain ⟨s', declared, entry⟩ := resolved
      have hsame : ∀ i, s'.stackAt i = s.stackAt i := by
        intro i
        have hmemory := congrArg ShadowThread.shadowStack hthread
        dsimp only at hmemory
        rw [HookState.stackAt, HookState.stackAt, hmemory]
      -- what the lookup returns is what the classification says
      cases entry with
      | none =>
          have hkind : frameKind classify frame = .ignored := by
            have hnone : classify frame.method = none := hsource.symm
            rw [frameKind, if_neg hinternal, hnone]
          exact ⟨.ignored hlt hkind hat' (.inr ⟨_, hlookup⟩) hframes, hgrows, fun i _ => hsame i⟩
      | some m =>
          have hsome : classify frame.method = some m.source := hsource.symm
          have hkind : frameKind classify frame = m.source.kind := by
            rw [frameKind, if_neg hinternal, hsome]
          have hne : frameKind classify frame ≠ .ignored := by
            rw [hkind]
            cases m.source <;> decide
          have hsplit : ∀ os : List HookOutput, frames (declared ++ os) = frames os := by
            intro os
            have hdeclared : declared.filter HookOutput.isFrame = [] := hframes
            rw [frames, List.filter_append, hdeclared]
            rfl
          -- the level decides whether the frame is shown
          by_cases hopens : m.source.kind.Opens level
          · obtain ⟨hos, hbegin, htable, hstack, hbelow⟩ :=
              HookState.begin_opens frame hat' hlt hopens
            refine ⟨.shown m hlt hne (hkind ▸ hopens) (hkind ▸ hbegin) ?_ hstack ?_, ?_, ?_⟩
            · exact htable ▸ hlookup
            · dsimp only
              rw [hsplit, hos]
              rfl
            · intro method entry hentry
              exact htable ▸ hgrows method entry hentry
            · intro i hi
              exact (hbelow i hi).trans (hsame i)
          · obtain ⟨hos, hbegin, htable, hstack⟩ :=
              HookState.begin_hidden frame hat' hopens
            refine ⟨.hidden hlt hne (hkind ▸ hopens) (hkind ▸ hbegin) (.inr ⟨some m, ?_⟩) ?_, ?_, ?_⟩
            · exact htable ▸ hlookup
            · dsimp only
              rw [hsplit, hos]
              rfl
            · intro method entry hentry
              exact htable ▸ hgrows method entry hentry
            · intro i _
              exact (hstack i).trans (hsame i)

/-- The level as the hook computes it on the way out. -/
theorem FrameKind.left_eq {source : MethodSource} {level : Nat}
    (hlevel : source.kind = .library → 0 < level) :
    (if source = .knownLibrary then (level : Int) - 1 else level)
      = (source.kind.left level : Nat) := by
  cases source with
  | knownLibrary =>
      have hpos : 0 < level := hlevel rfl
      simp only [MethodSource.kind, left, if_true]
      omega
  | _ => rfl

/-- The hook hides a frame on the way out exactly if its kind does not close. -/
theorem FrameKind.not_closes_iff (source : MethodSource) (level : Nat) :
    ((source = .knownLibrary ∧ (source.kind.left level : Int) > 0) ∨
      (source = .waitForSynchronization ∧ (source.kind.left level : Int) > 0))
      ↔ ¬ source.kind.Closes level := by
  cases source with
  | knownLibrary =>
      simp only [MethodSource.kind, left, Closes, true_and, reduceCtorEq, if_true, false_and,
        or_false]
      omega
  | waitForSynchronization =>
      simp only [MethodSource.kind, left, Closes, true_and, reduceCtorEq, if_false, false_and,
        false_or]
      omega
  | _ => simp [MethodSource.kind, left, Closes]

/-- A frame that closes is popped and shown. -/
theorem HookState.end_closes (h : s.At classify opened (reported + 1) level) {m : RgMethod}
    (hlevel : m.source.kind = .library → 0 < level) (hcloses : m.source.kind.Closes level) :
    (s.end m).2 = [.end m.functionId (s.stackAt reported)] ∧
      (s.end m).1.At classify opened reported (m.source.kind.left level) := by
  have hshown := (not_iff_not.mpr (FrameKind.not_closes_iff m.source level)).mpr
    (not_not.mpr hcloses)
  obtain ⟨hlibrary, hsync⟩ := not_or.mp hshown
  have htop : s.thread.shadowTop.toNat = reported := by
    rw [h.shadowTop]
    omega
  simp only [HookState.end, h.level_eq, FrameKind.left_eq hlevel, if_neg hlibrary, if_neg hsync,
    rbRgStackPop, htop]
  refine ⟨rfl, ⟨h.vmTop, ?_, rfl, h.stack_length, h.agrees⟩⟩
  show s.thread.shadowTop - 1 = _
  rw [h.shadowTop]
  omega

/-- A frame that does not close is hidden. -/
theorem HookState.end_hidden (h : s.At classify opened reported level) {m : RgMethod}
    (hlevel : m.source.kind = .library → 0 < level) (hcloses : ¬ m.source.kind.Closes level) :
    (s.end m).2 = [] ∧ (s.end m).1.At classify opened reported (m.source.kind.left level) := by
  have hhidden := (FrameKind.not_closes_iff m.source level).mpr hcloses
  have hat : ({ s with thread := { s.thread with
      levelDeepIntoThirdPartyLib := (m.source.kind.left level : Int) } } : HookState).At classify
      opened reported (m.source.kind.left level) :=
    ⟨h.vmTop, h.shadowTop, rfl, h.stack_length, h.agrees⟩
  simp only [HookState.end, h.level_eq, FrameKind.left_eq hlevel]
  by_cases hlibrary : m.source = .knownLibrary ∧ (m.source.kind.left level : Int) > 0
  · rw [if_pos hlibrary]
    exact ⟨rfl, hat⟩
  · rw [if_neg hlibrary, if_pos (hhidden.resolve_left hlibrary)]
    exact ⟨rfl, hat⟩

/-- What a return does to the counters, and what it shows. -/
inductive ReturnSpec (classify : Nat → Option MethodSource) (opened reported level : Nat)
    (frame : Frame) (s s' : HookState) (os : List HookOutput) : Prop
  /-- Too many frames are open, none is on the shadow stack, or the frame is ignored. -/
  | skipped :
      rgShadowStackLimit ≤ opened ∨ reported = 0 ∨ frameKind classify frame = .ignored →
      s'.At classify opened reported level → frames os = [] →
      ReturnSpec classify opened reported level frame s s' os
  /-- The frame is hidden. -/
  | hidden : opened < rgShadowStackLimit → frameKind classify frame ≠ .ignored →
      ¬ (frameKind classify frame).Closes level →
      s'.At classify opened reported ((frameKind classify frame).left level) →
      frames os = [] → ReturnSpec classify opened reported level frame s s' os
  /-- The frame is shown and popped. -/
  | shown (m : RgMethod) (rest : Nat) : opened < rgShadowStackLimit → reported = rest + 1 →
      frameKind classify frame ≠ .ignored → (frameKind classify frame).Closes level →
      s'.At classify opened rest ((frameKind classify frame).left level) →
      s.methodinfo.lookup frame.method = some (some m) →
      frames os = [.end m.functionId (s.stackAt rest)] →
      ReturnSpec classify opened reported level frame s s' os

/-- A return touches neither the table nor the memory of the stack. -/
theorem rubyEventReturn_keeps (frame : Frame) (s : HookState) :
    (rubyEventReturn frame s).1.methodinfo = s.methodinfo ∧
      ∀ i, (rubyEventReturn frame s).1.stackAt i = s.stackAt i := by
  have hend : ∀ (m : RgMethod) (s : HookState), (s.end m).1.methodinfo = s.methodinfo ∧
      ∀ i, (s.end m).1.stackAt i = s.stackAt i := by
    intro m s
    simp only [HookState.end, rbRgStackPop]
    split_ifs <;> exact ⟨rfl, fun _ => rfl⟩
  unfold rubyEventReturn
  dsimp only
  split
  · exact ⟨rfl, fun _ => rfl⟩
  · split
    · exact ⟨rfl, fun _ => rfl⟩
    · split
      · exact ⟨rfl, fun _ => rfl⟩
      · split
        · exact ⟨rfl, fun _ => rfl⟩
        · exact hend _ _

/-- **What a return does**, for a frame whose method is known. -/
theorem rubyEventReturn_spec (frame : Frame) (h : s.At classify (opened + 1) reported level)
    (hknows : opened < rgShadowStackLimit → s.Knows frame)
    (hlevel : opened < rgShadowStackLimit → frameKind classify frame = .library → 0 < level) :
    ReturnSpec classify opened reported level frame s (rubyEventReturn frame s).1
      (rubyEventReturn frame s).2 := by
  have hvm : s.thread.vmTop - 1 = (opened : Int) - 1 := by
    rw [h.vmTop]
    omega
  have htop := h.shadowTop
  have hat : ({ s with thread := { s.thread with vmTop := s.thread.vmTop - 1 } } : HookState).At
      classify opened reported level :=
    ⟨hvm, h.shadowTop, h.level_eq, h.stack_length, h.agrees⟩
  unfold rubyEventReturn
  dsimp only
  -- the first guard counts the frames of the VM, the second one those on the shadow stack
  by_cases hopened : rgShadowStackLimit ≤ opened
  · have hdeep : s.thread.vmTop - 1 ≥ (rgShadowStackLimit : Int) - 1 := by omega
    rw [if_pos hdeep]
    exact .skipped (.inl hopened) hat rfl
  · have hdeep : ¬ s.thread.vmTop - 1 ≥ (rgShadowStackLimit : Int) - 1 := by omega
    rw [if_neg hdeep]
    cases reported with
    | zero =>
        have hframeless : s.thread.shadowTop = -1 := htop
        rw [if_pos hframeless]
        exact .skipped (.inr (.inl rfl)) hat rfl
    | succ rest =>
        have hframes : ¬ s.thread.shadowTop = -1 := by omega
        rw [if_neg hframes]
        by_cases hinternal : frame.tracerInternal = true
        · rw [if_pos hinternal]
          exact .skipped (.inr (.inr (if_pos hinternal))) hat rfl
        · -- past the guards, the lookup finds what the call has found
          obtain ⟨entry, hlookup⟩ := (hknows (not_le.mp hopened)).resolve_left hinternal
          have hsource := h.agrees _ _ hlookup
          rw [if_neg hinternal, hlookup, Option.getD_some]
          cases entry with
          | none =>
              have hnone : classify frame.method = none := hsource.symm
              exact .skipped (.inr (.inr (by rw [frameKind, if_neg hinternal, hnone]))) hat rfl
          | some m =>
              have hsome : classify frame.method = some m.source := hsource.symm
              have hkind : frameKind classify frame = m.source.kind := by
                rw [frameKind, if_neg hinternal, hsome]
              have hne : frameKind classify frame ≠ .ignored := by
                rw [hkind]
                cases m.source <;> decide
              have hlevel := hlevel (not_le.mp hopened)
              rw [hkind] at hlevel
              by_cases hcloses : m.source.kind.Closes level
              · obtain ⟨hos, hend⟩ := HookState.end_closes hat hlevel hcloses
                refine .shown m rest (not_le.mp hopened) rfl hne (hkind ▸ hcloses) (hkind ▸ hend)
                  hlookup ?_
                dsimp only
                rw [hos]
                rfl
              · obtain ⟨hos, hend⟩ := HookState.end_hidden hat hlevel hcloses
                refine .hidden (not_le.mp hopened) hne (hkind ▸ hcloses) (hkind ▸ hend) ?_
                dsimp only
                rw [hos]
                rfl

/-- With a full stack of frames of the VM the return shows nothing. -/
theorem rubyEventReturn_of_full (frame : Frame) (h : s.At classify (opened + 1) reported level)
    (hopened : ¬ opened < rgShadowStackLimit) :
    (rubyEventReturn frame s).1.At classify opened reported level ∧
      frames (rubyEventReturn frame s).2 = [] := by
  have hret := rubyEventReturn_spec frame h (fun hlt => absurd hlt hopened)
    fun hlt => absurd hlt hopened
  cases hret with
  | skipped _ hat hos => exact ⟨hat, hos⟩
  | hidden hlt => exact absurd hlt hopened
  | shown _ _ hlt => exact absurd hlt hopened

/-- The return of an ignored frame shows nothing. -/
theorem rubyEventReturn_of_ignored (h : s.At classify (opened + 1) reported level)
    (hknows : s.Knows frame) (hkind : frameKind classify frame = .ignored) :
    (rubyEventReturn frame s).1.At classify opened reported level ∧
      frames (rubyEventReturn frame s).2 = [] := by
  have hret := rubyEventReturn_spec frame h (fun _ => hknows)
    fun _ hlibrary => by simp [hkind] at hlibrary
  cases hret with
  | skipped _ hat hos => exact ⟨hat, hos⟩
  | hidden _ hne => exact absurd hkind hne
  | shown _ _ _ _ hne => exact absurd hkind hne

/-! ## Forests -/

/-- The run over a forest. -/
def runForest (classify : Nat → Option MethodSource) (s : HookState) (forest : CallForest Frame) :
    HookState × List HookOutput :=
  Mealy.run (rbRgTracingHookI classify) s forest.events

/-- Where a run over a node ends. -/
theorem runForest_node (s : HookState) (frame : Frame) (children rest : CallForest Frame) :
    (runForest classify s (.node frame children rest)).1 =
      (runForest classify (rubyEventReturn frame
        (runForest classify (rubyEventCall classify frame s).1 children).1).1 rest).1 := by
  rw [runForest, run_node]
  rfl

/-- What `AllFrames` says of a node. -/
theorem allFrames_node_iff {frame : Frame} {children rest : CallForest Frame} :
    AllFrames (rbRgTracingHookI classify) BracketPair s (.node frame children rest) ↔
      BracketPair (rubyEventCall classify frame s).2
          (rubyEventReturn frame
            (runForest classify (rubyEventCall classify frame s).1 children).1).2 ∧
        AllFrames (rbRgTracingHookI classify) BracketPair (rubyEventCall classify frame s).1
          children ∧
        AllFrames (rbRgTracingHookI classify) BracketPair
          (rubyEventReturn frame
            (runForest classify (rubyEventCall classify frame s).1 children).1).1 rest := Iff.rfl

/-- A frame that shows nothing at its call shows nothing at its return. -/
theorem BracketPair.nil_right {os os' : List HookOutput} (h : BracketPair os os')
    (hos : frames os = []) : frames os' = [] := by
  rcases bracketPair_iff.mp h with ⟨_, _, hshown, -⟩ | ⟨-, hos'⟩
  · rw [hos] at hshown
    cases hshown
  · exact hos'

/-- A frame that shows nothing at its return shows nothing at its call. -/
theorem BracketPair.nil_left {os os' : List HookOutput} (h : BracketPair os os')
    (hos' : frames os' = []) : frames os = [] := by
  rcases bracketPair_iff.mp h with ⟨_, _, -, hshown⟩ | ⟨hos, -⟩
  · rw [hos'] at hshown
    cases hshown
  · exact hos

/-- A frame that shows neither is hidden. -/
theorem bracketPair_nil {os os' : List HookOutput} (hos : frames os = []) (hos' : frames os' = []) :
    BracketPair os os' :=
  bracketPair_iff.mpr (.inr ⟨hos, hos'⟩)

/-- A frame that shows its id twice is shown. -/
theorem bracketPair_shown {os os' : List HookOutput} {functionId : UInt32} {instanceId : UInt64}
    (hos : frames os = [.begin functionId instanceId])
    (hos' : frames os' = [.end functionId functionId]) : BracketPair os os' :=
  bracketPair_iff.mpr (.inl ⟨functionId, instanceId, hos, hos'⟩)

/-- The level inside a library frame is positive. -/
theorem FrameKind.entered_pos {kind : FrameKind} (h : kind = .library) (level : Nat) :
    0 < kind.entered level := by
  rw [entered, if_pos h]
  exact Nat.succ_pos level

/-- Entering does not lower the level. -/
theorem FrameKind.le_entered (kind : FrameKind) (level : Nat) : level ≤ kind.entered level := by
  cases kind with
  | library => exact Nat.le_succ level
  | _ => exact Nat.le_refl level

/-- Leaving a frame of a kind undoes entering it. -/
theorem FrameKind.left_entered (kind : FrameKind) (level : Nat) :
    kind.left (kind.entered level) = level := by
  cases kind <;> rfl

/-- A level that has not fallen inside a frame has not fallen behind it, and if it is the old one
behind it, it was the expected one inside. -/
theorem FrameKind.le_left {kind : FrameKind} {level inside : Nat}
    (h : kind.entered level ≤ inside) :
    level ≤ kind.left inside ∧ (kind.left inside = level → inside = kind.entered level) := by
  cases kind with
  | library =>
      simp only [entered, left, if_true] at h ⊢
      omega
  | _ => exact ⟨h, id⟩

/-- What the tracer reports but does not open is inside a library frame, and does not close either.
-/
theorem FrameKind.inside_of_not_opens {kind : FrameKind} {level : Nat} (hne : kind ≠ .ignored)
    (hopens : ¬ kind.Opens level) : 0 < level ∧ ¬ kind.Closes (kind.entered level) := by
  cases kind with
  | ignored => exact absurd rfl hne
  | ordinary => exact absurd trivial hopens
  | library =>
      simp only [FrameKind.Opens, FrameKind.Closes, FrameKind.entered, if_true] at hopens ⊢
      omega
  | synchronization =>
      simp only [FrameKind.Opens, FrameKind.Closes, FrameKind.entered] at hopens ⊢
      refine ⟨by omega, ?_⟩
      simp only [reduceCtorEq, if_false]
      omega

/-- `Matched` in terms of the guards: a frame that opens is to close, and a hidden library frame is
to be counted on the way out too. -/
theorem matched_node_iff {frame : Frame} {children rest : CallForest Frame} :
    Matched classify opened reported level (.node frame children rest) ↔
      (reported < rgShadowStackLimit →
        ((frameKind classify frame).Opens level → opened < rgShadowStackLimit ∧
          (frameKind classify frame).Closes ((frameKind classify frame).entered level) ∧
          Matched classify (opened + 1) (reported + 1) ((frameKind classify frame).entered level)
            children) ∧
        (¬ (frameKind classify frame).Opens level →
          (frameKind classify frame = .library → opened < rgShadowStackLimit) ∧
          Matched classify (opened + 1) reported ((frameKind classify frame).entered level)
            children)) ∧
      Matched classify opened reported level rest := by
  rw [Matched]
  refine and_congr_left fun _ => forall_congr' fun _ => ?_
  -- kind by kind, at the levels that the guards tell apart
  cases frameKind classify frame with
  | ignored => simp [FrameKind.Opens, FrameKind.entered]
  | ordinary => simp [FrameKind.Opens, FrameKind.Closes, FrameKind.entered]
  | library =>
      by_cases hlevel : level = 0
      · simp [FrameKind.Opens, FrameKind.Closes, FrameKind.entered, hlevel]
      · simp [FrameKind.Opens, FrameKind.entered, hlevel]
  | synchronization =>
      by_cases hlevel : level = 0
      · simp [FrameKind.Opens, FrameKind.Closes, FrameKind.entered, hlevel]
      · by_cases hone : level = 1
        · simp [FrameKind.Opens, FrameKind.Closes, FrameKind.entered, hone]
        · have htwo : ¬ level ≤ 1 := by omega
          simp [FrameKind.Opens, FrameKind.entered, hlevel, hone, htwo]

/-- Behind a full shadow stack nothing is emitted, so there is nothing to match. -/
theorem matched_of_full (opened level : Nat) (forest : CallForest Frame) :
    Matched classify opened rgShadowStackLimit level forest := by
  induction forest generalizing opened level with
  | nil => trivial
  | node frame children rest _ ih => exact ⟨fun hlt => absurd hlt (lt_irrefl _), ih opened level⟩

/-! ## Frames with matching guards are bracketed -/

/-- **The return undoes the call** of a frame whose guards match: there are counters for its
children, and from any state with these counters the return restores the old ones. -/
theorem CallSpec.matched {os : List HookOutput} {children rest : CallForest Frame}
    (hcall : CallSpec classify opened reported level frame s os)
    (hmatched : Matched classify opened reported level (.node frame children rest))
    (hle : reported ≤ opened) (hlimit : reported ≤ rgShadowStackLimit)
    (hlevel : 0 < level → 0 < reported) :
    ∃ reported' level', reported ≤ reported' ∧ reported' ≤ opened + 1 ∧
      reported' ≤ rgShadowStackLimit ∧ (0 < level' → 0 < reported') ∧
      s.At classify (opened + 1) reported' level' ∧
      Matched classify (opened + 1) reported' level' children ∧
      ∀ s' : HookState, s'.At classify (opened + 1) reported' level' → s.Grows s' →
        (∀ i < reported', s'.stackAt i = s.stackAt i) →
        BracketPair os (rubyEventReturn frame s').2 ∧
          (rubyEventReturn frame s').1.At classify opened reported level := by
  obtain ⟨hframe, -⟩ := matched_node_iff.mp hmatched
  cases hcall with
  | full hfull hat hos =>
      refine ⟨reported, level, le_rfl, Nat.le_succ_of_le hle, hlimit, hlevel, hat,
        hfull ▸ matched_of_full _ _ children, ?_⟩
      intro s' hat' _ _
      -- with a full shadow stack, at least as many frames of the VM are open
      have hopened : ¬ opened < rgShadowStackLimit := by omega
      obtain ⟨hat'', hos'⟩ := rubyEventReturn_of_full frame hat' hopened
      exact ⟨bracketPair_nil hos hos', hat''⟩
  | ignored hlt hkind hat hknows hos =>
      have hnot : ¬ (frameKind classify frame).Opens level := by
        rw [hkind]
        exact id
      have hentered : (frameKind classify frame).entered level = level := by rw [hkind]; rfl
      obtain ⟨-, hchildren⟩ := (hframe hlt).2 hnot
      rw [hentered] at hchildren
      refine ⟨reported, level, le_rfl, Nat.le_succ_of_le hle, hlimit, hlevel, hat, hchildren, ?_⟩
      intro s' hat' hgrows _
      -- the return ignores the frame too, for the method is the same
      obtain ⟨hat'', hos'⟩ := rubyEventReturn_of_ignored hat' (hgrows.knows hknows) hkind
      exact ⟨bracketPair_nil hos hos', hat''⟩
  | hidden hlt hne hopens hat hknows hos =>
      obtain ⟨hopened, hchildren⟩ := (hframe hlt).2 hopens
      -- a frame is hidden only inside a library, where the stack is not empty
      have hpos := FrameKind.inside_of_not_opens hne hopens
      refine ⟨reported, _, le_rfl, Nat.le_succ_of_le hle, hlimit, fun _ => hlevel hpos.1, hat,
        hchildren, ?_⟩
      intro s' hat' hgrows _
      have hret := rubyEventReturn_spec frame hat'
        (fun _ => hgrows.knows hknows) fun _ hlibrary => FrameKind.entered_pos hlibrary level
      cases hret with
      | skipped hwhy hat'' hos' =>
          refine ⟨bracketPair_nil hos hos', ?_⟩
          -- if the return is skipped, the call has not raised the level
          have hstay : (frameKind classify frame).entered level = level := by
            by_cases hlibrary : frameKind classify frame = .library
            · have hreported := hlevel hpos.1
              have hlt' := hopened hlibrary
              rcases hwhy with hdeep | hzero | hignored
              · exact absurd hlt' (not_lt.mpr hdeep)
              · exact absurd hreported (by omega)
              · exact absurd hignored hne
            · exact if_neg hlibrary
          rwa [hstay] at hat''
      | hidden _ _ _ hat'' hos' =>
          rw [FrameKind.left_entered] at hat''
          exact ⟨bracketPair_nil hos hos', hat''⟩
      | shown _ _ _ _ _ hcloses => exact absurd hcloses hpos.2
  | shown m hlt hne hopens hat hlookup hstack hos =>
      -- the return pops what the call has pushed: the children have left it there
      obtain ⟨hopened, hcloses, hchildren⟩ := (hframe hlt).1 hopens
      refine ⟨reported + 1, _, Nat.le_succ _, Nat.succ_le_succ hle, hlt,
        fun _ => Nat.succ_pos _, hat, hchildren, ?_⟩
      intro s' hat' hgrows hsame
      have hret := rubyEventReturn_spec frame hat'
        (fun _ => .inr ⟨_, hgrows _ _ hlookup⟩) fun _ hlibrary => FrameKind.entered_pos hlibrary level
      cases hret with
      | skipped hwhy _ _ =>
          rcases hwhy with hdeep | hzero | hignored
          · exact absurd hopened (not_lt.mpr hdeep)
          · exact absurd hzero (Nat.succ_ne_zero _)
          · exact absurd hignored hne
      | hidden _ _ hnot => exact absurd hcloses hnot
      | shown m' top _ htop _ _ hat'' hlookup' hos' =>
          obtain rfl : reported = top := Nat.succ.inj htop
          have hm : some (some m') = some (some m) := hlookup'.symm.trans (hgrows _ _ hlookup)
          obtain rfl : m' = m := Option.some.inj (Option.some.inj hm)
          rw [FrameKind.left_entered] at hat''
          rw [hsame reported (Nat.lt_succ_self _), hstack] at hos'
          exact ⟨bracketPair_shown hos hos', hat''⟩

/-- **Matching guards bracket every frame**, restore the counters and leave the stack below alone.
-/
theorem allFrames_of_matched {forest : CallForest Frame}
    (hmatched : Matched classify opened reported level forest)
    (hat : s.At classify opened reported level) (hle : reported ≤ opened)
    (hlimit : reported ≤ rgShadowStackLimit) (hlevel : 0 < level → 0 < reported) :
    AllFrames (rbRgTracingHookI classify) BracketPair s forest ∧
      (runForest classify s forest).1.At classify opened reported level ∧
      s.Grows (runForest classify s forest).1 ∧
      ∀ i < reported, (runForest classify s forest).1.stackAt i = s.stackAt i := by
  -- over the forest: the call sets up the counters of the children, the return takes them back
  induction forest generalizing opened reported level s with
  | nil => exact ⟨trivial, hat, fun _ _ h => h, fun _ _ => rfl⟩
  | node frame children rest ihc ihr =>
      have hrest := (matched_node_iff.mp hmatched).2
      obtain ⟨hcall, hgrows₁, hbelow₁⟩ := rubyEventCall_spec hat hlimit frame
      rw [allFrames_node_iff, runForest_node]
      generalize rubyEventCall classify frame s = called at *
      obtain ⟨s₁, os₁⟩ := called
      obtain ⟨reported', level', hmore, hle', hlimit', hlevel', hat₁, hinside, hreturn⟩ :=
        hcall.matched hmatched hle hlimit hlevel
      obtain ⟨hchildren, hat₂, hgrows₂, hbelow₂⟩ := ihc hinside hat₁ hle' hlimit' hlevel'
      obtain ⟨hpair, hat₃⟩ := hreturn _ hat₂ hgrows₂ hbelow₂
      obtain ⟨htable, hstack⟩ := rubyEventReturn_keeps frame (runForest classify s₁ children).1
      obtain ⟨hafter, hat₄, hgrows₄, hbelow₄⟩ := ihr hrest hat₃ hle hlimit hlevel
      refine ⟨⟨hpair, hchildren, hafter⟩, hat₄, ?_, ?_⟩
      · intro method entry h
        apply hgrows₄
        rw [htable]
        exact hgrows₂ _ _ (hgrows₁ _ _ h)
      · intro i hi
        rw [hbelow₄ i hi, hstack, hbelow₂ i (hi.trans_le hmore), hbelow₁ i hi]

/-! ## Bracketed frames have matching guards -/

/-- **The counters after a bracketed forest.** The frames on the shadow stack are those from before,
the library level has not fallen, and where it is the old one the guards match. -/
theorem matched_of_allFrames {forest : CallForest Frame}
    (hall : AllFrames (rbRgTracingHookI classify) BracketPair s forest)
    (hat : s.At classify opened reported level) (hle : reported ≤ opened)
    (hlimit : reported ≤ rgShadowStackLimit) :
    ∃ level', (runForest classify s forest).1.At classify opened reported level' ∧
      s.Grows (runForest classify s forest).1 ∧ level ≤ level' ∧
      (level' = level → Matched classify opened reported level forest) := by
  -- over the forest, with any counters: what the children do to the level is not known yet
  induction forest generalizing opened reported level s with
  | nil => exact ⟨level, hat, fun _ _ h => h, le_rfl, fun _ => trivial⟩
  | node frame children rest ihc ihr =>
      obtain ⟨hcall, hgrows₁, -⟩ := rubyEventCall_spec hat hlimit frame
      rw [allFrames_node_iff] at hall
      rw [runForest_node]
      generalize rubyEventCall classify frame s = called at *
      obtain ⟨s₁, os₁⟩ := called
      obtain ⟨hpair, hchildren, hafter⟩ := hall
      obtain ⟨htable, -⟩ := rubyEventReturn_keeps frame (runForest classify s₁ children).1
      -- once the counters behind the return are known, the rest of the forest follows
      suffices hret : ∃ level₃,
          (rubyEventReturn frame (runForest classify s₁ children).1).1.At classify opened reported
            level₃ ∧ s₁.Grows (runForest classify s₁ children).1 ∧ level ≤ level₃ ∧
          (level₃ = level → ∀ rest, Matched classify opened reported level rest →
            Matched classify opened reported level (.node frame children rest)) by
        obtain ⟨level₃, hat₃, hgrows₂, hlevel₃, hmatched₃⟩ := hret
        obtain ⟨level₄, hat₄, hgrows₄, hlevel₄, hmatched₄⟩ := ihr hafter hat₃ hle hlimit
        refine ⟨level₄, hat₄, ?_, hlevel₃.trans hlevel₄, ?_⟩
        · intro method entry h
          apply hgrows₄
          rw [htable]
          exact hgrows₂ _ _ (hgrows₁ _ _ h)
        · intro heq
          have hback : level₃ = level := by omega
          subst hback
          exact hmatched₃ rfl rest (hmatched₄ heq)
      cases hcall with
      | full hfull hat₁ hos =>
          -- nothing is to match behind a full shadow stack
          have hopened : ¬ opened < rgShadowStackLimit := by omega
          obtain ⟨level₂, hat₂, hgrows₂, hlevel₂, -⟩ :=
            ihc hchildren hat₁ (Nat.le_succ_of_le hle) hlimit
          obtain ⟨hat₃, -⟩ := rubyEventReturn_of_full frame hat₂ hopened
          refine ⟨level₂, hat₃, hgrows₂, hlevel₂, fun _ rest hrest => ⟨?_, hrest⟩⟩
          intro hlt
          exact absurd hfull hlt.ne
      | ignored hlt hkind hat₁ hknows hos =>
          -- an ignored frame leaves the level to its children
          obtain ⟨level₂, hat₂, hgrows₂, hlevel₂, hmatched₂⟩ :=
            ihc hchildren hat₁ (Nat.le_succ_of_le hle) hlimit
          obtain ⟨hat₃, -⟩ := rubyEventReturn_of_ignored hat₂ (hgrows₂.knows hknows) hkind
          refine ⟨level₂, hat₃, hgrows₂, hlevel₂, fun heq rest hrest => ?_⟩
          refine matched_node_iff.mpr ⟨fun _ => ⟨fun hopens => ?_, fun _ => ⟨?_, ?_⟩⟩, hrest⟩
          · rw [hkind] at hopens
            exact hopens.elim
          · intro hlibrary
            rw [hkind] at hlibrary
            exact absurd hlibrary (by decide)
          · rw [hkind]
            exact hmatched₂ heq
      | hidden hlt hne hopens hat₁ hknows hos =>
          obtain ⟨level₂, hat₂, hgrows₂, hlevel₂, hmatched₂⟩ :=
            ihc hchildren hat₁ (Nat.le_succ_of_le hle) hlimit
          have hret := rubyEventReturn_spec frame hat₂
            (fun _ => hgrows₂.knows hknows)
            fun _ hlibrary => (FrameKind.entered_pos hlibrary level).trans_le hlevel₂
          cases hret with
          | skipped _ hat₃ _ =>
              refine ⟨level₂, hat₃, hgrows₂, (FrameKind.le_entered _ level).trans hlevel₂,
                fun heq rest hrest => ?_⟩
              refine matched_node_iff.mpr ⟨fun _ => ⟨fun h => absurd h hopens,
                fun _ => ⟨?_, ?_⟩⟩, hrest⟩
              · -- the level of a library frame would not have come back
                intro hlibrary
                rw [heq, hlibrary] at hlevel₂
                simp only [FrameKind.entered, if_true] at hlevel₂
                omega
              · have hentered : level₂ = (frameKind classify frame).entered level := by
                  have hentered := FrameKind.le_entered (frameKind classify frame) level
                  omega
                exact hmatched₂ hentered
          | hidden hopened _ _ hat₃ _ =>
              obtain ⟨hleft, hback⟩ := FrameKind.le_left hlevel₂
              refine ⟨_, hat₃, hgrows₂, hleft, fun heq rest hrest => ?_⟩
              exact matched_node_iff.mpr ⟨fun _ => ⟨fun h => absurd h hopens,
                fun _ => ⟨fun _ => hopened, hmatched₂ (hback heq)⟩⟩, hrest⟩
          | shown _ _ _ _ _ _ _ _ hos' =>
              have hnil := hpair.nil_right hos
              rw [hos'] at hnil
              exact absurd hnil (by simp)
      | shown m hlt hne hopens hat₁ hlookup _ hos =>
          obtain ⟨level₂, hat₂, hgrows₂, hlevel₂, hmatched₂⟩ :=
            ihc hchildren hat₁ (Nat.succ_le_succ hle) hlt
          have hret := rubyEventReturn_spec frame hat₂
            (fun _ => .inr ⟨_, hgrows₂ _ _ hlookup⟩)
            fun _ hlibrary => (FrameKind.entered_pos hlibrary level).trans_le hlevel₂
          -- the frame has begun, so it has to end
          have hnot : ∀ os', BracketPair os₁ os' → frames os' ≠ [] := by
            intro os' h hos'
            have hnil := h.nil_left hos'
            rw [hos] at hnil
            exact absurd hnil (by simp)
          cases hret with
          | skipped _ _ hos' => exact absurd hos' (hnot _ hpair)
          | hidden _ _ _ _ hos' => exact absurd hos' (hnot _ hpair)
          | shown m' top hopened htop _ hcloses hat₃ _ _ =>
              obtain rfl : reported = top := Nat.succ.inj htop
              obtain ⟨hleft, hback⟩ := FrameKind.le_left hlevel₂
              refine ⟨_, hat₃, hgrows₂, hleft, fun heq rest hrest => ?_⟩
              exact matched_node_iff.mpr ⟨fun _ => ⟨fun _ => ⟨hopened, hback heq ▸ hcloses,
                hmatched₂ (hback heq)⟩, fun h => absurd hopens h⟩, hrest⟩

/-! ## Bracketing -/

/-- The hook before the first event of a trace, with what the tracer knows of methods. -/
def HookState.fresh (methodinfo : MethodTable) (methods : UInt32) : HookState where
  methodinfo := methodinfo
  methods := methods
  thread := ShadowThread.fresh

/-- The counters at the start of a trace. -/
theorem HookState.fresh_at {methodinfo : MethodTable} (methods : UInt32)
    (hagrees : methodinfo.Agrees classify) : (fresh methodinfo methods).At classify 0 0 0 :=
  ⟨rfl, rfl, rfl, List.length_replicate, hagrees⟩

/-- **Bracketing.** From a fresh shadow thread, the hook brackets the frames of a call forest if and
only if the guards match for all of them. -/
theorem bracketsFrames_iff (classify : Nat → Option MethodSource) (methodinfo : MethodTable)
    (methods : UInt32) (hagrees : methodinfo.Agrees classify) (forest : CallForest Frame) :
    BracketsFrames classify (.fresh methodinfo methods) forest ↔
      Matched classify 0 0 0 forest := by
  have hat := HookState.fresh_at methods hagrees
  constructor
  · intro h
    obtain ⟨level, hat', -, -, hmatched⟩ :=
      matched_of_allFrames h.frames hat le_rfl (Nat.zero_le _)
    apply hmatched
    have hlevel : (level : Int) = 0 := hat'.level_eq.symm.trans h.level
    exact Int.natCast_eq_zero.mp hlevel
  · intro hmatched
    obtain ⟨hframes, hat', -, -⟩ := allFrames_of_matched hmatched hat le_rfl (Nat.zero_le _) id
    exact ⟨hframes, exists_events_of_allFrames (hframes.imp fun _ _ => BracketPair.paired),
      hat'.shadowTop, hat'.vmTop, hat'.level_eq⟩

/-- A classification: method 0 belongs to a known library, method 1 waits for synchronization, and
method 2 is user code. -/
def threeMethods (method : Nat) : Option MethodSource :=
  [MethodSource.knownLibrary, .waitForSynchronization, .userCode][method]?

/-- A call of one of these methods. -/
def frameOf (method : Nat) : Frame where
  tracerInternal := false
  method := method
  instanceId := 0
  stale := none

/-- User code that calls a library, which calls itself, and then waits for synchronization. -/
theorem bracketsFrames_user :
    BracketsFrames threeMethods (.fresh [] 0)
      (.node (frameOf 2) (.node (frameOf 0) (.node (frameOf 0) .nil .nil)
        (.node (frameOf 1) .nil .nil)) .nil) :=
  (bracketsFrames_iff threeMethods [] 0 (fun _ _ h => by simp at h) _).mpr (by
    simp [Matched, frameKind, frameOf, threeMethods, MethodSource.kind, rgShadowStackLimit])

/-- A library method that waits for synchronization: the wait begins and does not end. -/
theorem not_bracketsFrames_library :
    ¬ BracketsFrames threeMethods (.fresh [] 0)
      (.node (frameOf 0) (.node (frameOf 1) .nil .nil) .nil) :=
  fun h => absurd h.frames (by decide)

end RaygunApm
