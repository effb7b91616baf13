import RaygunApm.Hook.Accesses
import RaygunApm.Hook.CallTree

/-! # The shadow stack in flight

What the hook has on its shadow stack can be said from the frames that are open, without the hook:
`stackView` takes from them the ones that are shown, and the library level. The hook agrees with it
after every event, exceptions included, and so does whoever keeps a stack of what it has read,
exactly as long as the guards fit the frames that return (`followsCallStack_iff`). -/

namespace RaygunApm

open CallForest

/-! ## The frames that are open -/

/-- What the hook is to know of the open frames, the innermost first. -/
structure StackView where
  /-- The frames that are shown. -/
  frames : List Frame
  /-- The library level. -/
  level : Nat

/-- One more frame is entered. -/
def StackView.enter (classify : Nat → Option MethodSource) (frame : Frame) (view : StackView) :
    StackView :=
  if view.frames.length < rgShadowStackLimit then
    { frames := if (frameKind classify frame).Opens view.level then frame :: view.frames else view.frames
      level := (frameKind classify frame).entered view.level }
  else view

/-- The view of the open frames. -/
def stackView (classify : Nat → Option MethodSource) (stack : List Frame) : StackView :=
  stack.foldr (StackView.enter classify) ⟨[], 0⟩

/-- A frame is shown when it is called inside the open ones. -/
def Shows (classify : Nat → Option MethodSource) (stack : List Frame) (frame : Frame) : Prop :=
  (stackView classify stack).frames.length < rgShadowStackLimit ∧
    (frameKind classify frame).Opens (stackView classify stack).level

instance (classify : Nat → Option MethodSource) (stack : List Frame) (frame : Frame) :
    Decidable (Shows classify stack frame) :=
  inferInstanceAs (Decidable (_ ∧ _))

/-- The id of the innermost frame that is shown, or what is in front of the stack. -/
def innermost (classify : Nat → Option MethodSource) (functionId : Nat → UInt32) (stack : List Frame)
    (before : UInt32) : UInt32 :=
  match (stackView classify stack).frames with
  | [] => before
  | frame :: _ => functionId frame.method

/-- The frames that are open after an event. -/
def openFrames (stack : List Frame) : ThreadEvent → List Frame
  | .call frame => frame :: stack
  | .ret _ => stack.tail
  | .raise _ => stack

/-- The call stack of a thread, with what is to be seen of it: the frames that are shown, and the
exceptions outside of the entrypoint and the libraries. -/
def callStackStep (classify : Nat → Option MethodSource) (functionId : Nat → UInt32)
    (stack : List Frame) (e : ThreadEvent) : List Frame × List ThreadOutput :=
  (openFrames stack e,
    match e, stack with
    | .call frame, _ =>
        if Shows classify stack frame then [.hook (.begin (functionId frame.method) frame.instanceId)]
        else []
    | .ret _, [] => []
    | .ret _, frame :: outer =>
        if Shows classify outer frame then
          [.hook (.end (functionId frame.method) (functionId frame.method))]
        else []
    | .raise raised, _ =>
        if raised.fatal = true ∨
            innermost classify functionId stack raised.before = rgTraceEntrypointFrameId ∨
            0 < (stackView classify stack).level then []
        else [.exceptionThrown raised.exceptionId])

/-- The call stack of the VM by itself. -/
def vmStep (stack : List Frame) (e : ThreadEvent) : List Frame × List ThreadOutput :=
  (openFrames stack e, [])

/-- A return is of the innermost frame. -/
def ReturnsInnermost : List Frame → ThreadEvent → Prop
  | [], .ret _ => False
  | called :: _, .ret frame =>
      frame.method = called.method ∧ frame.tracerInternal = called.tracerInternal
  | _, _ => True

instance : (stack : List Frame) → (e : ThreadEvent) → Decidable (ReturnsInnermost stack e)
  | [], .ret _ => isFalse id
  | _ :: _, .ret _ => inferInstanceAs (Decidable (_ ∧ _))
  | [], .call _ | _ :: _, .call _ | [], .raise _ | _ :: _, .raise _ => isTrue trivial

/-- The guards on the way out fit those on the way in, for a frame called inside the open ones. -/
def Fits (classify : Nat → Option MethodSource) (stack : List Frame) (frame : Frame) : Prop :=
  (stackView classify stack).frames.length < rgShadowStackLimit →
    ((frameKind classify frame).Opens (stackView classify stack).level →
      stack.length < rgShadowStackLimit ∧
        (frameKind classify frame).Closes
          ((frameKind classify frame).entered (stackView classify stack).level)) ∧
    (frameKind classify frame = .library → stack.length < rgShadowStackLimit)

/-- The guards fit the frame that returns. -/
def ReturnFits (classify : Nat → Option MethodSource) : List Frame → ThreadEvent → Prop
  | called :: outer, .ret _ => Fits classify outer called
  | _, _ => True

instance FrameKind.decidableCloses (kind : FrameKind) (level : Nat) : Decidable (kind.Closes level) := by
  cases kind <;> unfold FrameKind.Closes <;> infer_instance

instance (classify : Nat → Option MethodSource) (stack : List Frame) (frame : Frame) :
    Decidable (Fits classify stack frame) :=
  inferInstanceAs (Decidable (_ → _ ∧ _))

instance (classify : Nat → Option MethodSource) : (stack : List Frame) → (e : ThreadEvent) →
    Decidable (ReturnFits classify stack e)
  | called :: outer, .ret _ => inferInstanceAs (Decidable (Fits classify outer called))
  | [], .ret _ | [], .call _ | _ :: _, .call _ | [], .raise _ | _ :: _, .raise _ => isTrue trivial

/-- The ids of the frames that are shown. -/
def shownIds (classify : Nat → Option MethodSource) (functionId : Nat → UInt32) (stack : List Frame) :
    List UInt32 :=
  (stackView classify stack).frames.map fun frame => functionId frame.method

/-! ## The property -/

/-- What is seen of an output: neither the accesses nor the declarations. -/
def ThreadOutput.seen (o : ThreadOutput) : List ThreadOutput :=
  match o with
  | .access _ => []
  | .hook output => if output.isFrame then [o] else []
  | .exceptionThrown _ => [o]

/-- The entries of the shadow stack, the innermost first. -/
def ShadowThread.entries (thread : ShadowThread) : List UInt32 :=
  (thread.shadowStack.take (thread.shadowTop + 1).toNat).reverse

/-- A reader of the outputs that keeps the frames it is in. It accepts the end of the innermost one
only, and no exception on the entrypoint. -/
def readOutput (within : List UInt32) : ThreadOutput → Option (List UInt32)
  | .hook (.begin functionId _) => some (functionId :: within)
  | .hook (.end functionId popped) =>
      match within with
      | [] => none
      | top :: outer => if functionId = top ∧ popped = top then some outer else none
  | .exceptionThrown _ => if within.head? = some rgTraceEntrypointFrameId then none else some within
  | .access _ | .hook (.methodinfo _ _) => some within

/-- The thread is where the open frames say: the shadow stack holds those of the view, the others
are only counted. -/
structure HookState.Mirrors (classify : Nat → Option MethodSource) (functionId : Nat → UInt32)
    (stack : List Frame) (s : HookState) : Prop where
  entries : s.thread.entries = shownIds classify functionId stack
  level : s.thread.levelDeepIntoThirdPartyLib = (stackView classify stack).level
  vmTop : s.thread.vmTop = (stack.length : Int) - 1

/-- The hook agrees with the call stack under these ids: it has shown what is to be seen of the
stack, mirrors it, and a reader is in the frames that are on the shadow stack. -/
structure AgreesWithStack (classify : Nat → Option MethodSource) (functionId : Nat → UInt32)
    (hook : HookState × List ThreadOutput) (stack : List Frame × List ThreadOutput) : Prop where
  seen : hook.2.flatMap ThreadOutput.seen = stack.2
  mirrors : hook.1.Mirrors classify functionId stack.1
  read : hook.2.foldlM readOutput [] = some hook.1.thread.entries

/-- After the events, the hook agrees with the call stack under the ids of its table. -/
def FollowsCallStack (classify : Nat → Option MethodSource) (s : HookState) (events : List ThreadEvent) :
    Prop :=
  let hook := Mealy.run (threadStep classify) s events
  let functionId := hook.1.methodinfo.functionId
  AgreesWithStack classify functionId hook (Mealy.run (callStackStep classify functionId) [] events)

/-! ## The view -/

variable {classify : Nat → Option MethodSource} {functionId : Nat → UInt32} {opened reported level : Nat}
  {s s' : HookState} {stack outer : List Frame} {frame called : Frame}

/-- Calling a frame enters it into the view of the frames below. -/
theorem stackView_cons (frame : Frame) (stack : List Frame) :
    stackView classify (frame :: stack) = (stackView classify stack).enter classify frame := rfl

/-- Behind a full shadow stack the view stays as it is. -/
theorem stackView_of_full (hfull : ¬ (stackView classify stack).frames.length < rgShadowStackLimit) :
    stackView classify (frame :: stack) = stackView classify stack := by
  rw [stackView_cons, StackView.enter, if_neg hfull]

/-- A frame that is shown is on top of the view. -/
theorem stackView_of_shows (hshows : Shows classify stack frame) :
    stackView classify (frame :: stack) =
      ⟨frame :: (stackView classify stack).frames,
        (frameKind classify frame).entered (stackView classify stack).level⟩ := by
  rw [stackView_cons, StackView.enter, if_pos hshows.1, if_pos hshows.2]

/-- A frame that does not open counts for the level at most. -/
theorem stackView_of_not_opens (hlt : (stackView classify stack).frames.length < rgShadowStackLimit)
    (hopens : ¬ (frameKind classify frame).Opens (stackView classify stack).level) :
    stackView classify (frame :: stack) =
      ⟨(stackView classify stack).frames,
        (frameKind classify frame).entered (stackView classify stack).level⟩ := by
  rw [stackView_cons, StackView.enter, if_pos hlt, if_neg hopens]

/-- A frame that is not shown leaves those that are. -/
theorem stackView_of_not_shows (hshows : ¬ Shows classify stack frame) :
    (stackView classify (frame :: stack)).frames = (stackView classify stack).frames := by
  by_cases hlt : (stackView classify stack).frames.length < rgShadowStackLimit
  · rw [stackView_of_not_opens hlt fun hopens => hshows ⟨hlt, hopens⟩]
  · rw [stackView_of_full hlt]

/-- A frame that is shown puts its id in front of the ids of the frames below. -/
theorem shownIds_of_shows (functionId : Nat → UInt32) (hshows : Shows classify stack frame) :
    shownIds classify functionId (frame :: stack)
      = functionId frame.method :: shownIds classify functionId stack := by
  rw [shownIds, stackView_of_shows hshows]
  rfl

/-- A frame that is not shown leaves the ids to the frames below. -/
theorem shownIds_of_not_shows (functionId : Nat → UInt32) (hshows : ¬ Shows classify stack frame) :
    shownIds classify functionId (frame :: stack) = shownIds classify functionId stack := by
  rw [shownIds, stackView_of_not_shows hshows]
  rfl

/-- No more frames are shown than are open. -/
theorem length_stackView_le (classify : Nat → Option MethodSource) (stack : List Frame) :
    (stackView classify stack).frames.length ≤ stack.length := by
  induction stack with
  | nil => exact le_rfl
  | cons frame outer ih =>
      rw [stackView_cons, StackView.enter]
      split_ifs
      · exact Nat.succ_le_succ ih
      · exact Nat.le_succ_of_le ih
      · exact Nat.le_succ_of_le ih

/-- The view fits onto the shadow stack. -/
theorem length_stackView_le_limit (classify : Nat → Option MethodSource) (stack : List Frame) :
    (stackView classify stack).frames.length ≤ rgShadowStackLimit := by
  induction stack with
  | nil => exact Nat.zero_le _
  | cons frame outer ih =>
      rw [stackView_cons, StackView.enter]
      split_ifs with hlt
      · exact hlt
      · exact ih
      · exact ih

/-- Inside a library there is a frame that is shown. -/
theorem stackView_frames_ne_nil (hlevel : 0 < (stackView classify stack).level) :
    0 < (stackView classify stack).frames.length := by
  induction stack with
  | nil => exact absurd hlevel (lt_irrefl 0)
  | cons frame outer ih =>
      by_cases hlt : (stackView classify outer).frames.length < rgShadowStackLimit
      · by_cases hopens : (frameKind classify frame).Opens (stackView classify outer).level
        · rw [stackView_of_shows ⟨hlt, hopens⟩]
          exact Nat.succ_pos _
        · -- a frame that is hidden is inside a library already, and one that is ignored enters none
          rw [stackView_of_not_opens hlt hopens] at hlevel ⊢
          refine ih ?_
          by_cases hkind : frameKind classify frame = .ignored
          · rwa [hkind] at hlevel
          · exact (FrameKind.inside_of_not_opens hkind hopens).1
      · rw [stackView_of_full hlt] at hlevel ⊢
        exact ih hlevel

/-! ## The entries of the shadow stack -/

/-- The entries of the shadow stack, top first, are those at the indices below the counter. -/
theorem HookState.At.entries_eq (h : s.At classify opened reported level)
    (hle : reported ≤ rgShadowStackLimit) :
    s.thread.entries = ((List.range reported).map s.stackAt).reverse := by
  have htop : (s.thread.shadowTop + 1).toNat = reported := by
    rw [h.shadowTop]
    omega
  have hlength := h.stack_length
  rw [ShadowThread.entries, htop]
  congr 1
  refine List.ext_getElem ?_ fun i hi _ => ?_
  · rw [List.length_take, List.length_map, List.length_range, hlength, Nat.min_eq_left hle]
  · rw [List.length_take] at hi
    rw [List.getElem_take, List.getElem_map, List.getElem_range, HookState.stackAt,
      List.getD_eq_getElem?_getD, List.getElem?_eq_getElem (lt_of_lt_of_le hi (Nat.min_le_right _ _)),
      Option.getD_some]

/-- With one entry more, the others as they were. -/
theorem HookState.At.entries_succ {opened' level' : Nat} (h : s.At classify opened reported level)
    (h' : s'.At classify opened' (reported + 1) level') (hlt : reported < rgShadowStackLimit)
    (hbelow : ∀ i < reported, s'.stackAt i = s.stackAt i) :
    s'.thread.entries = s'.stackAt reported :: s.thread.entries := by
  rw [h'.entries_eq hlt, h.entries_eq hlt.le, List.range_succ, List.map_append, List.reverse_append]
  refine congrArg (s'.stackAt reported :: ·) (congrArg List.reverse ?_)
  exact List.map_congr_left fun i hi => hbelow i (List.mem_range.mp hi)

/-- With as many entries, and these as they were. -/
theorem HookState.At.entries_congr {opened' level' : Nat} (h : s.At classify opened reported level)
    (h' : s'.At classify opened' reported level') (hle : reported ≤ rgShadowStackLimit)
    (hbelow : ∀ i < reported, s'.stackAt i = s.stackAt i) :
    s'.thread.entries = s.thread.entries := by
  rw [h'.entries_eq hle, h.entries_eq hle]
  refine congrArg List.reverse ?_
  exact List.map_congr_left fun i hi => hbelow i (List.mem_range.mp hi)

/-! ## One step -/

/-- The hook knows the open frames for which the return will look. -/
def HookState.KnowsOpen (s : HookState) : List Frame → Prop
  | [] => True
  | frame :: outer => (outer.length < rgShadowStackLimit → s.Knows frame) ∧ s.KnowsOpen outer

/-- The open frames stay known as the table grows. -/
theorem HookState.KnowsOpen.grows (hknows : s.KnowsOpen stack) (hgrows : s.Grows s') :
    s'.KnowsOpen stack := by
  induction stack with
  | nil => trivial
  | cons frame outer ih =>
      obtain ⟨hframe, houter⟩ := hknows
      exact ⟨fun hlt => hgrows.knows (hframe hlt), ih houter⟩

/-- The hook is at the view of the open frames. -/
structure HookState.Tracks (classify : Nat → Option MethodSource) (functionId : Nat → UInt32)
    (stack : List Frame) (s : HookState) : Prop where
  counters : s.At classify stack.length (stackView classify stack).frames.length
    (stackView classify stack).level
  entries : s.thread.entries = shownIds classify functionId stack
  known : s.KnowsOpen stack

/-- A hook that tracks the call stack mirrors it on the shadow stack. -/
theorem HookState.Tracks.mirrors (h : s.Tracks classify functionId stack) :
    s.Mirrors classify functionId stack :=
  ⟨h.entries, h.counters.level_eq, h.counters.vmTop⟩

/-- **A call** shows what it should, and the hook tracks the call stack behind it. -/
theorem tracks_rubyEventCall {table : MethodTable} (h : s.Tracks classify table.functionId stack)
    (hwithin : (rubyEventCall classify frame s).1.methodinfo.Within table) :
    frames (rubyEventCall classify frame s).2 = (if Shows classify stack frame then
        [.begin (table.functionId frame.method) frame.instanceId] else []) ∧
      (rubyEventCall classify frame s).1.Tracks classify table.functionId (frame :: stack) := by
  have hle := length_stackView_le_limit classify stack
  obtain ⟨hcall, hgrows, hbelow⟩ := rubyEventCall_spec h.counters hle frame
  have hknown := h.known.grows hgrows
  generalize rubyEventCall classify frame s = ran at *
  obtain ⟨s', os⟩ := ran
  dsimp only at *
  cases hcall with
  | full hfull hat hos =>
      have hfull' : ¬ (stackView classify stack).frames.length < rgShadowStackLimit := hfull.not_lt
      have hnot : ¬ Shows classify stack frame := fun hshows => hfull' hshows.1
      have hdeep := length_stackView_le classify stack
      refine ⟨by rw [hos, if_neg hnot], ?_, ?_, fun hlt => ?_, hknown⟩
      · rwa [stackView_of_full hfull']
      · rw [shownIds_of_not_shows _ hnot, h.counters.entries_congr hat hle hbelow, h.entries]
      · omega
  | ignored hlt hkind hat hknows hos =>
      have hopens := FrameKind.not_opens_of_ignored hkind (stackView classify stack).level
      have hnot : ¬ Shows classify stack frame := fun hshows => hopens hshows.2
      have hentered : (frameKind classify frame).entered (stackView classify stack).level
          = (stackView classify stack).level := by
        rw [hkind]
        rfl
      refine ⟨by rw [hos, if_neg hnot], ?_, ?_, fun _ => hknows, hknown⟩
      · rwa [stackView_of_not_opens hlt hopens, hentered]
      · rw [shownIds_of_not_shows _ hnot, h.counters.entries_congr hat hle hbelow, h.entries]
  | hidden hlt hne hopens hat hknows hos =>
      have hnot : ¬ Shows classify stack frame := fun hshows => hopens hshows.2
      refine ⟨by rw [hos, if_neg hnot], ?_, ?_, fun _ => hknows, hknown⟩
      · rwa [stackView_of_not_opens hlt hopens]
      · rw [shownIds_of_not_shows _ hnot, h.counters.entries_congr hat hle hbelow, h.entries]
  | shown m hlt hne hopens hat hlookup hstack hos =>
      have hid := MethodTable.functionId_eq (hwithin _ _ hlookup)
      refine ⟨by rw [hos, if_pos ⟨hlt, hopens⟩, hid], ?_, ?_, fun _ => .inr ⟨_, hlookup⟩, hknown⟩
      · rwa [stackView_of_shows ⟨hlt, hopens⟩]
      · rw [shownIds_of_shows _ ⟨hlt, hopens⟩, h.counters.entries_succ hat hlt hbelow, hstack, hid,
          h.entries]

/-- Of the frame of a return only the method matters: where the return looks it up, the call has
entered it. -/
theorem HookState.Tracks.rubyEventReturn_eq (h : s.Tracks classify functionId (called :: outer))
    (hmethod : frame.method = called.method) (hinternal : frame.tracerInternal = called.tracerInternal) :
    rubyEventReturn frame s = rubyEventReturn called s := by
  have hvmTop := h.counters.vmTop
  rw [List.length_cons] at hvmTop
  unfold rubyEventReturn
  dsimp only
  rw [hmethod, hinternal]
  split
  · rfl
  · rename_i hdeep
    split
    · rfl
    · split
      · rfl
      · rename_i hcalled
        have hopened : outer.length < rgShadowStackLimit := by omega
        obtain ⟨entry, hlookup⟩ := (h.known.1 hopened).resolve_left hcalled
        rw [hlookup]
        rfl

/-- The return of a fitting frame that was not shown. -/
theorem rubyEventReturn_not_shows
    (hat : s.At classify (outer.length + 1) (stackView classify outer).frames.length
      (stackView classify (frame :: outer)).level)
    (hknows : outer.length < rgShadowStackLimit → s.Knows frame)
    (hfits : Fits classify outer frame) (hshows : ¬ Shows classify outer frame) :
    (rubyEventReturn frame s).1.At classify outer.length (stackView classify outer).frames.length
        (stackView classify outer).level ∧
      frames (rubyEventReturn frame s).2 = [] := by
  by_cases hlt : (stackView classify outer).frames.length < rgShadowStackLimit
  · have hopens : ¬ (frameKind classify frame).Opens (stackView classify outer).level :=
      fun hopens => hshows ⟨hlt, hopens⟩
    rw [stackView_of_not_opens hlt hopens] at hat
    by_cases hopened : outer.length < rgShadowStackLimit
    · by_cases hkind : frameKind classify frame = .ignored
      · rw [hkind, FrameKind.entered, if_neg (by decide)] at hat
        exact rubyEventReturn_of_ignored hat (hknows hopened) hkind
      · -- what is hidden is inside a library, and hidden on the way out too
        obtain ⟨hlevel, hcloses⟩ := FrameKind.inside_of_not_opens hkind hopens
        have hreturn := rubyEventReturn_spec frame hat hknows
          fun _ hlibrary => FrameKind.entered_pos hlibrary _
        cases hreturn with
        | skipped hskipped =>
            have hframes := stackView_frames_ne_nil hlevel
            rcases hskipped with hdeep | hempty | hignored
            · exact absurd hopened hdeep.not_gt
            · exact absurd hempty hframes.ne'
            · exact absurd hignored hkind
        | hidden _ _ _ hat' hos =>
            rw [FrameKind.left_entered] at hat'
            exact ⟨hat', hos⟩
        | shown _ _ _ _ _ hcloses' => exact absurd hcloses' hcloses
    · -- the return does not look at the frame, which is no library
      have hkind : frameKind classify frame ≠ .library := fun hlibrary =>
        hopened ((hfits hlt).2 hlibrary)
      rw [FrameKind.entered, if_neg hkind] at hat
      exact rubyEventReturn_of_full frame hat hopened
  · have hdeep := length_stackView_le classify outer
    rw [stackView_of_full hlt] at hat
    exact rubyEventReturn_of_full frame hat (by omega)

/-- The return of a fitting frame that was shown. -/
theorem rubyEventReturn_shows
    (hat : s.At classify (outer.length + 1) ((stackView classify outer).frames.length + 1)
      ((frameKind classify frame).entered (stackView classify outer).level))
    (hknows : outer.length < rgShadowStackLimit → s.Knows frame)
    (hfits : Fits classify outer frame) (hshows : Shows classify outer frame) :
    (rubyEventReturn frame s).1.At classify outer.length (stackView classify outer).frames.length
        (stackView classify outer).level ∧
      ∃ m : RgMethod, s.methodinfo.lookup frame.method = some (some m) ∧
        frames (rubyEventReturn frame s).2
          = [.end m.functionId (s.stackAt (stackView classify outer).frames.length)] := by
  obtain ⟨hopened, hcloses⟩ := (hfits hshows.1).1 hshows.2
  have hreturn := rubyEventReturn_spec frame hat hknows
    fun _ hlibrary => FrameKind.entered_pos hlibrary _
  cases hreturn with
  | skipped hskipped =>
      rcases hskipped with hdeep | hempty | hignored
      · exact absurd hopened hdeep.not_gt
      · cases hempty
      · exact absurd hshows.2 (FrameKind.not_opens_of_ignored hignored _)
  | hidden _ _ hcloses' => exact absurd hcloses hcloses'
  | shown m rest _ hrest _ _ hat' hlookup hos =>
      obtain rfl := Nat.succ_injective hrest
      rw [FrameKind.left_entered] at hat'
      exact ⟨hat', m, hlookup, hos⟩

/-- **A return** of a frame that fits. -/
theorem tracks_rubyEventReturn {table : MethodTable}
    (h : s.Tracks classify table.functionId (frame :: outer)) (hfits : Fits classify outer frame)
    (hwithin : s.methodinfo.Within table) :
    frames (rubyEventReturn frame s).2 = (if Shows classify outer frame then
        [.end (table.functionId frame.method) (table.functionId frame.method)] else []) ∧
      (rubyEventReturn frame s).1.Tracks classify table.functionId outer := by
  obtain ⟨htable, hstack⟩ := rubyEventReturn_keeps frame s
  obtain ⟨hknows, hknown⟩ := h.known
  have hknown' : (rubyEventReturn frame s).1.KnowsOpen outer := hknown.grows fun _ _ hlookup => by
    rwa [htable]
  have hcounters := h.counters
  have hentries := h.entries
  by_cases hshows : Shows classify outer frame
  · rw [stackView_of_shows hshows] at hcounters
    rw [shownIds_of_shows _ hshows] at hentries
    obtain ⟨hat', m, hlookup, hos⟩ := rubyEventReturn_shows hcounters hknows hfits hshows
    have hsucc := hat'.entries_succ hcounters hshows.1 fun i _ => (hstack i).symm
    rw [hentries] at hsucc
    obtain ⟨hpopped, houter⟩ := List.cons.inj hsucc
    rw [hos, if_pos hshows, ← hpopped, MethodTable.functionId_eq (hwithin _ _ hlookup)]
    exact ⟨rfl, hat', houter.symm, hknown'⟩
  · rw [stackView_of_not_shows hshows] at hcounters
    rw [shownIds_of_not_shows _ hshows] at hentries
    obtain ⟨hat', hos⟩ := rubyEventReturn_not_shows hcounters hknows hfits hshows
    rw [hos, if_neg hshows]
    refine ⟨rfl, hat', ?_, hknown'⟩
    rw [hcounters.entries_congr hat' (length_stackView_le_limit classify outer) fun i _ => hstack i,
      hentries]

/-- **The frame fits** where its return shows what the call stack says and leads to its level. -/
theorem fits_of_rubyEventReturn (h : s.Tracks classify functionId (frame :: outer))
    (hseen : frames (rubyEventReturn frame s).2 = if Shows classify outer frame then
      [.end (functionId frame.method) (functionId frame.method)] else [])
    (hafter : (rubyEventReturn frame s).1.thread.levelDeepIntoThirdPartyLib
      = (stackView classify outer).level) : Fits classify outer frame := by
  have hcounters := h.counters
  intro hlt
  constructor
  · intro hopens
    have hshows : Shows classify outer frame := ⟨hlt, hopens⟩
    rw [if_pos hshows] at hseen
    rw [stackView_of_shows hshows] at hcounters
    have hopened : outer.length < rgShadowStackLimit := by
      by_contra hfull
      rw [(rubyEventReturn_of_full frame hcounters hfull).2] at hseen
      cases hseen
    have hreturn := rubyEventReturn_spec frame hcounters h.known.1
      fun _ hlibrary => FrameKind.entered_pos hlibrary _
    cases hreturn with
    | skipped _ _ hos =>
        rw [hos] at hseen
        cases hseen
    | hidden _ _ _ _ hos =>
        rw [hos] at hseen
        cases hseen
    | shown _ _ _ _ _ hcloses => exact ⟨hopened, hcloses⟩
  · intro hlibrary
    -- past the limit the level is not counted down
    by_contra hfull
    have hview : (stackView classify (frame :: outer)).level = (stackView classify outer).level + 1 := by
      rw [stackView_cons, StackView.enter, if_pos hlt, hlibrary]
      rfl
    have hlevel := (rubyEventReturn_of_full frame hcounters hfull).1.level_eq
    rw [hafter, hview] at hlevel
    omega

/-- The innermost frame that is shown is on top of the shadow stack. -/
theorem HookState.Tracks.peek (h : s.Tracks classify functionId stack) (before : UInt32) :
    (rbRgStackPeek s.thread before).1 = innermost classify functionId stack before := by
  have hle := length_stackView_le_limit classify stack
  have hentries := h.entries
  rw [h.counters.entries_eq hle, shownIds] at hentries
  have htop := h.counters.shadowTop
  unfold innermost
  generalize (stackView classify stack).frames = shown at *
  cases shown with
  | nil => rw [rbRgStackPeek, if_pos (by rw [htop]; decide)]
  | cons frame rest =>
      rw [List.length_cons, List.range_succ, List.map_append, List.reverse_append] at hentries
      rw [List.length_cons, Nat.cast_succ, Int.add_sub_cancel] at htop
      rw [rbRgStackPeek, if_neg (by omega), htop, Int.toNat_natCast]
      exact (List.cons.inj hentries).1

/-- **An exception is reported** exactly where the call stack says. -/
theorem HookState.Tracks.rubyEventRaise (h : s.Tracks classify functionId stack) (raised : Raised) :
    (rubyEventRaise raised s).flatMap ThreadOutput.seen
      = (callStackStep classify functionId stack (.raise raised)).2 := by
  have hlevel : s.thread.levelDeepIntoThirdPartyLib > 0 ↔ 0 < (stackView classify stack).level := by
    rw [h.counters.level_eq]
    exact Int.natCast_pos
  rw [RaygunApm.rubyEventRaise, callStackStep]
  dsimp only
  rw [h.peek raised.before]
  by_cases hfatal : raised.fatal = true
  · rw [if_pos hfatal, if_pos (.inl hfatal)]
    rfl
  rw [if_neg hfatal]
  by_cases hentrypoint : innermost classify functionId stack raised.before = rgTraceEntrypointFrameId
  · rw [if_pos hentrypoint, if_pos (.inr (.inl hentrypoint))]
    rfl
  rw [if_neg hentrypoint]
  by_cases hinside : 0 < (stackView classify stack).level
  · rw [if_pos (hlevel.mpr hinside), if_pos (.inr (.inr hinside))]
    rfl
  · rw [if_neg fun h => hinside (hlevel.mp h),
      if_neg fun h => h.elim hfatal fun h => h.elim hentrypoint hinside]
    rfl

/-- What is seen of a call or a return are the frames. -/
theorem flatMap_seen_withAccess (thread : ShadowThread) (os : List HookOutput) :
    (os.flatMap (HookOutput.withAccess thread)).flatMap ThreadOutput.seen = (frames os).map .hook := by
  induction os with
  | nil => rfl
  | cons o os ih =>
      rw [List.flatMap_cons, List.flatMap_append, ih, frames, frames, List.filter_cons]
      cases o <;> rfl

/-- The table after an event holds what it held before. -/
theorem threadStep_within (classify : Nat → Option MethodSource) (s : HookState) (e : ThreadEvent) :
    s.methodinfo.Within (threadStep classify s e).1.methodinfo := by
  cases e with
  | call frame => exact rubyEventCall_within classify frame s
  | ret frame =>
      intro method entry hlookup
      show (rubyEventReturn frame s).1.methodinfo.lookup method = _
      rw [(rubyEventReturn_keeps frame s).1, hlookup]
  | raise raised => exact fun _ _ hlookup => hlookup

/-- **The hook keeps step with the call stack.** -/
theorem tracks_threadStep {table : MethodTable} {e : ThreadEvent}
    (h : s.Tracks classify table.functionId stack) (hinnermost : ReturnsInnermost stack e)
    (hfits : ReturnFits classify stack e)
    (hwithin : (threadStep classify s e).1.methodinfo.Within table) :
    (threadStep classify s e).2.flatMap ThreadOutput.seen
        = (callStackStep classify table.functionId stack e).2 ∧
      (threadStep classify s e).1.Tracks classify table.functionId (openFrames stack e) := by
  cases e with
  | call frame =>
      obtain ⟨hos, htracks⟩ := tracks_rubyEventCall h hwithin
      refine ⟨?_, htracks⟩
      rw [threadStep, flatMap_seen_withAccess, hos, callStackStep, apply_ite (List.map _)]
      rfl
  | ret frame =>
      cases stack with
      | nil => cases hinnermost
      | cons called outer =>
          obtain ⟨hos, htracks⟩ := tracks_rubyEventReturn h hfits
            ((threadStep_within classify s (.ret frame)).trans hwithin)
          rw [threadStep, h.rubyEventReturn_eq hinnermost.1 hinnermost.2]
          refine ⟨?_, htracks⟩
          rw [flatMap_seen_withAccess, hos, callStackStep, apply_ite (List.map _)]
          rfl
  | raise raised => exact ⟨h.rubyEventRaise raised, h⟩

/-! ## Runs -/

/-- The table in the end holds what it held at any time. -/
theorem run_threadStep_within (classify : Nat → Option MethodSource) (s : HookState)
    (events : List ThreadEvent) :
    s.methodinfo.Within (Mealy.run (threadStep classify) s events).1.methodinfo := by
  induction events generalizing s with
  | nil => exact fun _ _ hlookup => hlookup
  | cons e events ih => exact (threadStep_within classify s e).trans (ih _)

/-- **Over a run the hook stays with the call stack.** -/
theorem run_threadStep_tracks {table : MethodTable} {events : List ThreadEvent}
    (h : s.Tracks classify table.functionId stack)
    (hnested : Mealy.AllSteps vmStep ReturnsInnermost stack events)
    (hfits : Mealy.AllSteps vmStep (ReturnFits classify) stack events)
    (hwithin : (Mealy.run (threadStep classify) s events).1.methodinfo.Within table) :
    (Mealy.run (threadStep classify) s events).2.flatMap ThreadOutput.seen
        = (Mealy.run (callStackStep classify table.functionId) stack events).2 ∧
      (Mealy.run (threadStep classify) s events).1.Tracks classify table.functionId
        (Mealy.run (callStackStep classify table.functionId) stack events).1 := by
  induction events generalizing s stack with
  | nil => exact ⟨rfl, h⟩
  | cons e events ih =>
      rw [Mealy.run_cons] at hwithin ⊢
      rw [Mealy.run_cons]
      obtain ⟨hos, htracks⟩ := tracks_threadStep h hnested.1 hfits.1
        ((run_threadStep_within classify _ events).trans hwithin)
      obtain ⟨hos', htracks'⟩ := ih htracks hnested.2 hfits.2 hwithin
      refine ⟨?_, htracks'⟩
      rw [List.flatMap_append, hos, hos']
      rfl

/-! ## The reader -/

/-- What is not seen does not matter to the reader. -/
theorem foldlM_readOutput_seen (os : List ThreadOutput) (within : List UInt32) :
    (os.flatMap ThreadOutput.seen).foldlM readOutput within = os.foldlM readOutput within := by
  induction os generalizing within with
  | nil => rfl
  | cons o os ih =>
      rw [List.flatMap_cons, List.foldlM_append, List.foldlM_cons]
      have hone : o.seen.foldlM readOutput within = readOutput within o := by
        cases o with
        | access index => rfl
        | exceptionThrown exceptionId => exact bind_pure _
        | hook output =>
            cases output with
            | methodinfo functionId source => rfl
            | begin functionId instanceId => rfl
            | «end» functionId popped => exact bind_pure _
      rw [hone]
      congr 1
      funext within'
      exact ih within'

/-- **The reader keeps step with the call stack.** -/
theorem readOutput_callStackStep (classify : Nat → Option MethodSource) (functionId : Nat → UInt32)
    (stack : List Frame) (e : ThreadEvent) :
    (callStackStep classify functionId stack e).2.foldlM readOutput (shownIds classify functionId stack)
      = some (shownIds classify functionId (openFrames stack e)) := by
  cases e with
  | call frame =>
      rw [callStackStep, openFrames]
      by_cases hshows : Shows classify stack frame
      · rw [if_pos hshows, shownIds_of_shows _ hshows]
        rfl
      · rw [if_neg hshows, shownIds_of_not_shows _ hshows]
        rfl
  | ret frame =>
      cases stack with
      | nil => rfl
      | cons called outer =>
          rw [callStackStep, openFrames, List.tail_cons]
          by_cases hshows : Shows classify outer called
          · rw [if_pos hshows, shownIds_of_shows _ hshows, List.foldlM_cons, readOutput,
              if_pos ⟨rfl, rfl⟩]
            rfl
          · rw [if_neg hshows, shownIds_of_not_shows _ hshows]
            rfl
  | raise raised =>
      rw [callStackStep, openFrames]
      by_cases hhead : (shownIds classify functionId stack).head? = some rgTraceEntrypointFrameId
      · -- the entrypoint is the innermost frame that is shown
        have hinnermost : innermost classify functionId stack raised.before
            = rgTraceEntrypointFrameId := by
          rw [shownIds, List.head?_map] at hhead
          rw [innermost]
          cases hshown : (stackView classify stack).frames with
          | nil => simp [hshown] at hhead
          | cons shown rest => simpa [hshown] using hhead
        rw [if_pos (.inr (.inl hinnermost))]
        rfl
      · split
        · rfl
        · rw [List.foldlM_cons, readOutput, if_neg hhead]
          rfl

/-- **Over a run the reader stays with the call stack.** -/
theorem readOutput_run (classify : Nat → Option MethodSource) (functionId : Nat → UInt32)
    (stack : List Frame) (events : List ThreadEvent) :
    (Mealy.run (callStackStep classify functionId) stack events).2.foldlM readOutput
        (shownIds classify functionId stack)
      = some (shownIds classify functionId
          (Mealy.run (callStackStep classify functionId) stack events).1) := by
  induction events generalizing stack with
  | nil => rfl
  | cons e events ih =>
      rw [Mealy.run_cons, List.foldlM_append, readOutput_callStackStep]
      exact ih (openFrames stack e)

/-! ## Complete calls -/

/-- A call or a return, among the events of a thread. -/
def ThreadEvent.ofCall : CallEvent Frame → ThreadEvent
  | .call frame => .call frame
  | .ret frame => .ret frame

/-- The bracket that an output shows. -/
def ThreadOutput.brackets : ThreadOutput → List (CallEvent UInt32)
  | .hook output => output.brackets
  | _ => []

/-- **The visible part of a forest** is what is to be seen of the call stack while the forest is
called, and the stack is then what it was. -/
theorem run_callStackStep_events (classify : Nat → Option MethodSource) (functionId : Nat → UInt32)
    (forest : CallForest Frame) (stack : List Frame) :
    (Mealy.run (callStackStep classify functionId) stack (forest.events.map .ofCall)).1 = stack ∧
      (Mealy.run (callStackStep classify functionId) stack
          (forest.events.map .ofCall)).2.flatMap ThreadOutput.brackets
        = (visible classify functionId (stackView classify stack).frames.length
            (stackView classify stack).level forest).events := by
  induction forest generalizing stack with
  | nil => exact ⟨rfl, rfl⟩
  | node frame children rest ihc ihr =>
      obtain ⟨hinner, hchildren⟩ := ihc (frame :: stack)
      obtain ⟨hend, hrest⟩ := ihr stack
      rw [events, List.map_cons, List.map_append, List.map_cons, Mealy.run_cons, Mealy.run_append,
        Mealy.run_cons]
      dsimp only [callStackStep, openFrames, ThreadEvent.ofCall]
      rw [hinner]
      refine ⟨hend, ?_⟩
      dsimp only [List.tail_cons]
      rw [List.flatMap_append, List.flatMap_append, List.flatMap_append, hchildren, hrest, visible]
      by_cases hshows : Shows classify stack frame
      · rw [if_pos hshows, if_pos hshows, if_pos ⟨hshows.1, hshows.2⟩, stackView_of_shows hshows]
        rfl
      · rw [if_neg hshows, if_neg hshows, if_neg fun hopens => hshows ⟨hopens.1, hopens.2⟩, events_append]
        by_cases hlt : (stackView classify stack).frames.length < rgShadowStackLimit
        · rw [stackView_of_not_opens hlt fun hopens => hshows ⟨hlt, hopens⟩]
          rfl
        · -- nothing is visible behind a full shadow stack
          have hfull : (stackView classify stack).frames.length = rgShadowStackLimit :=
            le_antisymm (length_stackView_le_limit classify stack) (not_lt.mp hlt)
          rw [stackView_of_full hlt, hfull, visible_of_full, visible_of_full, visible_of_full]
          rfl

/-! ## The hook and its reader -/

/-- The call stack is that of the VM, whatever is seen of it. -/
theorem run_callStackStep_fst (classify : Nat → Option MethodSource) (functionId : Nat → UInt32)
    (stack : List Frame) (events : List ThreadEvent) :
    (Mealy.run (callStackStep classify functionId) stack events).1
      = (Mealy.run vmStep stack events).1 := by
  induction events generalizing stack with
  | nil => rfl
  | cons e events ih => exact ih (openFrames stack e)

/-- At the start of a trace there is nothing to track. -/
theorem HookState.At.tracks (hat : s.At classify 0 0 0) : s.Tracks classify functionId [] :=
  ⟨hat, hat.entries_eq (Nat.zero_le _), trivial⟩

/-- While the frames fit, the hook follows the call stack. -/
theorem followsCallStack_of_fits {events : List ThreadEvent} (hat : s.At classify 0 0 0)
    (hnested : Mealy.AllSteps vmStep ReturnsInnermost [] events)
    (hfits : Mealy.AllSteps vmStep (ReturnFits classify) [] events) :
    FollowsCallStack classify s events := by
  obtain ⟨hseen, hafter⟩ := run_threadStep_tracks hat.tracks hnested hfits fun _ _ hlookup => hlookup
  refine ⟨hseen, hafter.mirrors, ?_⟩
  rw [← foldlM_readOutput_seen, hseen, hafter.entries]
  exact readOutput_run classify _ [] events

/-- A return after which the hook follows the call stack was of a frame that fits. -/
theorem returnFits_of_follows {before : List ThreadEvent} {e : ThreadEvent} (hat : s.At classify 0 0 0)
    (hnested : Mealy.AllSteps vmStep ReturnsInnermost [] (before ++ [e]))
    (hfits : Mealy.AllSteps vmStep (ReturnFits classify) [] before)
    (hfollows : FollowsCallStack classify s (before ++ [e])) :
    ReturnFits classify (Mealy.run vmStep [] before).1 e := by
  obtain ⟨hbefore, hinnermost, -⟩ := Mealy.allSteps_append.mp hnested
  obtain ⟨hseen, hmirrors, -⟩ := hfollows
  have htable : (Mealy.run (threadStep classify) s before).1.methodinfo.Within
      (Mealy.run (threadStep classify) s (before ++ [e])).1.methodinfo := by
    rw [Mealy.run_append]
    exact threadStep_within classify _ e
  generalize (Mealy.run (threadStep classify) s (before ++ [e])).1.methodinfo = table at *
  obtain ⟨hsame, htracks⟩ := run_threadStep_tracks hat.tracks hbefore hfits htable
  have hafter := hmirrors.level
  rw [Mealy.run_append, Mealy.run_append, List.flatMap_append, hsame] at hseen
  rw [Mealy.run_append, Mealy.run_append] at hafter
  -- what is seen of the last event, and the level behind it
  replace hseen := List.append_cancel_left hseen
  rw [← run_callStackStep_fst classify table.functionId] at hinnermost ⊢
  generalize (Mealy.run (callStackStep classify table.functionId) [] before).1 = stack at *
  generalize (Mealy.run (threadStep classify) s before).1 = h at *
  cases stack with
  | nil => cases e <;> trivial
  | cons called outer =>
      cases e with
      | call frame => trivial
      | raise raised => trivial
      | ret frame =>
          have hreturn := htracks.rubyEventReturn_eq hinnermost.1 hinnermost.2
          have hhook : Function.Injective (List.map ThreadOutput.hook) :=
            List.map_injective_iff.mpr fun _ _ heq => ThreadOutput.hook.inj heq
          refine fits_of_rubyEventReturn htracks (hhook ?_) ?_
          · rw [apply_ite (List.map _), ← flatMap_seen_withAccess h.thread, ← hreturn]
            simpa [Mealy.run, threadStep, callStackStep] using hseen
          · rw [← hreturn]
            exact hafter

/-- **The shadow stack is the visible part of the call stack**, at any time, and the reader knows
it, exactly as long as the guards fit the frames that return: for every sequence of calls, returns
and exceptions whose returns are of the innermost frame. -/
theorem followsCallStack_iff (classify : Nat → Option MethodSource) (s : HookState)
    (events : List ThreadEvent) (hat : s.At classify 0 0 0)
    (hnested : Mealy.AllSteps vmStep ReturnsInnermost [] events) :
    (∀ before, before <+: events → FollowsCallStack classify s before) ↔
      Mealy.AllSteps vmStep (ReturnFits classify) [] events := by
  constructor
  · intro hfollows
    induction events using List.reverseRecOn with
    | nil => trivial
    | append_singleton before e ih =>
        have hfits := ih (Mealy.allSteps_append.mp hnested).1 fun first hfirst =>
          hfollows first (hfirst.trans (List.prefix_append _ _))
        refine Mealy.allSteps_append.mpr ⟨hfits, ?_, trivial⟩
        exact returnFits_of_follows hat hnested hfits (hfollows _ (List.prefix_refl _))
  · intro hfits before hbefore
    exact followsCallStack_of_fits hat (hnested.of_isPrefix hbefore) (hfits.of_isPrefix hbefore)

/-- The source of a few methods: of user code, of a library, for synchronization, and of a
blacklist. -/
def fewMethods : Nat → Option MethodSource
  | 0 => some .userCode
  | 1 => some .knownLibrary
  | 2 => some .waitForSynchronization
  | _ => none

/-- A call of one of them. -/
def fewFrame (method : Nat) : Frame where
  tracerInternal := false
  method := method
  instanceId := 0
  stale := none

/-- User code raises, calls a library that calls itself, raises there, and gets back into user code,
where an exception passes a frame that is ignored. -/
def fewEvents : List ThreadEvent :=
  [.call (fewFrame 0), .raise ⟨false, 1, 0⟩, .call (fewFrame 0), .raise ⟨false, 2, 0⟩,
    .call (fewFrame 1), .call (fewFrame 1), .raise ⟨false, 3, 0⟩, .ret (fewFrame 1),
    .ret (fewFrame 1), .call (fewFrame 3), .raise ⟨false, 4, 0⟩, .ret (fewFrame 3)]

/-- The hook follows the call stack through the few events. -/
theorem followsCallStack_iff_fewEvents : FollowsCallStack fewMethods (.fresh [] 0) fewEvents :=
  (followsCallStack_iff fewMethods (.fresh [] 0) fewEvents
    ⟨rfl, rfl, rfl, List.length_replicate, fun _ _ h => by cases h⟩ (by decide)).mpr (by decide) _
    List.prefix_rfl

/-- A library that waits for synchronization: shown on the way in, but not on the way out. -/
example : ¬ Mealy.AllSteps vmStep (ReturnFits fewMethods) []
    [.call (fewFrame 1), .call (fewFrame 2), .ret (fewFrame 2)] := by decide

end RaygunApm
