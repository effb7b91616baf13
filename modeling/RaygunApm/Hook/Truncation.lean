import RaygunApm.Hook.Brackets

/-! # Truncation at the depth limit

A call tree of user code and blacklisted methods. `RG_SHADOW_STACK_LIMIT` is to cut the reported
tree off at 256 nested reported frames. The way in counts reported frames, but the way out counts
all open frames, so a reported frame below 256 open frames begins and does not end. The tree is cut
off as it should be exactly if no such frame is in it (`truncatesAtLimit_iff`). -/

namespace RaygunApm

open CallForest

/-! ## The property -/

/-- The frame is of user code, or of another source without a rule of its own. -/
def Frame.whitelisted (classify : Nat → Option MethodSource) (frame : Frame) : Bool :=
  frameKind classify frame = .ordinary

/-- The whitelisted frames around the children of a frame. -/
def Frame.inside (classify : Nat → Option MethodSource) (frame : Frame) (above : Nat) : Nat :=
  above + if frame.whitelisted classify then 1 else 0

/-- The frame is shown as a begin and an end. -/
def Frame.ShownBy (frame : Frame) (os os' : List HookOutput) : Prop :=
  ∃ functionId, frames os = [.begin functionId frame.instanceId] ∧
    frames os' = [.end functionId functionId]

/-- Of the frames of a forest inside `above` whitelisted frames, those are shown that are
whitelisted and inside fewer than 256 whitelisted frames, and no others. -/
def ShowsWithin (classify : Nat → Option MethodSource) :
    HookState → Nat → CallForest Frame → Prop
  | _, _, .nil => True
  | s, above, .node frame children rest =>
      let entered := rubyEventCall classify frame s
      let inside := Mealy.run (rbRgTracingHookI classify) entered.1 children.events
      let left := rubyEventReturn frame inside.1
      (if frame.whitelisted classify ∧ above < rgShadowStackLimit then
          frame.ShownBy entered.2 left.2
        else frames entered.2 = [] ∧ frames left.2 = []) ∧
        ShowsWithin classify entered.1 (frame.inside classify above) children ∧
        ShowsWithin classify left.1 above rest

/-- What an event is shown as, with these function ids. -/
def shownAs (functionId : Nat → UInt32) : CallEvent Frame → HookOutput
  | .call frame => .begin (functionId frame.method) frame.instanceId
  | .ret frame => .end (functionId frame.method) (functionId frame.method)

/-- The depth limit truncates a forest: what is emitted are the calls and returns of the whitelisted
frames inside fewer than 256 whitelisted frames. -/
structure TruncatesAtLimit (classify : Nat → Option MethodSource) (s : HookState)
    (forest : CallForest Frame) : Prop where
  shown : ShowsWithin classify s 0 forest
  sequence : ∃ functionId,
    frames (Mealy.run (rbRgTracingHookI classify) s forest.events).2
      = (forest.within (Frame.whitelisted classify) rgShadowStackLimit 0).events.map
          (shownAs functionId)

/-- In a forest inside `opened` frames, `above` of them whitelisted, every whitelisted frame inside
fewer than 256 whitelisted frames is inside fewer than 256 frames altogether. -/
def WithinDepth (classify : Nat → Option MethodSource) : Nat → Nat → CallForest Frame → Prop
  | _, _, .nil => True
  | opened, above, .node frame children rest =>
      (frame.whitelisted classify = true → above < rgShadowStackLimit →
          opened < rgShadowStackLimit) ∧
        WithinDepth classify (opened + 1) (frame.inside classify above) children ∧
        WithinDepth classify opened above rest

instance decidableWithinDepth (classify : Nat → Option MethodSource) :
    (opened above : Nat) → (forest : CallForest Frame) →
      Decidable (WithinDepth classify opened above forest)
  | _, _, .nil => isTrue trivial
  | opened, above, .node frame children rest =>
      have := decidableWithinDepth classify (opened + 1) (frame.inside classify above) children
      have := decidableWithinDepth classify opened above rest
      inferInstanceAs (Decidable (_ ∧ _ ∧ _))

/-- The frame is whitelisted or ignored. -/
def Frame.Plain (classify : Nat → Option MethodSource) (frame : Frame) : Prop :=
  frameKind classify frame = .ordinary ∨ frameKind classify frame = .ignored

/-! ## One frame -/

/-- The entries of the table have these function ids. -/
def HookState.HasIds (s : HookState) (functionId : Nat → UInt32) : Prop :=
  ∀ method m, s.methodinfo.lookup method = some (some m) → functionId method = m.functionId

variable {classify : Nat → Option MethodSource} {opened above : Nat} {s s' : HookState}
  {frame : Frame}

/-- Ids that fit the grown table fit the table before. -/
theorem HookState.Grows.hasIds {functionId : Nat → UInt32} (h : s.Grows s')
    (hids : s'.HasIds functionId) : s.HasIds functionId :=
  fun method m hlookup => hids method m (h _ _ hlookup)

/-- What the return of a frame shows, from a state like the one behind its children. -/
structure ReturnShows (classify : Nat → Option MethodSource) (opened above : Nat) (frame : Frame)
    (os : List HookOutput) (inside : HookState) : Prop where
  /-- The frame is shown as it should be exactly if it is not too deep. -/
  shows : (if frame.whitelisted classify ∧ above < rgShadowStackLimit then
        frame.ShownBy os (rubyEventReturn frame inside).2
      else frames os = [] ∧ frames (rubyEventReturn frame inside).2 = []) ↔
    (frame.whitelisted classify = true → above < rgShadowStackLimit → opened < rgShadowStackLimit)
  /-- If the frame is shown as it should be, the counters are those from before. -/
  restores : (frame.whitelisted classify = true → above < rgShadowStackLimit →
      opened < rgShadowStackLimit) →
    (rubyEventReturn frame inside).1.At classify opened (min above rgShadowStackLimit) 0
  /-- A frame that is shown as it should be has the id of its method. -/
  ids : (frame.whitelisted classify = true → above < rgShadowStackLimit →
      opened < rgShadowStackLimit) → ∀ functionId, inside.HasIds functionId →
    frames os = (if frame.whitelisted classify ∧ above < rgShadowStackLimit then
        [shownAs functionId (.call frame)] else []) ∧
      frames (rubyEventReturn frame inside).2
        = if frame.whitelisted classify ∧ above < rgShadowStackLimit then
            [shownAs functionId (.ret frame)] else []

/-- A frame of which neither the call nor the return shows anything, as it should be. -/
theorem ReturnShows.of_nil {os : List HookOutput} {inside : HookState}
    (hnot : ¬ (frame.whitelisted classify = true ∧ above < rgShadowStackLimit))
    (hos : frames os = []) (hos' : frames (rubyEventReturn frame inside).2 = [])
    (hat : (rubyEventReturn frame inside).1.At classify opened (min above rgShadowStackLimit) 0) :
    ReturnShows classify opened above frame os inside where
  shows := by
    rw [if_neg hnot]
    exact iff_of_true ⟨hos, hos'⟩ fun hwhite hlt => absurd ⟨hwhite, hlt⟩ hnot
  restores := fun _ => hat
  ids := by
    intro _ functionId _
    rw [if_neg hnot, if_neg hnot]
    exact ⟨hos, hos'⟩

/-- **One frame.** Behind its call the counters are those of its children, and from any state with
these counters its return shows what it should exactly if the frame is not too deep. -/
theorem CallSpec.truncated {os : List HookOutput}
    (hcall : CallSpec classify opened (min above rgShadowStackLimit) 0 frame s os)
    (hplain : frame.Plain classify) (hle : above ≤ opened) :
    s.At classify (opened + 1) (min (frame.inside classify above) rgShadowStackLimit) 0 ∧
      ∀ inside : HookState,
        inside.At classify (opened + 1) (min (frame.inside classify above) rgShadowStackLimit) 0 →
        s.Grows inside →
        (∀ i < min (frame.inside classify above) rgShadowStackLimit,
          inside.stackAt i = s.stackAt i) →
        ReturnShows classify opened above frame os inside := by
  cases hcall with
  | full hfull hat hos =>
      -- the children are as deep as the stack goes
      have habove : rgShadowStackLimit ≤ above := by omega
      have hinside : min (frame.inside classify above) rgShadowStackLimit
          = min above rgShadowStackLimit := by
        rw [Frame.inside]
        omega
      rw [hinside]
      refine ⟨hat, fun inside hat' _ _ => ?_⟩
      have hopened : ¬ opened < rgShadowStackLimit := by omega
      obtain ⟨hat'', hos'⟩ := rubyEventReturn_of_full frame hat' hopened
      exact .of_nil (fun h => absurd h.2 (by omega)) hos hos' hat''
  | ignored hlt hkind hat hknows hos =>
      -- a blacklisted frame is no step deeper, and is skipped both times
      have hwhite : frame.whitelisted classify = false := by
        rw [Frame.whitelisted, hkind]
        rfl
      have hinside : frame.inside classify above = above := by
        rw [Frame.inside, hwhite]
        rfl
      rw [hinside]
      refine ⟨hat, fun inside hat' hgrows _ => ?_⟩
      obtain ⟨hat'', hos'⟩ := rubyEventReturn_of_ignored hat' (hgrows.knows hknows) hkind
      exact .of_nil (fun h => absurd h.1 (by rw [hwhite]; decide)) hos hos' hat''
  | hidden _ hne hopens =>
      -- without libraries no frame is hidden
      rw [hplain.resolve_right hne] at hopens
      exact absurd trivial hopens
  | shown m hlt hne _ hat hlookup hstack hos =>
      -- the frame has begun, one above the whitelisted frames around it
      have hkind : frameKind classify frame = .ordinary := hplain.resolve_right hne
      have hwhite : frame.whitelisted classify = true := decide_eq_true hkind
      have habove : above < rgShadowStackLimit := by omega
      have hmin : min above rgShadowStackLimit = above := min_eq_left habove.le
      have hinside : min (frame.inside classify above) rgShadowStackLimit = above + 1 := by
        rw [Frame.inside, hwhite]
        exact min_eq_left habove
      rw [hmin, hkind] at hat
      rw [hmin] at hstack
      rw [hinside]
      refine ⟨hat, fun inside hat' hgrows hbelow => ?_⟩
      have hret := rubyEventReturn_spec frame hat' (fun _ => .inr ⟨_, hgrows _ _ hlookup⟩)
        fun _ hlibrary => by simp [hkind] at hlibrary
      have hshown : frame.whitelisted classify = true ∧ above < rgShadowStackLimit :=
        ⟨hwhite, habove⟩
      cases hret with
      | skipped hwhy _ hos' =>
          -- the frame is too deep: it has begun and does not end
          have hdeep : ¬ opened < rgShadowStackLimit := by
            rcases hwhy with hdeep | hzero | hignored
            · exact not_lt.mpr hdeep
            · exact absurd hzero (Nat.succ_ne_zero above)
            · exact absurd hignored hne
          refine ⟨?_, fun h => absurd (h hwhite habove) hdeep, fun h => absurd (h hwhite habove) hdeep⟩
          rw [if_pos hshown]
          refine iff_of_false ?_ fun h => hdeep (h hwhite habove)
          rintro ⟨functionId, -, hend⟩
          rw [hos'] at hend
          cases hend
      | hidden _ _ hcloses =>
          rw [hkind] at hcloses
          exact absurd trivial hcloses
      | shown m' top hopened htop _ _ hat'' hlookup' hos' =>
          -- it ends with the id that its call has pushed
          obtain rfl : above = top := Nat.succ.inj htop
          have hm : m' = m := by
            rw [hgrows _ _ hlookup] at hlookup'
            exact (Option.some.inj (Option.some.inj hlookup')).symm
          rw [hm, hbelow above (Nat.lt_succ_self above), hstack] at hos'
          refine ⟨?_, fun _ => ?_, fun _ functionId hids => ?_⟩
          · rw [if_pos hshown]
            exact iff_of_true ⟨m.functionId, hos, hos'⟩ fun _ _ => hopened
          · rw [hmin]
            rw [hkind] at hat''
            exact hat''
          · rw [if_pos hshown, if_pos hshown, hos, hos', shownAs, shownAs,
              hids _ _ (hgrows _ _ hlookup)]
            exact ⟨rfl, rfl⟩

/-! ## Forests -/

/-- What is known of the run over a forest that starts at a state: it shows what it should exactly
if no frame is too deep, and then it restores the counters and shows the frames with their ids. -/
structure RunShows (classify : Nat → Option MethodSource) (opened above : Nat) (s : HookState)
    (forest : CallForest Frame) : Prop where
  shows : ShowsWithin classify s above forest ↔ WithinDepth classify opened above forest
  restores : WithinDepth classify opened above forest →
    (runForest classify s forest).1.At classify opened (min above rgShadowStackLimit) 0
  grows : WithinDepth classify opened above forest → s.Grows (runForest classify s forest).1
  below : WithinDepth classify opened above forest → ∀ i < min above rgShadowStackLimit,
    (runForest classify s forest).1.stackAt i = s.stackAt i
  ids : WithinDepth classify opened above forest → ∀ functionId,
    (runForest classify s forest).1.HasIds functionId →
    frames (runForest classify s forest).2
      = (forest.within (Frame.whitelisted classify) rgShadowStackLimit above).events.map
          (shownAs functionId)

/-- The frames of the parts of a run. -/
theorem frames_append (os os' : List HookOutput) : frames (os ++ os') = frames os ++ frames os' :=
  List.filter_append ..

/-- What a run over a node shows. -/
theorem frames_runForest_node (s : HookState) (frame : Frame) (children rest : CallForest Frame) :
    frames (runForest classify s (.node frame children rest)).2 =
      frames (rubyEventCall classify frame s).2
        ++ (frames (runForest classify (rubyEventCall classify frame s).1 children).2
          ++ (frames (rubyEventReturn frame
                (runForest classify (rubyEventCall classify frame s).1 children).1).2
            ++ frames (runForest classify (rubyEventReturn frame
                (runForest classify (rubyEventCall classify frame s).1 children).1).1 rest).2)) := by
  rw [← frames_append, ← frames_append, ← frames_append]
  exact congrArg (fun r => frames r.2) (run_node s frame children rest)

/-- The events of a truncated node: the frame is there or not, around and in front of the rest. -/
theorem within_node_events (functionId : Nat → UInt32) (frame : Frame)
    (children rest : CallForest Frame) :
    ((CallForest.node frame children rest).within (Frame.whitelisted classify) rgShadowStackLimit
        above).events.map (shownAs functionId)
      = (if frame.whitelisted classify ∧ above < rgShadowStackLimit then
            [shownAs functionId (.call frame)] else [])
        ++ ((children.within (Frame.whitelisted classify) rgShadowStackLimit
              (frame.inside classify above)).events.map (shownAs functionId)
          ++ ((if frame.whitelisted classify ∧ above < rgShadowStackLimit then
                [shownAs functionId (.ret frame)] else [])
            ++ (rest.within (Frame.whitelisted classify) rgShadowStackLimit above).events.map
                (shownAs functionId))) := by
  rw [CallForest.within]
  by_cases hshown : frame.whitelisted classify = true ∧ above < rgShadowStackLimit
  · rw [if_pos hshown, if_pos hshown, if_pos hshown]
    simp only [events, List.map_cons, List.map_append, List.cons_append, List.nil_append]
    rfl
  · rw [if_neg hshown, if_neg hshown, if_neg hshown, events_append, List.map_append]
    rfl

/-- **A forest**, by induction: the children are inside the frame, and the rest starts where the
return of the frame ends. -/
theorem runShows (forest : CallForest Frame) (hplain : forest.Forall (Frame.Plain classify))
    (hle : above ≤ opened)
    (hat : s.At classify opened (min above rgShadowStackLimit) 0) :
    RunShows classify opened above s forest := by
  -- over the forest: what the children restore is where the return starts from
  induction forest generalizing opened above s with
  | nil =>
      exact ⟨Iff.rfl, fun _ => hat, fun _ _ _ h => h, fun _ _ _ => rfl, fun _ _ _ => rfl⟩
  | node frame children rest ihc ihr =>
      obtain ⟨hframe, hchildren, hrest⟩ := hplain
      obtain ⟨hcall, hgrows₁, hbelow₁⟩ := rubyEventCall_spec hat (min_le_right _ _) frame
      have hinside : frame.inside classify above ≤ opened + 1 := by
        rw [Frame.inside]
        split <;> omega
      have hmore : above ≤ frame.inside classify above := Nat.le_add_right _ _
      obtain ⟨hat₁, hreturn⟩ := hcall.truncated hframe hle
      have hc := ihc hchildren hinside hat₁
      have hret := fun hin => hreturn _ (hc.restores hin) (hc.grows hin) (hc.below hin)
      have hr := fun hframe hin => ihr hrest hle ((hret hin).restores hframe)
      obtain ⟨htable, hstack⟩ := rubyEventReturn_keeps frame
        (runForest classify (rubyEventCall classify frame s).1 children).1
      have hgrows₃ : WithinDepth classify (opened + 1) (frame.inside classify above) children →
          s.Grows (rubyEventReturn frame
            (runForest classify (rubyEventCall classify frame s).1 children).1).1 := by
        intro hin method entry h
        rw [htable]
        exact hc.grows hin _ _ (hgrows₁ _ _ h)
      refine ⟨⟨?_, ?_⟩, ?_, ?_, ?_, ?_⟩
      · -- what is shown of the frame is right only if what comes before it is within its depth
        rintro ⟨hshows, hshowsc, hshowsr⟩
        have hin := hc.shows.mp hshowsc
        have hok := (hret hin).shows.mp hshows
        exact ⟨hok, hin, (hr hok hin).shows.mp hshowsr⟩
      · rintro ⟨hok, hin, hafter⟩
        exact ⟨(hret hin).shows.mpr hok, hc.shows.mpr hin, (hr hok hin).shows.mpr hafter⟩
      · rintro ⟨hok, hin, hafter⟩
        rw [runForest_node]
        exact (hr hok hin).restores hafter
      · rintro ⟨hok, hin, hafter⟩ method entry h
        rw [runForest_node]
        exact (hr hok hin).grows hafter _ _ (hgrows₃ hin _ _ h)
      · rintro ⟨hok, hin, hafter⟩ i hi
        rw [runForest_node, (hr hok hin).below hafter i hi, hstack,
          hc.below hin i (hi.trans_le (min_le_min_right _ hmore)), hbelow₁ i hi]
      · rintro ⟨hok, hin, hafter⟩ functionId hids
        rw [runForest_node] at hids
        have hids₃ := ((hr hok hin).grows hafter).hasIds hids
        have hids₂ : (runForest classify (rubyEventCall classify frame s).1 children).1.HasIds
            functionId := by
          intro method m h
          exact hids₃ method m (by rw [htable]; exact h)
        obtain ⟨hos, hos'⟩ := (hret hin).ids hok functionId hids₂
        rw [frames_runForest_node, within_node_events, hos, hos', hc.ids hin functionId hids₂,
          (hr hok hin).ids hafter functionId hids]

/-! ## Truncation -/

/-- A run that shows what it should shows the truncated forest. -/
theorem RunShows.truncates_iff {forest : CallForest Frame}
    (h : RunShows classify 0 0 s forest) :
    TruncatesAtLimit classify s forest ↔ WithinDepth classify 0 0 forest := by
  constructor
  · intro htruncates
    exact h.shows.mp htruncates.shown
  · intro hdepth
    refine ⟨h.shows.mpr hdepth, ?_⟩
    refine ⟨fun method => (((runForest classify s forest).1.methodinfo.lookup method).join.map
      RgMethod.functionId).getD 0, h.ids hdepth _ ?_⟩
    intro method m hlookup
    dsimp only
    rw [hlookup]
    rfl

/-- **Truncation at the depth limit.** From a fresh shadow thread, a call tree of whitelisted and
ignored frames is cut off at 256 nested whitelisted frames if and only if every whitelisted frame
that is to be shown is inside fewer than 256 frames altogether. -/
theorem truncatesAtLimit_iff (classify : Nat → Option MethodSource) (methodinfo : MethodTable)
    (methods : UInt32) (hagrees : methodinfo.Agrees classify) (forest : CallForest Frame)
    (hplain : forest.Forall (Frame.Plain classify)) :
    TruncatesAtLimit classify (.fresh methodinfo methods) forest ↔ WithinDepth classify 0 0 forest :=
  (runShows forest hplain le_rfl (HookState.fresh_at methods hagrees)).truncates_iff

/-- Method 0 is user code, the others are blacklisted. -/
def userMethod (method : Nat) : Option MethodSource :=
  if method = 0 then some .userCode else none

/-- Calls of one method, each inside the one before it, around a forest. -/
def nestedCalls (method : Nat) : Nat → CallForest Frame → CallForest Frame
  | 0, forest => forest
  | n + 1, forest => .node (frameOf method) (nestedCalls method n forest) .nil

/-- The frames of the nested calls are whitelisted or ignored. -/
theorem forall_plain_nestedCalls (method n : Nat) (forest : CallForest Frame)
    (h : forest.Forall (Frame.Plain userMethod)) :
    (nestedCalls method n forest).Forall (Frame.Plain userMethod) := by
  have hframe : (frameOf method).Plain userMethod := by
    by_cases hmethod : method = 0
    · exact .inl (by rw [hmethod]; rfl)
    · exact .inr (by simp [frameKind, frameOf, userMethod, hmethod])
  induction n with
  | zero => exact h
  | succ n ih => exact ⟨hframe, ih, trivial⟩

/-- 300 nested calls of user code. -/
theorem truncatesAtLimit_nestedCalls :
    TruncatesAtLimit userMethod (.fresh [] 0) (nestedCalls 0 300 .nil) :=
  (truncatesAtLimit_iff userMethod [] 0 (fun _ _ h => by simp at h) _
    (forall_plain_nestedCalls 0 300 .nil trivial)).mpr (by decide +kernel)

/-- A call of user code inside 256 blacklisted frames: it begins and does not end. -/
theorem not_truncatesAtLimit_nestedCalls :
    ¬ TruncatesAtLimit userMethod (.fresh [] 0)
      (nestedCalls 1 256 (.node (frameOf 0) .nil .nil)) := by
  have hplain : (nestedCalls 1 256 (.node (frameOf 0) .nil .nil)).Forall (Frame.Plain userMethod) :=
    forall_plain_nestedCalls 1 256 _ (forall_plain_nestedCalls 0 1 .nil trivial)
  have hagrees : MethodTable.Agrees userMethod [] := fun _ _ h => by simp at h
  have hruns := runShows _ hplain le_rfl (HookState.fresh_at 0 hagrees)
  exact fun h => absurd (hruns.truncates_iff.mp h) (by decide +kernel)

end RaygunApm
