import RaygunApm.Hook.Interleaving

/-! # The visible part of a call tree

What the hook lets through of a forest of calls can be said without the hook: a frame is visible if
its kind opens at the library level it is in and the shadow stack has room for it, and the frames
inside an invisible frame take its place (`visible`). The hook shows exactly that, when the guards
match (`brackets_runForest`), also among other threads (`brackets_threadOutputs`). -/

namespace RaygunApm

open CallForest

variable {config : HookConfig} {s : RuledHook} {thread : Nat} {classify : Nat → Option MethodSource}
  {opened reported level : Nat} {h : HookState}

instance (kind : FrameKind) (level : Nat) : Decidable (kind.Opens level) := by
  cases kind <;> unfold FrameKind.Opens <;> infer_instance

/-- The id of a method in the table; a blacklisted method has none. -/
def MethodTable.functionId (table : MethodTable) (method : Nat) : UInt32 :=
  ((table.lookup method).join.map RgMethod.functionId).getD 0

/-- The call tree that the hook lets through, with the ids of the methods: without the frames that
are ignored or too deep in libraries, and down to the limit of the shadow stack. -/
def visible (classify : Nat → Option MethodSource) (functionId : Nat → UInt32) :
    Nat → Nat → CallForest Frame → CallForest UInt32
  | _, _, .nil => .nil
  | reported, level, .node frame children rest =>
      let kind := frameKind classify frame
      let after := visible classify functionId reported level rest
      if reported < rgShadowStackLimit ∧ kind.Opens level then
        .node (functionId frame.method)
          (visible classify functionId (reported + 1) (kind.entered level) children) after
      else (visible classify functionId reported (kind.entered level) children).append after

/-- Behind a full shadow stack nothing is visible. -/
theorem visible_of_full (functionId : Nat → UInt32) (level : Nat) (forest : CallForest Frame) :
    visible classify functionId rgShadowStackLimit level forest = .nil := by
  induction forest generalizing level with
  | nil => rfl
  | node frame children rest ihc ihr =>
      rw [visible, if_neg fun hlt => absurd hlt.1 (lt_irrefl _), ihc, ihr]
      rfl

/-- A run takes nothing out of the table. -/
theorem runForest_within (classify : Nat → Option MethodSource) (h : HookState)
    (forest : CallForest Frame) :
    h.methodinfo.Within (runForest classify h forest).1.methodinfo := by
  refine Mealy.run_invariant (P := fun h' : HookState => h.methodinfo.Within h'.methodinfo) ?_
    (fun _ _ hlookup => hlookup) forest.events
  intro h' e hwithin
  refine hwithin.trans ?_
  cases e with
  | call frame => exact rubyEventCall_within classify frame h'
  | ret frame =>
      intro method entry hlookup
      show (rubyEventReturn frame h').1.methodinfo.lookup method = _
      rw [(rubyEventReturn_keeps frame h').1, hlookup]

/-- The id of a method that is in the table. -/
theorem MethodTable.functionId_eq {table : MethodTable} {method : Nat} {m : RgMethod}
    (hlookup : table.lookup method = some (some m)) : table.functionId method = m.functionId := by
  rw [functionId, hlookup]
  rfl

/-- A frame that is ignored is not visible. -/
theorem FrameKind.not_opens_of_ignored {kind : FrameKind} (hkind : kind = .ignored) (level : Nat) :
    ¬ kind.Opens level := by
  rw [hkind]
  exact id

/-- **A forest with matching guards is shown as its visible part**, with the ids that the table has
in the end. -/
theorem brackets_runForest {table : MethodTable} {forest : CallForest Frame}
    (hmatched : Matched classify opened reported level forest)
    (hat : h.At classify opened reported level) (hle : reported ≤ opened)
    (hlimit : reported ≤ rgShadowStackLimit) (hlevel : 0 < level → 0 < reported)
    (hwithin : (runForest classify h forest).1.methodinfo.Within table) :
    (runForest classify h forest).2.flatMap HookOutput.brackets
      = (visible classify table.functionId reported level forest).events := by
  induction forest generalizing opened reported level h with
  | nil => rfl
  | node frame children rest ihc ihr =>
      obtain ⟨hpair, -, -⟩ := allFrames_node_iff.mp (allFrames_of_matched hmatched hat hle hlimit hlevel).1
      obtain ⟨hframe, hafter⟩ := matched_node_iff.mp hmatched
      -- the node by itself leads back to the counters at its start
      have hnode : Matched classify opened reported level (.node frame children .nil) :=
        ⟨hmatched.1, trivial⟩
      obtain ⟨-, hreturned, -⟩ := allFrames_of_matched hnode hat hle hlimit hlevel
      rw [runForest_node] at hreturned hwithin
      have hrest := ihr hafter hreturned hle hlimit hlevel hwithin
      change (runForest classify (rubyEventReturn frame _).1 rest).2.flatMap _ = _ at hrest
      obtain ⟨hcall, -, -⟩ := rubyEventCall_spec hat hlimit frame
      rw [← flatMap_brackets_frames, frames_runForest_node]
      generalize rubyEventCall classify frame h = called at *
      obtain ⟨h₁, os₁⟩ := called
      dsimp only at *
      have hwithin₁ : (runForest classify h₁ children).1.methodinfo.Within table := by
        intro method entry hlookup
        refine hwithin _ _ (runForest_within classify _ rest _ _ ?_)
        rw [(rubyEventReturn_keeps frame _).1, hlookup]
      -- how much of the frame is visible: with what is inside, or only that
      have hinner : ∃ inner : CallForest UInt32,
          (runForest classify h₁ children).2.flatMap HookOutput.brackets = inner.events ∧
          ((frames os₁ = [] ∧ visible classify table.functionId reported level
              (.node frame children rest)
                = inner.append (visible classify table.functionId reported level rest)) ∨
            ∃ instanceId, frames os₁ = [.begin (table.functionId frame.method) instanceId] ∧
              visible classify table.functionId reported level (.node frame children rest)
                = .node (table.functionId frame.method) inner
                    (visible classify table.functionId reported level rest)) := by
        have hdeeper := Nat.le_succ_of_le hle
        cases hcall with
        | full hfull hat₁ hos =>
            refine ⟨_, ihc (hfull ▸ matched_of_full _ _ children) hat₁ hdeeper hlimit hlevel hwithin₁,
              .inl ⟨hos, ?_⟩⟩
            rw [hfull, visible_of_full, visible_of_full, visible_of_full]
            rfl
        | ignored hlt hkind hat₁ hknows hos =>
            have hnot := FrameKind.not_opens_of_ignored hkind level
            have hentered : (frameKind classify frame).entered level = level := by rw [hkind]; rfl
            obtain ⟨-, hchildren⟩ := (hframe hlt).2 hnot
            rw [hentered] at hchildren
            refine ⟨_, ihc hchildren hat₁ hdeeper hlimit hlevel hwithin₁, .inl ⟨hos, ?_⟩⟩
            rw [visible, if_neg fun hshown => hnot hshown.2, hentered]
        | hidden hlt hne hnot hat₁ hknows hos =>
            obtain ⟨-, hchildren⟩ := (hframe hlt).2 hnot
            have hpos := hlevel (FrameKind.inside_of_not_opens hne hnot).1
            refine ⟨_, ihc hchildren hat₁ hdeeper hlimit (fun _ => hpos) hwithin₁, .inl ⟨hos, ?_⟩⟩
            rw [visible, if_neg fun hshown => hnot hshown.2]
        | shown m hlt hne hopens hat₁ hlookup hstack hos =>
            obtain ⟨-, -, hchildren⟩ := (hframe hlt).1 hopens
            have hid := MethodTable.functionId_eq
              (hwithin₁ _ _ (runForest_within classify h₁ children _ _ hlookup))
            refine ⟨_, ihc hchildren hat₁ (Nat.succ_le_succ hle) hlt (fun _ => Nat.succ_pos _) hwithin₁,
              .inr ⟨frame.instanceId, by rw [hos, hid], ?_⟩⟩
            rw [visible, if_pos ⟨hlt, hopens⟩]
      obtain ⟨inner, hinside, ⟨hos, hvisible⟩ | ⟨instanceId, hos, hvisible⟩⟩ := hinner
      · have hos' := hpair.nil_right hos
        rw [hvisible, hos, hos', List.nil_append, List.nil_append, List.flatMap_append,
          flatMap_brackets_frames, flatMap_brackets_frames, hinside, hrest, events_append]
      · obtain ⟨functionId, _, hbegin, hend⟩ := (bracketPair_iff.mp hpair).resolve_right
          fun hnone => by simp [hos] at hnone
        obtain ⟨rfl, -⟩ := HookOutput.begin.inj (List.singleton_inj.mp (hos.symm.trans hbegin))
        rw [hvisible, hos, hend, List.flatMap_append, List.flatMap_append, List.flatMap_append,
          flatMap_brackets_frames, flatMap_brackets_frames, hinside, hrest]
        rfl

/-- **A thread among others is shown as the visible part** of its forest, with the ids that the
shared table has in the end, when the guards match in a classification that this table agrees with.
-/
theorem brackets_threadOutputs {events : List HookEvent} {forest : CallForest Frame}
    (hrules : RulesKept events)
    (hagrees : (Mealy.run (threadedStep config) s events).1.methodinfo.Agrees classify)
    (hat : (s.on thread).At classify 0 0 0) (hevents : threadEvents thread events = forest.events)
    (hmatched : Matched classify 0 0 0 forest) :
    (threadOutputs config s thread events).flatMap HookOutput.brackets
      = (visible classify (Mealy.run (threadedStep config) s events).1.methodinfo.functionId 0 0
          forest).events := by
  obtain ⟨hat', houtputs, htable, -⟩ := threadOutputs_eq_frames hrules hagrees hat hevents hmatched
  rw [houtputs, flatMap_brackets_frames]
  refine brackets_runForest hmatched hat' le_rfl (Nat.zero_le _) id ?_
  rw [← htable]
  exact fun _ _ hlookup => hlookup

end RaygunApm
