import RaygunApm.Library.Mealy

/-! # Forests of calls

A well-nested sequence of calls and returns is the sequence of events of a forest, whose nodes are
the frames. `AllFrames` states a property of what a machine shows at the call and at the return of
every frame; where each frame shows a pair of brackets or nothing, the machine shows a well-nested
sequence again, and `rebuild` reads the forest back from it. `within` cuts a forest off at a depth
that counts only some of the frames. -/

/-- A forest, each node with its children and the trees to its right. -/
inductive CallForest (α : Type*) where
  /-- No frames. -/
  | nil
  /-- A frame with the calls made in it, and the calls after it. -/
  | node (frame : α) (children rest : CallForest α)

/-- The call or the return of a frame. -/
inductive CallEvent (α : Type*) where
  /-- The frame is entered. -/
  | call (frame : α)
  /-- The frame is left. -/
  | ret (frame : α)

namespace CallForest

variable {α β σ ο : Type*}

/-- The events of a forest, in order. -/
def events : CallForest α → List (CallEvent α)
  | nil => []
  | node frame children rest => .call frame :: (children.events ++ .ret frame :: rest.events)

/-- One forest to the right of the other. -/
def append : CallForest α → CallForest α → CallForest α
  | nil, other => other
  | node frame children rest, other => node frame children (rest.append other)

/-- The events of two forests side by side are those of both, in order. -/
@[simp] theorem events_append (forest other : CallForest α) :
    (forest.append other).events = forest.events ++ other.events := by
  induction forest with
  | nil => rfl
  | node frame children rest _ ih => simp [append, events, ih]

/-- Every frame of the forest has the property. -/
def Forall (P : α → Prop) : CallForest α → Prop
  | nil => True
  | node frame children rest => P frame ∧ children.Forall P ∧ rest.Forall P

/-- The counted frames of a forest that are inside fewer than `limit` counted frames, when the whole
forest is inside `above` of them. -/
def within (counted : α → Bool) (limit : Nat) : Nat → CallForest α → CallForest α
  | _, nil => nil
  | above, node frame children rest =>
      let inside := within counted limit (above + if counted frame then 1 else 0) children
      let after := within counted limit above rest
      if counted frame ∧ above < limit then node frame inside after else inside.append after

variable {step : σ → CallEvent α → σ × List ο}

/-- A run over a node: the call, the children, the return, and the rest. -/
theorem run_node (s : σ) (frame : α) (children rest : CallForest α) :
    Mealy.run step s (node frame children rest).events =
      let entered := step s (.call frame)
      let inside := Mealy.run step entered.1 children.events
      let left := step inside.1 (.ret frame)
      let after := Mealy.run step left.1 rest.events
      (after.1, entered.2 ++ (inside.2 ++ (left.2 ++ after.2))) := by
  rw [events, Mealy.run_cons, Mealy.run_append, Mealy.run_cons]

/-- `P` holds of what the machine shows at the call and at the return of every frame. -/
def AllFrames (step : σ → CallEvent α → σ × List ο) (P : List ο → List ο → Prop) :
    σ → CallForest α → Prop
  | _, nil => True
  | s, node frame children rest =>
      let entered := step s (.call frame)
      let inside := Mealy.run step entered.1 children.events
      let left := step inside.1 (.ret frame)
      P entered.2 left.2 ∧ AllFrames step P entered.1 children ∧ AllFrames step P left.1 rest

instance decidableAllFrames (P : List ο → List ο → Prop) [∀ os os', Decidable (P os os')] :
    (s : σ) → (forest : CallForest α) → Decidable (AllFrames step P s forest)
  | _, nil => isTrue trivial
  | s, node frame children rest =>
      have := decidableAllFrames P (step s (.call frame)).1 children
      have := decidableAllFrames P
        (step (Mealy.run step (step s (.call frame)).1 children.events).1 (.ret frame)).1 rest
      inferInstanceAs (Decidable (_ ∧ _ ∧ _))

/-- A weaker property of the frames. -/
theorem AllFrames.imp {P Q : List ο → List ο → Prop} (hPQ : ∀ os os', P os os' → Q os os') {s : σ}
    {forest : CallForest α} (h : AllFrames step P s forest) : AllFrames step Q s forest := by
  induction forest generalizing s with
  | nil => trivial
  | node frame children rest ihc ihr => exact ⟨hPQ _ _ h.1, ihc h.2.1, ihr h.2.2⟩

/-- The outputs show a pair of brackets, or nothing. -/
def Paired (brackets : ο → List (CallEvent β)) (os os' : List ο) : Prop :=
  (∃ b, os.flatMap brackets = [.call b] ∧ os'.flatMap brackets = [.ret b]) ∨
    (os.flatMap brackets = [] ∧ os'.flatMap brackets = [])

/-- **A machine that pairs the brackets of every frame shows a well-nested sequence.** -/
theorem exists_events_of_allFrames {brackets : ο → List (CallEvent β)} {s : σ}
    {forest : CallForest α} (h : AllFrames step (Paired brackets) s forest) :
    ∃ shown : CallForest β, (Mealy.run step s forest.events).2.flatMap brackets = shown.events := by
  induction forest generalizing s with
  | nil => exact ⟨.nil, rfl⟩
  | node frame children rest ihc ihr =>
      obtain ⟨hpair, hchildren, hrest⟩ := h
      obtain ⟨inner, hinner⟩ := ihc hchildren
      obtain ⟨outer, houter⟩ := ihr hrest
      rw [run_node]
      dsimp only
      rw [List.flatMap_append, List.flatMap_append, List.flatMap_append, hinner, houter]
      rcases hpair with ⟨b, hcall, hret⟩ | ⟨hcall, hret⟩
      · exact ⟨.node b inner outer, by rw [hcall, hret]; rfl⟩
      · exact ⟨inner.append outer, by rw [hcall, hret, events_append]; rfl⟩

/-! ## Reading a forest back -/

@[simp] theorem append_nil (forest : CallForest α) : forest.append nil = forest := by
  induction forest with
  | nil => rfl
  | node frame children rest _ ih => rw [append, ih]

theorem append_assoc (forest other another : CallForest α) :
    (forest.append other).append another = forest.append (other.append another) := by
  induction forest with
  | nil => rfl
  | node frame children rest _ ih => rw [append, append, append, ih]

/-- Go on reading, inside the frames `opened`, each with the trees to its left, and behind the trees
`before`. -/
def rebuildFrom [DecidableEq α] :
    List (α × CallForest α) → CallForest α → List (CallEvent α) → Option (CallForest α)
  | [], before, [] => some before
  | _ :: _, _, [] => none
  | opened, before, .call frame :: es => rebuildFrom ((frame, before) :: opened) nil es
  | [], _, .ret _ :: _ => none
  | (frame, left) :: opened, before, .ret frame' :: es =>
      if frame' = frame then rebuildFrom opened (left.append (node frame before nil)) es else none

/-- The forest that has these events, if there is one. -/
def rebuild [DecidableEq α] (es : List (CallEvent α)) : Option (CallForest α) := rebuildFrom [] nil es

/-- A forest is read to its end, and stands behind the trees before it. -/
theorem rebuildFrom_events [DecidableEq α] (opened : List (α × CallForest α))
    (before forest : CallForest α) (es : List (CallEvent α)) :
    rebuildFrom opened before (forest.events ++ es) = rebuildFrom opened (before.append forest) es := by
  induction forest generalizing opened before es with
  | nil => rw [append_nil]; rfl
  | node frame children rest ihc ihr =>
      have hnode : before.append (node frame children rest)
          = (before.append (node frame children nil)).append rest := by
        rw [append_assoc]
        rfl
      rw [events, List.cons_append, List.append_assoc, List.cons_append, rebuildFrom, ihc, rebuildFrom,
        if_pos rfl, ihr, hnode]
      rfl

/-- **A forest is read back from its events.** -/
theorem rebuild_events [DecidableEq α] (forest : CallForest α) :
    rebuild forest.events = some forest := by
  have h := rebuildFrom_events [] nil forest []
  rw [List.append_nil] at h
  exact h

end CallForest
