import Mathlib.Data.List.Basic

/-! # Declarations before uses

A stream in which ids are declared under names and then used. Now and then a pass declares again
what is in use, for a reader that has missed what was before. Such a reader understands a use if the
id has been declared since the last completed pass began (`Fresh`), and it has to take no id for two
names (`DeclaredBeforeUse`). The rules below extend these facts by one item of the stream. -/

namespace Declarations

variable {ι ν : Type*}

/-- What a stream consists of. -/
inductive Item (ι ν : Type*) where
  /-- An id is declared to stand for a name. -/
  | declare (id : ι) (name : ν)
  /-- An id is used. -/
  | use (id : ι)
  /-- A pass begins. -/
  | started
  /-- The pass is complete. -/
  | completed
  /-- Something else. -/
  | other
  deriving DecidableEq

/-- The latest completed pass: `mid` came while it lasted, and `post` came after it. -/
structure LatestPass (os pre mid post : List (Item ι ν)) : Prop where
  eq : os = pre ++ .started :: (mid ++ .completed :: post)
  started : .started ∉ mid
  completed : .completed ∉ post

/-- The id has been declared, and if a pass has been completed, so it was since that pass began. -/
structure Fresh (os : List (Item ι ν)) (id : ι) : Prop where
  declared : ∃ name, .declare id name ∈ os
  since : .completed ∈ os → ∃ pre mid post, LatestPass os pre mid post ∧
    ∃ name, .declare id name ∈ mid ++ post

/-- **Every id is declared before it is used**, and for one name only. -/
structure DeclaredBeforeUse (os : List (Item ι ν)) : Prop where
  uses : ∀ before id after, os = before ++ .use id :: after → Fresh before id
  names : ∀ id name name', .declare id name ∈ os → .declare id name' ∈ os → name = name'

/-- A pass is in progress, and `mid` has come since it began. -/
structure InPass (os mid : List (Item ι ν)) : Prop where
  isSuffix : ∃ pre, os = pre ++ .started :: mid
  started : .started ∉ mid
  completed : .completed ∉ mid

/-- A completed pass has begun before. -/
def Marked (os : List (Item ι ν)) : Prop :=
  .completed ∈ os → ∃ pre mid post, LatestPass os pre mid post

variable {os pre mid post : List (Item ι ν)} {o : Item ι ν} {id : ι} {name : ν}

/-! ## Passes -/

/-- An item other than the one put at the end was there before. -/
theorem mem_concat_of_ne {o' : Item ι ν} (h : o' ∈ os ++ [o]) (hne : o ≠ o') : o' ∈ os := by
  rcases List.mem_append.mp h with h | h
  · exact h
  · exact absurd (List.mem_singleton.mp h).symm hne

/-- One more item behind the latest pass belongs behind it, unless it completes another pass. -/
theorem LatestPass.concat (h : LatestPass os pre mid post) (ho : o ≠ .completed) :
    LatestPass (os ++ [o]) pre mid (post ++ [o]) where
  eq := by
    rw [h.eq]
    simp only [List.append_assoc, List.cons_append]
  started := h.started
  completed hmem := h.completed (mem_concat_of_ne hmem ho)

/-- One more item in a pass belongs to the pass, unless it starts or completes one. -/
theorem InPass.concat (h : InPass os mid) (hstarted : o ≠ .started) (hcompleted : o ≠ .completed) :
    InPass (os ++ [o]) (mid ++ [o]) where
  isSuffix := by
    obtain ⟨pre, rfl⟩ := h.isSuffix
    exact ⟨pre, by simp only [List.append_assoc, List.cons_append]⟩
  started hmem := h.started (mem_concat_of_ne hmem hstarted)
  completed hmem := h.completed (mem_concat_of_ne hmem hcompleted)

/-- A start begins a pass in which nothing has been shown yet. -/
theorem inPass_started (os : List (Item ι ν)) : InPass (os ++ [.started]) [] where
  isSuffix := ⟨os, rfl⟩
  started := List.not_mem_nil
  completed := List.not_mem_nil

/-- A pass is complete, and it is the latest one. -/
theorem InPass.complete (h : InPass os mid) :
    ∃ pre, LatestPass (os ++ [.completed]) pre mid [] := by
  obtain ⟨pre, rfl⟩ := h.isSuffix
  refine ⟨pre, ?_, h.started, List.not_mem_nil⟩
  simp only [List.append_assoc, List.cons_append]

/-- Every completion stays marked behind one more item that is not a completion. -/
theorem Marked.concat (h : Marked os) (ho : o ≠ .completed) : Marked (os ++ [o]) := by
  intro hmem
  obtain ⟨pre, mid, post, hlatest⟩ := h (mem_concat_of_ne hmem ho)
  exact ⟨pre, mid, post ++ [o], hlatest.concat ho⟩

/-- Completing the pass in progress leaves every completion marked. -/
theorem InPass.marked (h : InPass os mid) : Marked (os ++ [.completed]) := by
  intro _
  obtain ⟨pre, hlatest⟩ := h.complete
  exact ⟨pre, mid, [], hlatest⟩

/-! ## What is fresh -/

/-- An id stays fresh until a pass is complete. -/
theorem Fresh.concat (h : Fresh os id) (ho : o ≠ .completed) : Fresh (os ++ [o]) id where
  declared := by
    obtain ⟨name, hname⟩ := h.declared
    exact ⟨name, List.mem_append_left _ hname⟩
  since hmem := by
    obtain ⟨pre, mid, post, hlatest, name, hname⟩ := h.since (mem_concat_of_ne hmem ho)
    refine ⟨pre, mid, post ++ [o], hlatest.concat ho, name, ?_⟩
    rw [← List.append_assoc]
    exact List.mem_append_left _ hname

/-- An id that is declared is fresh. -/
theorem Marked.fresh_declare (h : Marked os) (id : ι) (name : ν) :
    Fresh (os ++ [.declare id name]) id where
  declared := ⟨name, List.mem_append_right _ (List.mem_singleton_self _)⟩
  since hmem := by
    have hne : (.declare id name : Item ι ν) ≠ .completed := nofun
    obtain ⟨pre, mid, post, hlatest⟩ := h (mem_concat_of_ne hmem hne)
    refine ⟨pre, mid, post ++ [.declare id name], hlatest.concat hne, name, ?_⟩
    rw [← List.append_assoc]
    exact List.mem_append_right _ (List.mem_singleton_self _)

/-- What a pass has declared is fresh once the pass is complete. -/
theorem InPass.fresh_complete (h : InPass os mid) (hmem : .declare id name ∈ mid) :
    Fresh (os ++ [.completed]) id where
  declared := by
    obtain ⟨pre, rfl⟩ := h.isSuffix
    exact ⟨name, List.mem_append_left _ (List.mem_append_right _ (List.mem_cons_of_mem _ hmem))⟩
  since _ := by
    obtain ⟨pre, hlatest⟩ := h.complete
    exact ⟨pre, mid, [], hlatest, name, List.mem_append_left _ hmem⟩

/-! ## One more item -/

/-- The empty stream declares before it uses. -/
theorem declaredBeforeUse_nil : DeclaredBeforeUse ([] : List (Item ι ν)) where
  uses before id after h := absurd h.symm (by simp)
  names id name name' h := absurd h List.not_mem_nil

/-- **One more item.** A use has to be of a fresh id, and a declaration has to be for the name that
the id stands for already, if it does. -/
theorem DeclaredBeforeUse.concat (h : DeclaredBeforeUse os)
    (huse : ∀ id, o = .use id → Fresh os id)
    (hdeclare : ∀ id name, o = .declare id name → ∀ name', .declare id name' ∈ os → name' = name) :
    DeclaredBeforeUse (os ++ [o]) where
  uses before id after heq := by
    -- the use is the item that is added, or it has been there before
    rcases List.eq_nil_or_concat after with rfl | ⟨after', o', rfl⟩
    · obtain ⟨rfl, ho⟩ := List.append_inj' heq rfl
      exact huse id (List.cons.inj ho).1
    · rw [List.concat_eq_append, ← List.cons_append, ← List.append_assoc] at heq
      exact h.uses before id after' (List.append_inj' heq rfl).1
  names id name name' hname hname' := by
    rcases List.mem_append.mp hname with hname | hname <;>
      rcases List.mem_append.mp hname' with hname' | hname'
    · exact h.names id name name' hname hname'
    · exact hdeclare id name' (List.mem_singleton.mp hname').symm name hname
    · exact (hdeclare id name (List.mem_singleton.mp hname).symm name' hname').symm
    · have heq := (List.mem_singleton.mp hname).trans (List.mem_singleton.mp hname').symm
      exact (Item.declare.inj heq).2

end Declarations
