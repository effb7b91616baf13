import Mathlib.Data.List.Forall2
import Mathlib.Data.List.Flatten

/-! # Machines with outputs

A step function `σ → ι → σ × List ο` reads an input and emits a list of outputs. `run` feeds it a
list of inputs. The rules below are the ones a verification needs: an invariant of the steps is an
invariant of the runs, a property of the outputs of every step is one of the outputs of a run, what
every step takes in and gives out adds up along a run, and a machine each of whose steps is matched
by a run of another one is simulated by it. -/

namespace Mealy

variable {σ ι ο τ κ π : Type*}

/-- Run a machine on a list of inputs, collecting its outputs. -/
def run (step : σ → ι → σ × List ο) : σ → List ι → σ × List ο
  | s, [] => (s, [])
  | s, i :: is => ((run step (step s i).1 is).1, (step s i).2 ++ (run step (step s i).1 is).2)

variable {step : σ → ι → σ × List ο}

@[simp] theorem run_nil (s : σ) : run step s [] = (s, []) := rfl

/-- Cons reading of `run`: the first step, then the rest from the state reached. -/
theorem run_cons (s : σ) (i : ι) (is : List ι) :
    run step s (i :: is)
      = ((run step (step s i).1 is).1, (step s i).2 ++ (run step (step s i).1 is).2) := rfl

/-- A run of one input is a step. -/
@[simp] theorem run_singleton (s : σ) (i : ι) : run step s [i] = step s i := by
  simp [run_cons]

/-- A run on two lists is the second run from where the first one ends. -/
theorem run_append (s : σ) (is js : List ι) :
    run step s (is ++ js)
      = ((run step (run step s is).1 js).1,
          (run step s is).2 ++ (run step (run step s is).1 js).2) := by
  induction is generalizing s with
  | nil => rfl
  | cons i is ih => simp only [List.cons_append, run_cons, ih, List.append_assoc]

/-- **Invariant rule.** What every step preserves, every run preserves. -/
theorem run_invariant {P : σ → Prop} (hstep : ∀ s i, P s → P (step s i).1) {s : σ} (hs : P s)
    (is : List ι) : P (run step s is).1 := by
  induction is generalizing s with
  | nil => exact hs
  | cons i is ih => exact ih (hstep s i hs)

/-- **History rule.** An invariant of the state and of all outputs so far. -/
theorem run_history {P : List ο → σ → Prop}
    (hstep : ∀ os s i, P os s → P (os ++ (step s i).2) (step s i).1) {os : List ο} {s : σ}
    (hs : P os s) (is : List ι) : P (os ++ (run step s is).2) (run step s is).1 := by
  induction is generalizing os s with
  | nil => simpa using hs
  | cons i is ih =>
      rw [run_cons, ← List.append_assoc]
      exact ih (hstep os s i hs)

/-- **Output rule.** What every step from an invariant state emits, every run emits. -/
theorem run_outputs {P : σ → Prop} {Q : ο → Prop} (hstep : ∀ s i, P s → P (step s i).1)
    (hout : ∀ s i, P s → ∀ o ∈ (step s i).2, Q o) {s : σ} (hs : P s) (is : List ι) :
    ∀ o ∈ (run step s is).2, Q o := by
  induction is generalizing s with
  | nil => simp
  | cons i is ih =>
      intro o ho
      rcases List.mem_append.mp ho with hfirst | hrest
      · exact hout s i hs o hfirst
      · exact ih (hstep s i hs) o hrest

/-! ## Conditions on the steps of a run -/

/-- Every step of the run meets the condition, which may look at the state before the step and at
the input. -/
def AllSteps (step : σ → ι → σ × List ο) (C : σ → ι → Prop) : σ → List ι → Prop
  | _, [] => True
  | s, i :: is => C s i ∧ AllSteps step C (step s i).1 is

instance decidableAllSteps (C : σ → ι → Prop) [∀ s i, Decidable (C s i)] :
    (s : σ) → (is : List ι) → Decidable (AllSteps step C s is)
  | _, [] => isTrue trivial
  | s, i :: is =>
      have := decidableAllSteps C (step s i).1 is
      inferInstanceAs (Decidable (_ ∧ _))

/-- A condition that an invariant implies is met by every run. -/
theorem allSteps_of_invariant {P : σ → Prop} {C : σ → ι → Prop}
    (hstep : ∀ s i, P s → P (step s i).1) (hC : ∀ s i, P s → C s i) {s : σ} (hs : P s)
    (is : List ι) : AllSteps step C s is := by
  induction is generalizing s with
  | nil => trivial
  | cons i is ih => exact ⟨hC s i hs, ih (hstep s i hs)⟩

/-- A condition on the inputs alone is met by the runs on such inputs. -/
theorem allSteps_of_forall {C : ι → Prop} {is : List ι} (h : ∀ i ∈ is, C i) (s : σ) :
    AllSteps step (fun _ i => C i) s is := by
  induction is generalizing s with
  | nil => trivial
  | cons i is ih =>
      obtain ⟨hfirst, hrest⟩ := List.forall_mem_cons.mp h
      exact ⟨hfirst, ih hrest _⟩

/-- **Conditional invariant rule.** What the steps that meet a condition preserve, the runs whose
steps all meet it preserve. -/
theorem run_invariant_of_allSteps {P : σ → Prop} {C : σ → ι → Prop}
    (hstep : ∀ s i, P s → C s i → P (step s i).1) {s : σ} (hs : P s) {is : List ι}
    (hC : AllSteps step C s is) : P (run step s is).1 := by
  induction is generalizing s with
  | nil => exact hs
  | cons i is ih => exact ih (hstep s i hs hC.1) hC.2

/-- **Conditional invariant and output rule.** What the steps that meet a condition preserve and
emit, the runs whose steps all meet it preserve and emit. -/
theorem run_of_allSteps {P : σ → Prop} {C : σ → ι → Prop} {Q : ο → Prop}
    (hstep : ∀ s i, P s → C s i → P (step s i).1 ∧ ∀ o ∈ (step s i).2, Q o) {s : σ} (hs : P s)
    {is : List ι} (hC : AllSteps step C s is) :
    P (run step s is).1 ∧ ∀ o ∈ (run step s is).2, Q o := by
  induction is generalizing s with
  | nil => exact ⟨hs, List.forall_mem_nil _⟩
  | cons i is ih =>
      obtain ⟨hfirst, hout⟩ := hstep s i hs hC.1
      obtain ⟨hlast, hrest⟩ := ih hfirst hC.2
      exact ⟨hlast, List.forall_mem_append.mpr ⟨hout, hrest⟩⟩

/-- **Conditional history rule.** An invariant of the state and of all outputs so far, along the
runs whose steps all meet a condition. -/
theorem run_history_of_allSteps {P : List ο → σ → Prop} {C : σ → ι → Prop}
    (hstep : ∀ os s i, P os s → C s i → P (os ++ (step s i).2) (step s i).1) {os : List ο} {s : σ}
    (hs : P os s) {is : List ι} (hC : AllSteps step C s is) :
    P (os ++ (run step s is).2) (run step s is).1 := by
  induction is generalizing os s with
  | nil => simpa using hs
  | cons i is ih =>
      rw [run_cons, ← List.append_assoc]
      exact ih (hstep os s i hs hC.1) hC.2

/-- **State condition rule.** If a step that does not meet a condition ends in a bad state, a run
through good states meets it at every step. `D` is what is known of the inputs. -/
theorem allSteps_of_states {P V : σ → Prop} {C D : σ → ι → Prop}
    (hstep : ∀ s i, P s → D s i → C s i → P (step s i).1)
    (hgood : ∀ s i, P s → D s i → V (step s i).1 → C s i) {s : σ} (hs : P s) {is : List ι}
    (hD : AllSteps step D s is) (hV : ∀ before, before <+: is → V (run step s before).1) :
    AllSteps step C s is := by
  induction is generalizing s with
  | nil => trivial
  | cons i is ih =>
      have hC : C s i := hgood s i hs hD.1 (hV [i] ⟨is, rfl⟩)
      refine ⟨hC, ih (hstep s i hs hD.1 hC) hD.2 fun before hbefore => ?_⟩
      exact hV (i :: before) (List.cons_prefix_cons.mpr ⟨rfl, hbefore⟩)

/-- The steps of a prefix of a run meet the condition too. -/
theorem AllSteps.of_isPrefix {C : σ → ι → Prop} {s : σ} {is js : List ι} (h : AllSteps step C s js)
    (hle : is <+: js) : AllSteps step C s is := by
  induction is generalizing s js with
  | nil => trivial
  | cons i is ih =>
      obtain ⟨rest, rfl⟩ := hle
      exact ⟨h.1, ih h.2 ⟨rest, rfl⟩⟩

/-- Where all steps of a run meet a condition, each meets it where the inputs before it lead. -/
theorem AllSteps.of_split {C : σ → ι → Prop} {s : σ} {before after : List ι} {i : ι}
    (h : AllSteps step C s (before ++ i :: after)) : C (run step s before).1 i := by
  induction before generalizing s with
  | nil => exact h.1
  | cons j before ih => exact ih h.2

/-- Two conditions on the steps of a run. -/
theorem AllSteps.and {C D : σ → ι → Prop} {s : σ} {is : List ι} (h : AllSteps step C s is)
    (h' : AllSteps step D s is) : AllSteps step (fun s i => C s i ∧ D s i) s is := by
  induction is generalizing s with
  | nil => trivial
  | cons i is ih => exact ⟨⟨h.1, h'.1⟩, ih h.2 h'.2⟩

/-- **Equivalence of a condition and good states.** Where the steps that meet a condition keep an
invariant of good states, and the others end in a bad one, a run goes through good states exactly if
all its steps meet the condition. `D` is what is known of the inputs. -/
theorem states_iff_allSteps {P V : σ → Prop} {C D : σ → ι → Prop}
    (hstep : ∀ s i, P s → D s i → C s i → P (step s i).1) (hgood : ∀ s, P s → V s)
    (hbad : ∀ s i, P s → D s i → V (step s i).1 → C s i) {s : σ} (hs : P s) {is : List ι}
    (hD : AllSteps step D s is) :
    (∀ before, before <+: is → V (run step s before).1) ↔ AllSteps step C s is := by
  constructor
  · intro hV
    exact allSteps_of_states hstep hbad hs hD hV
  · intro hC before hbefore
    have hsteps := (hD.and hC).of_isPrefix hbefore
    exact hgood _ (run_invariant_of_allSteps (fun s i h hi => hstep s i h hi.1 hi.2) hs hsteps)

/-- **Equivalence of conditions.** Two conditions that agree in invariant states are met by the same
runs. `D` is what is known of the inputs. -/
theorem allSteps_congr {P : σ → Prop} {C C' D : σ → ι → Prop}
    (hstep : ∀ s i, P s → D s i → P (step s i).1)
    (hiff : ∀ s i, P s → D s i → (C s i ↔ C' s i)) {s : σ} (hs : P s) {is : List ι}
    (hD : AllSteps step D s is) : AllSteps step C s is ↔ AllSteps step C' s is := by
  induction is generalizing s with
  | nil => exact Iff.rfl
  | cons i is ih => exact and_congr (hiff s i hs hD.1) (ih (hstep s i hs hD.1) hD.2)

/-- **Output condition rule.** When, from invariant states, a step emits only outputs with a
property exactly if it meets a condition, a run does so exactly if all its steps meet the condition.
-/
theorem run_outputs_iff {P : σ → Prop} {C : σ → ι → Prop} {Q : ο → Prop}
    (hstep : ∀ s i, P s → P (step s i).1)
    (hiff : ∀ s i, P s → ((∀ o ∈ (step s i).2, Q o) ↔ C s i)) {s : σ} (hs : P s) (is : List ι) :
    (∀ o ∈ (run step s is).2, Q o) ↔ AllSteps step C s is := by
  induction is generalizing s with
  | nil => exact iff_of_true (List.forall_mem_nil _) trivial
  | cons i is ih =>
      rw [run_cons, List.forall_mem_append, hiff s i hs, ih (hstep s i hs)]
      rfl

/-- **Output rule by position.** The outputs of a run are those of its steps, each taken from where
the inputs before it lead. -/
theorem run_outputs_iff_split {Q : ο → Prop} {s : σ} {is : List ι} :
    (∀ o ∈ (run step s is).2, Q o) ↔
      ∀ before i after, is = before ++ i :: after →
        ∀ o ∈ (step (run step s before).1 i).2, Q o := by
  constructor
  · rintro h before i after rfl o ho
    apply h o
    rw [run_append, run_cons, List.mem_append, List.mem_append]
    exact .inr (.inl ho)
  · intro h
    induction is generalizing s with
    | nil => exact List.forall_mem_nil _
    | cons i is ih =>
        rw [run_cons, List.forall_mem_append]
        refine ⟨h [] i is rfl, ih fun before j after hsplit => ?_⟩
        exact h (i :: before) j after (by rw [hsplit, List.cons_append])

/-- The steps of a run on two lists. -/
theorem allSteps_append {C : σ → ι → Prop} {s : σ} {is js : List ι} :
    AllSteps step C s (is ++ js) ↔
      AllSteps step C s is ∧ AllSteps step C (run step s is).1 js := by
  induction is generalizing s with
  | nil => simp [AllSteps]
  | cons i is ih =>
      rw [List.cons_append, AllSteps, AllSteps, ih, and_assoc]
      rfl

/-- The steps of a run, each where the inputs before it lead. -/
theorem allSteps_iff_split {C : σ → ι → Prop} {s : σ} {is : List ι} :
    AllSteps step C s is ↔
      ∀ before i after, is = before ++ i :: after → C (run step s before).1 i := by
  constructor
  · rintro h before i after rfl
    exact h.of_split
  · intro h
    induction is generalizing s with
    | nil => trivial
    | cons i is ih =>
        refine ⟨h [] i is rfl, ih fun before j after hsplit => ?_⟩
        exact h (i :: before) j after (by rw [hsplit, List.cons_append])

/-- **Growth rule.** Where every step leads upwards in a preorder, everything on the way of a run is
below its end. -/
theorem allSteps_le_run {R : σ → σ → Prop} {C : σ → ι → Prop} (hrefl : ∀ s, R s s)
    (htrans : ∀ s t u, R s t → R t u → R s u) (hstep : ∀ s i, C s i → R s (step s i).1) {s : σ}
    {is : List ι} (hC : AllSteps step C s is) :
    R s (run step s is).1 ∧
      AllSteps step (fun s' i => R (step s' i).1 (run step s is).1) s is := by
  induction is generalizing s with
  | nil => exact ⟨hrefl s, trivial⟩
  | cons i is ih =>
      obtain ⟨hend, hsteps⟩ := ih hC.2
      exact ⟨htrans _ _ _ (hstep s i hC.1) hend, hend, hsteps⟩

/-- **Accounting rule.** A machine that holds a list of items, takes items in at the end and gives
items out at the front, does so along every run whose steps all meet the condition. -/
theorem run_accounting {μ : Type*} {P : σ → List μ → Prop} {C : σ → ι → Prop} {inp out : ο → List μ}
    (hstep : ∀ s i held, P s held → C s i → ∃ held', P (step s i).1 held' ∧
      held ++ (step s i).2.flatMap inp = (step s i).2.flatMap out ++ held')
    {s : σ} {held : List μ} (hs : P s held) {is : List ι} (hC : AllSteps step C s is) :
    ∃ held', P (run step s is).1 held' ∧
      held ++ (run step s is).2.flatMap inp = (run step s is).2.flatMap out ++ held' := by
  induction is generalizing s held with
  | nil => exact ⟨held, hs, by simp⟩
  | cons i is ih =>
      obtain ⟨mid, hmid, hfirst⟩ := hstep s i held hs hC.1
      obtain ⟨held', hheld', hrest⟩ := ih hmid hC.2
      refine ⟨held', hheld', ?_⟩
      rw [run_cons, List.flatMap_append, List.flatMap_append, ← List.append_assoc, hfirst,
        List.append_assoc, hrest, List.append_assoc]

/-! ## Simulation -/

/-- **Conditional observation rule.** Two machines that show the same in every step that meets a
condition, from related states, show the same along every run whose steps all meet it. -/
theorem run_observation_of_allSteps {step' : τ → ι → τ × List π} (Rel : σ → τ → Prop)
    (view : ο → List κ) (view' : π → List κ) {C : σ → ι → Prop}
    (hstep : ∀ s t i, Rel s t → C s i → Rel (step s i).1 (step' t i).1 ∧
      (step s i).2.flatMap view = (step' t i).2.flatMap view')
    {s : σ} {t : τ} (hrel : Rel s t) {is : List ι} (hC : AllSteps step C s is) :
    Rel (run step s is).1 (run step' t is).1 ∧
      (run step s is).2.flatMap view = (run step' t is).2.flatMap view' := by
  induction is generalizing s t with
  | nil => exact ⟨hrel, rfl⟩
  | cons i is ih =>
      obtain ⟨hfirst, hview⟩ := hstep s t i hrel hC.1
      obtain ⟨hlast, hrest⟩ := ih hfirst hC.2
      rw [run_cons, run_cons, List.flatMap_append, List.flatMap_append, hview, hrest]
      exact ⟨hlast, rfl⟩

/-- **Observation rule.** Two machines that show the same on every input, from related states, show
the same along every run. -/
theorem run_observation {step' : τ → ι → τ × List π} (Rel : σ → τ → Prop) (view : ο → List κ)
    (view' : π → List κ)
    (hstep : ∀ s t i, Rel s t → Rel (step s i).1 (step' t i).1 ∧
      (step s i).2.flatMap view = (step' t i).2.flatMap view')
    {s : σ} {t : τ} (hrel : Rel s t) (is : List ι) :
    Rel (run step s is).1 (run step' t is).1 ∧
      (run step s is).2.flatMap view = (run step' t is).2.flatMap view' :=
  run_observation_of_allSteps (C := fun _ _ => True) Rel view view' (fun s t i h _ => hstep s t i h)
    hrel (allSteps_of_forall (fun _ _ => trivial) s)

/-- **Simulation rule.** When every step is matched by a run of a second machine, on the inputs
`inputs i`, every run is matched, state for state and output for output. -/
theorem run_simulation {step' : τ → κ → τ × List π} (Rel : σ → τ → Prop) (Out : π → ο → Prop)
    (inputs : ι → List κ)
    (hstep : ∀ s t i, Rel s t → Rel (step s i).1 (run step' t (inputs i)).1 ∧
      List.Forall₂ Out (run step' t (inputs i)).2 (step s i).2)
    {s : σ} {t : τ} (hrel : Rel s t) (is : List ι) :
    Rel (run step s is).1 (run step' t (is.flatMap inputs)).1 ∧
      List.Forall₂ Out (run step' t (is.flatMap inputs)).2 (run step s is).2 := by
  induction is generalizing s t with
  | nil => exact ⟨hrel, .nil⟩
  | cons i is ih =>
      obtain ⟨hfirst, hout⟩ := hstep s t i hrel
      obtain ⟨hlast, hrest⟩ := ih hfirst
      rw [List.flatMap_cons, run_append, run_cons]
      exact ⟨hlast, List.rel_append hout hrest⟩

/-- **Projection rule.** A machine that reads only the inputs `inputs i` shows, along every run,
what the whole machine shows of it, if it does so at every step. `C` is what is known of the steps
of the whole machine, and `C'` what is known of those of the projection. -/
theorem run_projection {step' : τ → κ → τ × List π} {ρ : Type*} (Rel : σ → τ → Prop)
    (inputs : ι → List κ) (view : ο → List ρ) (view' : π → List ρ) {C : σ → ι → Prop}
    {C' : τ → κ → Prop}
    (hstep : ∀ s t i, Rel s t → C s i → AllSteps step' C' t (inputs i) →
      Rel (step s i).1 (run step' t (inputs i)).1 ∧
        (step s i).2.flatMap view = (run step' t (inputs i)).2.flatMap view')
    {s : σ} {t : τ} (hrel : Rel s t) {is : List ι} (hC : AllSteps step C s is)
    (hC' : AllSteps step' C' t (is.flatMap inputs)) :
    Rel (run step s is).1 (run step' t (is.flatMap inputs)).1 ∧
      (run step s is).2.flatMap view = (run step' t (is.flatMap inputs)).2.flatMap view' := by
  induction is generalizing s t with
  | nil => exact ⟨hrel, rfl⟩
  | cons i is ih =>
      rw [List.flatMap_cons, allSteps_append] at hC'
      obtain ⟨hfirst, hview⟩ := hstep s t i hrel hC.1 hC'.1
      obtain ⟨hlast, hrest⟩ := ih hfirst hC.2 hC'.2
      rw [List.flatMap_cons, run_append, run_cons, List.flatMap_append, List.flatMap_append, hview,
        hrest]
      exact ⟨hlast, rfl⟩

/-- The second machine reads what the first one emits. -/
def cascade (step : σ → ι → σ × List ο) (step' : τ → ο → τ × List π) (w : σ × τ) (i : ι) :
    (σ × τ) × List π :=
  (((step w.1 i).1, (run step' w.2 (step w.1 i).2).1), (run step' w.2 (step w.1 i).2).2)

variable {step' : τ → ο → τ × List π}

/-- A condition on the first machine. -/
theorem AllSteps.cascade {C : σ → ι → Prop} {s : σ} {is : List ι} (h : AllSteps step C s is) (t : τ) :
    AllSteps (cascade step step') (fun w i => C w.1 i) (s, t) is := by
  induction is generalizing s t with
  | nil => trivial
  | cons i is ih => exact ⟨h.1, ih h.2 _⟩

end Mealy
