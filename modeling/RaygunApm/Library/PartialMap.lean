import Mathlib.Logic.Function.Basic

/-! # Partial maps

A table is a function into options, and its changes are updates of this function. What a table holds
after a change is the new entry, or one that it has held before under another key. -/

namespace PartialMap

variable {α β : Type*} [DecidableEq α] {f : α → Option β} {a x : α} {v y : β}

/-- What a table holds after an entry is made. -/
theorem insert_eq_some_iff :
    Function.update f a (some v) x = some y ↔ x = a ∧ v = y ∨ x ≠ a ∧ f x = some y := by
  by_cases hx : x = a
  · subst hx
    simp
  · simp [hx]

/-- What a table holds after an entry is taken out. -/
theorem erase_eq_some_iff : Function.update f a none x = some y ↔ x ≠ a ∧ f x = some y := by
  by_cases hx : x = a
  · subst hx
    simp
  · simp [hx]

end PartialMap
