import Mathlib.Data.List.Infix

/-! # Patterns at the end of a line

Patterns of letters, each of which may be optional, that match up to the end of a line, and the
removal of all their matches from a string, from left to right. `matchEnd` tries an optional letter
first and goes back where that leads nowhere. A pattern stands for the finite list of strings
`expand`, and on strings of a single line a match is one of these, `matchEnd_eq_of_line`. -/

namespace EndPattern

variable {α : Type*} [DecidableEq α]

/-- A letter of a pattern. -/
inductive Item (α : Type*) where
  /-- `a`. -/
  | letter (a : α)
  /-- `a?`. -/
  | optional (a : α)
deriving DecidableEq

/-- The end of a line. -/
def atEnd (eol : α) (s : List α) : Bool := s.isEmpty || s.head? = some eol

/-- Match a pattern up to the end of a line: what is left of the string. -/
def matchEnd (eol : α) : List (Item α) → List α → Option (List α)
  | [], s => if atEnd eol s then some s else none
  | .letter _ :: _, [] => none
  | .letter a :: items, b :: s => if a = b then matchEnd eol items s else none
  | .optional _ :: items, [] => matchEnd eol items []
  | .optional a :: items, b :: s =>
      if a = b then (matchEnd eol items s).or (matchEnd eol items (b :: s))
      else matchEnd eol items (b :: s)

/-- Remove the matches from left to right; the first letters, as many as given, belong to a match.
-/
def removeFrom (eol : α) (items : List (Item α)) : Nat → List α → List α
  | _, [] => []
  | n + 1, _ :: s => removeFrom eol items n s
  | 0, a :: s =>
      match matchEnd eol items (a :: s) with
      | none => a :: removeFrom eol items 0 s
      | some rest =>
          -- an empty match leaves its letter where it is
          if rest.length ≤ s.length then removeFrom eol items (s.length - rest.length) s
          else a :: removeFrom eol items 0 s

/-- Remove the matches. -/
def remove (eol : α) (items : List (Item α)) (s : List α) : List α := removeFrom eol items 0 s

/-- The strings a pattern stands for. -/
def expand : List (Item α) → List (List α)
  | [] => [[]]
  | .letter a :: items => (expand items).map (a :: ·)
  | .optional a :: items => (expand items).map (a :: ·) ++ expand items

variable {eol : α} {items : List (Item α)} {s : List α}

omit [DecidableEq α] in
/-- A pattern of letters stands for one string. -/
@[simp] theorem expand_letters (w : List α) : expand (w.map Item.letter) = [w] := by
  induction w with
  | nil => rfl
  | cons a w ih => rw [List.map_cons, expand, ih, List.map_singleton]

omit [DecidableEq α] in
/-- Letters and one more that is optional. -/
theorem expand_letters_optional (w : List α) (a : α) :
    expand (w.map Item.letter ++ [.optional a]) = [w ++ [a], w] := by
  induction w with
  | nil => rfl
  | cons b w ih => rw [List.map_cons, List.cons_append, expand, ih]; rfl

/-- A string without the end of a line ends at its end only. -/
theorem atEnd_iff (h : eol ∉ s) : atEnd eol s = true ↔ s = [] := by
  cases s with
  | nil => simp [atEnd]
  | cons a s =>
      have ha : a ≠ eol := fun heq => h (heq ▸ List.mem_cons_self)
      simp [atEnd, ha]

/-- **On a string of one line a match is the whole string**, if it is one the pattern stands for. -/
theorem matchEnd_eq_of_line (h : eol ∉ s) :
    matchEnd eol items s = if s ∈ expand items then some [] else none := by
  induction items generalizing s with
  | nil =>
      rw [matchEnd]
      by_cases hs : s = []
      · simp [hs, atEnd, expand]
      · simp [(atEnd_iff h).not.mpr hs, expand, hs]
  | cons item items ih =>
      cases item with
      | letter a =>
          cases s with
          | nil => simp [matchEnd, expand]
          | cons b s =>
              have hs : eol ∉ s := fun hmem => h (List.mem_cons_of_mem b hmem)
              rw [matchEnd, ih hs]
              by_cases hab : a = b
              · simp [hab, expand]
              · simp [hab, expand]
      -- with the letter first, as the matcher tries it, or without it
      | optional a =>
          cases s with
          | nil => rw [matchEnd, ih h]; simp [expand]
          | cons b s =>
              have hs : eol ∉ s := fun hmem => h (List.mem_cons_of_mem b hmem)
              rw [matchEnd, ih hs, ih h]
              by_cases hab : a = b
              · subst hab
                by_cases hrest : s ∈ expand items
                · simp [expand, hrest]
                · simp [expand, hrest]
              · simp [hab, expand]

/-- The letters of a match are skipped. -/
theorem removeFrom_length (w : List α) : removeFrom eol items w.length w = [] := by
  induction w with
  | nil => rfl
  | cons a w ih => rw [List.length_cons, removeFrom, ih]

/-- **Nothing to remove** where no end of the string is one the pattern stands for. -/
theorem remove_eq_self (h : eol ∉ s) (hnone : ∀ t, t <:+ s → t ∉ expand items) :
    remove eol items s = s := by
  rw [remove]
  induction s with
  | nil => rfl
  | cons a s ih =>
      have hs : eol ∉ s := fun hmem => h (List.mem_cons_of_mem a hmem)
      rw [removeFrom, matchEnd_eq_of_line h, if_neg (hnone _ List.suffix_rfl)]
      exact congrArg (a :: ·) (ih hs fun t ht => hnone t (ht.trans (List.suffix_cons a s)))

/-- **The end of the string is removed** where it is the longest one that the pattern stands for. -/
theorem remove_append {front w : List α} (h : eol ∉ front ++ w) (hw : w ∈ expand items)
    (hne : w ≠ []) (hfirst : ∀ t, t <:+ front → t ≠ [] → t ++ w ∉ expand items) :
    remove eol items (front ++ w) = front := by
  rw [remove]
  induction front with
  | nil =>
      obtain ⟨a, w, rfl⟩ := List.exists_cons_of_ne_nil hne
      rw [List.nil_append] at h ⊢
      rw [removeFrom, matchEnd_eq_of_line h, if_pos hw]
      simp only [List.length_nil, Nat.zero_le, if_true, Nat.sub_zero]
      exact removeFrom_length w
  | cons a front ih =>
      have hrest : eol ∉ front ++ w := fun hmem => h (List.mem_cons_of_mem a hmem)
      have hnot := hfirst (a :: front) List.suffix_rfl (List.cons_ne_nil a front)
      rw [List.cons_append] at hnot h ⊢
      rw [removeFrom, matchEnd_eq_of_line h, if_neg hnot]
      exact congrArg (a :: ·) (ih hrest fun t ht => hfirst t (ht.trans (List.suffix_cons a front)))

end EndPattern
