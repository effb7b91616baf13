import Mathlib.Data.List.Lex
import Mathlib.Order.Lattice
import Mathlib.Data.List.Infix

/-! # Dictionaries ordered by their keys

A dictionary over strings is its list of entries in lexicographic order of the keys. `below` and
`above` are the entries before and after a string, `Ordered` says that the keys increase. The lemmas
about single keys compare strings that part at one character, and `split_below_above` is how a
dictionary falls apart around a string that is not a key.

`commonLength` is the length of the common prefix of two strings: where a character by character
comparison stops. -/

namespace OrderedKeys

/-- Bytes are ordered by their value. -/
instance linearOrderUInt8 : LinearOrder UInt8 where
  le_refl := fun a => Nat.le_refl a.toNat
  le_trans := fun _ _ _ => Nat.le_trans
  lt_iff_le_not_ge := fun _ _ => Nat.lt_iff_le_and_not_ge
  le_antisymm := fun _ _ h h' => UInt8.toNat_inj.mp (Nat.le_antisymm h h')
  le_total := fun a b => Nat.le_total a.toNat b.toNat
  toDecidableLE := inferInstance
  toDecidableEq := inferInstance
  toDecidableLT := inferInstance

section

variable {α V : Type*} [LinearOrder α]

/-! ## Comparing keys -/

/-- A proper prefix comes before the string. -/
theorem lt_of_isPrefix {p s : List α} (h : p <+: s) (hne : p ≠ s) : p < s := by
  obtain ⟨rest, rfl⟩ := h
  cases rest with
  | nil => simp at hne
  | cons c rest =>
      have hnil : p ++ [] < p ++ c :: rest := List.append_left_lt (List.nil_lt_cons c rest)
      rwa [List.append_nil] at hnil

/-- A prefix is not after the string. -/
theorem le_of_isPrefix {p s : List α} (h : p <+: s) : p ≤ s := by
  by_cases hne : p = s
  · exact hne.le
  · exact (lt_of_isPrefix h hne).le

/-- Two strings that part at a character are ordered by it. -/
theorem append_cons_lt (p x y : List α) {c d : α} (h : c < d) : p ++ c :: x < p ++ d :: y :=
  List.append_left_lt (List.cons_lt_cons_iff.mpr (.inl h))

/-- The order below a common prefix is the order. -/
theorem append_lt_append_iff (p : List α) {x y : List α} : p ++ x < p ++ y ↔ x < y := by
  constructor
  · intro h
    by_contra hxy
    obtain rfl | hlt := eq_or_lt_of_le (not_lt.mp hxy)
    · exact lt_irrefl _ h
    · exact lt_asymm h (List.append_left_lt hlt)
  · exact List.append_left_lt

/-! ## Ordered entries -/

/-- The keys increase along the list. -/
def Ordered (entries : List (List α × V)) : Prop := entries.Pairwise fun a b => a.1 < b.1

/-- The entries before `p`. -/
def below (p : List α) (entries : List (List α × V)) : List (List α × V) :=
  entries.filter fun e => e.1 < p

/-- The entries after `p`. -/
def above (p : List α) (entries : List (List α × V)) : List (List α × V) :=
  entries.filter fun e => p < e.1

/-- The entries before `p` are those with smaller keys. -/
theorem mem_below {p : List α} {entries : List (List α × V)} {e : List α × V} :
    e ∈ below p entries ↔ e ∈ entries ∧ e.1 < p := by
  simp [below]

/-- The entries after `p` are those with larger keys. -/
theorem mem_above {p : List α} {entries : List (List α × V)} {e : List α × V} :
    e ∈ above p entries ↔ e ∈ entries ∧ p < e.1 := by
  simp [above]

/-- `new` is `old` with the entry of the key `k` set to `v`. -/
def IsInsert (k : List α) (v : V) (old new : List (List α × V)) : Prop :=
  ∀ e, e ∈ new ↔ e = (k, v) ∨ (e.1 ≠ k ∧ e ∈ old)

/-- Setting a key next to entries under other keys. -/
theorem IsInsert.append_left {k : List α} {v : V} {old new : List (List α × V)}
    (h : IsInsert k v old new) {front : List (List α × V)} (hfront : ∀ e ∈ front, e.1 ≠ k) :
    IsInsert k v (front ++ old) (front ++ new) := by
  intro e
  rw [List.mem_append, List.mem_append, h e]
  have hkey := hfront e
  tauto

/-- Setting a key next to entries under other keys. -/
theorem IsInsert.append_right {k : List α} {v : V} {old new : List (List α × V)}
    (h : IsInsert k v old new) {back : List (List α × V)} (hback : ∀ e ∈ back, e.1 ≠ k) :
    IsInsert k v (old ++ back) (new ++ back) := by
  intro e
  rw [List.mem_append, List.mem_append, h e]
  have hkey := hback e
  tauto

/-- Adding an entry under a fresh key. -/
theorem IsInsert.of_fresh {k : List α} {v : V} {old new : List (List α × V)}
    (hold : ∀ e ∈ old, e.1 ≠ k) (hnew : ∀ e, e ∈ new ↔ e = (k, v) ∨ e ∈ old) :
    IsInsert k v old new := by
  intro e
  have hkey := hold e
  rw [hnew e]
  tauto

/-- **A split around a string is the split by comparison.** -/
theorem split_below_above {p : List α} {before after : List (List α × V)}
    (hbefore : ∀ e ∈ before, e.1 < p) (hafter : ∀ e ∈ after, p < e.1) :
    below p (before ++ after) = before ∧ above p (before ++ after) = after := by
  have hnone : ∀ e ∈ after, ¬ e.1 < p := fun e he => not_lt.mpr (hafter e he).le
  have hnone' : ∀ e ∈ before, ¬ p < e.1 := fun e he => not_lt.mpr (hbefore e he).le
  constructor
  · rw [below, List.filter_append, List.filter_eq_self.mpr fun e he => decide_eq_true (hbefore e he),
      List.filter_eq_nil_iff.mpr fun e he => by simpa using hnone e he, List.append_nil]
  · rw [above, List.filter_append, List.filter_eq_self.mpr fun e he => decide_eq_true (hafter e he),
      List.filter_eq_nil_iff.mpr fun e he => by simpa using hnone' e he, List.nil_append]

/-- The last entry before a string is the greatest one. -/
theorem Ordered.le_getLast {entries : List (List α × V)} (h : Ordered entries) {e last : List α × V}
    (hlast : entries.getLast? = some last) (he : e ∈ entries) : e.1 ≤ last.1 := by
  induction entries with
  | nil => cases he
  | cons x entries ih =>
      obtain ⟨hhead, htail⟩ := List.pairwise_cons.mp h
      cases entries with
      | nil =>
          obtain rfl : e = x := by simpa using he
          simp_all
      | cons y entries =>
          rw [List.getLast?_cons_cons] at hlast
          obtain rfl | he := List.mem_cons.mp he
          · exact (hhead last (List.mem_of_getLast? hlast)).le
          · exact ih htail hlast he

end

/-! ## Common prefixes -/

/-- The number of characters `a` and `b` agree on from their start. -/
def commonLength {α : Type*} [DecidableEq α] : List α → List α → Nat
  | x :: a, y :: b => if x = y then commonLength a b + 1 else 0
  | _, _ => 0

/-- A prefix in front of both lists adds its length to their common length. -/
@[simp] theorem commonLength_append {α : Type*} [DecidableEq α] (pre x y : List α) :
    commonLength (pre ++ x) (pre ++ y) = pre.length + commonLength x y := by
  induction pre with
  | nil => simp
  | cons c pre ih => simp [commonLength, ih, Nat.add_right_comm]

/-- **Where two strings part.** They share `commonLength` characters, and then one of them ends or
they differ in the next character. -/
theorem exists_commonPrefix {α : Type*} [DecidableEq α] (a b : List α) :
    ∃ pre x y, a = pre ++ x ∧ b = pre ++ y ∧ pre.length = commonLength a b ∧
      (x = [] ∨ y = [] ∨ ∃ c d x' y', x = c :: x' ∧ y = d :: y' ∧ c ≠ d) := by
  induction a generalizing b with
  | nil => exact ⟨[], [], b, rfl, rfl, rfl, .inl rfl⟩
  | cons c a ih =>
      cases b with
      | nil => exact ⟨[], c :: a, [], rfl, rfl, rfl, .inr (.inl rfl)⟩
      | cons d b =>
          by_cases h : c = d
          · subst h
            obtain ⟨pre, x, y, hx, hy, hlen, hparts⟩ := ih b
            exact ⟨c :: pre, x, y, by rw [hx, List.cons_append], by rw [hy, List.cons_append],
              by rw [commonLength, if_pos rfl, List.length_cons, hlen], hparts⟩
          · exact ⟨[], c :: a, d :: b, rfl, rfl, by rw [commonLength, if_neg h, List.length_nil],
              .inr (.inr ⟨c, d, a, b, rfl, rfl, h⟩)⟩

end OrderedKeys
