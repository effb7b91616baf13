import Mathlib.Data.List.Basic
import Mathlib.Control.Monad.Basic

/-! # Readers that undo an encoding

A reader takes a value off the front of a list of symbols, or fails. `Reads r code a` says that `r`
reads `code` as `a` whatever follows, so `code` delimits itself; readers in sequence read codes in
sequence. -/

namespace PrefixCode

variable {σ α β : Type}

/-- A reader of values of type `α` off lists of symbols of type `σ`. -/
abbrev Reader (σ α : Type) : Type := StateT (List σ) Option α

/-- `reader` reads `code` as `a`, and stops right behind it. -/
def Reads (reader : Reader σ α) (code : List σ) (a : α) : Prop :=
  ∀ rest, reader.run (code ++ rest) = some (a, rest)

/-- Take a given number of symbols. -/
def exactly (n : Nat) : Reader σ (List σ) := fun symbols =>
  if n ≤ symbols.length then some (symbols.take n, symbols.drop n) else none

/-- Read values until no symbols are left, at most `fuel` of them. -/
def many (reader : Reader σ α) : Nat → List σ → Option (List α)
  | _, [] => some []
  | 0, _ :: _ => none
  | fuel + 1, s :: symbols =>
      match reader.run (s :: symbols) with
      | some (a, rest) => (many reader fuel rest).map (a :: ·)
      | none => none

/-- Nothing is read as the value itself. -/
theorem Reads.pure (a : α) : Reads (pure a : Reader σ α) [] a := fun _ => rfl

/-- **Codes in sequence** are read by readers in sequence. -/
theorem Reads.bind {reader : Reader σ α} {next : α → Reader σ β} {code code' : List σ} {a : α} {b : β}
    (h : Reads reader code a) (h' : Reads (next a) code' b) :
    Reads (reader >>= next) (code ++ code') b := by
  intro rest
  rw [StateT.run_bind, List.append_assoc, h]
  exact h' rest

/-- A last value after the last code. -/
theorem Reads.bind_pure {reader : Reader σ α} {next : α → Reader σ β} {code : List σ} {a : α} {b : β}
    (h : Reads reader code a) (h' : next a = Pure.pure b) : Reads (reader >>= next) code b := by
  have hbind := h.bind (h' ▸ Reads.pure b)
  rwa [List.append_nil] at hbind

/-- **Codes of one reader are prefix-free**: where two of them start the same list, they are the
same value, and the rests agree. -/
theorem Reads.append_inj {reader : Reader σ α} {code code' rest rest' : List σ} {a a' : α}
    (h : Reads reader code a) (h' : Reads reader code' a') (heq : code ++ rest = code' ++ rest') :
    a = a' ∧ rest = rest' := by
  have hread : some (a, rest) = some (a', rest') := by
    rw [← h rest, heq, h' rest']
  exact Prod.mk.inj (Option.some.inj hread)

/-- Changing the value read does not change the code. -/
theorem Reads.map {reader : Reader σ α} {code : List σ} {a : α} (h : Reads reader code a)
    (f : α → β) : Reads (f <$> reader) code (f a) := by
  intro rest
  rw [StateT.run_map, h]
  rfl

/-- A code is read by reading as many symbols as it has. -/
theorem reads_exactly {code : List σ} {n : Nat} (h : code.length = n) :
    Reads (exactly n) code code := by
  intro rest
  have hle : n ≤ (code ++ rest).length := by
    rw [List.length_append, h]
    exact Nat.le_add_right _ _
  show (if n ≤ (code ++ rest).length then _ else _) = _
  rw [if_pos hle, List.take_left' h, List.drop_left' h]

/-- **A concatenation of codes is read value by value.** -/
theorem many_flatMap {γ : Type} {reader : Reader σ α} {encode : γ → List σ} {value : γ → α}
    (hreads : ∀ c, Reads reader (encode c) (value c)) (hne : ∀ c, encode c ≠ []) (cs : List γ)
    {fuel : Nat} (hfuel : cs.length ≤ fuel) :
    many reader fuel (cs.flatMap encode) = some (cs.map value) := by
  induction cs generalizing fuel with
  | nil => cases fuel <;> rfl
  | cons c cs ih =>
      cases fuel with
      | zero => exact absurd hfuel (Nat.not_succ_le_zero _)
      | succ fuel =>
          obtain ⟨s, symbols, hcode⟩ := List.exists_cons_of_ne_nil (hne c)
          have hread := hreads c (cs.flatMap encode)
          rw [List.flatMap_cons, hcode, List.cons_append, many]
          rw [hcode, List.cons_append] at hread
          rw [hread]
          dsimp only
          rw [ih (Nat.le_of_succ_le_succ hfuel)]
          rfl

/-- A concatenation of codes has at least as many symbols as codes. -/
theorem length_le_flatten {codes : List (List σ)} (h : ∀ code ∈ codes, code ≠ []) :
    codes.length ≤ codes.flatten.length := by
  induction codes with
  | nil => exact Nat.le_refl _
  | cons code codes ih =>
      obtain ⟨hcode, hcodes⟩ := List.forall_mem_cons.mp h
      have hpos := List.length_pos_iff.mpr hcode
      have hrest := ih hcodes
      rw [List.flatten_cons, List.length_append, List.length_cons]
      omega

/-- **Codes that are read as themselves** are what a concatenation of them splits into. -/
theorem many_flatten {reader : Reader σ (List σ)} {codes : List (List σ)}
    (h : ∀ code ∈ codes, Reads reader code code ∧ code ≠ []) {fuel : Nat}
    (hfuel : codes.length ≤ fuel) : many reader fuel codes.flatten = some codes := by
  have hread := @many_flatMap σ (List σ) { code // Reads reader code code ∧ code ≠ [] } reader
    Subtype.val Subtype.val (fun c => c.2.1) (fun c => c.2.2) (codes.attachWith _ h) fuel
    (by rwa [List.length_attachWith])
  rwa [List.flatMap_def, List.attachWith_map_subtype_val] at hread

end PrefixCode
