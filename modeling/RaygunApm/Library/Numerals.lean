import Mathlib.Tactic.Ring
import RaygunApm.Library.OrderedKeys

/-! # Numerals in dictionary order

`decimal n` is the decimal numeral of `n` in ASCII. Numerals that are compared as strings are
compared by value only when they are of one length; `decimal_lt_decimal_iff` and
`decimal_lt_decimal_of_shorter` say what the comparison comes to in general: the longer numeral is
cut to the length of the shorter one. A separator that comes before every digit makes the order of
joined numerals the order of the components, one after the other (`separated_lt_iff`). -/

namespace Numerals

open OrderedKeys

/-! ## Strings -/

section

variable {α : Type*} [LinearOrder α]

/-- Strings that start with blocks of one length. -/
theorem append_lt_append_iff_of_length {x y u v : List α} (h : x.length = y.length) :
    x ++ u < y ++ v ↔ x < y ∨ x = y ∧ u < v := by
  induction x generalizing y with
  | nil =>
      obtain rfl := List.length_eq_zero_iff.mp h.symm
      simp
  | cons a x ih =>
      cases y with
      | nil => simp at h
      | cons b y =>
          rw [List.cons_append, List.cons_append, List.cons_lt_cons_iff, List.cons_lt_cons_iff,
            ih (by simpa using h)]
          simp only [List.cons.injEq]
          tauto

/-- A longer string before one of the length of its front. -/
theorem append_lt_iff {x y : List α} (h : x.length = y.length) (u : List α) :
    x ++ u < y ↔ x < y := by
  have hiff := append_lt_append_iff_of_length (u := u) (v := []) h
  rw [List.append_nil] at hiff
  simp [hiff]

/-- A string before a longer one. -/
theorem lt_append_iff {x y : List α} (h : x.length = y.length) {v : List α} (hv : v ≠ []) :
    x < y ++ v ↔ x ≤ y := by
  have hiff := append_lt_append_iff_of_length (u := []) (v := v) h
  rw [List.append_nil] at hiff
  obtain ⟨c, v, rfl⟩ := List.exists_cons_of_ne_nil hv
  rw [hiff, and_iff_left (List.nil_lt_cons c v), ← le_iff_lt_or_eq]

/-- **A separator before every letter** makes the order of the joined strings the order of their
components. -/
theorem separated_lt_iff {t : α} {x y : List α} (hx : ∀ a ∈ x, t < a) (hy : ∀ a ∈ y, t < a)
    (u v : List α) : x ++ t :: u < y ++ t :: v ↔ x < y ∨ x = y ∧ u < v := by
  induction x generalizing y with
  | nil =>
      cases y with
      | nil => simp
      | cons b y =>
          have hb := (List.forall_mem_cons.mp hy).1
          simp [List.cons_lt_cons_iff, hb]
  | cons a x ih =>
      obtain ⟨ha, hx⟩ := List.forall_mem_cons.mp hx
      cases y with
      | nil => simp [List.cons_lt_cons_iff, ha.not_gt, ha.ne']
      | cons b y =>
          rw [List.cons_append, List.cons_append, List.cons_lt_cons_iff, List.cons_lt_cons_iff,
            ih hx (List.forall_mem_cons.mp hy).2]
          simp only [List.cons.injEq]
          tauto

/-- Two strings of one length, as the images of two others under a map that keeps the order of the
letters. -/
theorem map_lt_map_iff {β : Type*} [LinearOrder β] {f : α → β} {p : α → Prop}
    (hf : ∀ a b, p a → p b → (f a < f b ↔ a < b)) {x y : List α} (hx : ∀ a ∈ x, p a)
    (hy : ∀ a ∈ y, p a) : x.map f < y.map f ↔ x < y := by
  induction x generalizing y with
  | nil => cases y <;> simp
  | cons a x ih =>
      obtain ⟨ha, hx⟩ := List.forall_mem_cons.mp hx
      cases y with
      | nil => simp
      | cons b y =>
          obtain ⟨hb, hy⟩ := List.forall_mem_cons.mp hy
          have heq : f a = f b ↔ a = b := by
            constructor
            · intro h
              exact le_antisymm (not_lt.mp fun hlt => h.not_gt ((hf b a hb ha).mpr hlt))
                (not_lt.mp fun hlt => h.not_lt ((hf a b ha hb).mpr hlt))
            · exact congrArg f
          rw [List.map_cons, List.map_cons, List.cons_lt_cons_iff, List.cons_lt_cons_iff,
            hf a b ha hb, heq, ih hx hy]

end

/-! ## Values of digit strings -/

/-- The number that a string of digits stands for, the most significant digit first. -/
def value (base : ℕ) : List ℕ → ℕ
  | [] => 0
  | d :: ds => d * base ^ ds.length + value base ds

variable {base : ℕ}

/-- The value of a string that is put together. -/
theorem value_append (ds es : List ℕ) :
    value base (ds ++ es) = value base ds * base ^ es.length + value base es := by
  induction ds with
  | nil => simp [value]
  | cons d ds ih =>
      rw [List.cons_append, value, value, ih, List.length_append, pow_add, add_mul, mul_assoc,
        add_assoc]

/-- A string of digits stands for a number below the power of its length. -/
theorem value_lt {ds : List ℕ} (hds : ∀ d ∈ ds, d < base) : value base ds < base ^ ds.length := by
  induction ds with
  | nil => simp [value]
  | cons d ds ih =>
      obtain ⟨hd, hds⟩ := List.forall_mem_cons.mp hds
      calc value base (d :: ds) = d * base ^ ds.length + value base ds := rfl
        _ < d * base ^ ds.length + base ^ ds.length := by
            exact Nat.add_lt_add_left (ih hds) _
        _ = (d + 1) * base ^ ds.length := by ring
        _ ≤ base * base ^ ds.length := Nat.mul_le_mul_right _ hd
        _ = base ^ (d :: ds).length := by rw [List.length_cons, pow_succ, mul_comm]

/-- The digits in front stand for a quotient. -/
theorem value_div {ds es : List ℕ} (hes : ∀ d ∈ es, d < base) :
    value base (ds ++ es) / base ^ es.length = value base ds := by
  have hlt := value_lt hes
  rw [value_append, mul_comm, Nat.mul_add_div (Nat.zero_lt_of_lt hlt), Nat.div_eq_of_lt hlt,
    Nat.add_zero]

/-- **Among strings of digits of one length the dictionary order is the order of the values.** -/
theorem lt_iff_value_lt {ds es : List ℕ} (h : ds.length = es.length) (hds : ∀ d ∈ ds, d < base)
    (hes : ∀ d ∈ es, d < base) : ds < es ↔ value base ds < value base es := by
  induction ds generalizing es with
  | nil =>
      obtain rfl := List.length_eq_zero_iff.mp h.symm
      simp
  | cons d ds ih =>
      cases es with
      | nil => simp at h
      | cons e es =>
          obtain ⟨-, hds⟩ := List.forall_mem_cons.mp hds
          obtain ⟨-, hes⟩ := List.forall_mem_cons.mp hes
          have hlength : ds.length = es.length := by simpa using h
          have hd := value_lt hds
          have he := value_lt hes
          rw [List.cons_lt_cons_iff, ih hlength hds hes, value, value, hlength]
          rw [hlength] at hd
          constructor
          -- a larger first digit outweighs all digits behind it
          · rintro (hlt | ⟨rfl, hlt⟩)
            · have hmul : (d + 1) * base ^ es.length ≤ e * base ^ es.length :=
                Nat.mul_le_mul_right _ hlt
              rw [add_mul, one_mul] at hmul
              omega
            · omega
          · intro hlt
            rcases lt_trichotomy d e with hde | rfl | hde
            · exact .inl hde
            · exact .inr ⟨rfl, by omega⟩
            · have hmul : (e + 1) * base ^ es.length ≤ d * base ^ es.length :=
                Nat.mul_le_mul_right _ hde
              rw [add_mul, one_mul] at hmul
              omega

/-- **A longer string of digits is cut.** -/
theorem lt_iff_div_lt {ds es : List ℕ} (h : es.length ≤ ds.length) (hds : ∀ d ∈ ds, d < base)
    (hes : ∀ d ∈ es, d < base) :
    ds < es ↔ value base ds / base ^ (ds.length - es.length) < value base es := by
  obtain ⟨front, back, rfl, hfront⟩ : ∃ front back, ds = front ++ back ∧ front.length = es.length :=
    ⟨_, _, (List.take_append_drop es.length ds).symm, by simpa using h⟩
  obtain ⟨hfd, hbd⟩ := List.forall_mem_append.mp hds
  have hback : (front ++ back).length - es.length = back.length := by
    rw [List.length_append]
    omega
  rw [append_lt_iff hfront, lt_iff_value_lt hfront hfd hes, hback, value_div hbd]

/-- A shorter string of digits is compared with the front of the longer one, and comes before it if
it is the same. -/
theorem lt_iff_le_div {ds es : List ℕ} (h : ds.length < es.length) (hds : ∀ d ∈ ds, d < base)
    (hes : ∀ d ∈ es, d < base) :
    ds < es ↔ value base ds ≤ value base es / base ^ (es.length - ds.length) := by
  obtain ⟨front, back, rfl, hfront⟩ : ∃ front back, es = front ++ back ∧ ds.length = front.length :=
    ⟨_, _, (List.take_append_drop ds.length es).symm, by simpa using h.le⟩
  obtain ⟨hfe, hbe⟩ := List.forall_mem_append.mp hes
  rw [List.length_append] at h
  have hback : (front ++ back).length - ds.length = back.length := by
    rw [List.length_append]
    omega
  have hne : back ≠ [] := List.ne_nil_of_length_pos (by omega)
  rw [lt_append_iff hfront hne, ← not_lt, lt_iff_value_lt hfront.symm hfe hds, not_lt, hback,
    value_div hbe]

/-! ## Decimal numerals -/

/-- The decimal numeral of a number, in ASCII. -/
def decimal (n : ℕ) : List UInt8 := (Nat.toDigits 10 n).map fun c => c.toNat.toUInt8

/-- The ASCII digit. -/
def glyph (d : ℕ) : UInt8 := (48 + d).toUInt8

/-- The code of the digit `d` is `48 + d`. -/
theorem toNat_glyph {d : ℕ} (hd : d < 10) : (glyph d).toNat = 48 + d :=
  UInt8.toNat_ofNat_of_lt' (by simp only [UInt8.size]; omega)

/-- The codes of digits are ordered as the digits. -/
theorem glyph_lt_glyph_iff (d e : ℕ) (hd : d < 10) (he : e < 10) : glyph d < glyph e ↔ d < e := by
  show (glyph d).toNat < (glyph e).toNat ↔ d < e
  rw [toNat_glyph hd, toNat_glyph he]
  omega

/-- `Nat.digitChar` and `glyph` are the same character for a digit. -/
theorem toUInt8_digitChar {d : ℕ} (hd : d < 10) : d.digitChar.toNat.toUInt8 = glyph d := by
  rw [Nat.toNat_digitChar_of_lt_ten hd, glyph]

/-- A numeral consists of digits that stand for its number. -/
theorem exists_digits (n : ℕ) :
    ∃ ds : List ℕ, decimal n = ds.map glyph ∧ (∀ d ∈ ds, d < 10) ∧ value 10 ds = n := by
  induction n using Nat.strongRecOn with
  | ind n ih =>
      by_cases hn : n < 10
      · refine ⟨[n], ?_, by simpa using hn, by simp [value]⟩
        rw [decimal, Nat.toDigits_of_lt_base hn, List.map_singleton, toUInt8_digitChar hn]
        rfl
      · obtain ⟨ds, hds, hlt, hvalue⟩ := ih (n / 10) (by omega)
        have hmod : n % 10 < 10 := Nat.mod_lt _ (by decide)
        refine ⟨ds ++ [n % 10], ?_, ?_, ?_⟩
        · rw [decimal, Nat.toDigits_of_base_le (by decide) (by omega), List.map_append,
            List.map_append, ← hds, decimal, List.map_singleton, List.map_singleton,
            toUInt8_digitChar hmod]
        · exact List.forall_mem_append.mpr ⟨hlt, by simpa using hmod⟩
        · rw [value_append, hvalue]
          simp only [value, List.length_singleton, List.length_nil, pow_zero, pow_one, mul_one,
            add_zero]
          omega

/-- The bytes of a numeral are digits. -/
theorem mem_decimal {n : ℕ} {c : UInt8} (hc : c ∈ decimal n) : ∃ d < 10, c = glyph d := by
  obtain ⟨ds, hds, hlt, -⟩ := exists_digits n
  rw [hds, List.mem_map] at hc
  obtain ⟨d, hd, rfl⟩ := hc
  exact ⟨d, hlt d hd, rfl⟩

/-- A numeral stands for the number it was made from. -/
theorem value_decimal (n : ℕ) : value 10 ((decimal n).map fun c => c.toNat - 48) = n := by
  obtain ⟨ds, hds, hlt, hvalue⟩ := exists_digits n
  have hmap : (ds.map glyph).map (fun c => c.toNat - 48) = ds := by
    rw [List.map_map]
    conv_rhs => rw [← List.map_id ds]
    refine List.map_congr_left fun d hd => ?_
    rw [Function.comp, toNat_glyph (hlt d hd), Nat.add_sub_cancel_left, id]
  rw [hds, hmap, hvalue]

/-- Numerals of different numbers are different. -/
theorem decimal_injective : Function.Injective decimal := by
  intro m n h
  rw [← value_decimal m, h, value_decimal n]

/-- A numeral has a digit at least. -/
theorem length_decimal_pos (n : ℕ) : 0 < (decimal n).length := by
  rw [decimal, List.length_map]
  exact Nat.length_toDigits_pos

/-- **The length of a numeral**: at most `k` digits exactly for the numbers below `10 ^ k`. -/
theorem length_decimal_le_iff {n k : ℕ} (hk : 0 < k) : (decimal n).length ≤ k ↔ n < 10 ^ k := by
  rw [decimal, List.length_map, Nat.length_toDigits_le_iff (by decide) hk]

/-- **A longer numeral is cut**: what counts are as many of its digits as the other one has. -/
theorem decimal_lt_decimal_iff {m n : ℕ} (h : (decimal n).length ≤ (decimal m).length) :
    decimal m < decimal n ↔ m / 10 ^ ((decimal m).length - (decimal n).length) < n := by
  obtain ⟨ds, hds, hdlt, hdvalue⟩ := exists_digits m
  obtain ⟨es, hes, helt, hevalue⟩ := exists_digits n
  rw [hds, hes, List.length_map, List.length_map] at h ⊢
  rw [map_lt_map_iff glyph_lt_glyph_iff hdlt helt, lt_iff_div_lt h hdlt helt, hdvalue, hevalue]

/-- **A shorter numeral** is compared with as many digits of the longer one. -/
theorem decimal_lt_decimal_of_shorter {m n : ℕ} (h : (decimal m).length < (decimal n).length) :
    decimal m < decimal n ↔ m ≤ n / 10 ^ ((decimal n).length - (decimal m).length) := by
  obtain ⟨ds, hds, hdlt, hdvalue⟩ := exists_digits m
  obtain ⟨es, hes, helt, hevalue⟩ := exists_digits n
  rw [hds, hes, List.length_map, List.length_map] at h ⊢
  rw [map_lt_map_iff glyph_lt_glyph_iff hdlt helt, lt_iff_le_div h hdlt helt, hdvalue, hevalue]

end Numerals
