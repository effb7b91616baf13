import Mathlib.Data.List.Basic

/-! # Contiguous memory as a list of cells

`readAt` and `writeAt` are the block read and the block write (`memcpy`) on a memory given as the
list of its cells. The lemmas are the usual read-over-write laws: a read sees the block just
written, and a read of a disjoint range does not see the write at all. -/

namespace ByteMemory

variable {α : Type*}

/-- The `size` cells from `offset` on. -/
def readAt (memory : List α) (offset size : Nat) : List α := (memory.drop offset).take size

/-- Overwrite the cells from `offset` on by `block`. -/
def writeAt (memory : List α) (offset : Nat) (block : List α) : List α :=
  memory.take offset ++ block ++ memory.drop (offset + block.length)

@[simp] theorem readAt_zero (memory : List α) (offset : Nat) : readAt memory offset 0 = [] := by
  simp [readAt]

/-- A read at the start takes from the front. -/
theorem readAt_start (memory : List α) (size : Nat) : readAt memory 0 size = memory.take size := by
  rw [readAt, List.drop_zero]

/-- A read inside the memory returns as many cells as asked for. -/
theorem length_readAt {memory : List α} {offset size : Nat} (h : offset + size ≤ memory.length) :
    (readAt memory offset size).length = size := by
  simp only [readAt, List.length_take, List.length_drop]
  omega

/-- Two adjacent reads are one read. -/
theorem readAt_add (memory : List α) (offset m n : Nat) :
    readAt memory offset (m + n) = readAt memory offset m ++ readAt memory (offset + m) n := by
  simp [readAt, List.take_add, List.drop_drop]

/-- The front of a read is a shorter read. -/
theorem take_readAt (memory : List α) {offset size n : Nat} (h : n ≤ size) :
    (readAt memory offset size).take n = readAt memory offset n := by
  rw [readAt, List.take_take, Nat.min_eq_left h, readAt]

/-- The rest of a read is a read further on. -/
theorem drop_readAt (memory : List α) (offset size n : Nat) :
    (readAt memory offset size).drop n = readAt memory (offset + n) (size - n) := by
  rw [readAt, List.drop_take, List.drop_drop, readAt]

/-- A write inside the memory does not change its size. -/
theorem length_writeAt {memory block : List α} {offset : Nat}
    (h : offset + block.length ≤ memory.length) :
    (writeAt memory offset block).length = memory.length := by
  simp only [writeAt, List.length_append, List.length_take, List.length_drop]
  omega

/-- A write never shrinks the memory. -/
theorem le_length_writeAt (memory block : List α) (offset : Nat) :
    memory.length ≤ (writeAt memory offset block).length := by
  simp only [writeAt, List.length_append, List.length_take, List.length_drop]
  omega

/-- A write of nothing changes nothing. -/
@[simp] theorem writeAt_nil (memory : List α) (offset : Nat) : writeAt memory offset [] = memory := by
  simp [writeAt]

/-- After a write that starts inside the memory the block lies inside the memory. -/
theorem block_le_length_writeAt {memory : List α} {offset : Nat} (block : List α)
    (h : offset ≤ memory.length) : offset + block.length ≤ (writeAt memory offset block).length := by
  simp only [writeAt, List.length_append, List.length_take, List.length_drop]
  omega

/-- **A read sees the block just written.** -/
theorem readAt_writeAt {memory : List α} {offset : Nat} (block : List α)
    (h : offset ≤ memory.length) :
    readAt (writeAt memory offset block) offset block.length = block := by
  have hlen : (memory.take offset).length = offset := List.length_take_of_le h
  unfold readAt writeAt
  rw [List.append_assoc, List.drop_left' hlen, List.take_left]

/-- A read inside the block just written. -/
theorem readAt_writeAt_inside {memory : List α} {offset i n : Nat} (block : List α) (h : offset ≤ i)
    (hn : i + n ≤ offset + block.length) (hmem : offset ≤ memory.length) :
    readAt (writeAt memory offset block) i n = readAt block (i - offset) n := by
  have hfront : (memory.take offset).length = offset := List.length_take_of_le hmem
  have hblock : n ≤ (block.drop (i - offset)).length := by
    rw [List.length_drop]
    omega
  unfold readAt writeAt
  rw [List.append_assoc, List.drop_append, List.drop_of_length_le (by omega), List.nil_append, hfront,
    List.drop_append_of_le_length (by omega), List.take_append_of_le_length hblock]

/-- A read below the block does not see the write. -/
theorem readAt_writeAt_below {memory : List α} {offset i n : Nat} (block : List α)
    (h : i + n ≤ offset) (hmem : offset ≤ memory.length) :
    readAt (writeAt memory offset block) i n = readAt memory i n := by
  have hlen : (memory.take offset).length = offset := List.length_take_of_le hmem
  have hmin : min n (offset - i) = n := by omega
  unfold readAt writeAt
  rw [List.append_assoc, List.drop_append_of_le_length (by omega),
    List.take_append_of_le_length (by simp only [List.length_drop, hlen]; omega),
    List.drop_take, List.take_take, hmin]

/-- A read above the block does not see the write. -/
theorem readAt_writeAt_above {memory : List α} {offset i n : Nat} (block : List α)
    (h : offset + block.length ≤ i) (hmem : offset ≤ memory.length) :
    readAt (writeAt memory offset block) i n = readAt memory i n := by
  have hlen : (memory.take offset ++ block).length = offset + block.length := by
    rw [List.length_append, List.length_take_of_le hmem]
  have hsum : offset + block.length + (i - (offset + block.length)) = i := by omega
  unfold readAt writeAt
  rw [List.drop_append, List.drop_of_length_le (by omega), List.nil_append, hlen,
    List.drop_drop, hsum]

/-- A block that starts like itself moved behind copies of a cell has nothing but this cell: every
cell is one of the copies, or an earlier cell. -/
theorem eq_of_take_replicate_append {k : Nat} (hk : 0 < k) {cell : α} {block : List α}
    (h : (List.replicate k cell ++ block).take block.length = block) : ∀ x ∈ block, x = cell := by
  have hcells : ∀ i, (hi : i < block.length) → block[i] = cell := by
    intro i
    induction i using Nat.strongRecOn with
    | ind i ih =>
        intro hi
        have hi' : i < ((List.replicate k cell ++ block).take block.length).length := by
          rwa [h]
        have hcell : block[i] = ((List.replicate k cell ++ block).take block.length)[i] :=
          List.getElem_of_eq h.symm hi
        rw [hcell, List.getElem_take]
        by_cases hik : i < k
        · rw [List.getElem_append_left (by rwa [List.length_replicate]), List.getElem_replicate]
        · rw [List.getElem_append_right (by rw [List.length_replicate]; omega)]
          exact ih _ (by rw [List.length_replicate]; omega) _
  intro x hx
  obtain ⟨i, hi, rfl⟩ := List.mem_iff_getElem.mp hx
  exact hcells i hi

end ByteMemory
