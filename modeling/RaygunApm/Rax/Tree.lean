import RaygunApm.Library.OrderedKeys
import RaygunApm.Ring.Bipbuffer

/-! # The radix tree

`rax.c`: the nodes of the compressed radix tree the tracer keeps its rules in, the walk
`raxLowWalk` that every operation starts with, and the lookup `raxFind`. A node is one of

* a node without children, which always is a key;
* a normal node, with one child for each of its characters, in increasing order;
* a compressed node, which stands for a run of characters with one child below the last.

The head of an empty tree is a node without children that is no key: `Rax.head` is then `none`.

`entries` is what the tree stands for: its keys with their values, in order. `Linked` describes the
stack of parents that the walk leaves behind and `Stops` where the walk ends. -/

namespace RaygunApm

open OrderedKeys

variable {V : Type}

mutual

/-- `raxNode`: `value` is the data of a key, `none` of a node with `iskey` unset. -/
inductive RaxNode (V : Type) where
  | leaf (value : V)
  | normal (value : Option V) (children : RaxChildren V)
  | compressed (value : Option V) (data : Bytes) (child : RaxNode V)

/-- The characters and child pointers of a normal node of positive size. -/
inductive RaxChildren (V : Type) where
  | last (char : UInt8) (child : RaxNode V)
  | cons (char : UInt8) (child : RaxNode V) (rest : RaxChildren V)

end

/-! ## Nodes -/

/-- `raxGetData` of a key. -/
def RaxNode.value : RaxNode V → Option V
  | .leaf value => some value
  | .normal value _ => value
  | .compressed value _ _ => value

/-- `iscompr`. -/
def RaxNode.iscompr : RaxNode V → Bool
  | .compressed _ _ _ => true
  | _ => false

/-- The characters of a normal node. -/
@[simp] def RaxChildren.chars : RaxChildren V → Bytes
  | .last char _ => [char]
  | .cons char _ rest => char :: rest.chars

/-- `size`: the number of children, or the number of characters of a compressed node. -/
def RaxNode.size : RaxNode V → Nat
  | .leaf _ => 0
  | .normal _ children => children.chars.length
  | .compressed _ data _ => data.length

@[simp] theorem RaxNode.value_leaf (value : V) : (RaxNode.leaf value).value = some value := rfl

@[simp] theorem RaxNode.value_normal (value : Option V) (children : RaxChildren V) :
    (RaxNode.normal value children).value = value := rfl

@[simp] theorem RaxNode.value_compressed (value : Option V) (data : Bytes) (child : RaxNode V) :
    (RaxNode.compressed value data child).value = value := rfl

@[simp] theorem RaxNode.iscompr_leaf (value : V) : (RaxNode.leaf value).iscompr = false := rfl

@[simp] theorem RaxNode.iscompr_normal (value : Option V) (children : RaxChildren V) :
    (RaxNode.normal value children).iscompr = false := rfl

@[simp] theorem RaxNode.iscompr_compressed (value : Option V) (data : Bytes) (child : RaxNode V) :
    (RaxNode.compressed value data child).iscompr = true := rfl

/-- The child under a character, by the linear scan of the source. -/
def RaxChildren.find? : RaxChildren V → UInt8 → Option (RaxNode V)
  | .last char child, c => if char = c then some child else none
  | .cons char child rest, c => if char = c then some child else rest.find? c

/-! ## What a tree stands for -/

/-- The entry of the node itself, under the empty key. -/
def RaxNode.own (node : RaxNode V) : List (Bytes × V) := (node.value.map fun v => ([], v)).toList

/-- Prepend `p` to every key. -/
def under (p : Bytes) (entries : List (Bytes × V)) : List (Bytes × V) :=
  entries.map fun e => (p ++ e.1, e.2)

mutual

/-- The keys at and below a node with their values, relative to the node. -/
def RaxNode.entries : RaxNode V → List (Bytes × V)
  | .leaf value => [([], value)]
  | .normal value children => (value.map fun v => ([], v)).toList ++ children.entries
  | .compressed value data child =>
      (value.map fun v => ([], v)).toList ++ under data child.entries

/-- The keys below the children of a normal node. -/
def RaxChildren.entries : RaxChildren V → List (Bytes × V)
  | .last char child => under [char] child.entries
  | .cons char child rest => under [char] child.entries ++ rest.entries

end

/-- The entries below a node, without its own. -/
def RaxNode.deeper : RaxNode V → List (Bytes × V)
  | .leaf _ => []
  | .normal _ children => children.entries
  | .compressed _ data child => under data child.entries

mutual

/-- The shape the insertion keeps: children in increasing order of their characters, no empty run.
-/
def RaxNode.WellFormed : RaxNode V → Prop
  | .leaf _ => True
  | .normal _ children => children.WellFormed
  | .compressed _ data child => data ≠ [] ∧ child.WellFormed

/-- `WellFormed` of the children of a normal node. -/
def RaxChildren.WellFormed : RaxChildren V → Prop
  | .last _ child => child.WellFormed
  | .cons char child rest => child.WellFormed ∧ rest.WellFormed ∧ ∀ d ∈ rest.chars, char < d

end

/-- `rax`: the head, `none` while the tree has no element. -/
structure Rax (V : Type) where
  head : Option (RaxNode V)
  wellFormed : ∀ node ∈ head, node.WellFormed

/-- `raxNew`. -/
def raxNew : Rax V := ⟨none, by simp⟩

/-- The keys of a tree with their values, in order. -/
def Rax.entries (t : Rax V) : List (Bytes × V) := (t.head.map RaxNode.entries).getD []

/-! ## The walk -/

/-- A parent node on the stack of the walk, with the characters of the link taken out of it. -/
structure RaxFrame (V : Type) where
  node : RaxNode V
  edge : Bytes

/-- What `raxLowWalk` returns: the number of characters processed, the node where it stopped, the
position inside a compressed node, and the stack of parents, the last one first. -/
structure RaxWalk (V : Type) where
  matched : Nat
  node : RaxNode V
  splitpos : Nat
  stack : List (RaxFrame V)

mutual

/-- `raxLowWalk` from a node on: `s` is what is left of the string, `i` the characters processed. -/
def RaxNode.lowWalk : RaxNode V → Bytes → Nat → List (RaxFrame V) → RaxWalk V
  | .leaf value, _, i, stack => ⟨i, .leaf value, 0, stack⟩
  | .normal value children, [], i, stack => ⟨i, .normal value children, 0, stack⟩
  | .normal value children, c :: s, i, stack =>
      children.lowWalk (.normal value children) c s i stack
  | .compressed value data child, s, i, stack =>
      let j := commonLength data s
      if s ≠ [] ∧ j = data.length then
        child.lowWalk (s.drop j) (i + j) (⟨.compressed value data child, data⟩ :: stack)
      else ⟨i + j, .compressed value data child, j, stack⟩

/-- The scan of the children of `parent` for the character `c`. -/
def RaxChildren.lowWalk :
    RaxChildren V → RaxNode V → UInt8 → Bytes → Nat → List (RaxFrame V) → RaxWalk V
  | .last char child, parent, c, s, i, stack =>
      if char = c then child.lowWalk s (i + 1) (⟨parent, [c]⟩ :: stack) else ⟨i, parent, 0, stack⟩
  | .cons char child rest, parent, c, s, i, stack =>
      if char = c then child.lowWalk s (i + 1) (⟨parent, [c]⟩ :: stack)
      else rest.lowWalk parent c s i stack

end

/-- `raxLowWalk` of a string from the head. -/
def raxLowWalk (head : RaxNode V) (s : Bytes) : RaxWalk V := head.lowWalk s 0 []

/-- `raxFind`: `none` is `raxNotFound`. -/
def raxFind (t : Rax V) (s : Bytes) : Option V :=
  match t.head with
  | none => none
  | some head =>
      let w := raxLowWalk head s
      if w.matched ≠ s.length ∨ (w.node.iscompr ∧ w.splitpos ≠ 0) then none else w.node.value

/-! ## Entries -/

@[simp] theorem under_nil (entries : List (Bytes × V)) : under [] entries = entries := by
  simp [under]

@[simp] theorem under_empty (p : Bytes) : under p ([] : List (Bytes × V)) = [] := rfl

@[simp] theorem under_append (p : Bytes) (a b : List (Bytes × V)) :
    under p (a ++ b) = under p a ++ under p b := List.map_append

/-- Two prefixes are put in front of the keys as one. -/
theorem under_under (p q : Bytes) (entries : List (Bytes × V)) :
    under p (under q entries) = under (p ++ q) entries := by
  simp [under, Function.comp_def]

/-- Only no entries are no entries under a prefix. -/
@[simp] theorem under_eq_nil {p : Bytes} {entries : List (Bytes × V)} :
    under p entries = [] ↔ entries = [] := List.map_eq_nil_iff

/-- The entries under a prefix are those with the prefix in front of the key. -/
theorem mem_under {p : Bytes} {entries : List (Bytes × V)} {e : Bytes × V} :
    e ∈ under p entries ↔ ∃ k, (k, e.2) ∈ entries ∧ e.1 = p ++ k := by
  constructor
  · intro h
    obtain ⟨x, hx, rfl⟩ := List.mem_map.mp h
    exact ⟨x.1, hx, rfl⟩
  · rintro ⟨k, hk, he⟩
    exact List.mem_map.mpr ⟨(k, e.2), hk, by rw [← he]⟩

/-- Entries stay ordered under a common prefix. -/
theorem ordered_under {p : Bytes} {entries : List (Bytes × V)} (h : Ordered entries) :
    Ordered (under p entries) :=
  List.pairwise_map.mpr (h.imp fun hlt => (append_lt_append_iff p).mpr hlt)

/-- A node's own entry comes first. -/
theorem RaxNode.entries_eq (n : RaxNode V) : n.entries = n.own ++ n.deeper := by
  cases n <;> simp [RaxNode.entries, RaxNode.own, RaxNode.deeper]

/-- The own entry of a node has the empty key and the value of the node. -/
theorem RaxNode.mem_own {n : RaxNode V} {e : Bytes × V} :
    e ∈ n.own ↔ e.1 = [] ∧ n.value = some e.2 := by
  obtain ⟨k, v⟩ := e
  rw [RaxNode.own, Option.mem_toList, Option.map_eq_some_iff]
  constructor
  · rintro ⟨w, hw, heq⟩
    obtain ⟨rfl, rfl⟩ := Prod.mk.inj heq
    exact ⟨rfl, hw⟩
  · rintro ⟨rfl, hv⟩
    exact ⟨v, hv, rfl⟩

/-- The entries of the children start with a character of the node. -/
theorem RaxChildren.exists_of_mem_entries : {cs : RaxChildren V} → {e : Bytes × V} →
    e ∈ cs.entries → ∃ c k, c ∈ cs.chars ∧ e.1 = c :: k
  | .last char child, e, h => by
      obtain ⟨k, -, he⟩ := mem_under.mp h
      exact ⟨char, k, by simp, he⟩
  | .cons char child rest, e, h => by
      rcases List.mem_append.mp h with h | h
      · obtain ⟨k, -, he⟩ := mem_under.mp h
        exact ⟨char, k, by simp, he⟩
      · obtain ⟨c, k, hc, he⟩ := RaxChildren.exists_of_mem_entries h
        exact ⟨c, k, by simp [hc], he⟩

mutual

/-- **The entries of a node are in order.** -/
theorem RaxNode.WellFormed.ordered : {n : RaxNode V} → n.WellFormed → Ordered n.entries
  | .leaf value, _ => List.pairwise_singleton _ _
  | .normal value children, h => by
      rw [RaxNode.entries]
      refine List.pairwise_append.mpr
        ⟨by cases value <;> simp, RaxChildren.WellFormed.ordered h, ?_⟩
      intro a ha b hb
      obtain ⟨c, k, -, hk⟩ := RaxChildren.exists_of_mem_entries hb
      obtain ⟨hnil, -⟩ := RaxNode.mem_own (n := .normal value children).mp ha
      rw [hnil, hk]
      exact List.nil_lt_cons c k
  | .compressed value data child, h => by
      rw [RaxNode.entries]
      refine List.pairwise_append.mpr
        ⟨by cases value <;> simp, ordered_under (RaxNode.WellFormed.ordered h.2), ?_⟩
      intro a ha b hb
      obtain ⟨k, -, hk⟩ := mem_under.mp hb
      obtain ⟨hnil, -⟩ := RaxNode.mem_own (n := .compressed value data child).mp ha
      rw [hnil, hk]
      exact lt_of_isPrefix (List.nil_prefix) (by simp [h.1])

/-- The entries of the children of a node are in order. -/
theorem RaxChildren.WellFormed.ordered : {cs : RaxChildren V} → cs.WellFormed → Ordered cs.entries
  | .last char child, h => ordered_under (RaxNode.WellFormed.ordered h)
  | .cons char child rest, h => by
      obtain ⟨hchild, hrest, hchars⟩ := h
      rw [RaxChildren.entries]
      refine List.pairwise_append.mpr
        ⟨ordered_under hchild.ordered, RaxChildren.WellFormed.ordered hrest, ?_⟩
      intro a ha b hb
      obtain ⟨k, -, hk⟩ := mem_under.mp ha
      obtain ⟨d, k', hd, hk'⟩ := RaxChildren.exists_of_mem_entries hb
      rw [hk, hk']
      exact append_cons_lt [] k k' (hchars d hd)

end

mutual

/-- Every node stands for at least one key. -/
theorem RaxNode.entries_ne_nil : (n : RaxNode V) → n.entries ≠ []
  | .leaf value => by simp [RaxNode.entries]
  | .normal value children => by
      simp [RaxNode.entries, RaxChildren.entries_ne_nil children]
  | .compressed value data child => by
      simp [RaxNode.entries, RaxNode.entries_ne_nil child]

/-- The children of a node stand for at least one key. -/
theorem RaxChildren.entries_ne_nil : (cs : RaxChildren V) → cs.entries ≠ []
  | .last char child => by simp [RaxChildren.entries, RaxNode.entries_ne_nil child]
  | .cons char child rest => by simp [RaxChildren.entries, RaxNode.entries_ne_nil child]

end

end RaygunApm
