import Mathlib.Data.Finmap
import RaygunApm.Library.Mealy
import RaygunApm.Rax.Insert

/-! # The tree as a dictionary

`raxGenericInsert` with all it does: it returns whether the key is new, hands out the value it had,
overwrites it or not, and counts the keys (`numele`) and the nodes (`numnodes`). The nodes are
counted where the source makes them: at a split, and once for each turn of the loop that inserts
what is left of the string. `raxFree` counts them down again and asserts that none is left.

Along every run the tree behaves like a finite map (`raxRun_refines`): lookups and return values are
those of the map, `raxSize` is the number of its keys, and the assertion of `raxFree` holds. -/

namespace RaygunApm

open OrderedKeys

variable {V : Type}

/-! ## The counters -/

/-- `rax`, with `numele` and `numnodes`. -/
structure RaxDictionary (V : Type) where
  tree : Rax V
  numele : UInt64
  numnodes : UInt64

/-- `raxNew`: the head is a node already. -/
def RaxDictionary.new : RaxDictionary V := ⟨raxNew, 0, 1⟩

/-- The turns of the loop `while(i < len)` from a node without children on, each of which makes a
node. -/
def raxRestNodes : Nat → Bytes → Nat
  | _, [] => 0
  | 0, _ :: _ => 0
  | fuel + 1, c :: s => raxRestNodes fuel ((c :: s).drop raxNodeMaxSize) + 1

/-- The nodes that an insertion makes, from where the walk has stopped on. -/
def raxNewNodes (stop : RaxNode V) (splitpos : Nat) (rest : Bytes) : Nat :=
  match stop, rest with
  | .leaf _, rest => raxRestNodes rest.length rest
  | .normal _ _, [] => 0
  | .normal _ _, _ :: rest => raxRestNodes rest.length rest + 1
  | .compressed _ data _, _ :: rest =>
      -- ALGO 1: the trimmed node and the postfix node, when they are not empty, and the loop
      (if splitpos ≠ 0 then 1 else 0) + (if data.length - splitpos - 1 ≠ 0 then 1 else 0) +
        (raxRestNodes rest.length rest + 1)
  | .compressed _ _ _, [] => if splitpos = 0 then 0 else 1

/-- `raxGenericInsert`: the tree, `*old` if the key was there, and whether it was inserted. -/
def raxGenericInsert (d : RaxDictionary V) (s : Bytes) (v : V) (overwrite : Bool) :
    RaxDictionary V × Option V × Bool :=
  match d.tree.head with
  | none =>
      -- the head is a node without children that is no key
      let numnodes := d.numnodes + UInt64.ofNat (raxRestNodes s.length s)
      (⟨raxInsert d.tree s v, d.numele + 1, numnodes⟩, none, true)
  | some head =>
      let w := raxLowWalk head s
      if w.matched = s.length ∧ (w.node.iscompr = false ∨ w.splitpos = 0) then
        match w.node.value with
        | some old =>
            (if overwrite then { d with tree := raxInsert d.tree s v } else d, some old, false)
        | none => ({ d with tree := raxInsert d.tree s v, numele := d.numele + 1 }, none, true)
      else
        let numnodes := d.numnodes +
          UInt64.ofNat (raxNewNodes w.node w.splitpos (s.drop w.matched))
        (⟨raxInsert d.tree s v, d.numele + 1, numnodes⟩, none, true)

mutual

/-- `raxRecursiveFree`: what it leaves of `numnodes`. The last child is freed first. -/
def RaxNode.recursiveFree : RaxNode V → UInt64 → UInt64
  | .leaf _, numnodes => numnodes - 1
  | .normal _ children, numnodes => children.recursiveFree numnodes - 1
  | .compressed _ _ child, numnodes => child.recursiveFree numnodes - 1

/-- `raxRecursiveFree` of the children of a normal node. -/
def RaxChildren.recursiveFree : RaxChildren V → UInt64 → UInt64
  | .last _ child, numnodes => child.recursiveFree numnodes
  | .cons _ child rest, numnodes => child.recursiveFree (rest.recursiveFree numnodes)

end

/-- `raxFree`: whether the assertion `numnodes == 0` holds at the end. -/
def raxFree (d : RaxDictionary V) : Bool :=
  (match d.tree.head with
    | none => d.numnodes - 1
    | some head => head.recursiveFree d.numnodes) = 0

/-! ## The property -/

/-- An operation on a tree. -/
inductive RaxOperation (V : Type) where
  /-- `raxInsert`. -/
  | insert (s : Bytes) (v : V)
  /-- `raxTryInsert`. -/
  | tryInsert (s : Bytes) (v : V)
  /-- `raxFind`. -/
  | find (s : Bytes)
  /-- `raxSize`. -/
  | size

/-- What an operation returns. -/
inductive RaxAnswer (V : Type) where
  /-- What was there, and whether the key was inserted. -/
  | inserted (old : Option V) (new : Bool)
  | found (value : Option V)
  | size (numele : UInt64)

/-- The operations on the tree. -/
def raxStep (d : RaxDictionary V) : RaxOperation V → RaxDictionary V × List (RaxAnswer V)
  | .insert s v =>
      let inserted := raxGenericInsert d s v true
      (inserted.1, [.inserted inserted.2.1 inserted.2.2])
  | .tryInsert s v =>
      let inserted := raxGenericInsert d s v false
      (inserted.1, [.inserted inserted.2.1 inserted.2.2])
  | .find s => (d, [.found (raxFind d.tree s)])
  | .size => (d, [.size d.numele])

/-- A finite map from strings. -/
abbrev Dictionary (V : Type) : Type := Finmap fun _ : Bytes => V

/-- The operations on a finite map. -/
def dictionaryStep (m : Dictionary V) : RaxOperation V → Dictionary V × List (RaxAnswer V)
  | .insert s v => (m.insert s v, [.inserted (m.lookup s) (m.lookup s).isNone])
  | .tryInsert s v =>
      (if (m.lookup s).isNone then m.insert s v else m,
        [.inserted (m.lookup s) (m.lookup s).isNone])
  | .find s => (m, [.found (m.lookup s)])
  | .size => (m, [.size (UInt64.ofNat m.keys.card)])

/-! ## The number of nodes -/

/-- Two subtractions modulo `2 ^ 64` are one of the sum. -/
theorem uint64_sub_sub (a b c : UInt64) : a - b - c = a - (b + c) := by
  grind

mutual

/-- The nodes at and below a node. -/
def RaxNode.nodes : RaxNode V → Nat
  | .leaf _ => 1
  | .normal _ children => children.nodes + 1
  | .compressed _ _ child => child.nodes + 1

/-- The nodes below the children of a normal node. -/
def RaxChildren.nodes : RaxChildren V → Nat
  | .last _ child => child.nodes
  | .cons _ child rest => child.nodes + rest.nodes

end

/-- The nodes of a tree. -/
def Rax.nodes (t : Rax V) : Nat := t.head.elim 1 RaxNode.nodes

mutual

/-- Freeing a tree counts down as many nodes as it has. -/
theorem RaxNode.recursiveFree_eq : (n : RaxNode V) → (numnodes : UInt64) →
    n.recursiveFree numnodes = numnodes - UInt64.ofNat n.nodes
  | .leaf value, numnodes => rfl
  | .normal value children, numnodes => by
      rw [RaxNode.recursiveFree, RaxChildren.recursiveFree_eq children, RaxNode.nodes,
        UInt64.ofNat_add, uint64_sub_sub]
      rfl
  | .compressed value data child, numnodes => by
      rw [RaxNode.recursiveFree, RaxNode.recursiveFree_eq child, RaxNode.nodes, UInt64.ofNat_add,
        uint64_sub_sub]
      rfl

/-- Freeing the children counts down their nodes. -/
theorem RaxChildren.recursiveFree_eq : (cs : RaxChildren V) → (numnodes : UInt64) →
    cs.recursiveFree numnodes = numnodes - UInt64.ofNat cs.nodes
  | .last char child, numnodes => RaxNode.recursiveFree_eq child numnodes
  | .cons char child rest, numnodes => by
      rw [RaxChildren.recursiveFree, RaxNode.recursiveFree_eq child,
        RaxChildren.recursiveFree_eq rest, RaxChildren.nodes, uint64_sub_sub, ← UInt64.ofNat_add,
        Nat.add_comm]

end

/-- A run of characters is one node above its child. -/
@[simp] theorem RaxNode.nodes_raxRun (value : Option V) (data : Bytes) (child : RaxNode V) :
    (raxRun value data child).nodes = child.nodes + 1 := by
  match data with
  | [] => rfl
  | [c] => rfl
  | c :: d :: data => rfl

/-- A child more. -/
@[simp] theorem RaxChildren.nodes_raxAddChild : (cs : RaxChildren V) → (c : UInt8) →
    (child : RaxNode V) → (raxAddChild cs c child).nodes = cs.nodes + child.nodes
  | .last d n, c, child => by
      rw [raxAddChild]
      split
      · exact Nat.add_comm _ _
      · rfl
  | .cons d n rest, c, child => by
      rw [raxAddChild]
      split
      · exact Nat.add_comm _ _
      · rw [RaxChildren.nodes, RaxChildren.nodes_raxAddChild rest, RaxChildren.nodes, Nat.add_assoc]

/-- The chain for the rest of the string has one node for each turn of the loop, and the one it
starts at. -/
theorem RaxNode.nodes_raxInsertRest (v : V) (value : Option V) (fuel : Nat) (s : Bytes) :
    (raxInsertRest fuel value s v).nodes = raxRestNodes fuel s + 1 := by
  induction fuel generalizing value s with
  | zero => cases s <;> rfl
  | succ fuel ih =>
      cases s with
      | nil => rfl
      | cons c s => rw [raxInsertRest, RaxNode.nodes_raxRun, ih, raxRestNodes]

/-- The scan of the children ends at the parent when none has the character. -/
theorem RaxChildren.lowWalk_of_not_mem : (cs : RaxChildren V) → (parent : RaxNode V) → {c : UInt8} →
    (s : Bytes) → (i : Nat) → (stack : List (RaxFrame V)) → c ∉ cs.chars →
    cs.lowWalk parent c s i stack = ⟨i, parent, 0, stack⟩
  | .last d n, parent, c, s, i, stack, hc => by
      have hne : d ≠ c := fun heq => hc (by simp [heq])
      rw [RaxChildren.lowWalk, if_neg hne]
  | .cons d n rest, parent, c, s, i, stack, hc => by
      have hne : d ≠ c := fun heq => hc (by simp [heq])
      rw [RaxChildren.lowWalk, if_neg hne]
      exact RaxChildren.lowWalk_of_not_mem rest parent s i stack fun hmem => hc (by simp [hmem])

/-- The nodes after an insertion that splits a compressed node. -/
theorem RaxNode.nodes_split (value : Option V) (pre post : Bytes) {c d : UInt8} (child : RaxNode V)
    (s : Bytes) (v : V) (hne : c ≠ d) :
    ((RaxNode.compressed value (pre ++ d :: post) child).insert (pre ++ c :: s) v).nodes
      = (RaxNode.compressed value (pre ++ d :: post) child).nodes +
        raxNewNodes (.compressed value (pre ++ d :: post) child) pre.length (c :: s) := by
  have hpostfix : (if post = [] then child else raxRun none post child).nodes
      = child.nodes + if post.length ≠ 0 then 1 else 0 := by
    by_cases hpost : post = []
    · simp [hpost]
    · simp [hpost]
  have hlength : (pre ++ d :: post).length - pre.length - 1 = post.length := by
    rw [List.length_append, List.length_cons]
    omega
  rw [insert_compressed_split value pre post child s v hne, RaxNode.nodes, raxNewNodes, hlength]
  dsimp only
  by_cases hpre : pre = []
  · rw [if_pos hpre, RaxNode.nodes, RaxChildren.nodes_raxAddChild, RaxChildren.nodes, hpostfix,
      RaxNode.nodes_raxInsertRest, hpre]
    simp only [List.length_nil, ne_eq, not_true_eq_false, if_false]
    omega
  · rw [if_neg hpre, RaxNode.nodes_raxRun, RaxNode.nodes, RaxChildren.nodes_raxAddChild,
      RaxChildren.nodes, hpostfix, RaxNode.nodes_raxInsertRest,
      if_pos (fun h => hpre (List.eq_nil_of_length_eq_zero h))]
    omega

mutual

/-- **The nodes after an insertion** below a node: those that are made where the walk stops come on
top. -/
theorem RaxNode.nodes_insert : (n : RaxNode V) → (s : Bytes) → (v : V) → n.WellFormed →
    (p : Bytes) → (i : Nat) → (stack : List (RaxFrame V)) → p.drop i = s →
    (n.insert s v).nodes = n.nodes + raxNewNodes (n.lowWalk s i stack).node
      (n.lowWalk s i stack).splitpos (p.drop (n.lowWalk s i stack).matched)
  | .leaf old, s, v, _, p, i, stack, hp => by
      rw [RaxNode.insert, RaxNode.lowWalk, RaxNode.nodes_raxInsertRest]
      dsimp only
      rw [hp, Nat.add_comm]
      rfl
  | .normal value children, [], v, _, p, i, stack, hp => by
      rw [RaxNode.insert, RaxNode.lowWalk]
      dsimp only
      rw [hp]
      rfl
  | .normal value children, c :: s, v, hwf, p, i, stack, hp => by
      rw [RaxNode.insert, RaxNode.lowWalk]
      by_cases hc : c ∈ children.chars
      · rw [if_pos hc, RaxNode.nodes,
          RaxChildren.nodes_insert children (.normal value children) c s v hwf hc p i stack hp,
          RaxNode.nodes]
        omega
      · rw [if_neg hc, RaxChildren.lowWalk_of_not_mem children _ s i stack hc, RaxNode.nodes,
          RaxChildren.nodes_raxAddChild, RaxNode.nodes_raxInsertRest]
        dsimp only
        rw [hp, RaxNode.nodes, raxNewNodes]
        omega
  | .compressed value data child, s, v, hwf, p, i, stack, hp => by
      obtain ⟨pre, x, y, rfl, rfl, hlength, hparts⟩ := exists_commonPrefix data s
      have hdrop : p.drop (i + pre.length) = y := by
        rw [← List.drop_drop, hp, List.drop_left]
      rw [RaxNode.lowWalk, ← hlength]
      by_cases hx : x = []
      · subst hx
        -- the whole run matches, and the walk goes on below it
        rw [List.append_nil] at hwf ⊢
        have hy : pre ++ y ≠ [] := fun h => hwf.1 (List.append_eq_nil_iff.mp h).1
        rw [if_pos ⟨hy, rfl⟩, List.drop_left, insert_compressed_through value child y v hwf.1,
          RaxNode.nodes, RaxNode.nodes,
          RaxNode.nodes_insert child y v hwf.2 p (i + pre.length)
            (⟨.compressed value pre child, pre⟩ :: stack) hdrop]
        omega
      · have hstop : ¬ (pre ++ y ≠ [] ∧ pre.length = (pre ++ x).length) := by
          rintro ⟨-, h⟩
          rw [List.length_append, Nat.left_eq_add] at h
          exact hx (List.eq_nil_of_length_eq_zero h)
        rw [if_neg hstop]
        dsimp only
        rw [hdrop]
        rcases hparts with h | rfl | ⟨d, c, x, y, rfl, rfl, hne⟩
        · exact absurd h hx
        · rw [List.append_nil]
          by_cases hpre : pre = []
          · subst hpre
            rw [RaxNode.insert]
            simp [raxNewNodes, RaxNode.nodes]
          · have hpos : ¬ pre.length = 0 := fun h => hpre (List.eq_nil_of_length_eq_zero h)
            rw [insert_compressed_inside value child v hpre hx, RaxNode.nodes_raxRun,
              RaxNode.nodes_raxRun, raxNewNodes, if_neg hpos, RaxNode.nodes]
        · exact RaxNode.nodes_split value pre x child y v hne.symm

/-- The nodes after an insertion below one of the children. -/
theorem RaxChildren.nodes_insert : (cs : RaxChildren V) → (parent : RaxNode V) → (c : UInt8) →
    (s : Bytes) → (v : V) → cs.WellFormed → c ∈ cs.chars →
    (p : Bytes) → (i : Nat) → (stack : List (RaxFrame V)) → p.drop i = c :: s →
    (cs.insert c s v).nodes = cs.nodes + raxNewNodes (cs.lowWalk parent c s i stack).node
      (cs.lowWalk parent c s i stack).splitpos (p.drop (cs.lowWalk parent c s i stack).matched)
  | .last d n, parent, c, s, v, hwf, hc, p, i, stack, hp => by
      obtain rfl : c = d := by simpa using hc
      have hdrop : p.drop (i + 1) = s := by rw [← List.drop_drop, hp, List.drop_one, List.tail_cons]
      rw [RaxChildren.insert, if_pos rfl, RaxChildren.lowWalk, if_pos rfl]
      exact RaxNode.nodes_insert n s v hwf p (i + 1) _ hdrop
  | .cons d n rest, parent, c, s, v, hwf, hc, p, i, stack, hp => by
      have hdrop : p.drop (i + 1) = s := by rw [← List.drop_drop, hp, List.drop_one, List.tail_cons]
      rw [RaxChildren.insert, RaxChildren.lowWalk]
      by_cases hd : d = c
      · rw [if_pos hd, if_pos hd, RaxChildren.nodes, RaxChildren.nodes,
          RaxNode.nodes_insert n s v hwf.1 p (i + 1) (⟨parent, [c]⟩ :: stack) hdrop]
        omega
      · have hc' : c ∈ rest.chars := (List.mem_cons.mp hc).resolve_left (Ne.symm hd)
        rw [if_neg hd, if_neg hd, RaxChildren.nodes, RaxChildren.nodes,
          RaxChildren.nodes_insert rest parent c s v hwf.2.1 hc' p i stack hp]
        omega

end

/-! ## The tree refines the map -/

/-- What is found after an insertion. -/
theorem raxFind_raxInsert (t : Rax V) (s : Bytes) (v : V) (k : Bytes) :
    raxFind (raxInsert t s v) k = if k = s then some v else raxFind t k := by
  ext x
  rw [raxFind_eq_some_iff, isInsert_entries_raxInsert t s v (k, x)]
  by_cases hk : k = s
  · simp [hk, eq_comm]
  · simp [hk, raxFind_eq_some_iff]

/-- The walk that ends at a node for the string finds what is there. -/
theorem raxFind_of_exact {t : Rax V} {head : RaxNode V} (hhead : t.head = some head) (s : Bytes) :
    raxFind t s = if (raxLowWalk head s).matched = s.length ∧
        ((raxLowWalk head s).node.iscompr = false ∨ (raxLowWalk head s).splitpos = 0)
      then (raxLowWalk head s).node.value else none := by
  rw [raxFind, hhead]
  dsimp only
  by_cases h : (raxLowWalk head s).matched = s.length ∧
      ((raxLowWalk head s).node.iscompr = false ∨ (raxLowWalk head s).splitpos = 0)
  · have hnot : ¬ ((raxLowWalk head s).matched ≠ s.length ∨
        ((raxLowWalk head s).node.iscompr = true ∧ (raxLowWalk head s).splitpos ≠ 0)) := by
      rintro (hne | ⟨hcompr, hpos⟩)
      · exact hne h.1
      · rcases h.2 with hfalse | hzero
        · rw [hfalse] at hcompr
          cases hcompr
        · exact hpos hzero
    rw [if_pos h, if_neg hnot]
  · have hnot : (raxLowWalk head s).matched ≠ s.length ∨
        ((raxLowWalk head s).node.iscompr = true ∧ (raxLowWalk head s).splitpos ≠ 0) := by
      rw [not_and_or, not_or, Bool.not_eq_false] at h
      exact h
    rw [if_neg h, if_pos hnot]

/-- The head after an insertion into the empty tree. -/
theorem raxInsert_head_of_none {t : Rax V} (hhead : t.head = none) (s : Bytes) (v : V) :
    (raxInsert t s v).head = some (raxInsertRest s.length none s v) := by
  show (match t.head with | none => _ | some head => _) = _
  rw [hhead]

/-- The head after an insertion into another one. -/
theorem raxInsert_head_of_some {t : Rax V} {head : RaxNode V} (hhead : t.head = some head) (s : Bytes)
    (v : V) : (raxInsert t s v).head = some (head.insert s v) := by
  show (match t.head with | none => _ | some head => _) = _
  rw [hhead]

/-- The nodes of the tree after an insertion. -/
theorem Rax.nodes_raxInsert {t : Rax V} {head : RaxNode V} (hhead : t.head = some head) (s : Bytes)
    (v : V) :
    (raxInsert t s v).nodes = t.nodes + raxNewNodes (raxLowWalk head s).node
      (raxLowWalk head s).splitpos (s.drop (raxLowWalk head s).matched) := by
  rw [Rax.nodes, Rax.nodes, raxInsert_head_of_some hhead, hhead]
  exact RaxNode.nodes_insert head s v (t.wellFormed head (by rw [hhead]; rfl)) s 0 [] rfl

/-- No node is made when the walk ends at a node for the string. -/
theorem raxNewNodes_of_exact {s : Bytes} {w : RaxWalk V}
    (hexact : w.matched = s.length ∧ (w.node.iscompr = false ∨ w.splitpos = 0)) :
    raxNewNodes w.node w.splitpos (s.drop w.matched) = 0 := by
  have hrest : s.drop w.matched = [] := by rw [hexact.1, List.drop_length]
  rw [hrest]
  cases hnode : w.node with
  | leaf value => rfl
  | normal value children => rfl
  | compressed value data child =>
      have hpos : w.splitpos = 0 := by
        refine hexact.2.resolve_left fun hcompr => ?_
        rw [hnode] at hcompr
        cases hcompr
      rw [raxNewNodes, if_pos hpos]

/-- **What an insertion does**: its return values are those of the lookup, and its counters count
the keys and the nodes. -/
theorem raxGenericInsert_spec (d : RaxDictionary V) (s : Bytes) (v : V) (overwrite : Bool)
    (hnodes : d.numnodes = UInt64.ofNat d.tree.nodes) :
    let inserted := raxGenericInsert d s v overwrite
    inserted.2.1 = raxFind d.tree s ∧ inserted.2.2 = (raxFind d.tree s).isNone ∧
      inserted.1.numnodes = UInt64.ofNat inserted.1.tree.nodes ∧
      inserted.1.numele = d.numele + (if (raxFind d.tree s).isNone then 1 else 0) ∧
      ∀ k, raxFind inserted.1.tree k =
        if k = s ∧ (overwrite ∨ (raxFind d.tree s).isNone) then some v else raxFind d.tree k := by
  intro inserted
  have hset : ∀ k, raxFind (raxInsert d.tree s v) k = if k = s then some v else raxFind d.tree k :=
    raxFind_raxInsert d.tree s v
  cases hhead : d.tree.head with
  | none =>
      have hfind : raxFind d.tree s = none := by rw [raxFind, hhead]
      have hins : inserted = (⟨raxInsert d.tree s v, d.numele + 1,
          d.numnodes + UInt64.ofNat (raxRestNodes s.length s)⟩, none, true) := by
        show raxGenericInsert d s v overwrite = _
        rw [raxGenericInsert, hhead]
      rw [hins, hfind]
      refine ⟨rfl, rfl, ?_, rfl, fun k => ?_⟩
      · dsimp only
        rw [hnodes, ← UInt64.ofNat_add, Rax.nodes, Rax.nodes, raxInsert_head_of_none hhead, hhead]
        simp only [Option.elim_none, Option.elim_some, RaxNode.nodes_raxInsertRest]
        rw [Nat.add_comm]
      · simp [hset]
  | some head =>
      have hfind := raxFind_of_exact hhead s
      have hnew := Rax.nodes_raxInsert hhead s v
      by_cases hexact : (raxLowWalk head s).matched = s.length ∧
          ((raxLowWalk head s).node.iscompr = false ∨ (raxLowWalk head s).splitpos = 0)
      · rw [if_pos hexact] at hfind
        rw [raxNewNodes_of_exact hexact, Nat.add_zero] at hnew
        -- there is a node for the string, which is a key or becomes one
        cases hvalue : (raxLowWalk head s).node.value with
        | some old =>
            rw [hvalue] at hfind
            have hins : inserted = (if overwrite then { d with tree := raxInsert d.tree s v } else d,
                some old, false) := by
              show raxGenericInsert d s v overwrite = _
              rw [raxGenericInsert, hhead]
              dsimp only
              rw [if_pos hexact, hvalue]
            rw [hins, hfind]
            cases overwrite with
            | true =>
                refine ⟨rfl, rfl, ?_, (UInt64.add_zero d.numele).symm, fun k => ?_⟩
                · simp only [if_true, hnodes, hnew]
                · simp [hset]
            | false =>
                refine ⟨rfl, rfl, hnodes, (UInt64.add_zero d.numele).symm, fun k => ?_⟩
                simp
        | none =>
            rw [hvalue] at hfind
            have hins : inserted = ({ d with
                tree := raxInsert d.tree s v, numele := d.numele + 1 }, none, true) := by
              show raxGenericInsert d s v overwrite = _
              rw [raxGenericInsert, hhead]
              dsimp only
              rw [if_pos hexact, hvalue]
            rw [hins, hfind]
            refine ⟨rfl, rfl, ?_, rfl, fun k => ?_⟩
            · simp only [hnodes, hnew]
            · simp [hset]
      · rw [if_neg hexact] at hfind
        have hins : inserted = (⟨raxInsert d.tree s v, d.numele + 1, d.numnodes + UInt64.ofNat
            (raxNewNodes (raxLowWalk head s).node (raxLowWalk head s).splitpos
              (s.drop (raxLowWalk head s).matched))⟩, none, true) := by
          show raxGenericInsert d s v overwrite = _
          rw [raxGenericInsert, hhead]
          dsimp only
          rw [if_neg hexact]
        rw [hins, hfind]
        refine ⟨rfl, rfl, ?_, rfl, fun k => ?_⟩
        · dsimp only
          rw [hnodes, hnew, UInt64.ofNat_add]
        · simp [hset]

/-- The tree stands for the map, and its counters are right. -/
structure Represents (d : RaxDictionary V) (m : Dictionary V) : Prop where
  find : ∀ s, raxFind d.tree s = m.lookup s
  numele : d.numele = UInt64.ofNat m.keys.card
  numnodes : d.numnodes = UInt64.ofNat d.tree.nodes

/-- An insertion adds its key to the keys. -/
theorem keys_insert (m : Dictionary V) (s : Bytes) (v : V) :
    (m.insert s v).keys = insert s m.keys := by
  ext k
  rw [Finmap.mem_keys, Finmap.mem_insert, Finset.mem_insert, Finmap.mem_keys]

/-- An insertion, overwriting or not, is one into the map. -/
theorem Represents.insert {d : RaxDictionary V} {m : Dictionary V} (h : Represents d m) (s : Bytes)
    (v : V) (overwrite : Bool) :
    (raxGenericInsert d s v overwrite).2.1 = m.lookup s ∧
      (raxGenericInsert d s v overwrite).2.2 = (m.lookup s).isNone ∧
      Represents (raxGenericInsert d s v overwrite).1
        (if overwrite ∨ (m.lookup s).isNone then m.insert s v else m) := by
  obtain ⟨hold, hnew, hnodes, hnumele, hfind⟩ := raxGenericInsert_spec d s v overwrite h.numnodes
  rw [h.find] at hold hnew hnumele
  refine ⟨hold, hnew, ⟨fun k => ?_, ?_, hnodes⟩⟩
  · rw [hfind, h.find]
    by_cases hdone : overwrite = true ∨ (m.lookup s).isNone = true
    · rw [if_pos hdone]
      by_cases hk : k = s
      · rw [if_pos ⟨hk, hdone⟩, hk, Finmap.lookup_insert]
      · rw [if_neg fun h => hk h.1, Finmap.lookup_insert_of_ne _ hk, h.find]
    · rw [if_neg hdone, if_neg fun h => hdone h.2, h.find]
  · rw [hnumele, h.numele]
    -- only a key that was not there counts
    cases hlookup : m.lookup s with
    | none =>
        have hmem : s ∉ m.keys := by rwa [Finmap.mem_keys, ← Finmap.lookup_eq_none]
        simp only [Option.isNone_none, if_true, or_true]
        rw [keys_insert, Finset.card_insert_of_notMem hmem, UInt64.ofNat_add]
        rfl
    | some old =>
        have hmem : s ∈ m.keys := Finmap.mem_keys.mpr (Finmap.mem_of_lookup_eq_some hlookup)
        simp only [Option.isNone_some, Bool.false_eq_true, if_false, or_false]
        by_cases hoverwrite : overwrite = true
        · rw [if_pos hoverwrite, keys_insert, Finset.insert_eq_of_mem hmem]
          exact UInt64.add_zero _
        · rw [if_neg hoverwrite]
          exact UInt64.add_zero _

/-- **One operation** on the tree answers as on the dictionary, and the tree still represents it. -/
theorem represents_raxStep {d : RaxDictionary V} {m : Dictionary V} (h : Represents d m)
    (o : RaxOperation V) :
    Represents (raxStep d o).1 (dictionaryStep m o).1 ∧ (raxStep d o).2 = (dictionaryStep m o).2 := by
  cases o with
  | insert s v =>
      obtain ⟨hold, hnew, hrep⟩ := h.insert s v true
      rw [if_pos (.inl rfl)] at hrep
      exact ⟨hrep, by rw [raxStep, dictionaryStep, hold, hnew]⟩
  | tryInsert s v =>
      obtain ⟨hold, hnew, hrep⟩ := h.insert s v false
      simp only [Bool.false_eq_true, false_or] at hrep
      exact ⟨hrep, by rw [raxStep, dictionaryStep, hold, hnew]⟩
  | find s => exact ⟨h, by rw [raxStep, dictionaryStep, h.find]⟩
  | size => exact ⟨h, by rw [raxStep, dictionaryStep, h.numele]⟩

/-- `raxFree` of a tree whose nodes are counted right. -/
theorem raxFree_of_numnodes {d : RaxDictionary V} (h : d.numnodes = UInt64.ofNat d.tree.nodes) :
    raxFree d = true := by
  rw [raxFree, decide_eq_true_iff, h, Rax.nodes]
  cases d.tree.head with
  | none =>
      dsimp only [Option.elim_none]
      decide
  | some head =>
      dsimp only [Option.elim_some]
      rw [RaxNode.recursiveFree_eq, UInt64.sub_self]

/-- **The tree is a dictionary.** Along every run of insertions, with or without overwriting, and
lookups, the operations return what they return on a finite map, and at the end `raxSize` is the
number of keys and the assertion of `raxFree` holds. -/
theorem raxRun_refines (operations : List (RaxOperation V)) :
    let d := Mealy.run raxStep .new operations
    let m := Mealy.run dictionaryStep ∅ operations
    d.2 = m.2 ∧ (∀ s, raxFind d.1.tree s = m.1.lookup s) ∧
      d.1.numele = UInt64.ofNat m.1.keys.card ∧ raxFree d.1 = true := by
  have hstart : Represents (V := V) .new ∅ :=
    ⟨fun s => by rw [Finmap.lookup_empty]; rfl, rfl, rfl⟩
  have hstep : ∀ (d : RaxDictionary V) m o, Represents d m →
      Represents (raxStep d o).1 (dictionaryStep m o).1 ∧
        (raxStep d o).2.flatMap (fun a => [a]) = (dictionaryStep m o).2.flatMap fun a => [a] := by
    intro d m o h
    obtain ⟨hrep, hout⟩ := represents_raxStep h o
    exact ⟨hrep, by rw [hout]⟩
  obtain ⟨hrep, hout⟩ := Mealy.run_observation Represents _ _ hstep hstart operations
  rw [List.flatMap_singleton', List.flatMap_singleton'] at hout
  exact ⟨hout, hrep.find, hrep.numele, raxFree_of_numnodes hrep.numnodes⟩

end RaygunApm
