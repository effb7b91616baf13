import RaygunApm.Rax.Tree

/-! # Where the walk stops

`raxLowWalk` goes down as long as the string agrees with the tree. Its stack of parents is a
position in the tree: the entries before and after the subtree it has reached can be read off the
frames (`stackBefore`, `stackAfter`), and the characters of the links are the string walked so far
(`stackKey`). `lowWalk_spec` says that the walk stops at such a position, for one of the five
reasons of `Stops`.

Two results follow: `raxFind` is the lookup among the entries (`raxFind_eq_some_iff`), and the keys
on the stack of the walk are the keys that are prefixes of the string (`mem_visited_iff`). -/

namespace RaygunApm

open OrderedKeys

variable {V : Type}

/-! ## The children around a character -/

/-- The entries of the children before a character. -/
def RaxChildren.before : RaxChildren V → UInt8 → List (Bytes × V)
  | .last char child, c => if char < c then under [char] child.entries else []
  | .cons char child rest, c =>
      (if char < c then under [char] child.entries else []) ++ rest.before c

/-- The entries of the children after a character. -/
def RaxChildren.after : RaxChildren V → UInt8 → List (Bytes × V)
  | .last char child, c => if c < char then under [char] child.entries else []
  | .cons char child rest, c =>
      (if c < char then under [char] child.entries else []) ++ rest.after c

/-- The keys before a character start with a smaller one. -/
theorem RaxChildren.exists_of_mem_before : {cs : RaxChildren V} → {c : UInt8} → {e : Bytes × V} →
    e ∈ cs.before c → ∃ d k, d < c ∧ e.1 = d :: k
  | .last char child, c, e, h => by
      rw [RaxChildren.before] at h
      split_ifs at h with hlt
      · obtain ⟨k, -, he⟩ := mem_under.mp h
        exact ⟨char, k, hlt, he⟩
      · cases h
  | .cons char child rest, c, e, h => by
      rw [RaxChildren.before] at h
      rcases List.mem_append.mp h with h | h
      · split_ifs at h with hlt
        · obtain ⟨k, -, he⟩ := mem_under.mp h
          exact ⟨char, k, hlt, he⟩
        · cases h
      · exact RaxChildren.exists_of_mem_before h

/-- The keys after a character start with a larger one. -/
theorem RaxChildren.exists_of_mem_after : {cs : RaxChildren V} → {c : UInt8} → {e : Bytes × V} →
    e ∈ cs.after c → ∃ d k, c < d ∧ e.1 = d :: k
  | .last char child, c, e, h => by
      rw [RaxChildren.after] at h
      split_ifs at h with hlt
      · obtain ⟨k, -, he⟩ := mem_under.mp h
        exact ⟨char, k, hlt, he⟩
      · cases h
  | .cons char child rest, c, e, h => by
      rw [RaxChildren.after] at h
      rcases List.mem_append.mp h with h | h
      · split_ifs at h with hlt
        · obtain ⟨k, -, he⟩ := mem_under.mp h
          exact ⟨char, k, hlt, he⟩
        · cases h
      · exact RaxChildren.exists_of_mem_after h

/-- Nothing stands before a character below all characters. -/
theorem RaxChildren.before_eq_nil : {cs : RaxChildren V} → {c : UInt8} →
    (∀ d ∈ cs.chars, ¬ d < c) → cs.before c = []
  | .last char child, c, h => if_neg (h char (by simp))
  | .cons char child rest, c, h => by
      rw [RaxChildren.before, if_neg (h char (by simp)), List.nil_append]
      exact RaxChildren.before_eq_nil fun d hd => h d (by simp [hd])

/-- Below the first character everything stands after. -/
theorem RaxChildren.after_eq_entries : {cs : RaxChildren V} → {c : UInt8} →
    (∀ d ∈ cs.chars, c < d) → cs.after c = cs.entries
  | .last char child, c, h => if_pos (h char (by simp))
  | .cons char child rest, c, h => by
      rw [RaxChildren.after, if_pos (h char (by simp)), RaxChildren.entries,
        RaxChildren.after_eq_entries fun d hd => h d (by simp [hd])]

/-- Exactly the characters of the children are found. -/
theorem RaxChildren.find?_eq_none_iff : {cs : RaxChildren V} → {c : UInt8} →
    (cs.find? c = none ↔ c ∉ cs.chars)
  | .last char child, c => by
      by_cases h : char = c <;> simp [RaxChildren.find?, h, eq_comm]
  | .cons char child rest, c => by
      by_cases h : char = c
      · simp [RaxChildren.find?, h]
      · simp [RaxChildren.find?, h, @RaxChildren.find?_eq_none_iff rest c, Ne.symm h]

/-- **A child splits the entries.** What is left of it, its own, and what is right of it. -/
theorem RaxChildren.entries_of_find? : {cs : RaxChildren V} → {c : UInt8} → {n : RaxNode V} →
    cs.WellFormed → cs.find? c = some n →
    cs.entries = cs.before c ++ under [c] n.entries ++ cs.after c
  | .last char child, c, n, _, h => by
      rw [RaxChildren.find?] at h
      split_ifs at h with hchar
      obtain rfl := hchar
      obtain rfl := Option.some.inj h
      simp [RaxChildren.entries, RaxChildren.before, RaxChildren.after]
  | .cons char child rest, c, n, hwf, h => by
      obtain ⟨-, hrest, hchars⟩ := hwf
      rw [RaxChildren.find?] at h
      split_ifs at h with hchar
      · obtain rfl := hchar
        obtain rfl := Option.some.inj h
        -- The first child: nothing is before it.
        rw [RaxChildren.entries, RaxChildren.before, RaxChildren.after,
          RaxChildren.before_eq_nil fun d hd => not_lt.mpr (hchars d hd).le,
          RaxChildren.after_eq_entries hchars]
        simp
      · have hmem : c ∈ rest.chars := by
          by_contra hnot
          rw [RaxChildren.find?_eq_none_iff.mpr hnot] at h
          cases h
        -- A later child: the first one is before it as a whole.
        have hlt : char < c := hchars c hmem
        rw [RaxChildren.entries, RaxChildren.before, RaxChildren.after, if_pos hlt,
          if_neg (not_lt.mpr hlt.le), RaxChildren.entries_of_find? hrest h]
        simp

/-- A character without a child splits the entries as well. -/
theorem RaxChildren.entries_of_not_mem : {cs : RaxChildren V} → {c : UInt8} →
    cs.WellFormed → c ∉ cs.chars → cs.entries = cs.before c ++ cs.after c
  | .last char child, c, _, h => by
      rcases lt_or_gt_of_ne (show char ≠ c from fun heq => h (by simp [heq])) with hlt | hlt
      · simp [RaxChildren.entries, RaxChildren.before, RaxChildren.after, hlt, hlt.le]
      · simp [RaxChildren.entries, RaxChildren.before, RaxChildren.after, hlt, hlt.le]
  | .cons char child rest, c, hwf, h => by
      obtain ⟨-, hrest, hchars⟩ := hwf
      have hrestmem : c ∉ rest.chars := fun hmem => h (by simp [hmem])
      rcases lt_or_gt_of_ne (show char ≠ c from fun heq => h (by simp [heq])) with hlt | hlt
      · rw [RaxChildren.entries, RaxChildren.before, RaxChildren.after, if_pos hlt,
          if_neg (not_lt.mpr hlt.le), RaxChildren.entries_of_not_mem hrest hrestmem]
        simp
      · have hall : ∀ d ∈ rest.chars, c < d := fun d hd => hlt.trans (hchars d hd)
        rw [RaxChildren.entries, RaxChildren.before, RaxChildren.after, if_pos hlt,
          if_neg (not_lt.mpr hlt.le), RaxChildren.before_eq_nil fun d hd => not_lt.mpr (hall d hd).le,
          RaxChildren.after_eq_entries hall]
        simp

/-- A child of well-formed children is well formed. -/
theorem RaxChildren.WellFormed.of_find? : {cs : RaxChildren V} → {c : UInt8} → {n : RaxNode V} →
    cs.WellFormed → cs.find? c = some n → n.WellFormed
  | .last char child, c, n, hwf, h => by
      rw [RaxChildren.find?] at h
      split_ifs at h
      exact Option.some.inj h ▸ hwf
  | .cons char child rest, c, n, hwf, h => by
      rw [RaxChildren.find?] at h
      split_ifs at h
      · exact Option.some.inj h ▸ hwf.1
      · exact RaxChildren.WellFormed.of_find? hwf.2.1 h

/-! ## Positions -/

/-- The child of a node under the characters of a link. -/
def RaxNode.child? : RaxNode V → Bytes → Option (RaxNode V)
  | .normal _ children, [c] => children.find? c
  | .compressed _ data child, edge => if edge = data then some child else none
  | _, _ => none

/-- The entries of a parent before the child below the link. -/
def RaxFrame.before (f : RaxFrame V) : List (Bytes × V) :=
  f.node.own ++ match f.node, f.edge with
    | .normal _ children, c :: _ => children.before c
    | _, _ => []

/-- The entries of a parent after the child below the link. -/
def RaxFrame.after (f : RaxFrame V) : List (Bytes × V) :=
  match f.node, f.edge with
  | .normal _ children, c :: _ => children.after c
  | _, _ => []

/-- The entries of a node on the stack are those before its child, those of the child and those
after it. -/
theorem RaxFrame.entries_eq {f : RaxFrame V} {n : RaxNode V} (hwf : f.node.WellFormed)
    (hchild : f.node.child? f.edge = some n) :
    f.node.entries = f.before ++ under f.edge n.entries ++ f.after := by
  obtain ⟨node, edge⟩ := f
  cases node with
  | leaf value => simp [RaxNode.child?] at hchild
  | normal value children =>
      match edge, hchild with
      | [c], hchild =>
          rw [RaxNode.entries_eq, RaxNode.deeper, RaxChildren.entries_of_find? hwf hchild]
          simp [RaxFrame.before, RaxFrame.after]
  | compressed value data child =>
      simp only [RaxNode.child?] at hchild
      split_ifs at hchild with hedge
      obtain rfl := Option.some.inj hchild
      rw [RaxNode.entries_eq, RaxNode.deeper]
      simp [RaxFrame.before, RaxFrame.after, hedge]

/-- A child of a well-formed node is well formed, and its edge is not empty. -/
theorem RaxNode.WellFormed.of_child? {m n : RaxNode V} {edge : Bytes} (hwf : m.WellFormed)
    (hchild : m.child? edge = some n) : n.WellFormed ∧ edge ≠ [] := by
  cases m with
  | leaf value => simp [RaxNode.child?] at hchild
  | normal value children =>
      match edge, hchild with
      | [c], hchild => exact ⟨RaxChildren.WellFormed.of_find? hwf hchild, by simp⟩
  | compressed value data child =>
      simp only [RaxNode.child?] at hchild
      split_ifs at hchild with hedge
      exact ⟨Option.some.inj hchild ▸ hwf.2, hedge ▸ hwf.1⟩

/-- What is before a link is before every string through it. -/
theorem RaxFrame.before_lt {f : RaxFrame V} (hedge : f.edge ≠ []) {e : Bytes × V}
    (he : e ∈ f.before) (rest : Bytes) : e.1 < f.edge ++ rest := by
  obtain ⟨c, edge, hcons⟩ := List.exists_cons_of_ne_nil hedge
  rw [hcons, List.cons_append]
  rcases List.mem_append.mp he with he | he
  · rw [(RaxNode.mem_own.mp he).1]
    exact List.nil_lt_cons _ _
  · obtain ⟨node, edge'⟩ := f
    obtain rfl : edge' = c :: edge := hcons
    cases node with
    | leaf value => cases he
    | compressed value data child => cases he
    | normal value children =>
        obtain ⟨d, k, hd, hk⟩ := RaxChildren.exists_of_mem_before he
        rw [hk]
        exact append_cons_lt [] k _ hd

/-- What is after a link is after every string through it. -/
theorem RaxFrame.lt_after {f : RaxFrame V} (hedge : f.edge ≠ []) {e : Bytes × V}
    (he : e ∈ f.after) (rest : Bytes) : f.edge ++ rest < e.1 := by
  obtain ⟨node, edge⟩ := f
  obtain ⟨c, edge, rfl⟩ := List.exists_cons_of_ne_nil hedge
  cases node with
  | leaf value => cases he
  | compressed value data child => cases he
  | normal value children =>
      obtain ⟨d, k, hd, hk⟩ := RaxChildren.exists_of_mem_after he
      rw [hk]
      exact append_cons_lt [] _ k hd

/-- The characters of the links from the head down. -/
def stackKey : List (RaxFrame V) → Bytes
  | [] => []
  | f :: stack => stackKey stack ++ f.edge

/-- The entries of the tree before the subtree at the end of the links. -/
def stackBefore : List (RaxFrame V) → List (Bytes × V)
  | [] => []
  | f :: stack => stackBefore stack ++ under (stackKey stack) f.before

/-- The entries of the tree after the subtree at the end of the links. -/
def stackAfter : List (RaxFrame V) → List (Bytes × V)
  | [] => []
  | f :: stack => under (stackKey stack) f.after ++ stackAfter stack

/-- The links of a stack lead from `root` to `n`. -/
def Linked (root : RaxNode V) : List (RaxFrame V) → RaxNode V → Prop
  | [], n => n = root
  | f :: stack, n => f.node.child? f.edge = some n ∧ Linked root stack f.node

/-- The node at the end of a linked stack is well formed if the root is. -/
theorem Linked.wellFormed {root : RaxNode V} (hroot : root.WellFormed) :
    {stack : List (RaxFrame V)} → {n : RaxNode V} → Linked root stack n → n.WellFormed
  | [], _, h => by rw [show _ = root from h]; exact hroot
  | _ :: _, _, h => (RaxNode.WellFormed.of_child? (Linked.wellFormed hroot h.2) h.1).1

/-- **A position splits the entries of the tree.** -/
theorem Linked.entries {root : RaxNode V} (hroot : root.WellFormed) :
    {stack : List (RaxFrame V)} → {n : RaxNode V} → Linked root stack n →
    root.entries = stackBefore stack ++ under (stackKey stack) n.entries ++ stackAfter stack
  | [], n, h => by
      rw [show n = root from h]
      simp [stackBefore, stackAfter, stackKey]
  | f :: stack, n, h => by
      rw [Linked.entries hroot h.2, RaxFrame.entries_eq (Linked.wellFormed hroot h.2) h.1]
      simp [stackBefore, stackAfter, stackKey, under_under]

/-- What a position puts before is before every string through it. -/
theorem Linked.before_lt {root : RaxNode V} (hroot : root.WellFormed) :
    {stack : List (RaxFrame V)} → {n : RaxNode V} → Linked root stack n → (rest : Bytes) →
    ∀ e ∈ stackBefore stack, e.1 < stackKey stack ++ rest
  | [], _, _, _ => by simp [stackBefore]
  | f :: stack, n, h, rest => by
      intro e he
      have hedge := (RaxNode.WellFormed.of_child? (Linked.wellFormed hroot h.2) h.1).2
      rw [stackKey, List.append_assoc]
      rcases List.mem_append.mp he with he | he
      · exact Linked.before_lt hroot h.2 _ e he
      · obtain ⟨k, hk, hkey⟩ := mem_under.mp he
        rw [hkey]
        exact (append_lt_append_iff _).mpr (RaxFrame.before_lt hedge hk rest)

/-- What a position puts after is after every string through it. -/
theorem Linked.lt_after {root : RaxNode V} (hroot : root.WellFormed) :
    {stack : List (RaxFrame V)} → {n : RaxNode V} → Linked root stack n → (rest : Bytes) →
    ∀ e ∈ stackAfter stack, stackKey stack ++ rest < e.1
  | [], _, _, _ => by simp [stackAfter]
  | f :: stack, n, h, rest => by
      intro e he
      have hedge := (RaxNode.WellFormed.of_child? (Linked.wellFormed hroot h.2) h.1).2
      rw [stackKey, List.append_assoc]
      rcases List.mem_append.mp he with he | he
      · obtain ⟨k, hk, hkey⟩ := mem_under.mp he
        rw [hkey]
        exact (append_lt_append_iff _).mpr (RaxFrame.lt_after hedge hk rest)
      · exact Linked.lt_after hroot h.2 _ e he

/-! ## Where the walk stops -/

/-- The five ways the walk ends at a node, with the rest of the string and the position inside the
node: at a node without children, at a normal node with the string used up or without a child for
the next character, in a compressed node with the string used up, or at a character that differs. -/
inductive Stops : RaxNode V → Bytes → Nat → Prop where
  | leaf (value : V) (rest : Bytes) : Stops (.leaf value) rest 0
  | node (value : Option V) (children : RaxChildren V) : Stops (.normal value children) [] 0
  | mismatch (value : Option V) {children : RaxChildren V} {c : UInt8} (rest : Bytes)
      (h : c ∉ children.chars) : Stops (.normal value children) (c :: rest) 0
  | inside (value : Option V) (pre : Bytes) {post : Bytes} (child : RaxNode V) (h : post ≠ []) :
      Stops (.compressed value (pre ++ post) child) pre pre.length
  | split (value : Option V) (pre post rest : Bytes) {c d : UInt8} (child : RaxNode V)
      (h : c ≠ d) :
      Stops (.compressed value (pre ++ d :: post) child) (pre ++ c :: rest) pre.length

/-- `w` is the walk of `p` from `root`, with `rest` left over. -/
structure WalksTo (root : RaxNode V) (p : Bytes) (w : RaxWalk V) (rest : Bytes) : Prop where
  linked : Linked root w.stack w.node
  key : stackKey w.stack ++ rest = p
  matched : w.matched = (stackKey w.stack).length + w.splitpos
  stops : Stops w.node rest w.splitpos

/-- A walk that ends in a compressed node, with the position where it stops. -/
theorem stops_compressed {value : Option V} {data s : Bytes} {child : RaxNode V}
    (hdata : data ≠ []) (h : ¬ (s ≠ [] ∧ commonLength data s = data.length)) :
    Stops (.compressed value data child) s (commonLength data s) := by
  obtain ⟨pre, x, y, rfl, rfl, hlen, hparts⟩ := exists_commonPrefix data s
  rw [← hlen] at h ⊢
  rcases hparts with rfl | rfl | ⟨c, d, x, y, rfl, rfl, hne⟩
  · -- The whole run matches, so the walk would have gone on.
    simp only [List.append_nil] at h hdata
    simp [hdata] at h
  · by_cases hx : x = []
    · subst hx
      simp only [List.append_nil] at h hdata
      simp [hdata] at h
    · simpa using Stops.inside value pre child hx
  · exact Stops.split value pre x y child hne.symm

mutual

/-- From every node on the way, `rax_low_walk` walks to the key. -/
theorem RaxNode.lowWalk_spec {root : RaxNode V} {p : Bytes} :
    (n : RaxNode V) → (s : Bytes) → (stack : List (RaxFrame V)) → n.WellFormed →
    Linked root stack n → stackKey stack ++ s = p →
    ∃ rest, WalksTo root p (n.lowWalk s (stackKey stack).length stack) rest
  | .leaf value, s, stack, _, hlinked, hkey => by
      rw [RaxNode.lowWalk]
      exact ⟨s, hlinked, hkey, rfl, .leaf value s⟩
  | .normal value children, [], stack, _, hlinked, hkey => by
      rw [RaxNode.lowWalk]
      exact ⟨[], hlinked, hkey, rfl, .node value children⟩
  | .normal value children, c :: s, stack, hwf, hlinked, hkey => by
      rw [RaxNode.lowWalk]
      exact RaxChildren.lowWalk_spec children value children c s stack hwf rfl hlinked hkey
  | .compressed value data child, s, stack, hwf, hlinked, hkey => by
      rw [RaxNode.lowWalk]
      split_ifs with h
      · obtain ⟨pre, x, y, hx, rfl, hlen, hparts⟩ := exists_commonPrefix data s
        -- The common part is the run itself, so the walk is at the child's key.
        have hnil : x = [] := by
          have := congrArg List.length hx
          simp only [List.length_append] at this
          exact List.eq_nil_of_length_eq_zero (by omega)
        subst hnil
        obtain rfl : data = pre := by simpa using hx
        rw [← hlen, List.drop_left, ← List.length_append]
        exact RaxNode.lowWalk_spec child y (⟨.compressed value data child, data⟩ :: stack) hwf.2
          ⟨if_pos rfl, hlinked⟩ (by rw [stackKey, List.append_assoc]; exact hkey)
      · exact ⟨s, hlinked, hkey, rfl, stops_compressed hwf.1 h⟩

/-- From the children of every node on the way, `rax_low_walk` walks to the key. -/
theorem RaxChildren.lowWalk_spec {root : RaxNode V} {p : Bytes} :
    (cs : RaxChildren V) → (value : Option V) → (children : RaxChildren V) → (c : UInt8) →
    (s : Bytes) → (stack : List (RaxFrame V)) → cs.WellFormed →
    children.find? c = cs.find? c → Linked root stack (.normal value children) →
    stackKey stack ++ c :: s = p →
    ∃ rest, WalksTo root p
      (cs.lowWalk (.normal value children) c s (stackKey stack).length stack) rest
  | .last char child, value, children, c, s, stack, hwf, hfind, hlinked, hkey => by
      rw [RaxChildren.find?] at hfind
      rw [RaxChildren.lowWalk]
      split_ifs at hfind ⊢ with hchar
      · have hlength : (stackKey stack).length + 1 =
            (stackKey (⟨.normal value children, [c]⟩ :: stack)).length := by
          simp [stackKey]
        rw [hlength]
        exact RaxNode.lowWalk_spec child s _ hwf ⟨hfind, hlinked⟩ (by simpa [stackKey] using hkey)
      · -- No child has the character: the walk stops at the node.
        exact ⟨c :: s, hlinked, hkey, rfl,
          .mismatch value s (RaxChildren.find?_eq_none_iff.mp hfind)⟩
  | .cons char child rest, value, children, c, s, stack, hwf, hfind, hlinked, hkey => by
      rw [RaxChildren.find?] at hfind
      rw [RaxChildren.lowWalk]
      split_ifs at hfind ⊢ with hchar
      · have hlength : (stackKey stack).length + 1 =
            (stackKey (⟨.normal value children, [c]⟩ :: stack)).length := by
          simp [stackKey]
        rw [hlength]
        exact RaxNode.lowWalk_spec child s _ hwf.1 ⟨hfind, hlinked⟩ (by simpa [stackKey] using hkey)
      · exact RaxChildren.lowWalk_spec rest value children c s stack hwf.2.1 hfind hlinked hkey

end

/-- **The walk stops at a position on the way of the string.** -/
theorem raxLowWalk_spec {root : RaxNode V} (hroot : root.WellFormed) (p : Bytes) :
    ∃ rest, WalksTo root p (raxLowWalk root p) rest :=
  RaxNode.lowWalk_spec root p [] hroot rfl rfl

/-- The entries under the stop node, relative to it, decide whether the string is a key. -/
theorem WalksTo.mem_entries_iff {root : RaxNode V} (hroot : root.WellFormed) {p rest : Bytes}
    {w : RaxWalk V} (h : WalksTo root p w rest) {v : V} :
    (p, v) ∈ root.entries ↔ (rest, v) ∈ w.node.entries := by
  have hbefore := h.linked.before_lt hroot rest
  have hafter := h.linked.lt_after hroot rest
  rw [h.linked.entries hroot, ← h.key]
  constructor
  · intro hmem
    rcases List.mem_append.mp hmem with hmem | hmem
    · rcases List.mem_append.mp hmem with hmem | hmem
      · exact absurd (hbefore _ hmem) (lt_irrefl _)
      · obtain ⟨k, hk, heq⟩ := mem_under.mp hmem
        rwa [List.append_cancel_left heq]
    · exact absurd (hafter _ hmem) (lt_irrefl _)
  · intro hmem
    exact List.mem_append_left _ (List.mem_append_right _ (mem_under.mpr ⟨rest, hmem, rfl⟩))

/-- The walk has used up the string at a node, not inside one. -/
def RaxWalk.Exact (w : RaxWalk V) (p : Bytes) : Prop :=
  w.matched = p.length ∧ (w.node.iscompr = false ∨ w.splitpos = 0)

/-- The walk ends at a node for the string, or the string is no key. -/
theorem WalksTo.exact_iff {root : RaxNode V} {p rest : Bytes} {w : RaxWalk V}
    (h : WalksTo root p w rest) : w.Exact p ↔ rest = [] := by
  have hlength : w.matched = p.length ↔ w.splitpos = rest.length := by
    rw [h.matched, ← h.key, List.length_append]
    omega
  rw [RaxWalk.Exact, hlength]
  have hstops := h.stops
  generalize w.node = node, w.splitpos = splitpos at hstops
  cases hstops with
  | leaf value rest => simp [eq_comm]
  | node value children => simp
  | mismatch value rest hc => simp
  | inside value child hpost => simp
  | split value pre post rest child hne => simp

/-- Below the stop node no key but the node's own goes on with the string. -/
theorem Stops.own_of_isPrefix {n : RaxNode V} {rest : Bytes} {splitpos : Nat}
    (h : Stops n rest splitpos) {k : Bytes} {v : V} (hk : k <+: rest) (hmem : (k, v) ∈ n.entries) :
    k = [] ∧ n.value = some v := by
  rw [RaxNode.entries_eq, List.mem_append, RaxNode.mem_own] at hmem
  refine hmem.resolve_right fun hmem => ?_
  cases h with
  | leaf value rest => cases hmem
  | node value children =>
      obtain ⟨c, k', -, rfl⟩ := RaxChildren.exists_of_mem_entries hmem
      simp at hk
  | mismatch value rest hc =>
      obtain ⟨c, k', hc', rfl⟩ := RaxChildren.exists_of_mem_entries hmem
      obtain ⟨rfl, -⟩ := List.cons_prefix_cons.mp hk
      exact hc hc'
  | inside value pre child hpost =>
      obtain ⟨k', -, rfl⟩ := mem_under.mp hmem
      simp_all [List.append_assoc, List.prefix_iff_eq_append]
  | split value pre post rest child hne =>
      obtain ⟨k', -, rfl⟩ := mem_under.mp hmem
      rw [List.append_assoc, List.prefix_append_right_inj, List.cons_append,
        List.cons_prefix_cons] at hk
      exact hne hk.1.symm

/-- The entry of the string itself is the stop node's own. -/
theorem WalksTo.mem_stop_iff {root : RaxNode V} {p rest : Bytes} {w : RaxWalk V}
    (h : WalksTo root p w rest) {v : V} :
    (rest, v) ∈ w.node.entries ↔ rest = [] ∧ w.node.value = some v := by
  refine ⟨h.stops.own_of_isPrefix List.prefix_rfl, fun hown => ?_⟩
  rw [RaxNode.entries_eq]
  exact List.mem_append_left _ (RaxNode.mem_own.mpr hown)

/-- **`raxFind` is the lookup among the entries.** -/
theorem raxFind_eq_some_iff (t : Rax V) (s : Bytes) (v : V) :
    raxFind t s = some v ↔ (s, v) ∈ t.entries := by
  obtain ⟨head, hwf⟩ := t
  cases head with
  | none => simp [raxFind, Rax.entries]
  | some head =>
      obtain ⟨rest, h⟩ := raxLowWalk_spec (hwf head rfl) s
      set w := raxLowWalk head s
      have hexact := h.exact_iff
      rw [show (Rax.mk (some head) hwf).entries = head.entries from rfl,
        h.mem_entries_iff (hwf head rfl), h.mem_stop_iff, ← hexact]
      have hiff : ¬ (w.matched ≠ s.length ∨ w.node.iscompr ∧ w.splitpos ≠ 0) ↔ w.Exact s := by
        rw [RaxWalk.Exact, not_or, not_not, not_and_or, not_not, Bool.not_eq_true]
      show (if _ then none else w.node.value) = some v ↔ _
      rw [← hiff]
      split_ifs with hcond
      · exact iff_of_false (by simp) fun h => h.1 hcond
      · exact (and_iff_right hcond).symm

/-! ## The keys on the way -/

/-- The nodes of the walk: the stop node, then its parents up to the head. -/
def RaxWalk.visited (w : RaxWalk V) : List (RaxNode V) := w.node :: w.stack.map RaxFrame.node

/-- The own entry of a node is an entry of the tree. -/
theorem Linked.own_mem {root : RaxNode V} (hroot : root.WellFormed) {stack : List (RaxFrame V)}
    {n : RaxNode V} (h : Linked root stack n) {v : V} (hv : n.value = some v) :
    (stackKey stack, v) ∈ root.entries := by
  rw [h.entries hroot, RaxNode.entries_eq]
  refine List.mem_append_left _ (List.mem_append_right _ (mem_under.mpr ⟨[], ?_, by simp⟩))
  exact List.mem_append_left _ (RaxNode.mem_own.mpr ⟨rfl, hv⟩)

/-- A key on the stack is a prefix of every string through the position. -/
theorem Linked.exists_isPrefix {root : RaxNode V} (hroot : root.WellFormed) {v : V} :
    {stack : List (RaxFrame V)} → {n : RaxNode V} → Linked root stack n →
    (∃ m ∈ n :: stack.map RaxFrame.node, m.value = some v) →
    ∃ k, k <+: stackKey stack ∧ (k, v) ∈ root.entries
  | [], n, h, ⟨m, hm, hv⟩ => by
      obtain rfl : m = n := by simpa using hm
      exact ⟨_, List.prefix_rfl, h.own_mem hroot hv⟩
  | f :: stack, n, h, ⟨m, hm, hv⟩ => by
      rcases List.mem_cons.mp hm with rfl | hm
      · exact ⟨_, List.prefix_rfl, h.own_mem hroot hv⟩
      · obtain ⟨k, hk, hmem⟩ := Linked.exists_isPrefix hroot h.2 ⟨m, hm, hv⟩
        exact ⟨k, hk.trans (List.prefix_append _ _), hmem⟩

/-- A key before the position that is a prefix of a string through it is on the stack. -/
theorem Linked.exists_frame {root : RaxNode V} (hroot : root.WellFormed) {k : Bytes} {v : V} :
    {stack : List (RaxFrame V)} → {n : RaxNode V} → Linked root stack n → (rest : Bytes) →
    k <+: stackKey stack ++ rest → (k, v) ∈ stackBefore stack →
    ∃ m ∈ stack.map RaxFrame.node, m.value = some v
  | [], _, _, _, _, hmem => by cases hmem
  | f :: stack, n, h, rest, hk, hmem => by
      have hedge := (RaxNode.WellFormed.of_child? (h.2.wellFormed hroot) h.1).2
      rw [stackKey, List.append_assoc] at hk
      rcases List.mem_append.mp hmem with hmem | hmem
      · -- The key is before the parent already.
        obtain ⟨m, hm, hv⟩ := Linked.exists_frame hroot h.2 _ hk hmem
        exact ⟨m, by simp [List.mem_map.mp hm], hv⟩
      · -- The key is under the parent: its own key is on the stack.
        obtain ⟨k', hmem, rfl⟩ := mem_under.mp hmem
        rw [List.prefix_append_right_inj] at hk
        refine ⟨f.node, by simp, ?_⟩
        rcases List.mem_append.mp hmem with hmem | hmem
        · exact (RaxNode.mem_own.mp hmem).2
        · -- A key under a smaller character of the parent does not go on with the string.
          obtain ⟨node, edge⟩ := f
          obtain ⟨c, edge, rfl⟩ := List.exists_cons_of_ne_nil hedge
          cases node with
          | leaf value => cases hmem
          | compressed value data child => cases hmem
          | normal value children =>
              obtain ⟨d, x, hd, rfl⟩ := RaxChildren.exists_of_mem_before hmem
              rw [List.cons_append, List.cons_prefix_cons] at hk
              exact absurd hk.1 hd.ne

/-- **The keys of the walk are the keys that are prefixes of the string.** -/
theorem WalksTo.exists_visited_iff {root : RaxNode V} (hroot : root.WellFormed) {p rest : Bytes}
    {w : RaxWalk V} (h : WalksTo root p w rest) {v : V} :
    (∃ m ∈ w.visited, m.value = some v) ↔ ∃ k, k <+: p ∧ (k, v) ∈ root.entries := by
  constructor
  · intro hm
    obtain ⟨k, hk, hmem⟩ := h.linked.exists_isPrefix hroot hm
    exact ⟨k, hk.trans ⟨rest, h.key⟩, hmem⟩
  · rintro ⟨k, hk, hmem⟩
    rw [h.linked.entries hroot] at hmem
    rw [← h.key] at hk
    rcases List.mem_append.mp hmem with hmem | hmem
    · rcases List.mem_append.mp hmem with hmem | hmem
      · obtain ⟨m, hm, hv⟩ := h.linked.exists_frame hroot rest hk hmem
        exact ⟨m, List.mem_cons_of_mem _ hm, hv⟩
      · obtain ⟨k', hmem, rfl⟩ := mem_under.mp hmem
        rw [List.prefix_append_right_inj] at hk
        exact ⟨w.node, by simp [RaxWalk.visited], (h.stops.own_of_isPrefix hk hmem).2⟩
    · exact absurd (h.linked.lt_after hroot rest _ hmem) (not_lt.mpr (le_of_isPrefix hk))

/-- The link out of a stack is not empty. -/
theorem Linked.stackKey_eq_nil {root : RaxNode V} (hroot : root.WellFormed)
    {stack : List (RaxFrame V)} {n : RaxNode V} (h : Linked root stack n) :
    stackKey stack = [] ↔ stack = [] := by
  cases stack with
  | nil => simp [stackKey]
  | cons f stack =>
      have hedge := (RaxNode.WellFormed.of_child? (h.2.wellFormed hroot) h.1).2
      simp [stackKey, hedge]

/-- A compressed node stands for keys through its run. -/
theorem Stops.exists_entry {n : RaxNode V} {rest : Bytes} {splitpos : Nat}
    (h : Stops n rest splitpos) : ∃ e ∈ n.entries, rest.take splitpos <+: e.1 := by
  have hany : ∃ e, e ∈ n.entries := List.exists_mem_of_ne_nil _ n.entries_ne_nil
  cases h with
  | leaf value rest => simpa using hany
  | node value children => simpa using hany
  | mismatch value rest hc => simpa using hany
  | @inside value _ post child hpost =>
      obtain ⟨e, he⟩ := List.exists_mem_of_ne_nil _ child.entries_ne_nil
      refine ⟨(rest ++ post ++ e.1, e.2), ?_, by simp [List.append_assoc]⟩
      exact List.mem_append_right _ (mem_under.mpr ⟨e.1, he, rfl⟩)
  | @split value pre post rest c d child hne =>
      obtain ⟨e, he⟩ := List.exists_mem_of_ne_nil _ child.entries_ne_nil
      refine ⟨(pre ++ d :: post ++ e.1, e.2), ?_, by simp [List.append_assoc]⟩
      exact List.mem_append_right _ (mem_under.mpr ⟨e.1, he, rfl⟩)

/-- Some key goes along with the string as far as the walk does. -/
theorem WalksTo.exists_entry {root : RaxNode V} (hroot : root.WellFormed) {p rest : Bytes}
    {w : RaxWalk V} (h : WalksTo root p w rest) :
    ∃ e ∈ root.entries, p.take w.matched <+: e.1 := by
  obtain ⟨e, he, hpre⟩ := h.stops.exists_entry
  refine ⟨(stackKey w.stack ++ e.1, e.2), ?_, ?_⟩
  · rw [h.linked.entries hroot]
    exact List.mem_append_left _ (List.mem_append_right _ (mem_under.mpr ⟨e.1, he, rfl⟩))
  · rw [h.matched, ← h.key, List.take_length_add_append]
    exact (List.prefix_append_right_inj _).mpr hpre

/-- **The walk takes a step when some key starts as the string does.** -/
theorem WalksTo.matched_ne_zero_iff {root : RaxNode V} (hroot : root.WellFormed) {p rest : Bytes}
    {w : RaxWalk V} (h : WalksTo root p w rest) :
    w.matched ≠ 0 ↔ ∃ c, [c] <+: p ∧ ∃ e ∈ root.entries, [c] <+: e.1 := by
  constructor
  · intro hmatched
    obtain ⟨e, he, hpre⟩ := h.exists_entry hroot
    have hlength : w.matched ≤ p.length := by
      rw [h.matched, ← h.key, List.length_append, Nat.add_le_add_iff_left]
      have hstops := h.stops
      generalize w.node = node, w.splitpos = splitpos at hstops
      cases hstops <;> simp
    cases p with
    | nil => simp at hlength; omega
    | cons c p =>
        -- The entry that goes along with the walk starts with the string's first character.
        obtain ⟨m, hm⟩ := Nat.exists_eq_succ_of_ne_zero hmatched
        rw [hm, List.take_succ_cons] at hpre
        have hc : [c] <+: c :: p.take m := List.cons_prefix_cons.mpr ⟨rfl, List.nil_prefix⟩
        exact ⟨c, List.cons_prefix_cons.mpr ⟨rfl, List.nil_prefix⟩, e, he, hc.trans hpre⟩
  · rintro ⟨c, hc, e, he, hce⟩ hzero
    rw [h.matched, Nat.add_eq_zero_iff, List.length_eq_zero_iff] at hzero
    obtain ⟨hkey, hsplit⟩ := hzero
    -- The walk has stopped at the head, before the first character.
    have hnode : w.node = root := by
      have hlinked := h.linked
      rw [(h.linked.stackKey_eq_nil hroot).mp hkey] at hlinked
      exact hlinked
    have hrest : rest = p := by rw [← h.key, hkey, List.nil_append]
    have hstops := h.stops
    rw [hnode, hrest, hsplit] at hstops
    rw [RaxNode.entries_eq, List.mem_append, RaxNode.mem_own] at he
    -- So does `e`, which is below the head then: each way to stop there says otherwise.
    generalize hk : e.1 = k at he hce
    obtain ⟨k, rfl⟩ : ∃ k', k = c :: k' := by
      obtain ⟨t, rfl⟩ := hce
      exact ⟨t, rfl⟩
    obtain ⟨p, rfl⟩ : ∃ p', p = c :: p' := by
      obtain ⟨t, rfl⟩ := hc
      exact ⟨t, rfl⟩
    have he := he.resolve_left (by simp)
    generalize hsplit : 0 = splitpos at hstops
    generalize hp : c :: p = q at hstops
    cases hstops with
    | leaf value rest => cases he
    | node value children => cases hp
    | mismatch value rest hc' =>
        obtain ⟨d, k', hd, hk'⟩ := RaxChildren.exists_of_mem_entries he
        obtain ⟨rfl, -⟩ := List.cons.inj hp
        rw [hk] at hk'
        exact hc' ((List.cons.inj hk').1 ▸ hd)
    | inside value pre child hpost =>
        rw [← hp] at hsplit
        cases hsplit
    | split value pre post rest child hne =>
        obtain rfl : pre = [] := List.eq_nil_of_length_eq_zero hsplit.symm
        obtain ⟨k', -, hk'⟩ := mem_under.mp he
        rw [hk] at hk'
        exact hne ((List.cons.inj hp).1.symm.trans (List.cons.inj hk').1)

end RaygunApm
