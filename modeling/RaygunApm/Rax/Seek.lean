import RaygunApm.Rax.Iterator

/-! # What the iterator visits

The entries of a tree from the position of an iterator on are `pending`. Moving forward drops the
first of them (`raxIteratorNextStep_spec`); moving backward lands on the last entry before the
position (`prevUp_spec`). `raxSeekLe_spec` puts the two together: `raxSeek` with `<=` at a string
that is no key lands on the greatest key before it, when there is one. It does not always read that
key's data: when the string ends inside the run of the key's node the iterator is left without. -/

namespace RaygunApm

open OrderedKeys

variable {V : Type}

/-! ## Neighbours -/

/-- The next child is the first one behind the character, and all entries behind are from it on. -/
theorem RaxChildren.next?_spec : {cs : RaxChildren V} → {c : UInt8} → cs.WellFormed →
    match cs.next? c with
    | none => cs.after c = []
    | some (d, n) => cs.find? d = some n ∧ cs.after c = under [d] n.entries ++ cs.after d ∧ c < d
  | .last x m, c, _ => by
      rw [RaxChildren.next?]
      split_ifs with hlt
      · simp [RaxChildren.find?, RaxChildren.after, hlt]
      · simp [RaxChildren.after, hlt]
  | .cons x m rest, c, ⟨_, hrest, hchars⟩ => by
      rw [RaxChildren.next?]
      split_ifs with hlt
      · -- The characters are ordered, so all later children come after `c` too.
        have hall : ∀ d ∈ rest.chars, c < d := fun d hd => hlt.trans (hchars d hd)
        simp [RaxChildren.find?, RaxChildren.after, hlt, RaxChildren.after_eq_entries hall,
          RaxChildren.after_eq_entries hchars]
      · -- This child is not after `c`: the search goes on, and leaves it out of the answer.
        have ih := RaxChildren.next?_spec (c := c) hrest
        cases hnext : rest.next? c with
        | none => simpa [RaxChildren.after, hlt, hnext] using ih
        | some found =>
            obtain ⟨d, n⟩ := found
            rw [hnext] at ih
            obtain ⟨hfind, hafter, hd⟩ := ih
            have hmem : d ∈ rest.chars := by
              by_contra hnot
              rw [RaxChildren.find?_eq_none_iff.mpr hnot] at hfind
              cases hfind
            have hx : x < d := hchars d hmem
            refine ⟨?_, ?_, hd⟩
            · rw [RaxChildren.find?, if_neg hx.ne, hfind]
            · rw [RaxChildren.after, RaxChildren.after, if_neg hlt, if_neg (not_lt.mpr hx.le), hafter]
              simp

/-- The previous child is the last one before the character, and all entries before are up to it. -/
theorem RaxChildren.prev?_spec : {cs : RaxChildren V} → {c : UInt8} → cs.WellFormed →
    match cs.prev? c with
    | none => cs.before c = []
    | some (d, n) => cs.find? d = some n ∧ cs.before c = cs.before d ++ under [d] n.entries
  | .last x m, c, _ => by
      rw [RaxChildren.prev?]
      split_ifs with hlt
      · simp [RaxChildren.find?, RaxChildren.before, hlt]
      · simp [RaxChildren.before, hlt]
  | .cons x m rest, c, ⟨_, hrest, hchars⟩ => by
      have ih := RaxChildren.prev?_spec (c := c) hrest
      rw [RaxChildren.prev?]
      cases hprev : rest.prev? c with
      | none =>
          rw [hprev] at ih
          dsimp only at ih ⊢
          -- No later child is before `c`, so this one is the greatest if it is before `c` at all.
          split_ifs with hlt
          · have hbelow : rest.before x = [] :=
              RaxChildren.before_eq_nil fun d hd => not_lt.mpr (hchars d hd).le
            simp [RaxChildren.find?, RaxChildren.before, hlt, ih, hbelow]
          · simp [RaxChildren.before, hlt, ih]
      | some found =>
          obtain ⟨d, n⟩ := found
          rw [hprev] at ih
          obtain ⟨hfind, hbefore⟩ := ih
          have hmem : d ∈ rest.chars := by
            by_contra hnot
            rw [RaxChildren.find?_eq_none_iff.mpr hnot] at hfind
            cases hfind
          -- A later child is the answer, and this one comes before it.
          have hx : x < d := hchars d hmem
          have hxc : x < c := by
            by_contra hnot
            have hempty : rest.before c = [] :=
              RaxChildren.before_eq_nil fun e he => not_lt.mpr ((not_lt.mp hnot).trans (hchars e he).le)
            rw [hempty] at hbefore
            simpa [n.entries_ne_nil] using (List.nil_eq_append_iff.mp hbefore).2
          refine ⟨?_, ?_⟩
          · rw [RaxChildren.find?, if_neg hx.ne, hfind]
          · rw [RaxChildren.before, RaxChildren.before, if_pos hxc, if_pos hx, hbefore,
              List.append_assoc]

/-! ## Positions of the iterator -/

/-- The iterator is at a position of the tree, and its key is the key of the position. -/
structure Seated (root : RaxNode V) (it : RaxIterator V) : Prop where
  linked : Linked root it.stack it.node
  key : it.key = stackKey it.stack
  key0 : it.key ≠ [] → it.key.head? = some it.key0

/-- The entries from the position of the iterator on. -/
def RaxIterator.pending (it : RaxIterator V) : List (Bytes × V) :=
  under (stackKey it.stack) it.node.entries ++ stackAfter it.stack

/-- Entering a child keeps the key of the position. -/
theorem Seated.enter {root : RaxNode V} {it : RaxIterator V} {edge : Bytes} {child : RaxNode V}
    (h : Seated root it) (hchild : it.node.child? edge = some child) (hedge : edge ≠ []) :
    Seated root (it.enter edge child) where
  linked := ⟨hchild, h.linked⟩
  key := by
    show it.key ++ edge = stackKey it.stack ++ edge
    rw [h.key]
  key0 := by
    intro _
    show (it.key ++ edge).head? = some (if it.key = [] then edge.headD it.key0 else it.key0)
    obtain ⟨c, edge, rfl⟩ := List.exists_cons_of_ne_nil hedge
    split_ifs with hkey
    · simp [hkey]
    · rw [List.head?_append_of_ne_nil _ hkey, h.key0 hkey]

/-- Entering a child keeps the flag of a fresh seek. -/
@[simp] theorem enter_justSeeked (it : RaxIterator V) (edge : Bytes) (child : RaxNode V) :
    (it.enter edge child).justSeeked = it.justSeeked := rfl

/-- Entering a child leaves its entries pending, and those of the later children. -/
theorem pending_enter (it : RaxIterator V) (edge : Bytes) (child : RaxNode V) :
    (it.enter edge child).pending =
      under (stackKey it.stack)
        (under edge child.entries ++ RaxFrame.after ⟨it.node, edge⟩) ++ stackAfter it.stack := by
  simp [RaxIterator.pending, RaxIterator.enter, stackKey, stackAfter, under_under]

/-- The iterator is at a key and holds its data. -/
structure ReadsKey (root : RaxNode V) (it : RaxIterator V) : Prop extends Seated root it where
  data : it.data = it.node.value
  isSome : it.node.value.isSome

/-! ## Forward -/

/-- A node that is no key has entries below it. -/
theorem RaxNode.deeper_ne_nil {n : RaxNode V} (h : n.value = none) : n.deeper ≠ [] := by
  have hentries := n.entries_ne_nil
  rwa [RaxNode.entries_eq, RaxNode.own, h, Option.map_none, Option.toList_none,
    List.nil_append] at hentries

/-- Stop at the node just entered if it is a key, else go on below it. -/
theorem settle_spec {root : RaxNode V} (child : RaxNode V) {it : RaxIterator V} (hnode : it.node = child)
    (hseated : Seated root it)
    (hdeeper : child.deeper ≠ [] → ReadsKey root (goDeeper child it) ∧
      (goDeeper child it).justSeeked = it.justSeeked ∧
      (goDeeper child it).pending = under (stackKey it.stack) child.deeper ++ stackAfter it.stack) :
    let it' := if child.value.isSome then { it with data := child.value } else goDeeper child it
    ReadsKey root it' ∧ it'.justSeeked = it.justSeeked ∧ it'.pending = it.pending := by
  dsimp only
  split_ifs with hvalue
  · subst hnode
    exact ⟨⟨⟨hseated.linked, hseated.key, hseated.key0⟩, rfl, hvalue⟩, rfl, rfl⟩
  · have hnone : child.value = none := by simpa using hvalue
    obtain ⟨hreads, hseek, hpending⟩ := hdeeper (RaxNode.deeper_ne_nil hnone)
    refine ⟨hreads, hseek, ?_⟩
    rw [hpending, RaxIterator.pending, hnode, RaxNode.entries_eq, RaxNode.own, hnone]
    rfl

/-- **Down to the next key.** All entries below the node are pending then. -/
theorem goDeeper_spec {root : RaxNode V} (hroot : root.WellFormed) :
    (n : RaxNode V) → (it : RaxIterator V) → it.node = n → Seated root it → n.deeper ≠ [] →
    ReadsKey root (goDeeper n it) ∧ (goDeeper n it).justSeeked = it.justSeeked ∧
      (goDeeper n it).pending = under (stackKey it.stack) n.deeper ++ stackAfter it.stack
  | .leaf _, _, _, _, hdeeper => absurd rfl hdeeper
  | .normal value (.last c child), it, hnode, hseated, _ => by
      have hchild : it.node.child? [c] = some child := by
        simp [hnode, RaxNode.child?, RaxChildren.find?]
      have hstep := settle_spec child rfl (hseated.enter hchild (by simp))
        (goDeeper_spec hroot child _ rfl (hseated.enter hchild (by simp)))
      rw [pending_enter, hnode] at hstep
      simpa [goDeeper, RaxNode.deeper, RaxFrame.after, RaxChildren.after, RaxChildren.entries]
        using hstep
  | .normal value (.cons c child rest), it, hnode, hseated, _ => by
      have hchild : it.node.child? [c] = some child := by
        simp [hnode, RaxNode.child?, RaxChildren.find?]
      have hwf := hseated.linked.wellFormed hroot
      rw [hnode] at hwf
      -- Down the first child: the others are all after it.
      have hafter : rest.after c = rest.entries := RaxChildren.after_eq_entries hwf.2.2
      have hstep := settle_spec child rfl (hseated.enter hchild (by simp))
        (goDeeper_spec hroot child _ rfl (hseated.enter hchild (by simp)))
      rw [pending_enter, hnode] at hstep
      simpa [goDeeper, RaxNode.deeper, RaxFrame.after, RaxChildren.after, RaxChildren.entries,
        hafter] using hstep
  | .compressed value data child, it, hnode, hseated, _ => by
      have hchild : it.node.child? data = some child := by simp [hnode, RaxNode.child?]
      have hwf := hseated.linked.wellFormed hroot
      rw [hnode] at hwf
      have hstep := settle_spec child rfl (hseated.enter hchild hwf.1)
        (goDeeper_spec hroot child _ rfl (hseated.enter hchild hwf.1))
      rw [pending_enter, hnode] at hstep
      simpa [goDeeper, RaxNode.deeper, RaxFrame.after] using hstep

/-- Dropping the characters of a link leads back to the key of the parent. -/
theorem take_stackKey (f : RaxFrame V) (stack : List (RaxFrame V)) :
    (stackKey (f :: stack)).take ((stackKey (f :: stack)).length - f.edge.length) =
      stackKey stack := by
  rw [stackKey, List.length_append, Nat.add_sub_cancel, List.take_left]

/-- The link out of a node has as many characters as the node accounts for. -/
theorem RaxNode.length_edge {n child : RaxNode V} {edge : Bytes}
    (h : n.child? edge = some child) : edge.length = n.todel := by
  cases n with
  | leaf value => simp [RaxNode.child?] at h
  | normal value children =>
      rcases edge with _ | ⟨c, _ | ⟨d, edge⟩⟩
      · cases h
      · rfl
      · cases h
  | compressed value data child' =>
      simp only [RaxNode.child?] at h
      split_ifs at h with hedge
      simp [hedge, RaxNode.todel, RaxNode.size]

/-- Going back to the parent of a frame. -/
theorem Seated.leave {root child : RaxNode V} {it : RaxIterator V} {f : RaxFrame V}
    {stack : List (RaxFrame V)} (hchild : f.node.child? f.edge = some child)
    (hlinked : Linked root stack f.node) (hkey : it.key = stackKey (f :: stack))
    (hkey0 : it.key ≠ [] → it.key.head? = some it.key0) :
    Seated root ((it.leave f stack).delChars f.node.todel) where
  linked := hlinked
  key := by
    show it.key.take (it.key.length - f.node.todel) = stackKey stack
    rw [hkey, ← RaxNode.length_edge hchild, take_stackKey]
  key0 := by
    show it.key.take (it.key.length - f.node.todel) ≠ [] →
      (it.key.take (it.key.length - f.node.todel)).head? = some it.key0
    rw [hkey] at hkey0 ⊢
    rw [← RaxNode.length_edge hchild, take_stackKey]
    intro hne
    have hne' : stackKey (f :: stack) ≠ [] := by simp [stackKey, hne]
    rw [← hkey0 hne', stackKey, List.head?_append_of_ne_nil _ hne]

/-- What a step forward from `it` comes to when `rest` are the entries after it. -/
def Advances (root : RaxNode V) (it : RaxIterator V) (rest : List (Bytes × V)) :
    Option (RaxIterator V) → Prop
  | none => rest = []
  | some it' => ReadsKey root it' ∧ it'.justSeeked = it.justSeeked ∧ it'.pending = rest

/-- **Up to the next key.** The entries after the position are pending then; there is no next key if
there are none. -/
theorem nextUp_spec {root : RaxNode V} (hroot : root.WellFormed) :
    (stack : List (RaxFrame V)) → (n : RaxNode V) → (it : RaxIterator V) →
    Linked root stack n → it.key = stackKey stack →
    (it.key ≠ [] → it.key.head? = some it.key0) →
    Advances root it (stackAfter stack) (nextUp stack it)
  | [], _, _, _, _, _ => rfl
  | ⟨node, edge⟩ :: stack, n, it, ⟨hchild, hlinked⟩, hkey, hkey0 => by
      have hseated := Seated.leave hchild hlinked hkey hkey0
      have hwf := hlinked.wellFormed hroot
      have hrec := nextUp_spec hroot stack node _ hlinked hseated.key hseated.key0
      cases node with
      | leaf value => simp [RaxNode.child?] at hchild
      | compressed value data child => exact hrec
      | normal value children =>
          obtain ⟨c, rfl⟩ : ∃ c, edge = [c] := by
            rcases edge with _ | ⟨c, _ | ⟨d, edge⟩⟩
            · cases hchild
            · exact ⟨c, rfl⟩
            · cases hchild
          have hprev : it.key.getLastD 0 = c := by simp [hkey, stackKey]
          have hspec := RaxChildren.next?_spec (c := c) hwf
          rw [nextUp, hprev]
          dsimp only
          -- A node with one child has none after it, so the test of the size changes nothing.
          have hsize : (if 1 < (RaxNode.normal value children).size then children.next? c else none) =
              children.next? c := by
            split_ifs with hone
            · rfl
            · cases children with
              | last d m =>
                  simp only [RaxNode.child?, RaxChildren.find?] at hchild
                  split_ifs at hchild with hd
                  simp [RaxChildren.next?, hd]
              | cons d m rest =>
                  cases rest <;> simp [RaxNode.size] at hone
          rw [hsize]
          cases hnext : children.next? c with
          | none =>
              rw [hnext] at hspec
              -- Nothing of this node is left: the position may as well be the parent.
              have hafter : stackAfter (⟨.normal value children, [c]⟩ :: stack) = stackAfter stack := by
                simp only [stackAfter, RaxFrame.after, show children.after c = [] from hspec, under_empty,
                  List.nil_append]
              rw [hafter]
              exact hrec
          | some found =>
              obtain ⟨d, child⟩ := found
              rw [hnext] at hspec
              obtain ⟨hfind, hafter, -⟩ := hspec
              -- The next child: its least key is the next one.
              have henter := @Seated.enter _ _ _ [d] child hseated hfind (by simp)
              have hstep := settle_spec child rfl henter (goDeeper_spec hroot child _ rfl henter)
              rw [pending_enter] at hstep
              simp only [stackAfter, RaxFrame.after, hafter]
              split_ifs at hstep ⊢ <;> exact hstep

/-- **A step forward drops the first of the pending entries.** -/
theorem raxIteratorNextStep_spec {root : RaxNode V} (hroot : root.WellFormed) {it : RaxIterator V}
    (h : Seated root it) (hsome : it.node.value.isSome) (hseek : it.justSeeked = false) :
    Advances root it it.pending.tail (raxIteratorNextStep it) := by
  have hpending : it.pending.tail =
      under (stackKey it.stack) it.node.deeper ++ stackAfter it.stack := by
    obtain ⟨v, hv⟩ := Option.isSome_iff_exists.mp hsome
    rw [RaxIterator.pending, RaxNode.entries_eq, RaxNode.own, hv]
    rfl
  rw [hpending, raxIteratorNextStep, if_neg (by simp [hseek])]
  cases hnode : it.node with
  | leaf value => exact nextUp_spec hroot it.stack it.node it h.linked h.key h.key0
  | normal value children =>
      exact goDeeper_spec hroot _ it hnode h (RaxChildren.entries_ne_nil children)
  | compressed value data child =>
      apply goDeeper_spec hroot _ it hnode h
      simp [RaxNode.deeper, child.entries_ne_nil]

/-! ## Backward -/

/-- The iterator has landed on the last of the entries `before`. A key of length 0 leaves `byte0` in
the buffer. -/
structure LandsOn (root : RaxNode V) (byte0 : UInt8) (before : List (Bytes × V))
    (it' : RaxIterator V) : Prop extends Seated root it' where
  last : ∃ v, it'.node.value = some v ∧ before.getLast? = some (it'.key, v)
  empty_key0 : it'.key = [] → it'.key0 = byte0

/-- Landing in the last part of some entries. -/
theorem LandsOn.append {root : RaxNode V} {byte0 : UInt8} {it' : RaxIterator V}
    {before : List (Bytes × V)} (h : LandsOn root byte0 before it') (front : List (Bytes × V)) :
    LandsOn root byte0 (front ++ before) it' where
  toSeated := h.toSeated
  last := by
    obtain ⟨v, hv, hlast⟩ := h.last
    exact ⟨v, hv, by rw [List.getLast?_append, hlast]; rfl⟩
  empty_key0 := h.empty_key0

/-- Landing below a link is landing below the node it leaves. -/
theorem LandsOn.of_enter {root child : RaxNode V} {it it' : RaxIterator V} {edge : Bytes}
    (hedge : edge ≠ [])
    (h : LandsOn root (it.enter edge child).key0
      (under (stackKey (it.enter edge child).stack) child.entries) it') :
    LandsOn root it.key0 (under (stackKey it.stack) (under edge child.entries)) it' where
  toSeated := h.toSeated
  last := by
    rw [under_under]
    exact h.last
  empty_key0 := by
    intro hkey
    obtain ⟨v, -, hlast⟩ := h.last
    obtain ⟨k, -, hk⟩ := mem_under.mp (List.mem_of_getLast? hlast)
    have hnil : stackKey it.stack ++ edge ++ k = [] := hk.symm.trans hkey
    simp [hedge] at hnil

mutual

/-- `raxSeekGreatest` lands on the last entry of the subtree. -/
theorem RaxNode.seekGreatest_spec {root : RaxNode V} (hroot : root.WellFormed) :
    (n : RaxNode V) → (it : RaxIterator V) → it.node = n → Seated root it →
    LandsOn root it.key0 (under (stackKey it.stack) n.entries) (n.seekGreatest it)
  | .leaf value, it, hnode, hseated => by
      refine ⟨hseated, ⟨value, by simp [RaxNode.seekGreatest, hnode], ?_⟩, fun _ => rfl⟩
      simp [RaxNode.entries, RaxNode.seekGreatest, under, hseated.key]
  | .normal value children, it, hnode, hseated => by
      rw [RaxNode.seekGreatest, RaxNode.entries, under_append]
      have hwf := hseated.linked.wellFormed hroot
      rw [hnode] at hwf
      exact (RaxChildren.seekGreatest_spec hroot children value children it hwf hnode hseated
        fun _ _ => rfl).append _
  | .compressed value data child, it, hnode, hseated => by
      have hwf := hseated.linked.wellFormed hroot
      rw [hnode] at hwf
      have hchild : it.node.child? data = some child := by simp [hnode, RaxNode.child?]
      have henter := hseated.enter hchild hwf.1
      rw [RaxNode.seekGreatest, RaxNode.entries, under_append]
      exact ((RaxNode.seekGreatest_spec hroot child _ rfl henter).of_enter hwf.1).append _

/-- The way down the last children: `cs` are the children of the node still to be passed. -/
theorem RaxChildren.seekGreatest_spec {root : RaxNode V} (hroot : root.WellFormed) :
    (cs : RaxChildren V) → (value : Option V) → (children : RaxChildren V) →
    (it : RaxIterator V) → cs.WellFormed → it.node = .normal value children → Seated root it →
    (∀ c ∈ cs.chars, children.find? c = cs.find? c) →
    LandsOn root it.key0 (under (stackKey it.stack) cs.entries) (cs.seekGreatest it)
  | .last c child, value, children, it, _, hnode, hseated, hfind => by
      have hchild : it.node.child? [c] = some child := by
        rw [hnode, RaxNode.child?, hfind c (by simp), RaxChildren.find?, if_pos rfl]
      have henter := hseated.enter hchild (by simp)
      rw [RaxChildren.seekGreatest, RaxChildren.entries]
      exact (RaxNode.seekGreatest_spec hroot child _ rfl henter).of_enter (by simp)
  | .cons c child rest, value, children, it, hwf, hnode, hseated, hfind => by
      rw [RaxChildren.seekGreatest, RaxChildren.entries, under_append]
      refine (RaxChildren.seekGreatest_spec hroot rest value children it hwf.2.1 hnode hseated
        fun d hd => ?_).append _
      rw [hfind d (by simp [hd]), RaxChildren.find?, if_neg (hwf.2.2 d hd).ne]

end

/-- The greatest key below a compressed node goes through its run. -/
theorem seekGreatest_key_ne_nil {root child : RaxNode V} (hroot : root.WellFormed)
    {it : RaxIterator V} {value : Option V} {data : Bytes}
    (hnode : it.node = .compressed value data child) (h : Seated root it) :
    ((RaxNode.compressed value data child).seekGreatest it).key ≠ [] := by
  have hwf := h.linked.wellFormed hroot
  rw [hnode] at hwf
  have hchild : it.node.child? data = some child := by simp [hnode, RaxNode.child?]
  have hlands := RaxNode.seekGreatest_spec hroot child _ rfl (h.enter hchild hwf.1)
  obtain ⟨v, -, hlast⟩ := hlands.last
  obtain ⟨k, -, hk⟩ := mem_under.mp (List.mem_of_getLast? hlast)
  intro hnil
  have hempty : stackKey it.stack ++ data ++ k = [] := hk.symm.trans hnil
  simp [hwf.1] at hempty

/-- The position of a node whose link with the characters `edge` has been taken. -/
structure Taken (root : RaxNode V) (it : RaxIterator V) (edge : Bytes) : Prop where
  linked : Linked root it.stack it.node
  key : it.key = stackKey it.stack ++ edge
  key0 : it.key.head? = some it.key0
  length : edge.length = it.node.todel

/-- Back at the node, without the characters of the link. -/
theorem Taken.seated {root : RaxNode V} {it : RaxIterator V} {edge : Bytes}
    (h : Taken root it edge) : Seated root (it.delChars it.node.todel) := by
  have hkey : (it.delChars it.node.todel).key = stackKey it.stack := by
    show it.key.take (it.key.length - it.node.todel) = _
    rw [h.key, ← h.length, List.length_append, Nat.add_sub_cancel, List.take_left]
  refine ⟨h.linked, hkey, fun hne => ?_⟩
  have hkey0 := h.key0
  rw [hkey] at hne ⊢
  rwa [h.key, List.head?_append_of_ne_nil _ hne] at hkey0

/-- Back at a node that is a key, and nothing of it before the link. -/
theorem Taken.landsOn_own {root : RaxNode V} {it : RaxIterator V} {edge : Bytes}
    (h : Taken root it edge) (hsome : it.node.value.isSome) :
    LandsOn root it.key0 (under (stackKey it.stack) it.node.own) (it.delChars it.node.todel) where
  toSeated := h.seated
  last := by
    obtain ⟨v, hv⟩ := Option.isSome_iff_exists.mp hsome
    refine ⟨v, hv, ?_⟩
    rw [h.seated.key]
    simp [RaxNode.own, hv, under, RaxIterator.delChars]
  empty_key0 := fun _ => rfl

/-- A visit at a node with at most one child finds nothing before the link. -/
theorem prevVisit_of_no_children {noup : Bool} {it : RaxIterator V}
    (h : ∀ value children, it.node ≠ .normal value children) :
    prevVisit noup it = it.delChars it.node.todel := by
  obtain ⟨key, key0, data, node, stack, justSeeked⟩ := it
  cases node with
  | leaf value => rfl
  | compressed value data child => rfl
  | normal value children => exact absurd rfl (h value children)

/-- A visit at a normal node. A node with one child has none before that, so the test of the size
changes nothing. -/
theorem prevVisit_normal {noup : Bool} {it : RaxIterator V} {value : Option V}
    {children : RaxChildren V} {c : UInt8} (hnode : it.node = .normal value children)
    (hprev : it.key.getLastD 0 = c) (hnoup : noup ∨ (children.find? c).isSome) :
    prevVisit noup it = match children.prev? c with
      | some (d, child) => child.seekGreatest ((it.delChars it.node.todel).enter [d] child)
      | none => it.delChars it.node.todel := by
  obtain ⟨key, key0, data, node, stack, justSeeked⟩ := it
  obtain rfl : node = .normal value children := hnode
  have hsize : (if (if noup then 0 else 1) < (RaxNode.normal value children).size then
      children.prev? c else none) = children.prev? c := by
    cases noup with
    | true =>
        have hpos : 0 < (RaxNode.normal value children).size := by
          cases children <;> simp [RaxNode.size]
        exact if_pos hpos
    | false =>
        cases children with
        | cons d m rest => exact if_pos (by cases rest <;> simp [RaxNode.size])
        | last d m =>
            have hd : d = c := by
              by_contra hne
              simp [RaxChildren.find?, hne] at hnoup
            simp [RaxNode.size, RaxChildren.prev?, hd]
  rw [← hsize, ← hprev]
  rfl

/-- **A visit on the way back** lands on the last of the entries of the node before the link. If
there are none, the iterator is back at the node. -/
theorem prevVisit_spec {root : RaxNode V} (hroot : root.WellFormed) {noup : Bool}
    {it : RaxIterator V} {edge : Bytes} (h : Taken root it edge)
    (hnoup : noup ∨ (it.node.child? edge).isSome) :
    if (prevVisit noup it).node.value.isSome then
      LandsOn root it.key0 (under (stackKey it.stack) (RaxFrame.before ⟨it.node, edge⟩))
        (prevVisit noup it)
    else
      prevVisit noup it = it.delChars it.node.todel ∧ RaxFrame.before ⟨it.node, edge⟩ = [] := by
  have hwf := h.linked.wellFormed hroot
  -- Nothing but the entry of the node itself is before the link.
  have hown : prevVisit noup it = it.delChars it.node.todel →
      RaxFrame.before ⟨it.node, edge⟩ = it.node.own →
      if (prevVisit noup it).node.value.isSome then
        LandsOn root it.key0 (under (stackKey it.stack) (RaxFrame.before ⟨it.node, edge⟩))
          (prevVisit noup it)
      else prevVisit noup it = it.delChars it.node.todel ∧
        RaxFrame.before ⟨it.node, edge⟩ = [] := by
    intro hvisit hbefore
    rw [hvisit, hbefore]
    split_ifs with hsome
    · exact h.landsOn_own hsome
    · have hnone : it.node.value = none := Option.not_isSome_iff_eq_none.mp hsome
      exact ⟨rfl, by simp [RaxNode.own, hnone]⟩
  cases hnode : it.node with
  | leaf value =>
      rw [← hnode]
      exact hown (prevVisit_of_no_children (by simp [hnode])) (by simp [RaxFrame.before, hnode])
  | compressed value data child =>
      rw [← hnode]
      exact hown (prevVisit_of_no_children (by simp [hnode])) (by simp [RaxFrame.before, hnode])
  | normal value children =>
      rw [← hnode]
      obtain ⟨c, rfl⟩ : ∃ c, edge = [c] := by
        have hlength := h.length
        rw [hnode] at hlength
        exact List.length_eq_one_iff.mp hlength
      rw [hnode] at hwf hnoup
      have hspec := RaxChildren.prev?_spec (c := c) hwf
      have hvisit := prevVisit_normal hnode (by simp [h.key]) hnoup
      cases hfound : children.prev? c with
      | none =>
          rw [hfound] at hspec hvisit
          exact hown hvisit (by simp [RaxFrame.before, hnode, show children.before c = [] from hspec])
      | some found =>
          obtain ⟨d, child⟩ := found
          rw [hfound] at hspec hvisit
          obtain ⟨hfind, hbefore⟩ := hspec
          have hchild : (it.delChars it.node.todel).node.child? [d] = some child := by
            show it.node.child? [d] = some child
            rw [hnode]
            exact hfind
          have hlands := (RaxNode.seekGreatest_spec hroot child _ rfl
            (h.seated.enter hchild (by simp))).of_enter (by simp)
          obtain ⟨v, hv, hlast⟩ := hlands.last
          rw [hvisit, if_pos (by simp [hv])]
          -- The greatest key of the child before the link is the last of all before it.
          have hsplit : RaxFrame.before ⟨it.node, [c]⟩ =
              (it.node.own ++ children.before d) ++ under [d] child.entries := by
            simp [RaxFrame.before, hnode, hbefore]
          rw [hsplit, under_append]
          have hlands := hlands.append (under (stackKey it.stack) (it.node.own ++ children.before d))
          exact ⟨hlands.toSeated, hlands.last, hlands.empty_key0⟩

/-- What a step backward comes to when `before` are the entries before the position. -/
def Retreats (root : RaxNode V) (byte0 : UInt8) (before : List (Bytes × V)) :
    Option (RaxIterator V) → Prop
  | none => before = []
  | some it' => LandsOn root byte0 before it' ∧ it'.data = it'.node.value

/-- A visit, and if it finds no key the rest of the way up. -/
theorem retreats_of_visit {root : RaxNode V} (hroot : root.WellFormed) {noup : Bool}
    {it : RaxIterator V} {edge : Bytes} (h : Taken root it edge)
    (hnoup : noup ∨ (it.node.child? edge).isSome)
    (hup : Retreats root it.key0 (stackBefore it.stack)
      (prevUp it.stack (it.delChars it.node.todel))) :
    Retreats root it.key0 (stackBefore (⟨it.node, edge⟩ :: it.stack))
      (if (prevVisit noup it).node.value.isSome then
        some { prevVisit noup it with data := (prevVisit noup it).node.value }
      else prevUp it.stack (prevVisit noup it)) := by
  have hvisit := prevVisit_spec hroot h hnoup
  rw [stackBefore]
  split_ifs at hvisit ⊢ with hsome
  · have hlands := hvisit.append (stackBefore it.stack)
    exact ⟨⟨⟨hlands.linked, hlands.key, hlands.key0⟩, hlands.last, hlands.empty_key0⟩, rfl⟩
  · obtain ⟨hsame, hbefore⟩ := hvisit
    rw [hsame, hbefore, under_empty, List.append_nil]
    exact hup

/-- **Up to the previous key.** The iterator lands on the last entry before the position; there is
no previous key if there is none. -/
theorem prevUp_spec {root : RaxNode V} (hroot : root.WellFormed) :
    (stack : List (RaxFrame V)) → (n : RaxNode V) → (it : RaxIterator V) →
    Linked root stack n → it.key = stackKey stack →
    (it.key ≠ [] → it.key.head? = some it.key0) →
    Retreats root it.key0 (stackBefore stack) (prevUp stack it)
  | [], _, _, _, _, _ => rfl
  | f :: stack, n, it, ⟨hchild, hlinked⟩, hkey, hkey0 => by
      have hedge := (RaxNode.WellFormed.of_child? (hlinked.wellFormed hroot) hchild).2
      have htaken : Taken root (it.leave f stack) f.edge :=
        ⟨hlinked, hkey, hkey0 (by simp [hkey, stackKey, hedge]), RaxNode.length_edge hchild⟩
      have hseated := htaken.seated
      have hup := prevUp_spec hroot stack f.node _ hlinked hseated.key hseated.key0
      exact retreats_of_visit hroot htaken (.inr (Option.isSome_of_mem hchild)) hup

/-- A step back from a link that has been taken. -/
theorem raxIteratorPrevStep_noup {root : RaxNode V} (hroot : root.WellFormed)
    {it : RaxIterator V} {edge : Bytes} (h : Taken root it edge) (hseek : it.justSeeked = false) :
    Retreats root it.key0 (stackBefore (⟨it.node, edge⟩ :: it.stack)) (raxIteratorPrevStep it true) := by
  rw [raxIteratorPrevStep, if_neg (by simp [hseek]), if_pos rfl]
  exact retreats_of_visit hroot h (.inl rfl)
    (prevUp_spec hroot it.stack it.node _ h.linked h.seated.key h.seated.key0)

/-! ## Seeking -/

/-- A position splits the entries of the tree around every string through it. -/
theorem Linked.below_above {root : RaxNode V} (hroot : root.WellFormed)
    {stack : List (RaxFrame V)} {n : RaxNode V} (h : Linked root stack n) (rest : Bytes)
    (before after : List (Bytes × V)) (hentries : n.entries = before ++ after)
    (hbefore : ∀ e ∈ before, e.1 < rest) (hafter : ∀ e ∈ after, rest < e.1) :
    below (stackKey stack ++ rest) root.entries = stackBefore stack ++ under (stackKey stack) before ∧
      above (stackKey stack ++ rest) root.entries =
        under (stackKey stack) after ++ stackAfter stack := by
  have hsplit : root.entries = (stackBefore stack ++ under (stackKey stack) before) ++
      (under (stackKey stack) after ++ stackAfter stack) := by
    rw [h.entries hroot, hentries, under_append]
    simp
  rw [hsplit]
  refine split_below_above (fun e he => ?_) fun e he => ?_
  · rcases List.mem_append.mp he with he | he
    · exact h.before_lt hroot rest e he
    · obtain ⟨k, hk, hkey⟩ := mem_under.mp he
      rw [hkey]
      exact (append_lt_append_iff _).mpr (hbefore _ hk)
  · rcases List.mem_append.mp he with he | he
    · obtain ⟨k, hk, hkey⟩ := mem_under.mp he
      rw [hkey]
      exact (append_lt_append_iff _).mpr (hafter _ hk)
    · exact h.lt_after hroot rest e he

/-- The walk ends inside the run of a node that is a key: the string is cut short there. -/
def RaxWalk.InsideKey (w : RaxWalk V) (p : Bytes) : Prop :=
  w.matched = p.length ∧ w.node.iscompr ∧ w.node.value.isSome ∧ w.splitpos ≠ 0

instance (w : RaxWalk V) (p : Bytes) : Decidable (w.InsideKey p) := by
  unfold RaxWalk.InsideKey; infer_instance

/-- What a seek of `p` comes to, with the entries `before` and `after` it. The iterator is on the
last entry before. When the walk ends inside a key's run it has no data there and, on a key of
length 0, nothing in its buffer; else it has the data, and the first byte in the buffer is the
string's unless no later key starts so. -/
def SeeksTo (root : RaxNode V) (w : RaxWalk V) (p : Bytes) (garbage : UInt8)
    (before after : List (Bytes × V)) : Option (RaxIterator V) → Prop
  | none => before = []
  | some it => Seated root it ∧ it.justSeeked ∧ ∃ v, it.node.value = some v ∧
      before.getLast? = some (it.key, v) ∧
      if w.InsideKey p then it.data = none ∧ (it.key = [] → it.key0 = garbage)
      else it.data = some v ∧
        (it.key = [] → ∀ c, p.head? = some c → it.key0 = c ∨ ∀ e ∈ after, e.1.head? ≠ some c)

/-- A step back at the end of a seek. -/
theorem Retreats.seeksTo {root : RaxNode V} {w : RaxWalk V} {p : Bytes} {garbage byte0 : UInt8}
    {before after : List (Bytes × V)} {moved : Option (RaxIterator V)}
    (h : Retreats root byte0 before moved) (hinside : ¬ w.InsideKey p)
    (hbyte : ∀ c, p.head? = some c → byte0 = c ∨ ∀ e ∈ after, e.1.head? ≠ some c) :
    SeeksTo root w p garbage before after (moved.map fun it => { it with justSeeked := true }) := by
  cases moved with
  | none => exact h
  | some it =>
      obtain ⟨hlands, hdata⟩ := h
      obtain ⟨v, hv, hlast⟩ := hlands.last
      refine ⟨⟨hlands.linked, hlands.key, hlands.key0⟩, rfl, v, hv, hlast, ?_⟩
      rw [if_neg hinside]
      refine ⟨hdata.trans hv, fun hkey c hc => ?_⟩
      have hempty := hlands.empty_key0 hkey
      exact (hbyte c hc).imp_left fun hbyte => hempty.trans hbyte

/-- Going down to the greatest key at the end of a seek. -/
theorem LandsOn.seeksTo {root : RaxNode V} {w : RaxWalk V} {p : Bytes} {garbage byte0 : UInt8}
    {before after : List (Bytes × V)} {it : RaxIterator V}
    (h : LandsOn root byte0 before it) (hinside : ¬ w.InsideKey p) (hkey : it.key ≠ []) :
    SeeksTo root w p garbage before after
      ((some { it with data := it.node.value }).map fun it => { it with justSeeked := true }) := by
  obtain ⟨v, hv, hlast⟩ := h.last
  refine ⟨⟨h.linked, h.key, h.key0⟩, rfl, v, hv, hlast, ?_⟩
  rw [if_neg hinside]
  exact ⟨hv, fun hnil => absurd hnil hkey⟩

/-- Spelling out the characters of the links into a fresh buffer. -/
theorem foldr_addChars (it : RaxIterator V) (hkey : it.key = []) (stack : List (RaxFrame V)) :
    let it' := stack.foldr (fun f it => it.addChars f.edge) it
    it'.key = stackKey stack ∧ (it'.key ≠ [] → it'.key.head? = some it'.key0) ∧
      (it'.key = [] → it'.key0 = it.key0) ∧ it'.justSeeked = it.justSeeked ∧
      it'.data = it.data := by
  induction stack with
  | nil => simp [hkey, stackKey]
  | cons f stack ih =>
      dsimp only [List.foldr_cons] at ih ⊢
      generalize stack.foldr (fun f it => it.addChars f.edge) it = it' at ih
      obtain ⟨ihkey, ihhead, ihempty, ihseek, ihdata⟩ := ih
      refine ⟨congrArg (· ++ f.edge) ihkey, ?_, ?_, ihseek, ihdata⟩
      · -- The byte is that of the first link with characters.
        show it'.key ++ f.edge ≠ [] →
          (it'.key ++ f.edge).head? = some (if it'.key = [] then f.edge.headD it'.key0 else it'.key0)
        intro hne
        split_ifs with hnil
        · obtain ⟨c, edge, hedge⟩ := List.exists_cons_of_ne_nil
            (show f.edge ≠ [] by simpa [hnil] using hne)
          simp [hnil, hedge]
        · rw [List.head?_append_of_ne_nil _ hnil, ihhead hnil]
      · -- Links without characters leave the buffer alone.
        show it'.key ++ f.edge = [] →
          (if it'.key = [] then f.edge.headD it'.key0 else it'.key0) = it.key0
        intro hnil
        obtain ⟨hkey', hedge⟩ := List.append_eq_nil_iff.mp hnil
        rw [if_pos hkey', hedge, List.headD_nil, ihempty hkey']

/-- The iterator at the stop node, before its first step. -/
theorem seat_spec {root : RaxNode V} {p rest : Bytes} {w : RaxWalk V} (h : WalksTo root p w rest)
    (garbage : UInt8) :
    Seated root (w.seat (raxStart root garbage)) ∧
      (w.seat (raxStart root garbage)).justSeeked = false ∧
      (w.seat (raxStart root garbage)).data = none ∧
      ((w.seat (raxStart root garbage)).key = [] →
        (w.seat (raxStart root garbage)).key0 = garbage) := by
  obtain ⟨hkey, hhead, hempty, hseek, hdata⟩ := foldr_addChars (raxStart root garbage) rfl w.stack
  exact ⟨⟨h.linked, hkey, hhead⟩, hseek, hdata, hempty⟩

/-- Taking a link that starts with the next character of the string. -/
theorem Seated.taken {root : RaxNode V} {it : RaxIterator V} (h : Seated root it) {edge : Bytes}
    (hedge : edge ≠ []) (hlength : edge.length = it.node.todel) :
    Taken root (it.addChars edge) edge where
  linked := h.linked
  key := congrArg (· ++ edge) h.key
  key0 := by
    show (it.key ++ edge).head? = some (if it.key = [] then edge.headD it.key0 else it.key0)
    obtain ⟨c, edge, rfl⟩ := List.exists_cons_of_ne_nil hedge
    split_ifs with hkey
    · simp [hkey]
    · rw [List.head?_append_of_ne_nil _ hkey, h.key0 hkey]
  length := hlength

/-- The first byte in the buffer is the string's when the key so far is a part of the string. -/
theorem key0_of_isPrefix {it : RaxIterator V} {p : Bytes} (hkey0 : it.key.head? = some it.key0)
    (hpre : it.key <+: p) : ∀ c, p.head? = some c → it.key0 = c := by
  intro c hc
  obtain ⟨t, rfl⟩ := hpre
  have hne : it.key ≠ [] := by
    rintro hnil
    simp [hnil] at hkey0
  rw [List.head?_append_of_ne_nil _ hne, hkey0] at hc
  exact Option.some.inj hc

/-- Seeking back at the stop node, from a link it does or does not have. -/
theorem seeksTo_noup {root : RaxNode V} (hroot : root.WellFormed) {p rest : Bytes} {w : RaxWalk V}
    (h : WalksTo root p w rest) (garbage : UInt8) (edge : Bytes) (after : List (Bytes × V))
    (hedge : edge ≠ []) (hlength : edge.length = w.node.todel) (hinside : ¬ w.InsideKey p)
    (hbyte : ∀ c, p.head? = some c → (stackKey w.stack ++ edge).head? = some c ∨
      ∀ e ∈ after, e.1.head? ≠ some c) :
    SeeksTo root w p garbage (stackBefore (⟨w.node, edge⟩ :: w.stack)) after
      ((raxIteratorPrevStep ((w.seat (raxStart root garbage)).addChars edge) true).map fun it =>
        { it with justSeeked := true }) := by
  obtain ⟨hseated, hseek, -, -⟩ := seat_spec h garbage
  have htaken := hseated.taken hedge hlength
  refine (raxIteratorPrevStep_noup hroot htaken hseek).seeksTo hinside fun c hc => ?_
  refine (hbyte c hc).imp_left fun hhead => ?_
  have hkey0 := htaken.key0
  rw [htaken.key] at hkey0
  exact Option.some.inj (hkey0.symm.trans hhead)

/-- Seeking back above the stop node. -/
theorem seeksTo_up {root : RaxNode V} (hroot : root.WellFormed) {p rest : Bytes} {w : RaxWalk V}
    (h : WalksTo root p w rest) (garbage : UInt8) (hinside : ¬ w.InsideKey p)
    (after : List (Bytes × V)) :
    SeeksTo root w p garbage (stackBefore w.stack) after
      ((raxIteratorPrevStep (w.seat (raxStart root garbage)) false).map fun it =>
        { it with justSeeked := true }) := by
  obtain ⟨hseated, hseek, -, -⟩ := seat_spec h garbage
  have hup := prevUp_spec hroot w.stack w.node _ h.linked hseated.key hseated.key0
  rw [raxIteratorPrevStep, if_neg (by simp [hseek]), if_neg (by simp)]
  by_cases hstack : w.stack = []
  · rw [hstack]
    have hempty : (w.seat (raxStart root garbage)).stack = [] := hstack
    rw [hempty]
    rfl
  · refine Retreats.seeksTo hup hinside fun c hc => .inl ?_
    have hne : (w.seat (raxStart root garbage)).key ≠ [] := by
      rw [hseated.key]
      exact fun hnil => hstack ((h.linked.stackKey_eq_nil hroot).mp hnil)
    refine key0_of_isPrefix (hseated.key0 hne) ?_ c hc
    rw [hseated.key]
    exact ⟨rest, h.key⟩

/-- The node's own entry comes before every longer string. -/
theorem RaxNode.own_lt (n : RaxNode V) {rest : Bytes} (hrest : rest ≠ []) :
    ∀ e ∈ n.own, e.1 < rest := by
  intro e he
  rw [(RaxNode.mem_own.mp he).1]
  exact lt_of_isPrefix List.nil_prefix hrest.symm

/-- A string that ends inside the run of a key's node: the seek stays on that key. -/
theorem seekLe_spec_inside {root : RaxNode V} (hroot : root.WellFormed) {v : V} {pre post : Bytes}
    {child : RaxNode V} {stack : List (RaxFrame V)} {matched : Nat}
    (h : WalksTo root (stackKey stack ++ pre)
      ⟨matched, .compressed (some v) (pre ++ post) child, pre.length, stack⟩ pre)
    (hpre : pre ≠ []) (hpost : post ≠ []) (garbage : UInt8) :
    SeeksTo root ⟨matched, .compressed (some v) (pre ++ post) child, pre.length, stack⟩
      (stackKey stack ++ pre) garbage (below (stackKey stack ++ pre) root.entries)
      (above (stackKey stack ++ pre) root.entries)
      ((RaxWalk.seekLe ⟨matched, .compressed (some v) (pre ++ post) child, pre.length, stack⟩
        (stackKey stack ++ pre) (raxStart root garbage)).map fun it =>
          { it with justSeeked := true }) := by
  obtain ⟨hseated, hseek, hdata, hgarbage⟩ := seat_spec h garbage
  have hdeeper : ∀ e ∈ under (pre ++ post) child.entries, pre < e.1 := by
    intro e he
    obtain ⟨k, -, hk⟩ := mem_under.mp he
    rw [hk, List.append_assoc]
    exact lt_of_isPrefix (List.prefix_append _ _) (by simp [hpost])
  obtain ⟨hbelow, -⟩ := h.linked.below_above hroot pre [([], v)]
    (under (pre ++ post) child.entries) rfl (RaxNode.own_lt (.leaf v) hpre) hdeeper
  obtain rfl : matched = (stackKey stack).length + pre.length := h.matched
  have hinside : RaxWalk.InsideKey ⟨(stackKey stack).length + pre.length,
      .compressed (some v) (pre ++ post) child, pre.length, stack⟩
      (stackKey stack ++ pre) := by
    simp [RaxWalk.InsideKey, hpre]
  dsimp only at hbelow
  rw [RaxWalk.seekLe, if_neg (by simp [hpre]), if_neg (by simp), if_pos (by simp [hpre]), hbelow]
  refine ⟨⟨hseated.linked, hseated.key, hseated.key0⟩, rfl, v, rfl, ?_, ?_⟩
  · have hkey : (RaxWalk.seat ⟨(stackKey stack).length + pre.length,
        .compressed (some v) (pre ++ post) child, pre.length, stack⟩
        (raxStart root garbage)).key = stackKey stack := hseated.key
    rw [hkey]
    simp [under]
  · rw [if_pos hinside]
    exact ⟨hdata, hgarbage⟩

/-- A string that parts from the run of a node: all keys below the node are on one side of it, and
the byte where the two part says which. -/
theorem seekLe_spec_split {root : RaxNode V} (hroot : root.WellFormed) {value : Option V}
    {pre post rest : Bytes} {c d : UInt8} {child : RaxNode V} {stack : List (RaxFrame V)}
    {matched : Nat}
    (h : WalksTo root (stackKey stack ++ (pre ++ c :: rest))
      ⟨matched, .compressed value (pre ++ d :: post) child, pre.length, stack⟩ (pre ++ c :: rest))
    (hne : c ≠ d) (garbage : UInt8) :
    SeeksTo root ⟨matched, .compressed value (pre ++ d :: post) child, pre.length, stack⟩
      (stackKey stack ++ (pre ++ c :: rest)) garbage
      (below (stackKey stack ++ (pre ++ c :: rest)) root.entries)
      (above (stackKey stack ++ (pre ++ c :: rest)) root.entries)
      ((RaxWalk.seekLe ⟨matched, .compressed value (pre ++ d :: post) child, pre.length, stack⟩
        (stackKey stack ++ (pre ++ c :: rest)) (raxStart root garbage)).map fun it =>
          { it with justSeeked := true }) := by
  obtain ⟨hseated, -, -, -⟩ := seat_spec h garbage
  have hsplit := h.linked.below_above hroot (pre ++ c :: rest)
  obtain rfl : matched = (stackKey stack).length + pre.length := h.matched
  have hinside : ¬ RaxWalk.InsideKey ⟨(stackKey stack).length + pre.length,
      .compressed value (pre ++ d :: post) child, pre.length, stack⟩
      (stackKey stack ++ (pre ++ c :: rest)) := by
    simp [RaxWalk.InsideKey]
  have hown_lt := RaxNode.own_lt (.compressed value (pre ++ d :: post) child)
    (show pre ++ c :: rest ≠ [] by simp)
  have hdeeper : ∀ e ∈ under (pre ++ d :: post) child.entries, ∃ k, e.1 = pre ++ d :: k := by
    intro e he
    obtain ⟨k, -, hk⟩ := mem_under.mp he
    exact ⟨post ++ k, by simp [hk]⟩
  dsimp only at hsplit
  rw [RaxWalk.seekLe, if_neg (by simp), if_pos (by simp)]
  dsimp only
  split_ifs with hlt
  · -- The run comes first, so the greatest key below the node is the last one before the string.
    have hdc : d < c := by simpa [List.drop_append] using hlt
    obtain ⟨hbelow, -⟩ := hsplit (RaxNode.compressed value (pre ++ d :: post) child).entries []
      (by simp) (by
        intro e he
        rw [RaxNode.entries_eq] at he
        rcases List.mem_append.mp he with he | he
        · exact hown_lt e he
        · obtain ⟨k, hk⟩ := hdeeper e he
          rw [hk]
          exact append_cons_lt _ _ _ hdc) (by simp)
    rw [hbelow]
    have hlands := RaxNode.seekGreatest_spec hroot _ _ rfl hseated
    refine LandsOn.seeksTo (hlands.append (stackBefore stack)) hinside fun hnil => ?_
    exact seekGreatest_key_ne_nil hroot rfl hseated hnil
  · -- The string comes first: only the key of the node itself can be before it.
    have hcd : c < d := by
      refine lt_of_le_of_ne (not_lt.mp ?_) hne
      simpa [List.drop_append] using hlt
    obtain ⟨hbelow, habove⟩ := hsplit (RaxNode.compressed value (pre ++ d :: post) child).own
      (under (pre ++ d :: post) child.entries) rfl hown_lt fun e he => by
        obtain ⟨k, hk⟩ := hdeeper e he
        rw [hk]
        exact append_cons_lt _ _ _ hcd
    have hstep := seeksTo_noup hroot h garbage (pre ++ d :: post)
      (above (stackKey stack ++ (pre ++ c :: rest)) root.entries) (by simp)
      (by simp [RaxNode.todel, RaxNode.size]) hinside ?_
    · rw [hbelow]
      simpa [stackBefore, RaxFrame.before] using hstep
    · intro x hx
      by_cases hshared : stackKey stack ++ pre = []
      · -- The two part at their first character, and all later keys go on with the run.
        obtain ⟨hstack, rfl⟩ := List.append_eq_nil_iff.mp hshared
        have hempty := (h.linked.stackKey_eq_nil hroot).mp hstack
        dsimp only at hempty
        subst hempty
        right
        rw [habove]
        intro e he
        obtain ⟨k, hk⟩ := hdeeper e (by simpa [stackKey, stackAfter] using he)
        have hxc : c = x := by simpa [stackKey] using hx
        rw [hk]
        simpa [hxc] using hcd.ne'
      · left
        rw [← List.append_assoc, List.head?_append_of_ne_nil _ hshared] at hx ⊢
        exact hx

/-- **What `raxSeek` with `<=` comes to** at a string that is no key. -/
theorem seekLe_spec {root : RaxNode V} (hroot : root.WellFormed) {p rest : Bytes}
    {w : RaxWalk V} (h : WalksTo root p w rest) (garbage : UInt8)
    (hnot : ∀ v, (p, v) ∉ root.entries) :
    SeeksTo root w p garbage (below p root.entries) (above p root.entries)
      ((w.seekLe p (raxStart root garbage)).map fun it => { it with justSeeked := true }) := by
  have hkey := h.key
  have hmatched := h.matched
  have hstops := h.stops
  have hnoup := seeksTo_noup hroot h garbage
  have hup := seeksTo_up hroot h garbage
  have hown : rest = [] → w.node.value = none := by
    intro hrest
    by_contra hvalue
    obtain ⟨v, hv⟩ := Option.ne_none_iff_exists'.mp hvalue
    exact hnot v ((h.mem_entries_iff hroot).mpr (h.mem_stop_iff.mpr ⟨hrest, hv⟩))
  have hsplit := h.linked.below_above hroot rest
  obtain ⟨matched, node, splitpos, stack⟩ := w
  dsimp only at hkey hmatched hstops hown hsplit hnoup hup
  rw [hkey] at hsplit
  subst hkey hmatched
  cases hstops with
  | leaf value rest =>
      -- A leaf has no link; the seek takes one that does not exist and steps back from it.
      obtain ⟨c, rest, rfl⟩ := List.exists_cons_of_ne_nil fun hnil => by
        simpa using hown hnil
      obtain ⟨hbelow, -⟩ := hsplit [([], value)] [] rfl (by simp) (by simp)
      rw [hbelow]
      have hstep := hnoup [c] (above (stackKey stack ++ c :: rest) root.entries) (by simp) rfl
        (by simp [RaxWalk.InsideKey]) fun d hd => .inl (by simpa using hd)
      simpa [RaxWalk.seekLe, stackBefore, RaxFrame.before, RaxNode.own] using hstep
  | node value children =>
      -- The string ends at a node without data: all keys below it are greater.
      obtain rfl : value = none := hown rfl
      obtain ⟨hbelow, -⟩ := hsplit [] children.entries rfl (by simp) fun e he => by
        obtain ⟨c, k, -, hk⟩ := RaxChildren.exists_of_mem_entries he
        simp [hk]
      rw [hbelow]
      simpa [RaxWalk.seekLe] using hup (by simp [RaxWalk.InsideKey]) _
  | @mismatch value children c rest hc =>
      -- No child for the next character: the seek steps back from where it would be.
      have hwf := h.linked.wellFormed hroot
      obtain ⟨hbelow, -⟩ := hsplit ((RaxNode.normal value children).own ++ children.before c)
        (children.after c)
        (by rw [RaxNode.entries_eq, RaxNode.deeper, RaxChildren.entries_of_not_mem hwf hc]; simp)
        (fun e he => RaxFrame.before_lt (f := ⟨.normal value children, [c]⟩) (by simp) he rest)
        (fun e he => RaxFrame.lt_after (f := ⟨.normal value children, [c]⟩) (by simp) he rest)
      rw [hbelow]
      have hstep := hnoup [c] (above (stackKey stack ++ c :: rest) root.entries) (by simp) rfl
        (by simp [RaxWalk.InsideKey]) fun d hd => .inl (by simpa using hd)
      simpa [RaxWalk.seekLe, stackBefore, RaxFrame.before] using hstep
  | @inside value pre post child hpost =>
      -- The string ends inside a run, so the keys below the node are greater.
      have hdeeper : ∀ e ∈ under (rest ++ post) child.entries, rest < e.1 := by
        intro e he
        obtain ⟨k, -, hk⟩ := mem_under.mp he
        rw [hk, List.append_assoc]
        exact lt_of_isPrefix (List.prefix_append _ _) (by simp [hpost])
      cases value with
      | none =>
          obtain ⟨hbelow, -⟩ := hsplit [] (under (rest ++ post) child.entries) rfl (by simp) hdeeper
          rw [hbelow]
          simpa [RaxWalk.seekLe] using hup (by simp [RaxWalk.InsideKey]) _
      | some v =>
          exact seekLe_spec_inside hroot h (fun hnil => by simpa using hown hnil) hpost garbage
  | @split value pre post rest c d child hne =>
      exact seekLe_spec_split hroot h hne garbage

/-- `raxSeek` with `<=` on a tree, at a string that is no key. -/
theorem raxSeekLe_spec {t : Rax V} {root : RaxNode V} (hhead : t.head = some root) (p : Bytes)
    (garbage : UInt8) (hfind : raxFind t p = none) :
    SeeksTo root (raxLowWalk root p) p garbage (below p t.entries) (above p t.entries)
      (raxSeekLe t p garbage) := by
  obtain ⟨head, hwf⟩ := t
  obtain rfl : head = some root := hhead
  obtain ⟨rest, h⟩ := raxLowWalk_spec (hwf root rfl) p
  refine seekLe_spec (hwf root rfl) h garbage fun v hv => ?_
  rw [(raxFind_eq_some_iff ⟨some root, hwf⟩ p v).mpr hv] at hfind
  cases hfind

/-- On the empty tree there is nothing to seek. -/
theorem raxSeekLe_of_empty {t : Rax V} (hhead : t.head = none) (p : Bytes) (garbage : UInt8) :
    raxSeekLe t p garbage = none ∧ t.entries = [] := by
  rw [raxSeekLe, hhead, Rax.entries, hhead]
  exact ⟨rfl, rfl⟩

/-- At a key the pending entries start with the key's own. -/
theorem RaxIterator.pending_eq_cons {root : RaxNode V} {it : RaxIterator V} (h : Seated root it)
    {v : V} (hv : it.node.value = some v) : it.pending = (it.key, v) :: it.pending.tail := by
  rw [RaxIterator.pending, RaxNode.entries_eq, RaxNode.own, hv, h.key]
  simp [under]

/-- The pending entries after the last one before a string are the entries after the string. -/
theorem pending_tail_eq_above {root : RaxNode V} (hroot : root.WellFormed) {it : RaxIterator V}
    (h : Seated root it) {v : V} (hv : it.node.value = some v) {p : Bytes}
    (hnot : ∀ v, (p, v) ∉ root.entries)
    (hlast : (below p root.entries).getLast? = some (it.key, v)) :
    it.pending.tail = above p root.entries := by
  have hpending := it.pending_eq_cons h hv
  have hentries : root.entries = stackBefore it.stack ++ (it.key, v) :: it.pending.tail := by
    rw [← hpending, RaxIterator.pending, h.linked.entries hroot, List.append_assoc]
  have hordered := hroot.ordered
  have hlt : it.key < p := (mem_below.mp (List.mem_of_getLast? hlast)).2
  rw [hentries] at hordered
  obtain ⟨-, htail, -⟩ := List.pairwise_append.mp hordered
  -- The list splits at the key: what is after the key is after the string too, as it is the last.
  have hafter : ∀ e ∈ it.pending.tail, p < e.1 := by
    intro e he
    have hmem : e ∈ root.entries := by
      rw [hentries]
      exact List.mem_append_right _ (List.mem_cons_of_mem _ he)
    rcases lt_trichotomy e.1 p with hbelow | heq | habove
    · -- An entry before the string is not after the last of them.
      have hle := Ordered.le_getLast (hroot.ordered.sublist List.filter_sublist) hlast
        (mem_below.mpr ⟨hmem, hbelow⟩)
      exact absurd ((List.pairwise_cons.mp htail).1 e he) (not_lt.mpr hle)
    · obtain ⟨k, x⟩ := e
      obtain rfl : k = p := heq
      exact absurd hmem (hnot x)
    · exact habove
  have hbefore : ∀ e ∈ stackBefore it.stack ++ [(it.key, v)], e.1 < p := by
    intro e he
    rcases List.mem_append.mp he with he | he
    · have hkey := h.linked.before_lt hroot [] e he
      rw [List.append_nil, ← h.key] at hkey
      exact hkey.trans hlt
    · rwa [List.mem_singleton.mp he]
  rw [hentries, ← List.singleton_append, ← List.append_assoc]
  exact (split_below_above hbefore hafter).2.symm

end RaygunApm
