import RaygunApm.Rax.Walk

/-! # Insertion

`raxGenericInsert` with `overwrite`, as `raxInsert` calls it. The source walks to the stop node and
writes the new nodes through the link to it; here the way back up rebuilds the parents. At the stop
node there is the key itself, or a compressed node to be split (`ALGO 1` at a character that
differs, `ALGO 2` where the string ends), or a character to be added, and what is left of the string
becomes a chain of nodes (`raxInsertRest`).

`raxInsert` keeps the tree well formed and sets its key: `isInsert_entries_raxInsert`. -/

namespace RaygunApm

open OrderedKeys

variable {V : Type}

/-- `RAX_NODE_MAX_SIZE`. -/
def raxNodeMaxSize : Nat := 2 ^ 29 - 1

/-- A node for a run of characters: `iscompr` is set when there is more than one. -/
def raxRun (value : Option V) : Bytes → RaxNode V → RaxNode V
  | [c], child => .normal value (.last c child)
  | data, child => .compressed value data child

/-- `raxAddChild`: before the first greater character. -/
def raxAddChild : RaxChildren V → UInt8 → RaxNode V → RaxChildren V
  | .last d n, c, child =>
      if c < d then .cons c child (.last d n) else .cons d n (.last c child)
  | .cons d n rest, c, child =>
      if c < d then .cons c child (.cons d n rest) else .cons d n (raxAddChild rest c child)

/-- The loop `while(i < len)` at a node without children: the first argument bounds the number of
nodes, `value` is the data of the node, `s` what is left of the string. -/
def raxInsertRest : Nat → Option V → Bytes → V → RaxNode V
  | _, _, [], v => .leaf v
  | 0, _, _ :: _, v => .leaf v
  | fuel + 1, value, c :: s, v =>
      raxRun value ((c :: s).take raxNodeMaxSize)
        (raxInsertRest fuel none ((c :: s).drop raxNodeMaxSize) v)

mutual

/-- `raxGenericInsert` from a node on. -/
def RaxNode.insert : RaxNode V → Bytes → V → RaxNode V
  | .leaf old, s, v => raxInsertRest s.length (some old) s v
  | .normal _ children, [], v => .normal (some v) children
  | .normal value children, c :: s, v =>
      if c ∈ children.chars then .normal value (children.insert c s v)
      else .normal value (raxAddChild children c (raxInsertRest s.length none s v))
  | .compressed value data child, s, v =>
      let j := commonLength data s
      if s = [] then .compressed (some v) data child
      else if j = data.length then .compressed value data (child.insert (s.drop j) v)
      else
        match data.drop j, s.drop j with
        | d :: post, c :: s =>
            -- ALGO 1: a split node between the common run and the rest of the old one.
            let postfixNode := if post = [] then child else raxRun none post child
            let splitnode := raxAddChild (.last d postfixNode) c (raxInsertRest s.length none s v)
            if j = 0 then .normal value splitnode
            else raxRun value (data.take j) (.normal none splitnode)
        | post, _ =>
            -- ALGO 2: the string ends inside the run, whose rest becomes the node of the key.
            raxRun value (data.take j) (raxRun (some v) post child)

/-- Insertion below the child of a character. -/
def RaxChildren.insert : RaxChildren V → UInt8 → Bytes → V → RaxChildren V
  | .last d n, c, s, v => if d = c then .last d (n.insert s v) else .last d n
  | .cons d n rest, c, s, v =>
      if d = c then .cons d (n.insert s v) rest else .cons d n (rest.insert c s v)

end

/-! ## Nodes and children -/

/-- The entries of a run are its value, if any, and those of the child under the run. -/
theorem entries_raxRun (value : Option V) (data : Bytes) (child : RaxNode V) :
    (raxRun value data child).entries =
      (value.map fun v => ([], v)).toList ++ under data child.entries := by
  match data with
  | [] => rfl
  | [c] => rfl
  | c :: d :: data => rfl

/-- A run of characters above a well-formed child is well formed. -/
theorem wellFormed_raxRun {value : Option V} {data : Bytes} {child : RaxNode V} (hdata : data ≠ [])
    (hchild : child.WellFormed) : (raxRun value data child).WellFormed := by
  match data, hdata with
  | [c], _ => exact hchild
  | c :: d :: data, _ => exact ⟨by simp, hchild⟩

/-- The rest of the string becomes a chain that ends in its key. -/
theorem raxInsertRest_spec (v : V) (value : Option V) {fuel : Nat} {s : Bytes}
    (hfuel : s.length ≤ fuel) (hs : s ≠ [] ∨ value = none) :
    (raxInsertRest fuel value s v).WellFormed ∧
      (raxInsertRest fuel value s v).entries =
        (value.map fun w => ([], w)).toList ++ [(s, v)] := by
  induction fuel generalizing value s with
  | zero =>
      obtain rfl := List.eq_nil_of_length_eq_zero (Nat.le_zero.mp hfuel)
      obtain rfl := hs.resolve_left (by simp)
      exact ⟨trivial, rfl⟩
  | succ fuel ih =>
      cases s with
      | nil =>
          obtain rfl := hs.resolve_left (by simp)
          exact ⟨trivial, rfl⟩
      | cons c s =>
          have hdrop : ((c :: s).drop raxNodeMaxSize).length ≤ fuel := by
            simp only [List.length_drop, List.length_cons, raxNodeMaxSize] at hfuel ⊢
            omega
          obtain ⟨hwf, hentries⟩ := ih none hdrop (.inr rfl)
          rw [raxInsertRest, entries_raxRun, hentries]
          refine ⟨wellFormed_raxRun (by simp [raxNodeMaxSize]) hwf, ?_⟩
          simp [under]

/-- The new child adds its character. -/
theorem mem_chars_raxAddChild : {cs : RaxChildren V} → {c d : UInt8} → {n : RaxNode V} →
    (d ∈ (raxAddChild cs c n).chars ↔ d = c ∨ d ∈ cs.chars)
  | .last x m, c, d, n => by
      rw [raxAddChild]
      split_ifs <;> simp [or_comm]
  | .cons x m rest, c, d, n => by
      rw [raxAddChild]
      split_ifs
      · simp
      · simp only [RaxChildren.chars, List.mem_cons, @mem_chars_raxAddChild rest]
        tauto

/-- The new child adds its entries, under its character. -/
theorem mem_entries_raxAddChild : {cs : RaxChildren V} → {c : UInt8} → {n : RaxNode V} →
    {e : Bytes × V} →
    (e ∈ (raxAddChild cs c n).entries ↔ e ∈ under [c] n.entries ∨ e ∈ cs.entries)
  | .last x m, c, n, e => by
      rw [raxAddChild]
      split_ifs <;> simp [RaxChildren.entries, or_comm]
  | .cons x m rest, c, n, e => by
      rw [raxAddChild]
      split_ifs
      · simp [RaxChildren.entries]
      · simp only [RaxChildren.entries, List.mem_append, @mem_entries_raxAddChild rest]
        tauto

/-- A child for a character without one keeps the children well formed. -/
theorem wellFormed_raxAddChild : {cs : RaxChildren V} → {c : UInt8} → {n : RaxNode V} →
    cs.WellFormed → n.WellFormed → c ∉ cs.chars → (raxAddChild cs c n).WellFormed
  | .last x m, c, n, hcs, hn, hc => by
      rw [raxAddChild]
      split_ifs with hlt
      · exact ⟨hn, hcs, by simpa using hlt⟩
      · have hne : x ≠ c := fun heq => hc (by simp [heq])
        exact ⟨hcs, hn, by simpa using lt_of_le_of_ne (not_lt.mp hlt) hne⟩
  | .cons x m rest, c, n, hcs, hn, hc => by
      obtain ⟨hm, hrest, hchars⟩ := hcs
      rw [raxAddChild]
      split_ifs with hlt
      · refine ⟨hn, ⟨hm, hrest, hchars⟩, fun d hd => ?_⟩
        rcases List.mem_cons.mp hd with rfl | hd
        · exact hlt
        · exact hlt.trans (hchars d hd)
      · have hne : x ≠ c := fun heq => hc (by simp [heq])
        refine ⟨hm, wellFormed_raxAddChild hrest hn fun hmem => hc (by simp [hmem]), fun d hd => ?_⟩
        rcases mem_chars_raxAddChild.mp hd with rfl | hd
        · exact lt_of_le_of_ne (not_lt.mp hlt) hne
        · exact hchars d hd

/-- Setting a key below a prefix. -/
theorem isInsert_under {p k : Bytes} {v : V} {old new : List (Bytes × V)}
    (h : IsInsert k v old new) : IsInsert (p ++ k) v (under p old) (under p new) := by
  intro e
  obtain ⟨key, x⟩ := e
  rw [mem_under, mem_under]
  constructor
  · rintro ⟨k', hmem, rfl⟩
    rcases (h _).mp hmem with heq | ⟨hne, hmem⟩
    · obtain ⟨rfl, rfl⟩ := Prod.mk.inj heq
      exact .inl rfl
    · exact .inr ⟨fun heq => hne (List.append_cancel_left heq), k', hmem, rfl⟩
  · rintro (heq | ⟨hne, k', hmem, rfl⟩)
    · obtain ⟨rfl, rfl⟩ := Prod.mk.inj heq
      exact ⟨k, (h _).mpr (.inl rfl), rfl⟩
    · exact ⟨k', (h _).mpr (.inr ⟨fun heq => hne (congrArg _ heq), hmem⟩), rfl⟩

/-- Setting the key of the node itself. -/
theorem isInsert_own (value : Option V) (v : V) {deeper : List (Bytes × V)}
    (hdeeper : ∀ e ∈ deeper, e.1 ≠ []) :
    IsInsert [] v ((value.map fun w => ([], w)).toList ++ deeper) ([([], v)] ++ deeper) := by
  refine IsInsert.append_right (fun e => ?_) hdeeper
  have hkey : e ∈ (value.map fun w => (([] : Bytes), w)).toList → e.1 = [] := by
    cases value <;> simp +contextual
  rw [List.mem_singleton]
  tauto

/-- Setting a key of the children of a node. -/
theorem isInsert_children (value : Option V) {k : Bytes} {v : V} {old new : List (Bytes × V)}
    (hk : k ≠ []) (h : IsInsert k v old new) :
    IsInsert k v ((value.map fun w => ([], w)).toList ++ old)
      ((value.map fun w => ([], w)).toList ++ new) := by
  refine h.append_left fun e he => ?_
  cases value with
  | none => cases he
  | some w =>
      obtain rfl := List.mem_singleton.mp he
      exact hk.symm

/-! ## The split of a compressed node -/

/-- `ALGO 1`: the split node has the rest of the run below one character and the rest of the key
below the other. -/
theorem isInsert_split {d c : UInt8} (post s : Bytes) {child : RaxNode V} (v : V) (hne : c ≠ d)
    (hchild : child.WellFormed) :
    let splitnode := raxAddChild (.last d (if post = [] then child else raxRun none post child)) c
      (raxInsertRest s.length none s v)
    splitnode.WellFormed ∧
      IsInsert (c :: s) v (under (d :: post) child.entries) splitnode.entries := by
  have hpostfix : (if post = [] then child else raxRun none post child).WellFormed ∧
      (if post = [] then child else raxRun none post child).entries = under post child.entries := by
    split_ifs with hpost
    · exact ⟨hchild, by rw [hpost, under_nil]⟩
    · exact ⟨wellFormed_raxRun hpost hchild, by rw [entries_raxRun]; rfl⟩
  generalize (if post = [] then child else raxRun none post child) = postfixNode at hpostfix
  obtain ⟨hwf, hentries⟩ := hpostfix
  obtain ⟨hrest, hrestEntries⟩ := raxInsertRest_spec v none (Nat.le_refl s.length) (.inr rfl)
  dsimp only
  refine ⟨wellFormed_raxAddChild hwf hrest (by simpa using hne), ?_⟩
  refine IsInsert.of_fresh (fun e he => ?_) fun e => ?_
  · obtain ⟨k, -, hk⟩ := mem_under.mp he
    rw [hk]
    exact fun heq => hne (List.cons.inj heq).1.symm
  · rw [mem_entries_raxAddChild, hrestEntries, RaxChildren.entries, hentries, under_under]
    simp [under]

/-! ## Insertion sets the key -/

/-- A string that goes through the whole run is inserted below it. -/
theorem insert_compressed_through (value : Option V) {data : Bytes} (child : RaxNode V) (s : Bytes)
    (v : V) (hdata : data ≠ []) :
    (RaxNode.compressed value data child).insert (data ++ s) v =
      .compressed value data (child.insert s v) := by
  have hlength : commonLength data (data ++ s) = data.length := by
    simpa [commonLength] using commonLength_append data [] s
  rw [RaxNode.insert]
  simp [hlength, hdata]

/-- `ALGO 1` at the character `d` of the run. -/
theorem insert_compressed_split (value : Option V) (pre post : Bytes) {c d : UInt8}
    (child : RaxNode V) (s : Bytes) (v : V) (hne : c ≠ d) :
    (RaxNode.compressed value (pre ++ d :: post) child).insert (pre ++ c :: s) v =
      let splitnode := raxAddChild
        (.last d (if post = [] then child else raxRun none post child)) c
        (raxInsertRest s.length none s v)
      if pre = [] then .normal value splitnode else raxRun value pre (.normal none splitnode) := by
  have hlength : commonLength (pre ++ d :: post) (pre ++ c :: s) = pre.length := by
    simp [commonLength, hne.symm]
  rw [RaxNode.insert, hlength]
  simp

/-- `ALGO 2` at the end of the string. -/
theorem insert_compressed_inside (value : Option V) {pre post : Bytes} (child : RaxNode V) (v : V)
    (hpre : pre ≠ []) (hpost : post ≠ []) :
    (RaxNode.compressed value (pre ++ post) child).insert pre v =
      raxRun value pre (raxRun (some v) post child) := by
  have hlength : commonLength (pre ++ post) pre = pre.length := by
    have h := commonLength_append pre post []
    rw [List.append_nil] at h
    rw [h]
    cases post <;> simp [commonLength]
  rw [RaxNode.insert, hlength]
  simp [hpre, hpost]

/-- Insertion at a compressed node whose child keeps its own insertions. -/
theorem insert_compressed_spec {value : Option V} {data : Bytes} {child : RaxNode V} (s : Bytes)
    (v : V) (hwf : (RaxNode.compressed value data child).WellFormed)
    (hchild : ∀ s, (child.insert s v).WellFormed ∧
      IsInsert s v child.entries (child.insert s v).entries) :
    ((RaxNode.compressed value data child).insert s v).WellFormed ∧
      IsInsert s v (RaxNode.compressed value data child).entries
        ((RaxNode.compressed value data child).insert s v).entries := by
  obtain ⟨hdata, hchildwf⟩ := hwf
  rw [RaxNode.entries]
  by_cases hs : s = []
  · subst hs
    rw [show (RaxNode.compressed value data child).insert [] v = .compressed (some v) data child by
      rw [RaxNode.insert]; simp]
    refine ⟨⟨hdata, hchildwf⟩, isInsert_own _ v fun e he => ?_⟩
    obtain ⟨k, -, hk⟩ := mem_under.mp he
    simp [hk, hdata]
  obtain ⟨pre, x, y, rfl, rfl, -, hparts⟩ := exists_commonPrefix data s
  by_cases hx : x = []
  · subst hx
    rw [List.append_nil] at hdata ⊢
    -- The whole run matches: the insertion goes on at the child.
    rw [insert_compressed_through value child y v hdata]
    exact ⟨⟨hdata, (hchild y).1⟩, isInsert_children _ hs (isInsert_under (hchild y).2)⟩
  rcases hparts with h | rfl | ⟨d, c, x, y, rfl, rfl, hne⟩
  · exact absurd h hx
  · rw [List.append_nil] at hs ⊢
    rw [insert_compressed_inside value child v hs hx, entries_raxRun, entries_raxRun]
    refine ⟨wellFormed_raxRun hs (wellFormed_raxRun hx hchildwf), isInsert_children _ hs ?_⟩
    -- The key ends inside the run: the key's node stands between the two halves.
    have hdeeper : ∀ e ∈ under x child.entries, e.1 ≠ [] := by
      intro e he
      obtain ⟨k, -, hk⟩ := mem_under.mp he
      simp [hk, hx]
    have hins := isInsert_under (p := pre) (isInsert_own none v hdeeper)
    simpa [under_under] using hins
  · rw [insert_compressed_split value pre x child y v hne.symm]
    -- The two part: a node with two children, behind the shared part if there is one.
    obtain ⟨hsplitwf, hins⟩ := isInsert_split x y v hne.symm hchildwf
    generalize raxAddChild _ _ _ = splitnode at hsplitwf hins
    have hsplit := isInsert_under (p := pre) hins
    rw [under_under] at hsplit
    dsimp only
    split_ifs with hpre
    · subst hpre
      exact ⟨hsplitwf, isInsert_children _ hs (by simpa using hsplit)⟩
    · rw [entries_raxRun]
      exact ⟨wellFormed_raxRun hpre hsplitwf, isInsert_children _ hs hsplit⟩

mutual

/-- Insertion from a node on keeps it well formed and sets the key. -/
theorem RaxNode.insert_spec :
    (n : RaxNode V) → (s : Bytes) → (v : V) → n.WellFormed →
    (n.insert s v).WellFormed ∧ IsInsert s v n.entries (n.insert s v).entries
  | .leaf old, s, v, _ => by
      rw [RaxNode.insert]
      by_cases hs : s = []
      · subst hs
        refine ⟨trivial, ?_⟩
        exact isInsert_own (some old) v (fun e he => absurd he List.not_mem_nil)
      · obtain ⟨hwf, hentries⟩ :=
          raxInsertRest_spec v (some old) (Nat.le_refl s.length) (.inl hs)
        refine ⟨hwf, ?_⟩
        rw [hentries]
        exact isInsert_children (some old) hs
          (.of_fresh (fun e he => absurd he List.not_mem_nil) (by simp))
  | .normal value children, [], v, hwf => by
      rw [RaxNode.insert]
      refine ⟨hwf, isInsert_own _ v fun e he => ?_⟩
      obtain ⟨c, k, -, hk⟩ := RaxChildren.exists_of_mem_entries he
      simp [hk]
  | .normal value children, c :: s, v, hwf => by
      rw [RaxNode.insert]
      split_ifs with hc
      · obtain ⟨-, hwf', hins⟩ := RaxChildren.insert_spec children c s v hwf hc
        exact ⟨hwf', isInsert_children _ (by simp) hins⟩
      · -- A new child: no key below the node starts with its character.
        obtain ⟨hrest, hentries⟩ := raxInsertRest_spec v none (Nat.le_refl s.length) (.inr rfl)
        refine ⟨wellFormed_raxAddChild hwf hrest hc, isInsert_children _ (by simp) ?_⟩
        refine .of_fresh (fun e he heq => ?_) fun e => ?_
        · obtain ⟨d, k, hd, hk⟩ := RaxChildren.exists_of_mem_entries he
          rw [hk] at heq
          exact hc ((List.cons.inj heq).1 ▸ hd)
        · rw [mem_entries_raxAddChild, hentries]
          simp [under]
  | .compressed value data child, s, v, hwf => by
      exact insert_compressed_spec s v hwf fun s => RaxNode.insert_spec child s v hwf.2

/-- Insertion below the child of a character. -/
theorem RaxChildren.insert_spec :
    (cs : RaxChildren V) → (c : UInt8) → (s : Bytes) → (v : V) → cs.WellFormed → c ∈ cs.chars →
    (cs.insert c s v).chars = cs.chars ∧ (cs.insert c s v).WellFormed ∧
      IsInsert (c :: s) v cs.entries (cs.insert c s v).entries
  | .last d n, c, s, v, hwf, hc => by
      obtain rfl : c = d := by simpa using hc
      rw [RaxChildren.insert, if_pos rfl]
      obtain ⟨hwf', hins⟩ := RaxNode.insert_spec n s v hwf
      exact ⟨rfl, hwf', isInsert_under (p := [c]) hins⟩
  | .cons d n rest, c, s, v, ⟨hn, hrest, hchars⟩, hc => by
      rw [RaxChildren.insert]
      split_ifs with hd
      · obtain rfl := hd
        obtain ⟨hwf', hins⟩ := RaxNode.insert_spec n s v hn
        refine ⟨rfl, ⟨hwf', hrest, hchars⟩, (isInsert_under (p := [d]) hins).append_right ?_⟩
        -- The keys under the later characters stay: they start with another one.
        intro e he heq
        obtain ⟨x, k, hx, hk⟩ := RaxChildren.exists_of_mem_entries he
        rw [hk] at heq
        exact absurd (hchars x hx) (by simp [(List.cons.inj heq).1])
      · have hc' : c ∈ rest.chars := by
          rcases List.mem_cons.mp hc with rfl | hc
          · exact absurd rfl hd
          · exact hc
        obtain ⟨hsame, hwf', hins⟩ := RaxChildren.insert_spec rest c s v hrest hc'
        refine ⟨by simp [hsame], ⟨hn, hwf', hsame ▸ hchars⟩, hins.append_left ?_⟩
        -- So do the keys under the earlier character.
        intro e he heq
        obtain ⟨k, -, hk⟩ := mem_under.mp he
        rw [hk] at heq
        exact hd (List.cons.inj heq).1

end

/-- `raxInsert`: into the empty head, whose node has no children and is no key, the whole key goes
as the rest. -/
def raxInsert (t : Rax V) (s : Bytes) (v : V) : Rax V where
  head := match t.head with
    | none => some (raxInsertRest s.length none s v)
    | some head => some (head.insert s v)
  wellFormed := by
    intro node hnode
    obtain ⟨head, hwf⟩ := t
    cases head with
    | none =>
        obtain rfl := Option.mem_some_iff.mp hnode
        exact (raxInsertRest_spec v none (Nat.le_refl s.length) (.inr rfl)).1
    | some head =>
        obtain rfl := Option.mem_some_iff.mp hnode
        exact (RaxNode.insert_spec head s v (hwf head rfl)).1

/-- **`raxInsert` sets the key and nothing else.** -/
theorem isInsert_entries_raxInsert (t : Rax V) (s : Bytes) (v : V) :
    IsInsert s v t.entries (raxInsert t s v).entries := by
  obtain ⟨head, hwf⟩ := t
  cases head with
  | none =>
      have h := (raxInsertRest_spec v none (Nat.le_refl s.length) (.inr rfl)).2
      simp only [Rax.entries, raxInsert, Option.map_some, Option.getD_some, h]
      exact .of_fresh (by simp) (by simp)
  | some head => exact (RaxNode.insert_spec head s v (hwf head rfl)).2

end RaygunApm
