import RaygunApm.Rules.Stages

/-! # Which rule decides

`Decides` says on the rules alone how a method without an exact rule is classified: by the nearest
path pattern before the class path if that is a namespace of it, else by the first pattern behind
the class path that the loop stops at, else by the patterns that are prefixes. `classify_decides` is
the refinement: the classifier on the trees answers so.

Two things besides the patterns have a say. The walk for the class path may be cut short inside the
node of the nearest pattern, and then that pattern's verdict is not read. And when the nearest
pattern is the empty one, a cut walk leaves the first byte of the key buffer to chance. -/

namespace RaygunApm

open OrderedKeys

/-! ## Filed patterns -/

/-- Some rule is filed under the key. -/
def Filed (rules : List Rule) (table : Table) (key : Bytes) : Prop :=
  ∃ r ∈ rules, r.key = some (table, key)

instance (rules : List Rule) (table : Table) (key : Bytes) : Decidable (Filed rules table key) := by
  unfold Filed; infer_instance

/-- The path patterns with their verdicts in force, in order. -/
def pathEntries (rules : List Rule) : List (Bytes × Verdict) :=
  (Blacklist.ofRules rules).blacklistPaths.entries

/-- The method patterns with their verdicts in force, in order. -/
def methodEntries (rules : List Rule) : List (Bytes × Verdict) :=
  (Blacklist.ofRules rules).blacklistMethods.entries

/-- The entries of paths are the keys in force for paths. -/
theorem mem_pathEntries {rules : List Rule} {e : Bytes × Verdict} :
    e ∈ pathEntries rules ↔ inForce rules .paths e.1 = some e.2 :=
  mem_entries_iff_inForce rules .paths e.1 e.2

/-- The entries of methods are the keys in force for methods. -/
theorem mem_methodEntries {rules : List Rule} {e : Bytes × Verdict} :
    e ∈ methodEntries rules ↔ inForce rules .methods e.1 = some e.2 :=
  mem_entries_iff_inForce rules .methods e.1 e.2

/-- A key is filed exactly if some verdict is in force for it. -/
theorem filed_iff {rules : List Rule} {table : Table} {key : Bytes} :
    Filed rules table key ↔ ∃ v, inForce rules table key = some v := by
  rw [Filed, ← inForce_isSome_iff, Option.isSome_iff_exists]

/-- A lookup in a tree finds the verdict in force. -/
theorem raxFind_tree (rules : List Rule) (table : Table) (key : Bytes) :
    raxFind ((Blacklist.ofRules rules).tree table) key = inForce rules table key := by
  ext v
  rw [raxFind_eq_some_iff, mem_entries_iff_inForce]

/-- The keys of the trees have no NUL byte. -/
theorem nonzero_of_mem_pathEntries {rules : List Rule} {e : Bytes × Verdict}
    (h : e ∈ pathEntries rules) : 0 ∉ e.1 := by
  obtain ⟨r, -, hkey, -⟩ := exists_rule_of_inForce (mem_pathEntries.mp h)
  obtain ⟨path, method, verdict⟩ := r
  cases path with
  | none => cases method <;> simp [Rule.key] at hkey
  | some q =>
      cases method with
      | some n => simp [Rule.key] at hkey
      | none =>
          have hbytes : q.bytes = e.1 := by simpa [Rule.key] using hkey
          exact hbytes ▸ q.nonzero

/-- The path patterns are in order. -/
theorem ordered_pathEntries (rules : List Rule) : Ordered (pathEntries rules) := by
  rw [pathEntries]
  generalize (Blacklist.ofRules rules).blacklistPaths = t
  cases hhead : t.head with
  | none => simp [Rax.entries, hhead, Ordered]
  | some root =>
      rw [Rax.entries, hhead]
      exact (t.wellFormed root hhead).ordered

/-! ## The deciding rule -/

/-- A rule is filed for the fully qualified method, for its class path or for its name. -/
def HasExactRule (rules : List Rule) (path method : CString) : Prop :=
  Filed rules .fq (fullyQualified path method) ∨ Filed rules .paths path.bytes ∨
    Filed rules .methods method.bytes

instance (rules : List Rule) (path method : CString) :
    Decidable (HasExactRule rules path method) := by
  unfold HasExactRule; infer_instance

/-- The greatest path pattern before a class path. -/
structure Nearest (rules : List Rule) (path q : Bytes) : Prop where
  filed : Filed rules .paths q
  lt : q < path
  greatest : ∀ q', Filed rules .paths q' → q' < path → q' ≤ q

/-- The nearest pattern is a namespace the class path lies in. -/
def NearestNamespace (rules : List Rule) (path method : CString) (q : Bytes) : Prop :=
  Nearest rules path.bytes q ∧ PathHit (fullyQualified path method) q

/-- The walk for the class path ends inside the node of a pattern. -/
def CutShort (rules : List Rule) (path : CString) : Prop :=
  (Blacklist.ofRules rules).blacklistPaths.CutsShort path.bytes

instance (rules : List Rule) (path : CString) : Decidable (CutShort rules path) := by
  unfold CutShort; infer_instance

/-- The loop gets behind the pattern it starts from. -/
def LoopRuns (rules : List Rule) (path : CString) (garbage : UInt8) : Prop :=
  ∃ q, Nearest rules path.bytes q ∧
    ¬ (q = [] ∧ CutShort rules path ∧ path.bytes.headD 0 < garbage)

/-- A pattern behind the class path at which the loop stops. -/
def Tail (rules : List Rule) (path method : CString) (key : Bytes) : Prop :=
  Filed rules .paths key ∧ path.bytes < key ∧ PathHit (fullyQualified path method) key

/-- The first pattern behind the class path at which the loop stops. -/
def FirstTail (rules : List Rule) (path method : CString) (key : Bytes) : Prop :=
  Tail rules path method key ∧ ∀ key', Tail rules path method key' → key ≤ key'

/-- The answer of the walks for prefixes of the class path and of the name. -/
def prefixStage (rules : List Rule) (path method : CString) : Option Verdict :=
  (prefixWalk (pathEntries rules) path.bytes).or (prefixWalk (methodEntries rules) method.bytes)

/-- How a method without an exact rule is classified. -/
inductive Decides (rules : List Rule) (path method : CString) (garbage : UInt8) :
    Option Verdict → Prop where
  | ofNamespace {q : Bytes} {v : Verdict} (hq : NearestNamespace rules path method q)
      (hv : inForce rules .paths q = some v) :
      Decides rules path method garbage (if CutShort rules path then none else some v)
  | ofTail {key : Bytes} {v : Verdict} (hq : ∀ q, ¬ NearestNamespace rules path method q)
      (hruns : LoopRuns rules path garbage) (hkey : FirstTail rules path method key)
      (hv : inForce rules .paths key = some v) :
      Decides rules path method garbage (some v)
  | ofPrefixes (hq : ∀ q, ¬ NearestNamespace rules path method q)
      (hend : ¬ (LoopRuns rules path garbage ∧ ∃ key, Tail rules path method key)) :
      Decides rules path method garbage (prefixStage rules path method)

/-- There is one nearest namespace at most. -/
theorem Nearest.unique {rules : List Rule} {path q q' : Bytes} (h : Nearest rules path q)
    (h' : Nearest rules path q') : q = q' :=
  le_antisymm (h'.greatest q h.filed h.lt) (h.greatest q' h'.filed h'.lt)

/-- The last entry before the class path is the nearest pattern. -/
theorem nearest_of_getLast? {rules : List Rule} {path : Bytes} {e : Bytes × Verdict}
    (h : (below path (pathEntries rules)).getLast? = some e) :
    Nearest rules path e.1 ∧ inForce rules .paths e.1 = some e.2 := by
  obtain ⟨hmem, hlt⟩ := mem_below.mp (List.mem_of_getLast? h)
  have hforce := mem_pathEntries.mp hmem
  refine ⟨⟨filed_iff.mpr ⟨_, hforce⟩, hlt, fun q' hfiled hlt' => ?_⟩, hforce⟩
  obtain ⟨v, hv⟩ := filed_iff.mp hfiled
  have hmem' : (q', v) ∈ below path (pathEntries rules) :=
    mem_below.mpr ⟨mem_pathEntries.mpr hv, hlt'⟩
  exact Ordered.le_getLast ((ordered_pathEntries rules).sublist List.filter_sublist) h hmem'

/-- Without an entry before the class path there is no nearest pattern. -/
theorem not_nearest_of_below_eq_nil {rules : List Rule} {path : Bytes}
    (h : below path (pathEntries rules) = []) (q : Bytes) : ¬ Nearest rules path q := by
  intro hq
  obtain ⟨v, hv⟩ := filed_iff.mp hq.filed
  have hmem : (q, v) ∈ below path (pathEntries rules) :=
    mem_below.mpr ⟨mem_pathEntries.mpr hv, hq.lt⟩
  rw [h] at hmem
  cases hmem

/-- The first hit among the later entries is the first tail. -/
theorem firstTail_of_find? {rules : List Rule} {path method : CString} {e : Bytes × Verdict}
    (h : (above path.bytes (pathEntries rules)).find?
      (fun e => PathHit (fullyQualified path method) e.1) = some e) :
    FirstTail rules path method e.1 ∧ inForce rules .paths e.1 = some e.2 := by
  obtain ⟨hhit, front, back, hsplit, hfront⟩ := List.find?_eq_some_iff_append.mp h
  have hmem : e ∈ above path.bytes (pathEntries rules) := by
    rw [hsplit]
    simp
  obtain ⟨hmem, hlt⟩ := mem_above.mp hmem
  have hforce := mem_pathEntries.mp hmem
  refine ⟨⟨⟨filed_iff.mpr ⟨_, hforce⟩, hlt, by simpa using hhit⟩, ?_⟩, hforce⟩
  rintro key' ⟨hfiled, hlt', hhit'⟩
  obtain ⟨v, hv⟩ := filed_iff.mp hfiled
  have hmem' : (key', v) ∈ above path.bytes (pathEntries rules) :=
    mem_above.mpr ⟨mem_pathEntries.mpr hv, hlt'⟩
  have hordered : Ordered (above path.bytes (pathEntries rules)) :=
    (ordered_pathEntries rules).sublist List.filter_sublist
  rw [hsplit] at hmem' hordered
  rcases List.mem_append.mp hmem' with hmem' | hmem'
  · have hmiss := hfront _ hmem'
    simp [hhit'] at hmiss
  · rcases List.mem_cons.mp hmem' with heq | hmem'
    · exact (congrArg Prod.fst heq).ge
    · have hlater := (List.pairwise_append.mp hordered).2.1
      exact ((List.pairwise_cons.mp hlater).1 _ hmem').le

/-- Without a hit among the later entries there is no tail. -/
theorem not_tail_of_find? {rules : List Rule} {path method : CString}
    (h : (above path.bytes (pathEntries rules)).find?
      (fun e => PathHit (fullyQualified path method) e.1) = none) (key : Bytes) :
    ¬ Tail rules path method key := by
  rintro ⟨hfiled, hlt, hhit⟩
  obtain ⟨v, hv⟩ := filed_iff.mp hfiled
  have hmem : (key, v) ∈ above path.bytes (pathEntries rules) :=
    mem_above.mpr ⟨mem_pathEntries.mpr hv, hlt⟩
  have hmiss := List.find?_eq_none.mp h _ hmem
  simp [hhit] at hmiss

/-- With an exact rule the lookups decide: the fully qualified method before the class path before
the name. -/
theorem classify_eq_of_exact {rules : List Rule} {path method : CString} (garbage : UInt8)
    (h : HasExactRule rules path method) :
    classify rules path method garbage =
      (inForce rules .fq (fullyQualified path method)).or
        ((inForce rules .paths path.bytes).or (inForce rules .methods method.bytes)) := by
  have hfq : raxFind (Blacklist.ofRules rules).blacklistFq _ = _ :=
    raxFind_tree rules .fq (fullyQualified path method)
  have hpaths : raxFind (Blacklist.ofRules rules).blacklistPaths _ = _ :=
    raxFind_tree rules .paths path.bytes
  have hmethods : raxFind (Blacklist.ofRules rules).blacklistMethods _ = _ :=
    raxFind_tree rules .methods method.bytes
  rw [HasExactRule, filed_iff, filed_iff, filed_iff] at h
  rw [classify, rbRgBlacklistedMethodP, hfq, hpaths, hmethods]
  cases hvfq : inForce rules .fq (fullyQualified path method) with
  | some v => rfl
  | none =>
      cases hvpaths : inForce rules .paths path.bytes with
      | some v => rfl
      | none =>
          cases hvmethods : inForce rules .methods method.bytes with
          | some v => rfl
          | none => simp [hvfq, hvpaths, hvmethods] at h

/-- **The classifier on the trees decides by the rules as `Decides` says.** -/
theorem classify_decides {rules : List Rule} {path method : CString} (garbage : UInt8)
    (hpath : path.bytes ≠ []) (hexact : ¬ HasExactRule rules path method) :
    Decides rules path method garbage (classify rules path method garbage) := by
  have hnone : ∀ table key, ¬ Filed rules table key → inForce rules table key = none := by
    intro table key hfiled
    by_contra hsome
    exact hfiled (filed_iff.mpr (Option.ne_none_iff_exists'.mp hsome))
  rw [HasExactRule, not_or, not_or] at hexact
  have hfq : raxFind (Blacklist.ofRules rules).blacklistFq (fullyQualified path method) = none :=
    (raxFind_tree rules .fq _).trans (hnone _ _ hexact.1)
  have hpaths : raxFind (Blacklist.ofRules rules).blacklistPaths path.bytes = none :=
    (raxFind_tree rules .paths _).trans (hnone _ _ hexact.2.1)
  have hmethods : raxFind (Blacklist.ofRules rules).blacklistMethods method.bytes = none :=
    (raxFind_tree rules .methods _).trans (hnone _ _ hexact.2.2)
  have hloop := pathLoop_eq (t := (Blacklist.ofRules rules).blacklistPaths)
    (fun e he => nonzero_of_mem_pathEntries he) hpath (hash :: method.bytes) garbage hpaths
  -- With no exact key in a table the classifier is the loop and, behind it, the walks.
  have hclassify : classify rules path method garbage =
      ((below path.bytes (pathEntries rules)).getLast?.bind fun start =>
        pathLoopFrom (fullyQualified path method) path.bytes garbage (CutShort rules path) start
          (above path.bytes (pathEntries rules))).getD (prefixStage rules path method) := by
    rw [classify, rbRgBlacklistedMethodP, hfq, hpaths, hmethods]
    dsimp only
    rw [show fullyQualified path method = path.bytes ++ hash :: method.bytes from rfl, hloop,
      prefixStage, pathEntries, methodEntries, rbRgBlacklistedStringP_eq, rbRgBlacklistedStringP_eq]
    unfold CutShort
    generalize prefixWalk _ path.bytes = answer
    generalize Option.bind _ _ = found
    cases found <;> cases answer <;> rfl
  rw [hclassify]
  cases hlast : (below path.bytes (pathEntries rules)).getLast? with
  | none =>
      -- No key before the path: there is no loop.
      have hbelow := List.getLast?_eq_none_iff.mp hlast
      have hno := not_nearest_of_below_eq_nil hbelow
      exact .ofPrefixes (fun q hq => hno q hq.1) fun h => hno _ h.1.choose_spec.1
  | some start =>
      obtain ⟨hnearest, hv⟩ := nearest_of_getLast? hlast
      rw [Option.bind_some, pathLoopFrom]
      by_cases hhit : PathHit (fullyQualified path method) start.1
      · rw [if_pos hhit]
        simpa using @Decides.ofNamespace _ _ _ garbage _ _ ⟨hnearest, hhit⟩ hv
      · -- The loop does not hit the key it starts from, so no namespace is nearest.
        have hno : ∀ q, ¬ NearestNamespace rules path method q := by
          rintro q ⟨hq, hhit'⟩
          exact hhit (hnearest.unique hq ▸ hhit')
        rw [if_neg hhit]
        split_ifs with hstall
        · -- The byte left in the buffer ends the loop.
          refine .ofPrefixes hno ?_
          rintro ⟨⟨q, hq, hgoes⟩, -⟩
          obtain rfl := hnearest.unique hq
          exact hgoes (by simpa using hstall)
        · have hruns : LoopRuns rules path garbage := ⟨start.1, hnearest, by simpa using hstall⟩
          cases hfound : (above path.bytes (pathEntries rules)).find?
              (fun e => PathHit (fullyQualified path method) e.1) with
          | none =>
              exact .ofPrefixes hno fun h => not_tail_of_find? hfound _ h.2.choose_spec
          | some e =>
              obtain ⟨hfirst, hv⟩ := firstTail_of_find? hfound
              exact .ofTail hno hruns hfirst hv

/-! ## The uninitialised byte -/

/-- The classification gets to read the byte of the key buffer that nothing has written: no rule is
filed exactly, the nearest path pattern is the empty one, and the walk for the class path is cut
short in its node. -/
structure ReadsGarbage (rules : List Rule) (fullyQualified path method : Bytes) : Prop where
  fq : ¬ Filed rules .fq fullyQualified
  paths : ¬ Filed rules .paths path
  methods : ¬ Filed rules .methods method
  nearest : Nearest rules path []
  cut : (Blacklist.ofRules rules).blacklistPaths.CutsShort path

/-- There is no key before the empty string. -/
theorem raxSeekLe_nil {t : Rax Verdict} (hfind : raxFind t [] = none) (garbage : UInt8) :
    raxSeekLe t [] garbage = none := by
  cases hhead : t.head with
  | none => exact (raxSeekLe_of_empty hhead [] garbage).1
  | some root =>
      have hspec := raxSeekLe_spec hhead [] garbage hfind
      cases hseek : raxSeekLe t [] garbage with
      | none => rfl
      | some it =>
          rw [hseek] at hspec
          obtain ⟨-, -, v, -, hlast, -⟩ := hspec
          exact absurd (mem_below.mp (List.mem_of_getLast? hlast)).2 (List.not_lt_nil _)

/-- **A classification that does not read the byte** is the same for every byte. -/
theorem rbRgBlacklistedMethodP_eq_of_not_readsGarbage {rules : List Rule} {path rest method : Bytes}
    (h : ¬ ReadsGarbage rules (path ++ rest) path method) (garbage garbage' : UInt8) :
    rbRgBlacklistedMethodP (.ofRules rules) (path ++ rest) path method garbage =
      rbRgBlacklistedMethodP (.ofRules rules) (path ++ rest) path method garbage' := by
  have hfiled : ∀ table key, raxFind ((Blacklist.ofRules rules).tree table) key = none →
      ¬ Filed rules table key := by
    intro table key hfind
    rw [filed_iff, ← raxFind_tree, hfind]
    simp
  rw [rbRgBlacklistedMethodP, rbRgBlacklistedMethodP]
  cases hfq : raxFind (Blacklist.ofRules rules).blacklistFq (path ++ rest) with
  | some data => rfl
  | none =>
      cases hpaths : raxFind (Blacklist.ofRules rules).blacklistPaths path with
      | some data => rfl
      | none =>
          cases hmethods : raxFind (Blacklist.ofRules rules).blacklistMethods method with
          | some data => rfl
          | none =>
              have hloop : ∀ byte, pathLoop (path ++ rest) path
                  ((Blacklist.ofRules rules).blacklistPaths.entries.length + 1)
                  (raxSeekLe (Blacklist.ofRules rules).blacklistPaths path byte) =
                pathLoop (path ++ rest) path
                  ((Blacklist.ofRules rules).blacklistPaths.entries.length + 1)
                  (raxSeekLe (Blacklist.ofRules rules).blacklistPaths path 0) := by
                intro byte
                by_cases hnil : path = []
                · subst hnil
                  rw [raxSeekLe_nil hpaths, raxSeekLe_nil hpaths]
                · rw [pathLoop_eq (fun e he => nonzero_of_mem_pathEntries he) hnil rest byte hpaths,
                    pathLoop_eq (fun e he => nonzero_of_mem_pathEntries he) hnil rest 0 hpaths]
                  cases hlast : (below path
                      (Blacklist.ofRules rules).blacklistPaths.entries).getLast? with
                  | none => rfl
                  | some start =>
                      have hnearest := (nearest_of_getLast? hlast).1
                      have hstalls : start.1 = [] →
                          ¬ decide ((Blacklist.ofRules rules).blacklistPaths.CutsShort path) = true := by
                        intro hempty hcut
                        exact h ⟨hfiled .fq _ hfq, hfiled .paths _ hpaths, hfiled .methods _ hmethods,
                          hempty ▸ hnearest, of_decide_eq_true hcut⟩
                      rw [Option.bind_some, Option.bind_some, pathLoopFrom, pathLoopFrom,
                        if_neg (show ¬ (start.1 = [] ∧ _) from fun hstall => hstalls hstall.1 hstall.2.1),
                        if_neg (show ¬ (start.1 = [] ∧ _) from fun hstall => hstalls hstall.1 hstall.2.1)]
              rw [hloop garbage, hloop garbage']

end RaygunApm
