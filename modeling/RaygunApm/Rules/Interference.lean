import RaygunApm.Rules.Documented

/-! # Rules that interfere

A rule that does not match a method should not change how the method is classified. `Interferes`
lists how it does all the same: it moves the start of the loop past a namespace, it changes where
the walk for the class path is cut short, it is misread as a match, it lets the loop run or keeps it
from running, or it lets a walk take the first step it needs to see the empty pattern.
`classify_append_eq_iff` says that there is no other way. -/

namespace RaygunApm

open OrderedKeys

/-! ## The condition -/

/-- Some pattern begins with the first character of the string. -/
def FirstCharacter (rules : List Rule) (table : Table) (s : Bytes) : Prop :=
  s ≠ [] ∧ ∃ key, Filed rules table key ∧ key.head? = s.head?

/-- The patterns that are prefixes of the string say this: some pattern has its first character, so
that the walk takes a step, one that is a prefix has the verdict, and none is whitelisted if that is
not it. -/
structure PrefixesIn (rules : List Rule) (table : Table) (s : Bytes) (v : Verdict) : Prop where
  first : FirstCharacter rules table s
  found : ∃ key, inForce rules table key = some v ∧ key <+: s
  wins : v = .blacklisted → ∀ key, key <+: s → inForce rules table key ≠ some .whitelisted

/-- The prefixes of the class path say this, or they say nothing and those of the name do. -/
def PrefixesSay (rules : List Rule) (path method : CString) (v : Verdict) : Prop :=
  PrefixesIn rules .paths path.bytes v ∨
    ((∀ v', ¬ PrefixesIn rules .paths path.bytes v') ∧ PrefixesIn rules .methods method.bytes v)

/-- Where the loop ends when it starts from no namespace: at the first pattern behind the class path
that it stops at, or, if it does not run or finds none, at no pattern. -/
inductive LoopEnds (rules : List Rule) (path method : CString) (garbage : UInt8) :
    Option Bytes → Prop where
  | stops {key : Bytes} (hruns : LoopRuns rules path garbage)
      (hfirst : FirstTail rules path method key) : LoopEnds rules path method garbage (some key)
  | passes (hend : ¬ (LoopRuns rules path garbage ∧ ∃ key, Tail rules path method key)) :
      LoopEnds rules path method garbage none

/-- The patterns behind the nearest namespace `q` do not have its verdict `v`: the first one that
the loop stops at has another one, or there is none, and `q` is blacklisted in a whitelisted prefix.
-/
def Disagrees (rules : List Rule) (path method : CString) (v : Verdict) : Prop :=
  (∃ key, FirstTail rules path method key ∧ inForce rules .paths key ≠ some v) ∨
    ((∀ key, ¬ Tail rules path method key) ∧ v = .blacklisted ∧
      ∃ key, key <+: path.bytes ∧ inForce rules .paths key = some .whitelisted)

/-- The rule is the first one with the first character of the class path or of the name, and the
walk then sees the empty pattern, whose verdict is not what the prefixes said before. -/
def FirstStep (rules : List Rule) (r : Rule) (path method : CString) : Prop :=
  (∃ pattern v, r.key = some (.paths, pattern) ∧ pattern.head? = path.bytes.head? ∧
    ¬ FirstCharacter rules .paths path.bytes ∧ inForce rules .paths [] = some v ∧
      ¬ PrefixesIn rules .methods method.bytes v) ∨
  (∃ pattern, r.key = some (.methods, pattern) ∧ pattern.head? = method.bytes.head? ∧
    ¬ FirstCharacter rules .methods method.bytes ∧ Filed rules .methods [] ∧
      ∀ v, ¬ PrefixesIn rules .paths path.bytes v)

/-- **How a rule that does not match interferes**, `rules` being the rules without it. The two bytes
are those in the key buffers of the classification without the rule and of the one with it. -/
inductive Interferes (rules : List Rule) (r : Rule) (path method : CString)
    (garbage garbage' : UInt8) : Prop where
  /-- The rule comes between the nearest namespace and the class path. The loop starts from it then,
  and the namespace's verdict, if it was read, is not that of the patterns behind. -/
  | startMoved {q pattern : Bytes} {v : Verdict} (hkey : r.key = some (.paths, pattern))
      (hq : NearestNamespace rules path method q) (hv : inForce rules .paths q = some v)
      (hbetween : q < pattern ∧ pattern < path.bytes)
      (hverdict : CutShort rules path ∨ Disagrees rules path method v)
  /-- The rule changes whether the walk is cut short inside the node of the nearest namespace. -/
  | cutChanged {q pattern : Bytes} (hkey : r.key = some (.paths, pattern))
      (hq : NearestNamespace rules path method q)
      (hapart : ¬ (q < pattern ∧ pattern < path.bytes))
      (hcut : ¬ (CutShort rules path ↔ CutShort (rules ++ [r]) path))
  /-- The rule is misread as a match, before the pattern that the loop stops at without it, and has
  another verdict. -/
  | misread {key pattern : Bytes} (hkey : r.key = some (.paths, pattern))
      (hq : ∀ q, ¬ NearestNamespace rules path method q)
      (hloop : LoopEnds rules path method garbage (some key))
      (hloop' : LoopEnds (rules ++ [r]) path method garbage' (some pattern))
      (hverdict : inForce rules .paths key ≠ some r.verdict)
  /-- The loop stops at a pattern, the rule or another one, and did not without the rule; the
  prefixes do not say the same. -/
  | loopOpened {key : Bytes} {v : Verdict} (hq : ∀ q, ¬ NearestNamespace rules path method q)
      (hloop : LoopEnds rules path method garbage none)
      (hloop' : LoopEnds (rules ++ [r]) path method garbage' (some key))
      (hv : inForce (rules ++ [r]) .paths key = some v)
      (hverdict : ¬ PrefixesSay rules path method v)
  /-- The loop stopped at a pattern, and does not with the rule; the prefixes do not say the same.
  -/
  | loopStalled {key : Bytes} {v : Verdict} (hq : ∀ q, ¬ NearestNamespace rules path method q)
      (hloop : LoopEnds rules path method garbage (some key))
      (hloop' : LoopEnds (rules ++ [r]) path method garbage' none)
      (hv : inForce rules .paths key = some v)
      (hverdict : ¬ PrefixesSay (rules ++ [r]) path method v)
  /-- A walk for prefixes takes its first step because of it. -/
  | firstStep (hq : ∀ q, ¬ NearestNamespace rules path method q)
      (hloop : LoopEnds rules path method garbage none)
      (hloop' : LoopEnds (rules ++ [r]) path method garbage' none)
      (hstep : FirstStep rules r path method)

/-! ## One more rule -/

/-- With one more rule exactly the key of the rule is filed in addition. -/
theorem filed_append {rules : List Rule} {r : Rule} {table : Table} {key : Bytes} :
    Filed (rules ++ [r]) table key ↔ Filed rules table key ∨ r.key = some (table, key) := by
  simp [Filed, or_and_right, exists_or]

/-- A verdict in force stays when the rule is filed elsewhere. -/
theorem inForce_append_of_ne {rules : List Rule} {r : Rule} {table : Table} {key : Bytes}
    (h : r.key ≠ some (table, key)) :
    inForce (rules ++ [r]) table key = inForce rules table key := by
  rw [inForce_append, if_neg h]

section

variable {rules : List Rule} {r : Rule} {path method : CString} {garbage garbage' : UInt8}

/-- A rule that does not match is not filed under a key that matches. -/
theorem key_ne_of_keyMatches (hr : ¬ r.Matches path method) (table : Table) {key : Bytes}
    (h : KeyMatches table key path method) : r.key ≠ some (table, key) :=
  fun hkey => hr ((Rule.matches_iff_of_key hkey path method).mpr h)

/-- Next to an exact rule a rule that does not match changes nothing. -/
theorem classify_append_of_exact (hpath : ConstantPath path) (hr : ¬ r.Matches path method)
    (hexact : HasExactRule rules path method) (garbage garbage' : UInt8) :
    HasExactRule (rules ++ [r]) path method ∧
      classify (rules ++ [r]) path method garbage' = classify rules path method garbage := by
  have hexact' : HasExactRule (rules ++ [r]) path method :=
    hexact.imp (fun h => filed_append.mpr (.inl h))
      (Or.imp (fun h => filed_append.mpr (.inl h)) fun h => filed_append.mpr (.inl h))
  refine ⟨hexact', ?_⟩
  rw [classify_eq_of_exact garbage hexact, classify_eq_of_exact garbage' hexact',
    inForce_append_of_ne (key_ne_of_keyMatches hr .fq rfl),
    inForce_append_of_ne (key_ne_of_keyMatches hr .paths
      (pathMatches_of_isPrefix hpath List.prefix_rfl)),
    inForce_append_of_ne (key_ne_of_keyMatches hr .methods List.prefix_rfl)]

/-- Without an exact rule a rule that does not match is none. -/
theorem not_hasExactRule_append (hpath : ConstantPath path) (hr : ¬ r.Matches path method)
    (hexact : ¬ HasExactRule rules path method) : ¬ HasExactRule (rules ++ [r]) path method := by
  rw [HasExactRule, filed_append, filed_append, filed_append]
  rw [HasExactRule] at hexact
  have hfq := key_ne_of_keyMatches hr .fq (show KeyMatches .fq (fullyQualified path method) _ _ from rfl)
  have hpaths := key_ne_of_keyMatches hr .paths
    (pathMatches_of_isPrefix hpath List.prefix_rfl)
  have hmethods := key_ne_of_keyMatches hr .methods
    (show KeyMatches .methods method.bytes _ _ from List.prefix_rfl)
  tauto

/-! ## The loop with one more rule -/

/-- A rule is filed in one table under one key. -/
theorem key_unique {table table' : Table} {key key' : Bytes} (h : r.key = some (table, key))
    (h' : r.key = some (table', key')) : table = table' ∧ key = key' :=
  Prod.mk.inj (Option.some.inj (h.symm.trans h'))

/-- A namespace that is nearest with the rule is nearest without it. -/
theorem NearestNamespace.of_append (hpath : ConstantPath path) (hr : ¬ r.Matches path method)
    {q : Bytes} (h : NearestNamespace (rules ++ [r]) path method q) :
    NearestNamespace rules path method q := by
  have hkey : r.key ≠ some (.paths, q) := key_ne_of_keyMatches hr .paths (h.pathMatches hpath)
  obtain ⟨hnearest, hhit⟩ := h
  refine ⟨⟨(filed_append.mp hnearest.filed).resolve_right hkey, hnearest.lt, ?_⟩, hhit⟩
  intro q' hfiled hlt
  exact hnearest.greatest q' (filed_append.mpr (.inl hfiled)) hlt

/-- A namespace stays nearest unless the rule comes between it and the class path. -/
theorem NearestNamespace.append {q : Bytes} (h : NearestNamespace rules path method q)
    (hapart : ∀ pattern, r.key = some (.paths, pattern) →
      ¬ (q < pattern ∧ pattern < path.bytes)) :
    NearestNamespace (rules ++ [r]) path method q := by
  obtain ⟨hnearest, hhit⟩ := h
  refine ⟨⟨filed_append.mpr (.inl hnearest.filed), hnearest.lt, fun q' hfiled hlt => ?_⟩, hhit⟩
  rcases filed_append.mp hfiled with hfiled | hkey
  · exact hnearest.greatest q' hfiled hlt
  · by_contra hle
    exact hapart q' hkey ⟨not_le.mp hle, hlt⟩

/-- A rule between the nearest pattern and the class path becomes the nearest. -/
theorem nearest_append_of_between {q pattern : Bytes} (h : Nearest rules path.bytes q)
    (hkey : r.key = some (.paths, pattern)) (hbetween : q < pattern ∧ pattern < path.bytes) :
    Nearest (rules ++ [r]) path.bytes pattern := by
  refine ⟨filed_append.mpr (.inr hkey), hbetween.2, fun q' hfiled hlt => ?_⟩
  rcases filed_append.mp hfiled with hfiled | hkey'
  · exact (h.greatest q' hfiled hlt).trans hbetween.1.le
  · obtain ⟨-, rfl⟩ := key_unique hkey hkey'
    exact le_rfl

/-- The loop runs when it starts from a rule between the nearest namespace and the class path. -/
theorem loopRuns_append_of_between {q pattern : Bytes} (h : Nearest rules path.bytes q)
    (hkey : r.key = some (.paths, pattern)) (hbetween : q < pattern ∧ pattern < path.bytes) :
    LoopRuns (rules ++ [r]) path garbage := by
  refine ⟨pattern, nearest_append_of_between h hkey hbetween, fun hstall => ?_⟩
  rw [hstall.1] at hbetween
  exact List.not_lt_nil _ hbetween.1

/-- A tail stays one with one more rule. -/
theorem tail_append {key : Bytes} (h : Tail rules path method key) :
    Tail (rules ++ [r]) path method key :=
  ⟨filed_append.mpr (.inl h.1), h.2⟩

/-- The first tail with the rule, if it is another pattern, is the first without it. -/
theorem FirstTail.of_append {key : Bytes} (h : FirstTail (rules ++ [r]) path method key)
    (hkey : r.key ≠ some (.paths, key)) : FirstTail rules path method key :=
  ⟨⟨(filed_append.mp h.1.1).resolve_right hkey, h.1.2⟩, fun key' hkey' =>
    h.2 key' (tail_append hkey')⟩

/-- There is one first tail at most. -/
theorem FirstTail.unique {key key' : Bytes} (h : FirstTail rules path method key)
    (h' : FirstTail rules path method key') : key = key' :=
  le_antisymm (h.2 key' h'.1) (h'.2 key h.1)

/-- A rule for another table leaves the paths alone. -/
theorem blacklistPaths_append (h : ∀ pattern, r.key ≠ some (.paths, pattern)) :
    (Blacklist.ofRules (rules ++ [r])).blacklistPaths = (Blacklist.ofRules rules).blacklistPaths := by
  have hadd := tree_add (Blacklist.ofRules rules) r .paths
  rw [Blacklist.ofRules_append]
  cases hkey : r.key with
  | none =>
      rw [hkey] at hadd
      exact hadd
  | some filed =>
      obtain ⟨table, key⟩ := filed
      rw [hkey] at hadd
      have htable : Table.paths ≠ table := by
        rintro rfl
        exact h key hkey
      dsimp only at hadd
      rw [if_neg htable] at hadd
      exact hadd

/-- Only a path rule changes where the walk for the class path ends. -/
theorem exists_key_of_cutShort
    (h : ¬ (CutShort rules path ↔ CutShort (rules ++ [r]) path)) :
    ∃ pattern, r.key = some (.paths, pattern) := by
  by_contra hno
  apply h
  rw [CutShort, CutShort, blacklistPaths_append fun pattern hkey => hno ⟨pattern, hkey⟩]

/-! ## The walks -/

/-- A walk takes a first step if some pattern has the first character. -/
theorem startsAlong_iff {table : Table} {s : Bytes} :
    StartsAlong ((Blacklist.ofRules rules).tree table).entries s ↔ FirstCharacter rules table s := by
  simp only [StartsAlong, FirstCharacter, Prod.exists, mem_entries_iff_inForce, filed_iff]
  tauto

/-- The patterns that are prefixes have a verdict together: whitelisted if one of them is. -/
theorem prefixVerdict_eq_some_iff {table : Table} {s : Bytes} {v : Verdict} :
    prefixVerdict ((Blacklist.ofRules rules).tree table).entries s = some v ↔
      (∃ key, inForce rules table key = some v ∧ key <+: s) ∧
        (v = .blacklisted → ∀ key, key <+: s → inForce rules table key ≠ some .whitelisted) := by
  have hentry : ∀ v, (∃ e ∈ ((Blacklist.ofRules rules).tree table).entries, e.1 <+: s ∧ e.2 = v) ↔
      ∃ key, inForce rules table key = some v ∧ key <+: s := by
    intro v
    simp only [Prod.exists, mem_entries_iff_inForce]
    constructor
    · rintro ⟨key, _, hmem, hpre, rfl⟩
      exact ⟨key, hmem, hpre⟩
    · rintro ⟨key, hmem, hpre⟩
      exact ⟨key, v, hmem, hpre, rfl⟩
  rw [prefixVerdict]
  split_ifs with hwhite hblack
  · -- a whitelisted prefix wins over a blacklisted one
    rw [hentry] at hwhite
    cases v with
    | whitelisted => exact iff_of_true rfl ⟨hwhite, fun h => by cases h⟩
    | blacklisted =>
        obtain ⟨key, hmem, hpre⟩ := hwhite
        exact iff_of_false (fun h => by cases h) fun h => h.2 rfl key hpre hmem
  · rw [hentry] at hwhite hblack
    cases v with
    | whitelisted => exact iff_of_false (fun h => by cases h) fun h => hwhite h.1
    | blacklisted =>
        exact iff_of_true rfl ⟨hblack, fun _ key hpre hmem => hwhite ⟨key, hmem, hpre⟩⟩
  · rw [hentry] at hwhite hblack
    refine iff_of_false (fun h => by cases h) fun h => ?_
    cases v with
    | whitelisted => exact hwhite h.1
    | blacklisted => exact hblack h.1

/-- **What a walk answers** is what the patterns say. -/
theorem prefixWalk_eq_some_iff {table : Table} {s : Bytes} {v : Verdict} :
    prefixWalk ((Blacklist.ofRules rules).tree table).entries s = some v ↔
      PrefixesIn rules table s v := by
  rw [prefixWalk]
  split_ifs with hstart
  · rw [prefixVerdict_eq_some_iff]
    exact ⟨fun h => ⟨startsAlong_iff.mp hstart, h.1, h.2⟩, fun h => ⟨h.found, h.wins⟩⟩
  · exact iff_of_false (fun h => by cases h) fun h => hstart (startsAlong_iff.mpr h.first)

/-- A prefix walk has no answer exactly if no registered prefix gives one. -/
theorem prefixWalk_eq_none_iff {table : Table} {s : Bytes} :
    prefixWalk ((Blacklist.ofRules rules).tree table).entries s = none ↔
      ∀ v, ¬ PrefixesIn rules table s v := by
  simp only [← prefixWalk_eq_some_iff, Option.eq_none_iff_forall_ne_some, ne_eq]

/-- **What the two prefix walks answer** together is what the prefixes say. -/
theorem prefixStage_eq_some_iff {v : Verdict} :
    prefixStage rules path method = some v ↔ PrefixesSay rules path method v := by
  rw [PrefixesSay, ← prefixWalk_eq_some_iff, ← prefixWalk_eq_none_iff, ← prefixWalk_eq_some_iff]
  exact Option.or_eq_some_iff

/-! ## The walks with one more rule -/

/-- The first characters with one more rule. -/
theorem firstCharacter_append {table : Table} {s : Bytes} :
    FirstCharacter (rules ++ [r]) table s ↔
      FirstCharacter rules table s ∨
        (s ≠ [] ∧ ∃ key, r.key = some (table, key) ∧ key.head? = s.head?) := by
  simp only [FirstCharacter, filed_append, or_and_right, exists_or]
  exact and_or_left

/-- A rule that is no prefix can only give the walk its first step. -/
theorem prefixesIn_append_iff {table : Table} {s : Bytes} {v : Verdict}
    (hmiss : ∀ key, r.key = some (table, key) → ¬ key <+: s) :
    PrefixesIn (rules ++ [r]) table s v ↔ FirstCharacter (rules ++ [r]) table s ∧
      (∃ key, inForce rules table key = some v ∧ key <+: s) ∧
        (v = .blacklisted → ∀ key, key <+: s → inForce rules table key ≠ some .whitelisted) := by
  have hsame : ∀ key, key <+: s → inForce (rules ++ [r]) table key = inForce rules table key :=
    fun key hpre => inForce_append_of_ne fun hkey => hmiss key hkey hpre
  constructor
  · rintro ⟨hfirst, ⟨key, hv, hpre⟩, hwins⟩
    exact ⟨hfirst, ⟨key, (hsame key hpre).symm.trans hv, hpre⟩, fun hblack key hpre =>
      hsame key hpre ▸ hwins hblack key hpre⟩
  · rintro ⟨hfirst, ⟨key, hv, hpre⟩, hwins⟩
    exact ⟨hfirst, ⟨key, (hsame key hpre).trans hv, hpre⟩, fun hblack key hpre =>
      (hsame key hpre).symm ▸ hwins hblack key hpre⟩

/-- **A first step lets the walk see the empty pattern.** Without the rule there was no answer. -/
theorem prefixWalk_append_of_first {table : Table} {s key : Bytes}
    (hmiss : ∀ key, r.key = some (table, key) → ¬ key <+: s)
    (hfirst : ¬ FirstCharacter rules table s)
    (hkey : r.key = some (table, key)) (hhead : key.head? = s.head?) :
    prefixWalk ((Blacklist.ofRules (rules ++ [r])).tree table).entries s = inForce rules table [] ∧
      prefixWalk ((Blacklist.ofRules rules).tree table).entries s = none := by
  have hs : s ≠ [] := by
    rintro rfl
    obtain rfl : key = [] := by simpa using hhead
    exact hmiss [] hkey List.prefix_rfl
  -- a longer prefix would have had the first character
  have honly : ∀ key v, inForce rules table key = some v → key <+: s → key = [] := by
    intro key v hv hpre
    by_contra hne
    refine hfirst ⟨hs, key, filed_iff.mpr ⟨v, hv⟩, ?_⟩
    obtain ⟨t, rfl⟩ := hpre
    rw [List.head?_append_of_ne_nil _ hne]
  refine ⟨?_, prefixWalk_eq_none_iff.mpr fun v h => hfirst h.first⟩
  ext v
  rw [prefixWalk_eq_some_iff, prefixesIn_append_iff hmiss]
  constructor
  · rintro ⟨-, ⟨key', hv, hpre⟩, -⟩
    rwa [honly key' v hv hpre] at hv
  · intro hv
    refine ⟨firstCharacter_append.mpr (.inr ⟨hs, key, hkey, hhead⟩), ⟨[], hv, List.nil_prefix⟩, ?_⟩
    rintro rfl key' hpre hwhite
    rw [honly key' _ hwhite hpre, hv] at hwhite
    cases hwhite

variable (rules) in
/-- **Else the rule leaves the walk alone.** -/
theorem prefixWalk_append_of_not_first {table : Table} {s : Bytes}
    (hmiss : ∀ key, r.key = some (table, key) → ¬ key <+: s)
    (h : ∀ key, r.key = some (table, key) → key.head? = s.head? → FirstCharacter rules table s) :
    prefixWalk ((Blacklist.ofRules (rules ++ [r])).tree table).entries s =
      prefixWalk ((Blacklist.ofRules rules).tree table).entries s := by
  have hfirst : FirstCharacter (rules ++ [r]) table s ↔ FirstCharacter rules table s := by
    rw [firstCharacter_append]
    constructor
    · rintro (hfirst | ⟨-, key, hkey, hhead⟩)
      · exact hfirst
      · exact h key hkey hhead
    · exact .inl
  ext v
  rw [prefixWalk_eq_some_iff, prefixWalk_eq_some_iff, prefixesIn_append_iff hmiss, hfirst]
  exact ⟨fun ⟨hfirst, hsays, hwins⟩ => ⟨hfirst, hsays, hwins⟩, fun h => ⟨h.first, h.found, h.wins⟩⟩

/-- A rule that does not match is no prefix of the class path or of the name. -/
theorem not_isPrefix_of_not_matches (hpath : ConstantPath path) (hr : ¬ r.Matches path method) :
    (∀ key, r.key = some (.paths, key) → ¬ key <+: path.bytes) ∧
      ∀ key, r.key = some (.methods, key) → ¬ key <+: method.bytes :=
  ⟨fun _ hkey hpre => key_ne_of_keyMatches hr .paths (pathMatches_of_isPrefix hpath hpre) hkey,
    fun _ hkey hpre => key_ne_of_keyMatches hr .methods hpre hkey⟩

/-- A rule that gives the walk of the class path its first step changes the answer where the empty
pattern has a verdict that the prefixes of the name do not say. -/
theorem prefixStage_append_of_first_path {key : Bytes}
    (hpaths : ∀ key, r.key = some (.paths, key) → ¬ key <+: path.bytes)
    (hkey : r.key = some (.paths, key)) (hhead : key.head? = path.bytes.head?)
    (hstart : ¬ FirstCharacter rules .paths path.bytes) :
    prefixStage (rules ++ [r]) path method ≠ prefixStage rules path method ↔
      ∃ v, inForce rules .paths [] = some v ∧ ¬ PrefixesIn rules .methods method.bytes v := by
  obtain ⟨hwith, hwithout⟩ := prefixWalk_append_of_first hpaths hstart hkey hhead
  have hother : prefixWalk (methodEntries (rules ++ [r])) method.bytes
      = prefixWalk (methodEntries rules) method.bytes :=
    prefixWalk_append_of_not_first rules
      (fun key' (hkey' : r.key = some (.methods, key')) => nomatch (key_unique hkey hkey').1)
      fun key' hkey' => nomatch (key_unique hkey hkey').1
  rw [show prefixStage (rules ++ [r]) path method = (inForce rules .paths []).or
      (prefixWalk (methodEntries rules) method.bytes) from congrArg₂ Option.or hwith hother,
    show prefixStage rules path method = Option.or none
      (prefixWalk (methodEntries rules) method.bytes) from congrArg₂ Option.or hwithout rfl,
    Option.none_or]
  constructor
  · intro hne
    cases hv : inForce rules .paths [] with
    | none => simp [hv] at hne
    | some v =>
        refine ⟨v, rfl, fun hsays => hne ?_⟩
        rw [hv, Option.some_or]
        exact (prefixWalk_eq_some_iff.mpr hsays).symm
  · rintro ⟨v, hv, hne⟩
    rw [hv, Option.some_or]
    exact fun heq => hne (prefixWalk_eq_some_iff.mp heq.symm)

/-- A rule that gives the walk of the name its first step changes the answer where the empty pattern
has a verdict and the prefixes of the class path say nothing. -/
theorem prefixStage_append_of_first_method {key : Bytes}
    (hmethods : ∀ key, r.key = some (.methods, key) → ¬ key <+: method.bytes)
    (hkey : r.key = some (.methods, key)) (hhead : key.head? = method.bytes.head?)
    (hstart : ¬ FirstCharacter rules .methods method.bytes) :
    prefixStage (rules ++ [r]) path method ≠ prefixStage rules path method ↔
      Filed rules .methods [] ∧ ∀ v, ¬ PrefixesIn rules .paths path.bytes v := by
  obtain ⟨hwith, hwithout⟩ := prefixWalk_append_of_first hmethods hstart hkey hhead
  have hother : prefixWalk (pathEntries (rules ++ [r])) path.bytes
      = prefixWalk (pathEntries rules) path.bytes :=
    prefixWalk_append_of_not_first rules
      (fun key' (hkey' : r.key = some (.paths, key')) => nomatch (key_unique hkey hkey').1)
      fun key' hkey' => nomatch (key_unique hkey hkey').1
  rw [show prefixStage (rules ++ [r]) path method =
      (prefixWalk (pathEntries rules) path.bytes).or (inForce rules .methods []) from
        congrArg₂ Option.or hother hwith,
    show prefixStage rules path method = (prefixWalk (pathEntries rules) path.bytes).or none from
      congrArg₂ Option.or rfl hwithout]
  constructor
  · intro hne
    cases hwalk : prefixWalk (pathEntries rules) path.bytes with
    | some v => simp [hwalk] at hne
    | none =>
        cases hv : inForce rules .methods [] with
        | none => simp [hwalk, hv] at hne
        | some v => exact ⟨filed_iff.mpr ⟨v, hv⟩, prefixWalk_eq_none_iff.mp hwalk⟩
  · rintro ⟨hfiled, hnone⟩
    obtain ⟨v, hv⟩ := filed_iff.mp hfiled
    have hwalk : prefixWalk (pathEntries rules) path.bytes = none :=
      prefixWalk_eq_none_iff.mpr hnone
    simp [hwalk, hv]

/-- **The answer of the walks changes exactly by a first step.** -/
theorem prefixStage_append_ne_iff (hpath : ConstantPath path) (hr : ¬ r.Matches path method) :
    prefixStage (rules ++ [r]) path method ≠ prefixStage rules path method ↔
      FirstStep rules r path method := by
  obtain ⟨hpaths, hmethods⟩ := not_isPrefix_of_not_matches hpath hr
  by_cases hfirst : ∃ key, r.key = some (.paths, key) ∧ key.head? = path.bytes.head? ∧
      ¬ FirstCharacter rules .paths path.bytes
  · obtain ⟨key, hkey, hhead, hstart⟩ := hfirst
    rw [prefixStage_append_of_first_path hpaths hkey hhead hstart]
    constructor
    · rintro ⟨v, hv, hne⟩
      exact .inl ⟨key, v, hkey, hhead, hstart, hv, hne⟩
    · rintro (⟨-, v, -, -, -, hv, hne⟩ | ⟨key', hkey', -⟩)
      · exact ⟨v, hv, hne⟩
      · cases (key_unique hkey hkey').1
  by_cases hfirst' : ∃ key, r.key = some (.methods, key) ∧ key.head? = method.bytes.head? ∧
      ¬ FirstCharacter rules .methods method.bytes
  · obtain ⟨key, hkey, hhead, hstart⟩ := hfirst'
    rw [prefixStage_append_of_first_method hmethods hkey hhead hstart]
    constructor
    · rintro ⟨hfiled, hnone⟩
      exact .inr ⟨key, hkey, hhead, hstart, hfiled, hnone⟩
    · rintro (⟨key', -, hkey', -⟩ | ⟨-, -, -, -, hfiled, hnone⟩)
      · cases (key_unique hkey hkey').1
      · exact ⟨hfiled, hnone⟩
  -- Neither walk takes a first step: both are as before.
  have hpathsSame := prefixWalk_append_of_not_first rules hpaths fun key hkey hhead => by
    by_contra hstart
    exact hfirst ⟨key, hkey, hhead, hstart⟩
  have hmethodsSame := prefixWalk_append_of_not_first rules hmethods fun key hkey hhead => by
    by_contra hstart
    exact hfirst' ⟨key, hkey, hhead, hstart⟩
  apply iff_of_false (not_not.mpr (congrArg₂ Option.or hpathsSame hmethodsSame))
  rintro (⟨key, v, hkey, hhead, hstart, -⟩ | ⟨key, hkey, hhead, hstart, -⟩)
  · exact hfirst ⟨key, hkey, hhead, hstart⟩
  · exact hfirst' ⟨key, hkey, hhead, hstart⟩

/-! ## The answer from the rules -/

/-- With a namespace the classifier answers its verdict, unless the walk is cut short. -/
theorem classify_of_namespace (hpath : ConstantPath path) (hexact : ¬ HasExactRule rules path method)
    {q : Bytes} (hq : NearestNamespace rules path method q) {v : Verdict}
    (hv : inForce rules .paths q = some v) :
    classify rules path method garbage = if CutShort rules path then none else some v := by
  have hdecides := classify_decides garbage hpath.ne_nil hexact
  generalize classify rules path method garbage = answer at hdecides
  cases hdecides with
  | ofNamespace hq' hv' =>
      obtain rfl := hq.1.unique hq'.1
      rw [Option.some.inj (hv'.symm.trans hv)]
  | ofTail hno => exact absurd hq (hno q)
  | ofPrefixes hno => exact absurd hq (hno q)

/-- There is a first tail if there is one at all. -/
theorem exists_firstTail (h : ∃ key, Tail rules path method key) :
    ∃ key, FirstTail rules path method key := by
  obtain ⟨key, hkey⟩ := h
  cases hfound : (above path.bytes (pathEntries rules)).find?
      (fun e => PathHit (fullyQualified path method) e.1) with
  | none => exact absurd hkey (not_tail_of_find? hfound key)
  | some e => exact ⟨e.1, (firstTail_of_find? hfound).1⟩

/-- The path loop ends in one of its ways, whatever the rules and the garbage. -/
theorem exists_loopEnds (rules : List Rule) (path method : CString) (garbage : UInt8) :
    ∃ stop, LoopEnds rules path method garbage stop := by
  by_cases hend : LoopRuns rules path garbage ∧ ∃ key, Tail rules path method key
  · obtain ⟨key, hfirst⟩ := exists_firstTail hend.2
    exact ⟨some key, .stops hend.1 hfirst⟩
  · exact ⟨none, .passes hend⟩

/-- The loop ends in one way. -/
theorem LoopEnds.unique {stop stop' : Option Bytes} (h : LoopEnds rules path method garbage stop)
    (h' : LoopEnds rules path method garbage stop') : stop = stop' := by
  cases h with
  | stops hruns hfirst =>
      cases h' with
      | stops _ hfirst' => rw [hfirst.unique hfirst']
      | passes hend => exact absurd ⟨hruns, _, hfirst.1⟩ hend
  | passes hend =>
      cases h' with
      | stops hruns hfirst => exact absurd ⟨hruns, _, hfirst.1⟩ hend
      | passes => rfl

/-- A pattern that the loop stops at has a verdict. -/
theorem LoopEnds.inForce {key : Bytes} (h : LoopEnds rules path method garbage (some key)) :
    ∃ v, inForce rules .paths key = some v := by
  cases h with
  | stops _ hfirst => exact filed_iff.mp hfirst.1.1

/-- Without a namespace the classifier answers the verdict of the pattern that the loop stops at. -/
theorem classify_of_stops (hpath : ConstantPath path) (hexact : ¬ HasExactRule rules path method)
    (hno : ∀ q, ¬ NearestNamespace rules path method q) {key : Bytes}
    (h : LoopEnds rules path method garbage (some key)) :
    classify rules path method garbage = inForce rules .paths key := by
  have hdecides := classify_decides garbage hpath.ne_nil hexact
  generalize classify rules path method garbage = answer at hdecides
  cases hdecides with
  | ofNamespace hq => exact absurd hq (hno _)
  | ofTail _ hruns hfirst hv =>
      obtain rfl := Option.some.inj (h.unique (.stops hruns hfirst))
      exact hv.symm
  | ofPrefixes _ hend => cases h.unique (.passes hend)

/-- If the loop stops nowhere, it answers what the walks answer. -/
theorem classify_of_passes (hpath : ConstantPath path) (hexact : ¬ HasExactRule rules path method)
    (hno : ∀ q, ¬ NearestNamespace rules path method q)
    (h : LoopEnds rules path method garbage none) :
    classify rules path method garbage = prefixStage rules path method := by
  have hdecides := classify_decides garbage hpath.ne_nil hexact
  generalize classify rules path method garbage = answer at hdecides
  cases hdecides with
  | ofNamespace hq => exact absurd hq (hno _)
  | ofTail _ hruns hfirst => cases h.unique (.stops hruns hfirst)
  | ofPrefixes => rfl

/-! ## With a namespace before the class path -/

/-- A class path has the first character of its namespace. -/
theorem NearestNamespace.firstCharacter {q : Bytes} (hpath : ConstantPath path)
    (h : NearestNamespace rules path method q) : FirstCharacter rules .paths path.bytes := by
  have hhead := h.2.headD_eq hpath.ne_nil
  obtain ⟨c, rest, hcons⟩ := List.exists_cons_of_ne_nil hpath.ne_nil
  refine ⟨hpath.ne_nil, q, h.1.filed, ?_⟩
  rw [hhead, hcons]
  rfl

/-- The prefixes of a class path in a namespace say its verdict, unless it is blacklisted and one of
them is whitelisted. -/
theorem NearestNamespace.prefixesSay_iff {q : Bytes} {v : Verdict} (hpath : ConstantPath path)
    (h : NearestNamespace rules path method q) (hv : inForce rules .paths q = some v) :
    PrefixesSay rules path method v ↔
      ¬ (v = .blacklisted ∧ ∃ key, key <+: path.bytes ∧ inForce rules .paths key = some .whitelisted) := by
  -- the prefixes of the path say something, whatever it is
  have hpaths : ∃ v', PrefixesIn rules .paths path.bytes v' := by
    by_cases hwhite : ∃ key, key <+: path.bytes ∧ inForce rules .paths key = some .whitelisted
    · obtain ⟨key, hpre, hkey⟩ := hwhite
      exact ⟨.whitelisted, h.firstCharacter hpath, ⟨key, hkey, hpre⟩, fun h => by cases h⟩
    · exact ⟨v, h.firstCharacter hpath, ⟨q, hv, h.isPrefix⟩, fun _ key hpre hkey =>
        hwhite ⟨key, hpre, hkey⟩⟩
  rw [PrefixesSay, or_iff_left fun hnone => hpaths.elim hnone.1]
  constructor
  · rintro hsay ⟨hblack, key, hpre, hwhite⟩
    exact hsay.wins hblack key hpre hwhite
  · intro hwins
    exact ⟨h.firstCharacter hpath, ⟨q, hv, h.isPrefix⟩, fun hblack key hpre hwhite =>
      hwins ⟨hblack, key, hpre, hwhite⟩⟩

/-- A rule between the namespace and the class path interferes by its place only. -/
theorem interferes_iff_of_between {q pattern : Bytes} {v : Verdict}
    (hq : NearestNamespace rules path method q) (hv : inForce rules .paths q = some v)
    (hkey : r.key = some (.paths, pattern)) (hbetween : q < pattern ∧ pattern < path.bytes) :
    Interferes rules r path method garbage garbage' ↔
      CutShort rules path ∨ Disagrees rules path method v := by
  constructor
  · intro h
    cases h with
    | startMoved _ hq' hv' _ hverdict =>
        obtain rfl := hq.1.unique hq'.1
        obtain rfl := Option.some.inj (hv.symm.trans hv')
        exact hverdict
    | cutChanged hkey' hq' hapart =>
        obtain rfl := hq.1.unique hq'.1
        obtain ⟨-, rfl⟩ := key_unique hkey hkey'
        exact absurd hbetween hapart
    -- the other ways need that there is no namespace
    | misread _ hno => exact absurd hq (hno q)
    | loopOpened hno => exact absurd hq (hno q)
    | loopStalled hno => exact absurd hq (hno q)
    | firstStep hno => exact absurd hq (hno q)
  · exact .startMoved hkey hq hv hbetween

/-- A rule that does not come between the nearest namespace and the class path interferes by the
walk only. -/
theorem interferes_iff_of_apart {q : Bytes} (hq : NearestNamespace rules path method q)
    (hapart : ∀ pattern, r.key = some (.paths, pattern) → ¬ (q < pattern ∧ pattern < path.bytes)) :
    Interferes rules r path method garbage garbage' ↔
      ¬ (CutShort rules path ↔ CutShort (rules ++ [r]) path) := by
  constructor
  · intro h
    cases h with
    | startMoved hkey hq' _ hbetween =>
        obtain rfl := hq.1.unique hq'.1
        exact absurd hbetween (hapart _ hkey)
    | cutChanged _ _ _ hcut => exact hcut
    | misread _ hno => exact absurd hq (hno q)
    | loopOpened hno => exact absurd hq (hno q)
    | loopStalled hno => exact absurd hq (hno q)
    | firstStep hno => exact absurd hq (hno q)
  · intro hcut
    obtain ⟨pattern, hkey⟩ := exists_key_of_cutShort hcut
    exact .cutChanged hkey hq (hapart pattern hkey) hcut

/-- **Behind a namespace that the loop no longer starts from**, the answer is that of the patterns
behind: there is one, and it is the namespace's verdict unless they disagree. -/
theorem classify_append_of_between (hpath : ConstantPath path) (hr : ¬ r.Matches path method)
    (hexact : ¬ HasExactRule rules path method) {q pattern : Bytes} {v : Verdict}
    (hq : NearestNamespace rules path method q) (hv : inForce rules .paths q = some v)
    (hkey : r.key = some (.paths, pattern)) (hbetween : q < pattern ∧ pattern < path.bytes) :
    classify (rules ++ [r]) path method garbage' ≠ none ∧
      (classify (rules ++ [r]) path method garbage' = some v ↔ ¬ Disagrees rules path method v) := by
  have hexact' := not_hasExactRule_append hpath hr hexact
  have hnearest := nearest_append_of_between hq.1 hkey hbetween
  -- The rule is nearest now, and it does not match, so there is no namespace any more.
  have hno : ∀ q', ¬ NearestNamespace (rules ++ [r]) path method q' := by
    intro q' hq'
    obtain rfl := hnearest.unique hq'.1
    exact key_ne_of_keyMatches hr .paths (hq'.pathMatches hpath) hkey
  have hruns : LoopRuns (rules ++ [r]) path garbage' :=
    loopRuns_append_of_between hq.1 hkey hbetween
  -- Its key is before the path, so no key behind it is new.
  have hne : ∀ {key}, path.bytes < key → r.key ≠ some (.paths, key) := by
    intro key hlater hkey'
    obtain ⟨-, rfl⟩ := key_unique hkey hkey'
    exact lt_asymm hbetween.2 hlater
  have htail : ∀ key, Tail (rules ++ [r]) path method key ↔ Tail rules path method key :=
    fun key => ⟨fun ht => ⟨(filed_append.mp ht.1).resolve_right (hne ht.2.1), ht.2⟩, tail_append⟩
  by_cases hfirst : ∃ key, FirstTail rules path method key
  · obtain ⟨key, hfirst⟩ := hfirst
    have hfirst' : FirstTail (rules ++ [r]) path method key :=
      ⟨(htail key).mpr hfirst.1, fun key' ht => hfirst.2 key' ((htail key').mp ht)⟩
    have hdisagrees : Disagrees rules path method v ↔ inForce rules .paths key ≠ some v := by
      constructor
      · rintro (⟨key', hfirst'', hdiffers⟩ | ⟨hnone, -⟩)
        · rwa [hfirst''.unique hfirst] at hdiffers
        · exact absurd hfirst.1 (hnone key)
      · exact fun hdiffers => .inl ⟨key, hfirst, hdiffers⟩
    obtain ⟨v', hv'⟩ := filed_iff.mp hfirst.1.1
    rw [classify_of_stops hpath hexact' hno (.stops hruns hfirst'),
      inForce_append_of_ne (hne hfirst.1.2.1), hdisagrees, not_not]
    exact ⟨by simp [hv'], Iff.rfl⟩
  · have hnone : ∀ key, ¬ Tail rules path method key := fun key ht =>
      hfirst (exists_firstTail ⟨key, ht⟩)
    have hstage : prefixStage (rules ++ [r]) path method = prefixStage rules path method := by
      by_contra hchanged
      rcases (prefixStage_append_ne_iff hpath hr).mp hchanged with
        ⟨-, -, -, -, hstart, -⟩ | ⟨_, hkey', -⟩
      · exact hstart (hq.firstCharacter hpath)
      · simp [hkey] at hkey'
    have hdisagrees : Disagrees rules path method v ↔
        ¬ PrefixesSay rules path method v := by
      rw [hq.prefixesSay_iff hpath hv, not_not, Disagrees, and_iff_right hnone]
      exact or_iff_right fun ⟨key, hfirst', _⟩ => hnone key hfirst'.1
    rw [classify_of_passes hpath hexact' hno (.passes fun h => h.2.elim fun key ht =>
        hnone key ((htail key).mp ht)), hstage, hdisagrees, not_not, prefixStage_eq_some_iff]
    refine ⟨fun hempty => ?_, Iff.rfl⟩
    have hstage := prefixStage_spec rules method hpath
    rw [hempty] at hstage
    exact hstage (.inl ⟨startsAlong_iff.mpr (hq.firstCharacter hpath), q, hq.1.filed, hq.isPrefix⟩)

/-- **With a namespace**, a rule that does not match changes the answer exactly if it interferes. -/
theorem classify_append_eq_iff_of_namespace (hpath : ConstantPath path) (hr : ¬ r.Matches path method)
    (hexact : ¬ HasExactRule rules path method) {q : Bytes}
    (hq : NearestNamespace rules path method q) :
    classify (rules ++ [r]) path method garbage' = classify rules path method garbage ↔
      ¬ Interferes rules r path method garbage garbage' := by
  obtain ⟨v, hv⟩ := filed_iff.mp hq.1.filed
  rw [classify_of_namespace hpath hexact hq hv]
  by_cases hplace : ∃ pattern, r.key = some (.paths, pattern) ∧ q < pattern ∧ pattern < path.bytes
  · -- The loop starts from the rule.
    obtain ⟨pattern, hkey, hbetween⟩ := hplace
    obtain ⟨hsome, hanswer⟩ := @classify_append_of_between rules r path method garbage' hpath hr hexact
      q pattern v hq hv hkey hbetween
    rw [interferes_iff_of_between hq hv hkey hbetween]
    by_cases hcut : CutShort rules path
    · rw [if_pos hcut]
      exact iff_of_false hsome (not_not.mpr (.inl hcut))
    · rw [if_neg hcut, hanswer, or_iff_right hcut]
  · -- The namespace is still nearest, and only its walk can be cut short.
    have hapart : ∀ pattern, r.key = some (.paths, pattern) →
        ¬ (q < pattern ∧ pattern < path.bytes) := fun pattern hkey hbetween =>
      hplace ⟨pattern, hkey, hbetween⟩
    have hv' : inForce (rules ++ [r]) .paths q = some v := by
      rw [inForce_append_of_ne (key_ne_of_keyMatches hr .paths (hq.pathMatches hpath)), hv]
    rw [classify_of_namespace hpath (not_hasExactRule_append hpath hr hexact) (hq.append hapart) hv',
      interferes_iff_of_apart hq hapart, not_not]
    by_cases hcut : CutShort rules path <;> by_cases hcut' : CutShort (rules ++ [r]) path <;>
      simp [hcut, hcut']

/-! ## Without one -/

/-- How the rule interferes where the loop ends at `stop` without it and at `stop'` with it. -/
def EndsApart (rules : List Rule) (r : Rule) (path method : CString) :
    Option Bytes → Option Bytes → Prop
  | some key, some key' => r.key = some (.paths, key') ∧ inForce rules .paths key ≠ some r.verdict
  | none, some key' =>
      ∃ v, inForce (rules ++ [r]) .paths key' = some v ∧ ¬ PrefixesSay rules path method v
  | some key, none =>
      ∃ v, inForce rules .paths key = some v ∧ ¬ PrefixesSay (rules ++ [r]) path method v
  | none, none => FirstStep rules r path method

/-- Without a namespace a rule interferes by where the loop ends, and by the walks if it ends
nowhere. -/
theorem interferes_iff_of_loopEnds (hno : ∀ q, ¬ NearestNamespace rules path method q)
    {stop stop' : Option Bytes} (hloop : LoopEnds rules path method garbage stop)
    (hloop' : LoopEnds (rules ++ [r]) path method garbage' stop') :
    Interferes rules r path method garbage garbage' ↔ EndsApart rules r path method stop stop' := by
  constructor
  · intro h
    cases h with
    | startMoved _ hq => exact absurd hq (hno _)
    | cutChanged _ hq => exact absurd hq (hno _)
    | misread hkey _ h h' hverdict =>
        obtain rfl := h.unique hloop
        obtain rfl := h'.unique hloop'
        exact ⟨hkey, hverdict⟩
    | loopOpened _ h h' hv hverdict =>
        obtain rfl := h.unique hloop
        obtain rfl := h'.unique hloop'
        exact ⟨_, hv, hverdict⟩
    | loopStalled _ h h' hv hverdict =>
        obtain rfl := h.unique hloop
        obtain rfl := h'.unique hloop'
        exact ⟨_, hv, hverdict⟩
    | firstStep _ h h' hstep =>
        obtain rfl := h.unique hloop
        obtain rfl := h'.unique hloop'
        exact hstep
  · intro h
    match stop, stop', h with
    | some key, some key', ⟨hkey, hverdict⟩ => exact .misread hkey hno hloop hloop' hverdict
    | none, some key', ⟨_, hv, hverdict⟩ => exact .loopOpened hno hloop hloop' hv hverdict
    | some key, none, ⟨_, hv, hverdict⟩ => exact .loopStalled hno hloop hloop' hv hverdict
    | none, none, hstep => exact .firstStep hno hloop hloop' hstep

/-- **Without a namespace**, a rule that does not match changes the answer exactly if it interferes.
-/
theorem classify_append_eq_iff_of_not_namespace (hpath : ConstantPath path)
    (hr : ¬ r.Matches path method) (hexact : ¬ HasExactRule rules path method)
    (hno : ∀ q, ¬ NearestNamespace rules path method q) :
    classify (rules ++ [r]) path method garbage' = classify rules path method garbage ↔
      ¬ Interferes rules r path method garbage garbage' := by
  have hexact' := not_hasExactRule_append hpath hr hexact
  have hno' : ∀ q, ¬ NearestNamespace (rules ++ [r]) path method q :=
    fun q hq => hno q (hq.of_append hpath hr)
  obtain ⟨stop, hloop⟩ := exists_loopEnds rules path method garbage
  obtain ⟨stop', hloop'⟩ := exists_loopEnds (rules ++ [r]) path method garbage'
  rw [interferes_iff_of_loopEnds hno hloop hloop']
  cases stop with
  | some key =>
      obtain ⟨v, hv⟩ := hloop.inForce
      rw [classify_of_stops hpath hexact hno hloop]
      cases stop' with
      | some key' =>
          rw [classify_of_stops hpath hexact' hno' hloop']
          by_cases hkey : r.key = some (.paths, key')
          · rw [inForce_append, if_pos hkey, EndsApart, and_iff_right hkey, not_not, eq_comm]
          · -- The loop stops at another pattern, which is first without the rule too.
            cases hloop with
            | stops _ hfirst =>
                cases hloop' with
                | stops _ hfirst' =>
                    obtain rfl := (hfirst'.of_append hkey).unique hfirst
                    exact iff_of_true (inForce_append_of_ne hkey) fun h => hkey h.1
      | none =>
          rw [classify_of_passes hpath hexact' hno' hloop', EndsApart, hv, prefixStage_eq_some_iff]
          simp
  | none =>
      rw [classify_of_passes hpath hexact hno hloop]
      cases stop' with
      | some key' =>
          obtain ⟨v, hv⟩ := hloop'.inForce
          rw [classify_of_stops hpath hexact' hno' hloop', EndsApart, hv, eq_comm,
            prefixStage_eq_some_iff]
          simp
      | none =>
          rw [classify_of_passes hpath hexact' hno' hloop', EndsApart,
            ← prefixStage_append_ne_iff hpath hr, not_not]

end

/-! ## The law -/

/-- **When a rule that does not match changes nothing.** There is an exact rule, or the rule does
not interfere; and in no other case. The two calls find their own bytes in their key buffers. -/
theorem classify_append_eq_iff {path method : CString} {r : Rule} (hpath : ConstantPath path)
    (hr : ¬ r.Matches path method) (rules : List Rule) (garbage garbage' : UInt8) :
    classify (rules ++ [r]) path method garbage' = classify rules path method garbage ↔
      HasExactRule rules path method ∨ ¬ Interferes rules r path method garbage garbage' := by
  by_cases hexact : HasExactRule rules path method
  · exact iff_of_true (classify_append_of_exact hpath hr hexact garbage garbage').2 (.inl hexact)
  rw [or_iff_right hexact]
  by_cases hq : ∃ q, NearestNamespace rules path method q
  · obtain ⟨q, hq⟩ := hq
    exact classify_append_eq_iff_of_namespace hpath hr hexact hq
  · exact classify_append_eq_iff_of_not_namespace hpath hr hexact (not_exists.mp hq)

/-- The unrelated path rule `Abc` changes nothing next to `Foo#` and `Bar`. -/
theorem not_interferes_unrelated :
    ¬ Interferes
      [⟨some ⟨[0x46, 0x6f, 0x6f, 0x23], by decide⟩, none, .blacklisted⟩,
        ⟨some ⟨[0x42, 0x61, 0x72], by decide⟩, none, .blacklisted⟩]
      ⟨some ⟨[0x41, 0x62, 0x63], by decide⟩, none, .whitelisted⟩
      ⟨[0x46, 0x6f, 0x6f], by decide⟩ ⟨[0x62, 0x61, 0x72], by decide⟩ 0 0x47 :=
  ((classify_append_eq_iff ⟨by decide, by decide⟩ (by decide) _ _ _).mp
    (by decide +kernel)).resolve_left (by decide)

/-- Next to `Foo#` alone the same rule blacklists `Foo#bar`, which it does not match: with it the
loop for the class path has a pattern to start from. -/
theorem classify_append_ne :
    ConstantPath ⟨[0x46, 0x6f, 0x6f], by decide⟩ ∧
      ¬ (Rule.mk (some ⟨[0x41, 0x62, 0x63], by decide⟩) none .whitelisted).Matches
        ⟨[0x46, 0x6f, 0x6f], by decide⟩ ⟨[0x62, 0x61, 0x72], by decide⟩ ∧
      classify [⟨some ⟨[0x46, 0x6f, 0x6f, 0x23], by decide⟩, none, .blacklisted⟩]
        ⟨[0x46, 0x6f, 0x6f], by decide⟩ ⟨[0x62, 0x61, 0x72], by decide⟩ 0 = none ∧
      classify
        ([⟨some ⟨[0x46, 0x6f, 0x6f, 0x23], by decide⟩, none, .blacklisted⟩] ++
          [⟨some ⟨[0x41, 0x62, 0x63], by decide⟩, none, .whitelisted⟩])
        ⟨[0x46, 0x6f, 0x6f], by decide⟩ ⟨[0x62, 0x61, 0x72], by decide⟩ 0 = some .blacklisted :=
  ⟨⟨by decide, by decide⟩, by decide, by decide +kernel, by decide +kernel⟩

end RaygunApm
