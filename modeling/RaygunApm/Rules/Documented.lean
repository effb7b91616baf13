import RaygunApm.Rules.Decision

/-! # The classifier against the documented patterns

`AnswersAsDocumented` is what the pattern documentation promises of an answer: unlisted when no rule
matches, and the verdict of the matching rules when they agree. The classifier keeps the promise
exactly under `ReadsMatches` (`answersAsDocumented_iff`). It fails in three ways: the verdict of a
namespace next to the class path is dropped when the walk is cut short; a pattern that ends in `#`
inside the method's name is read as a match; and a `P#` rule is never looked at when no pattern
comes before the class path. -/

namespace RaygunApm

open OrderedKeys

/-! ## The documented answer -/

/-- What the classifier relies on of a constant class path. -/
structure ConstantPath (path : CString) : Prop where
  ne_nil : path.bytes ≠ []
  no_hash : hash ∉ path.bytes

/-- **The documented answer.** -/
def AnswersAsDocumented (rules : List Rule) (path method : CString) (answer : Option Verdict) :
    Prop :=
  ((∀ r ∈ rules, ¬ r.Matches path method) → answer = none) ∧
    ∀ v, (∃ r ∈ rules, r.Matches path method) →
      (∀ r ∈ rules, r.Matches path method → r.verdict = v) → answer = some v

/-- The matching rules agree. -/
def Consistent (rules : List Rule) (path method : CString) : Prop :=
  ∀ r ∈ rules, ∀ r' ∈ rules, r.Matches path method → r'.Matches path method →
    r.verdict = r'.verdict

instance (rules : List Rule) (path method : CString) :
    Decidable (Consistent rules path method) := by
  unfold Consistent; infer_instance

/-- Some pattern that is a prefix is reached by its walk: the walk takes a first step. -/
def PrefixReached (rules : List Rule) (path method : CString) : Prop :=
  (StartsAlong (pathEntries rules) path.bytes ∧ ∃ q, Filed rules .paths q ∧ q <+: path.bytes) ∨
    (StartsAlong (methodEntries rules) method.bytes ∧
      ∃ n, Filed rules .methods n ∧ n <+: method.bytes)

/-- When the rules decide as documented. -/
structure ReadsMatches (rules : List Rule) (path method : CString) (garbage : UInt8) : Prop where
  /-- The walk for the class path does not end inside the node of its nearest namespace. -/
  notCut : ∀ q, NearestNamespace rules path method q → ¬ CutShort rules path
  /-- The first pattern found behind the class path is `P#` or a namespace, or happens to have the
  verdict of a matching rule. -/
  notMisread : (∀ q, ¬ NearestNamespace rules path method q) → LoopRuns rules path garbage →
    ∀ key, FirstTail rules path method key →
      key = path.bytes ++ [hash] ∨ [colon, colon] <:+ key ∨
        ∃ r ∈ rules, r.Matches path method ∧ inForce rules .paths key = some r.verdict
  /-- If the loop finds nothing, some matching rule is a prefix that its walk reaches. -/
  notMissed : (∀ q, ¬ NearestNamespace rules path method q) →
    ¬ (LoopRuns rules path garbage ∧ ∃ key, Tail rules path method key) →
    (∃ r ∈ rules, r.Matches path method) → PrefixReached rules path method

/-! ## Filed patterns and matching rules -/

/-- What a pattern filed in a table matches. -/
def KeyMatches (table : Table) (key : Bytes) (path method : CString) : Prop :=
  match table with
  | .fq => key = fullyQualified path method
  | .paths => PathMatches key path method
  | .methods => key <+: method.bytes

/-- Whether a rule matches can be read off the key it is filed under. -/
theorem Rule.matches_iff_of_key {r : Rule} {table : Table} {key : Bytes}
    (h : r.key = some (table, key)) (path method : CString) :
    r.Matches path method ↔ KeyMatches table key path method := by
  obtain ⟨p, m, verdict⟩ := r
  cases p <;> cases m <;> simp only [Rule.key, Option.some.injEq, Prod.mk.injEq, reduceCtorEq] at h
  all_goals
    obtain ⟨rfl, rfl⟩ := h
    rfl

/-- A matching pattern is filed by a matching rule of its verdict. -/
theorem exists_matching_of_inForce {rules : List Rule} {table : Table} {key : Bytes} {v : Verdict}
    {path method : CString} (h : inForce rules table key = some v)
    (hmatch : KeyMatches table key path method) :
    ∃ r ∈ rules, r.Matches path method ∧ r.verdict = v := by
  obtain ⟨r, hr, hkey, hv⟩ := exists_rule_of_inForce h
  exact ⟨r, hr, (Rule.matches_iff_of_key hkey path method).mpr hmatch, hv⟩

/-- A pattern that is a prefix of a constant path matches. -/
theorem pathMatches_of_isPrefix {path method : CString} (hpath : ConstantPath path) {q : Bytes}
    (h : q <+: path.bytes) : PathMatches q path method := by
  have hhash : ¬ [hash] <:+ q := by
    intro hsuffix
    exact hpath.no_hash (h.subset (hsuffix.subset (by simp)))
  rw [PathMatches, if_neg hhash]
  split_ifs
  · exact h.trans (List.prefix_append _ _)
  · exact h

/-- A namespace the fully qualified method lies in matches. -/
theorem pathMatches_of_namespace {path method : CString} {q : Bytes}
    (hcolon : [colon, colon] <:+ q) (h : q <+: fullyQualified path method) :
    PathMatches q path method := by
  have hhash : ¬ [hash] <:+ q := by
    intro hsuffix
    have hlast : [hash] <:+ [colon, colon] :=
      List.suffix_of_suffix_length_le hsuffix hcolon (by simp)
    revert hlast
    decide
  rw [PathMatches, if_neg hhash, if_pos hcolon]
  exact h

/-- The nearest namespace is a prefix of the class path. -/
theorem NearestNamespace.isPrefix {rules : List Rule} {path method : CString} {q : Bytes}
    (h : NearestNamespace rules path method q) : q <+: path.bytes := by
  obtain ⟨hnearest, -, -, hpre⟩ := h
  rcases List.prefix_or_prefix_of_prefix hpre (List.prefix_append path.bytes _) with h | h
  · exact h
  · exact absurd (le_of_isPrefix h) (not_le.mpr hnearest.lt)

/-- The nearest namespace matches the path. -/
theorem NearestNamespace.pathMatches {rules : List Rule} {path method : CString} {q : Bytes}
    (hpath : ConstantPath path) (h : NearestNamespace rules path method q) :
    PathMatches q path method :=
  pathMatches_of_isPrefix hpath h.isPrefix

/-- The pattern `P#` matches the path `P`. -/
theorem pathMatches_own {path method : CString} :
    PathMatches (path.bytes ++ [hash]) path method := by
  rw [PathMatches, if_pos (List.suffix_append _ _)]

/-! ## The answers of the stages -/

/-- An exact rule answers with the verdict of a matching rule. -/
theorem exists_matching_of_exact {rules : List Rule} {path method : CString}
    (hpath : ConstantPath path) (garbage : UInt8) (h : HasExactRule rules path method) :
    ∃ r ∈ rules, r.Matches path method ∧ classify rules path method garbage = some r.verdict := by
  have hfound : ∃ table key v, inForce rules table key = some v ∧
      KeyMatches table key path method ∧ classify rules path method garbage = some v := by
    rw [classify_eq_of_exact garbage h]
    rw [HasExactRule, filed_iff, filed_iff, filed_iff] at h
    cases hvfq : inForce rules .fq (fullyQualified path method) with
    | some v => exact ⟨_, _, v, hvfq, rfl, rfl⟩
    | none =>
        cases hvpaths : inForce rules .paths path.bytes with
        | some v => exact ⟨_, _, v, hvpaths, pathMatches_of_isPrefix hpath List.prefix_rfl, rfl⟩
        | none =>
            cases hvmethods : inForce rules .methods method.bytes with
            | some v => exact ⟨_, _, v, hvmethods, List.prefix_rfl, rfl⟩
            | none => simp [hvfq, hvpaths, hvmethods] at h
  obtain ⟨table, key, v, hforce, hmatch, hclassify⟩ := hfound
  obtain ⟨r, hr, hmatches, rfl⟩ := exists_matching_of_inForce hforce hmatch
  exact ⟨r, hr, hmatches, hclassify⟩

/-- The prefix verdict is that of an entry whose key is a prefix, and there is one if there is such
an entry. -/
theorem prefixVerdict_spec (entries : List (Bytes × Verdict)) (s : Bytes) :
    match prefixVerdict entries s with
    | none => ∀ e ∈ entries, ¬ e.1 <+: s
    | some v => ∃ e ∈ entries, e.1 <+: s ∧ e.2 = v := by
  rw [prefixVerdict]
  split_ifs with hwhite hblack
  · exact hwhite
  · exact hblack
  · intro e he hpre
    obtain ⟨k, v⟩ := e
    cases v with
    | whitelisted => exact hwhite ⟨_, he, hpre, rfl⟩
    | blacklisted => exact hblack ⟨_, he, hpre, rfl⟩

/-- A walk for prefixes answers when it takes a first step and there is a prefix. -/
theorem prefixWalk_spec (entries : List (Bytes × Verdict)) (s : Bytes) :
    match prefixWalk entries s with
    | none => ¬ (StartsAlong entries s ∧ ∃ e ∈ entries, e.1 <+: s)
    | some v => StartsAlong entries s ∧ ∃ e ∈ entries, e.1 <+: s ∧ e.2 = v := by
  have hspec := prefixVerdict_spec entries s
  rw [prefixWalk]
  split_ifs with hstart
  · cases hverdict : prefixVerdict entries s with
    | none =>
        rw [hverdict] at hspec
        rintro ⟨-, e, he, hpre⟩
        exact hspec e he hpre
    | some v =>
        rw [hverdict] at hspec
        exact ⟨hstart, hspec⟩
  · exact fun h => hstart h.1

/-- The walks for prefixes answer when they reach a pattern, with the verdict of a matching rule. -/
theorem prefixStage_spec (rules : List Rule) {path : CString} (method : CString)
    (hpath : ConstantPath path) :
    match prefixStage rules path method with
    | none => ¬ PrefixReached rules path method
    | some v => PrefixReached rules path method ∧
        ∃ r ∈ rules, r.Matches path method ∧ r.verdict = v := by
  have hpaths := prefixWalk_spec (pathEntries rules) path.bytes
  have hmethods := prefixWalk_spec (methodEntries rules) method.bytes
  have hfiledPaths : (∃ q, Filed rules .paths q ∧ q <+: path.bytes) ↔
      ∃ e ∈ pathEntries rules, e.1 <+: path.bytes := by
    simp only [filed_iff, Prod.exists, mem_pathEntries]
    tauto
  have hfiledMethods : (∃ n, Filed rules .methods n ∧ n <+: method.bytes) ↔
      ∃ e ∈ methodEntries rules, e.1 <+: method.bytes := by
    simp only [filed_iff, Prod.exists, mem_methodEntries]
    tauto
  rw [prefixStage, PrefixReached, hfiledPaths, hfiledMethods]
  split at hpaths
  · rename_i hnone
    rw [hnone, Option.none_or]
    split at hmethods
    · exact fun h => h.elim hpaths hmethods
    · obtain ⟨hstart, e, he, hpre, rfl⟩ := hmethods
      exact ⟨.inr ⟨hstart, e, he, hpre⟩,
        exists_matching_of_inForce (mem_methodEntries.mp he) hpre⟩
  · rename_i v hsome
    rw [hsome, Option.some_or]
    obtain ⟨hstart, e, he, hpre, rfl⟩ := hpaths
    exact ⟨.inl ⟨hstart, e, he, hpre⟩,
      exists_matching_of_inForce (mem_pathEntries.mp he) (pathMatches_of_isPrefix hpath hpre)⟩

/-! ## The condition -/

/-- Agreeing rules answer as documented when the answer is that of a matching rule, or there is none
and no rule matches. -/
theorem answersAsDocumented_iff_of_consistent {rules : List Rule} {path method : CString}
    (h : Consistent rules path method) (answer : Option Verdict) :
    AnswersAsDocumented rules path method answer ↔
      match answer with
      | none => ∀ r ∈ rules, ¬ r.Matches path method
      | some v => ∃ r ∈ rules, r.Matches path method ∧ r.verdict = v := by
  constructor
  · rintro ⟨hnone, hsome⟩
    by_cases hmatch : ∃ r ∈ rules, r.Matches path method
    · obtain ⟨r, hr, hmatches⟩ := hmatch
      have hanswer := hsome r.verdict ⟨r, hr, hmatches⟩ fun r' hr' hmatches' =>
        h r' hr' r hr hmatches' hmatches
      rw [hanswer]
      exact ⟨r, hr, hmatches, rfl⟩
    · have hno : ∀ r ∈ rules, ¬ r.Matches path method := fun r hr hmatches =>
        hmatch ⟨r, hr, hmatches⟩
      rw [hnone hno]
      exact hno
  · intro hanswer
    cases answer with
    | none => exact ⟨fun _ => rfl, fun v ⟨r, hr, hmatches⟩ _ => absurd hmatches (hanswer r hr)⟩
    | some v =>
        obtain ⟨r, hr, hmatches, rfl⟩ := hanswer
        exact ⟨fun hno => absurd hmatches (hno r hr), fun v _ hall => by rw [hall r hr hmatches]⟩

/-- **When the classifier implements the documented patterns.** The matching rules disagree, or
there is an exact rule, or the rules decide as `ReadsMatches` says; and in no other case. -/
theorem answersAsDocumented_iff {path : CString} (hpath : ConstantPath path) (rules : List Rule)
    (method : CString) (garbage : UInt8) :
    AnswersAsDocumented rules path method (classify rules path method garbage) ↔
      (Consistent rules path method → ¬ HasExactRule rules path method →
        ReadsMatches rules path method garbage) := by
  by_cases hconsistent : Consistent rules path method
  swap
  · -- Rules that disagree promise nothing.
    simp only [Consistent, not_forall] at hconsistent
    obtain ⟨r, hr, r', hr', hmatches, hmatches', hne⟩ := hconsistent
    refine iff_of_true ⟨fun hno => absurd hmatches (hno r hr), fun v _ hall => ?_⟩ fun h => ?_
    · exact absurd ((hall r hr hmatches).trans (hall r' hr' hmatches').symm) hne
    · exact absurd (h r hr r' hr' hmatches hmatches') hne
  rw [answersAsDocumented_iff_of_consistent hconsistent]
  by_cases hexact : HasExactRule rules path method
  · -- An exact rule matches, and is what the classifier answers.
    obtain ⟨r, hr, hmatches, hclassify⟩ := exists_matching_of_exact hpath garbage hexact
    rw [hclassify]
    exact iff_of_true ⟨r, hr, hmatches, rfl⟩ fun _ h => absurd hexact h
  simp only [hconsistent, hexact, not_false_eq_true, forall_true_left]
  have hdecides := classify_decides garbage hpath.ne_nil hexact
  generalize classify rules path method garbage = answer at hdecides
  cases hdecides with
  | @ofNamespace q v hq hv =>
      -- The namespace matches: only a walk cut short loses its verdict.
      obtain ⟨r, hr, hmatches, hverdict⟩ :=
        exists_matching_of_inForce hv (hq.pathMatches hpath)
      split_ifs with hcut
      · exact iff_of_false (fun hno => hno r hr hmatches) fun h => h.notCut q hq hcut
      · exact iff_of_true ⟨r, hr, hmatches, hverdict⟩
          ⟨fun _ _ => hcut, fun hno => absurd hq (hno q), fun hno => absurd hq (hno q)⟩
  | @ofTail key v hq hruns hkey hv =>
      -- The loop stops at a key behind the path, which need not match it.
      constructor
      · rintro ⟨r, hr, hmatches, hverdict⟩
        refine ⟨fun q h => absurd h (hq q), fun _ _ key' hkey' => ?_, fun _ hend => ?_⟩
        · obtain rfl : key = key' := le_antisymm (hkey.2 _ hkey'.1) (hkey'.2 _ hkey.1)
          exact .inr (.inr ⟨r, hr, hmatches, by rw [hv, hverdict]⟩)
        · exact absurd ⟨hruns, key, hkey.1⟩ hend
      · intro h
        rcases h.notMisread hq hruns key hkey with hown | hcolon | ⟨r, hr, hmatches, hverdict⟩
        · exact exists_matching_of_inForce hv (hown ▸ pathMatches_own)
        · exact exists_matching_of_inForce hv
            (pathMatches_of_namespace hcolon hkey.1.2.2.2.2)
        · exact ⟨r, hr, hmatches, Option.some.inj (hverdict.symm.trans hv)⟩
  | ofPrefixes hq hend =>
      -- The walks answer with a matching rule or not at all.
      have hstage := prefixStage_spec rules method hpath
      cases hpre : prefixStage rules path method with
      | some v =>
          rw [hpre] at hstage
          exact iff_of_true hstage.2 ⟨fun q h => absurd h (hq q),
            fun _ hruns key hkey => absurd ⟨hruns, key, hkey.1⟩ hend, fun _ _ _ => hstage.1⟩
      | none =>
          rw [hpre] at hstage
          constructor
          · intro hno
            exact ⟨fun q h => absurd h (hq q),
              fun _ hruns key hkey => absurd ⟨hruns, key, hkey.1⟩ hend,
              fun _ _ ⟨r, hr, hmatches⟩ => absurd hmatches (hno r hr)⟩
          · intro h r hr hmatches
            exact hstage (h.notMissed hq hend ⟨r, hr, hmatches⟩)

/-- With another path rule before it, `Foo#` is read for the methods of `Foo`. -/
theorem readsMatches_own :
    ReadsMatches
      [⟨some ⟨[0x41, 0x62, 0x63], by decide⟩, none, .whitelisted⟩,
        ⟨some ⟨[0x46, 0x6f, 0x6f, 0x23], by decide⟩, none, .blacklisted⟩]
      ⟨[0x46, 0x6f, 0x6f], by decide⟩ ⟨[0x62, 0x61, 0x72], by decide⟩ 0 :=
  (answersAsDocumented_iff ⟨by decide, by decide⟩ _ _ _).mp
    ⟨by decide +kernel, fun v => by cases v <;> decide +kernel⟩ (by decide) (by decide)

/-- Alone, `Foo#` is not read for the methods of `Foo`. -/
theorem not_answersAsDocumented_own :
    ConstantPath ⟨[0x46, 0x6f, 0x6f], by decide⟩ ∧
      ¬ AnswersAsDocumented [⟨some ⟨[0x46, 0x6f, 0x6f, 0x23], by decide⟩, none, .blacklisted⟩]
        ⟨[0x46, 0x6f, 0x6f], by decide⟩ ⟨[0x62, 0x61, 0x72], by decide⟩
        (classify [⟨some ⟨[0x46, 0x6f, 0x6f, 0x23], by decide⟩, none, .blacklisted⟩]
          ⟨[0x46, 0x6f, 0x6f], by decide⟩ ⟨[0x62, 0x61, 0x72], by decide⟩ 0) := by
  refine ⟨⟨by decide, by decide⟩, fun h => ?_⟩
  have hanswer := h.2 .blacklisted (by decide) (by decide)
  revert hanswer
  decide +kernel

end RaygunApm
