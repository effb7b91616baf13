import RaygunApm.Rules.Stages

/-! # Classification by prefixes

`rb_rg_blacklisted_string_p` on a tree that calls of `raxInsert` have built, in terms of the calls:
a key stands for the value it was last inserted with (`lastInserted`), and the answer depends on the
keys that are prefixes of the string. -/

namespace RaygunApm

open OrderedKeys

/-! ## Trees and their insertions -/

section

variable {V : Type}

/-- The tree after calls of `raxInsert`, one after the other. -/
def raxOf (inserts : List (Bytes × V)) : Rax V :=
  inserts.foldl (fun tree e => raxInsert tree e.1 e.2) raxNew

/-- The value a key was last inserted with. -/
def lastInserted (inserts : List (Bytes × V)) (key : Bytes) : Option V :=
  inserts.foldl (fun value e => if e.1 = key then some e.2 else value) none

/-- One insertion more is an insertion into the tree of those before. -/
theorem raxOf_append (inserts : List (Bytes × V)) (e : Bytes × V) :
    raxOf (inserts ++ [e]) = raxInsert (raxOf inserts) e.1 e.2 := by
  rw [raxOf, List.foldl_append]
  rfl

/-- With one insertion more the last value changes for its key only. -/
theorem lastInserted_append (inserts : List (Bytes × V)) (e : Bytes × V) (key : Bytes) :
    lastInserted (inserts ++ [e]) key =
      if e.1 = key then some e.2 else lastInserted inserts key := by
  rw [lastInserted, List.foldl_append]
  rfl

/-- **The tree holds the last value of each key.** -/
theorem mem_entries_raxOf (inserts : List (Bytes × V)) (key : Bytes) (v : V) :
    (key, v) ∈ (raxOf inserts).entries ↔ lastInserted inserts key = some v := by
  induction inserts using List.reverseRecOn with
  | nil => simp [raxOf, raxNew, Rax.entries, lastInserted]
  | append_singleton inserts e ih =>
      obtain ⟨inserted, value⟩ := e
      rw [raxOf_append, lastInserted_append, isInsert_entries_raxInsert _ _ _ _, ih]
      by_cases hkey : inserted = key
      · subst hkey
        simp [eq_comm]
      · simp [hkey, Ne.symm hkey]

/-- A key with a value was inserted. -/
theorem exists_insert_of_lastInserted {inserts : List (Bytes × V)} {key : Bytes} {v : V}
    (h : lastInserted inserts key = some v) : ∃ e ∈ inserts, e.1 = key := by
  induction inserts using List.reverseRecOn with
  | nil => cases h
  | append_singleton inserts e ih =>
      rw [lastInserted_append] at h
      split_ifs at h with hkey
      · exact ⟨e, by simp, hkey⟩
      · obtain ⟨e', he', hfiled⟩ := ih h
        exact ⟨e', by simp [he'], hfiled⟩

end

/-! ## The answer of the walk -/

/-- A key of length > 0 that is a prefix starts along the string. -/
theorem startsAlong_of_isPrefix {entries : List (Bytes × Verdict)} {s : Bytes} {e : Bytes × Verdict}
    (he : e ∈ entries) (hpre : e.1 <+: s) (hne : e.1 ≠ []) : StartsAlong entries s := by
  obtain ⟨c, key, hkey⟩ := List.exists_cons_of_ne_nil hne
  obtain ⟨rest, rfl⟩ := hpre
  refine ⟨by simp [hne], e, he, ?_⟩
  rw [hkey]
  rfl

/-- **Without an empty key the walk answers with the verdict of the prefixes**: its early exit, when
no first step exists, is taken only where no key is a prefix. -/
theorem prefixWalk_eq_prefixVerdict {entries : List (Bytes × Verdict)}
    (hne : ∀ e ∈ entries, e.1 ≠ []) (s : Bytes) :
    prefixWalk entries s = prefixVerdict entries s := by
  rw [prefixWalk]
  split_ifs with hstart
  · rfl
  · have hnone : ∀ v, ¬ ∃ e ∈ entries, e.1 <+: s ∧ e.2 = v := by
      rintro v ⟨e, he, hpre, -⟩
      exact hstart (startsAlong_of_isPrefix he hpre (hne e he))
    rw [prefixVerdict, if_neg (hnone _), if_neg (hnone _)]

/-- The walk answers "whitelisted" exactly if a whitelisted key is a prefix. -/
theorem prefixVerdict_eq_whitelisted_iff (entries : List (Bytes × Verdict)) (s : Bytes) :
    prefixVerdict entries s = some .whitelisted ↔
      ∃ e ∈ entries, e.1 <+: s ∧ e.2 = .whitelisted := by
  rw [prefixVerdict]
  split_ifs with hwhite hblack <;> simp [hwhite]

/-- The walk has no answer exactly if no key is a prefix. -/
theorem prefixVerdict_eq_none_iff (entries : List (Bytes × Verdict)) (s : Bytes) :
    prefixVerdict entries s = none ↔ ∀ e ∈ entries, ¬ e.1 <+: s := by
  constructor
  · intro h e he hpre
    rw [prefixVerdict] at h
    split_ifs at h with hwhite hblack
    obtain ⟨k, v⟩ := e
    cases v with
    | whitelisted => exact hwhite ⟨_, he, hpre, rfl⟩
    | blacklisted => exact hblack ⟨_, he, hpre, rfl⟩
  · intro h
    have hnone : ∀ v, ¬ ∃ e ∈ entries, e.1 <+: s ∧ e.2 = v := by
      rintro v ⟨e, he, hpre, -⟩
      exact h e he hpre
    rw [prefixVerdict, if_neg (hnone _), if_neg (hnone _)]

/-- **Prefix classification.** In a tree built from keys of length > 0 the answer is `WHITELISTED`
when some key that is a prefix of the string is whitelisted, `BLACKLISTED` when some key is a prefix
and none of these is whitelisted, and `UNLISTED` when no key is a prefix. -/
theorem rbRgBlacklistedStringP_raxOf (inserts : List (Bytes × Verdict))
    (hne : ∀ e ∈ inserts, e.1 ≠ []) (s : Bytes) :
    (rbRgBlacklistedStringP (raxOf inserts) s = some .whitelisted ↔
      ∃ key, key <+: s ∧ lastInserted inserts key = some .whitelisted) ∧
    (rbRgBlacklistedStringP (raxOf inserts) s = some .blacklisted ↔
      (∃ key, key <+: s ∧ (lastInserted inserts key).isSome) ∧
        ∀ key, key <+: s → lastInserted inserts key ≠ some .whitelisted) ∧
    (rbRgBlacklistedStringP (raxOf inserts) s = none ↔
      ¬ ∃ key, key <+: s ∧ (lastInserted inserts key).isSome) := by
  have hkeys : ∀ e ∈ (raxOf inserts).entries, e.1 ≠ [] := by
    rintro ⟨key, v⟩ hmem
    obtain ⟨e, he, rfl⟩ := exists_insert_of_lastInserted ((mem_entries_raxOf ..).mp hmem)
    exact hne e he
  have hanswer : rbRgBlacklistedStringP (raxOf inserts) s =
      prefixVerdict (raxOf inserts).entries s := by
    rw [rbRgBlacklistedStringP_eq, prefixWalk_eq_prefixVerdict hkeys]
  have hwhite : rbRgBlacklistedStringP (raxOf inserts) s = some .whitelisted ↔
      ∃ key, key <+: s ∧ lastInserted inserts key = some .whitelisted := by
    rw [hanswer, prefixVerdict_eq_whitelisted_iff]
    constructor
    · rintro ⟨⟨key, v⟩, he, hpre, rfl⟩
      exact ⟨key, hpre, (mem_entries_raxOf ..).mp he⟩
    · rintro ⟨key, hpre, hlast⟩
      exact ⟨(key, .whitelisted), (mem_entries_raxOf ..).mpr hlast, hpre, rfl⟩
  have hnone : rbRgBlacklistedStringP (raxOf inserts) s = none ↔
      ¬ ∃ key, key <+: s ∧ (lastInserted inserts key).isSome := by
    rw [hanswer, prefixVerdict_eq_none_iff]
    constructor
    · rintro h ⟨key, hpre, hsome⟩
      obtain ⟨v, hv⟩ := Option.isSome_iff_exists.mp hsome
      exact h (key, v) ((mem_entries_raxOf ..).mpr hv) hpre
    · rintro h ⟨key, v⟩ he hpre
      exact h ⟨key, hpre, by rw [(mem_entries_raxOf ..).mp he]; rfl⟩
  refine ⟨hwhite, ?_, hnone⟩
  -- What is neither of the other two answers is `BLACKLISTED`.
  rw [← not_iff_not.mpr hnone |>.trans not_not]
  have hnot : (∀ key, key <+: s → lastInserted inserts key ≠ some .whitelisted) ↔
      rbRgBlacklistedStringP (raxOf inserts) s ≠ some .whitelisted := by
    rw [Ne, hwhite]
    push Not
    rfl
  rw [hnot]
  cases rbRgBlacklistedStringP (raxOf inserts) s with
  | none => simp
  | some v => cases v <;> simp

/-- Two keys on the way to the string, the longer one whitelisted. -/
theorem rbRgBlacklistedStringP_raxOf_nested :
    rbRgBlacklistedStringP
      (raxOf [([0x61, 0x62], .blacklisted), ([0x61, 0x62, 0x63, 0x64], .whitelisted)])
      [0x61, 0x62, 0x63, 0x64, 0x65] = some .whitelisted :=
  (rbRgBlacklistedStringP_raxOf
    [([0x61, 0x62], .blacklisted), ([0x61, 0x62, 0x63, 0x64], .whitelisted)] (by simp)
    [0x61, 0x62, 0x63, 0x64, 0x65]).1.mpr ⟨[0x61, 0x62, 0x63, 0x64], by decide, by decide⟩

end RaygunApm
