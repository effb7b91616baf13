import RaygunApm.Rax.Insert

/-! # Classification rules

A rule of the black- and whitelist has a class path, a method name, or both, and a verdict. The
strings come through `StringValueCStr`, which refuses a NUL byte. `Rule.Matches` is the documented
meaning of the patterns, `rbRgTracerBlacklistAdd0` the code that files a rule in the tree for its
kind. `inForce` is the last verdict filed under a key, and the trees hold exactly these:
`mem_entries_iff_inForce`. -/

namespace RaygunApm

open OrderedKeys

/-! ## Strings and verdicts -/

/-- A string without NUL bytes, as `StringValueCStr` lets through. -/
structure CString where
  bytes : Bytes
  nonzero : 0 ∉ bytes
deriving DecidableEq

/-- `#`. -/
def hash : UInt8 := 0x23

/-- `:`. -/
def colon : UInt8 := 0x3a

/-- The data of a rule: `RG_BLACKLIST_WHITELISTED` and `RG_BLACKLIST_BLACKLISTED`. The classifier
answers with an `Option Verdict`, where `none` is `RG_BLACKLIST_UNLISTED`, and so is a `NULL`
pointer taken for a verdict. -/
inductive Verdict where
  | whitelisted
  | blacklisted
deriving DecidableEq, Repr

/-- The arguments of `add_blacklist` and `add_whitelist`: `nil` is `none`. -/
structure Rule where
  path : Option CString
  method : Option CString
  verdict : Verdict
deriving DecidableEq

/-- `P#m`. -/
def fullyQualified (path method : CString) : Bytes := path.bytes ++ hash :: method.bytes

/-! ## The documented patterns -/

/-- What a path rule without a method matches: `Q#` the methods of exactly the path `Q`, `Q::` what
lies in the namespace, any other pattern the paths it is a prefix of. -/
def PathMatches (pattern : Bytes) (path method : CString) : Prop :=
  if [hash] <:+ pattern then pattern = path.bytes ++ [hash]
  else if [colon, colon] <:+ pattern then pattern <+: fullyQualified path method
  else pattern <+: path.bytes

/-- **The documented meaning of a rule.** -/
def Rule.Matches (r : Rule) (path method : CString) : Prop :=
  match r.path, r.method with
  | some q, some n => fullyQualified q n = fullyQualified path method
  | some q, none => PathMatches q.bytes path method
  | none, some n => n.bytes <+: method.bytes
  | none, none => False

instance (pattern : Bytes) (path method : CString) :
    Decidable (PathMatches pattern path method) := by
  unfold PathMatches; infer_instance

instance (r : Rule) (path method : CString) : Decidable (r.Matches path method) := by
  unfold Rule.Matches; split <;> infer_instance

/-! ## The trees -/

/-- The trees of `rb_rg_tracer_t` that the classifier reads. -/
structure Blacklist where
  blacklistFq : Rax Verdict
  blacklistPaths : Rax Verdict
  blacklistMethods : Rax Verdict

/-- The trees of a new tracer. -/
def Blacklist.new : Blacklist := ⟨raxNew, raxNew, raxNew⟩

/-- `rb_rg_tracer_blacklist_add0`. Without a path and a method it returns `Qfalse` and files
nothing. -/
def rbRgTracerBlacklistAdd0 (lists : Blacklist) (path method : Option CString) (data : Verdict) :
    Blacklist :=
  match path, method with
  | none, none => lists
  | some path, some method =>
      { lists with blacklistFq := raxInsert lists.blacklistFq (fullyQualified path method) data }
  | some path, none =>
      { lists with blacklistPaths := raxInsert lists.blacklistPaths path.bytes data }
  | none, some method =>
      { lists with blacklistMethods := raxInsert lists.blacklistMethods method.bytes data }

/-- `rb_rg_tracer_add_blacklist`. -/
def rbRgTracerAddBlacklist (lists : Blacklist) (path method : Option CString) : Blacklist :=
  rbRgTracerBlacklistAdd0 lists path method .blacklisted

/-- `rb_rg_tracer_add_whitelist`. -/
def rbRgTracerAddWhitelist (lists : Blacklist) (path method : Option CString) : Blacklist :=
  rbRgTracerBlacklistAdd0 lists path method .whitelisted

/-- Add a rule with the call for its verdict. -/
def Blacklist.add (lists : Blacklist) (r : Rule) : Blacklist :=
  match r.verdict with
  | .whitelisted => rbRgTracerAddWhitelist lists r.path r.method
  | .blacklisted => rbRgTracerAddBlacklist lists r.path r.method

/-- The trees after adding rules one after the other. -/
def Blacklist.ofRules (rules : List Rule) : Blacklist := rules.foldl Blacklist.add .new

/-- The lists of one rule more are those before with the rule added. -/
theorem Blacklist.ofRules_append (rules : List Rule) (r : Rule) :
    Blacklist.ofRules (rules ++ [r]) = (Blacklist.ofRules rules).add r := by
  rw [ofRules, List.foldl_append]
  rfl

/-! ## What the trees hold -/

/-- The three trees. -/
inductive Table where
  | fq
  | paths
  | methods
deriving DecidableEq

/-- The tree of a table. -/
def Blacklist.tree (lists : Blacklist) : Table → Rax Verdict
  | .fq => lists.blacklistFq
  | .paths => lists.blacklistPaths
  | .methods => lists.blacklistMethods

/-- The table and the key a rule is filed under. -/
def Rule.key (r : Rule) : Option (Table × Bytes) :=
  match r.path, r.method with
  | some q, some n => some (.fq, fullyQualified q n)
  | some q, none => some (.paths, q.bytes)
  | none, some n => some (.methods, n.bytes)
  | none, none => none

/-- The verdict filed last under a key. -/
def inForce (rules : List Rule) (table : Table) (key : Bytes) : Option Verdict :=
  rules.foldl (fun verdict r => if r.key = some (table, key) then some r.verdict else verdict) none

/-- Adding a rule sets its key in its tree and leaves the other trees alone. -/
theorem tree_add (lists : Blacklist) (r : Rule) (table : Table) :
    match r.key with
    | some (table', key) => (lists.add r).tree table =
        if table = table' then raxInsert (lists.tree table) key r.verdict else lists.tree table
    | none => (lists.add r).tree table = lists.tree table := by
  obtain ⟨path, method, verdict⟩ := r
  cases verdict <;> cases path <;> cases method <;> cases table <;> rfl

/-- One rule more is in force for its own key and changes nothing for the others. -/
theorem inForce_append (rules : List Rule) (r : Rule) (table : Table) (key : Bytes) :
    inForce (rules ++ [r]) table key =
      if r.key = some (table, key) then some r.verdict else inForce rules table key := by
  rw [inForce, List.foldl_append]
  rfl

/-- **The trees hold the verdicts in force.** -/
theorem mem_entries_iff_inForce (rules : List Rule) (table : Table) (key : Bytes) (v : Verdict) :
    (key, v) ∈ ((Blacklist.ofRules rules).tree table).entries ↔
      inForce rules table key = some v := by
  induction rules using List.reverseRecOn with
  | nil => cases table <;> simp [Blacklist.ofRules, Blacklist.new, Blacklist.tree, raxNew,
      Rax.entries, inForce]
  | append_singleton rules r ih =>
      have hadd := tree_add (Blacklist.ofRules rules) r table
      rw [Blacklist.ofRules_append, inForce_append]
      cases hkey : r.key with
      | none =>
          rw [hkey] at hadd
          rw [hadd, ih]
          simp
      | some filed =>
          obtain ⟨table', key'⟩ := filed
          rw [hkey] at hadd
          rw [hadd]
          by_cases htable : table = table'
          · subst htable
            rw [if_pos rfl, isInsert_entries_raxInsert _ _ _ _, ih]
            by_cases hsame : key' = key
            · subst hsame
              simp [eq_comm]
            · simp [hsame, Ne.symm hsame]
          · rw [if_neg htable, ih, if_neg (by simp [Ne.symm htable])]

/-- A verdict in force was filed by some rule. -/
theorem exists_rule_of_inForce {rules : List Rule} {table : Table} {key : Bytes} {v : Verdict}
    (h : inForce rules table key = some v) :
    ∃ r ∈ rules, r.key = some (table, key) ∧ r.verdict = v := by
  induction rules using List.reverseRecOn with
  | nil => cases h
  | append_singleton rules r ih =>
      rw [inForce_append] at h
      split_ifs at h with hkey
      · exact ⟨r, by simp, hkey, Option.some.inj h⟩
      · obtain ⟨r', hr', hfiled⟩ := ih h
        exact ⟨r', by simp [hr'], hfiled⟩

/-- Under the key of a rule some verdict is in force. -/
theorem inForce_isSome_iff {rules : List Rule} {table : Table} {key : Bytes} :
    (inForce rules table key).isSome ↔ ∃ r ∈ rules, r.key = some (table, key) := by
  induction rules using List.reverseRecOn with
  | nil => simp [inForce]
  | append_singleton rules r ih =>
      rw [inForce_append]
      split_ifs with hkey
      · exact iff_of_true rfl ⟨r, by simp, hkey⟩
      · rw [ih]
        simp [hkey]

end RaygunApm
