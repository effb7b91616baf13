import RaygunApm.Rax.Seek
import RaygunApm.Rules.Rule

/-! # The rule classifier

`rb_rg_blacklisted_string_p` and `rb_rg_blacklisted_method_p`: three exact lookups, an iteration
over the paths from the greatest key before the class path on, and the walks for the prefixes of the
path and of the name. `garbage` is the first byte of the iterator's key buffer, which the source
does not initialise.

The second half of the file says what each stage comes to in terms of the entries of the trees. -/

namespace RaygunApm

open OrderedKeys

/-! ## The code -/

/-- The loop of `rb_rg_blacklisted_string_p` over the nodes of the walk: the data of the last key
wins, unless a whitelisted one stops the loop. -/
def scanVisited : Option Verdict → List (RaxNode Verdict) → Option Verdict
  | verdict, [] => verdict
  | verdict, h :: visited =>
      match h.value with
      | some .whitelisted => some .whitelisted
      | some .blacklisted => scanVisited (some .blacklisted) visited
      | none => scanVisited verdict visited

/-- `rb_rg_blacklisted_string_p`. The walk on an empty tree processes nothing. -/
def rbRgBlacklistedStringP (tree : Rax Verdict) (needle : Bytes) : Option Verdict :=
  match tree.head with
  | none => none
  | some head =>
      let w := raxLowWalk head needle
      if w.matched = 0 then none else scanVisited none w.visited

/-- `strncmp` on strings that end before their first NUL byte. -/
def strncmp : Bytes → Bytes → Nat → Int
  | _, _, 0 => 0
  | a, b, n + 1 =>
      let x := a.headD 0
      let y := b.headD 0
      if x ≠ y then x.toNat - y.toNat
      else if x = 0 then 0
      else strncmp a.tail b.tail n

/-- The loop over the paths, at most `fuel` calls of `raxNext`. The result is `none` when the loop
ends without a match, and the data of the iterator after one. -/
def pathLoop (fullyQualified path : Bytes) :
    Nat → Option (RaxIterator Verdict) → Option (Option Verdict)
  | 0, _ => none
  | fuel + 1, it =>
      match raxNext it with
      | none => none
      | some piter =>
          if 0 < strncmp (piter.key0 :: piter.key.tail) path 1 then none
          else if 2 < piter.key.length ∧
              strncmp (piter.key.drop (piter.key.length - 2)) [colon, colon] 2 = 0 ∧
              strncmp fullyQualified piter.key piter.key.length = 0 then
            some piter.data
          else if 2 < piter.key.length ∧
              strncmp (piter.key.drop (piter.key.length - 1)) [hash] 1 = 0 ∧
              strncmp fullyQualified piter.key piter.key.length = 0 then
            some piter.data
          else pathLoop fullyQualified path fuel (some piter)

/-- `rb_rg_blacklisted_method_p`. -/
def rbRgBlacklistedMethodP (lists : Blacklist) (fullyQualified path method : Bytes)
    (garbage : UInt8) : Option Verdict :=
  match raxFind lists.blacklistFq fullyQualified with
  | some data => some data
  | none =>
    match raxFind lists.blacklistPaths path with
    | some data => some data
    | none =>
      match raxFind lists.blacklistMethods method with
      | some data => some data
      | none =>
        match pathLoop fullyQualified path (lists.blacklistPaths.entries.length + 1)
            (raxSeekLe lists.blacklistPaths path garbage) with
        | some data => data
        | none =>
          match rbRgBlacklistedStringP lists.blacklistPaths path with
          | some verdict => some verdict
          | none => rbRgBlacklistedStringP lists.blacklistMethods method

/-- The classification of the method `m` of the class `P` by a list of rules. -/
def classify (rules : List Rule) (path method : CString) (garbage : UInt8) : Option Verdict :=
  rbRgBlacklistedMethodP (.ofRules rules) (fullyQualified path method) path.bytes method.bytes
    garbage

end RaygunApm
