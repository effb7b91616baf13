import RaygunApm.Filters.Translator

/-! # The filter parser

`parser.rb`: every line of a list is stripped, translated and added as a rule. A line that raises
while it is added is skipped, but one that raises while it is stripped ends the loop. The second
half says what the lines for a fully qualified method are: a sign, a constant path and the name of a
method. -/

namespace RaygunApm

/-! ## The parser -/

/-- What stands in front of a rule. -/
inductive Sign where
  | plus
  | minus
  | library
  | blank

/-- The characters of a sign. -/
def Sign.text : Sign → RString
  | .plus => ['+']
  | .minus => ['-']
  | .library => ['L', '-']
  | .blank => []

/-- Only a plus sign puts a method on the whitelist. -/
def Sign.verdict : Sign → Verdict
  | .plus => .whitelisted
  | _ => .blacklisted

/-- A name that begins like a constant, of letters, digits and underscores. -/
structure ConstantName (ruby : RubyLibrary) (name : RString) : Prop where
  capital : ∃ c rest, name = c :: rest ∧ ruby.upper c
  word : ∀ c ∈ name, c.toNat < 128 → c.isAlphanum ∨ c = '_'

/-- A constant path: names with double colons between them. -/
inductive ConstantPathName (ruby : RubyLibrary) : RString → Prop where
  | name {name : RString} : ConstantName ruby name → ConstantPathName ruby name
  | scope {name path : RString} : ConstantName ruby name → ConstantPathName ruby path →
      ConstantPathName ruby (name ++ ':' :: ':' :: path)

end RaygunApm
