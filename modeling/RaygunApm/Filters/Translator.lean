import Mathlib.Data.List.DropRight
import RaygunApm.Rules.Rule

/-! # Filter lines and their translation

`translator.rb`: a line of a blacklist file is translated to a class path and a method name, by the
Ruby syntax or, where that does not fit, by the .NET syntax. A line is a list of characters. What
Ruby's library decides by tables and by regular expressions of the user is left to `RubyLibrary`;
the regular expressions of the source are spelled out. A result `none` is an exception. -/

namespace RaygunApm

/-- A Ruby string. -/
abbrev RString : Type := List Char

/-- What the translator uses of Ruby's library. -/
structure RubyLibrary where
  /-- The lower case of a character, which may be more than one. -/
  lower : Char → List Char
  /-- A letter in upper or title case, with which a constant begins. -/
  upper : Char → Prop
  /-- The lower case of a character is at least one. -/
  lower_ne_nil : ∀ c, lower c ≠ []
  /-- Of the ASCII characters, these are the capital letters. -/
  upper_ascii : ∀ c : Char, c.toNat < 128 → (upper c ↔ 'A' ≤ c ∧ c ≤ 'Z')
  /-- `gsub!` with a pattern that is compiled, and an empty replacement. -/
  gsub : (pattern string : RString) → Option RString

/-- `String#downcase`. -/
def RubyLibrary.downcase (ruby : RubyLibrary) (s : RString) : RString := s.flatMap ruby.lower

/-- What `strip!` removes. -/
def isSpace (c : Char) : Bool := c.toNat ∈ [0, 9, 10, 11, 12, 13, 32]

/-- A pattern behind some line break. -/
def matchesLater (pattern : RString → Bool) : RString → Bool
  | [] => false
  | c :: s => (c = '\n' && pattern s) || matchesLater pattern s

/-- A pattern that starts with `^`: at the beginning of a line. -/
def matchesLine (pattern : RString → Bool) (s : RString) : Bool :=
  pattern s || matchesLater pattern s

/-- `String#split` leaves out the empty fields at the end. -/
def dropEmpty (fields : List RString) : List RString := fields.rdropWhile List.isEmpty

/-- The fields between the double colons. -/
def fieldsOfNamespace : RString → List RString
  | [] => [[]]
  | [c] => [[c]]
  | c :: d :: s =>
      if c = ':' ∧ d = ':' then [] :: fieldsOfNamespace s
      else (fieldsOfNamespace (d :: s)).modifyHead (c :: ·)

/-- `split(/::/)`. -/
def splitNamespace (s : RString) : List RString := dropEmpty (fieldsOfNamespace s)

/-- `split(/#|\./)`. -/
def splitMethod (s : RString) : List RString := dropEmpty (s.splitOnP fun c => c = '#' || c = '.')

/-! ## The Ruby syntax -/

/-- `/^#.*/`. -/
def rubyComment (s : RString) : Bool := matchesLine (fun t => t.head? = some '#') s

/-- `/^#<.*>?/`. -/
def rubyAnonymous (s : RString) : Bool := matchesLine (fun t => ['#', '<'].isPrefixOf t) s

/-- `/^[A-Z]/`. -/
def letterCase (s : RString) : Bool := matchesLine (fun t => t.head?.any fun c => 'A' ≤ c ∧ c ≤ 'Z') s

/-- `/^[a-z]/`. -/
def lowerCase (s : RString) : Bool := matchesLine (fun t => t.head?.any fun c => 'a' ≤ c ∧ c ≤ 'z') s

/-- `/::/`. -/
def hasNamespace (s : RString) : Bool := decide ([':', ':'] <:+: s)

/-- A class path and a method name, each of which may be nil. -/
structure Translation where
  path : Option RString
  method : Option RString
deriving DecidableEq

/-- The method at the end of a path: its last field, if that begins in lower case. -/
def nestedMethod (path : RString) : Option RString :=
  (splitNamespace path).getLast?.filter lowerCase

/-- The end of `RubyTranslator#translate`: a path that ends in a method. -/
def splitNested (ruby : RubyLibrary) (path method : Option RString) : Option Translation :=
  match path with
  | none => some ⟨none, method⟩
  | some path =>
      match nestedMethod path with
      | some nested =>
          (ruby.gsub ([':', ':'] ++ nested ++ ['$']) path).map fun path => ⟨some path, some nested⟩
      | none => some ⟨some path, method⟩

/-- `RubyTranslator#translate`: nil for the .NET syntax and for comments. -/
def rubyTranslate (ruby : RubyLibrary) (filter : RString) : Option (Option Translation) :=
  if !rubyComment filter && !rubyAnonymous filter then
    let fields := splitMethod filter
    let path := if ['#'].isSuffixOf filter then some filter else fields[0]?
    let method := if ['#'].isSuffixOf filter then none else fields[1]?
    if method.any fun method => letterCase method && !"Ruby".toList.isPrefixOf method then some none
    else
      match path with
      | none => none
      | some path =>
          let named := path = ruby.downcase path
          let method := if named then some path else method
          if method.any hasNamespace then some none
          else (splitNested ruby (if named then none else some path) method).map some
  else if rubyAnonymous filter then
    let fields := splitMethod filter
    some (some ⟨some ('#' :: fields[1]?.getD []), fields[2]?⟩)
  else some none

/-! ## The .NET syntax -/

/-- `DotnetTranslator#translate`. -/
def dotnetTranslate (filter : RString) : Option (Option Translation) :=
  if !rubyComment filter then
    let fields := splitNamespace filter
    match fields[0]? with
    | none => none
    | some path =>
        some (some ⟨some (path.flatMap fun c => if c = '.' then [':', ':'] else [c]), fields[1]?⟩)
  else some none

/-- `Translator#translate`. -/
def translate (ruby : RubyLibrary) (filter : RString) : Option (Option Translation) :=
  match rubyTranslate ruby filter with
  | none => none
  | some (some translated) => some (some translated)
  | some none => dotnetTranslate filter

end RaygunApm
