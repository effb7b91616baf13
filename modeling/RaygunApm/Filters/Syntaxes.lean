import RaygunApm.Filters.Paths
import RaygunApm.Library.EndPattern

/-! # Three ways to write a method

`P#m`, `P.m` and `P::m`. The first two are split at the separator. In the third one the translator
finds the method at the end of the path and deletes it there with a regular expression that is made
from its name, where a question mark at its end is no letter: `translate_syntaxes_iff`. -/

namespace RaygunApm

open EndPattern

/-! ## Regular expressions made from names -/

/-- A character that stands for something else in a regular expression. -/
def isMeta (c : Char) : Bool :=
  c ∈ ['\\', '^', '$', '.', '|', '?', '*', '+', '(', ')', '[', ']', '{', '}']

/-- `Regexp.compile` of letters, with or without a question mark behind each, up to a `$`. -/
def compileEnd : RString → Option (List (Item Char))
  | [] => none
  | ['$'] => some []
  | c :: '?' :: pattern =>
      if isMeta c then none else (compileEnd pattern).map (.optional c :: ·)
  | c :: pattern => if isMeta c then none else (compileEnd pattern).map (.letter c :: ·)

/-- The library with `gsub!` spelled out for the expressions that `compileEnd` understands. -/
def RubyLibrary.withRegexp (ruby : RubyLibrary) : RubyLibrary where
  lower := ruby.lower
  upper := ruby.upper
  lower_ne_nil := ruby.lower_ne_nil
  upper_ascii := ruby.upper_ascii
  gsub pattern string :=
    match compileEnd pattern with
    | some items => some (remove '\n' items string)
    | none => ruby.gsub pattern string

/-- A plain letter in front of another pattern is compiled to itself. -/
theorem compileEnd_cons {c : Char} (hc : isMeta c = false) {pattern : RString} (hne : pattern ≠ [])
    (hhead : pattern.head? ≠ some '?') :
    compileEnd (c :: pattern) = (compileEnd pattern).map (.letter c :: ·) := by
  obtain ⟨d, pattern, rfl⟩ := List.exists_cons_of_ne_nil hne
  have hd : d ≠ '?' := fun heq => hhead (congrArg some heq)
  rw [compileEnd]
  · simp [hc]
  · simp
  · rintro _ ⟨⟩
    exact hd rfl

/-- Plain letters in front of another pattern are compiled to themselves. -/
theorem compileEnd_append {w : RString} (hw : ∀ c ∈ w, isMeta c = false) {pattern : RString}
    (hne : pattern ≠ []) (hhead : pattern.head? ≠ some '?') :
    compileEnd (w ++ pattern) = (compileEnd pattern).map (w.map Item.letter ++ ·) := by
  induction w with
  | nil => simp
  | cons c w ih =>
      obtain ⟨hc, hw⟩ := List.forall_mem_cons.mp hw
      have hnext : (w ++ pattern).head? ≠ some '?' := by
        cases w with
        | nil => exact hhead
        | cons d w =>
            intro heq
            have hd := hw d List.mem_cons_self
            rw [Option.some.inj heq] at hd
            exact absurd hd (by decide)
      rw [List.cons_append, compileEnd_cons hc (by simp [hne]) hnext, ih hw, Option.map_map]
      rfl

/-! ## Method names in lower case -/

variable {ruby : RubyLibrary} {path method : RString}

/-- The name of a method that begins with one of `a` to `z`: letters, digits and underscores, and
possibly one of the signs at the end. -/
structure LowercaseName (method : RString) : Prop where
  shape : ∃ c word sign, method = c :: word ++ sign ∧ ('a' ≤ c ∧ c ≤ 'z') ∧
    (∀ d ∈ word, d.toNat < 128 → d.isAlphanum ∨ d = '_') ∧ sign ∈ [[], ['?'], ['!'], ['=']]

/-- A letter, digit or underscore has no other meaning in a regular expression. -/
theorem isMeta_of_word {c : Char} (h : c.toNat < 128 → c.isAlphanum ∨ c = '_') : isMeta c = false := by
  by_contra hmem
  rw [Bool.not_eq_false, isMeta, decide_eq_true_iff] at hmem
  have hmetas : ∀ d ∈ ['\\', '^', '$', '.', '|', '?', '*', '+', '(', ')', '[', ']', '{', '}'],
      d.toNat < 128 ∧ ¬ (d.isAlphanum ∨ d = '_') := by simp
  obtain ⟨hlt, hnot⟩ := hmetas c hmem
  exact hnot (h hlt)

/-- One of `a` to `z` is a letter. -/
theorem word_of_lower {c : Char} (h : 'a' ≤ c ∧ c ≤ 'z') : c.isAlphanum ∨ c = '_' := by
  left
  have hlower : c.isLower = true :=
    Bool.and_eq_true_iff.mpr ⟨decide_eq_true h.1, decide_eq_true h.2⟩
  show (c.isUpper || c.isLower || c.isDigit) = true
  rw [hlower, Bool.or_true, Bool.true_or]

namespace LowercaseName

/-- A lowercase name has no white space, separator or colon. -/
theorem plain (h : LowercaseName method) :
    ∀ d ∈ method, isSpace d = false ∧ d ≠ '#' ∧ d ≠ '.' ∧ d ≠ ':' := by
  obtain ⟨c, word, sign, rfl, hc, hword, hsign⟩ := h.shape
  intro d hd
  rcases List.mem_append.mp hd with hd | hd
  · have hd' : d.toNat < 128 → d.isAlphanum ∨ d = '_' := by
      rcases List.mem_cons.mp hd with rfl | hd
      · exact fun _ => word_of_lower hc
      · exact hword d hd
    obtain ⟨⟨hspace, hhash, hdot, -⟩, hcolon⟩ := pathChar_of_word hd'
    exact ⟨hspace, hhash, hdot, hcolon⟩
  · simp only [List.mem_cons, List.not_mem_nil, or_false] at hsign
    rcases hsign with rfl | rfl | rfl | rfl <;> simp at hd <;> subst hd <;> simp [isSpace]

/-- A method name that starts in lower case is not empty. -/
theorem ne_nil (h : LowercaseName method) : method ≠ [] := by
  obtain ⟨c, word, sign, rfl, -⟩ := h.shape
  simp

/-- The name begins in lower case. -/
theorem head (h : LowercaseName method) : ∃ c rest, method = c :: rest ∧ 'a' ≤ c ∧ c ≤ 'z' := by
  obtain ⟨c, word, sign, rfl, hc, -⟩ := h.shape
  exact ⟨c, word ++ sign, rfl, hc⟩

/-- The name does not begin with a capital letter. -/
theorem not_upper (h : LowercaseName method) : ∀ c ∈ method.head?, ¬ ruby.upper c := by
  obtain ⟨c, rest, rfl, hc⟩ := h.head
  intro d hd hupper
  obtain rfl := Option.some.inj hd
  exact ruby.not_lower_of_upper hupper hc

/-- The name belongs to the Ruby syntax. -/
theorem not_dotnetMethod (h : LowercaseName method) : dotnetMethod method = false := by
  have hletter : letterCase method = false := by
    rw [letterCase, matchesLine_eq _ (not_mem_newline fun c hc => (h.plain c hc).1)]
    obtain ⟨c, rest, rfl, hc, -⟩ := h.head
    have hupper : ¬ c ≤ 'Z' := by
      intro hz
      have hge : 97 ≤ c.toNat := hc
      have hle : c.toNat ≤ 90 := hz
      omega
    simp [hupper]
  have hnamespace : hasNamespace method = false := by
    rw [hasNamespace, decide_eq_false_iff_not]
    intro hwithin
    exact (h.plain ':' (hwithin.subset List.mem_cons_self)).2.2.2 rfl
  rw [dotnetMethod, hletter, hnamespace]
  rfl

/-- **Without a question mark the pattern that is made from the name stands for it.** -/
theorem compileEnd_eq (h : LowercaseName method) (hlast : method.getLast? ≠ some '?') :
    compileEnd ([':', ':'] ++ method ++ ['$']) =
      some (([':', ':'] ++ method).map Item.letter) := by
  have hplain : ∀ d ∈ [':', ':'] ++ method, isMeta d = false := by
    obtain ⟨c, word, sign, rfl, hc, hword, hsign⟩ := h.shape
    intro d hd
    rcases List.mem_append.mp hd with hd | hd
    · simp only [List.mem_cons, List.not_mem_nil, or_false, or_self] at hd
      subst hd
      decide
    · rcases List.mem_append.mp hd with hd | hd
      · rcases List.mem_cons.mp hd with rfl | hd
        · exact isMeta_of_word fun _ => word_of_lower hc
        · exact isMeta_of_word (hword d hd)
      · simp only [List.mem_cons, List.not_mem_nil, or_false] at hsign
        rcases hsign with rfl | rfl | rfl | rfl
        · simp at hd
        · rw [List.getLast?_concat] at hlast
          exact absurd rfl hlast
        · simp only [List.mem_singleton] at hd
          subst hd
          decide
        · simp only [List.mem_singleton] at hd
          subst hd
          decide
  rw [compileEnd_append hplain (List.cons_ne_nil _ _) (by simp), compileEnd, Option.map_some,
    List.append_nil]

/-- **With a question mark it stands for the name without it**, and for that without its last
letter. -/
theorem compileEnd_question (h : LowercaseName method) (hlast : method.getLast? = some '?') :
    ∃ front d, method = front ++ [d, '?'] ∧ d ≠ '?' ∧ '?' ∉ [':', ':'] ++ front ∧
      compileEnd ([':', ':'] ++ method ++ ['$']) =
        some (([':', ':'] ++ front).map Item.letter ++ [.optional d]) := by
  obtain ⟨c, word, sign, rfl, hc, hword, hsign⟩ := h.shape
  have hmeta : ∀ d ∈ c :: word, isMeta d = false := by
    intro d hd
    rcases List.mem_cons.mp hd with rfl | hd
    · exact isMeta_of_word fun _ => word_of_lower hc
    · exact isMeta_of_word (hword d hd)
  have hquestion : ∀ d, isMeta d = false → d ≠ '?' := by
    rintro d hd rfl
    exact absurd hd (by decide)
  -- a word does not end in a question mark, so the sign is one
  have hsign' : sign = ['?'] := by
    simp only [List.mem_cons, List.not_mem_nil, or_false] at hsign
    rcases hsign with rfl | rfl | rfl | rfl
    · rw [List.append_nil] at hlast
      exact absurd rfl (hquestion _ (hmeta _ (List.mem_of_getLast? hlast)))
    · rfl
    · rw [List.getLast?_concat] at hlast
      exact absurd (Option.some.inj hlast) (by decide)
    · rw [List.getLast?_concat] at hlast
      exact absurd (Option.some.inj hlast) (by decide)
  subst hsign'
  obtain ⟨front, d, hfront⟩ : ∃ front d, c :: word = front ++ [d] :=
    ⟨_, _, (List.dropLast_append_getLast (List.cons_ne_nil c word)).symm⟩
  rw [hfront] at hmeta ⊢
  obtain ⟨hmfront, hmd⟩ := List.forall_mem_append.mp hmeta
  have hmd := hmd d (List.mem_singleton_self d)
  have hcolons : ∀ e ∈ [':', ':'] ++ front, isMeta e = false := by
    refine List.forall_mem_append.mpr ⟨?_, hmfront⟩
    intro e he
    simp only [List.mem_cons, List.not_mem_nil, or_false, or_self] at he
    subst he
    decide
  refine ⟨front, d, by simp, hquestion d hmd, fun hmem => hquestion _ (hcolons _ hmem) rfl, ?_⟩
  have hpattern : [':', ':'] ++ (front ++ [d] ++ ['?']) ++ ['$'] =
      ([':', ':'] ++ front) ++ [d, '?', '$'] := by simp
  have hd : compileEnd [d, '?', '$'] = some [.optional d] := by
    rw [compileEnd, hmd, compileEnd]
    rfl
  rw [hpattern, compileEnd_append hcolons (List.cons_ne_nil _ _)
    (by simpa using hquestion d hmd), hd, Option.map_some]

end LowercaseName

/-! ## A method at the end of a path -/

/-- `P::m`. -/
def nestedLine (path method : RString) : RString := path ++ ':' :: ':' :: method

/-- The name is a field of its own. -/
theorem ConstantPathName.fieldsOfNamespace_nestedLine (h : ConstantPathName ruby path)
    (hmethod : ∀ c ∈ method, c ≠ ':') :
    fieldsOfNamespace (nestedLine path method) = fieldsOfNamespace path ++ [method] := by
  induction h with
  | name h =>
      rw [nestedLine, fieldsOfNamespace_scope h.no_colon, fieldsOfNamespace_name h.no_colon,
        fieldsOfNamespace_name hmethod]
      rfl
  | @scope name path h _ ih =>
      rw [nestedLine, List.append_assoc, List.cons_append, List.cons_append,
        fieldsOfNamespace_scope h.no_colon, fieldsOfNamespace_scope h.no_colon]
      exact congrArg (name :: ·) ih

/-- The name is the method that the path ends in. -/
theorem ConstantPathName.nestedMethod_nestedLine (h : ConstantPathName ruby path)
    (hmethod : LowercaseName method) : nestedMethod (nestedLine path method) = some method := by
  have hline : lowerCase method = true := by
    rw [lowerCase, matchesLine_eq _ (not_mem_newline fun c hc => (hmethod.plain c hc).1)]
    obtain ⟨c, rest, rfl, hge, hle⟩ := hmethod.head
    simp [hge, hle]
  rw [nestedMethod, splitNamespace,
    h.fieldsOfNamespace_nestedLine fun c hc => (hmethod.plain c hc).2.2.2,
    dropEmpty_concat hmethod.ne_nil, List.getLast?_concat, Option.filter_some, if_pos hline]

/-- A line `P::m` has no white space, no `#` and no `.`. -/
theorem PathShape.nestedLine_plain (h : PathShape ruby path) (hmethod : LowercaseName method) :
    ∀ c ∈ nestedLine path method, isSpace c = false ∧ c ≠ '#' ∧ c ≠ '.' := by
  intro c hc
  rw [nestedLine] at hc
  rcases List.mem_append.mp hc with hc | hc
  · obtain ⟨hspace, hhash, hdot, -⟩ := h.chars c hc
    exact ⟨hspace, hhash, hdot⟩
  · rcases List.mem_cons.mp hc with rfl | hc
    · decide
    · rcases List.mem_cons.mp hc with rfl | hc
      · decide
      · obtain ⟨hspace, hhash, hdot, -⟩ := hmethod.plain c hc
        exact ⟨hspace, hhash, hdot⟩

/-- A line that has no separator: the translator takes it for the name of a method if it is its own
lower case, and looks for a method at its end otherwise. -/
theorem rubyTranslate_plain {line : RString} (hne : line ≠ [])
    (hplain : ∀ c ∈ line, isSpace c = false ∧ c ≠ '#' ∧ c ≠ '.') :
    rubyTranslate ruby line =
      if line = ruby.downcase line then
        if hasNamespace line then some none else some (some ⟨none, some line⟩)
      else (splitNested ruby (some line) none).map some := by
  have hnewline := not_mem_newline fun c hc => (hplain c hc).1
  have hhash : '#' ∉ line := fun hmem => (hplain '#' hmem).2.1 rfl
  have hmatches : ∀ pattern : RString → Bool, (∀ s, s.head? ≠ some '#' → pattern s = false) →
      matchesLine pattern line = false := by
    intro pattern hpattern
    rw [matchesLine_eq _ hnewline]
    exact hpattern _ fun heq => hhash (List.mem_of_head? heq)
  obtain ⟨hcomment, hanonymous⟩ := not_comment hmatches
  have hfields : splitMethod line = [line] := by
    rw [splitMethod, List.splitOnP_eq_singleton fun d hd => by
      simp [(hplain d hd).2.1, (hplain d hd).2.2]]
    exact (dropEmpty_concat hne : dropEmpty ([] ++ [line]) = _)
  rw [rubyTranslate, hcomment, hanonymous, not_isSuffixOf_hash hhash, hfields]
  simp only [Bool.not_false, Bool.and_self, if_true, Bool.false_eq_true, if_false,
    List.getElem?_cons_zero, List.getElem?_cons_succ, List.getElem?_nil, Option.any_none]
  by_cases hnamed : line = ruby.downcase line
  · simp only [if_pos hnamed, Option.any_some]
    rfl
  · simp only [if_neg hnamed, Option.any_none, Bool.false_eq_true, if_false]

/-- **What becomes of a path and a name after two colons**: it is left to the regular expression. -/
theorem ConstantPathName.rubyTranslate_nestedLine (h : ConstantPathName ruby path)
    (hnamed : path ≠ ruby.downcase path) (hmethod : LowercaseName method) :
    rubyTranslate ruby (nestedLine path method) =
      (ruby.gsub ([':', ':'] ++ method ++ ['$']) (nestedLine path method)).map fun path =>
        some ⟨some path, some method⟩ := by
  have hne : nestedLine path method ≠ [] := by simp [nestedLine]
  have hline : nestedLine path method ≠ ruby.downcase (nestedLine path method) :=
    ruby.downcase_append_ne hnamed _
  rw [rubyTranslate_plain hne (h.shape.nestedLine_plain hmethod), if_neg hline, splitNested,
    h.nestedMethod_nestedLine hmethod]
  simp only [Option.map_map]
  rfl

/-- The end of the path is what the regular expression deletes, unless the name ends in a question
mark: then it deletes nothing. -/
theorem PathShape.gsub_nestedLine (h : PathShape ruby path) (hmethod : LowercaseName method) :
    ruby.withRegexp.gsub ([':', ':'] ++ method ++ ['$']) (nestedLine path method) =
      some (if method.getLast? = some '?' then nestedLine path method else path) := by
  have hnewline := not_mem_newline fun c hc => (h.nestedLine_plain hmethod c hc).1
  rw [RubyLibrary.withRegexp]
  dsimp only
  by_cases hlast : method.getLast? = some '?'
  · obtain ⟨front, d, hfront, hd, hquestion, hcompile⟩ := hmethod.compileEnd_question hlast
    rw [hcompile, if_pos hlast]
    refine congrArg some (remove_eq_self hnewline fun t ht hmem => ?_)
    -- An end of the line has the question mark, what the pattern stands for has none.
    rw [expand_letters_optional, List.mem_cons, List.mem_singleton] at hmem
    have hnot : '?' ∉ t := by
      rcases hmem with rfl | rfl
      · exact fun hmem => (List.mem_append.mp hmem).elim hquestion fun heq =>
          hd (List.mem_singleton.mp heq).symm
      · exact hquestion
    have hne : t ≠ [] := by
      rcases hmem with rfl | rfl <;> simp
    have hend : t.getLast? = some '?' := by
      obtain ⟨before, hbefore⟩ := ht
      have hline := congrArg List.getLast? hbefore
      rw [List.getLast?_append_of_ne_nil _ hne] at hline
      rw [hline, nestedLine, List.getLast?_append_of_ne_nil _ (List.cons_ne_nil _ _),
        List.getLast?_cons_cons, List.getLast?_cons_of_ne_nil hmethod.ne_nil, hlast]
    exact hnot (List.mem_of_getLast? hend)
  · rw [hmethod.compileEnd_eq hlast, if_neg hlast]
    have hline : nestedLine path method = path ++ ([':', ':'] ++ method) := rfl
    rw [hline] at hnewline ⊢
    have hmem : [':', ':'] ++ method ∈ expand (([':', ':'] ++ method).map Item.letter) := by
      rw [expand_letters]
      exact List.mem_singleton_self _
    refine congrArg some (remove_append hnewline hmem (by simp) fun t _ hne hlonger => ?_)
    rw [expand_letters, List.mem_singleton] at hlonger
    exact hne (List.append_left_eq_self.mp hlonger)

/-- A path is one for the library with regular expressions too. -/
theorem ConstantPathName.withRegexp (h : ConstantPathName ruby path) :
    ConstantPathName ruby.withRegexp path := by
  induction h with
  | name h => exact .name ⟨h.capital, h.word⟩
  | scope h _ ih => exact .scope ⟨h.capital, h.word⟩ ih

/-- **The three syntaxes** for a constant path and the name of a method that begins with one of `a`
to `z` mean the same, if and only if the path has a lower case of its own and the name does not end
in a question mark. -/
theorem translate_syntaxes_iff (ruby : RubyLibrary) {path method : RString}
    (hpath : ConstantPathName ruby path) (hmethod : LowercaseName method) :
    (translate ruby.withRegexp (path ++ '#' :: method) = some (some ⟨some path, some method⟩) ∧
      translate ruby.withRegexp (path ++ '.' :: method) = some (some ⟨some path, some method⟩) ∧
      translate ruby.withRegexp (path ++ ':' :: ':' :: method) =
        some (some ⟨some path, some method⟩)) ↔
    path ≠ ruby.downcase path ∧ method.getLast? ≠ some '?' := by
  have hshape := hpath.withRegexp.shape
  have hplain : ∀ c ∈ method, c ≠ '#' ∧ c ≠ '.' := by
    intro c hc
    obtain ⟨-, hhash, hdot, -⟩ := hmethod.plain c hc
    exact ⟨hhash, hdot⟩
  by_cases hnamed : path = ruby.downcase path
  · -- The path alone would be taken for the name of a method.
    refine iff_of_false ?_ fun h => h.1 hnamed
    rintro ⟨hhash, -⟩
    exact (hshape.filed_of_translate hmethod.not_upper (List.forall_mem_nil _) hhash
      (by rw [List.append_nil])).2.1 hnamed
  have hsep : ∀ sep, sep = '#' ∨ sep = '.' →
      translate ruby.withRegexp (path ++ sep :: method) = some (some ⟨some path, some method⟩) := by
    intro sep hsep
    rw [translate, hshape.rubyTranslate_eq hnamed hsep hmethod.ne_nil hplain, hmethod.not_dotnetMethod,
      if_neg Bool.false_ne_true]
  have hnested : translate ruby.withRegexp (path ++ ':' :: ':' :: method) =
      some (some ⟨some (if method.getLast? = some '?' then nestedLine path method else path),
        some method⟩) := by
    have hline := hpath.withRegexp.rubyTranslate_nestedLine hnamed hmethod
    rw [hpath.shape.gsub_nestedLine hmethod, Option.map_some, nestedLine] at hline
    rw [translate, hline]
    rfl
  have hne : nestedLine path method ≠ path := by
    intro heq
    have hlength := congrArg List.length heq
    rw [nestedLine, List.length_append, List.length_cons] at hlength
    omega
  rw [and_iff_right (hsep '#' (.inl rfl)), and_iff_right (hsep '.' (.inr rfl)), hnested,
    and_iff_right hnamed]
  by_cases hlast : method.getLast? = some '?'
  · simp [hlast, hne]
  · simp [hlast]

/-- Ruby's library on ASCII strings, without regular expressions of the user. -/
def asciiLibrary : RubyLibrary where
  lower c := if 'A' ≤ c ∧ c ≤ 'Z' then [Char.ofNat (c.toNat + 32)] else [c]
  upper c := 'A' ≤ c ∧ c ≤ 'Z'
  lower_ne_nil c := by split_ifs <;> exact List.cons_ne_nil _ _
  upper_ascii _ _ := Iff.rfl
  gsub _ string := some string

/-- The name of a method without a sign. -/
theorem translate_syntaxes_closed :
    translate asciiLibrary.withRegexp ("Foo".toList ++ '#' :: "bar".toList) =
        some (some ⟨some "Foo".toList, some "bar".toList⟩) ∧
      translate asciiLibrary.withRegexp ("Foo".toList ++ '.' :: "bar".toList) =
        some (some ⟨some "Foo".toList, some "bar".toList⟩) ∧
      translate asciiLibrary.withRegexp ("Foo".toList ++ ':' :: ':' :: "bar".toList) =
        some (some ⟨some "Foo".toList, some "bar".toList⟩) := by
  have hword : ∀ c ∈ ['F', 'o', 'o'], c.isAlphanum = true ∨ c = '_' := by simp
  have hname : ∀ c ∈ ['a', 'r'], c.isAlphanum = true ∨ c = '_' := by simp
  exact (translate_syntaxes_iff asciiLibrary
    (.name ⟨⟨'F', ['o', 'o'], rfl, by decide, by decide⟩, fun c hc _ => hword c hc⟩)
    ⟨⟨'b', ['a', 'r'], [], rfl, ⟨by decide, by decide⟩, fun c hc _ => hname c hc, by decide⟩⟩).mpr
    ⟨by decide, by decide⟩

/-- The path of `Foo::bar?` keeps the name. -/
theorem translate_nested_question :
    translate asciiLibrary.withRegexp "Foo::bar?".toList ≠
      some (some ⟨some "Foo".toList, some "bar?".toList⟩) := by
  decide

end RaygunApm
