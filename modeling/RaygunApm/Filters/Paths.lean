import RaygunApm.Filters.Parser

/-! # Lines that begin with a class path

What the translator makes of a line that begins with a constant path and a separator. For a hash
between the path and a name it is exact: the line is filed under itself if and only if the path has
a lower case of its own and the name is none that the translator takes for something else
(`translate_eq`, `filed_of_translate`). -/

namespace RaygunApm

/-! ## Lines of one line -/

/-- A string without a newline is one line, so that it matches as a whole. -/
theorem matchesLine_eq (pattern : RString → Bool) {s : RString} (h : '\n' ∉ s) :
    matchesLine pattern s = pattern s := by
  have hlater : matchesLater pattern s = false := by
    induction s with
    | nil => rfl
    | cons c s ih =>
        obtain ⟨hc, hs⟩ := List.ne_and_not_mem_of_not_mem_cons h
        rw [matchesLater, ih hs]
        simp [Ne.symm hc]
  rw [matchesLine, hlater, Bool.or_false]

/-- A string without white space has no newline. -/
theorem not_mem_newline {s : RString} (h : ∀ c ∈ s, isSpace c = false) : '\n' ∉ s :=
  fun hmem => absurd (h _ hmem) (by decide)

/-- The fields are all there if the last one is not empty. -/
theorem dropEmpty_concat {fields : List RString} {last : RString} (h : last ≠ []) :
    dropEmpty (fields ++ [last]) = fields ++ [last] :=
  List.rdropWhile_concat_neg _ _ _ (by simpa using h)

/-! ## Names -/

variable {ruby : RubyLibrary} {path name method : RString}

/-- The characters of a constant path: no white space, no separator of a method, no sign. -/
def PathChar (c : Char) : Prop := isSpace c = false ∧ c ≠ '#' ∧ c ≠ '.' ∧ c ≠ '-' ∧ c ≠ '+'

/-- A word character of Ruby occurs in paths and is not a colon. -/
theorem pathChar_of_word {c : Char} (h : c.toNat < 128 → c.isAlphanum ∨ c = '_') :
    PathChar c ∧ c ≠ ':' := by
  have hspecial : ∀ d : Char, d.toNat < 128 → ¬ (d.isAlphanum ∨ d = '_') → c ≠ d := by
    rintro d hd hnot rfl
    exact hnot (h hd)
  have hcodes : ∀ n ∈ [0, 9, 10, 11, 12, 13, 32], (Char.ofNat n).toNat < 128 ∧
      ¬ ((Char.ofNat n).isAlphanum ∨ Char.ofNat n = '_') := by decide
  have hspace : isSpace c = false := by
    by_contra hmem
    rw [Bool.not_eq_false, isSpace, decide_eq_true_iff] at hmem
    obtain ⟨hlt, hnot⟩ := hcodes _ hmem
    exact hspecial _ hlt hnot (Char.ofNat_toNat c).symm
  exact ⟨⟨hspace, hspecial _ (by decide) (by decide), hspecial _ (by decide) (by decide),
    hspecial _ (by decide) (by decide), hspecial _ (by decide) (by decide)⟩,
    hspecial _ (by decide) (by decide)⟩

/-- What is known of a constant path: how it begins, of which characters it is, and how it ends. -/
structure PathShape (ruby : RubyLibrary) (path : RString) : Prop where
  capital : ∃ c rest, path = c :: rest ∧ ruby.upper c
  chars : ∀ c ∈ path, PathChar c
  fields : ∃ front last, fieldsOfNamespace path = front ++ [last] ∧ ConstantName ruby last

/-- A name before other text is a field of its own. -/
theorem fieldsOfNamespace_scope {name : RString} (h : ∀ c ∈ name, c ≠ ':') (path : RString) :
    fieldsOfNamespace (name ++ ':' :: ':' :: path) = name :: fieldsOfNamespace path := by
  induction name with
  | nil =>
      rw [List.nil_append, fieldsOfNamespace, if_pos ⟨rfl, rfl⟩]
  | cons c name ih =>
      obtain ⟨hc, hname⟩ := List.forall_mem_cons.mp h
      have hrest := ih hname
      cases hcase : name ++ ':' :: ':' :: path with
      | nil => simp at hcase
      | cons d s =>
          rw [List.cons_append, hcase, fieldsOfNamespace, if_neg (fun hcolon => hc hcolon.1), ← hcase,
            hrest]
          rfl

/-- A name without a colon is one field of the namespace. -/
theorem fieldsOfNamespace_name {name : RString} (h : ∀ c ∈ name, c ≠ ':') :
    fieldsOfNamespace name = [name] := by
  induction name with
  | nil => rfl
  | cons c name ih =>
      obtain ⟨hc, hname⟩ := List.forall_mem_cons.mp h
      have hrest := ih hname
      cases name with
      | nil => rfl
      | cons d s =>
          rw [fieldsOfNamespace, if_neg (fun hcolon => hc hcolon.1), hrest]
          rfl

/-- A constant name has no colon. -/
theorem ConstantName.no_colon (h : ConstantName ruby name) : ∀ c ∈ name, c ≠ ':' :=
  fun c hc => (pathChar_of_word (h.word c hc)).2

/-- A path of constant names has the shape that the patterns look for. -/
theorem ConstantPathName.shape (h : ConstantPathName ruby path) : PathShape ruby path := by
  induction h with
  | name h =>
      refine ⟨h.capital, fun c hc => (pathChar_of_word (h.word c hc)).1, [], _, ?_, h⟩
      exact fieldsOfNamespace_name h.no_colon
  | @scope name path h _ ih =>
      obtain ⟨front, last, hfields, hlast⟩ := ih.fields
      refine ⟨?_, ?_, name :: front, last, ?_, hlast⟩
      · obtain ⟨c, rest, rfl, hc⟩ := h.capital
        exact ⟨c, rest ++ ':' :: ':' :: path, rfl, hc⟩
      · intro c hc
        rcases List.mem_append.mp hc with hc | hc
        · exact (pathChar_of_word (h.word c hc)).1
        · have hcolon : PathChar ':' := ⟨by decide, by decide, by decide, by decide, by decide⟩
          rcases List.mem_cons.mp hc with rfl | hc
          · exact hcolon
          · rcases List.mem_cons.mp hc with rfl | hc
            · exact hcolon
            · exact ih.chars c hc
      · rw [fieldsOfNamespace_scope h.no_colon, hfields]
        rfl

/-- A capital letter is none of `a` to `z`. -/
theorem RubyLibrary.not_lower_of_upper (ruby : RubyLibrary) {c : Char} (h : ruby.upper c) :
    ¬ ('a' ≤ c ∧ c ≤ 'z') := by
  rintro ⟨hge, hle⟩
  have hcode : c.toNat < 128 := Nat.lt_of_le_of_lt hle (by decide)
  obtain ⟨-, hz⟩ := (ruby.upper_ascii c hcode).mp h
  have hge' : 97 ≤ c.toNat := hge
  have hz' : c.toNat ≤ 90 := hz
  omega

/-- `downcase` makes no string shorter. -/
theorem RubyLibrary.length_le_downcase (ruby : RubyLibrary) (s : RString) :
    s.length ≤ (ruby.downcase s).length := by
  induction s with
  | nil => exact Nat.zero_le _
  | cons c s ih =>
      have hlower := List.length_pos_of_ne_nil (ruby.lower_ne_nil c)
      rw [RubyLibrary.downcase] at ih ⊢
      rw [List.flatMap_cons, List.length_append, List.length_cons]
      omega

/-- A string that begins with one that `downcase` changes is changed too. -/
theorem RubyLibrary.downcase_append_ne (ruby : RubyLibrary) {s : RString} (h : s ≠ ruby.downcase s)
    (t : RString) : s ++ t ≠ ruby.downcase (s ++ t) := by
  intro heq
  have happend : ruby.downcase (s ++ t) = ruby.downcase s ++ ruby.downcase t := List.flatMap_append
  rw [happend] at heq
  have hs := ruby.length_le_downcase s
  have ht := ruby.length_le_downcase t
  have hlength := congrArg List.length heq
  rw [List.length_append, List.length_append] at hlength
  exact h (List.append_inj heq (by omega)).1

/-- A constant path does not end in a method. -/
theorem nestedMethod_eq_none (h : PathShape ruby path) : nestedMethod path = none := by
  obtain ⟨front, last, hfields, hlast⟩ := h.fields
  obtain ⟨c, rest, rfl, hc⟩ := hlast.capital
  have hline : lowerCase (c :: rest) = false := by
    rw [lowerCase, matchesLine_eq]
    · simpa using ruby.not_lower_of_upper hc
    · exact not_mem_newline fun x hx => (pathChar_of_word (hlast.word x hx)).1.1
  rw [nestedMethod, splitNamespace, hfields, dropEmpty_concat (List.cons_ne_nil _ _),
    List.getLast?_concat, Option.filter_some, if_neg (by simp [hline])]

/-! ## Lines with a separator -/

/-- A first line does not matter for the lines behind it. -/
theorem matchesLater_append (pattern : RString → Bool) {s : RString} (h : '\n' ∉ s) (t : RString) :
    matchesLater pattern (s ++ t) = matchesLater pattern t := by
  induction s with
  | nil => rfl
  | cons c s ih =>
      obtain ⟨hc, hs⟩ := List.ne_and_not_mem_of_not_mem_cons h
      rw [List.cons_append, matchesLater, ih hs]
      simp [Ne.symm hc]

/-- No line begins with a character that is not there. -/
theorem matchesLater_eq_false {pattern : RString → Bool} {c : Char} {s : RString}
    (hpattern : ∀ t, t.head? ≠ some c → pattern t = false) (h : c ∉ s) :
    matchesLater pattern s = false := by
  induction s with
  | nil => rfl
  | cons d s ih =>
      obtain ⟨-, hs⟩ := List.ne_and_not_mem_of_not_mem_cons h
      have hhead : s.head? ≠ some c := fun heq => hs (List.mem_of_head? heq)
      rw [matchesLater, hpattern s hhead, ih hs]
      simp

/-- A line is no comment, and no anonymous class, where no line of it begins with a hash. -/
theorem not_comment {line : RString} (h : ∀ pattern : RString → Bool,
      (∀ s, s.head? ≠ some '#' → pattern s = false) → matchesLine pattern line = false) :
    rubyComment line = false ∧ rubyAnonymous line = false := by
  constructor
  · apply h
    intro s hs
    simpa using hs
  · apply h
    intro s hs
    cases s with
    | nil => rfl
    | cons c s =>
        have hc : c ≠ '#' := fun heq => hs (congrArg some heq)
        simp [List.isPrefixOf, Ne.symm hc]

/-- A line does not end in a hash that has none. -/
theorem not_isSuffixOf_hash {line : RString} (h : '#' ∉ line) : ['#'].isSuffixOf line = false := by
  rw [Bool.eq_false_iff]
  intro hsuffix
  exact h ((List.isSuffixOf_iff_suffix.mp hsuffix).subset (List.mem_singleton_self '#'))

/-- The characters of a path are none of the separators. -/
theorem PathShape.not_separator (h : PathShape ruby path) :
    ∀ c ∈ path, (decide (c = '#') || decide (c = '.')) = false := by
  intro c hc
  obtain ⟨-, hhash, hdot, -⟩ := h.chars c hc
  simp [hhash, hdot]

/-- No line of a text begins with a hash that begins with something else, has one separator and no
hash behind that. -/
theorem matchesLine_front {pattern : RString → Bool}
    (hpattern : ∀ s, s.head? ≠ some '#' → pattern s = false) {c : Char} {front : RString}
    (hc : c ≠ '#') (hnewline : '\n' ∉ c :: front) {sep : Char} (hsep : sep ≠ '\n')
    (hmethod : '#' ∉ method) : matchesLine pattern (c :: front ++ sep :: method) = false := by
  have hlater : matchesLater pattern (c :: front ++ sep :: method) = false := by
    rw [matchesLater_append pattern hnewline, matchesLater, matchesLater_eq_false hpattern hmethod]
    simp [hsep]
  rw [matchesLine, hlater, Bool.or_false]
  exact hpattern _ (by simp [hc])

/-- A line that begins with a path is no comment. -/
theorem PathShape.matchesLine_hash (h : PathShape ruby path) {pattern : RString → Bool}
    (hpattern : ∀ s, s.head? ≠ some '#' → pattern s = false) {sep : Char} (hsep : sep ≠ '\n')
    (hmethod : '#' ∉ method) : matchesLine pattern (path ++ sep :: method) = false := by
  have hnewline := not_mem_newline fun c hc => (h.chars c hc).1
  obtain ⟨c, rest, rfl, -⟩ := h.capital
  exact matchesLine_front hpattern (h.chars c List.mem_cons_self).2.1 hnewline hsep hmethod

/-- The two fields of a line. -/
theorem PathShape.splitMethod_eq (h : PathShape ruby path) {sep : Char} (hsep : sep = '#' ∨ sep = '.')
    (hne : method ≠ []) (hmethod : ∀ c ∈ method, c ≠ '#' ∧ c ≠ '.') :
    splitMethod (path ++ sep :: method) = [path, method] := by
  have hfield : ∀ c ∈ method, (decide (c = '#') || decide (c = '.')) = false := by
    intro c hc
    simp [(hmethod c hc).1, (hmethod c hc).2]
  rw [splitMethod, List.splitOnP_append_cons_of_forall_mem h.not_separator _ (by simpa using hsep),
    List.splitOnP_eq_singleton hfield]
  exact (dropEmpty_concat hne : dropEmpty ([path] ++ [method]) = [path] ++ [method])

/-- The line of a method that does not belong to the Ruby syntax. -/
def dotnetMethod (method : RString) : Bool :=
  (letterCase method && !"Ruby".toList.isPrefixOf method) || hasNamespace method

/-- **What becomes of a path, a separator and a name.** -/
theorem PathShape.rubyTranslate_eq (h : PathShape ruby path) (hnamed : path ≠ ruby.downcase path)
    {sep : Char} (hsep : sep = '#' ∨ sep = '.') (hne : method ≠ [])
    (hmethod : ∀ c ∈ method, c ≠ '#' ∧ c ≠ '.') :
    rubyTranslate ruby (path ++ sep :: method) =
      if dotnetMethod method then some none else some (some ⟨some path, some method⟩) := by
  have hnewline : sep ≠ '\n' := by
    rcases hsep with rfl | rfl <;> decide
  have hhash : '#' ∉ method := fun hmem => (hmethod _ hmem).1 rfl
  obtain ⟨hcomment, hanonymous⟩ :=
    not_comment fun _ hpattern => h.matchesLine_hash hpattern hnewline hhash
  have hsuffix : ['#'].isSuffixOf (path ++ sep :: method) = false := by
    rw [Bool.eq_false_iff]
    intro hsuffix
    obtain ⟨front, hfront⟩ := List.isSuffixOf_iff_suffix.mp hsuffix
    have hlast := congrArg List.getLast? hfront
    rw [List.getLast?_concat, List.getLast?_append_of_ne_nil _ (List.cons_ne_nil _ _),
      List.getLast?_cons_of_ne_nil hne] at hlast
    exact hhash (List.mem_of_getLast? hlast.symm)
  rw [rubyTranslate, hcomment, hanonymous, h.splitMethod_eq hsep hne hmethod, hsuffix, dotnetMethod]
  have hnested := nestedMethod_eq_none h
  simp only [Bool.not_false, Bool.and_self, if_true, Bool.false_eq_true, if_false,
    List.getElem?_cons_zero, List.getElem?_cons_succ, Option.any_some,
    if_neg hnamed]
  generalize (letterCase method && !"Ruby".toList.isPrefixOf method) = letter
  cases letter with
  | true => rfl
  | false =>
      cases hnamespace : hasNamespace method with
      | true => simp
      | false => simp [splitNested, hnested]

/-! ## Lines that are translated back -/

/-- The name is none that the translator takes for another: it is not empty, has no double colon,
and none of its lines begins with a capital letter. -/
def RubyMethod (method : RString) : Prop :=
  method ≠ [] ∧ hasNamespace method = false ∧ letterCase method = false

/-- A name that does not begin with a capital letter does not begin with `Ruby`. -/
theorem dotnetMethod_eq_false_iff (hupper : ∀ c ∈ method.head?, ¬ ruby.upper c) :
    dotnetMethod method = false ↔ hasNamespace method = false ∧ letterCase method = false := by
  have hprefix : "Ruby".toList.isPrefixOf method = false := by
    rw [Bool.eq_false_iff]
    intro hruby
    obtain ⟨rest, rfl⟩ := List.isPrefixOf_iff_prefix.mp hruby
    exact hupper 'R' rfl ((ruby.upper_ascii 'R' (by decide)).mpr (by decide))
  rw [dotnetMethod, hprefix]
  simp [and_comm]

/-- **A path with a lower case of its own, a hash and the name of a method** are translated to the
path and the name. -/
theorem PathShape.translate_eq (h : PathShape ruby path) (hnamed : path ≠ ruby.downcase path)
    (hmethod : RubyMethod method) (hplain : ∀ c ∈ method, c ≠ '#' ∧ c ≠ '.')
    (hupper : ∀ c ∈ method.head?, ¬ ruby.upper c) :
    translate ruby (path ++ '#' :: method) = some (some ⟨some path, some method⟩) := by
  obtain ⟨hne, hruby⟩ := hmethod
  rw [translate, h.rubyTranslate_eq hnamed (.inl rfl) hne hplain,
    (dotnetMethod_eq_false_iff hupper).mpr hruby]
  rfl

/-- The first field is the whole string and the only one, or it is what stands before the first
double colon. -/
theorem fieldsOfNamespace_head (s : RString) :
    ∃ first more, fieldsOfNamespace s = first :: more ∧
      ((s = first ∧ more = []) ∨ ∃ rest, s = first ++ ':' :: ':' :: rest) := by
  fun_induction fieldsOfNamespace s with
  | case1 => exact ⟨[], [], rfl, .inl ⟨rfl, rfl⟩⟩
  | case2 c => exact ⟨[c], [], rfl, .inl ⟨rfl, rfl⟩⟩
  | case3 c d s hcolons =>
      obtain ⟨rfl, rfl⟩ := hcolons
      exact ⟨[], _, rfl, .inr ⟨s, rfl⟩⟩
  | case4 c d s _ ih =>
      obtain ⟨first, more, hfields, hfirst⟩ := ih
      refine ⟨c :: first, more, by rw [hfields]; rfl, ?_⟩
      rcases hfirst with ⟨hwhole, hmore⟩ | ⟨rest, hrest⟩
      · exact .inl ⟨by rw [hwhole], hmore⟩
      · exact .inr ⟨rest, by rw [hrest, List.cons_append]⟩

/-- The last field is the whole string and the only one, or it is what stands behind the last double
colon. -/
theorem fieldsOfNamespace_last (s : RString) :
    ∃ front last, fieldsOfNamespace s = front ++ [last] ∧
      ((front = [] ∧ s = last) ∨ (front ≠ [] ∧ ∃ before, s = before ++ ':' :: ':' :: last)) := by
  fun_induction fieldsOfNamespace s with
  | case1 => exact ⟨[], [], rfl, .inl ⟨rfl, rfl⟩⟩
  | case2 c => exact ⟨[], [c], rfl, .inl ⟨rfl, rfl⟩⟩
  | case3 c d s hcolons ih =>
      obtain ⟨rfl, rfl⟩ := hcolons
      obtain ⟨front, last, hfields, hlast⟩ := ih
      refine ⟨[] :: front, last, by rw [hfields]; rfl, .inr ⟨List.cons_ne_nil _ _, ?_⟩⟩
      rcases hlast with ⟨-, rfl⟩ | ⟨-, before, rfl⟩
      · exact ⟨[], rfl⟩
      · exact ⟨':' :: ':' :: before, rfl⟩
  | case4 c d s _ ih =>
      obtain ⟨front, last, hfields, hlast⟩ := ih
      rcases hlast with ⟨rfl, hwhole⟩ | ⟨hfront, before, hbefore⟩
      · exact ⟨[], c :: last, by rw [hfields]; rfl, .inl ⟨rfl, by rw [hwhole]⟩⟩
      · obtain ⟨field, front, rfl⟩ := List.exists_cons_of_ne_nil hfront
        exact ⟨(c :: field) :: front, last, by rw [hfields]; rfl,
          .inr ⟨List.cons_ne_nil _ _, c :: before, by rw [hbefore, List.cons_append]⟩⟩

/-- The fields are the first ones of those before the empty ones were left out. -/
theorem getElem?_dropEmpty (fields : List RString) (i : Nat) :
    (dropEmpty fields)[i]? = none ∨ (dropEmpty fields)[i]? = fields[i]? := by
  obtain ⟨rest, hrest⟩ := List.rdropWhile_prefix List.isEmpty (l := fields)
  by_cases hi : i < (dropEmpty fields).length
  · right
    conv_rhs => rw [← hrest]
    exact (List.getElem?_append_left hi).symm
  · exact .inl (List.getElem?_eq_none (by omega))

/-- A field that is left is one of those before the empty ones were left out. -/
theorem getElem?_of_dropEmpty {fields : List RString} {i : Nat} {field : RString}
    (h : (dropEmpty fields)[i]? = some field) : fields[i]? = some field := by
  rcases getElem?_dropEmpty fields i with hnone | hsome
  · simp [hnone] at h
  · rw [← hsome, h]

/-- A string with its dots written as double colons, and a hash behind it, does not begin the string
with a double colon behind it. -/
theorem dots_append_ne (first name rest : RString) :
    first.flatMap (fun c => if c = '.' then [':', ':'] else [c]) ++ '#' :: name ≠
      first ++ ':' :: rest := by
  induction first with
  | nil => simp
  | cons c first ih =>
      by_cases hc : c = '.'
      · simp [hc]
      · simp only [List.flatMap_cons, if_neg hc, List.cons_append, List.nil_append, ne_eq,
          List.cons.injEq, true_and]
        exact ih

/-- **The .NET syntax files no line under itself**, with a hash between its path and its name, nor
under a longer one. -/
theorem dotnetTranslate_ne {line space path name : RString}
    (h : dotnetTranslate line = some (some ⟨some path, some name⟩)) :
    path ++ '#' :: name ≠ line ++ space := by
  rw [dotnetTranslate] at h
  split at h
  swap
  · simp at h
  obtain ⟨first, more, hfields, hfirst⟩ := fieldsOfNamespace_head line
  cases hzero : (splitNamespace line)[0]? with
  | none => simp [hzero] at h
  | some field =>
      simp only [hzero, Option.some.injEq, Translation.mk.injEq] at h
      obtain ⟨hpath, hname⟩ := h
      have hfield := getElem?_of_dropEmpty hzero
      have hmore := getElem?_of_dropEmpty hname
      rw [hfields, List.getElem?_cons_zero, Option.some.injEq] at hfield
      rw [hfields, List.getElem?_cons_succ] at hmore
      subst hfield
      rcases hfirst with ⟨-, rfl⟩ | ⟨rest, rfl⟩
      · simp at hmore
      · rw [← hpath, List.append_assoc, List.cons_append]
        exact dots_append_ne first name _

/-- A string that does not end in a colon ends in the method at its end. -/
theorem nestedMethod_suffix {line nested : RString} (hline : line.getLast? = some '#')
    (h : nestedMethod line = some nested) :
    line = nested ∨ ∃ before, line = before ++ ':' :: ':' :: nested := by
  obtain ⟨front, last, hfields, hlast⟩ := fieldsOfNamespace_last line
  have hne : last ≠ [] := by
    rintro rfl
    rcases hlast with ⟨-, rfl⟩ | ⟨-, before, rfl⟩
    · simp at hline
    · simp at hline
  have hnested := (Option.filter_eq_some_iff.mp h).1
  rw [splitNamespace, hfields, dropEmpty_concat hne, List.getLast?_concat, Option.some.injEq] at hnested
  subst hnested
  exact hlast.imp And.right And.right

/-- **A path with a hash at the end** that is split at its last double colon is not filed under
itself. -/
theorem splitNested_ne {line space path name : RString} (hline : line.getLast? = some '#')
    (hspace : ∀ c ∈ space, isSpace c)
    (h : splitNested ruby (some line) none = some ⟨some path, some name⟩) :
    path ++ '#' :: name ≠ line ++ space := by
  intro hfiled
  rw [splitNested] at h
  cases hnested : nestedMethod line with
  | none => simp [hnested] at h
  | some nested =>
      simp only [hnested, Option.map_eq_some_iff, Translation.mk.injEq, Option.some.injEq] at h
      obtain ⟨-, -, -, rfl⟩ := h
      have hne : nested ≠ [] := by
        rintro rfl
        exact absurd (Option.filter_eq_some_iff.mp hnested).2 (by decide)
      have hsuffix := nestedMethod_suffix hline hnested
      have hlast : nested.getLast? = some '#' := by
        rcases hsuffix with rfl | ⟨before, rfl⟩
        · exact hline
        · rwa [List.getLast?_append_of_ne_nil _ (List.cons_ne_nil _ _), List.getLast?_cons_cons,
            List.getLast?_cons_of_ne_nil hne] at hline
      -- The hash at the end leaves no room for white space.
      have hnil : space = [] := by
        by_contra hspaces
        have hend := congrArg List.getLast? hfiled
        rw [List.getLast?_append_of_ne_nil _ (List.cons_ne_nil _ _),
          List.getLast?_cons_of_ne_nil hne, hlast, List.getLast?_append_of_ne_nil _ hspaces] at hend
        exact absurd (hspace _ (List.mem_of_getLast? hend.symm)) (by decide)
      rw [hnil, List.append_nil] at hfiled
      rcases hsuffix with rfl | ⟨before, rfl⟩
      · have hlength := congrArg List.length hfiled
        rw [List.length_append, List.length_cons] at hlength
        omega
      · have happend : (path ++ ['#']) ++ nested = (before ++ [':', ':']) ++ nested := by
          simpa using hfiled
        have hcancel : path ++ ['#'] = before ++ [':', ':'] := List.append_cancel_right happend
        simpa using congrArg List.getLast? hcancel

/-- The first field ends at the first separator. -/
theorem splitOnP_head (separator : Char → Bool) (s : RString) :
    ∃ first more rest, s.splitOnP separator = first :: more ∧ s = first ++ rest ∧
      ∀ c ∈ first, separator c = false := by
  induction s with
  | nil => exact ⟨[], [], [], List.splitOnP_nil, rfl, List.forall_mem_nil _⟩
  | cons c s ih =>
      rw [List.splitOnP_cons_eq_if_modifyHead]
      cases hc : separator c with
      | true => exact ⟨[], _, c :: s, rfl, rfl, List.forall_mem_nil _⟩
      | false =>
          obtain ⟨first, more, rest, hsplit, rfl, hfirst⟩ := ih
          exact ⟨c :: first, more, rest, by rw [hsplit]; rfl, rfl,
            List.forall_mem_cons.mpr ⟨hc, hfirst⟩⟩

/-- The name of a method that the Ruby syntax finds behind a path is the part of the line up to the
next separator. -/
theorem PathShape.splitMethod_name (h : PathShape ruby path) {name : RString}
    (hname : (splitMethod (path ++ '#' :: method))[1]? = some name) :
    (∀ c ∈ name, c ≠ '#' ∧ c ≠ '.') ∧ ∃ rest, method = name ++ rest := by
  have hfield := getElem?_of_dropEmpty hname
  rw [List.splitOnP_append_cons_of_forall_mem h.not_separator _ (by simp),
    List.getElem?_cons_succ] at hfield
  obtain ⟨first, more, rest, hsplit, hrest, hplain⟩ :=
    splitOnP_head (fun c => decide (c = '#') || decide (c = '.')) method
  rw [hsplit, List.getElem?_cons_zero, Option.some.injEq] at hfield
  subst hfield
  exact ⟨fun c hc => by simpa using hplain c hc, rest, hrest⟩

/-- The Ruby syntax gives a path and a name if the line is split into a path with a lower case of
its own and possibly a name that belongs to the syntax, or it is an anonymous class. -/
theorem rubyTranslate_some {line path' name : RString}
    (h : rubyTranslate ruby line = some (some ⟨some path', some name⟩)) :
    path'.head? = some '#' ∨ ∃ path method, path ≠ ruby.downcase path ∧
      (∀ m, method = some m → hasNamespace m = false ∧
        (letterCase m && !"Ruby".toList.isPrefixOf m) = false) ∧
      splitNested ruby (some path) method = some ⟨some path', some name⟩ ∧
      if ['#'].isSuffixOf line then path = line ∧ method = none
      else (splitMethod line)[0]? = some path ∧ method = (splitMethod line)[1]? := by
  rw [rubyTranslate] at h
  dsimp only at h
  by_cases hruby : (!rubyComment line && !rubyAnonymous line) = true
  · rw [if_pos hruby] at h
    right
    generalize hpath : (if ['#'].isSuffixOf line then some line else (splitMethod line)[0]?) = path at h
    generalize hmethod : (if ['#'].isSuffixOf line then none else (splitMethod line)[1]?) = method at h
    split_ifs at h with hletter
    · simp at h
    · cases path with
      | none => simp at h
      | some path =>
          by_cases hnamed : path = ruby.downcase path
          · -- The path is taken for a name, so there is no path left.
            simp only [if_pos hnamed] at h
            split_ifs at h with hnamespace
            · simp at h
            · simp [splitNested] at h
          · simp only [if_neg hnamed] at h
            split_ifs at h with hnamespace
            · simp at h
            obtain ⟨_, hsplit, ⟨⟩⟩ := Option.map_eq_some_iff.mp h
            refine ⟨path, method, hnamed, ?_, hsplit, ?_⟩
            · rintro m rfl
              exact ⟨by simpa using hnamespace, by simpa using hletter⟩
            · split_ifs at hpath hmethod ⊢
              · exact ⟨(Option.some.inj hpath).symm, hmethod.symm⟩
              · exact ⟨hpath, hmethod.symm⟩
  · rw [if_neg hruby] at h
    split_ifs at h with hanonymous
    · simp only [Option.some.injEq, Translation.mk.injEq] at h
      exact .inl (h.1 ▸ rfl)
    · simp at h

/-- **A path and a text behind a hash that are filed under themselves**: the path has a lower case
of its own, and the text is the name of a method without a separator and without white space behind
it. -/
theorem PathShape.filed_of_translate (h : PathShape ruby path)
    (hupper : ∀ c ∈ method.head?, ¬ ruby.upper c) {space path' name : RString}
    (hspace : ∀ c ∈ space, isSpace c)
    (htranslate : translate ruby (path ++ '#' :: method) = some (some ⟨some path', some name⟩))
    (hfiled : path' ++ '#' :: name = path ++ '#' :: (method ++ space)) :
    space = [] ∧ path ≠ ruby.downcase path ∧ RubyMethod method ∧
      ∀ c ∈ method, c ≠ '#' ∧ c ≠ '.' := by
  have hline : path ++ '#' :: (method ++ space) = (path ++ '#' :: method) ++ space := by simp
  have hruby : rubyTranslate ruby (path ++ '#' :: method) = some (some ⟨some path', some name⟩) := by
    rw [translate] at htranslate
    split at htranslate
    · simp at htranslate
    · next hruby => rw [hruby, htranslate]
    · exact absurd (hfiled.trans hline) (dotnetTranslate_ne htranslate)
  rcases rubyTranslate_some hruby with hhash | ⟨path₀, method₀, hnamed, hname, hsplit, hfields⟩
  · -- The path of an anonymous class begins with a hash.
    obtain ⟨c, rest, rfl, -⟩ := h.capital
    obtain ⟨rest', rfl⟩ := List.head?_eq_some_iff.mp hhash
    rw [List.cons_append, List.cons_append, List.cons.injEq] at hfiled
    exact absurd hfiled.1.symm (h.chars c List.mem_cons_self).2.1
  split_ifs at hfields with hsuffix
  · obtain ⟨rfl, rfl⟩ := hfields
    have hlast : (path ++ '#' :: method).getLast? = some '#' := by
      obtain ⟨front, hfront⟩ := List.isSuffixOf_iff_suffix.mp hsuffix
      rw [← hfront, List.getLast?_concat]
    exact absurd (hfiled.trans hline) (splitNested_ne hlast hspace hsplit)
  · obtain ⟨hpath, hmethod⟩ := hfields
    have hpath' := getElem?_of_dropEmpty hpath
    rw [List.splitOnP_append_cons_of_forall_mem h.not_separator _ (by simp),
      List.getElem?_cons_zero, Option.some.injEq] at hpath'
    subst hpath'
    simp only [splitNested, nestedMethod_eq_none h, Option.some.injEq, Translation.mk.injEq] at hsplit
    obtain ⟨rfl, rfl⟩ := hsplit
    obtain ⟨hplain, rest, hrest⟩ := h.splitMethod_name hmethod.symm
    -- The name is the whole text, which begins with it and ends before the white space.
    have heq : name = method ++ space := by
      simpa using List.append_cancel_left hfiled
    have hboth : rest = [] ∧ space = [] := by
      rw [hrest, List.append_assoc] at heq
      exact List.append_eq_nil_iff.mp (List.append_right_eq_self.mp heq.symm)
    rw [hboth.1, List.append_nil] at hrest
    subst hrest
    obtain ⟨hnamespace, hletter⟩ := hname _ rfl
    have hdotnet : dotnetMethod method = false := by
      rw [dotnetMethod, hletter, hnamespace]
      rfl
    refine ⟨hboth.2, hnamed, ⟨?_, (dotnetMethod_eq_false_iff hupper).mp hdotnet⟩, hplain⟩
    rintro rfl
    exact hsuffix (List.isSuffixOf_iff_suffix.mpr (List.suffix_append path ['#']))

end RaygunApm
