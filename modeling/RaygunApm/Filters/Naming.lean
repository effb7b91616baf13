import RaygunApm.Filters.Syntaxes

/-! # The names the profiler gives to methods

A line that is the profiler's own name of a method, `P#m`, or of a class, `P`, is to be translated
to `P` and `m`, under which the tracer looks. Constant paths and anonymous classes take different
branches of the translator: `translate_profilerLine_iff`. -/

namespace RaygunApm

variable {ruby : RubyLibrary} {path method : RString}

/-- A class path as the profiler reports it: a constant path, or what Ruby prints for anything
else. -/
inductive ReportedPath (ruby : RubyLibrary) : RString → Prop where
  | constant {path : RString} : ConstantPathName ruby path → ReportedPath ruby path
  | anonymous (rest : RString) : ReportedPath ruby ('#' :: '<' :: rest)

/-- The name of a method of a class, or of the class. -/
def profilerLine (path : RString) : Option RString → RString
  | none => path
  | some method => path ++ '#' :: method

/-- An anonymous class path that is not nested and has no dot. -/
def FlatPath (path : RString) : Prop := '#' ∉ path.tail ∧ '.' ∉ path.tail

/-- The line for a class path and possibly a method is one that the translator gets right: an
anonymous path is flat and the name behind it is not empty; a constant path has a lower case of its
own and the name behind it is one of the Ruby syntax. -/
def TranslatedBack (ruby : RubyLibrary) (path : RString) (method : Option RString) : Prop :=
  if path.head? = some '#' then FlatPath path ∧ ∀ m, method = some m → m ≠ []
  else path ≠ ruby.downcase path ∧ ∀ m, method = some m → RubyMethod m

/-! ## Constant paths -/

/-- A string with a double colon is more than one field. -/
theorem tail_fieldsOfNamespace_ne_nil {s : RString} (h : [':', ':'] <:+: s) :
    (fieldsOfNamespace s).tail ≠ [] := by
  fun_induction fieldsOfNamespace s with
  | case1 => simpa using h.length_le
  | case2 c => simpa using h.length_le
  | case3 c d s hcolons ih =>
      obtain ⟨first, more, hfields, -⟩ := fieldsOfNamespace_head s
      rw [List.tail_cons, hfields]
      exact List.cons_ne_nil first more
  | case4 c d s hcolons ih =>
      obtain ⟨first, more, hfields, -⟩ := fieldsOfNamespace_head (d :: s)
      rw [hfields] at ih ⊢
      rcases List.infix_cons_iff.mp h with hprefix | hinfix
      · obtain ⟨rest, hrest⟩ := hprefix
        simp only [List.cons_append, List.cons.injEq] at hrest
        exact absurd ⟨hrest.1.symm, hrest.2.1.symm⟩ hcolons
      · exact ih hinfix

/-- A string with its dots written as double colons does not begin with itself and more. -/
theorem dots_ne_append (first : RString) (c : Char) (rest : RString) :
    first.flatMap (fun c => if c = '.' then [':', ':'] else [c]) ≠ first ++ c :: rest := by
  induction first with
  | nil => simp
  | cons d first ih =>
      by_cases hd : d = '.'
      · simp [hd]
      · simpa [hd] using ih

/-- The .NET syntax does not take a line with a double colon for a path alone. -/
theorem dotnetTranslate_path_ne {line : RString} (h : hasNamespace line = true) :
    dotnetTranslate line ≠ some (some ⟨some line, none⟩) := by
  intro htranslate
  rw [dotnetTranslate] at htranslate
  split at htranslate
  swap
  · simp at htranslate
  obtain ⟨first, more, hfields, hfirst⟩ := fieldsOfNamespace_head line
  have hmore := tail_fieldsOfNamespace_ne_nil (of_decide_eq_true h)
  rw [hfields, List.tail_cons] at hmore
  cases hzero : (splitNamespace line)[0]? with
  | none => simp [hzero] at htranslate
  | some field =>
      simp only [hzero, Option.some.injEq, Translation.mk.injEq] at htranslate
      have hfield := getElem?_of_dropEmpty hzero
      rw [hfields, List.getElem?_cons_zero, Option.some.injEq] at hfield
      subst hfield
      rcases hfirst with ⟨-, hnil⟩ | ⟨rest, hrest⟩
      · exact hmore hnil
      · exact dots_ne_append _ _ _ (htranslate.1.trans hrest)

/-- **A constant path alone** is translated to itself if and only if it has a lower case of its own.
-/
theorem PathShape.translate_path_iff (h : PathShape ruby path) :
    translate ruby path = some (some ⟨some path, none⟩) ↔ path ≠ ruby.downcase path := by
  have hplain : ∀ c ∈ path, isSpace c = false ∧ c ≠ '#' ∧ c ≠ '.' := by
    intro c hc
    obtain ⟨hspace, hhash, hdot, -⟩ := h.chars c hc
    exact ⟨hspace, hhash, hdot⟩
  have hne : path ≠ [] := by
    obtain ⟨c, rest, rfl, -⟩ := h.capital
    exact List.cons_ne_nil c rest
  rw [translate, rubyTranslate_plain hne hplain]
  by_cases hnamed : path = ruby.downcase path
  · rw [if_pos hnamed]
    refine iff_of_false ?_ fun hne => hne hnamed
    cases hnamespace : hasNamespace path with
    | true => exact dotnetTranslate_path_ne hnamespace
    | false => simp
  · rw [if_neg hnamed, splitNested, nestedMethod_eq_none h]
    exact iff_of_true rfl hnamed

/-- A path and the name of a method. -/
theorem PathShape.translate_method_iff (h : PathShape ruby path)
    (hplain : ∀ c ∈ method, c ≠ '#' ∧ c ≠ '.') (hupper : ∀ c ∈ method.head?, ¬ ruby.upper c) :
    translate ruby (path ++ '#' :: method) = some (some ⟨some path, some method⟩) ↔
      path ≠ ruby.downcase path ∧ RubyMethod method := by
  constructor
  · intro htranslate
    obtain ⟨-, hnamed, hmethod, -⟩ := h.filed_of_translate hupper (List.forall_mem_nil _) htranslate
      (by rw [List.append_nil])
    exact ⟨hnamed, hmethod⟩
  · rintro ⟨hnamed, hmethod⟩
    exact h.translate_eq hnamed hmethod hplain hupper

/-! ## Anonymous paths -/

/-- What becomes of a string that begins like an anonymous class. -/
theorem translate_anonymous (ruby : RubyLibrary) (rest : RString) :
    translate ruby ('#' :: '<' :: rest) =
      some (some ⟨some ('#' :: (splitMethod ('#' :: '<' :: rest))[1]?.getD []),
        (splitMethod ('#' :: '<' :: rest))[2]?⟩) := by
  have hcomment : rubyComment ('#' :: '<' :: rest) = true := by
    rw [rubyComment, matchesLine]
    simp
  have hanonymous : rubyAnonymous ('#' :: '<' :: rest) = true := by
    rw [rubyAnonymous, matchesLine]
    simp
  rw [translate, rubyTranslate, hcomment, hanonymous]
  rfl

/-- The separators of a method. -/
def isSeparator (c : Char) : Bool := c = '#' || c = '.'

/-- The fields of a string that begins with a hash. -/
theorem splitMethod_hash (body : RString) :
    splitMethod ('#' :: body) = dropEmpty ([] :: body.splitOnP isSeparator) := by
  have hsplit : ([] ++ '#' :: body).splitOnP isSeparator = [] :: body.splitOnP isSeparator :=
    List.splitOnP_append_cons_of_forall_mem (List.forall_mem_nil _) '#' (by decide) body
  exact congrArg dropEmpty hsplit

/-- A character other than `#` and `.` is no separator. -/
theorem isSeparator_eq_false {c : Char} (h : c ≠ '#' ∧ c ≠ '.') : isSeparator c = false := by
  simp [isSeparator, h.1, h.2]

/-- The characters of a path without a separator. -/
theorem flatPath_hash_iff (body : RString) :
    FlatPath ('#' :: body) ↔ ∀ c ∈ body, isSeparator c = false := by
  constructor
  · rintro ⟨hhash, hdot⟩ c hc
    exact isSeparator_eq_false ⟨fun heq => hhash (heq ▸ hc), fun heq => hdot (heq ▸ hc)⟩
  · intro h
    exact ⟨fun hmem => absurd (h _ hmem) (by decide), fun hmem => absurd (h _ hmem) (by decide)⟩

/-- **A separator cuts an anonymous path short.** -/
theorem translate_anonymous_ne {rest : RString} (hflat : ¬ FlatPath ('#' :: '<' :: rest))
    (suffix : RString) (translated : Option RString) :
    translate ruby ('#' :: '<' :: rest ++ suffix) ≠
      some (some ⟨some ('#' :: '<' :: rest), translated⟩) := by
  rw [flatPath_hash_iff] at hflat
  push Not at hflat
  obtain ⟨d, hd, hsep⟩ := hflat
  obtain ⟨c, hc⟩ := Option.isSome_iff_exists.mp
    (List.find?_isSome.mpr ⟨d, hd, by simpa using hsep⟩)
  obtain ⟨hc, front, back, hsplit, hfront⟩ := List.find?_eq_some_iff_append.mp hc
  have hbody : '<' :: (rest ++ suffix) = front ++ c :: (back ++ suffix) := by
    rw [← List.cons_append, hsplit, List.append_assoc, List.cons_append]
  have hfields : ('<' :: (rest ++ suffix)).splitOnP isSeparator =
      front :: (back ++ suffix).splitOnP isSeparator := by
    rw [hbody]
    exact List.splitOnP_append_cons_of_forall_mem (fun x hx => by simpa using hfront x hx) c hc _
  rw [List.cons_append, List.cons_append, translate_anonymous, splitMethod_hash, hfields]
  intro heq
  simp only [Option.some.injEq, Translation.mk.injEq, List.cons.injEq, true_and] at heq
  obtain ⟨hfield, -⟩ := heq
  rcases getElem?_dropEmpty ([] :: front :: (back ++ suffix).splitOnP isSeparator) 1 with
    hnone | hsome
  · simp [hnone] at hfield
  · rw [hsome, List.getElem?_cons_succ, List.getElem?_cons_zero, Option.getD_some, hsplit] at hfield
    simp at hfield

/-- **A flat anonymous path and the name of a method** are split at the hash between them. -/
theorem translate_anonymous_method_iff {rest : RString} (hflat : FlatPath ('#' :: '<' :: rest))
    (hplain : ∀ c ∈ method, c ≠ '#' ∧ c ≠ '.') :
    translate ruby ('#' :: '<' :: rest ++ '#' :: method) =
        some (some ⟨some ('#' :: '<' :: rest), some method⟩) ↔
      method ≠ [] := by
  have hrest := (flatPath_hash_iff _).mp hflat
  have hfields : ('<' :: (rest ++ '#' :: method)).splitOnP isSeparator = ['<' :: rest, method] := by
    rw [← List.cons_append, List.splitOnP_append_cons_of_forall_mem hrest '#' (by decide),
      List.splitOnP_eq_singleton fun c hc => isSeparator_eq_false (hplain c hc)]
  rw [List.cons_append, List.cons_append, translate_anonymous, splitMethod_hash, hfields]
  by_cases hne : method = []
  · subst hne
    have hdrop : dropEmpty [[], '<' :: rest, []] = [[], '<' :: rest] := by
      rw [dropEmpty, show [[], '<' :: rest, []] = [[], '<' :: rest] ++ [([] : RString)] from rfl,
        List.rdropWhile_concat_pos _ _ _ rfl]
      exact (dropEmpty_concat (List.cons_ne_nil _ _) : dropEmpty ([[]] ++ ['<' :: rest]) = _)
    rw [hdrop]
    simp
  · have hdrop : dropEmpty [[], '<' :: rest, method] = [[], '<' :: rest, method] :=
      (dropEmpty_concat hne : dropEmpty ([[], '<' :: rest] ++ [method]) = _)
    rw [hdrop]
    simp [hne]

/-- The path of an anonymous class is translated to itself, where its text is flat. -/
theorem translate_anonymous_path {rest : RString} (hflat : FlatPath ('#' :: '<' :: rest)) :
    translate ruby ('#' :: '<' :: rest) = some (some ⟨some ('#' :: '<' :: rest), none⟩) := by
  have hrest := (flatPath_hash_iff _).mp hflat
  have hdrop : dropEmpty [[], '<' :: rest] = [[], '<' :: rest] :=
    (dropEmpty_concat (List.cons_ne_nil _ _) : dropEmpty ([[]] ++ ['<' :: rest]) = _)
  rw [translate_anonymous, splitMethod_hash, List.splitOnP_eq_singleton hrest, hdrop]
  rfl

/-! ## The lines of the profiler -/

/-- **The profiler's names.** For a class path that the profiler reports and the name of a method
without `#` and `.` that does not begin with a capital letter, or no name, the line `P#m` or `P` is
translated to `P` and `m` if and only if, for a constant path, the path has a lower case of its own
and the name is one of the Ruby syntax, and, for an anonymous path, there is no `#` and no `.`
behind its first character and the name is not empty. -/
theorem translate_profilerLine_iff (ruby : RubyLibrary) {path : RString} {method : Option RString}
    (hpath : ReportedPath ruby path) (hplain : ∀ m, method = some m → ∀ c ∈ m, c ≠ '#' ∧ c ≠ '.')
    (hupper : ∀ m, method = some m → ∀ c ∈ m.head?, ¬ ruby.upper c) :
    translate ruby (profilerLine path method) = some (some ⟨some path, method⟩) ↔
      TranslatedBack ruby path method := by
  cases hpath with
  | constant hpath =>
      have hshape := hpath.shape
      have hhead : path.head? ≠ some '#' := by
        obtain ⟨c, rest, rfl, -⟩ := hshape.capital
        intro heq
        exact (hshape.chars c List.mem_cons_self).2.1 (Option.some.inj heq)
      rw [TranslatedBack, if_neg hhead]
      cases method with
      | none => simp [profilerLine, hshape.translate_path_iff]
      | some m =>
          rw [profilerLine, hshape.translate_method_iff (hplain m rfl) (hupper m rfl)]
          simp
  | anonymous rest =>
      rw [TranslatedBack, if_pos List.head?_cons]
      by_cases hflat : FlatPath ('#' :: '<' :: rest)
      · rw [and_iff_right hflat]
        cases method with
        | none => simp [profilerLine, translate_anonymous_path hflat]
        | some m =>
            rw [profilerLine, translate_anonymous_method_iff hflat (hplain m rfl)]
            simp
      · refine iff_of_false ?_ fun hback => hflat hback.1
        cases method with
        | none => simpa [profilerLine] using translate_anonymous_ne hflat [] none
        | some m => exact translate_anonymous_ne hflat ('#' :: m) (some m)

/-- The name of a method of an anonymous module. -/
theorem translate_profilerLine_module :
    translate asciiLibrary (profilerLine ('#' :: '<' :: "Module:Foo>".toList) (some "bar".toList)) =
      some (some ⟨some ('#' :: '<' :: "Module:Foo>".toList), some "bar".toList⟩) := by
  have hplain : ∀ c ∈ ['b', 'a', 'r'], c ≠ '#' ∧ c ≠ '.' := by simp
  refine (translate_profilerLine_iff asciiLibrary (.anonymous _) ?_ ?_).mpr ?_
  · rintro m ⟨⟩
    exact hplain
  · rintro m ⟨⟩ c hc
    obtain rfl : 'b' = c := Option.some.inj hc
    exact fun hupper => absurd hupper.2 (by decide)
  · rw [TranslatedBack, if_pos List.head?_cons]
    refine ⟨⟨by decide, by decide⟩, ?_⟩
    rintro m ⟨⟩
    decide

/-- The anonymous class of an anonymous class, as the default blacklist has it, is not translated to
itself. -/
theorem translate_nested_anonymous :
    translate asciiLibrary (profilerLine "#<#<Class:".toList none) ≠
      some (some ⟨some "#<#<Class:".toList, none⟩) := by
  decide

end RaygunApm
