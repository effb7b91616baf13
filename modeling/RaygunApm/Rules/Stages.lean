import RaygunApm.Rules.Classifier

/-! # The stages of the classifier

What the loop over the paths and the walks for prefixes come to, in terms of the entries of the
trees. `pathLoop_eq`: the loop looks at the greatest key before the path, and if that is no hit at
the keys after the path, in order. `rbRgBlacklistedStringP_eq_none_iff` and
`exists_prefix_of_rbRgBlacklistedStringP`: a prefix walk answers with the verdict of a key that is a
prefix, but without a first step it does not answer at all. -/

namespace RaygunApm

open OrderedKeys

/-! ## Comparing C strings -/

/-- `strncmp` over the length of a string without NUL is the test for a prefix. -/
theorem strncmp_eq_zero_iff {key : Bytes} (hkey : 0 ∉ key) (s : Bytes) :
    strncmp s key key.length = 0 ↔ key <+: s := by
  induction key generalizing s with
  | nil => simp [strncmp]
  | cons c key ih =>
      have hc : c ≠ 0 := fun h => hkey (by simp [h])
      have hrest : 0 ∉ key := fun h => hkey (by simp [h])
      rw [List.length_cons, strncmp]
      cases s with
      | nil =>
          have hne : (0 : UInt8) ≠ c := hc.symm
          have hpos : c.toNat ≠ 0 := fun h => hc (UInt8.toNat_inj.mp h)
          simp [hne, hpos]
      | cons x s =>
          by_cases hx : x = c
          · subst hx
            simp [hc, ih hrest]
          · have hne : x.toNat ≠ c.toNat := fun h => hx (UInt8.toNat_inj.mp h)
            have hsub : (x.toNat : Int) - c.toNat ≠ 0 := by omega
            simp [hx, hsub, Ne.symm hx]

/-- The comparison of the last bytes of a key is the test for a suffix. -/
theorem strncmp_drop_eq_zero_iff (key tail : Bytes) (htail : 0 ∉ tail)
    (hlength : tail.length ≤ key.length) :
    strncmp (key.drop (key.length - tail.length)) tail tail.length = 0 ↔ tail <:+ key := by
  rw [strncmp_eq_zero_iff htail, List.suffix_iff_eq_drop]
  have hdrop : (key.drop (key.length - tail.length)).length = tail.length := by
    rw [List.length_drop]
    omega
  constructor
  · intro h
    exact h.eq_of_length hdrop.symm
  · intro h
    exact h ▸ List.prefix_rfl

/-- The comparison of the first bytes. -/
theorem strncmp_one_pos_iff (x : UInt8) (rest : Bytes) (path : Bytes) :
    0 < strncmp (x :: rest) path 1 ↔ path.headD 0 < x := by
  rw [strncmp, List.headD_cons, UInt8.lt_iff_toNat_lt]
  by_cases hx : x = path.headD 0
  · have hzero : strncmp (x :: rest).tail path.tail 0 = 0 := by rw [strncmp]
    rw [if_neg (not_not.mpr hx), hzero, ite_self, ← hx]
    simp
  · rw [if_pos hx]
    omega

/-! ## The loop over the paths -/

/-- The keys the loop stops at: `Q::` and `Q#` that the fully qualified method starts with. -/
def PathHit (fullyQualified key : Bytes) : Prop :=
  2 < key.length ∧ ([colon, colon] <:+ key ∨ [hash] <:+ key) ∧ key <+: fullyQualified

instance (fullyQualified key : Bytes) : Decidable (PathHit fullyQualified key) := by
  unfold PathHit; infer_instance

/-- One round of the path loop, where the iterator has another key. -/
theorem pathLoop_succ {fullyQualified path : Bytes} {fuel : Nat}
    {it : Option (RaxIterator Verdict)} {piter : RaxIterator Verdict}
    (hnext : raxNext it = some piter) (hkey : 0 ∉ piter.key) :
    pathLoop fullyQualified path (fuel + 1) it =
      if path.headD 0 < piter.key0 then none
      else if PathHit fullyQualified piter.key then some piter.data
      else pathLoop fullyQualified path fuel (some piter) := by
  rw [pathLoop, hnext]
  dsimp only
  by_cases hlength : 2 < piter.key.length
  · have hcolon := strncmp_drop_eq_zero_iff piter.key [colon, colon] (by decide)
      (by simpa using hlength.le)
    have hhash := strncmp_drop_eq_zero_iff piter.key [hash] (by decide)
      (by simp; omega)
    simp only [List.length_cons, List.length_nil, Nat.zero_add, Nat.reduceAdd] at hcolon hhash
    simp only [strncmp_one_pos_iff, hcolon, hhash, strncmp_eq_zero_iff hkey, PathHit, hlength,
      true_and]
    split_ifs <;> tauto
  · simp only [strncmp_one_pos_iff, PathHit, hlength, false_and, if_false]

/-- A hit starts as the path does. -/
theorem PathHit.headD_eq {path rest key : Bytes} (hpath : path ≠ [])
    (h : PathHit (path ++ rest) key) : key.head? = some (path.headD 0) := by
  obtain ⟨c, path, rfl⟩ := List.exists_cons_of_ne_nil hpath
  obtain ⟨hlength, -, t, ht⟩ := h
  cases key with
  | nil => simp at hlength
  | cons x key => simp_all

/-- Behind a key that starts with a greater byte there are no hits. -/
theorem find?_eq_none_of_head_lt {path : Bytes} (rest : Bytes) (hpath : path ≠ [])
    (entries : List (Bytes × Verdict)) (h : ∀ e ∈ entries, ∀ c, e.1.head? = some c → path.headD 0 < c) :
    entries.find? (fun e => PathHit (path ++ rest) e.1) = none := by
  rw [List.find?_eq_none]
  intro e he hhit
  exact lt_irrefl _ (h e he _ (PathHit.headD_eq hpath (by simpa using hhit)))

/-- A later key starts with the same byte or a greater one. -/
theorem head_le_of_lt {a b : Bytes} (h : a < b) {x y : UInt8} (hx : a.head? = some x)
    (hy : b.head? = some y) : x ≤ y := by
  cases a with
  | nil => cases hx
  | cons c a =>
      cases b with
      | nil => cases hy
      | cons d b =>
          obtain rfl := Option.some.inj hx
          obtain rfl := Option.some.inj hy
          exact List.head_le_of_lt h

/-- **The rest of the loop** finds the first hit among the later keys, with its data. -/
theorem pathLoop_spec {root : RaxNode Verdict} (hroot : root.WellFormed)
    (hnonzero : ∀ e ∈ root.entries, 0 ∉ e.1) {path : Bytes} (hpath : path ≠ []) (rest : Bytes) :
    (fuel : Nat) → (it : RaxIterator Verdict) → Seated root it → it.node.value.isSome →
    it.justSeeked = false → it.pending.tail.length < fuel →
    pathLoop (path ++ rest) path fuel (some it) =
      (it.pending.tail.find? fun e => PathHit (path ++ rest) e.1).map fun e => some e.2
  | 0, _, _, _, _, hfuel => absurd hfuel (Nat.not_lt_zero _)
  | fuel + 1, it, hseated, hsome, hseek, hfuel => by
      obtain ⟨v, hv⟩ := Option.isSome_iff_exists.mp hsome
      have hcons := it.pending_eq_cons hseated hv
      have hadvance := raxIteratorNextStep_spec hroot hseated hsome hseek
      have hnext : raxNext (some it) = raxIteratorNextStep it := rfl
      cases hstep : raxIteratorNextStep it with
      | none =>
          rw [hstep] at hadvance hnext
          rw [pathLoop, hnext, show it.pending.tail = [] from hadvance]
          rfl
      | some piter =>
          rw [hstep] at hadvance hnext
          obtain ⟨hreads, hseek', hpending⟩ := hadvance
          obtain ⟨w, hw⟩ := Option.isSome_iff_exists.mp hreads.isSome
          have hcons' := piter.pending_eq_cons hreads.toSeated hw
          -- What is pending is a tail of the entries, so the key of the step is greater than the last.
          have hentries : ∃ front, root.entries = front ++ it.pending := by
            refine ⟨stackBefore it.stack, ?_⟩
            rw [RaxIterator.pending, hseated.linked.entries hroot, List.append_assoc]
          obtain ⟨front, hentries⟩ := hentries
          have hordered : Ordered it.pending := by
            have h := hroot.ordered
            rw [hentries] at h
            exact (List.pairwise_append.mp h).2.1
          rw [hcons, ← hpending, hcons'] at hordered
          obtain ⟨hfirst, hlater⟩ := List.pairwise_cons.mp hordered
          -- In particular it is not empty, and the byte in the buffer is its own.
          have hkey : piter.key ≠ [] := by
            have hlt := hfirst (piter.key, w) (by simp)
            rintro hnil
            rw [hnil] at hlt
            exact List.not_lt_nil _ hlt
          have hhead := hreads.key0 hkey
          have hmem : (piter.key, w) ∈ root.entries := by
            rw [hentries, hcons, ← hpending, hcons']
            simp
          rw [pathLoop_succ hnext (hnonzero _ hmem), ← hpending, hcons', List.find?_cons]
          have hrec := pathLoop_spec hroot hnonzero hpath rest fuel piter hreads.toSeated
            hreads.isSome (hseek'.trans hseek) (by
              rw [← hpending, hcons', List.length_cons] at hfuel
              omega)
          split_ifs with hbreak hhit
          · -- The loop breaks off: this key and all later ones start with a greater byte.
            have hnone := find?_eq_none_of_head_lt rest hpath piter.pending (by
              intro e he c hc
              rw [hcons'] at he
              rcases List.mem_cons.mp he with rfl | he
              · exact (Option.some.inj (hhead.symm.trans hc)) ▸ hbreak
              · exact lt_of_lt_of_le hbreak
                  (head_le_of_lt ((List.pairwise_cons.mp hlater).1 e he) hhead hc))
            rw [hcons', List.find?_cons] at hnone
            rw [hnone]
            rfl
          · simp [hhit, hreads.data, hw]
          · rw [hrec]
            simp [hhit]

/-- The walk for a string ends inside the run of a key's node. -/
def Rax.CutsShort {V : Type} (t : Rax V) (p : Bytes) : Prop :=
  match t.head with
  | none => False
  | some head => (raxLowWalk head p).InsideKey p

instance {V : Type} (t : Rax V) (p : Bytes) : Decidable (t.CutsShort p) := by
  unfold Rax.CutsShort; split <;> infer_instance

/-- The loop at the key it starts from, and behind it. -/
def pathLoopFrom (fullyQualified path : Bytes) (garbage : UInt8) (cut : Bool)
    (start : Bytes × Verdict) (later : List (Bytes × Verdict)) : Option (Option Verdict) :=
  if PathHit fullyQualified start.1 then some (if cut then none else some start.2)
  else if start.1 = [] ∧ cut ∧ path.headD 0 < garbage then none
  else (later.find? fun e => PathHit fullyQualified e.1).map fun e => some e.2

/-- **What the loop comes to** at a path that is no key: without a key before the path it does not
run; else it looks at the greatest of them, whose data is missing when the walk is cut short there,
and then at the keys after the path. -/
theorem pathLoop_eq {t : Rax Verdict} (hnonzero : ∀ e ∈ t.entries, 0 ∉ e.1) {path : Bytes}
    (hpath : path ≠ []) (rest : Bytes) (garbage : UInt8) (hfind : raxFind t path = none) :
    pathLoop (path ++ rest) path (t.entries.length + 1) (raxSeekLe t path garbage) =
      ((below path t.entries).getLast?.bind fun start =>
        pathLoopFrom (path ++ rest) path garbage (t.CutsShort path) start (above path t.entries)) := by
  cases hhead : t.head with
  | none =>
      obtain ⟨hseek, hentries⟩ := raxSeekLe_of_empty hhead path garbage
      rw [hseek, hentries]
      rfl
  | some root =>
      have hroot := t.wellFormed root hhead
      have hentries : t.entries = root.entries := by rw [Rax.entries, hhead]; rfl
      have hcut : t.CutsShort path ↔ (raxLowWalk root path).InsideKey path := by
        rw [Rax.CutsShort, hhead]
      have hspec := raxSeekLe_spec hhead path garbage hfind
      have hnot : ∀ v, (path, v) ∉ root.entries := by
        intro v hv
        rw [(raxFind_eq_some_iff t path v).mpr (hentries ▸ hv)] at hfind
        cases hfind
      cases hseek : raxSeekLe t path garbage with
      | none =>
          rw [hseek] at hspec
          rw [show below path t.entries = [] from hspec]
          rfl
      | some it =>
          rw [hseek] at hspec
          obtain ⟨hseated, hjust, v, hv, hlast, hdata⟩ := hspec
          rw [hentries] at hlast hdata hnonzero ⊢
          have htail := pending_tail_eq_above hroot hseated hv hnot hlast
          obtain ⟨hmem, hlt⟩ := mem_below.mp (List.mem_of_getLast? hlast)
          rw [hlast, Option.bind_some]
          -- The first call of `raxNext` only clears the flag of the seek.
          have hnext : raxNext (some it) = some { it with justSeeked := false } := by
            rw [raxNext, Option.bind_some, raxIteratorNextStep, if_pos hjust]
          have hlater := pathLoop_spec hroot hnonzero hpath rest root.entries.length
            { it with justSeeked := false } ⟨hseated.linked, hseated.key, hseated.key0⟩
            (Option.isSome_of_mem hv) rfl (by
              have hlength := congrArg List.length (hseated.linked.entries hroot)
              rw [List.append_assoc, List.length_append, ← RaxIterator.pending,
                it.pending_eq_cons hseated hv, List.length_cons] at hlength
              show it.pending.tail.length < _
              omega)
          rw [show RaxIterator.pending { it with justSeeked := false } = it.pending from rfl,
            htail] at hlater
          rw [pathLoop_succ hnext (hnonzero _ hmem), hlater, pathLoopFrom]
          dsimp only
          have hcut' : decide (t.CutsShort path) = decide ((raxLowWalk root path).InsideKey path) :=
            decide_eq_decide.mpr hcut
          have hpathHead : path.head? = some (path.headD 0) := by
            obtain ⟨c, path, rfl⟩ := List.exists_cons_of_ne_nil hpath
            rfl
          rw [hcut']
          -- At the key of length 0 the byte in the buffer is not the key's, and decides alone.
          by_cases hkey : it.key = []
          · have hmiss : ¬ PathHit (path ++ rest) it.key := by simp [PathHit, hkey]
            rw [if_neg hmiss, if_neg hmiss]
            split_ifs at hdata with hinside
            · have hgarbage := hdata.2 hkey
              simp only [hkey, hinside, hgarbage, decide_true, true_and]
            · rw [if_neg (show ¬ (it.key = [] ∧ decide _ = true ∧ _) by simp [hinside])]
              split_ifs with hbreak
              · -- Breaking off here is no loss: no later key starts as the path does.
                have hne := (hdata.2 hkey _ hpathHead).resolve_left hbreak.ne'
                have hnone : (above path root.entries).find? (fun e => PathHit (path ++ rest) e.1) =
                    none := by
                  rw [List.find?_eq_none]
                  intro e he hhit
                  exact hne e he (PathHit.headD_eq hpath (by simpa using hhit))
                rw [hnone]
                rfl
              · rfl
          · -- A longer key before the path starts with a byte that is not greater: no breaking off.
            have hle : ¬ path.headD 0 < it.key0 :=
              not_lt.mpr (head_le_of_lt hlt (hseated.key0 hkey) hpathHead)
            rw [if_neg hle, if_neg (show ¬ (it.key = [] ∧ _) from fun h => hkey h.1)]
            by_cases hinside : (raxLowWalk root path).InsideKey path
            · rw [if_pos hinside] at hdata
              simp only [hdata.1, hinside, decide_true, if_true]
            · rw [if_neg hinside] at hdata
              simp only [hdata.1, hinside, decide_false, Bool.false_eq_true, if_false]

/-! ## The walks for prefixes -/

/-- The verdict of the entries whose keys are prefixes of a string: one whitelisted entry is enough
to whitelist. -/
def prefixVerdict (entries : List (Bytes × Verdict)) (s : Bytes) : Option Verdict :=
  if ∃ e ∈ entries, e.1 <+: s ∧ e.2 = .whitelisted then some .whitelisted
  else if ∃ e ∈ entries, e.1 <+: s ∧ e.2 = .blacklisted then some .blacklisted
  else none

/-- Some key starts with the first character of a string. -/
def StartsAlong (entries : List (Bytes × Verdict)) (s : Bytes) : Prop :=
  s ≠ [] ∧ ∃ e ∈ entries, e.1.head? = s.head?

instance (entries : List (Bytes × Verdict)) (s : Bytes) : Decidable (StartsAlong entries s) := by
  unfold StartsAlong; infer_instance

/-- A walk for prefixes: without a first step there is no answer. -/
def prefixWalk (entries : List (Bytes × Verdict)) (s : Bytes) : Option Verdict :=
  if StartsAlong entries s then prefixVerdict entries s else none

/-- A single byte is a prefix of the strings that start with it. -/
theorem singleton_prefix_iff {c : UInt8} {s : Bytes} : [c] <+: s ↔ s.head? = some c := by
  cases s <;> simp [List.cons_prefix_cons, eq_comm]

/-- The loop over the walk: a whitelisted node wins, then a blacklisted one. -/
theorem scanVisited_eq (visited : List (RaxNode Verdict)) (acc : Option Verdict) :
    scanVisited acc visited =
      if ∃ h ∈ visited, h.value = some .whitelisted then some .whitelisted
      else if ∃ h ∈ visited, h.value = some .blacklisted then some .blacklisted
      else acc := by
  induction visited generalizing acc with
  | nil => simp [scanVisited]
  | cons h visited ih =>
      rw [scanVisited]
      cases hvalue : h.value with
      | none => simp [hvalue, ih]
      | some v =>
          cases v with
          | whitelisted => simp [hvalue]
          | blacklisted =>
              rw [ih]
              simp [hvalue]

/-- **What a prefix walk comes to**: the verdict of the keys that are prefixes of the string, if
some key starts as the string does. -/
theorem rbRgBlacklistedStringP_eq (t : Rax Verdict) (s : Bytes) :
    rbRgBlacklistedStringP t s = prefixWalk t.entries s := by
  rw [prefixWalk]
  cases hhead : t.head with
  | none => simp [rbRgBlacklistedStringP, hhead, StartsAlong, Rax.entries]
  | some root =>
      have hroot := t.wellFormed root hhead
      have hentries : t.entries = root.entries := by rw [Rax.entries, hhead]; rfl
      obtain ⟨rest, h⟩ := raxLowWalk_spec hroot s
      have hvisited := fun v => h.exists_visited_iff hroot (v := v)
      have hstart : (raxLowWalk root s).matched ≠ 0 ↔ StartsAlong root.entries s := by
        rw [h.matched_ne_zero_iff hroot, StartsAlong]
        cases s with
        | nil => simp
        | cons c s => simp [singleton_prefix_iff]
      rw [rbRgBlacklistedStringP, hhead, hentries]
      dsimp only
      by_cases hzero : (raxLowWalk root s).matched = 0
      · rw [if_pos hzero, if_neg fun hs => (hstart.mpr hs) hzero]
      · rw [if_neg hzero, if_pos (hstart.mp hzero), scanVisited_eq, prefixVerdict]
        have hpre : ∀ v, (∃ n ∈ (raxLowWalk root s).visited, n.value = some v) ↔
            ∃ e ∈ root.entries, e.1 <+: s ∧ e.2 = v := by
          intro v
          rw [hvisited]
          constructor
          · rintro ⟨k, hk, hmem⟩
            exact ⟨(k, v), hmem, hk, rfl⟩
          · rintro ⟨⟨k, x⟩, hmem, hk, rfl⟩
            exact ⟨k, hk, hmem⟩
        simp only [hpre]

end RaygunApm
