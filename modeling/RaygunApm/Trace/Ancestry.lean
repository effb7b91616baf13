import Mathlib.Data.List.Induction
import RaygunApm.Trace.ShadowThreads

/-! # Thread ancestry

The tid of the parent in THREAD_STARTED is that of `parent_thread` of the context, which every
tracepoint event of any thread other than the tracer's own overwrites, in front of the filter, but
for the beginnings of threads. Before the first such event it is nil, and the new thread stands in
for its own parent, with a shadow thread that the filter has made and that is replaced at once. So
the parent is the creator exactly if the creator is the thread that has been seen last
(`ancestry_iff`). -/

namespace RaygunApm

/-! ## The property -/

/-- The tid in the shadow thread of a thread. -/
def TraceState.tidOf (s : TraceState) (thread : Nat) : Option UInt32 :=
  (s.threadsinfo thread).bind fun th => (s.heap th).map ThreadIds.tid

/-- One thread has created another one. -/
def TraceState.Creates (s : TraceState) (parent child : Nat) : Prop :=
  parent ≠ child ∧ ∃ v, s.vm child = some v ∧ v.creator = some parent

/-- The code of a thread is reported under this tid, whenever it is. -/
def TraceState.ReportsUnder (s : TraceState) (thread : Nat) (tid : UInt32) : Prop :=
  ∀ group reported m group' tid',
    .reported group' thread tid' ∈ (rbRgTracingHook s group thread (.code reported) m).2 → tid' = tid

/-- The parent in THREAD_STARTED is the creator: the tid is the one under which the code of the
creator is reported, and that of no other thread. -/
def AncestryCorrect (s : TraceState) (e : TraceEvent) : Prop :=
  ∀ group child tid parentTid, .threadStarted group child tid parentTid ∈ (traceStep s e).2 →
    ∀ parent own, s.Creates parent child → s.tidOf parent = some own →
      parentTid = own ∧ s.ReportsUnder parent own ∧
        ∀ thread ≠ parent, (traceStep s e).1.tidOf thread ≠ some parentTid

/-- Where a new thread passes the filter, the creator is the thread that the context remembers. -/
def CreatorSeen (s : TraceState) : TraceEvent → Prop
  | .hook group child .threadBegin _ => ¬ s.OwnThread child → ∀ c,
      s.tracecontexts group = some c → PassesFilter s c child → ∀ parent own,
        s.Creates parent child → s.tidOf parent = some own → c.parentThread = some parent
  | _ => True

/-- The tids have not been used up. -/
def Unwrapped (s : TraceState) (_ : TraceEvent) : Prop := s.threads.toNat + 2 < UInt32.size

instance (s : TraceState) (e : TraceEvent) : Decidable (Unwrapped s e) :=
  inferInstanceAs (Decidable (_ < _))

/-! ## Tids -/

/-- The shadow threads have tids of their own, from those given so far. -/
structure TraceState.Numbered (s : TraceState) : Prop where
  bounds : ∀ a ids, s.heap a = some ids → 0 < ids.tid.toNat ∧ ids.tid.toNat ≤ s.threads.toNat
  apart : ∀ a a' ids ids', s.heap a = some ids → s.heap a' = some ids' → ids.tid = ids'.tid → a = a'

variable {s s' : TraceState} {c : TraceContext} {group thread address : Nat} {tid : UInt32}

/-- The counter of the shadow threads does not wrap while there is room. -/
theorem TraceState.toNat_threads_succ (h : s.threads.toNat + 1 < UInt32.size) :
    (s.threads + 1).toNat = s.threads.toNat + 1 := by
  rw [UInt32.toNat_add]
  exact Nat.mod_eq_of_lt h

/-- The tid of a new shadow thread is larger than all before. -/
theorem TraceState.Numbered.register (h : s.Numbered) (thread address : Nat) (parentTid : UInt32)
    (hroom : s.threads.toNat + 1 < UInt32.size) :
    (s.register thread address parentTid).Numbered := by
  have hsucc := TraceState.toNat_threads_succ hroom
  -- the tids so far are at most the counter
  have hnew : ∀ a ids, s.heap a = some ids → ids.tid ≠ s.threads + 1 := by
    intro a ids hids heq
    have hle := (h.bounds a ids hids).2
    rw [heq, hsucc] at hle
    omega
  rw [TraceState.register]
  constructor
  · intro a ids hids
    dsimp only at hids ⊢
    rw [hsucc]
    rcases PartialMap.insert_eq_some_iff.mp hids with ⟨-, rfl⟩ | ⟨-, hold⟩
    · dsimp only
      rw [hsucc]
      exact ⟨Nat.succ_pos _, Nat.le_refl _⟩
    · obtain ⟨hpos, hle⟩ := h.bounds a ids hold
      exact ⟨hpos, Nat.le_succ_of_le hle⟩
  · intro a a' ids ids' hids hids' heq
    rcases PartialMap.insert_eq_some_iff.mp hids with ⟨rfl, rfl⟩ | ⟨-, hold⟩ <;>
      rcases PartialMap.insert_eq_some_iff.mp hids' with ⟨rfl, rfl⟩ | ⟨-, hold'⟩
    · rfl
    · exact absurd heq.symm (hnew a' ids' hold')
    · exact absurd heq (hnew a ids hold)
    · exact h.apart a a' ids ids' hold hold' heq

/-- Looking up a shadow thread keeps the numbers apart and counts one thread at most. -/
theorem TraceState.Numbered.rbRgThread (h : s.Numbered) (thread address : Nat)
    (hroom : s.threads.toNat + 1 < UInt32.size) :
    (rbRgThread s thread address).1.Numbered ∧
      (RaygunApm.rbRgThread s thread address).1.threads.toNat ≤ s.threads.toNat + 1 := by
  unfold RaygunApm.rbRgThread
  cases s.threadsinfo thread with
  | some th => exact ⟨h, Nat.le_succ _⟩
  | none => exact ⟨h.register thread address _ hroom, Nat.le_of_eq (TraceState.toNat_threads_succ hroom)⟩

/-- A shadow thread that is freed leaves the others as they are. -/
theorem TraceState.Numbered.free (h : s.Numbered) (thread address : Nat) :
    (s.free thread address).Numbered := by
  have hold : ∀ a ids, (s.free thread address).heap a = some ids → s.heap a = some ids :=
    fun _ _ hids => (PartialMap.erase_eq_some_iff.mp hids).2
  exact ⟨fun a ids hids => h.bounds a ids (hold a ids hids), fun a a' ids ids' hids hids' =>
    h.apart a a' ids ids' (hold a ids hids) (hold a' ids' hids')⟩

/-- The end of a thread keeps the numbers apart. -/
theorem TraceState.Numbered.rbRgThreadEnded (h : s.Numbered) (thread : Nat) (m : Memory)
    (hroom : s.threads.toNat + 1 < UInt32.size) : (rbRgThreadEnded s thread m).1.Numbered := by
  rw [rbRgThreadEnded_eq]
  exact (h.rbRgThread thread m.second hroom).1.free thread _

/-- The hook behind the filter keeps the numbers apart. -/
theorem TraceState.Numbered.handle (h : s.Numbered) (c : TraceContext) (thread th : Nat)
    (flag : TraceFlag) (m : Memory) (hroom : s.threads.toNat + 1 < UInt32.size) :
    (s.handle c thread th flag m).1.Numbered := by
  cases flag with
  | code => exact h
  | threadBegin => exact h.register thread m.second _ hroom
  | threadEnd => exact h.rbRgThreadEnded thread m hroom

/-- The hook makes two shadow threads at most. -/
theorem TraceState.Numbered.hook (h : s.Numbered) (group thread : Nat) (flag : TraceFlag)
    (m : Memory) (hroom : s.threads.toNat + 2 < UInt32.size) :
    (rbRgTracingHook s group thread flag m).1.Numbered := by
  have hcases := hookCases s group thread flag m
  generalize rbRgTracingHook s group thread flag m = result at hcases ⊢
  have hseen : ∀ c, (s.see group c thread flag).Numbered := fun _ => ⟨h.bounds, h.apart⟩
  cases hcases with
  | silent => exact h
  | filtered c => exact hseen c
  | starter c => exact (hseen c).handle _ _ _ _ _ (Nat.lt_of_succ_lt hroom)
  | member c =>
      obtain ⟨hlooked, hle⟩ := (hseen c).rbRgThread thread m.first (Nat.lt_of_succ_lt hroom)
      exact hlooked.handle _ _ _ _ _ (Nat.lt_of_le_of_lt (Nat.succ_le_succ hle) hroom)

/-- **Every event keeps the tids apart**, until they are used up. -/
theorem numbered_traceStep (h : s.Numbered) {e : TraceEvent} (hroom : Unwrapped s e) :
    (traceStep s e).1.Numbered := by
  have hentered : ∀ thread phase, (s.enter thread phase).Numbered := fun _ _ => ⟨h.bounds, h.apart⟩
  cases e with
  | noop => exact ⟨h.bounds, h.apart⟩
  | startTrace thread m =>
      rw [traceStep]
      rcases startTrace_cases (s.enter thread .running) thread m with heq | ⟨-, heq⟩
      · rw [heq]
        exact hentered _ _
      · rw [heq]
        obtain ⟨hlooked, -⟩ :=
          (hentered thread .running).rbRgThread thread m.first (Nat.lt_of_succ_lt hroom)
        exact ⟨hlooked.bounds, hlooked.apart⟩
  | endTrace thread m =>
      rw [traceStep]
      rcases endTrace_cases (s.enter thread .running) thread m with heq | ⟨_, -, heq⟩
      · rw [heq]
        exact hentered _ _
      · rw [heq]
        exact ⟨h.bounds, h.apart⟩
  | spawn thread child => exact ⟨h.bounds, h.apart⟩
  | hook group thread flag m => exact (hentered thread flag.phase).hook group thread flag m hroom
  | finish thread => exact hentered _ _

/-- A new tracer has no shadow threads to number. -/
theorem numbered_new (vm : Nat → Option VmThread) (sinkThread timerThread : Option Nat) :
    (TraceState.new vm sinkThread timerThread).Numbered := ⟨nofun, nofun⟩

/-- A thread with a tid has a live shadow thread that holds it. -/
theorem TraceState.exists_of_tidOf (htid : s.tidOf thread = some tid) :
    ∃ a ids, s.threadsinfo thread = some a ∧ s.heap a = some ids ∧ ids.tid = tid := by
  obtain ⟨a, hentry, hmap⟩ := Option.bind_eq_some_iff.mp htid
  obtain ⟨ids, hids, heq⟩ := Option.map_eq_some_iff.mp hmap
  exact ⟨a, ids, hentry, hids, heq⟩

/-- A thread in the table has a tid. -/
theorem TraceState.Tabled.tidOf_ne_none (h : s.Tabled) (hentry : s.threadsinfo thread ≠ none) :
    s.tidOf thread ≠ none := by
  obtain ⟨a, ha⟩ := Option.ne_none_iff_exists'.mp hentry
  obtain ⟨ids, hids⟩ := Option.ne_none_iff_exists'.mp (h.allocated _ _ ha)
  rw [tidOf, ha, Option.bind_some, hids]
  exact Option.some_ne_none _

/-- Two threads with the same tid are the same. -/
theorem TraceState.Numbered.tidOf_inj (h : s.Numbered) (htabled : s.Tabled) {thread' : Nat}
    (htid : s.tidOf thread = some tid) (htid' : s.tidOf thread' = some tid) : thread = thread' := by
  obtain ⟨a, ids, hentry, hids, rfl⟩ := TraceState.exists_of_tidOf htid
  obtain ⟨a', ids', hentry', hids', heq⟩ := TraceState.exists_of_tidOf htid'
  obtain rfl := h.apart a a' ids ids' hids hids' heq.symm
  exact htabled.apart thread thread' a hentry hentry'

/-- A tid in use has been given. -/
theorem TraceState.Numbered.tidOf_bounds (h : s.Numbered) (htid : s.tidOf thread = some tid) :
    0 < tid.toNat ∧ tid.toNat ≤ s.threads.toNat := by
  obtain ⟨a, ids, -, hids, rfl⟩ := TraceState.exists_of_tidOf htid
  exact h.bounds a ids hids

/-- Reading the tid through the table. -/
theorem TraceState.elim_tidAt (htid : s.tidOf thread = some tid) (m : Memory) :
    (s.threadsinfo thread).elim rgThreadOrphaned (s.tidAt m) = tid := by
  obtain ⟨a, ids, hentry, hids, rfl⟩ := TraceState.exists_of_tidOf htid
  rw [hentry, Option.elim_some, TraceState.tidAt, hids, Option.elim_some]

/-- What touches one thread only leaves the tids of the others. -/
theorem TraceState.Tabled.tidOf_of_only (h : s.Tabled) (honly : s.OnlyThread s' thread)
    {thread' : Nat} (hne : thread' ≠ thread) : s'.tidOf thread' = s.tidOf thread' := by
  rw [tidOf, tidOf, honly.others thread' hne]
  cases hentry : s.threadsinfo thread' with
  | none => rfl
  | some a =>
      have hnot : s.threadsinfo thread ≠ some a := fun hthread => hne (h.apart _ _ _ hentry hthread)
      rw [Option.bind_some, Option.bind_some, honly.blocks a (h.allocated _ _ hentry) hnot]

/-- The code of a thread is reported under the tid in its shadow thread. -/
theorem TraceState.Sound.reportsUnder (h : s.Sound) (htid : s.tidOf thread = some tid) :
    s.ReportsUnder thread tid := by
  intro group reported m group' tid' hout
  obtain ⟨a, ids, hentry, hids, rfl⟩ := TraceState.exists_of_tidOf htid
  have hcases := hookCases s group thread (.code reported) m
  generalize rbRgTracingHook s group thread (.code reported) m = result at hcases hout
  have hread : ∀ c th, th = a → .reported group' thread tid'
      ∈ ((s.see group c thread (.code reported)).handle (c.seen thread (.code reported)) thread th
        (.code reported) m).2 → tid' = ids.tid := by
    rintro c th rfl hmem
    rw [TraceState.handle] at hmem
    split at hmem
    · have htid' := (TraceOutput.reported.inj (List.mem_singleton.mp hmem)).2.2
      rw [htid', TraceState.tidAt,
        show (s.see group c thread (.code reported)).heap th = some ids from hids]
      rfl
    · cases hmem
  -- code is reported only behind the filter
  cases hcases with
  | silent => cases hout
  | filtered => cases hout
  | starter c hc _ hthread =>
      subst hthread
      -- the shadow thread in the context is the one in the table, since there is one
      obtain ⟨v, -, ⟨hcached, -⟩ | ⟨hnone, -⟩⟩ := h.cached group c hc
      · exact hread c _ (Option.some.inj (hcached.symm.trans hentry)) hout
      · rw [hnone] at hentry
        cases hentry
  | member c =>
      have hlooked : rbRgThread (s.see group c thread (.code reported)) thread m.first
          = (s.see group c thread (.code reported), a) := by
        rw [rbRgThread,
          show (s.see group c thread (.code reported)).threadsinfo thread = some a from hentry]
      rw [hlooked] at hout
      exact hread c a rfl hout

/-! ## The beginning of a thread -/

/-- The tid of the parent, once the filter has looked up the shadow thread of the new thread. -/
def TraceContext.parentTid (c : TraceContext) (looked : TraceState) (child : Nat) (m : Memory) :
    UInt32 :=
  (looked.threadsinfo (c.parentThread.getD child)).elim rgThreadOrphaned (looked.tidAt m)

/-- The parent's tid is the tid of the creator exactly if the context remembers the creator. -/
theorem TraceContext.parentTid_eq_iff {looked : TraceState} (htabled : looked.Tabled)
    (hnumbered : looked.Numbered) {parent child : Nat} (hne : parent ≠ child)
    (htid : looked.tidOf parent = some tid) (c : TraceContext) (m : Memory) :
    c.parentTid looked child m = tid ↔ c.parentThread = some parent := by
  constructor
  · intro heq
    rw [TraceContext.parentTid] at heq
    cases hentry : looked.threadsinfo (c.parentThread.getD child) with
    -- without an entry the child is an orphan, and 0 is nobody's tid
    | none =>
        rw [hentry, Option.elim_none] at heq
        have hpos := (hnumbered.tidOf_bounds htid).1
        rw [← heq] at hpos
        exact absurd hpos (by decide)
    | some a =>
        obtain ⟨ids, hids⟩ := Option.ne_none_iff_exists'.mp (htabled.allocated _ _ hentry)
        rw [hentry, Option.elim_some, TraceState.tidAt, hids, Option.elim_some] at heq
        have hfound : looked.tidOf (c.parentThread.getD child) = some tid := by
          rw [TraceState.tidOf, hentry, Option.bind_some, hids, Option.map_some, heq]
        -- the thread with the tid of the parent is the parent
        have hsame := hnumbered.tidOf_inj htabled hfound htid
        cases hparent : c.parentThread with
        | none =>
            rw [hparent] at hsame
            exact absurd hsame.symm hne
        | some thread =>
            rw [hparent] at hsame
            exact congrArg some hsame
  · intro hparent
    rw [TraceContext.parentTid, hparent]
    exact TraceState.elim_tidAt htid m

/-- The tid in a new shadow thread. -/
theorem TraceState.tidOf_register (s : TraceState) (thread address : Nat) (parentTid : UInt32) :
    (s.register thread address parentTid).tidOf thread = some (s.threads + 1) := by
  rw [tidOf, register]
  dsimp only
  rw [Function.update_self, Option.bind_some, Function.update_self, Option.map_some]

/-- A new thread does not take the tid of its creator, nor has another thread it. -/
theorem TraceState.Numbered.register_tidOf_ne (h : s.Numbered) (htabled : s.Tabled)
    (hroom : s.threads.toNat + 1 < UInt32.size) (hfree : s.heap address = none) {parent child : Nat}
    (htid : s.tidOf parent = some tid) :
    ∀ thread ≠ parent, (s.register child address tid).tidOf thread ≠ some tid := by
  intro thread hne hsame
  by_cases hchild : thread = child
  · subst hchild
    rw [TraceState.tidOf_register] at hsame
    have hlast := (h.tidOf_bounds htid).2
    rw [← Option.some.inj hsame, TraceState.toNat_threads_succ hroom] at hlast
    omega
  · rw [htabled.tidOf_of_only (s.onlyThread_register child tid hfree) hchild] at hsame
    exact hne (h.tidOf_inj htabled hsame htid)

/-- What is true in every run of events that can occur. -/
structure TraceState.Traceable (s : TraceState) : Prop where
  sound : s.Sound
  numbered : s.Numbered

/-- No thread begins, so there is nothing to attribute. -/
theorem ancestryCorrect_of_not_begin {e : TraceEvent}
    (h : ∀ group child tid parentTid, .threadStarted group child tid parentTid ∉ (traceStep s e).2) :
    AncestryCorrect s e :=
  fun group child tid parentTid hout => absurd hout (h group child tid parentTid)

/-- **A thread begins**: its parent is its creator exactly if the context remembers the creator. -/
theorem ancestryCorrect_begin_iff (h : s.Traceable) {child : Nat} {m : Memory}
    (hpossible : Possible s (.hook group child .threadBegin m))
    (hroom : s.threads.toNat + 2 < UInt32.size) :
    AncestryCorrect s (.hook group child .threadBegin m)
      ↔ CreatorSeen s (.hook group child .threadBegin m) := by
  obtain ⟨hentered, -, -⟩ := h.sound.hookEffect hpossible
  obtain ⟨⟨v, hv, hphase⟩, hfree⟩ := hpossible
  have hcases := hookCases (s.enter child .fresh) group child .threadBegin m
  have hstep : traceStep s (.hook group child .threadBegin m)
      = rbRgTracingHook (s.enter child .fresh) group child .threadBegin m := rfl
  have hpassesIff : ∀ c, PassesFilter (s.enter child .fresh) c child ↔ PassesFilter s c child := by
    intro c
    rw [PassesFilter, PassesFilter, (s.keeps_enter child .fresh).thread_group]
  unfold AncestryCorrect
  rw [hstep]
  generalize rbRgTracingHook (s.enter child .fresh) group child .threadBegin m = result
    at hcases ⊢
  cases hcases with
  | silent hwhy =>
      -- an event of a tracer's thread, or of a group without a trace, is dropped
      refine iff_of_true (by simp) fun hown c hc => ?_
      rcases hwhy with hnone | hown'
      · rw [show s.tracecontexts group = none from hnone] at hc
        cases hc
      · exact absurd hown' hown
  | filtered c hc hown hnot =>
      refine iff_of_true (by simp) fun _ c' hc' hpasses => ?_
      obtain rfl := Option.some.inj (hc'.symm.trans hc)
      exact absurd ((hpassesIff c').mpr hpasses) hnot
  | starter c hc hown hthread =>
      -- a thread that has not run has not started a trace
      obtain ⟨v', hv', hcached⟩ := h.sound.cached group c hc
      rw [← hthread, hv] at hv'
      obtain rfl := Option.some.inj hv'
      rw [hphase] at hcached
      rcases hcached with ⟨-, hnot⟩ | ⟨-, hended⟩
      · exact absurd rfl hnot
      · simp at hended
  | member c hc hown hother hpasses =>
      -- the filter looks up a shadow thread for the child, and the handler makes a second one
      have hseen : ((s.enter child .fresh).see group c child .threadBegin).Tabled :=
        ⟨h.sound.tabled.allocated, h.sound.tabled.apart⟩
      have hseen' : ((s.enter child .fresh).see group c child .threadBegin).Numbered :=
        ⟨h.numbered.bounds, h.numbered.apart⟩
      obtain ⟨hlooked, honly, -, hblocks⟩ := hseen.rbRgThread child hfree.first
      obtain ⟨hlooked', hle⟩ := hseen'.rbRgThread child m.first (Nat.lt_of_succ_lt hroom)
      have hsecond : (rbRgThread ((s.enter child .fresh).see group c child .threadBegin) child
          m.first).1.heap m.second = none := by
        rw [hblocks _ hfree.apart.symm]
        exact hfree.second
      generalize rbRgThread ((s.enter child .fresh).see group c child .threadBegin) child m.first
        = looked at hlooked honly hlooked' hle hsecond ⊢
      have hothers : ∀ thread ≠ child, looked.1.tidOf thread = s.tidOf thread :=
        fun thread hne => hseen.tidOf_of_only honly hne
      have hresult : looked.1.handle (c.seen child .threadBegin) child looked.2 .threadBegin m
          = (looked.1.register child m.second (c.parentTid looked.1 child m),
            [.threadStarted c.thgroup child (looked.1.threads + 1)
              (c.parentTid looked.1 child m)]) := rfl
      rw [hresult]
      constructor
      · intro hcorrect _ c' hc' _ parent own hcreates htid
        obtain rfl := Option.some.inj (hc'.symm.trans hc)
        obtain ⟨heq, -⟩ := hcorrect _ _ _ _ (List.mem_singleton.mpr rfl) parent own hcreates htid
        rw [← hothers parent hcreates.1] at htid
        exact (TraceContext.parentTid_eq_iff hlooked hlooked' hcreates.1 htid c' m).mp heq
      · intro hcreator group' child' tid parentTid hout parent own hcreates htid
        obtain ⟨-, rfl, -, rfl⟩ := TraceOutput.threadStarted.inj (List.mem_singleton.mp hout)
        have hparent := hcreator hown c hc ((hpassesIff c).mp hpasses) parent own hcreates htid
        have htid' : looked.1.tidOf parent = some own := by rw [hothers parent hcreates.1, htid]
        have heq :=
          (TraceContext.parentTid_eq_iff hlooked hlooked' hcreates.1 htid' c m).mpr hparent
        rw [heq]
        exact ⟨rfl, h.sound.reportsUnder htid, hlooked'.register_tidOf_ne hlooked
          (Nat.lt_of_le_of_lt (Nat.succ_le_succ hle) hroom) hsecond htid'⟩

/-- Behind the filter, only the beginning of a thread emits THREAD_STARTED. -/
theorem TraceState.not_started_of_handle (s : TraceState) (c : TraceContext) (thread th : Nat)
    {flag : TraceFlag} (hflag : flag ≠ .threadBegin) (m : Memory) (group child : Nat)
    (tid parentTid : UInt32) :
    .threadStarted group child tid parentTid ∉ (s.handle c thread th flag m).2 := by
  cases flag with
  | code => simp [TraceState.handle]
  | threadBegin => exact absurd rfl hflag
  | threadEnd => simp [TraceState.handle]

/-- **Every event**: no parent is wrong exactly if the context remembers the creator of a thread
that begins. -/
theorem ancestryCorrect_iff (h : s.Traceable) {e : TraceEvent} (hpossible : Possible s e)
    (hroom : Unwrapped s e) : AncestryCorrect s e ↔ CreatorSeen s e := by
  cases e with
  | startTrace thread m =>
      refine iff_of_true (ancestryCorrect_of_not_begin fun group child tid parentTid => ?_) trivial
      rw [traceStep]
      rcases startTrace_cases (s.enter thread .running) thread m with heq | ⟨-, heq⟩ <;> simp [heq]
  | endTrace thread m =>
      refine iff_of_true (ancestryCorrect_of_not_begin fun group child tid parentTid => ?_) trivial
      rw [traceStep]
      rcases endTrace_cases (s.enter thread .running) thread m with heq | ⟨_, -, heq⟩ <;> simp [heq]
  -- the other events announce no thread
  | hook group thread flag m =>
      by_cases hflag : flag = .threadBegin
      · subst hflag
        exact ancestryCorrect_begin_iff h hpossible hroom
      · have hseen : CreatorSeen s (.hook group thread flag m) := by
          cases flag with
          | threadBegin => exact absurd rfl hflag
          | _ => trivial
        refine iff_of_true (ancestryCorrect_of_not_begin fun group' child tid parentTid => ?_) hseen
        rw [traceStep]
        have hcases := hookCases (s.enter thread flag.phase) group thread flag m
        generalize rbRgTracingHook (s.enter thread flag.phase) group thread flag m = result
          at hcases ⊢
        cases hcases with
        | silent => exact List.not_mem_nil
        | filtered => exact List.not_mem_nil
        | starter => exact TraceState.not_started_of_handle _ _ _ _ hflag _ _ _ _ _
        | member => exact TraceState.not_started_of_handle _ _ _ _ hflag _ _ _ _ _
  | _ => exact iff_of_true (ancestryCorrect_of_not_begin (by simp [traceStep])) trivial

/-! ## The thread that a context has seen last -/

/-- The thread that the context of a group has seen last, behind an event. `Own` are the tracer's
own threads. -/
def TraceEvent.lastSeen (Own : Nat → Prop) [DecidablePred Own] (group : Nat) (last : Option Nat) :
    TraceEvent → Option Nat
  | .startTrace _ m => if m.group = group then none else last
  | .hook group' thread flag _ =>
      if group' = group ∧ flag ≠ .threadBegin ∧ ¬ Own thread then some thread else last
  | _ => last

/-- The contexts remember these threads. -/
def TraceState.Remembers (s : TraceState) (last : Nat → Option Nat) : Prop :=
  ∀ group c, s.tracecontexts group = some c → c.parentThread = last group

/-- An event of the hook keeps the memory of the threads that have run last. -/
theorem TraceState.Remembers.hook {last : Nat → Option Nat} (h : s.Remembers last) (group thread : Nat)
    (flag : TraceFlag) (m : Memory) (Own : Nat → Prop) [DecidablePred Own]
    (hown : ∀ thread, s.OwnThread thread ↔ Own thread) :
    (rbRgTracingHook s group thread flag m).1.Remembers fun group' =>
      (TraceEvent.hook group thread flag m).lastSeen Own group' (last group') := by
  -- what the hook does to the contexts is to see the thread, in front of the filter
  have hsee : ∀ c, s.tracecontexts group = some c → ¬ s.OwnThread thread →
      ∀ s' : TraceState, s'.tracecontexts = (s.see group c thread flag).tracecontexts →
      s'.Remembers fun group' =>
        (TraceEvent.hook group thread flag m).lastSeen Own group' (last group') := by
    intro c hc hother s' hcontexts group' c' hc'
    rw [hcontexts, TraceState.see] at hc'
    dsimp only [TraceEvent.lastSeen]
    rcases PartialMap.insert_eq_some_iff.mp hc' with ⟨rfl, rfl⟩ | ⟨hne, hold⟩
    · have hother' : ¬ Own thread := (hown thread).not.mp hother
      by_cases hflag : flag = .threadBegin
      · rw [if_neg fun hsees => hsees.2.1 hflag, TraceContext.seen, if_pos hflag]
        exact h _ c hc
      · rw [if_pos ⟨rfl, hflag, hother'⟩, TraceContext.seen, if_neg hflag]
    · rw [if_neg fun hsees => hne hsees.1.symm]
      exact h group' c' hold
  have hcases := hookCases s group thread flag m
  generalize rbRgTracingHook s group thread flag m = result at hcases
  cases hcases with
  | silent hnone =>
      intro group' c' hc'
      dsimp only [TraceEvent.lastSeen]
      rw [if_neg]
      · exact h group' c' hc'
      · rintro ⟨rfl, -, hother⟩
        rcases hnone with hnone | hown'
        · rw [hnone] at hc'
          cases hc'
        · exact hother ((hown thread).mp hown')
  | filtered c hc hother => exact hsee c hc hother _ rfl
  | starter c hc hother =>
      exact hsee c hc hother _ ((s.see group c thread flag).handle_tables (c.seen thread flag) thread
        c.rgThread flag m).2
  | member c hc hother =>
      have hlooked := rbRgThread_tables (s.see group c thread flag) thread m.first
      have hhandled := (rbRgThread (s.see group c thread flag) thread m.first).1.handle_tables
        (c.seen thread flag) thread (rbRgThread (s.see group c thread flag) thread m.first).2 flag m
      exact hsee c hc hother _ (hhandled.2.trans hlooked.2)

/-- **Every event** moves the contexts on to the thread that they have seen last. -/
theorem TraceState.Remembers.step {last : Nat → Option Nat} (h : s.Remembers last) {e : TraceEvent}
    (hpossible : Possible s e) (Own : Nat → Prop) [DecidablePred Own]
    (hown : ∀ thread, s.OwnThread thread ↔ Own thread) :
    (traceStep s e).1.Remembers fun group => e.lastSeen Own group (last group) := by
  cases e with
  | startTrace thread m =>
      have hnone : (s.enter thread .running).tracecontexts m.group = none := hpossible.2.2.1
      intro group c hc
      rw [traceStep] at hc
      dsimp only [TraceEvent.lastSeen]
      rcases startTrace_cases (s.enter thread .running) thread m with heq | ⟨-, heq⟩
      · rw [heq] at hc
        rw [if_neg]
        · exact h group c hc
        · rintro rfl
          rw [hnone] at hc
          cases hc
      · rw [heq] at hc
        rcases PartialMap.insert_eq_some_iff.mp hc with ⟨rfl, rfl⟩ | ⟨hne, hold⟩
        · rw [if_pos rfl]
        · rw [if_neg (Ne.symm hne)]
          exact h group c hold
  | endTrace thread m =>
      intro group c hc
      rw [traceStep] at hc
      rcases endTrace_cases (s.enter thread .running) thread m with heq | ⟨_, -, heq⟩
      · rw [heq] at hc
        exact h group c hc
      · rw [heq] at hc
        exact h group c (TraceState.context_of_ended (s := s.enter thread .running) hc)
  | hook group thread flag m =>
      have hentered : (s.enter thread flag.phase).Remembers last := h
      exact hentered.hook group thread flag m Own hown
  | _ => exact h

/-- **`parent_thread` is the thread of the last event** but a THREAD_BEGIN that the tracepoint of
the context has seen since `start_trace` made the context, of any thread but the tracer's own. -/
theorem parentThread_eq_lastSeen (vm : Nat → Option VmThread) (sinkThread timerThread : Option Nat)
    {events : List TraceEvent}
    (hpossible : Mealy.AllSteps traceStep Possible (.new vm sinkThread timerThread) events) :
    let start := TraceState.new vm sinkThread timerThread
    (Mealy.run traceStep start events).1.Remembers fun group =>
      events.foldl (TraceEvent.lastSeen start.OwnThread group) none := by
  intro start
  -- over the events, from the last one
  induction events using List.reverseRecOn with
  | nil =>
      intro group c hc
      cases hc
  | append_singleton events e ih =>
      obtain ⟨hbefore, hlast⟩ := Mealy.allSteps_append.mp hpossible
      have hown : ∀ thread, (Mealy.run traceStep start events).1.OwnThread thread
          ↔ start.OwnThread thread := fun thread =>
        Mealy.run_invariant (P := fun s' => s'.OwnThread thread ↔ start.OwnThread thread)
          (fun s' e h => (ownThread_traceStep s' e thread).trans h) Iff.rfl events
      have hstep := (ih hbefore).step hlast.1 start.OwnThread hown
      rw [Mealy.run_append, Mealy.run_singleton]
      simp only [List.foldl_append, List.foldl_cons, List.foldl_nil]
      exact hstep

/-! ## The law -/

/-- **Thread ancestry is correct**, in a run that does not use up the tids, if and only if, whenever
a thread begins in a trace, its creator is the thread that the context has seen last. -/
theorem ancestry_iff (vm : Nat → Option VmThread) (sinkThread timerThread : Option Nat)
    {events : List TraceEvent}
    (hpossible : Mealy.AllSteps traceStep Possible (.new vm sinkThread timerThread) events)
    (hroom : Mealy.AllSteps traceStep Unwrapped (.new vm sinkThread timerThread) events) :
    Mealy.AllSteps traceStep AncestryCorrect (.new vm sinkThread timerThread) events ↔
      Mealy.AllSteps traceStep CreatorSeen (.new vm sinkThread timerThread) events :=
  Mealy.allSteps_congr (P := TraceState.Traceable) (D := fun s e => Possible s e ∧ Unwrapped s e)
    (fun _ _ h he => ⟨sound_traceStep h.sound he.1, numbered_traceStep h.numbered he.2⟩)
    (fun _ _ h he => ancestryCorrect_iff h he.1 he.2)
    ⟨sound_new vm sinkThread timerThread, numbered_new vm sinkThread timerThread⟩
    (hpossible.and hroom)

/-- A thread that traces runs code and creates a thread, which begins when another thread has run.
-/
def creation (last : Nat) : List TraceEvent :=
  [.startTrace 0 (memoryAt 1 10), .hook 1 0 (.code true) (memoryAt 0 20), .spawn 0 2,
    .hook 1 last (.code true) (memoryAt 0 30), .hook 1 2 .threadBegin (memoryAt 0 40)]

/-- The creation can occur, whichever thread has run last. -/
theorem possible_creation {last : Nat} (hlast : last < 2) :
    Mealy.AllSteps traceStep Possible (.new twoThreads none none) (creation last) := by
  refine ⟨⟨⟨_, rfl, .inr rfl⟩, by decide, rfl, ?_, ⟨rfl, rfl, by decide⟩⟩,
    ⟨⟨_, rfl, .inr rfl⟩, ⟨rfl, rfl, by decide⟩⟩, ⟨⟨_, rfl, .inr rfl⟩, ?_, ⟨rfl, ?_⟩⟩, ?_, ?_, trivial⟩
  · intro thread' v hv
    obtain ⟨-, hv⟩ := Option.ite_none_right_eq_some.mp hv
    obtain rfl := Option.some.inj hv
    decide
  · intro v hv
    cases hv
  · intro group c hc
    rcases group with _ | _ | n
    · cases hc
    · obtain rfl := Option.some.inj hc
      decide
    · cases hc
  · rcases last with _ | _ | n
    · exact ⟨⟨_, rfl, .inr rfl⟩, ⟨rfl, rfl, by decide⟩⟩
    · exact ⟨⟨_, rfl, .inr rfl⟩, ⟨rfl, rfl, by decide⟩⟩
    · omega
  · rcases last with _ | _ | n
    · exact ⟨⟨_, rfl, rfl⟩, ⟨rfl, rfl, by decide⟩⟩
    · exact ⟨⟨_, rfl, rfl⟩, ⟨rfl, rfl, by decide⟩⟩
    · omega

/-- The parent is right where the creator itself has run last. -/
theorem ancestry_creation :
    Mealy.AllSteps traceStep AncestryCorrect (.new twoThreads none none) (creation 0) := by
  refine (ancestry_iff twoThreads none none (possible_creation (by decide)) ?_).mpr ?_
  · decide
  · refine ⟨trivial, trivial, trivial, trivial, ?_, trivial⟩
    intro _ c hc _ parent own hcreates _
    obtain ⟨-, v, hv, hcreator⟩ := hcreates
    obtain rfl := Option.some.inj hv
    obtain rfl := Option.some.inj hc
    exact hcreator

/-- The parent is wrong where a thread outside the trace has run last: the new thread is an orphan.
-/
theorem not_ancestry_creation :
    Mealy.AllSteps traceStep Possible (.new twoThreads none none) (creation 1) ∧
      ¬ Mealy.AllSteps traceStep AncestryCorrect (.new twoThreads none none) (creation 1) := by
  refine ⟨possible_creation (by decide), fun h => ?_⟩
  have hlast := h.2.2.2.2.1 1 2 3 0 (List.mem_singleton.mpr rfl) 0 1 ⟨by decide, _, rfl, rfl⟩ rfl
  exact absurd hlast.1 (by decide)

end RaygunApm
