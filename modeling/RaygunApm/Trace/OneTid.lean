import Mathlib.Data.Finset.Card
import RaygunApm.Trace.ThreadIds

/-! # One thread, one tid

The filter of the hook looks up the shadow thread of a thread that begins, and so makes one, before
`rb_rg_thread_started` makes another one: the thread takes a second tid, its entry is overwritten,
and the shadow thread that was there is lost. A lookup gives a second tid to a thread whose end has
been handled, too. Apart from these two cases every thread has one tid and one shadow thread
(`oneTidEach_iff`). -/

namespace RaygunApm

/-! ## What the tracer hands out -/

/-- A thread of the VM: its object, and how many threads have had this object before. -/
structure Incarnation where
  object : Nat
  generation : Nat
  deriving DecidableEq

/-- A tid that a thread has been given. -/
structure Handout where
  receiver : Incarnation
  tid : Nat
  deriving DecidableEq

/-- The tracer, and what it has done so far. -/
structure ThreadLog where
  tracer : TraceState
  /-- How many threads have had an object, the present one not included. -/
  generation : Nat → Nat
  /-- The tids that have been given, each with the thread that it has been given to. -/
  handed : List Handout
  /-- The threads that the tracer has observed, as often as it has. -/
  observed : List Incarnation

/-- Nothing has been handed out by a new tracer. -/
def ThreadLog.new (vm : Nat → Option VmThread) (sinkThread timerThread : Option Nat) : ThreadLog where
  tracer := .new vm sinkThread timerThread
  generation _ := 0
  handed := []
  observed := []

/-- The thread that has this object now. -/
def ThreadLog.current (l : ThreadLog) (thread : Nat) : Incarnation := ⟨thread, l.generation thread⟩

/-- The object of a dead thread becomes another thread. -/
def TidEvent.generation (generation : Nat → Nat) : TidEvent → Nat → Nat
  | .trace (.spawn _ child) => Function.update generation child (generation child + 1)
  | _ => generation

/-- A tid is the value of `tracer->threads` behind one of its increments, so an event hands out the
values that the counter goes through. -/
def newTids (s s' : TraceState) : List Nat :=
  List.range' (s.threads.toNat + 1) (s'.threads.toNat - s.threads.toNat)

/-- Record that a thread has been observed on the way to a state: what has been handed out has been
handed out to it. -/
def ThreadLog.record (l : ThreadLog) (who : Option Nat) (s : TraceState) : ThreadLog :=
  let receivers := who.toList.map l.current
  { l with
    tracer := s
    handed := l.handed ++ receivers.flatMap fun receiver =>
      (newTids l.tracer s).map (Handout.mk receiver)
    observed := l.observed ++ receivers }

/-- The objects that become new threads in an event. -/
def ThreadLog.renew (l : ThreadLog) (e : TidEvent) : ThreadLog :=
  { l with generation := e.generation l.generation }

/-- One event, and what the tracer emits. -/
def logStep (l : ThreadLog) (e : TidEvent) : ThreadLog × List TraceOutput :=
  ((l.renew e).record (e.observed l.tracer) (tidStep l.tracer e),
    match e with
    | .trace e => (traceStep l.tracer e).2
    | .getThreadId _ _ _ => [])

/-! ## The property -/

/-- **One thread, one tid.** -/
structure OneTidEach (l : ThreadLog) : Prop where
  /-- Threads in the table have tids of their own. -/
  distinct : ∀ thread thread' tid, l.tracer.tidOf thread = some tid →
    l.tracer.tidOf thread' = some tid → thread = thread'
  /-- No tid is handed out twice. -/
  never_twice : (l.handed.map Handout.tid).Nodup
  /-- No thread is given a second tid, with a second shadow thread. -/
  one : (l.handed.map Handout.receiver).Nodup
  /-- The tid in the shadow thread of a thread is the one that it has been given. -/
  own : ∀ thread tid, l.tracer.tidOf thread = some tid → ⟨l.current thread, tid.toNat⟩ ∈ l.handed
  /-- A thread that has been given one keeps its shadow thread while it lives. -/
  kept : ∀ thread, l.tracer.Running thread → l.current thread ∈ l.handed.map Handout.receiver →
    l.tracer.tidOf thread ≠ none
  /-- No shadow thread is orphaned: all that are allocated are in the table. -/
  reachable : ∀ address, l.tracer.heap address ≠ none →
    ∃ thread, l.tracer.threadsinfo thread = some address
  /-- `tracer->threads` is the number of the threads that have been observed. -/
  counted : l.tracer.threads.toNat = l.observed.toFinset.card

/-- In all states of the run. -/
def OneTidThroughout (l : ThreadLog) (events : List TidEvent) : Prop :=
  ∀ before, before <+: events → OneTidEach (Mealy.run logStep l before).1

/-- The thread has been given a tid, and its entry has been taken out. -/
def ThreadLog.Dropped (l : ThreadLog) (thread : Nat) : Prop :=
  l.tracer.threadsinfo thread = none ∧ l.current thread ∈ l.handed.map Handout.receiver

instance (l : ThreadLog) (thread : Nat) : Decidable (l.Dropped thread) :=
  inferInstanceAs (Decidable (_ ∧ _))

/-- No beginning of a thread is handled, and no thread whose entry has been taken out is looked up.
-/
def SeenOnce (l : ThreadLog) : TidEvent → Prop
  | .trace (.hook group thread .threadBegin _) => ¬ l.tracer.Handles group thread
  | .trace (.hook group thread .threadEnd _) => l.tracer.Handles group thread → ¬ l.Dropped thread
  | .getThreadId _ target _ => ¬ l.Dropped target
  | _ => True

/-- The counter has not wrapped around. -/
def CounterRises (l : ThreadLog) (e : TidEvent) : Prop :=
  l.tracer.threads ≤ (tidStep l.tracer e).threads

instance (l : ThreadLog) (e : TidEvent) : Decidable (CounterRises l e) :=
  inferInstanceAs (Decidable (_ ≤ _))

variable {s s' : TraceState} {l : ThreadLog} {thread address : Nat}

/-! ## The counter -/

/-- A counter that has risen has not wrapped around. -/
theorem UInt32.toNat_succ_of_le {n : UInt32} (h : n ≤ n + 1) : n.toNat + 1 < UInt32.size := by
  by_contra hlast
  have hwrap : (n + 1).toNat = 0 := by
    rw [UInt32.toNat_add]
    have hlt := n.toNat_lt_size
    show (n.toNat + 1) % UInt32.size = 0
    rw [show n.toNat + 1 = UInt32.size by omega, Nat.mod_self]
  have hle := UInt32.le_iff_toNat_le.mp h
  rw [hwrap] at hle
  have hsize : UInt32.size = 4294967296 := rfl
  omega

/-- A counter that has risen by two has not wrapped around. -/
theorem UInt32.toNat_succ_succ_of_le {n : UInt32} (h : n ≤ n + 1 + 1) :
    (n + 1 + 1).toNat = n.toNat + 2 := by
  have hle := UInt32.le_iff_toNat_le.mp h
  have hlt := n.toNat_lt_size
  have hsize : UInt32.size = 4294967296 := rfl
  rw [UInt32.toNat_add, UInt32.toNat_add] at hle ⊢
  change n.toNat ≤ ((n.toNat + 1) % 4294967296 + 1) % 4294967296 at hle
  show ((n.toNat + 1) % 4294967296 + 1) % 4294967296 = _
  omega

/-- Where the counter stays, no tid is new. -/
theorem newTids_of_eq (h : s'.threads = s.threads) : newTids s s' = [] := by
  rw [newTids, h, Nat.sub_self]
  rfl

/-- Where the counter is one higher, its value is the new tid. -/
theorem newTids_of_succ (h : s'.threads.toNat = s.threads.toNat + 1) :
    newTids s s' = [s.threads.toNat + 1] := by
  rw [newTids, h, Nat.add_sub_cancel_left]
  rfl

/-! ## The books -/

/-- What has been handed out: the tids in order, to a thread each, and only to those observed. -/
structure ThreadLog.Booked (l : ThreadLog) : Prop where
  tids : l.handed.map Handout.tid = List.range' 1 l.tracer.threads.toNat
  one : (l.handed.map Handout.receiver).Nodup
  past : ∀ who ∈ l.handed.map Handout.receiver, who.generation ≤ l.generation who.object
  seen : ∀ who, who ∈ l.observed ↔ who ∈ l.handed.map Handout.receiver

/-- A thread that has a tid is observed again. -/
theorem ThreadLog.Booked.kept (h : l.Booked) {who : Option Nat}
    (hthreads : s'.threads = l.tracer.threads)
    (hwho : ∀ thread ∈ who, l.current thread ∈ l.handed.map Handout.receiver) :
    (l.record who s').Booked ∧ (l.record who s').handed = l.handed := by
  have hhanded : (l.record who s').handed = l.handed := by
    cases who <;> simp [record, newTids_of_eq hthreads]
  refine ⟨⟨?_, ?_, ?_, ?_⟩, hhanded⟩
  · rw [hhanded, h.tids]
    exact congrArg (fun n => List.range' 1 n.toNat) hthreads.symm
  · rw [hhanded]
    exact h.one
  · rw [hhanded]
    exact h.past
  · intro other
    rw [hhanded, ← h.seen]
    constructor
    · intro hother
      rcases List.mem_append.mp hother with hold | hnew
      · exact hold
      · obtain ⟨thread, hthread, rfl⟩ := List.mem_map.mp hnew
        exact (h.seen _).mpr (hwho thread (Option.mem_toList.mp hthread))
    · exact fun hold => List.mem_append_left _ hold

/-- A thread is given the next tid. -/
theorem ThreadLog.Booked.hand (h : l.Booked) (hthreads : s'.threads.toNat = l.tracer.threads.toNat + 1)
    (hnew : l.current thread ∉ l.handed.map Handout.receiver) :
    (l.record (some thread) s').Booked ∧ (l.record (some thread) s').handed
      = l.handed ++ [⟨l.current thread, l.tracer.threads.toNat + 1⟩] := by
  have hhanded : (l.record (some thread) s').handed
      = l.handed ++ [⟨l.current thread, l.tracer.threads.toNat + 1⟩] := by
    simp [record, newTids_of_succ hthreads]
  refine ⟨⟨?_, ?_, ?_, ?_⟩, hhanded⟩
  · rw [hhanded, List.map_append, h.tids]
    show _ = List.range' 1 s'.threads.toNat
    rw [hthreads, List.range'_concat, Nat.one_mul, Nat.add_comm 1]
    rfl
  · rw [hhanded, List.map_append]
    exact List.nodup_append_comm.mp (List.nodup_cons.mpr ⟨hnew, h.one⟩)
  · rw [hhanded, List.map_append]
    intro who hwho
    rcases List.mem_append.mp hwho with hold | hlast
    · exact h.past who hold
    · obtain rfl := List.mem_singleton.mp hlast
      exact Nat.le_refl _
  · intro other
    rw [hhanded, List.map_append, List.mem_append, ← h.seen]
    exact List.mem_append

/-- The counter of the shadow threads is the number of threads observed. -/
theorem ThreadLog.Booked.counted (h : l.Booked) :
    l.tracer.threads.toNat = l.observed.toFinset.card := by
  have hset : l.observed.toFinset = (l.handed.map Handout.receiver).toFinset := by
    ext who
    rw [List.mem_toFinset, List.mem_toFinset, h.seen]
  rw [hset, List.toFinset_card_of_nodup h.one, List.length_map, ← List.length_map Handout.tid,
    h.tids, List.length_range']

/-- The books agree with the table. -/
structure ThreadLog.Accounted (l : ThreadLog) : Prop where
  booked : l.Booked
  tabled : l.tracer.Tabled
  numbered : l.tracer.Numbered
  reachable : ∀ address, l.tracer.heap address ≠ none →
    ∃ thread, l.tracer.threadsinfo thread = some address
  own : ∀ thread tid, l.tracer.tidOf thread = some tid → ⟨l.current thread, tid.toNat⟩ ∈ l.handed

/-- With the same tables threads have the same tids. -/
theorem TraceState.SameTables.tidOf (h : s.SameTables s') (thread : Nat) :
    s'.tidOf thread = s.tidOf thread := by
  rw [TraceState.tidOf, TraceState.tidOf, h.threadsinfo, h.heap]

/-- The same tables are well formed alike. -/
theorem TraceState.SameTables.tabled (h : s.SameTables s') (htabled : s.Tabled) : s'.Tabled := by
  constructor
  · rw [h.threadsinfo, h.heap]
    exact htabled.allocated
  · rw [h.threadsinfo]
    exact htabled.apart

/-- The same tables are numbered alike. -/
theorem TraceState.SameTables.numbered (h : s.SameTables s') (hnumbered : s.Numbered) :
    s'.Numbered := by
  constructor
  · rw [h.heap, h.threads]
    exact hnumbered.bounds
  · rw [h.heap]
    exact hnumbered.apart

/-- The books agree with what they record, where a thread that has a tid is observed again. -/
theorem ThreadLog.Accounted.kept (h : l.Accounted) {who : Option Nat} (hsame : l.tracer.SameTables s')
    (hwho : ∀ thread ∈ who, l.current thread ∈ l.handed.map Handout.receiver) :
    (l.record who s').Accounted := by
  obtain ⟨hbooked, hhanded⟩ := h.booked.kept hsame.threads hwho
  refine ⟨hbooked, hsame.tabled h.tabled, hsame.numbered h.numbered, ?_, ?_⟩
  · intro a ha
    obtain ⟨thread, hentry⟩ := h.reachable a (hsame.heap ▸ ha)
    exact ⟨thread, (congrFun hsame.threadsinfo thread).trans hentry⟩
  · intro thread tid htid
    rw [hhanded]
    exact h.own thread tid ((hsame.tidOf thread).symm.trans htid)

/-- Where a thread gets a shadow thread. -/
theorem ThreadLog.Accounted.made (h : l.Accounted) {parentTid : UInt32}
    (hfree : l.tracer.heap address = none)
    (hsame : (l.tracer.register thread address parentTid).SameTables s')
    (hroom : l.tracer.threads.toNat + 1 < UInt32.size)
    (hentry : l.tracer.threadsinfo thread = none)
    (hnew : l.current thread ∉ l.handed.map Handout.receiver) :
    (l.record (some thread) s').Accounted := by
  have hsucc := TraceState.toNat_threads_succ hroom
  have hthreads : s'.threads.toNat = l.tracer.threads.toNat + 1 := by
    rw [hsame.threads]
    exact hsucc
  obtain ⟨hbooked, hhanded⟩ := h.booked.hand hthreads hnew
  refine ⟨hbooked, hsame.tabled (h.tabled.register thread parentTid hfree),
    hsame.numbered (h.numbered.register thread address parentTid hroom), ?_, ?_⟩
  · intro a ha
    change s'.heap a ≠ none at ha
    rw [hsame.heap, TraceState.register] at ha
    show ∃ thread', s'.threadsinfo thread' = some a
    rw [hsame.threadsinfo, TraceState.register]
    dsimp only at ha ⊢
    by_cases hnewest : a = address
    · exact ⟨thread, by rw [Function.update_self, hnewest]⟩
    · rw [Function.update_of_ne hnewest] at ha
      obtain ⟨thread', hthread'⟩ := h.reachable a ha
      -- the thread had no entry, so the one found is of another thread
      have hne : thread' ≠ thread := by
        rintro rfl
        rw [hentry] at hthread'
        cases hthread'
      exact ⟨thread', by rw [Function.update_of_ne hne, hthread']⟩
  · intro thread' tid htid
    rw [hhanded]
    have htid' := (hsame.tidOf thread').symm.trans htid
    by_cases hthread : thread' = thread
    · subst hthread
      rw [TraceState.tidOf_register] at htid'
      obtain rfl := Option.some.inj htid'
      rw [hsucc]
      exact List.mem_append_right _ (List.mem_singleton.mpr rfl)
    · rw [h.tabled.tidOf_of_only (l.tracer.onlyThread_register thread parentTid hfree) hthread] at htid'
      exact List.mem_append_left _ (h.own thread' tid htid')

/-- A thread that has a shadow thread has been given a tid. -/
theorem ThreadLog.Accounted.handed_of_entry (h : l.Accounted)
    (hentry : l.tracer.threadsinfo thread ≠ none) :
    l.current thread ∈ l.handed.map Handout.receiver := by
  obtain ⟨tid, htid⟩ := Option.ne_none_iff_exists'.mp (h.tabled.tidOf_ne_none hentry)
  exact List.mem_map_of_mem (h.own thread tid htid)

/-- Where the shadow thread of a thread is freed. -/
theorem ThreadLog.Accounted.freed (h : l.Accounted) (hentry : l.tracer.threadsinfo thread = some address)
    (hsame : (l.tracer.free thread address).SameTables s') : (l.record (some thread) s').Accounted := by
  have honly := TraceState.onlyThread_free hentry
  have hwho : ∀ thread' ∈ some thread, l.current thread' ∈ l.handed.map Handout.receiver := by
    rintro _ ⟨⟩
    exact h.handed_of_entry (by rw [hentry]; exact Option.some_ne_none _)
  obtain ⟨hbooked, hhanded⟩ := h.booked.kept hsame.threads hwho
  refine ⟨hbooked, hsame.tabled (h.tabled.free hentry),
    hsame.numbered (h.numbered.free thread address), ?_, ?_⟩
  · intro a ha
    change s'.heap a ≠ none at ha
    rw [hsame.heap, TraceState.free] at ha
    show ∃ thread', s'.threadsinfo thread' = some a
    rw [hsame.threadsinfo, TraceState.free]
    dsimp only at ha ⊢
    -- a block that is left is another one, so its entry is of another thread
    have hne : a ≠ address := by
      rintro rfl
      exact ha (Function.update_self ..)
    rw [Function.update_of_ne hne] at ha
    obtain ⟨thread', hthread'⟩ := h.reachable a ha
    have hother : thread' ≠ thread := by
      rintro rfl
      exact hne (Option.some.inj (hthread'.symm.trans hentry))
    exact ⟨thread', by rw [Function.update_of_ne hother, hthread']⟩
  · intro thread' tid htid
    rw [hhanded]
    have htid' := (hsame.tidOf thread').symm.trans htid
    by_cases hthread : thread' = thread
    · subst hthread
      rw [TraceState.tidOf, TraceState.free] at htid'
      dsimp only at htid'
      rw [Function.update_self] at htid'
      cases htid'
    · rw [h.tabled.tidOf_of_only honly hthread] at htid'
      exact h.own thread' tid htid'

/-- Where a thread gets a shadow thread that is freed at once. -/
theorem ThreadLog.Accounted.passed (h : l.Accounted)
    (hsame : TraceState.SameTables { l.tracer with threads := l.tracer.threads + 1 } s')
    (hroom : l.tracer.threads.toNat + 1 < UInt32.size)
    (hnew : l.current thread ∉ l.handed.map Handout.receiver) :
    (l.record (some thread) s').Accounted := by
  have hthreads : s'.threads.toNat = l.tracer.threads.toNat + 1 := by
    rw [hsame.threads]
    exact TraceState.toNat_threads_succ hroom
  obtain ⟨hbooked, hhanded⟩ := h.booked.hand hthreads hnew
  refine ⟨hbooked, hsame.tabled ⟨h.tabled.allocated, h.tabled.apart⟩, ⟨?_, ?_⟩, ?_, ?_⟩
  · intro a ids hids
    change s'.heap a = some ids at hids
    rw [hsame.heap] at hids
    obtain ⟨hpos, hle⟩ := h.numbered.bounds a ids hids
    refine ⟨hpos, ?_⟩
    show _ ≤ s'.threads.toNat
    rw [hthreads]
    exact Nat.le_succ_of_le hle
  · intro a a'
    show ∀ ids ids', s'.heap a = some ids → s'.heap a' = some ids' → ids.tid = ids'.tid → a = a'
    rw [hsame.heap]
    exact h.numbered.apart a a'
  · intro a ha
    obtain ⟨thread', hentry⟩ := h.reachable a (hsame.heap ▸ ha)
    exact ⟨thread', (congrFun hsame.threadsinfo thread').trans hentry⟩
  · intro thread' tid htid
    rw [hhanded]
    exact List.mem_append_left _ (h.own thread' tid ((hsame.tidOf thread').symm.trans htid))

/-! ## The invariant -/

/-- What is true as long as every thread is seen once. -/
structure ThreadLog.Steady (l : ThreadLog) : Prop where
  accounted : l.Accounted
  starters : ∀ thread, l.tracer.Starter thread → l.current thread ∈ l.handed.map Handout.receiver
  alive : ∀ thread, l.tracer.Running thread → l.current thread ∈ l.handed.map Handout.receiver →
    l.tracer.threadsinfo thread ≠ none

/-- Who has been given a tid behind an event. -/
theorem ThreadLog.Booked.mem_record (h : l.Booked) {who : Option Nat} (h' : (l.record who s').Booked)
    (other : Incarnation) : other ∈ (l.record who s').handed.map Handout.receiver ↔
      other ∈ l.handed.map Handout.receiver ∨ ∃ thread ∈ who, l.current thread = other := by
  rw [← h'.seen, ← h.seen, record, List.mem_append, List.mem_map]
  simp only [Option.mem_toList, Option.mem_def]

/-- Events that hand out no second tid keep the books, and entries but for the ends of threads. -/
theorem ThreadLog.Steady.effect (h : l.Steady) {flag : TraceFlag} {who : Option Nat}
    (heffect : ThreadEffect l.tracer flag who s') (hrises : l.tracer.threads ≤ s'.threads)
    (hbegin : flag = .threadBegin → who = none) (hdropped : ∀ thread ∈ who, ¬ l.Dropped thread) :
    (l.record who s').Accounted ∧ ∀ thread, l.tracer.threadsinfo thread ≠ none ∨
      who = some thread ∧ l.current thread ∉ l.handed.map Handout.receiver →
      (flag = .threadEnd → who ≠ some thread) → s'.threadsinfo thread ≠ none := by
  -- a thread without an entry gets its first tid
  have hnew : ∀ thread ∈ who, l.tracer.threadsinfo thread = none →
      l.current thread ∉ l.handed.map Handout.receiver :=
    fun thread hthread hentry hhanded => hdropped thread hthread ⟨hentry, hhanded⟩
  cases heffect with
  | unobserved hsame =>
      refine ⟨h.accounted.kept hsame (by simp), fun thread hentry _ => ?_⟩
      rw [hsame.threadsinfo]
      exact hentry.resolve_right (by simp)
  | kept thread hthread hsame =>
      -- the thread has its entry, or has got it when it started the trace
      have hhanded := hthread.elim h.accounted.handed_of_entry (h.starters thread)
      refine ⟨h.accounted.kept hsame (by rintro _ ⟨⟩; exact hhanded), fun thread' hentry _ => ?_⟩
      rw [hsame.threadsinfo]
      refine hentry.resolve_right fun ⟨heq, hnot⟩ => hnot ?_
      exact Option.some.inj heq ▸ hhanded
  | made thread address parentTid hentry hfree hsame =>
      rw [hsame.threads] at hrises
      refine ⟨h.accounted.made hfree hsame (UInt32.toNat_succ_of_le hrises) hentry
        (hnew thread rfl hentry), fun thread' hentry' _ => ?_⟩
      rw [hsame.threadsinfo, TraceState.register]
      dsimp only
      by_cases hthread : thread' = thread
      · rw [hthread, Function.update_self]
        exact Option.some_ne_none _
      · rw [Function.update_of_ne hthread]
        exact hentry'.resolve_right fun hwho => hthread (Option.some.inj hwho.1).symm
  | freed thread address hentry hsame =>
      refine ⟨h.accounted.freed hentry hsame, fun thread' hentry' hother => ?_⟩
      have hthread : thread' ≠ thread := by
        rintro rfl
        exact hother rfl rfl
      rw [hsame.threadsinfo, TraceState.free]
      dsimp only
      rw [Function.update_of_ne hthread]
      exact hentry'.resolve_right fun hwho => hthread (Option.some.inj hwho.1).symm
  | passed thread hentry hsame =>
      rw [hsame.threads] at hrises
      refine ⟨h.accounted.passed hsame (UInt32.toNat_succ_of_le hrises) (hnew thread rfl hentry),
        fun thread' hentry' hother => ?_⟩
      rw [hsame.threadsinfo]
      exact hentry'.resolve_right fun hwho => hother rfl hwho.1
  | begun thread => cases hbegin rfl

/-- Where every thread is seen once, no thread is observed in its beginning. -/
theorem SeenOnce.observed_of_begin {e : TidEvent} (hseen : SeenOnce l e)
    (hflag : e.flag = .threadBegin) : e.observed l.tracer = none := by
  cases e with
  | getThreadId => cases hflag
  | trace e =>
      cases e with
      | hook group thread flag m =>
          obtain rfl : flag = .threadBegin := hflag
          exact if_neg hseen
      | _ => cases hflag

/-- Where every thread is seen once, the threads observed still have what they have been given. -/
theorem SeenOnce.not_dropped {e : TidEvent} (hseen : SeenOnce l e) (h : l.Steady)
    (hpossible : TidPossible l.tracer e) : ∀ thread ∈ e.observed l.tracer, ¬ l.Dropped thread := by
  intro thread hthread
  -- a thread that runs has its entry
  have hrunning : l.tracer.Running thread → ¬ l.Dropped thread :=
    fun hactive hgone => h.alive thread hactive hgone.2 hgone.1
  cases e with
  | getThreadId caller target m =>
      obtain rfl := Option.some.inj hthread
      exact hseen
  | trace e =>
      cases e with
      | startTrace starter m =>
          obtain ⟨-, heq⟩ := Option.ite_none_left_eq_some.mp hthread
          obtain rfl := Option.some.inj heq
          exact hrunning hpossible.1
      | hook group hooked flag m =>
          obtain ⟨hhandles, heq⟩ := Option.ite_none_right_eq_some.mp hthread
          obtain rfl := Option.some.inj heq
          obtain ⟨⟨v, hv, hphase⟩, -⟩ := hpossible
          cases flag with
          | code => exact hrunning ⟨v, hv, hphase⟩
          | threadBegin => exact absurd hhandles hseen
          | threadEnd => exact hseen hhandles
      | _ => cases hthread

/-- The creation of a thread renews no other one. -/
theorem ThreadLog.current_renew_of_ne (l : ThreadLog) (creator : Nat) {child : Nat}
    (hne : thread ≠ child) : (l.renew (.trace (.spawn creator child))).current thread
      = l.current thread :=
  congrArg (Incarnation.mk thread) (Function.update_of_ne hne _ _)

/-- The creation of a thread lowers no generation. -/
theorem ThreadLog.le_generation_renew (l : ThreadLog) (creator child thread : Nat) :
    l.generation thread ≤ (l.renew (.trace (.spawn creator child))).generation thread := by
  show _ ≤ Function.update l.generation child (l.generation child + 1) thread
  by_cases hthread : thread = child
  · rw [hthread, Function.update_self]
    exact Nat.le_succ _
  · rw [Function.update_of_ne hthread]

/-- The threads that have been given a tid so far have earlier generations than a new one. -/
theorem ThreadLog.Booked.current_renew_not_mem (h : l.Booked) (creator child : Nat) :
    (l.renew (.trace (.spawn creator child))).current child ∉ l.handed.map Handout.receiver := by
  intro hold
  have hle := h.past _ hold
  change Function.update l.generation child (l.generation child + 1) child
    ≤ l.generation child at hle
  rw [Function.update_self] at hle
  exact absurd hle (Nat.not_succ_le_self _)

/-- Another thread gets the object of a dead one, which the tracer does not refer to. -/
theorem ThreadLog.Steady.renew (h : l.Steady) {e : TidEvent} (hpossible : TidPossible l.tracer e) :
    (l.renew e).Steady ∧ ∀ creator child, e = .trace (.spawn creator child) →
      (l.renew e).current child ∉ l.handed.map Handout.receiver := by
  cases e with
  | getThreadId => exact ⟨h, by simp⟩
  | trace e =>
      cases e with
      | spawn creator child =>
          obtain ⟨-, hdead, hunreferenced⟩ := hpossible
          have hbooked : (l.renew (.trace (.spawn creator child))).Booked :=
            ⟨h.accounted.booked.tids, h.accounted.booked.one, fun who hwho =>
              (h.accounted.booked.past who hwho).trans (l.le_generation_renew creator child who.object),
              h.accounted.booked.seen⟩
          refine ⟨⟨⟨hbooked, h.accounted.tabled, h.accounted.numbered, h.accounted.reachable, ?_⟩,
            ?_, ?_⟩, ?_⟩
          -- the object has no entry, is in no context and does not run
          · intro thread tid htid
            obtain ⟨a, -, hentry, -⟩ := TraceState.exists_of_tidOf htid
            have hne : thread ≠ child := by
              rintro rfl
              exact Option.some_ne_none _ (hentry.symm.trans hunreferenced.threadsinfo)
            rw [l.current_renew_of_ne creator hne]
            exact h.accounted.own thread tid htid
          · intro thread hstarter
            have hne : thread ≠ child := by
              rintro rfl
              obtain ⟨group, c, hc, hthread⟩ := hstarter
              exact (hunreferenced.contexts group c hc).1 hthread
            rw [l.current_renew_of_ne creator hne]
            exact h.starters thread hstarter
          · intro thread hactive
            have hne : thread ≠ child := by
              rintro rfl
              obtain ⟨v, hv, hphase⟩ := hactive
              rw [VmThread.Active, hdead v hv] at hphase
              simp at hphase
            rw [l.current_renew_of_ne creator hne]
            exact h.alive thread hactive
          · rintro _ _ ⟨⟩
            exact h.accounted.booked.current_renew_not_mem creator child
      | _ => exact ⟨h, by simp⟩

/-- **Every event keeps the invariant**, as long as every thread is seen once. -/
theorem steady_logStep (h : l.Steady) {e : TidEvent} (hpossible : TidPossible l.tracer e)
    (hrises : CounterRises l e) (hseen : SeenOnce l e) : (logStep l e).1.Steady := by
  obtain ⟨hrenewed, hchild⟩ := h.renew hpossible
  have heffect := threadEffect_tidStep hpossible
  have hbegin := hseen.observed_of_begin
  -- an object that is reused is not one of a thread that is observed
  have hdropped : ∀ thread ∈ e.observed l.tracer, ¬ (l.renew e).Dropped thread := by
    intro thread hthread
    have hnot := hseen.not_dropped h hpossible thread hthread
    cases e with
    | getThreadId => exact hnot
    | trace e =>
        cases e with
        | spawn => cases hthread
        | _ => exact hnot
  obtain ⟨haccounted, hentries⟩ := hrenewed.effect heffect hrises hbegin hdropped
  have hmem := hrenewed.accounted.booked.mem_record haccounted.booked
  refine ⟨haccounted, ?_, ?_⟩
  -- a trace is started by a thread that has just been looked up
  · intro thread hstarter
    apply (hmem _).mpr
    rcases starter_of_tidStep hstarter with hold | hobserved
    · exact .inl (hrenewed.starters thread hold)
    · exact .inr ⟨thread, hobserved, rfl⟩
  -- a thread that runs has run before, with its entry, or has just been given one
  · intro thread hactive hhanded
    refine hentries thread ?_ fun hflag hobserved => not_running_of_end hflag hobserved hactive
    rcases (hmem _).mp hhanded with hold | ⟨thread', hobserved, heq⟩
    · rcases running_of_tidStep hpossible hactive with hrunning | ⟨creator, hspawn⟩
      · exact .inl (hrenewed.alive thread hrunning hold)
      · exact absurd hold (hchild creator thread hspawn)
    · obtain rfl : thread' = thread := congrArg Incarnation.object heq
      by_cases hentry : l.tracer.threadsinfo thread' = none
      · exact .inr ⟨hobserved, fun hold => hdropped thread' hobserved ⟨hentry, hold⟩⟩
      · exact .inl hentry

/-- The invariant gives every thread one tid of its own. -/
theorem ThreadLog.Steady.oneTidEach (h : l.Steady) : OneTidEach l where
  distinct := fun _ _ _ htid htid' => h.accounted.numbered.tidOf_inj h.accounted.tabled htid htid'
  never_twice := by
    rw [h.accounted.booked.tids]
    exact List.nodup_range'
  one := h.accounted.booked.one
  own := h.accounted.own
  kept := fun thread hactive hhanded =>
    h.accounted.tabled.tidOf_ne_none (h.alive thread hactive hhanded)
  reachable := h.accounted.reachable
  counted := h.accounted.booked.counted

/-- Before the first event the log is steady. -/
theorem steady_new (vm : Nat → Option VmThread) (sinkThread timerThread : Option Nat) :
    (ThreadLog.new vm sinkThread timerThread).Steady := by
  refine ⟨⟨⟨rfl, List.nodup_nil, by simp [ThreadLog.new], by simp [ThreadLog.new]⟩, ⟨nofun, nofun⟩,
    numbered_new vm sinkThread timerThread, fun _ h => absurd rfl h, nofun⟩, ?_, ?_⟩
  · rintro thread ⟨_, _, hc, -⟩
    cases hc
  · intro thread _ hhanded
    cases hhanded

/-! ## The condition is necessary -/

/-- A thread that is given a tid again, or two at once, is given more than one. -/
theorem ThreadLog.not_one (h : (l.current thread ∈ l.handed.map Handout.receiver ∧
      s'.threads.toNat = l.tracer.threads.toNat + 1) ∨
      s'.threads.toNat = l.tracer.threads.toNat + 2) :
    ¬ ((l.record (some thread) s').handed.map Handout.receiver).Nodup := by
  rcases h with ⟨hhanded, hthreads⟩ | hthreads
  · have hreceivers : (l.record (some thread) s').handed.map Handout.receiver
        = l.handed.map Handout.receiver ++ [l.current thread] := by
      simp [record, newTids_of_succ hthreads]
    rw [hreceivers]
    exact fun hnodup => List.disjoint_of_nodup_append hnodup hhanded (List.mem_singleton.mpr rfl)
  · have hreceivers : (l.record (some thread) s').handed.map Handout.receiver
        = l.handed.map Handout.receiver ++ [l.current thread, l.current thread] := by
      simp [record, newTids, hthreads, List.range'_succ]
    rw [hreceivers]
    exact fun hnodup => by simpa using (List.nodup_append.mp hnodup).2.1

/-- **Good states have been reached by events in which every thread is seen once.** -/
theorem seenOnce_of_oneTidEach (h : l.Steady) {e : TidEvent} (hpossible : TidPossible l.tracer e)
    (hrises : CounterRises l e) (hgood : OneTidEach (logStep l e).1) : SeenOnce l e := by
  have heffect := threadEffect_tidStep hpossible
  have hone := hgood.one
  cases e with
  | getThreadId caller target m =>
      rintro ⟨hentry, hhanded⟩
      -- the lookup makes a second shadow thread
      have hthreads : (tidStep l.tracer (.getThreadId caller target m)).threads
          = l.tracer.threads + 1 := by
        rw [tidStep, rbRgGetThreadId, rbRgThread,
          show (l.tracer.enter caller .running).threadsinfo target = none from hentry]
        rfl
      rw [CounterRises, hthreads] at hrises
      refine ThreadLog.not_one (.inl ⟨hhanded, ?_⟩) hone
      rw [hthreads]
      exact TraceState.toNat_threads_succ (UInt32.toNat_succ_of_le hrises)
  | trace e =>
      cases e with
      | hook group thread flag m =>
          have hobserved : l.tracer.Handles group thread →
              TidEvent.observed l.tracer (.trace (.hook group thread flag m)) = some thread :=
            fun hhandles => if_pos hhandles
          cases flag with
          | code => trivial
          | threadBegin =>
              intro hhandles
              rw [logStep, hobserved hhandles] at hone
              rw [hobserved hhandles] at heffect
              -- a second shadow thread, or the second and the third
              cases heffect with
              | begun _ hbegun =>
                  refine ThreadLog.not_one (hbegun.imp ?_ ?_) hone
                  · rintro ⟨hthread, hthreads⟩
                    rw [CounterRises, hthreads] at hrises
                    refine ⟨hthread.elim h.accounted.handed_of_entry (h.starters thread), ?_⟩
                    rw [hthreads]
                    exact TraceState.toNat_threads_succ (UInt32.toNat_succ_of_le hrises)
                  · intro hthreads
                    rw [CounterRises, hthreads] at hrises
                    rw [hthreads]
                    exact UInt32.toNat_succ_succ_of_le hrises
          | threadEnd =>
              rintro hhandles ⟨hentry, hhanded⟩
              rw [logStep, hobserved hhandles] at hone
              rw [hobserved hhandles] at heffect
              cases heffect with
              | freed _ a hentry' =>
                  rw [hentry] at hentry'
                  cases hentry'
              | passed _ _ hsame =>
                  rw [CounterRises, hsame.threads] at hrises
                  refine ThreadLog.not_one (.inl ⟨hhanded, ?_⟩) hone
                  rw [hsame.threads]
                  exact TraceState.toNat_threads_succ (UInt32.toNat_succ_of_le hrises)
      | _ => trivial

/-- **One thread, one tid**, in every state of a run in which the counter does not wrap around, if
and only if no beginning of a thread is handled, and no thread whose end has been handled is looked
up. -/
theorem oneTidEach_iff (vm : Nat → Option VmThread) (sinkThread timerThread : Option Nat)
    {events : List TidEvent}
    (hpossible : Mealy.AllSteps logStep (fun l e => TidPossible l.tracer e)
      (.new vm sinkThread timerThread) events)
    (hrises : Mealy.AllSteps logStep CounterRises (.new vm sinkThread timerThread) events) :
    OneTidThroughout (.new vm sinkThread timerThread) events ↔
      Mealy.AllSteps logStep SeenOnce (.new vm sinkThread timerThread) events :=
  Mealy.states_iff_allSteps (P := ThreadLog.Steady)
    (fun _ _ h he hseen => steady_logStep h he.1 he.2 hseen) (fun _ h => h.oneTidEach)
    (fun _ _ h he hgood => seenOnce_of_oneTidEach h he.1 he.2 hgood)
    (steady_new vm sinkThread timerThread) (hpossible.and hrises)

/-- A thread traces, runs code, looks up the tid of another one, and ends. -/
def lookups : List TidEvent :=
  [.trace (.startTrace 0 (memoryAt 1 10)), .trace (.hook 1 0 (.code true) (memoryAt 0 20)),
    .getThreadId 0 1 (memoryAt 0 30), .trace (.hook 1 0 .threadEnd (memoryAt 0 40))]

/-- The lookups can occur. -/
theorem possible_lookups :
    Mealy.AllSteps logStep (fun l e => TidPossible l.tracer e) (.new twoThreads none none)
      lookups := by
  refine ⟨⟨⟨_, rfl, .inr rfl⟩, by decide, rfl, ?_, ⟨rfl, rfl, by decide⟩⟩,
    ⟨⟨_, rfl, .inr rfl⟩, ⟨rfl, rfl, by decide⟩⟩,
    ⟨⟨_, rfl, .inr rfl⟩, Option.some_ne_none _, ⟨rfl, rfl, by decide⟩⟩,
    ⟨⟨_, rfl, by decide⟩, ⟨rfl, rfl, by decide⟩⟩, trivial⟩
  intro thread' v hv
  obtain ⟨-, hv⟩ := Option.ite_none_right_eq_some.mp hv
  obtain rfl := Option.some.inj hv
  decide

/-- Each of the threads looked up has one tid. -/
theorem oneTidEach_lookups : OneTidThroughout (.new twoThreads none none) lookups := by
  apply (oneTidEach_iff twoThreads none none possible_lookups (by decide)).mpr
  refine ⟨trivial, trivial, ?_, fun _ => ?_, trivial⟩
  · show ¬ ThreadLog.Dropped _ _
    decide
  · decide

/-- A thread that traces creates a thread, which begins. -/
def beginning : List TidEvent :=
  [.trace (.startTrace 0 (memoryAt 1 10)), .trace (.spawn 0 2),
    .trace (.hook 1 2 .threadBegin (memoryAt 0 20))]

/-- The new thread has two tids. -/
theorem not_oneTidEach_beginning :
    Mealy.AllSteps logStep (fun l e => TidPossible l.tracer e) (.new twoThreads none none)
        beginning ∧
      Mealy.AllSteps logStep CounterRises (.new twoThreads none none) beginning ∧
      ¬ OneTidThroughout (.new twoThreads none none) beginning := by
  refine ⟨⟨⟨⟨_, rfl, .inr rfl⟩, by decide, rfl, ?_, ⟨rfl, rfl, by decide⟩⟩,
    ⟨⟨_, rfl, .inr rfl⟩, ?_, ⟨rfl, ?_⟩⟩, ⟨⟨_, rfl, rfl⟩, ⟨rfl, rfl, by decide⟩⟩, trivial⟩,
    by decide, fun h => ?_⟩
  · intro thread' v hv
    obtain ⟨-, hv⟩ := Option.ite_none_right_eq_some.mp hv
    obtain rfl := Option.some.inj hv
    decide
  · intro v hv
    cases hv
  · intro group c hc
    rcases group with _ | _ | n
    · cases hc
    · obtain rfl := Option.some.inj hc
      decide
    · cases hc
  · have hone := (h beginning List.prefix_rfl).one
    revert hone
    decide

end RaygunApm
