import Mathlib.Data.List.Flatten
import Mathlib.Data.List.Infix
import Mathlib.Logic.Function.Basic

/-! # Links that are connected again

A variable holds the connection that messages are written to, or nothing. Any thread may try to
connect, and what its attempt returns overwrites the variable; a thread may be cautious and try only
while there is no connection. One writer takes the messages, writes each to the connection it finds
and clears the variable when a write fails; without a connection it drops the message.

Whatever the threads do, the messages that go to one connection come one after the other
(`Run.contiguous`), and only the last of them can fail (`Run.not_on_of_failed`). What happens
between a connection and the next one is regular only as long as the attempts do not overlap
(`Run.between_connections`). -/

namespace Link

/-! ## The link -/

/-- What happens to a link. -/
inductive Event (τ π : Type*) where
  /-- A thread begins to connect. -/
  | connecting (thread : τ)
  /-- The attempt of a thread returns a connection. -/
  | connected (thread : τ)
  /-- The attempt of a thread fails. -/
  | refused (thread : τ)
  /-- A write of a message to a connection begins. -/
  | writing (connection : Nat) (payload : π)
  /-- The write returns. -/
  | written (connection : Nat) (payload : π)
  /-- The write fails. -/
  | failed (connection : Nat) (payload : π)
  /-- A message finds no connection. -/
  | dropped (payload : π)

/-- The state of a link. -/
structure State (τ π : Type*) where
  /-- The variable. -/
  sock : Option Nat
  /-- How many connections there have been; each is known by its number. -/
  connections : Nat
  /-- The message that is being written, and the connection that it is written to. -/
  writes : Option (Nat × π)
  /-- The threads with an attempt under way. -/
  connecting : τ → Bool

variable {τ π : Type*} [DecidableEq τ]

/-- A link before the first attempt. -/
def State.init : State τ π where
  sock := none
  connections := 0
  writes := none
  connecting _ := false

/-- One event of a link, where the cautious threads begin to connect only without a connection. -/
inductive Step (cautious : τ → Prop) : State τ π → Event τ π → State τ π → Prop
  | connecting (l : State τ π) (thread : τ) (hcautious : cautious thread → l.sock = none) :
      Step cautious l (.connecting thread)
        { l with connecting := Function.update l.connecting thread true }
  | connected (l : State τ π) (thread : τ) (hconnecting : l.connecting thread = true) :
      Step cautious l (.connected thread)
        { l with
          sock := some l.connections
          connections := l.connections + 1
          connecting := Function.update l.connecting thread false }
  | refused (l : State τ π) (thread : τ) (hconnecting : l.connecting thread = true) :
      Step cautious l (.refused thread)
        { l with
          sock := none
          connecting := Function.update l.connecting thread false }
  | writing (l : State τ π) (connection : Nat) (payload : π) (hsock : l.sock = some connection)
      (hidle : l.writes = none) :
      Step cautious l (.writing connection payload) { l with writes := some (connection, payload) }
  | written (l : State τ π) (connection : Nat) (payload : π)
      (hwrites : l.writes = some (connection, payload)) :
      Step cautious l (.written connection payload) { l with writes := none }
  | failed (l : State τ π) (connection : Nat) (payload : π)
      (hwrites : l.writes = some (connection, payload)) :
      Step cautious l (.failed connection payload) { l with sock := none, writes := none }
  | dropped (l : State τ π) (payload : π) (hsock : l.sock = none) (hidle : l.writes = none) :
      Step cautious l (.dropped payload) l

/-- Some events of a link, one after the other. -/
inductive Run (cautious : τ → Prop) : State τ π → List (Event τ π) → State τ π → Prop
  | nil (l : State τ π) : Run cautious l [] l
  | cons {l l' l'' : State τ π} {e : Event τ π} {es : List (Event τ π)} (hstep : Step cautious l e l')
      (hrun : Run cautious l' es l'') : Run cautious l (e :: es) l''

variable {cautious : τ → Prop} {l l' l'' : State τ π} {e : Event τ π} {es es' : List (Event τ π)}

/-- A run goes on with a further run. -/
theorem Run.append (h : Run cautious l es l') (h' : Run cautious l' es' l'') :
    Run cautious l (es ++ es') l'' := by
  induction h with
  | nil l => exact h'
  | cons hstep _ ih => exact .cons hstep (ih h')

/-- A run goes on with a further event. -/
theorem Run.concat (h : Run cautious l es l') (hstep : Step cautious l' e l'') :
    Run cautious l (es ++ [e]) l'' :=
  h.append (.cons hstep (.nil l''))

/-- A run can be cut anywhere. -/
theorem Run.split (h : Run cautious l (es ++ es') l'') :
    ∃ l', Run cautious l es l' ∧ Run cautious l' es' l'' := by
  induction es generalizing l with
  | nil => exact ⟨l, .nil l, h⟩
  | cons e es ih =>
      cases h with
      | cons hstep hrun =>
          obtain ⟨l', hfirst, hrest⟩ := ih hrun
          exact ⟨l', .cons hstep hfirst, hrest⟩

/-- **History rule.** What every event preserves, of the events so far and the state, every run
preserves. -/
theorem Run.history {P : List (Event τ π) → State τ π → Prop}
    (hstep : ∀ es l e l', P es l → Step cautious l e l' → P (es ++ [e]) l') (h : Run cautious l es' l')
    (hstart : P es l) : P (es ++ es') l' := by
  induction h generalizing es with
  | nil l => rwa [List.append_nil]
  | @cons l l' l'' e es' hfirst _ ih =>
      have hrest := ih (hstep es l e l' hstart hfirst)
      rwa [List.append_assoc, List.singleton_append] at hrest

/-! ## One connection -/

/-- All places of a value in a list are next to each other. -/
def Contiguous {α : Type*} (x : α) (xs : List α) : Prop :=
  ∃ before among after, xs = before ++ among ++ after ∧ (∀ y ∈ among, y = x) ∧ x ∉ before ∧ x ∉ after

/-- Another value behind the list changes nothing. -/
theorem Contiguous.concat_of_ne {α : Type*} {x y : α} {xs : List α} (h : Contiguous x xs)
    (hne : x ≠ y) : Contiguous x (xs ++ [y]) := by
  obtain ⟨before, among, after, rfl, hamong, hbefore, hafter⟩ := h
  refine ⟨before, among, after ++ [y], (List.append_assoc ..), hamong, hbefore, ?_⟩
  simp [hafter, hne]

/-- The value itself may come behind the list if it is the last one there, or new. -/
theorem Contiguous.concat_self {α : Type*} {x : α} {xs : List α} (h : Contiguous x xs)
    (hlast : x ∈ xs → xs.getLast? = some x) : Contiguous x (xs ++ [x]) := by
  by_cases hmem : x ∈ xs
  · obtain ⟨before, among, after, rfl, hamong, hbefore, hafter⟩ := h
    have hnil : after = [] := by
      by_contra hne
      have hin : x ∈ after := by
        refine List.mem_of_getLast? ?_
        have hshown := hlast hmem
        rwa [List.getLast?_append_of_ne_nil _ hne] at hshown
      exact hafter hin
    refine ⟨before, among ++ [x], [], by simp [hnil], ?_, hbefore, List.not_mem_nil⟩
    intro y hy
    rcases List.mem_append.mp hy with hearlier | hthis
    · exact hamong y hearlier
    · exact List.mem_singleton.mp hthis
  · exact ⟨xs, [x], [], by simp, by simp, hmem, List.not_mem_nil⟩

/-- Where a message went that the writer is done with: to a connection, or nowhere. -/
def Event.destination : Event τ π → List (Option Nat)
  | .written connection _ | .failed connection _ => [some connection]
  | .dropped _ => [none]
  | .connecting _ | .connected _ | .refused _ | .writing _ _ => []

/-- Where the messages went, in their order, with the one that is being written. -/
def destinations (es : List (Event τ π)) (l : State τ π) : List (Option Nat) :=
  es.flatMap Event.destination ++ l.writes.toList.map fun write => some write.1

/-- The connections are used one after the other, and what the variable holds is the newest. -/
structure Orderly (es : List (Event τ π)) (l : State τ π) : Prop where
  contiguous : ∀ connection : Nat, Contiguous (some connection) (destinations es l)
  used : ∀ connection : Nat, some connection ∈ destinations es l → connection < l.connections
  sock : ∀ connection, l.sock = some connection → connection < l.connections ∧
    (some connection ∈ destinations es l → (destinations es l).getLast? = some (some connection))

omit [DecidableEq τ] in
/-- An event that moves no message leaves the order, if the variable keeps its value or gets a new
connection. -/
theorem Orderly.of_same (h : Orderly es l) (hsame : destinations (es ++ [e]) l' = destinations es l)
    (hconnections : l.connections ≤ l'.connections)
    (hsock : ∀ connection, l'.sock = some connection → l.sock = some connection ∨
      connection = l.connections ∧ l.connections < l'.connections) :
    Orderly (es ++ [e]) l' := by
  refine ⟨?_, ?_, ?_⟩
  · rw [hsame]
    exact h.contiguous
  · rw [hsame]
    intro connection hmem
    exact Nat.lt_of_lt_of_le (h.used connection hmem) hconnections
  · rw [hsame]
    intro connection hholds
    rcases hsock connection hholds with hold | ⟨rfl, hnew⟩
    · obtain ⟨hlt, hlast⟩ := h.sock connection hold
      exact ⟨Nat.lt_of_lt_of_le hlt hconnections, hlast⟩
    · exact ⟨hnew, fun hmem => absurd (h.used _ hmem) (Nat.lt_irrefl _)⟩

omit [DecidableEq τ] in
/-- A message that goes where the variable points keeps the order: to its connection, or nowhere. -/
theorem Orderly.of_next (h : Orderly es l)
    (hnext : destinations (es ++ [e]) l' = destinations es l ++ [l.sock]) (hsock : l'.sock = l.sock)
    (hconnections : l'.connections = l.connections) : Orderly (es ++ [e]) l' := by
  refine ⟨?_, ?_, ?_⟩
  · intro connection
    rw [hnext]
    by_cases hholds : some connection = l.sock
    · rw [← hholds]
      exact (h.contiguous connection).concat_self (h.sock connection hholds.symm).2
    · exact (h.contiguous connection).concat_of_ne hholds
  · intro connection hmem
    rw [hnext] at hmem
    rw [hconnections]
    rcases List.mem_append.mp hmem with hearlier | hthis
    · exact h.used connection hearlier
    · exact (h.sock connection (List.mem_singleton.mp hthis).symm).1
  · intro connection hholds
    rw [hsock] at hholds
    rw [hnext, hconnections, hholds]
    exact ⟨(h.sock connection hholds).1, fun _ => List.getLast?_concat⟩

/-- **Every event** keeps the order of the connections. -/
theorem Orderly.step (h : Orderly es l) (hstep : Step cautious l e l') : Orderly (es ++ [e]) l' := by
  have hdestinations : destinations (es ++ [e]) l'
      = es.flatMap Event.destination ++ (e.destination ++
        l'.writes.toList.map fun write => some write.1) := by
    rw [destinations, List.flatMap_append, List.flatMap_singleton, List.append_assoc]
  cases hstep with
  | connecting thread hcautious => exact h.of_same hdestinations le_rfl fun _ => .inl
  | connected thread hconnecting =>
      refine h.of_same hdestinations (Nat.le_succ _) fun connection hholds => .inr ⟨?_, ?_⟩
      · exact (Option.some.inj hholds).symm
      · exact Nat.lt_succ_self _
  | refused thread hconnecting => exact h.of_same hdestinations le_rfl fun _ hnone => nomatch hnone
  | written connection payload hwrites =>
      refine h.of_same ?_ le_rfl fun _ => .inl
      rw [hdestinations, destinations, hwrites]
      rfl
  | failed connection payload hwrites =>
      refine h.of_same ?_ le_rfl fun _ hnone => nomatch hnone
      rw [hdestinations, destinations, hwrites]
      rfl
  | writing connection payload hsock hidle =>
      refine h.of_next ?_ rfl rfl
      rw [hdestinations, destinations, hidle, hsock]
      simp [Event.destination]
  | dropped payload hsock hidle =>
      refine h.of_next ?_ rfl rfl
      rw [hdestinations, destinations, hidle, hsock]
      simp [Event.destination]

/-- Runs from the start use the connections in order. -/
theorem Run.orderly (h : Run cautious .init es l) : Orderly es l := by
  have hstart : Orderly [] (State.init : State τ π) :=
    ⟨fun _ => ⟨[], [], [], rfl, List.forall_mem_nil _, List.not_mem_nil, List.not_mem_nil⟩,
      fun _ hmem => absurd hmem List.not_mem_nil, fun _ hholds => nomatch hholds⟩
  exact h.history (fun _ _ _ _ horderly hstep => horderly.step hstep) hstart

/-- **One connection** gets its messages one after the other, with none to another connection and
none dropped between them. -/
theorem Run.contiguous (h : Run cautious .init es l) (connection : Nat) :
    Contiguous (some connection) (destinations es l) :=
  h.orderly.contiguous connection

/-- The event is about a write on a connection. -/
def Event.On (connection : Nat) : Event τ π → Prop
  | .writing other _ | .written other _ | .failed other _ => other = connection
  | .connecting _ | .connected _ | .refused _ | .dropped _ => False

/-- A connection that is neither held nor written to is not used again. -/
theorem Run.not_on (h : Run cautious l es l') {connection : Nat} (hold : connection < l.connections)
    (hsock : l.sock ≠ some connection) (hwrites : ∀ payload, l.writes ≠ some (connection, payload)) :
    ∀ e ∈ es, ¬ e.On connection := by
  induction h with
  | nil l => exact List.forall_mem_nil _
  | cons hstep _ ih =>
      refine List.forall_mem_cons.mpr ?_
      cases hstep with
      | connecting thread hcautious => exact ⟨id, ih hold hsock hwrites⟩
      | connected thread hconnecting =>
          refine ⟨id, ih (Nat.lt_succ_of_lt hold) ?_ hwrites⟩
          exact fun heq => Nat.ne_of_gt hold (Option.some.inj heq)
      | refused thread hconnecting => exact ⟨id, ih hold nofun hwrites⟩
      | writing other payload hholds hidle =>
          have hne : other ≠ connection := fun heq => hsock (heq ▸ hholds)
          refine ⟨hne, ih hold hsock fun payload' heq => hne ?_⟩
          exact congrArg Prod.fst (Option.some.inj heq)
      | written other payload hother =>
          have hne : other ≠ connection := fun heq => hwrites payload (heq ▸ hother)
          exact ⟨hne, ih hold hsock fun _ => nofun⟩
      | failed other payload hother =>
          have hne : other ≠ connection := fun heq => hwrites payload (heq ▸ hother)
          exact ⟨hne, ih hold nofun fun _ => nofun⟩
      | dropped payload hnone hidle => exact ⟨id, ih hold hsock hwrites⟩

/-- **A failed write is the last one** on its connection. -/
theorem Run.not_on_of_failed {before after : List (Event τ π)} {connection : Nat} {payload : π}
    (h : Run cautious .init (before ++ .failed connection payload :: after) l) :
    ∀ e ∈ after, ¬ e.On connection := by
  obtain ⟨l', hbefore, hrest⟩ := h.split
  cases hrest with
  | cons hstep hafter =>
      cases hstep with
      | failed _ _ hwrites =>
          have hused : some connection ∈ destinations before l' := by
            rw [destinations, hwrites]
            exact List.mem_append_right _ (List.mem_singleton_self _)
          exact hafter.not_on (hbefore.orderly.used connection hused) nofun
            fun _ => nofun

/-! ## From one connection to the next -/

/-- The writer is done with a message. -/
def Event.Settles : Event τ π → Bool
  | .written _ _ | .failed _ _ | .dropped _ => true
  | .connecting _ | .connected _ | .refused _ | .writing _ _ => false

/-- An attempt returns. -/
def Event.Returns : Event τ π → Prop
  | .connected _ | .refused _ => True
  | .connecting _ | .writing _ _ | .written _ _ | .failed _ _ | .dropped _ => False

/-- There is a connection. -/
def Event.Connects : Event τ π → Prop
  | .connected _ => True
  | _ => False

omit [DecidableEq τ] in
/-- An attempt that makes a connection returns. -/
theorem Event.Connects.returns (h : e.Connects) : e.Returns := by
  cases e with
  | connected thread => trivial
  | _ => exact absurd h id

/-- Without a connection messages are dropped until there is one. -/
theorem Run.drops (h : Run cautious l es l') (hsock : l.sock = none) (hidle : l.writes = none)
    (hquiet : ∀ e ∈ es, ¬ e.Connects) :
    l'.writes = none ∧ ∃ drops : List π, es.filter Event.Settles = drops.map .dropped := by
  induction h with
  | nil l => exact ⟨hidle, [], rfl⟩
  | cons hstep _ ih =>
      obtain ⟨hfirst, hrest⟩ := List.forall_mem_cons.mp hquiet
      cases hstep with
      | connecting thread hcautious => exact ih hsock hidle hrest
      | connected thread hconnecting => exact absurd trivial hfirst
      | refused thread hconnecting => exact ih rfl hidle hrest
      | writing connection payload hholds _ =>
          rw [hsock] at hholds
          cases hholds
      | written connection payload hwrites =>
          rw [hidle] at hwrites
          cases hwrites
      | failed connection payload hwrites =>
          rw [hidle] at hwrites
          cases hwrites
      | dropped payload _ _ =>
          obtain ⟨hend, drops, hdrops⟩ := ih hsock hidle hrest
          refine ⟨hend, payload :: drops, ?_⟩
          rw [List.filter_cons_of_pos rfl, hdrops, List.map_cons]

/-- With a connection messages are written, and while no attempt returns only a failed write can end
it. -/
theorem Run.writes (h : Run cautious l es l') (hsock : l.sock ≠ none) (hend : l'.sock = none)
    (hquiet : ∀ e ∈ es, ¬ e.Returns) :
    l'.writes = none ∧ ∃ (writes : List (Nat × π)) (lost : Nat × π) (drops : List π),
      es.filter Event.Settles = writes.map (fun write => .written write.1 write.2) ++
        .failed lost.1 lost.2 :: drops.map .dropped := by
  induction h with
  | nil l => exact absurd hend hsock
  | cons hstep hrun ih =>
      obtain ⟨hfirst, hrest⟩ := List.forall_mem_cons.mp hquiet
      cases hstep with
      | connecting thread hcautious => exact ih hsock hend hrest
      | connected thread hconnecting => exact absurd trivial hfirst
      | refused thread hconnecting => exact absurd trivial hfirst
      | writing connection payload hholds _ => exact ih hsock hend hrest
      | written connection payload hwrites =>
          obtain ⟨hidle, writes, lost, drops, hsettled⟩ := ih hsock hend hrest
          refine ⟨hidle, (connection, payload) :: writes, lost, drops, ?_⟩
          rw [List.filter_cons_of_pos rfl, hsettled, List.map_cons, List.cons_append]
      | failed connection payload hwrites =>
          obtain ⟨hidle, drops, hdrops⟩ :=
            hrun.drops rfl rfl fun e hmem hconnects => hrest e hmem hconnects.returns
          refine ⟨hidle, [], (connection, payload), drops, ?_⟩
          rw [List.filter_cons_of_pos rfl, hdrops]
          rfl
      | dropped payload hnone _ => exact absurd hnone hsock

/-- **From one connection to the next**: if a cautious thread begins to connect behind a connection
before any other attempt returns, then messages are written, one write fails, and what comes until
there is a connection again is dropped. -/
theorem Run.between_connections {thread cautiousThread : τ} (hcautious : cautious cautiousThread)
    {before waiting trying : List (Event τ π)}
    (h : Run cautious .init
      (before ++ .connected thread :: (waiting ++ .connecting cautiousThread :: trying)) l)
    (hwaiting : ∀ e ∈ waiting, ¬ e.Returns) (htrying : ∀ e ∈ trying, ¬ e.Connects) :
    ∃ (writes : List (Nat × π)) (lost : Nat × π) (drops : List π),
      (waiting ++ trying).filter Event.Settles
        = writes.map (fun write => .written write.1 write.2) ++
          .failed lost.1 lost.2 :: drops.map .dropped := by
  obtain ⟨l₁, -, hafter⟩ := h.split
  cases hafter with
  | cons hconnected hafter =>
      obtain ⟨l₂, hwrites, hafter⟩ := hafter.split
      cases hafter with
      | cons hconnecting hdrops =>
          cases hconnected with
          | connected =>
              cases hconnecting with
              | connecting _ hnone =>
                  obtain ⟨hidle, writes, lost, drops, hsettled⟩ :=
                    hwrites.writes (Option.some_ne_none _) (hnone hcautious) hwaiting
                  obtain ⟨-, more, hmore⟩ := hdrops.drops (hnone hcautious) hidle htrying
                  refine ⟨writes, lost, drops ++ more, ?_⟩
                  rw [List.filter_append, hsettled, hmore, List.map_append, List.append_assoc]
                  rfl

end Link
