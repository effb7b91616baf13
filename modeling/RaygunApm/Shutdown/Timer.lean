import RaygunApm.Shutdown.History

/-! # The rounds of the timer

`rb_rg_timer_thread` flushes the batch in every round. It counts its rounds with a counter that it
tests before it increments it, so the methodinfo table is sent again in the rounds 31, 61, 91 and so
on, whatever the other threads do in between (`timer_schedule`). -/

namespace RaygunApm

namespace Tracer

/-! ## The schedule -/

/-- The table is sent again in this round, counted from one. -/
def Resyncs (round : Nat) : Prop := 1 < round ∧ round % rgTimerThreadMethodinfoTick = 1

instance : DecidablePred Resyncs := fun round =>
  inferInstanceAs (Decidable (1 < round ∧ round % rgTimerThreadMethodinfoTick = 1))

/-- A step of the timer thread, as it is observed. -/
structure TimerStep where
  /-- What the thread finds. -/
  found : MethodinfoSync
  /-- The calls of the sink that it makes. -/
  calls : List SinkCall

/-- The walk is in front of an entry of the methodinfo table: it sends the event of the entry, if
the method has one. -/
def TimerStep.SendsEntry (step : TimerStep) (entry : Nat) : Prop :=
  ∃ method, step.found.methodinfo[entry]? = some method ∧
    step.calls = method.toList.map fun event => .event event.command

/-- The steps of a round: a flush, and the table if it is due and not empty. -/
inductive IsRound (pid : UInt32) (round : Nat) : List TimerStep → Prop
  /-- The table is not due. -/
  | flush (flush behind : MethodinfoSync) (hround : ¬ Resyncs round) :
      IsRound pid round [⟨flush, [.null]⟩, ⟨behind, []⟩]
  /-- The table is due, and it is empty. -/
  | empty (flush behind : MethodinfoSync) (hround : Resyncs round)
      (hempty : behind.methodinfo = []) :
      IsRound pid round [⟨flush, [.null]⟩, ⟨behind, []⟩]
  /-- The table is due: the frequency and the process type go first, and the walk sends one entry
  after the other until it finds no more. -/
  | sync (flush frequency type last : MethodinfoSync) (walk : List TimerStep)
      (hround : Resyncs round) (hfound : frequency.methodinfo ≠ [])
      (hwalk : ∀ step ∈ walk.zipIdx, step.1.SendsEntry step.2)
      (hlast : last.methodinfo.length ≤ walk.length) :
      IsRound pid round
        ([⟨flush, [.null]⟩,
          ⟨frequency, [.event (rbRgProcessFrequency pid frequency).command]⟩,
          ⟨type, [.event (rbRgProcessType pid type).command]⟩] ++ walk ++ [⟨last, []⟩])

/-! ## What the timer does -/

/-- What is observed of the timer thread in a step: nothing if it is not its turn or if it has
returned, and otherwise the calls that it makes. -/
def timerSteps (transport : Transport) (t : Tracer) : TracerInput → List TimerStep
  | .timer found =>
      match t.timer with
      | .done => []
      | _ =>
          if t.dispatcher.location.CanSwitch then
            [⟨found, callsOf (t.step transport (.timer found)).2⟩]
          else []
  | _ => []

/-- One step, of which the timer thread is observed. -/
def timerStep (transport : Transport) (t : Tracer) (input : TracerInput) : Tracer × List TimerStep :=
  ((t.step transport input).1, t.timerSteps transport input)

/-- The threads run through some steps. -/
def timerRun (transport : Transport) : Tracer → List TracerInput → Tracer × List TimerStep :=
  Mealy.run (timerStep transport)

/-- The counter after some rounds. -/
def ticksAfter (rounds : Nat) : Nat :=
  if rounds = 0 then 0 else (rounds - 1) % rgTimerThreadMethodinfoTick + 1

/-- The counter has reached its mark exactly before the rounds in which the table is sent. -/
theorem ticksAfter_eq_iff (rounds : Nat) :
    ticksAfter rounds = rgTimerThreadMethodinfoTick ↔ Resyncs (rounds + 1) := by
  rw [ticksAfter, Resyncs, rgTimerThreadMethodinfoTick]
  split <;> omega

/-- A round without the table counts on. -/
theorem ticksAfter_succ {rounds : Nat} (h : ¬ Resyncs (rounds + 1)) :
    ticksAfter (rounds + 1) = ticksAfter rounds + 1 := by
  rw [Resyncs, rgTimerThreadMethodinfoTick] at h
  rw [ticksAfter, ticksAfter, rgTimerThreadMethodinfoTick, if_neg (Nat.succ_ne_zero rounds)]
  split <;> omega

/-- A round with the table counts from one. -/
theorem ticksAfter_resync {rounds : Nat} (h : Resyncs (rounds + 1)) : ticksAfter (rounds + 1) = 1 := by
  rw [Resyncs, rgTimerThreadMethodinfoTick] at h
  rw [ticksAfter, rgTimerThreadMethodinfoTick, if_neg (Nat.succ_ne_zero rounds)]
  omega

/-- The steps of the round that the timer is in, by where it is. -/
inductive InRound (pid : UInt32) (round : Nat) : List TimerStep → TimerLocation → Prop
  | waiting : InRound pid round [] .waiting
  | flushed (flush : MethodinfoSync) : InRound pid round [⟨flush, [.null]⟩] .flushed
  | frequency (flush frequency : MethodinfoSync) (hround : Resyncs round)
      (hfound : frequency.methodinfo ≠ []) :
      InRound pid round
        [⟨flush, [.null]⟩,
          ⟨frequency, [.event (rbRgProcessFrequency pid frequency).command]⟩] .frequency
  | walking (flush frequency type : MethodinfoSync) (walk : List TimerStep)
      (hround : Resyncs round) (hfound : frequency.methodinfo ≠ [])
      (hwalk : ∀ step ∈ walk.zipIdx, step.1.SendsEntry step.2) :
      InRound pid round
        ([⟨flush, [.null]⟩,
          ⟨frequency, [.event (rbRgProcessFrequency pid frequency).command]⟩,
          ⟨type, [.event (rbRgProcessType pid type).command]⟩] ++ walk) (.walking walk.length)
  | done : InRound pid round [] .done

/-- The timer is on schedule: it has gone through some rounds and a part of one more, the counter
tells the rounds, and the thread has returned only if `running` is cleared. -/
structure OnSchedule (steps : List TimerStep) (t : Tracer) : Prop where
  rounds : ∃ (rounds : List (List TimerStep)) (part : List TimerStep), steps = rounds.flatten ++ part ∧
    (∀ round ∈ rounds.zipIdx 1, IsRound t.pid round.2 round.1) ∧
    InRound t.pid (rounds.length + 1) part t.timer ∧ t.methodinfoSyncTicks = ticksAfter rounds.length
  returned : t.timer = .done → t.dispatcher.data.running = false

/-- A round begun can be completed. -/
theorem InRound.exists_rest {pid : UInt32} {round : Nat} {part : List TimerStep}
    {location : TimerLocation} (h : InRound pid round part location) :
    ∃ rest, IsRound pid round (part ++ rest) := by
  obtain ⟨noMethods, hempty⟩ : ∃ found : MethodinfoSync, found.methodinfo = [] :=
    ⟨⟨0, ⟨0, [], Nat.zero_le _⟩, ⟨0, [], Nat.zero_le _⟩, []⟩, rfl⟩
  have hflush : ∀ flush, IsRound pid round [⟨flush, [.null]⟩, ⟨noMethods, []⟩] := by
    intro flush
    by_cases hround : Resyncs round
    · exact .empty flush noMethods hround hempty
    · exact .flush flush noMethods hround
  have hlast : ∀ walk : List TimerStep, noMethods.methodinfo.length ≤ walk.length := by
    intro walk
    rw [hempty]
    exact Nat.zero_le _
  cases h with
  | waiting => exact ⟨_, hflush noMethods⟩
  | flushed flush => exact ⟨_, hflush flush⟩
  | frequency flush frequency hround hfound =>
      exact ⟨_, .sync flush frequency noMethods noMethods [] hround hfound (by simp) (hlast [])⟩
  | walking flush frequency type walk hround hfound hwalk =>
      exact ⟨_, .sync flush frequency type noMethods walk hround hfound hwalk (hlast walk)⟩
  | done => exact ⟨_, hflush noMethods⟩

/-- A step within a round keeps the schedule. -/
theorem OnSchedule.within {steps : List TimerStep} {t t' : Tracer} (h : OnSchedule steps t)
    {step : TimerStep} (hpid : t'.pid = t.pid)
    (hpart : ∀ round part, InRound t.pid (round + 1) part t.timer →
      t.methodinfoSyncTicks = ticksAfter round → InRound t.pid (round + 1) (part ++ [step]) t'.timer)
    (hticks : t'.methodinfoSyncTicks = t.methodinfoSyncTicks) (hgoes : t'.timer ≠ .done) :
    OnSchedule (steps ++ [step]) t' := by
  obtain ⟨rounds, part, rfl, hrounds, hin, hcount⟩ := h.rounds
  refine ⟨⟨rounds, part ++ [step], ?_, ?_, ?_, ?_⟩, fun hdone => absurd hdone hgoes⟩
  · rw [List.append_assoc]
  · rw [hpid]
    exact hrounds
  · rw [hpid]
    exact hpart _ part hin hcount
  · rw [hticks, hcount]

/-- The step that ends a round keeps the schedule: it counts the round, and tests whether the thread
is still to run. -/
theorem OnSchedule.round {steps : List TimerStep} {t t' : Tracer} (h : OnSchedule steps t)
    {step : TimerStep} (hpid : t'.pid = t.pid)
    (hpart : ∀ round part, InRound t.pid (round + 1) part t.timer →
      t.methodinfoSyncTicks = ticksAfter round →
        IsRound t.pid (round + 1) (part ++ [step]) ∧
          t'.methodinfoSyncTicks = ticksAfter (round + 1))
    (htimer : t'.timer = if t'.dispatcher.data.running then .waiting else .done) :
    OnSchedule (steps ++ [step]) t' := by
  obtain ⟨rounds, part, rfl, hrounds, hin, hcount⟩ := h.rounds
  obtain ⟨hround, hticks⟩ := hpart _ part hin hcount
  refine ⟨⟨rounds ++ [part ++ [step]], [], ?_, ?_, ?_, ?_⟩, ?_⟩
  · simp
  · rw [hpid, List.zipIdx_append]
    intro round hmem
    rcases List.mem_append.mp hmem with hearlier | hlast
    · exact hrounds round hearlier
    · obtain rfl := List.mem_singleton.mp hlast
      rw [Nat.add_comm 1]
      exact hround
  · rw [htimer]
    split
    · exact .waiting
    · exact .done
  · rw [hticks, List.length_append, List.length_singleton]
  · rw [htimer]
    intro hdone
    by_contra hrunning
    rw [if_pos (by simpa using hrunning)] at hdone
    cases hdone

/-- A call of the sink is observed as this call. -/
theorem callsOf_call (transport : Transport) (t : Tracer) (c : SinkCall) :
    callsOf (t.call transport c).2 = [c] := by
  rw [call, callsOf, List.flatMap_cons]
  exact congrArg (c :: ·) (callsOf_ring _)

/-- A round without the table is complete with a step behind the flush, and counted. -/
theorem OnSchedule.plain {steps : List TimerStep} {t : Tracer} (h : OnSchedule steps t)
    (hlocation : t.timer = .flushed) (found : MethodinfoSync)
    (hdue : t.methodinfoSyncTicks ≠ rgTimerThreadMethodinfoTick) :
    OnSchedule (steps ++ [⟨found, []⟩]) t.timerRound := by
  refine h.round rfl ?_ rfl
  intro round part hin hcount
  rw [hlocation] at hin
  cases hin with
  | flushed flush =>
      rw [hcount] at hdue
      have hnot : ¬ Resyncs (round + 1) := fun hround => hdue ((ticksAfter_eq_iff round).mpr hround)
      exact ⟨.flush flush found hnot, by rw [timerRound, hcount, ticksAfter_succ hnot]⟩

/-- A round that finds an empty table is complete with the step behind the flush, and counting
begins anew. -/
theorem OnSchedule.empty {steps : List TimerStep} {t : Tracer} (h : OnSchedule steps t)
    (hlocation : t.timer = .flushed) {found : MethodinfoSync}
    (hdue : t.methodinfoSyncTicks = rgTimerThreadMethodinfoTick) (hempty : found.methodinfo = []) :
    OnSchedule (steps ++ [⟨found, []⟩]) { t with methodinfoSyncTicks := 0 }.timerRound := by
  refine h.round rfl ?_ rfl
  intro round part hin hcount
  rw [hlocation] at hin
  cases hin with
  | flushed flush =>
      rw [hcount, ticksAfter_eq_iff] at hdue
      exact ⟨.empty flush found hdue hempty, (ticksAfter_resync hdue).symm⟩

/-- A round with the table is complete when the walk finds no more entries, and counting begins
anew. -/
theorem OnSchedule.walked {steps : List TimerStep} {t : Tracer} (h : OnSchedule steps t) {entry : Nat}
    (hlocation : t.timer = .walking entry) {found : MethodinfoSync}
    (hlast : found.methodinfo[entry]? = none) :
    OnSchedule (steps ++ [⟨found, []⟩]) { t with methodinfoSyncTicks := 0 }.timerRound := by
  refine h.round rfl ?_ rfl
  intro round part hin hcount
  rw [hlocation] at hin
  cases hin with
  | walking flush frequency type walk hround hfound hwalk =>
      have hmore := List.getElem?_eq_none_iff.mp hlast
      exact ⟨.sync flush frequency type found walk hround hfound hwalk hmore,
        (ticksAfter_resync hround).symm⟩

/-- A step of the walk that finds an entry goes to the next one. -/
theorem OnSchedule.walks {steps : List TimerStep} {t t' : Tracer} (h : OnSchedule steps t)
    {entry : Nat} (hlocation : t.timer = .walking entry) {step : TimerStep}
    (hsends : step.SendsEntry entry) (hpid : t'.pid = t.pid)
    (hticks : t'.methodinfoSyncTicks = t.methodinfoSyncTicks)
    (hnext : t'.timer = .walking (entry + 1)) : OnSchedule (steps ++ [step]) t' := by
  refine h.within hpid ?_ hticks (by simp [hnext])
  intro round part hin hcount
  rw [hlocation] at hin
  cases hin with
  | walking flush frequency type walk hround hfound hwalk =>
      have hwalk' : ∀ later ∈ (walk ++ [step]).zipIdx, later.1.SendsEntry later.2 := by
        rw [List.zipIdx_append]
        intro later hmem
        rcases List.mem_append.mp hmem with hearlier | hthis
        · exact hwalk later hearlier
        · obtain rfl := List.mem_singleton.mp hthis
          simpa using hsends
      rw [hnext, List.append_assoc]
      have hin' : InRound t.pid (round + 1) _ (.walking (walk ++ [step]).length) :=
        .walking flush frequency type (walk ++ [step]) hround hfound hwalk'
      rwa [List.length_append, List.length_singleton] at hin'

/-- A step of the timer thread keeps the schedule. -/
theorem onSchedule_timer (transport : Transport) {steps : List TimerStep} {t : Tracer}
    (h : OnSchedule steps t) (hgoes : t.timer ≠ .done) (found : MethodinfoSync) :
    OnSchedule (steps ++ [⟨found, callsOf (t.rbRgTimerThread transport found).2⟩])
      (t.rbRgTimerThread transport found).1 := by
  rw [rbRgTimerThread]
  cases hlocation : t.timer with
  | waiting =>
      dsimp only
      rw [callsOf_call]
      refine h.within rfl ?_ rfl (by simp [call])
      intro round part hin hcount
      rw [hlocation] at hin
      cases hin
      exact .flushed found
  | flushed =>
      dsimp only
      by_cases hdue : t.methodinfoSyncTicks = rgTimerThreadMethodinfoTick
      · rw [if_pos hdue]
        by_cases hempty : found.methodinfo = []
        · rw [if_pos hempty]
          exact h.empty hlocation hdue hempty
        · rw [if_neg hempty, callsOf_call]
          refine h.within rfl ?_ rfl (by simp [call])
          intro round part hin hcount
          rw [hlocation] at hin
          cases hin with
          | flushed flush =>
              rw [hcount, ticksAfter_eq_iff] at hdue
              exact .frequency flush found hdue hempty
      · rw [if_neg hdue]
        exact h.plain hlocation found hdue
  | frequency =>
      dsimp only
      rw [callsOf_call]
      refine h.within rfl ?_ rfl (by simp [call])
      intro round part hin hcount
      rw [hlocation] at hin
      cases hin with
      | frequency flush frequency hround hfound =>
          exact .walking flush frequency found [] hround hfound (by simp)
  | walking entry =>
      dsimp only
      split
      · rename_i event hentry
        rw [callsOf_call]
        exact h.walks hlocation ⟨some event, hentry, rfl⟩ rfl rfl rfl
      · rename_i hentry
        exact h.walks hlocation ⟨none, hentry, rfl⟩ rfl rfl rfl
      · rename_i hentry
        exact h.walked hlocation hentry
  | done => exact absurd hlocation hgoes

/-- The other threads leave the timer thread alone. -/
theorem timer_step_of_ne (transport : Transport) (t : Tracer) {input : TracerInput}
    (hne : ∀ found, input ≠ .timer found) :
    (t.step transport input).1.timer = t.timer ∧
      (t.step transport input).1.methodinfoSyncTicks = t.methodinfoSyncTicks ∧
      t.timerSteps transport input = [] := by
  cases input with
  | timer found => exact absurd rfl (hne found)
  | dispatch ok => exact ⟨rfl, rfl, rfl⟩
  | emit event =>
      rw [step]
      split <;> exact ⟨rfl, rfl, rfl⟩
  | ender timestamp =>
      rw [step]
      split
      · rw [rbRgProcessEnded]
        cases t.ender <;> exact ⟨rfl, rfl, rfl⟩
      · exact ⟨rfl, rfl, rfl⟩

/-- A step moves the dispatcher in one of its own steps, or not at all, and it leaves the process
id. -/
theorem dispatcher_step (transport : Transport) (t : Tracer) (input : TracerInput) :
    (t.step transport input).1.pid = t.pid ∧
      ((t.step transport input).1.dispatcher = t.dispatcher ∨
        ∃ move, (t.step transport input).1.dispatcher = (t.dispatcher.step transport move).1) := by
  cases input with
  | timer found =>
      rw [step]
      split
      · rw [rbRgTimerThread]
        cases t.timer with
        | waiting => exact ⟨rfl, .inr ⟨_, rfl⟩⟩
        | flushed =>
            dsimp only
            split
            · split
              · exact ⟨rfl, .inl rfl⟩
              · exact ⟨rfl, .inr ⟨_, rfl⟩⟩
            · exact ⟨rfl, .inl rfl⟩
        | frequency => exact ⟨rfl, .inr ⟨_, rfl⟩⟩
        | walking entry =>
            dsimp only
            split
            · exact ⟨rfl, .inr ⟨_, rfl⟩⟩
            · exact ⟨rfl, .inl rfl⟩
            · exact ⟨rfl, .inl rfl⟩
        | done => exact ⟨rfl, .inl rfl⟩
      · exact ⟨rfl, .inl rfl⟩
  | dispatch ok => exact ⟨rfl, .inr ⟨.dispatch ok, rfl⟩⟩
  | emit event =>
      rw [step]
      split
      · exact ⟨rfl, .inr ⟨_, rfl⟩⟩
      · exact ⟨rfl, .inl rfl⟩
  | ender timestamp =>
      rw [step]
      split
      · rw [rbRgProcessEnded]
        cases t.ender with
        | idle => exact ⟨rfl, .inr ⟨_, rfl⟩⟩
        | flushed => exact ⟨rfl, .inr ⟨_, rfl⟩⟩
        | emitted => exact ⟨rfl, .inr ⟨_, rfl⟩⟩
        | joining => exact ⟨rfl, .inl rfl⟩
      · exact ⟨rfl, .inl rfl⟩

/-- A step that does not touch the timer thread keeps the schedule: a cleared `running` stays
cleared. -/
theorem OnSchedule.other {steps : List TimerStep} {t : Tracer} (h : OnSchedule steps t)
    (transport : Transport) {input : TracerInput}
    (hlocation : (t.step transport input).1.timer = t.timer)
    (hticks : (t.step transport input).1.methodinfoSyncTicks = t.methodinfoSyncTicks) :
    OnSchedule steps (t.step transport input).1 := by
  obtain ⟨hpid, hdispatcher⟩ := dispatcher_step transport t input
  obtain ⟨rounds, part, hsteps, hrounds, hin, hcount⟩ := h.rounds
  refine ⟨⟨rounds, part, hsteps, ?_, ?_, ?_⟩, ?_⟩
  · rw [hpid]
    exact hrounds
  · rw [hpid, hlocation]
    exact hin
  · rw [hticks, hcount]
  · rw [hlocation]
    intro hdone
    rcases hdispatcher with hsame | ⟨move, hmove⟩
    · rw [hsame]
      exact h.returned hdone
    · rw [hmove]
      exact Dispatcher.cleared_step transport move (h.returned hdone)

/-- **Every step** of the threads keeps the schedule. -/
theorem OnSchedule.step {steps : List TimerStep} {t : Tracer} (h : OnSchedule steps t)
    (transport : Transport) (input : TracerInput) :
    OnSchedule (steps ++ t.timerSteps transport input) (t.step transport input).1 := by
  by_cases htimer : ∃ found, input = .timer found
  · obtain ⟨found, rfl⟩ := htimer
    by_cases hswitch : t.dispatcher.location.CanSwitch = true
    · by_cases hdone : t.timer = .done
      · have hnone : t.timerSteps transport (.timer found) = [] := by
          rw [timerSteps, hdone]
        have hsame : t.step transport (.timer found) = (t, []) := by
          rw [Tracer.step, if_pos hswitch, rbRgTimerThread, hdone]
        rw [hnone, List.append_nil]
        exact h.other transport (by rw [hsame]) (by rw [hsame])
      · have hone : t.timerSteps transport (.timer found)
            = [⟨found, callsOf (t.rbRgTimerThread transport found).2⟩] := by
          rw [timerSteps, Tracer.step, if_pos hswitch]
          cases hlocation : t.timer with
          | done => exact absurd hlocation hdone
          | _ => rw [if_pos hswitch]
        rw [hone, Tracer.step, if_pos hswitch]
        exact onSchedule_timer transport h hdone found
    · have hnone : t.timerSteps transport (.timer found) = [] := by
        rw [timerSteps]
        split
        · rfl
        · rw [if_neg hswitch]
      have hsame : t.step transport (.timer found) = (t, []) := by
        rw [Tracer.step, if_neg hswitch]
      rw [hnone, List.append_nil]
      exact h.other transport (by rw [hsame]) (by rw [hsame])
  · obtain ⟨hlocation, hticks, hnone⟩ :=
      timer_step_of_ne transport t fun found hfound => htimer ⟨found, hfound⟩
    rw [hnone, List.append_nil]
    exact h.other transport hlocation hticks

/-- **The timer keeps to its schedule**: whatever the other threads do and however they take turns,
the timer thread goes round by round, flushes the batch in each of them, and in the rounds 31, 61,
91 and so on it sends the frequency, the process type and one entry after the other of the
methodinfo table, as far as the table goes by then. It returns only when `running` is cleared. -/
theorem timer_schedule (transport : Transport) (pid : UInt32) (memory : Bytes)
    (receiveBufferSize : Int) (inputs : List TracerInput) :
    let reached := timerRun transport (fresh pid memory receiveBufferSize 0) inputs
    (∃ (rounds : List (List TimerStep)) (part rest : List TimerStep),
      reached.2 = rounds.flatten ++ part ∧
        (∀ round ∈ rounds.zipIdx 1, IsRound pid round.2 round.1) ∧
        IsRound pid (rounds.length + 1) (part ++ rest)) ∧
      (reached.1.timer = .done → reached.1.dispatcher.data.running = false) := by
  intro reached
  have hfresh : OnSchedule [] (fresh pid memory receiveBufferSize 0) :=
    ⟨⟨[], [], rfl, List.forall_mem_nil _, .waiting, rfl⟩, fun hdone => nomatch hdone⟩
  have hrun : reached.1.pid = pid ∧ OnSchedule reached.2 reached.1 :=
    Mealy.run_history (P := fun steps (t : Tracer) => t.pid = pid ∧ OnSchedule steps t)
      (fun steps t input ⟨hpid, h⟩ =>
        ⟨(dispatcher_step transport t input).1.trans hpid, h.step transport input⟩)
      ⟨rfl, hfresh⟩ inputs
  obtain ⟨hpid, ⟨rounds, part, hsteps, hrounds, hin, -⟩, hreturned⟩ := hrun
  rw [hpid] at hrounds hin
  obtain ⟨rest, hrest⟩ := hin.exists_rest
  exact ⟨⟨rounds, part, rest, hsteps, hrounds, hrest⟩, hreturned⟩

end Tracer

end RaygunApm
