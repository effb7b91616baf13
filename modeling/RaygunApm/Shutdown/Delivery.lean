import RaygunApm.Shutdown.History

/-! # What a shutdown delivers

`rb_rg_process_ended` flushes the batch before it emits its own event and not after, so the event
and whatever joins it in the batch depend on a later call of the sink to reach the ring, before the
dispatcher finds the ring empty and leaves (`shutdown_delivers_iff`). -/

namespace RaygunApm

open ByteMemory

/-! ## Cutting a history -/

/-- The observations up to the event of `rg_process_ended`. -/
def untilEnded : List TracerOutput → List TracerOutput
  | [] => []
  | o :: os => if o.IsEnded then [o] else o :: untilEnded os

/-- The observations after the event of `rg_process_ended`. -/
def afterEnded : List TracerOutput → List TracerOutput
  | [] => []
  | o :: os => if o.IsEnded then os else afterEnded os

/-- The observations before the dispatcher left its loop. -/
def beforeLeft (os : List TracerOutput) : List TracerOutput := os.takeWhile fun o => ¬ o.IsLeft

/-- The outputs are those up to the return of `rg_process_ended` and those behind it. -/
theorem untilEnded_append_afterEnded (os : List TracerOutput) :
    untilEnded os ++ afterEnded os = os := by
  induction os with
  | nil => rfl
  | cons o os ih =>
      rw [untilEnded, afterEnded]
      split
      · rfl
      · rw [List.cons_append, ih]

/-- What comes behind the event does not matter. -/
theorem untilEnded_append {os : List TracerOutput} (h : ∃ o ∈ os, o.IsEnded)
    (os' : List TracerOutput) : untilEnded (os ++ os') = untilEnded os := by
  induction os with
  | nil =>
      obtain ⟨o, ho, -⟩ := h
      exact absurd ho List.not_mem_nil
  | cons o os ih =>
      rw [List.cons_append, untilEnded, untilEnded]
      by_cases hended : o.IsEnded
      · rw [if_pos hended, if_pos hended]
      · have hrest : ∃ o ∈ os, o.IsEnded := by
          obtain ⟨o', ho', hended'⟩ := h
          rcases List.mem_cons.mp ho' with rfl | hmem
          · exact absurd hended' hended
          · exact ⟨o', hmem, hended'⟩
        rw [if_neg hended, if_neg hended, ih hrest]

/-- The first mark is where the dispatcher left. -/
theorem beforeLeft_eq {before after : List TracerOutput} (h : ∀ o ∈ before, ¬ o.IsLeft) :
    beforeLeft (before ++ .left :: after) = before := by
  have htake : (TracerOutput.left :: after).takeWhile (fun o => ¬ o.IsLeft) = [] := by
    simp [TracerOutput.IsLeft]
  rw [beforeLeft, List.takeWhile_append_of_pos (by simpa using h), htake, List.append_nil]

/-! ## Steps and runs -/

namespace Tracer

variable {pid : UInt32} {os : List TracerOutput} {t : Tracer}

/-- A step of the timer thread keeps the history. -/
theorem history_timer (transport : Transport) (h : History pid os t)
    (hswitch : t.dispatcher.location.CanSwitch = true) (sync : MethodinfoSync) :
    History pid (os ++ (t.rbRgTimerThread transport sync).2)
      (t.rbRgTimerThread transport sync).1 := by
  -- A step may call the sink with an event, or change nothing but the timer thread.
  have hevent : ∀ (location : TimerLocation) (event : Event),
      History pid
        (os ++ (({ t with timer := location } : Tracer).call transport (.event event.command)).2)
        (({ t with timer := location } : Tracer).call transport (.event event.command)).1 :=
    fun location event => h.call hswitch _ event.genuine rfl rfl rfl id rfl id .inl
  have hquiet : ∀ t' : Tracer, t'.dispatcher = t.dispatcher → t'.ender = t.ender →
      History pid (os ++ []) t' := by
    intro t' hdispatcher hender
    rw [List.append_nil]
    exact h.of_eq hdispatcher hender
  unfold rbRgTimerThread
  split
  · exact h.call hswitch .null trivial rfl rfl rfl id rfl id .inl
  · split
    · split
      · exact hquiet _ rfl rfl
      · exact hevent _ _
    · exact hquiet _ rfl rfl
  · exact hevent _ _
  · split
    · exact hevent _ _
    · exact hquiet _ rfl rfl
    · exact hquiet _ rfl rfl
  · exact hquiet _ rfl rfl

/-- A step of the thread that ends the process keeps the history. -/
theorem history_ender (transport : Transport) (h : History pid os t)
    (hswitch : t.dispatcher.location.CanSwitch = true) (timestamp : Int64) :
    History pid (os ++ (t.rbRgProcessEnded transport timestamp).2)
      (t.rbRgProcessEnded transport timestamp).1 := by
  unfold rbRgProcessEnded
  cases hender : t.ender with
  | idle =>
      exact h.call hswitch .null trivial rfl rfl rfl id rfl (by simp [hender])
        (by simp [call])
  | flushed =>
      exact h.call hswitch _ (t.processEnded timestamp).genuine rfl rfl rfl id rfl (by simp [hender])
        fun _ => .inr trivial
  | emitted =>
      rw [List.append_nil]
      exact h.stop hender rfl rfl
  | joining =>
      rw [List.append_nil]
      exact h

/-- **Every step keeps the history.** -/
theorem history_step (transport : Transport) (h : History pid os t) (input : TracerInput) :
    History pid (os ++ (t.step transport input).2) (t.step transport input).1 := by
  cases input with
  | dispatch ok => exact h.dispatch ok
  | emit event =>
      unfold step
      dsimp only
      split
      · rename_i hswitch
        exact h.call hswitch _ event.genuine rfl rfl rfl id rfl id .inl
      · rw [List.append_nil]
        exact h
  | timer sync =>
      unfold step
      dsimp only
      split
      · rename_i hswitch
        exact history_timer transport h hswitch sync
      · rw [List.append_nil]
        exact h
  | ender timestamp =>
      unfold step
      dsimp only
      split
      · rename_i hswitch
        exact history_ender transport h hswitch timestamp
      · rw [List.append_nil]
        exact h

/-- **Every run keeps the history** of what it has shown. -/
theorem history_run (transport : Transport) (pid : UInt32) {memory : Bytes}
    (hmemory : memory.length < 2 ^ 32) (receiveBufferSize : Int) (methodinfoSyncTicks : Nat)
    (inputs : List TracerInput) :
    History pid (run transport (fresh pid memory receiveBufferSize methodinfoSyncTicks) inputs).2
      (run transport (fresh pid memory receiveBufferSize methodinfoSyncTicks) inputs).1 :=
  @Mealy.run_history _ _ _ _ (History pid) (fun _ _ input h => history_step transport h input) [] _
    (History.fresh pid hmemory receiveBufferSize methodinfoSyncTicks) inputs

/-! ## Delivery -/

/-- The commands given to the sink up to the event of `rg_process_ended`. -/
def givenUntilEnded (os : List TracerOutput) : List Command :=
  (callsOf (untilEnded os)).flatMap SinkCall.commands

/-- The calls up to the event of `rg_process_ended` drop nothing, and one of the calls between it
and the dispatcher's exit closes the batch, before a raw command drops it. -/
def ClosesInTime (os : List TracerOutput) : Prop :=
  Batcher.init.Reaches (callsOf (untilEnded (beforeLeft os))) (callsOf (afterEnded (beforeLeft os)))

instance (os : List TracerOutput) : Decidable (ClosesInTime os) :=
  inferInstanceAs (Decidable (Batcher.Reaches _ _ _))

/-- **Shutdown.** When the dispatcher has left its loop and the ring had room for everything, the
process has ended, and everything given to the sink up to and including its last event was polled if
and only if the batch was closed in time. -/
theorem shutdown_delivers_iff (transport : Transport) (pid : UInt32) (memory : Bytes)
    (hmemory : memory.length < 2 ^ 32) (receiveBufferSize : Int) (methodinfoSyncTicks : Nat)
    (inputs : List TracerInput)
    (hroom : ∀ o ∈ (run transport (fresh pid memory receiveBufferSize methodinfoSyncTicks) inputs).2,
      ¬ o.Rejects)
    (hdone : (run transport (fresh pid memory receiveBufferSize methodinfoSyncTicks)
      inputs).1.dispatcher.location = .done) :
    let os := (run transport (fresh pid memory receiveBufferSize methodinfoSyncTicks) inputs).2
    (∃ o ∈ os, o.IsEnded) ∧
      (payload (givenUntilEnded os) <+: messageBodies (polledOf os) ↔ ClosesInTime os) := by
  intro os
  have h : History pid os _ :=
    history_run transport pid hmemory receiveBufferSize methodinfoSyncTicks inputs
  obtain ⟨before, after, hos, hleft⟩ := h.left hdone
  -- Behind the exit of the dispatcher nothing is polled, so only what is before it counts.
  have hpolled : polledOf os = polledOf before := by
    rw [hos, polledOf_append]
    show _ ++ polledOf after = _
    rw [hleft.quiet, List.append_nil]
  have hbodies : messageBodies (polledOf before) = _ := hleft.bodies fun o ho =>
    hroom o (show o ∈ os from hos ▸ List.mem_append_left _ ho)
  have hgiven : givenUntilEnded os = (callsOf (untilEnded before)).flatMap SinkCall.commands := by
    rw [givenUntilEnded, hos, untilEnded_append hleft.ended]
  have hcalls : callsOf before = callsOf (untilEnded before) ++ callsOf (afterEnded before) := by
    rw [← callsOf_append, untilEnded_append_afterEnded]
  have hbefore : beforeLeft os = before := by
    rw [hos, beforeLeft_eq hleft.not_left]
  obtain ⟨o, ho, hended⟩ := hleft.ended
  refine ⟨⟨o, hos ▸ List.mem_append_left _ ho, hended⟩, ?_⟩
  rw [hpolled, hbodies, hgiven, hcalls, ClosesInTime, hbefore]
  exact Batcher.run_reaches_iff (b := Batcher.init) (by decide) _ _

/-- The timer thread flushes between the event of `rg_process_ended` and the end of the
dispatcher. -/
def flushBeforeExit : List TracerInput :=
  [.ender 0, .ender 0, .timer ⟨0, ⟨0, [], by decide⟩, ⟨0, [], by decide⟩, []⟩, .ender 0,
    .dispatch true, .dispatch true, .dispatch true, .dispatch true, .dispatch true, .dispatch true,
    .dispatch true]

/-- The event of `rg_process_ended` is polled where the timer thread flushes behind it. -/
theorem shutdown_delivers_flushed :
    payload (givenUntilEnded (run .tcp (fresh 7 (List.replicate 64 0) 0 0) flushBeforeExit).2)
      <+: messageBodies (polledOf (run .tcp (fresh 7 (List.replicate 64 0) 0 0)
        flushBeforeExit).2) :=
  (shutdown_delivers_iff .tcp 7 (List.replicate 64 0) (by decide +kernel) 0 0 flushBeforeExit
    (by decide +kernel) (by decide +kernel)).2.mpr (by decide +kernel)

/-- The process ends and the dispatcher leaves, before the timer thread wakes up. -/
def exitBeforeFlush : List TracerInput :=
  [.ender 0, .ender 0, .ender 0, .dispatch true, .dispatch true]

/-- The event is still in the batch when the dispatcher is gone. -/
theorem shutdown_loses_ended :
    (run .tcp (fresh 7 (List.replicate 64 0) 0 0) exitBeforeFlush).1.dispatcher.location = .done ∧
      (∀ o ∈ (run .tcp (fresh 7 (List.replicate 64 0) 0 0) exitBeforeFlush).2, ¬ o.Rejects) ∧
      ¬ payload (givenUntilEnded (run .tcp (fresh 7 (List.replicate 64 0) 0 0) exitBeforeFlush).2)
        <+: messageBodies (polledOf (run .tcp (fresh 7 (List.replicate 64 0) 0 0)
          exitBeforeFlush).2) := by
  decide +kernel

end Tracer

end RaygunApm
