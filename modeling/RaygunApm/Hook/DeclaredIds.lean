import RaygunApm.Hook.Lookups
import RaygunApm.Hook.Resync
import RaygunApm.Library.PartialMap

/-! # Function ids are declared before use

The invariant ties what the hook holds to the stream so far. What is in the table has been declared,
since the start of the latest completed pass if there is one, and its entry keeps the METHODINFO
that declared it. What a pass in progress does not have to visit any more, it has declared. Ids are
issued in order. Every event keeps this, unless a rule frees what a thread holds or the counter
wraps, so the runs without such events declare every id before they use it
(`syncedHook_declaresBeforeUse`). -/

namespace RaygunApm

open Declarations

/-! ## The invariant -/

/-- The entry of a method has been declared, and it keeps the declaration. -/
structure SyncedHook.Known (s : SyncedHook) (os : List (Item UInt32 Bytes)) (method : Nat)
    (m : RgMethod) : Prop where
  fresh : Fresh os m.functionId
  encoded : ∃ info, s.encoded method = some info ∧ info.functionId = m.functionId ∧
    .declare info.functionId info.name ∈ os

/-- A pass is in progress, and it has declared what it does not have to visit any more. -/
def SyncedHook.Passing (s : SyncedHook) (os : List (Item UInt32 Bytes)) (pass : ResyncPass) : Prop :=
  ∃ mid, InPass os mid ∧ ∀ pending, pass = .walking pending → ∀ method m, s.Holds method m →
    method ∈ pending ∨ ∃ name, .declare m.functionId name ∈ mid

/-- **The invariant.** What the hook holds fits to the stream so far. -/
structure SyncedHook.Declared (s : SyncedHook) (os : List (Item UInt32 Bytes)) : Prop where
  used : DeclaredBeforeUse os
  marked : Marked os
  /-- Ids are issued in order. -/
  issued : ∀ id name, .declare id name ∈ os → id.toNat ≤ s.hook.methods.toNat
  entries : ∀ method m, s.Holds method m → s.Known os method m
  /-- What a thread holds is in the table. -/
  held : ∀ thread d, s.discovering thread = some d →
    d.freed = false ∧ ∃ method, s.Holds method d.rgMethod
  passing : ∀ pass, s.pass = some pass → s.Passing os pass

variable {config : HookConfig} {s s' : SyncedHook} {os : List (Item UInt32 Bytes)}
  {o : Item UInt32 Bytes}

/-- The hook of a new tracer has declared what it has used: nothing. -/
theorem SyncedHook.declared_new : SyncedHook.new.Declared [] where
  used := declaredBeforeUse_nil
  marked h := absurd h List.not_mem_nil
  issued _ _ h := absurd h List.not_mem_nil
  entries _ _ h := nomatch h
  held _ _ h := nomatch h
  passing _ h := nomatch h

/-- The invariant is about the entries, the counter, what the entries and the threads keep, and the
pass. -/
theorem SyncedHook.Declared.keep (h : s.Declared os)
    (hholds : ∀ method m, s'.Holds method m ↔ s.Holds method m)
    (hmethods : s'.hook.methods = s.hook.methods) (hencoded : s'.encoded = s.encoded)
    (hdiscovering : ∀ thread d, s'.discovering thread = some d → s.discovering thread = some d)
    (hpass : s'.pass = s.pass) : s'.Declared os where
  used := h.used
  marked := h.marked
  issued := by
    rw [hmethods]
    exact h.issued
  entries method m hm := by
    have hknown := h.entries method m ((hholds method m).mp hm)
    refine ⟨hknown.fresh, ?_⟩
    rw [hencoded]
    exact hknown.encoded
  held thread d hd := by
    obtain ⟨hfreed, method, hm⟩ := h.held thread d (hdiscovering thread d hd)
    exact ⟨hfreed, method, (hholds method _).mpr hm⟩
  passing pass hp := by
    rw [hpass] at hp
    obtain ⟨mid, hmid, hvisited⟩ := h.passing pass hp
    refine ⟨mid, hmid, fun pending hpending method m hm => ?_⟩
    exact hvisited pending hpending method m ((hholds method m).mp hm)

/-- Going on with a pass keeps the invariant, where what has been visited is declared. -/
theorem SyncedHook.Declared.setPass (h : s.Declared os) {pass : ResyncPass}
    (hpassing : s.Passing os pass) : SyncedHook.Declared { s with pass := some pass } os where
  used := h.used
  marked := h.marked
  issued := h.issued
  entries method m hm := ⟨(h.entries method m hm).fresh, (h.entries method m hm).encoded⟩
  held := h.held
  passing pass' hpass' := by
    obtain rfl := Option.some.inj hpass'
    exact hpassing

/-- A method stays known behind one more output, if no pass completes there. -/
theorem SyncedHook.Known.concat {method : Nat} {m : RgMethod} (h : s.Known os method m)
    (ho : o ≠ .completed) : s.Known (os ++ [o]) method m where
  fresh := h.fresh.concat ho
  encoded := by
    obtain ⟨info, hinfo, hid, hmem⟩ := h.encoded
    exact ⟨info, hinfo, hid, List.mem_append_left _ hmem⟩

/-- A pass goes on behind one more output, if none starts or completes there. -/
theorem SyncedHook.Passing.concat {pass : ResyncPass} (h : s.Passing os pass)
    (hstarted : o ≠ .started) (hcompleted : o ≠ .completed) : s.Passing (os ++ [o]) pass := by
  obtain ⟨mid, hmid, hvisited⟩ := h
  refine ⟨mid ++ [o], hmid.concat hstarted hcompleted, fun pending hpending method m hm => ?_⟩
  apply (hvisited pending hpending method m hm).imp id
  rintro ⟨name, hname⟩
  exact ⟨name, List.mem_append_left _ hname⟩

/-- **One more output** that neither begins nor ends a pass: a use of a fresh id, or a declaration
that has been made before. -/
theorem SyncedHook.Declared.emit (h : s.Declared os) (hstarted : o ≠ .started)
    (hcompleted : o ≠ .completed) (huse : ∀ id, o = .use id → Fresh os id)
    (hdeclare : ∀ id name, o = .declare id name → o ∈ os) : s.Declared (os ++ [o]) where
  used := by
    refine h.used.concat huse fun id name ho name' hname' => ?_
    have hmem := hdeclare id name ho
    rw [ho] at hmem
    exact h.used.names id name' name hname' hmem
  marked := h.marked.concat hcompleted
  issued id name hmem := by
    rcases List.mem_append.mp hmem with hmem | hmem
    · exact h.issued id name hmem
    · have ho := List.mem_singleton.mp hmem
      have hknown := hdeclare id name ho.symm
      rw [← ho] at hknown
      exact h.issued id name hknown
  entries method m hm := (h.entries method m hm).concat hcompleted
  held := h.held
  passing pass hpass := (h.passing pass hpass).concat hstarted hcompleted

/-! ## Calls -/

/-- A frame may begin for a method that is known. -/
theorem SyncedHook.Declared.begin (h : s.Declared os) {method : Nat} {m : RgMethod}
    (hm : s.Holds method m) (frame : Frame) (hook : HookState) :
    s.Declared (os ++ (begunFrames (hook.begin m frame).2).map SyncOutput.item) := by
  rcases begunFrames_begin m frame hook with hbegun | hbegun
  · rw [hbegun, List.map_nil, List.append_nil]
    exact h
  · rw [hbegun]
    refine h.emit nofun nofun (fun id hid => ?_) nofun
    obtain rfl := Item.use.inj hid
    exact (h.entries method m hm).fresh

/-- Two hooks with the same table hold the same. -/
theorem holds_congr (h : s'.hook.methodinfo = s.hook.methodinfo) (method : Nat) (m : RgMethod) :
    s'.Holds method m ↔ s.Holds method m := by
  rw [SyncedHook.Holds, SyncedHook.Holds, h]

/-- One more entry, for a method that had none. -/
theorem lookup_cons_eq_some_iff {table : MethodTable} {method method' : Nat} {m : RgMethod}
    {entry : Option RgMethod} (h : table.lookup method = none) :
    ((method, entry) :: table).lookup method' = some (some m) ↔
      (method' = method ∧ entry = some m) ∨ table.lookup method' = some (some m) := by
  by_cases hmethod : method' = method
  · subst hmethod
    simp [h]
  · rw [table.lookup_cons_of_ne entry hmethod]
    simp [hmethod]

/-- **A method is discovered**: it gets an id that has not been declared yet. -/
theorem SyncedHook.Declared.discover (h : s.Declared os) {method thread : Nat} {m : RgMethod}
    {frame : Frame} {info : Methodinfo} (hlookup : s.hook.methodinfo.lookup method = none)
    (hid : m.functionId.toNat = s.hook.methods.toNat + 1) (hinfo : info.functionId = m.functionId)
    (hholds : ∀ method' m', s'.Holds method' m' ↔
      (method' = method ∧ m' = m) ∨ s.Holds method' m')
    (hmethods : s'.hook.methods = m.functionId)
    (hencoded : s'.encoded = Function.update s.encoded method (some info))
    (hdiscovering : s'.discovering
      = Function.update s.discovering thread (some ⟨m, frame, false⟩))
    (hpass : s'.pass = s.pass) :
    s'.Declared (os ++ [.declare info.functionId info.name]) where
  used := by
    refine h.used.concat nofun fun id name ho name' hname' => ?_
    -- ids that have been declared are at most the counter
    have hissued := h.issued id name' hname'
    obtain ⟨rfl, -⟩ := Item.declare.inj ho
    rw [hinfo, hid] at hissued
    omega
  marked := h.marked.concat nofun
  issued id name hmem := by
    rw [hmethods, hid]
    rcases List.mem_append.mp hmem with hmem | hmem
    · exact (h.issued id name hmem).trans (Nat.le_succ _)
    · obtain ⟨rfl, -⟩ := Item.declare.inj (List.mem_singleton.mp hmem)
      rw [hinfo, hid]
  entries method' m' hm := by
    rcases (hholds method' m').mp hm with ⟨rfl, rfl⟩ | hold
    · refine ⟨?_, info, ?_, hinfo, List.mem_append_right _ (List.mem_singleton_self _)⟩
      · rw [← hinfo]
        exact h.marked.fresh_declare _ _
      · rw [hencoded, Function.update_self]
    · -- an entry from before is for another method, as there was none for this one
      have hne : method' ≠ method := by
        rintro rfl
        rw [SyncedHook.Holds, hlookup] at hold
        cases hold
      obtain ⟨hfresh, hkept⟩ := (h.entries method' m' hold).concat
        (o := .declare info.functionId info.name) nofun
      refine ⟨hfresh, ?_⟩
      rw [hencoded, Function.update_of_ne hne]
      exact hkept
  held thread' d hd := by
    rw [hdiscovering] at hd
    rcases PartialMap.insert_eq_some_iff.mp hd with ⟨-, rfl⟩ | ⟨-, hold⟩
    · exact ⟨rfl, method, (hholds _ _).mpr (.inl ⟨rfl, rfl⟩)⟩
    · obtain ⟨hfreed, method', hm⟩ := h.held thread' d hold
      exact ⟨hfreed, method', (hholds _ _).mpr (.inr hm)⟩
  passing pass hp := by
    rw [hpass] at hp
    obtain ⟨mid, hmid, hvisited⟩ := h.passing pass hp
    refine ⟨_, hmid.concat (o := .declare info.functionId info.name) nofun nofun, ?_⟩
    intro pending hpending method' m' hm
    rcases (hholds method' m').mp hm with ⟨rfl, rfl⟩ | hold
    · refine .inr ⟨info.name, List.mem_append_right _ ?_⟩
      rw [hinfo]
      exact List.mem_singleton_self _
    · apply (hvisited pending hpending method' m' hold).imp id
      rintro ⟨name, hname⟩
      exact ⟨name, List.mem_append_left _ hname⟩

/-- Calls keep the invariant, unless the counter wraps. -/
theorem SyncedHook.Declared.call (h : s.Declared os) {thread : Nat} {frame : Frame}
    {traced : TracedMethod} {garbage : UInt8} (hidle : s.discovering thread = none)
    (hwrap : s.Discovers config thread frame traced garbage →
      s.hook.methods.toNat + 1 < UInt32.size) :
    (s.call config thread frame traced garbage).1.Declared
      (os ++ (s.call config thread frame traced garbage).2.map SyncOutput.item) := by
  have hcall := s.callSyncs config thread frame traced garbage
  generalize s.call config thread frame traced garbage = called at hcall ⊢
  cases hcall with
  | ignored _ =>
      rw [List.map_nil, List.append_nil]
      exact h.keep (fun _ _ => Iff.rfl) rfl rfl (fun _ _ hd => hd) rfl
  | known m _ hm =>
      obtain ⟨htable, hmethods⟩ := (s.hook.on thread).entered.begin_methodinfo m frame
      exact (h.begin hm frame _).keep (holds_congr htable) hmethods rfl (fun _ _ hd => hd) rfl
  | blacklisted _ hlookup _ =>
      rw [List.map_nil, List.append_nil]
      refine h.keep (fun method m => ?_) rfl rfl (fun _ _ hd => hd) rfl
      refine (lookup_cons_eq_some_iff hlookup).trans (or_iff_right ?_)
      rintro ⟨-, hnone⟩
      cases hnone
  | discovered m hpasses hlookup hclassify hid =>
      -- the new id is the next one, since the counter does not wrap
      have hbound := hwrap ⟨hidle, hpasses, hlookup, by rw [hclassify]; exact Option.some_ne_none _⟩
      have hnext : m.functionId.toNat = s.hook.methods.toNat + 1 := by
        rw [hid, UInt32.toNat_add]
        exact Nat.mod_eq_of_lt hbound
      refine h.discover hlookup hnext rfl (fun method' m' => ?_) hid.symm rfl rfl rfl
      refine (lookup_cons_eq_some_iff hlookup).trans (or_congr_left ?_)
      rw [Option.some.injEq, eq_comm (a := m)]

/-! ## The rest of a call, and rules -/

/-- The rest of a call begins a frame of a method that is in the table. -/
theorem SyncedHook.Declared.resume (h : s.Declared os) {thread : Nat} {d : Discovering}
    (hd : s.discovering thread = some d) (stale : RgMethod) :
    (s.resume thread d stale).1.Declared
      (os ++ (s.resume thread d stale).2.map SyncOutput.item) := by
  obtain ⟨hfreed, method, hm⟩ := h.held thread d hd
  unfold SyncedHook.resume
  dsimp only
  rw [hfreed, if_neg Bool.false_ne_true]
  obtain ⟨htable, hmethods⟩ := (s.hook.on thread).begin_methodinfo d.rgMethod d.frame
  exact (h.begin hm d.frame _).keep (holds_congr htable) hmethods rfl
    (fun _ _ hd => (PartialMap.erase_eq_some_iff.mp hd).2) rfl

/-- A rule that comes while no thread discovers a method keeps the invariant: it takes away entries.
-/
theorem SyncedHook.Declared.addRule (h : s.Declared os) {r : Rule}
    (hidle : r.Effective → ∀ thread, s.discovering thread = none) : (s.addRule r).Declared os := by
  unfold SyncedHook.addRule
  by_cases heffective : r.Effective
  · rw [if_pos heffective]
    have hempty : (s.hook.addRule r).methodinfo = [] ∧
        (s.hook.addRule r).methods = s.hook.methods := by
      rw [RuledHook.addRule, if_pos heffective]
      exact ⟨rfl, rfl⟩
    -- nothing is in the table any more, and nothing was held outside of it
    have hnone : ∀ method m,
        ¬ SyncedHook.Holds { s.flushed with hook := s.hook.addRule r } method m := by
      intro method m hm
      rw [SyncedHook.Holds, hempty.1] at hm
      cases hm
    refine ⟨h.used, h.marked, ?_, fun method m hm => absurd hm (hnone method m), ?_, ?_⟩
    · rw [hempty.2]
      exact h.issued
    · intro thread d hd
      have hmap : (s.discovering thread).map _ = some d := hd
      rw [hidle heffective thread] at hmap
      cases hmap
    · intro pass hpass
      obtain ⟨pass', hpass', -⟩ := Option.map_eq_some_iff.mp hpass
      obtain ⟨mid, hmid, -⟩ := h.passing pass' hpass'
      exact ⟨mid, hmid, fun _ _ method m hm => absurd hm (hnone method m)⟩
  · rw [if_neg heffective]
    exact h

/-! ## Passes -/

/-- The beginning of a pass keeps the invariant. -/
theorem SyncedHook.Declared.begun (h : s.Declared os) :
    SyncedHook.Declared { s with pass := some .frequency } (os ++ [.started]) where
  used := h.used.concat nofun nofun
  marked := h.marked.concat nofun
  issued id name hmem := h.issued id name (mem_concat_of_ne hmem nofun)
  entries method m hm := by
    obtain ⟨hfresh, hkept⟩ := (h.entries method m hm).concat (o := .started) nofun
    exact ⟨hfresh, hkept⟩
  held := h.held
  passing pass hpass := by
    obtain rfl := Option.some.inj hpass
    exact ⟨[], inPass_started os, nofun⟩

/-- **A pass is complete**: it has declared all that the table holds. -/
theorem SyncedHook.Declared.complete (h : s.Declared os) {mid : List (Item UInt32 Bytes)}
    (hmid : InPass os mid)
    (hvisited : ∀ method m, s.Holds method m → ∃ name, .declare m.functionId name ∈ mid) :
    SyncedHook.Declared { s with pass := none } (os ++ [.completed]) where
  used := h.used.concat nofun nofun
  marked := hmid.marked
  issued id name hmem := h.issued id name (mem_concat_of_ne hmem nofun)
  entries method m hm := by
    obtain ⟨name, hname⟩ := hvisited method m hm
    obtain ⟨info, hinfo, hid, hmem⟩ := (h.entries method m hm).encoded
    exact ⟨hmid.fresh_complete hname, info, hinfo, hid, List.mem_append_left _ hmem⟩
  held := h.held
  passing pass hpass := nomatch hpass

/-- The start of a pass keeps the invariant; a pass over an empty table is complete at once. -/
theorem SyncedHook.Declared.startPass (h : s.Declared os) (hpass : s.pass = none) :
    s.startPass.1.Declared (os ++ s.startPass.2.map SyncOutput.item) := by
  unfold SyncedHook.startPass
  by_cases hempty : s.hook.methodinfo = []
  · rw [if_pos hempty]
    have hcomplete := h.begun.complete (inPass_started os) fun method m hm => by
      rw [SyncedHook.Holds, hempty] at hm
      cases hm
    rw [List.append_assoc] at hcomplete
    have hsame : { s with pass := none } = s := by
      rw [← hpass]
    rwa [hsame] at hcomplete
  · rw [if_neg hempty]
    have hstarted := h.begun.emit (o := .other) nofun nofun nofun nofun
    rwa [List.append_assoc] at hstarted

/-- A method of the table is among its keys. -/
theorem SyncedHook.Holds.mem_keys {method : Nat} {m : RgMethod} (h : s.Holds method m) :
    method ∈ s.hook.methodinfo.map Prod.fst := by
  obtain ⟨before, after, heq, -⟩ := List.lookup_eq_some_iff.mp h
  rw [heq]
  simp

/-- The process type follows the process frequency. -/
theorem SyncedHook.Declared.sendProcessType (h : s.Declared os) {mid : List (Item UInt32 Bytes)}
    (hmid : InPass os mid) :
    SyncedHook.Declared { s with pass := some .processType } (os ++ [.other]) := by
  have hemit := h.emit (o := .other) nofun nofun nofun nofun
  exact hemit.setPass ⟨_, hmid.concat nofun nofun, nofun⟩

/-- The walk has the whole table in front of it. -/
theorem SyncedHook.Declared.startWalk (h : s.Declared os) {mid : List (Item UInt32 Bytes)}
    (hmid : InPass os mid) :
    SyncedHook.Declared { s with pass := some (.walking (s.hook.methodinfo.map Prod.fst)) } os := by
  refine h.setPass ⟨mid, hmid, fun pending heq method m hm => ?_⟩
  obtain rfl := ResyncPass.walking.inj heq
  exact .inl hm.mem_keys

/-- A visit declares the method again, as it has been declared before. -/
theorem SyncedHook.Declared.visit (h : s.Declared os) {pending : List Nat}
    (hpass : s.pass = some (.walking pending)) (method : Nat) :
    (s.visit pending method).1.Declared
      (os ++ (s.visit pending method).2.map SyncOutput.item) := by
  obtain ⟨mid, hmid, hvisited⟩ := h.passing _ hpass
  have hpending : ∀ method' m, s.Holds method' m → method' ≠ method →
      method' ∈ pending.filter (· ≠ method) ∨ ∃ name, .declare m.functionId name ∈ mid := by
    intro method' m hm hne
    refine (hvisited pending rfl method' m hm).imp (fun hmem => ?_) id
    exact List.mem_filter.mpr ⟨hmem, decide_eq_true hne⟩
  unfold SyncedHook.visit
  dsimp only
  cases hlookup : s.hook.methodinfo.lookup method with
  | none =>
      rw [List.map_nil, List.append_nil]
      exact h
  | some entry =>
      cases entry with
      | none =>
          rw [List.map_nil, List.append_nil]
          -- a blacklisted method has no METHODINFO to send
          refine h.setPass ⟨mid, hmid, fun pending' heq method' m hm => ?_⟩
          obtain rfl := ResyncPass.walking.inj heq
          apply hpending method' m hm
          rintro rfl
          rw [SyncedHook.Holds, hlookup] at hm
          cases hm
      | some m =>
          -- the entry keeps what has declared it
          obtain ⟨info, hinfo, hid, hmem⟩ := (h.entries method m hlookup).encoded
          rw [hinfo]
          have hemit := h.emit (o := .declare info.functionId info.name) nofun nofun nofun
            fun _ _ _ => hmem
          refine hemit.setPass ⟨_, hmid.concat nofun nofun, fun pending' heq method' m' hm => ?_⟩
          obtain rfl := ResyncPass.walking.inj heq
          by_cases hne : method' = method
          · subst hne
            rw [SyncedHook.Holds, hlookup] at hm
            obtain rfl := Option.some.inj (Option.some.inj hm)
            refine .inr ⟨info.name, List.mem_append_right _ ?_⟩
            rw [← hid]
            exact List.mem_singleton_self _
          · apply (hpending method' m' hm hne).imp id
            rintro ⟨name, hname⟩
            exact ⟨name, List.mem_append_left _ hname⟩

/-! ## Runs -/

/-- **Every event keeps the invariant**, unless it disturbs. -/
theorem declared_syncStep (os : List SyncOutput) (s : SyncedHook) (e : SyncEvent)
    (h : s.Declared (os.map SyncOutput.item)) (hC : Undisturbed config s e) :
    (syncStep config s e).1.Declared ((os ++ (syncStep config s e).2).map SyncOutput.item) := by
  rw [List.map_append]
  have hsame : s.Declared (os.map SyncOutput.item ++ List.map SyncOutput.item []) := by
    rwa [List.map_nil, List.append_nil]
  cases e with
  | addRule r =>
      rw [syncStep, List.map_nil, List.append_nil]
      exact h.addRule hC
  | call thread frame traced garbage =>
      rw [syncStep]
      cases hdiscovering : s.discovering thread with
      | some d => exact hsame
      | none => exact h.call hdiscovering hC
  | resume thread stale =>
      rw [syncStep]
      cases hdiscovering : s.discovering thread with
      | some d => exact h.resume hdiscovering stale
      | none => exact hsame
  | interrupt thread =>
      exact hsame.keep (fun _ _ => Iff.rfl) rfl rfl
        (fun _ _ hd => (PartialMap.erase_eq_some_iff.mp hd).2) rfl
  | other thread shadow =>
      exact hsame.keep (fun _ _ => Iff.rfl) rfl rfl (fun _ _ hd => hd) rfl
  | startPass =>
      rw [syncStep]
      cases hpass : s.pass with
      | some pass => exact hsame
      | none => exact h.startPass hpass
  | continuePass =>
      rw [syncStep]
      cases hpass : s.pass with
      | none => exact hsame
      | some pass =>
          obtain ⟨mid, hmid, -⟩ := h.passing pass hpass
          cases pass with
          | frequency =>
              exact h.sendProcessType hmid
          | processType =>
              rw [List.map_nil, List.append_nil]
              exact h.startWalk hmid
          | walking pending => exact hsame
  | visit method =>
      rw [syncStep]
      cases hpass : s.pass with
      | none => exact hsame
      | some pass =>
          cases pass with
          | frequency => exact hsame
          | processType => exact hsame
          | walking pending => exact h.visit hpass method
  | finishPass =>
      rw [syncStep]
      cases hpass : s.pass with
      | none => exact hsame
      | some pass =>
          cases pass with
          | frequency => exact hsame
          | processType => exact hsame
          | walking pending =>
              cases pending with
              | cons method pending => exact hsame
              | nil =>
                  obtain ⟨mid, hmid, hvisited⟩ := h.passing _ hpass
                  exact h.complete hmid fun method m hm =>
                    (hvisited [] rfl method m hm).resolve_left List.not_mem_nil

/-- **Function ids are declared before use.** In every run of calls, rules and resync passes in
which no effective rule comes between a METHODINFO and its BEGIN, and the counter of methods does
not wrap, the id of every BEGIN has been declared, since the start of the latest completed pass if
there is one, and no id is declared for two names. -/
theorem syncedHook_declaresBeforeUse (config : HookConfig) (events : List SyncEvent)
    (h : Mealy.AllSteps (syncStep config) (Undisturbed config) .new events) :
    DeclaresBeforeUse config events := by
  have hnew : SyncedHook.new.Declared (([] : List SyncOutput).map SyncOutput.item) :=
    SyncedHook.declared_new
  exact (Mealy.run_history_of_allSteps
    (P := fun os (s : SyncedHook) => s.Declared (os.map SyncOutput.item)) declared_syncStep hnew h).used

/-- A thread discovers `Foo#bar` while a pass begins, and another one calls it when the pass is
complete. -/
def resyncedRun : List SyncEvent :=
  [.call 0 (frameOf 0) (fooBar.method 0) 0, .startPass, .resume 0 ⟨7, .userCode⟩, .continuePass,
    .continuePass, .visit 0, .finishPass, .call 1 (frameOf 0) (fooBar.method 0) 1]

/-- The run with a resynchronisation declares its ids before their use. -/
theorem syncedHook_declaresBeforeUse_resyncedRun : DeclaresBeforeUse fooBar resyncedRun := by
  refine syncedHook_declaresBeforeUse fooBar resyncedRun
    ⟨fun _ => ?_, trivial, trivial, trivial, trivial, trivial, trivial, fun _ => ?_, trivial⟩
  · decide
  · decide +kernel

/-- A rule frees `Foo#bar` while a thread is between METHODINFO and BEGIN. The BEGIN carries what
the freed memory holds, an id that was never declared. -/
theorem not_declaresBeforeUse_addRule :
    ¬ DeclaresBeforeUse fooBar
      [.call 0 (frameOf 0) (fooBar.method 0) 0, .addRule whitelistBaz, .resume 0 ⟨7, .userCode⟩] := by
  intro h
  have hstream : (Mealy.run (syncStep fooBar) .new [.call 0 (frameOf 0) (fooBar.method 0) 0,
      .addRule whitelistBaz, .resume 0 ⟨7, .userCode⟩]).2.map SyncOutput.item
      = [.declare 1 (ascii "Foo#bar"), .use 7] := by decide +kernel
  rw [DeclaresBeforeUse, hstream] at h
  obtain ⟨name, hname⟩ := (h.uses [.declare 1 (ascii "Foo#bar")] 7 [] rfl).declared
  simp at hname

end RaygunApm
