import Machine6502.Proofs.Commands
import Machine6502.Proofs.HaltedFlag
import Machine6502.Proofs.PairedRuns

/-!
# The halted flag and the log

The log of a machine tells each opcode that it recognises and each reset.  The last of
these in the log, and nothing else, decides the halted flag: it is on exactly when the
last of them is a break.
-/

namespace Machine6502

namespace Event

/-- What an event tells about the halted flag: an opcode whether it is a break, and a reset
that the flag is off. -/
def halts? : Event → Option Bool
  | .fetch _ opcode _ => some (decide (opcode.code = 0x00))
  | .reset _ => some false
  | _ => none

/-- The halted flag after some events, with what it was before them. -/
def haltedAfter (before : Bool) (events : List Event) : Bool :=
  (events.reverse.findSome? halts?).getD before

/-- The events tell nothing about the flag. -/
def Quiet (events : List Event) : Prop :=
  ∀ event ∈ events, event.halts? = none

variable {before : Bool} {events : List Event}

@[simp]
theorem quiet_nil : Quiet [] :=
  List.forall_mem_nil _

@[simp]
theorem quiet_cons {event : Event} :
    Quiet (event :: events) ↔ event.halts? = none ∧ Quiet events :=
  List.forall_mem_cons

theorem Quiet.haltedAfter (hquiet : Quiet events) : haltedAfter before events = before := by
  have hnone : events.reverse.findSome? halts? = none :=
    List.findSome?_eq_none_iff.mpr fun event hevent => hquiet event (List.mem_reverse.mp hevent)
  rw [Event.haltedAfter, hnone, Option.getD_none]

theorem haltedAfter_append (before : Bool) (events later : List Event) :
    haltedAfter before (events ++ later) = haltedAfter (haltedAfter before events) later := by
  rw [haltedAfter, List.reverse_append, List.findSome?_append, Option.getD_or]
  rfl

theorem haltedAfter_cons (before : Bool) (event : Event) {later : List Event}
    (hquiet : Quiet later) : haltedAfter before (event :: later) = event.halts?.getD before := by
  rw [← List.singleton_append, haltedAfter_append, hquiet.haltedAfter]
  cases event <;> rfl

theorem halts?_eq_some_true_iff {event : Event} : event.halts? = some true ↔
    ∃ address opcode registers, event = .fetch address opcode registers ∧ opcode.code = 0x00 := by
  constructor
  · intro htold
    cases event with
    | fetch address opcode registers =>
        exact ⟨address, opcode, registers, rfl, of_decide_eq_true (Option.some.inj htold)⟩
    | reset entry => exact nomatch Option.some.inj htold
    | _ => exact nomatch htold
  · rintro ⟨address, opcode, registers, rfl, hcode⟩
    exact congrArg some (decide_eq_true hcode)

/-- The flag is on after events that it was off before, exactly when the last event that
tells of it is a recognised break. -/
theorem haltedAfter_false_iff : haltedAfter false events = true ↔
    ∃ earlier address opcode registers later,
      events = earlier ++ .fetch address opcode registers :: later ∧ opcode.code = 0x00 ∧
        Quiet later := by
  have hsome : haltedAfter false events = true ↔
      events.reverse.findSome? halts? = some true := by
    rw [haltedAfter]
    cases events.reverse.findSome? halts? <;> simp
  rw [hsome, List.findSome?_eq_some_iff]
  constructor
  · rintro ⟨later, event, earlier, hsplit, hevent, hlater⟩
    obtain ⟨address, opcode, registers, rfl, hcode⟩ := halts?_eq_some_true_iff.mp hevent
    refine ⟨earlier.reverse, address, opcode, registers, later.reverse, ?_, hcode, ?_⟩
    · rw [← List.reverse_reverse events, hsplit]
      simp
    · exact fun event hevent => hlater event (List.mem_reverse.mp hevent)
  · rintro ⟨earlier, address, opcode, registers, later, rfl, hcode, hlater⟩
    refine ⟨later.reverse, .fetch address opcode registers, earlier.reverse, ?_, ?_, ?_⟩
    · simp
    · exact halts?_eq_some_true_iff.mpr ⟨address, opcode, registers, rfl, hcode⟩
    · exact fun event hevent => hlater event (List.mem_reverse.mp hevent)

theorem quiet_zipWith_push (bytes : List UInt8) (cells : List UInt16) :
    Quiet (List.zipWith .push bytes cells) := by
  induction bytes generalizing cells with
  | nil => exact quiet_nil
  | cons byte bytes ih =>
      cases cells with
      | nil => exact quiet_nil
      | cons cell cells => exact quiet_cons.mpr ⟨rfl, ih cells⟩

end Event

namespace Cpu

open Event

theorem quiet_pushEvents (cpu : Cpu) (bytes : List UInt8) : Quiet (cpu.pushEvents bytes) :=
  quiet_zipWith_push bytes _

theorem quiet_popEvents (cpu : Cpu) (count : Nat) : Quiet (cpu.popEvents count) :=
  List.forall_mem_map.mpr fun _ _ => rfl

theorem quiet_loadEvents (program : List UInt8) (origin : UInt16) :
    Quiet (loadEvents program origin) := by
  simp [loadEvents, halts?]

theorem haltedAfter_resetEvents (cpu : Cpu) (before : Bool) :
    haltedAfter before cpu.resetEvents = cpu.reset.halted :=
  haltedAfter_cons before _ quiet_nil

theorem quiet_endEvents (ending : Ending) (cpu : Cpu) : Quiet (endEvents ending cpu) := by
  rw [endEvents]
  split <;> simp [halts?]

/-- The stack is all that an instruction tells of. -/
theorem quiet_instruction (instruction : Instruction) (cpu : Cpu) :
    Quiet (instruction.events cpu) := by
  cases instruction with
  | addressed operation => exact quiet_nil
  | implied operation =>
      cases operation with
      | push | pushStatus => exact quiet_pushEvents cpu _
      | pull | pullStatus => exact quiet_popEvents cpu 1
      | _ => exact quiet_nil
  | control operation =>
      cases operation with
      | call => exact quiet_pushEvents cpu _
      | returnFromCall | returnFromInterrupt => exact quiet_popEvents cpu _
      | _ => exact quiet_nil

/-- A step tells what becomes of the flag: nothing, or whether its opcode is a break. -/
theorem halted_step (cpu : Cpu) : cpu.step.2.halted = haltedAfter cpu.halted cpu.stepEvents := by
  have hcode : cpu.read cpu.pc = cpu.code := rfl
  cases hdecode : Opcode.decode cpu.code with
  | none =>
      have hevents : cpu.stepEvents = [.unrecognized cpu.code cpu.pc] := by
        simp only [stepEvents, hcode, hdecode]
      rw [hevents, halted_step_of_decode_eq_none hdecode, Quiet.haltedAfter (by simp [halts?])]
  | some opcode =>
      obtain ⟨-, hopcode⟩ := Opcode.mem_table_of_decode hdecode
      have hknown : Opcode.decode cpu.code ≠ none := hdecode ▸ Option.some_ne_none opcode
      simp only [stepEvents, hcode, hdecode]
      rw [haltedAfter_cons _ _ (quiet_instruction _ _), halted_step_of_decode hknown, ← hopcode]
      rfl

end Cpu

/-- A host that has no part in the flag, nor do its events. -/
structure Host.SparesFlag {σ : Type} (host : Host σ) (hostEvents : σ → Cpu → List Event) :
    Prop where
  keeps : host.KeepsCells
  halted : ∀ state cpu, (host.act state cpu).2.halted = cpu.halted
  quiet : ∀ state cpu, Event.Quiet (hostEvents state cpu)

theorem Host.sparesFlag_idleHost : Cpu.idleHost.SparesFlag fun _ _ => [] :=
  ⟨keepsCells_idleHost, fun _ _ => rfl, fun _ _ => Event.quiet_nil⟩

theorem Script.sparesFlag_host (script : Script) : script.host.SparesFlag script.events := by
  refine ⟨fun number cpu hfull => (script.size_apply number cpu).trans hfull,
    fun number cpu => ?_, fun number cpu => List.forall_mem_map.mpr fun _ _ => rfl⟩
  obtain ⟨change, hchange⟩ := script.apply_eq number
  have hhalted := congrArg Cpu.halted (hchange cpu)
  exact hhalted

namespace Cpu

open Event

variable {σ : Type} {host : Host σ} {hostEvents : σ → Cpu → List Event}

/-- A run that is recorded and the same run that is not, between two rounds: the events so
far tell what has become of the flag. -/
structure Recorded (before : Bool) (recorded : Recorder σ × Cpu) (plain : σ × Cpu) : Prop where
  host : recorded.1.host = plain.1
  cpu : recorded.2 = plain.2
  full : plain.2.memory.size = Memory.addressCount
  halted : plain.2.halted = haltedAfter before recorded.1.events.reverse

theorem Recorded.round (hspares : host.SparesFlag hostEvents) {before : Bool}
    {recorded : Recorder σ × Cpu} {plain : σ × Cpu} (hrecorded : Recorded before recorded plain) :
    Recorded before ((recording host hostEvents).round recorded) (host.round plain) := by
  obtain ⟨⟨state, events⟩, cpu⟩ := recorded
  obtain ⟨state', cpu'⟩ := plain
  obtain ⟨rfl, rfl, hfull, hhalted⟩ := hrecorded
  refine ⟨rfl, rfl, hspares.keeps.round hfull, ?_⟩
  calc
    (host.act state cpu).2.step.2.halted
        = haltedAfter (host.act state cpu).2.halted (host.act state cpu).2.stepEvents :=
      halted_step _
    _ = haltedAfter (haltedAfter cpu.halted (hostEvents state cpu))
          (host.act state cpu).2.stepEvents := by
      rw [(hspares.quiet state cpu).haltedAfter, hspares.halted]
    _ = haltedAfter before
          (events.reverse ++ (hostEvents state cpu ++ (host.act state cpu).2.stepEvents)) := by
      rw [haltedAfter_append, haltedAfter_append, ← hhalted]
    _ = _ := by
      rw [← List.reverse_reverse (hostEvents state cpu ++ _), ← List.reverse_append]
      rfl

theorem keepInStep_recording (hspares : host.SparesFlag hostEvents) (before : Bool) :
    (recording host hostEvents).KeepInStep host fun _ => Recorded before where
  ends hrecorded := by
    rw [← hrecorded.host, ← hrecorded.cpu]
    rfl
  fits := by
    rintro - ⟨recorder, cpu⟩ ⟨state, cpu'⟩ ⟨rfl, rfl, hfull, -⟩ -
    have hfits := stepFits_of_full (Nat.le_of_eq (hspares.keeps recorder.host cpu hfull).symm)
    exact ⟨hfits, hfits⟩
  outcome := by
    rintro - ⟨recorder, cpu⟩ ⟨state, cpu'⟩ ⟨rfl, rfl, -, -⟩ -
    rfl
  goesOn hrecorded _ _ := hrecorded.round hspares
  stops hrecorded _ _ := hrecorded.round hspares

/-- The events of a recorded run tell what becomes of the flag in the run. -/
theorem halted_runFor (hspares : host.SparesFlag hostEvents) (fuel : Nat) (state : σ) {cpu : Cpu}
    (hfull : cpu.memory.size = Memory.addressCount) :
    (runFor host fuel state cpu).cpu.halted = haltedAfter cpu.halted
      (runFor (recording host hostEvents) fuel ⟨state, []⟩ cpu).host.events.reverse := by
  have hstart : Recorded cpu.halted (⟨state, []⟩, cpu) (state, cpu) := ⟨rfl, rfl, hfull, rfl⟩
  obtain ⟨-, -, hfinish⟩ :=
    runFor_keepInStep (keepInStep_recording hspares cpu.halted) fuel hstart
  exact hfinish.halted

theorem halted_runEvents (hspares : host.SparesFlag hostEvents) (state : σ) {cpu : Cpu}
    (hfull : cpu.memory.size = Memory.addressCount) :
    (runWith host state cpu).cpu.halted =
      haltedAfter cpu.halted (runEvents host hostEvents state cpu) := by
  rw [runEvents, haltedAfter_append, (quiet_endEvents _ _).haltedAfter]
  exact halted_runFor hspares stepBound state hfull

end Cpu

/-- Whether the log of a command tells what becomes of the halted flag.  That of another
machine, of a machine from a snapshot, and of an instruction that is carried out without
a fetch does not. -/
def Command.tellsHalted : Command → Bool
  | .restart => false
  | .execute _ _ => false
  | .restore => false
  | .restoreSnapshot _ => false
  | _ => true

namespace Monitor

open Event

variable {monitor : Monitor}

theorem halted_of_quiet {next : Monitor} (hhalted : next.cpu.halted = monitor.cpu.halted)
    {events : List Event} (hquiet : Quiet events) :
    next.cpu.halted = haltedAfter monitor.cpu.halted events :=
  hhalted.trans hquiet.haltedAfter.symm

/-- The log of a command tells what becomes of the flag. -/
theorem halted_after (hfull : monitor.cpu.memory.size = Memory.addressCount) {command : Command}
    (htells : command.tellsHalted = true) :
    (monitor.after command).cpu.halted =
      haltedAfter monitor.cpu.halted (monitor.events command) := by
  cases command with
  | restart | execute | restore | restoreSnapshot => exact nomatch htells
  | push value => exact halted_of_quiet rfl (Cpu.quiet_pushEvents _ _)
  | pushWord word => exact halted_of_quiet rfl (Cpu.quiet_pushEvents _ _)
  | pop => exact halted_of_quiet rfl (Cpu.quiet_popEvents _ 1)
  | popWord => exact halted_of_quiet rfl (Cpu.quiet_popEvents _ 2)
  | loadAt program origin => exact halted_of_quiet rfl (Cpu.quiet_loadEvents program origin)
  | updateScreen =>
      refine halted_of_quiet rfl ?_
      rw [events]
      split <;> simp [halts?]
  | press text =>
      refine halted_of_quiet ?_ (List.forall_mem_map.mpr fun _ _ => rfl)
      rw [after]
      split <;> rfl
  | reset => exact (monitor.cpu.haltedAfter_resetEvents _).symm
  | step count => exact Cpu.halted_runFor Host.sparesFlag_idleHost count () hfull
  | run => exact Cpu.halted_runEvents Host.sparesFlag_idleHost () hfull
  | runScript script => exact Cpu.halted_runEvents script.sparesFlag_host 0 hfull
  | loadAndRun program =>
      have hreset : (monitor.cpu.loadAt program Cpu.defaultOrigin).reset.memory.size =
          Memory.addressCount :=
        (Cpu.size_loadAt (Nat.le_of_eq hfull.symm) program Cpu.defaultOrigin).trans hfull
      have hlog := Cpu.halted_runEvents Host.sparesFlag_idleHost () hreset
      rw [events, haltedAfter_append, haltedAfter_append, Cpu.haltedAfter_resetEvents, after,
        withCpu_cpu, Cpu.run, hlog]
  | _ => exact halted_of_quiet rfl quiet_nil

/-- The log of a list of commands, up to one that has no reply. -/
def history (monitor : Monitor) : List Command → List Event
  | [] => []
  | command :: commands =>
      monitor.events command ++
        (monitor.perform command).elim [] fun (_, next) => next.history commands

theorem halted_performAll (hsized : monitor.Sized {Memory.addressCount}) {commands : List Command}
    (htell : ∀ command ∈ commands, command.tellsHalted = true) :
    ∃ final, monitor.performAll commands = some final ∧
      final.cpu.halted = haltedAfter monitor.cpu.halted (monitor.history commands) := by
  induction commands generalizing monitor with
  | nil => exact ⟨monitor, rfl, quiet_nil.haltedAfter.symm⟩
  | cons command commands ih =>
      have htells := htell command List.mem_cons_self
      have hown : command.restoresSnapshot = false := by
        cases command with
        | restoreSnapshot => exact nomatch htells
        | _ => rfl
      obtain ⟨reply, next, hnext, hsized'⟩ := perform_of_sized .singleton hsized hown
      obtain ⟨final, hfinal, hhalted⟩ :=
        ih hsized' fun later hlater => htell later (List.mem_cons_of_mem _ hlater)
      refine ⟨final, ?_, ?_⟩
      · rw [performAll, hnext]
        exact hfinal
      · rw [history, hnext, Option.elim_some, haltedAfter_append,
          ← halted_after hsized.cpu htells, ← perform_snd (reply, next) hnext]
        exact hhalted

/-- Monitors that are equal but for the halted flags in them do alike whatever does not
show the flags, and on a new machine the flag is on exactly when an opcode was recognised
since it was built or last reset and the last one was a break. -/
theorem halted_flag_is_last_break :
    (∀ first second : Monitor, first.unhalted = second.unhalted → first.AlikeButHalted second) ∧
    ∀ start : Monitor, start.cpu = .initial → start.Sized {Memory.addressCount} →
      ∀ commands : List Command, (∀ command ∈ commands, command.tellsHalted = true) →
        ∃ final, start.performAll commands = some final ∧
          (final.cpu.halted = true ↔ ∃ earlier address opcode registers later,
            start.history commands = earlier ++ .fetch address opcode registers :: later ∧
              opcode.code = 0x00 ∧ Quiet later) := by
  refine ⟨fun _ _ => alikeButHalted_of_unhalted, fun start hinitial hsized commands htell => ?_⟩
  obtain ⟨final, hfinal, hhalted⟩ := halted_performAll hsized htell
  have hbuilt : start.cpu.halted = false := congrArg Cpu.halted hinitial
  rw [hbuilt] at hhalted
  exact ⟨final, hfinal, hhalted ▸ haltedAfter_false_iff⟩

theorem performAll_step_of_break (hfull : monitor.cpu.memory.size = Memory.addressCount)
    (hcode : monitor.cpu.code = 0x00) :
    monitor.performAll [.step 1] =
      some (monitor.withCpu { monitor.cpu with pc := monitor.cpu.pc + 1, halted := true }) := by
  simp only [performAll, perform, Cpu.steps?, Cpu.stepsFrom,
    Cpu.step?_of_full _ (Nat.le_of_eq hfull.symm), Cpu.step_of_break hcode]
  rfl

theorem unhalted_withCpu (monitor : Monitor) (flag : Bool) :
    (monitor.withCpu { monitor.cpu with halted := flag }).unhalted = monitor.unhalted :=
  rfl

/-- The first byte of a new machine is a break, and a flag that is on before it is not
noticed. -/
theorem halted_flag_is_last_break_on_blank_memory :
    (initial.withCpu { initial.cpu with halted := true }).unhalted = initial.unhalted ∧
      ((initial.withCpu { initial.cpu with halted := true }).transcript [.step 1]).map
          (Prod.map id unhalted) =
        (initial.transcript [.step 1]).map (Prod.map id unhalted) ∧
      initial.Sized {Memory.addressCount} ∧
      ∃ final, initial.performAll [.step 1] = some final ∧ final.cpu.halted = true ∧
        ∃ earlier address opcode registers later,
          initial.history [.step 1] = earlier ++ .fetch address opcode registers :: later ∧
            opcode.code = 0x00 ∧ Quiet later := by
  have hsame := unhalted_withCpu initial true
  have hsized := sized_initial .singleton
  obtain ⟨halike, hlast⟩ := halted_flag_is_last_break
  obtain ⟨final, hfinal, hhalted⟩ := hlast initial rfl hsized [.step 1] (by decide)
  have hstep := performAll_step_of_break hsized.cpu (Memory.read_blank 0)
  have hon : final.cpu.halted = true := by
    rw [← Option.some.inj (hstep.symm.trans hfinal), withCpu]
  exact ⟨hsame, (halike _ _ hsame).replies [.step 1] (by decide), hsized, final, hfinal, hon,
    hhalted.mp hon⟩

end Monitor

end Machine6502
