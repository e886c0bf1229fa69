import Machine6502.Proofs.Sessions

/-!
# The halted flag is not read

The halted flag of a machine is set by a break and taken back by the next fetch, and
nothing but a snapshot shows it.  Machines that are equal but for this flag answer every
other command alike and stay equal but for it.
-/

namespace Machine6502

/-- The machine with the halted flag taken back. -/
def Cpu.unhalted (cpu : Cpu) : Cpu :=
  { cpu with halted := false }

/-- A result and a machine, with the halted flag of the machine taken back. -/
def hideHalted {α : Type} (result : α × Cpu) : α × Cpu :=
  (result.1, result.2.unhalted)

/-- What is the same with the flag taken back is the same for machines that are equal but
for the flag. -/
theorem Cpu.congr_unhalted {α : Type} (value : Cpu → α)
    (hblind : ∀ cpu, value cpu.unhalted = value cpu) {first second : Cpu}
    (hsame : first.unhalted = second.unhalted) : value first = value second :=
  calc
    value first = value first.unhalted := (hblind first).symm
    _ = value second.unhalted := congrArg value hsame
    _ = value second := hblind second

theorem Mode.needed_unhalted (mode : Mode) (cpu : Cpu) :
    mode.needed cpu.unhalted = mode.needed cpu := by
  cases mode <;> rfl

theorem Cpu.operandAddress_unhalted (cpu : Cpu) (mode : Mode) :
    cpu.unhalted.operandAddress mode = cpu.operandAddress mode := by
  cases mode <;> rfl

theorem Instruction.needed_unhalted (instruction : Instruction) (mode : Mode) (cpu : Cpu) :
    instruction.needed mode cpu.unhalted = instruction.needed mode cpu := by
  cases instruction with
  | addressed operation => simp only [needed, mode.needed_unhalted, Cpu.operandAddress_unhalted]
  | implied operation => cases operation <;> rfl
  | control operation => cases operation <;> rfl

theorem Addressed.apply_unhalted (operation : Addressed) (address : UInt16) (cpu : Cpu) :
    operation.apply address cpu.unhalted = (operation.apply address cpu).unhalted := by
  cases operation with
  | load register => cases register <;> rfl
  | store register => cases register <;> rfl
  | compare register => cases register <;> rfl
  | _ => rfl

/-- A break sets the flag whatever it was. -/
theorem Implied.apply_unhalted (operation : Implied) (cpu : Cpu) :
    (operation.apply cpu.unhalted).unhalted = (operation.apply cpu).unhalted := by
  cases operation with
  | transfer source target => cases source <;> cases target <;> rfl
  | increment register => cases register <;> rfl
  | decrement register => cases register <;> rfl
  | _ => rfl

theorem Control.apply_unhalted (operation : Control) (cpu : Cpu) :
    operation.apply cpu.unhalted = (operation.apply cpu).unhalted := by
  cases operation with
  | branch flag value =>
      have hflag : cpu.unhalted.status.get flag = cpu.status.get flag := rfl
      simp only [apply, hflag]
      split <;> rfl
  | _ => rfl

theorem Instruction.execute_unhalted (instruction : Instruction) (mode : Mode) (cpu : Cpu) :
    hideHalted (instruction.execute mode cpu.unhalted) =
      hideHalted (instruction.execute mode cpu) := by
  cases instruction with
  | addressed operation =>
      simp only [execute, Cpu.operandAddress_unhalted]
      split
      · rfl
      · rw [Addressed.apply_unhalted]
        rfl
  | implied operation => exact congrArg (Prod.mk none) (Implied.apply_unhalted operation cpu)
  | control operation =>
      rw [execute, Control.apply_unhalted]
      rfl

namespace Cpu

variable {cpu first second : Cpu}

/-- The fetch of an instruction takes the flag back. -/
theorem step_unhalted_of_decode (hdecode : Opcode.decode cpu.code ≠ none) :
    cpu.unhalted.step = cpu.step := by
  obtain ⟨opcode, hdecode⟩ := Option.ne_none_iff_exists'.mp hdecode
  have hdecode' : Opcode.decode cpu.unhalted.code = some opcode := hdecode
  rw [step_of_decode hdecode, step_of_decode hdecode']
  rfl

/-- A byte that begins no instruction leaves the flag alone. -/
theorem halted_step_of_decode_eq_none (hdecode : Opcode.decode cpu.code = none) :
    cpu.step.2.halted = cpu.halted := by
  rw [step_of_decode_eq_none hdecode]

theorem step_unhalted (cpu : Cpu) : hideHalted cpu.unhalted.step = hideHalted cpu.step := by
  by_cases hdecode : Opcode.decode cpu.code = none
  · have hdecode' : Opcode.decode cpu.unhalted.code = none := hdecode
    rw [step_of_decode_eq_none hdecode, step_of_decode_eq_none hdecode']
    rfl
  · rw [step_unhalted_of_decode hdecode]

/-- A step looks for the same cells whether the flag is on or off. -/
theorem stepFits_unhalted (cpu : Cpu) : cpu.unhalted.stepFits = cpu.stepFits := by
  have hneeded : cpu.unhalted.stepNeeded = cpu.stepNeeded := by
    have hread : cpu.unhalted.read cpu.unhalted.pc = cpu.read cpu.pc := rfl
    rw [stepNeeded, stepNeeded, hread]
    cases Opcode.decode (cpu.read cpu.pc) with
    | none => rfl
    | some opcode =>
        have hcells := opcode.instruction.needed_unhalted opcode.mode
          { cpu with pc := cpu.pc + 1 }
        exact congrArg (List.cons cpu.pc) hcells
  rw [stepFits, stepFits, hneeded]
  rfl

end Cpu

/-- A host to which machines that are equal but for the halted flag are the same. -/
structure Host.Blind {σ : Type} (host : Host σ) : Prop where
  ends : ∀ state cpu, host.ends state cpu.unhalted = host.ends state cpu
  act : ∀ state cpu, hideHalted (host.act state cpu.unhalted) = hideHalted (host.act state cpu)

theorem Host.blind_idleHost : Cpu.idleHost.Blind :=
  ⟨fun _ _ => rfl, fun _ _ => rfl⟩

theorem Script.blind_host (script : Script) : script.host.Blind := by
  refine ⟨fun _ _ => rfl, fun number cpu => ?_⟩
  obtain ⟨change, hchange⟩ := script.apply_eq number
  have hturn : ∀ cpu, script.host.act number cpu =
      (number + 1, { cpu with memory := change cpu.memory }) :=
    fun cpu => congrArg (Prod.mk (number + 1)) (hchange cpu)
  rw [hturn, hturn]
  rfl

/-- A finish with the halted flag of its machine taken back. -/
def Finish.unhalted {σ : Type} (finish : Finish σ) : Finish σ :=
  ⟨finish.ending, finish.host, finish.cpu.unhalted⟩

namespace Cpu

variable {σ : Type} {host : Host σ} {first second : Cpu}

/-- Machines that are equal but for the flag find the same opcode, and the step on it
leaves one machine. -/
theorem step_eq_of_unhalted (hsame : first.unhalted = second.unhalted)
    (hdecode : Opcode.decode first.code ≠ none) : first.step = second.step := by
  have hdecode' : Opcode.decode second.code ≠ none :=
    congr_unhalted code (fun _ => rfl) hsame ▸ hdecode
  calc
    first.step = first.unhalted.step := (step_unhalted_of_decode hdecode).symm
    _ = second.unhalted.step := congrArg step hsame
    _ = second.step := step_unhalted_of_decode hdecode'

/-- On an unknown byte they fail alike and stay equal but for the flag. -/
theorem step_fails_of_unhalted (hsame : first.unhalted = second.unhalted)
    (hdecode : Opcode.decode first.code = none) :
    ∃ fault next next', first.step = (.failed fault, next) ∧
      second.step = (.failed fault, next') ∧ next.unhalted = next'.unhalted := by
  have hdecode' : Opcode.decode second.code = none :=
    congr_unhalted code (fun _ => rfl) hsame ▸ hdecode
  have hstep := congr_unhalted (fun cpu => hideHalted cpu.step) step_unhalted hsame
  simp only [step_of_decode_eq_none hdecode, step_of_decode_eq_none hdecode'] at hstep ⊢
  obtain ⟨houtcome, hnext⟩ := Prod.mk.inj hstep
  exact ⟨_, _, _, rfl, congrArg (·, _) houtcome.symm, hnext⟩

/-- A step from machines that are equal but for the flag, and what follows it.  Only a step
that fails leaves two machines, and there the run ends. -/
theorem runFor_unhalted (hblind : host.Blind) (fuel : Nat) (state : σ) (cpu : Cpu) :
    (runFor host fuel state cpu.unhalted).unhalted = (runFor host fuel state cpu).unhalted := by
  cases fuel with
  | zero => rfl
  | succ fuel =>
      rw [runFor, runFor, hblind.ends]
      cases host.ends state cpu with
      | some ending => rfl
      | none =>
          rcases hturn : host.act state cpu with ⟨after, turned⟩
          rcases hturn' : host.act state cpu.unhalted with ⟨after', turned'⟩
          have hact := hblind.act state cpu
          rw [hturn, hturn'] at hact
          obtain ⟨rfl, hsame⟩ : after' = after ∧ turned'.unhalted = turned.unhalted :=
            Prod.mk.inj hact
          have hfits := congr_unhalted stepFits stepFits_unhalted hsame
          simp only [hfits]
          split
          · by_cases hdecode : Opcode.decode turned'.code = none
            · obtain ⟨fault, next, next', hfirst, hsecond, hnext⟩ :=
                step_fails_of_unhalted hsame hdecode
              simp only [hfirst, hsecond]
              exact congrArg (Finish.mk _ _) hnext
            · rw [step_eq_of_unhalted hsame hdecode]
          · exact congrArg (Finish.mk _ _) hsame

theorem stepsFrom_unhalted (listed : List (Outcome × Registers)) (count : Nat) (cpu : Cpu) :
    (stepsFrom listed count cpu.unhalted).map hideHalted =
      (stepsFrom listed count cpu).map hideHalted := by
  cases count with
  | zero => rfl
  | succ count =>
      rw [stepsFrom, stepsFrom, step?, step?, stepFits_unhalted]
      cases cpu.stepFits with
      | false => rfl
      | true =>
          by_cases hdecode : Opcode.decode cpu.code = none
          · have hdecode' : Opcode.decode cpu.unhalted.code = none := hdecode
            rw [step_of_decode_eq_none hdecode, step_of_decode_eq_none hdecode']
            rfl
          · rw [step_unhalted_of_decode hdecode]

theorem loadAt?_unhalted (cpu : Cpu) (program : List UInt8) (origin : UInt16) :
    cpu.unhalted.loadAt? program origin = (cpu.loadAt? program origin).map unhalted := by
  have hmemory : cpu.unhalted.memory = cpu.memory := rfl
  rw [loadAt?, loadAt?, hmemory]
  split
  · exact (Memory.map_within _ (cpu.loadAt program origin) unhalted).symm
  · rfl

end Cpu

/-- Whether the reply to a command leaves the halted flag out. -/
def Command.hidesHalted : Command → Bool
  | .snapshot => false
  | .snapshotInto _ => false
  | _ => true

namespace Monitor

/-- The monitor with the halted flags of its machines taken back. -/
def unhalted (monitor : Monitor) : Monitor :=
  ⟨monitor.cpu.unhalted, monitor.saved.unhalted, monitor.screen⟩

/-- A reply and a monitor, with the halted flags of its machines taken back. -/
def hideFlags (answer : Reply × Monitor) : Reply × Monitor :=
  (answer.1, answer.2.unhalted)

variable {monitor : Monitor}

theorem endReply_unhalted {σ : Type} {finish finish' : Finish σ}
    (hsame : finish.unhalted = finish'.unhalted) (reply : Ending → σ → Reply) :
    (monitor.unhalted.endReply finish (reply finish.ending finish.host)).map hideFlags =
      (monitor.endReply finish' (reply finish'.ending finish'.host)).map hideFlags := by
  obtain ⟨hending, hhost, hcpu⟩ : finish.ending = finish'.ending ∧ finish.host = finish'.host ∧
    finish.cpu.unhalted = finish'.cpu.unhalted := Finish.mk.inj hsame
  rw [endReply, endReply, hending, hhost]
  split
  · rfl
  · exact congrArg (fun cpu => some (_, Monitor.mk cpu _ _)) hcpu

theorem within_unhalted {memory : Memory} {addresses : List UInt16}
    {answer answer' : Reply × Monitor} (hsame : hideFlags answer = hideFlags answer') :
    (memory.within addresses answer).map hideFlags =
      (memory.within addresses answer').map hideFlags := by
  rw [Memory.map_within, Memory.map_within, hsame]

/-- The flag makes no difference to the reply, nor to the monitor that is left but for the
flags in it. -/
theorem perform_unhalted (monitor : Monitor) {command : Command}
    (hhides : command.hidesHalted = true) :
    (monitor.unhalted.perform command).map hideFlags =
      (monitor.perform command).map hideFlags := by
  cases command with
  | snapshot | snapshotInto => exact nomatch hhides
  | restart | set | initialStatus | insertFlags | removeFlags | hasFlags | setA | setResult
  | memory | describe | save | restore | snapshotSize | blankScreen | pixel | screenSize | draw =>
      rfl
  | read | readWord | write | writeWord | dump | push | pushWord | pop | popWord | updateScreen =>
      exact within_unhalted rfl
  | operandAddress mode =>
      simp only [perform, unhalted, mode.needed_unhalted, Cpu.operandAddress_unhalted]
      exact within_unhalted rfl
  | press text =>
      simp only [perform]
      split
      · rfl
      · exact within_unhalted rfl
  | restoreSnapshot bytes =>
      simp only [perform]
      split <;> rfl
  | execute instruction mode =>
      have hneeded : instruction.needed mode monitor.unhalted.cpu =
          instruction.needed mode monitor.cpu := instruction.needed_unhalted mode monitor.cpu
      obtain ⟨hfault, hcpu⟩ := Prod.mk.inj (instruction.execute_unhalted mode monitor.cpu)
      simp only [perform, Cpu.execute?, Memory.map_within, hneeded]
      exact congrArg₂ (fun fault cpu =>
        monitor.cpu.memory.within _ (Reply.executed fault, Monitor.mk cpu _ _)) hfault hcpu
  | loadAt program origin =>
      have hloaded := monitor.cpu.loadAt?_unhalted program origin
      simp only [perform, unhalted, hloaded, Option.map_map]
      rfl
  | reset =>
      simp only [perform, Option.map_map]
      rfl
  | step count =>
      have hlist := congrArg (Option.map fun listed =>
        (Reply.steps listed.1.reverse, Monitor.mk listed.2 monitor.saved.unhalted monitor.screen))
        (Cpu.stepsFrom_unhalted [] count monitor.cpu)
      simp only [Option.map_map] at hlist
      simp only [perform, Cpu.steps?, Option.map_map]
      exact hlist
  | run =>
      exact endReply_unhalted (Cpu.runFor_unhalted Host.blind_idleHost _ () monitor.cpu)
        fun ending _ => .ran ending
  | loadAndRun program =>
      have hloaded := monitor.cpu.loadAt?_unhalted program Cpu.defaultOrigin
      simp only [perform, unhalted, hloaded]
      cases monitor.cpu.loadAt? program Cpu.defaultOrigin with
      | none => rfl
      | some loaded =>
          have hreset : loaded.unhalted.reset? = loaded.reset? := rfl
          simp only [Option.map_some, Option.bind_some, hreset]
          cases loaded.reset? with
          | none => rfl
          | some next => exact endReply_unhalted rfl fun ending _ => .ran ending
  | runScript script =>
      exact endReply_unhalted (Cpu.runFor_unhalted script.blind_host _ 0 monitor.cpu) .ranScript

/-- The replies to a list of commands and the monitor after it, absent when a command has
no reply. -/
def transcript (monitor : Monitor) : List Command → Option (List Reply × Monitor)
  | [] => some ([], monitor)
  | command :: commands =>
      (monitor.perform command).bind fun (reply, next) =>
        (next.transcript commands).map fun (replies, final) => (reply :: replies, final)

theorem transcript_snd (monitor : Monitor) (commands : List Command) :
    (monitor.transcript commands).map Prod.snd = monitor.performAll commands := by
  induction commands generalizing monitor with
  | nil => rfl
  | cons command commands ih =>
      rw [transcript, performAll, Option.map_bind]
      refine congrArg _ (funext fun answer => ?_)
      rw [Function.comp_apply, Option.map_map]
      exact ih answer.2

/-- Monitors that are equal but for the flags give the same replies, command for command,
and stay equal but for them. -/
theorem transcript_eq_of_unhalted {first second : Monitor}
    (hsame : first.unhalted = second.unhalted) {commands : List Command}
    (hhide : ∀ command ∈ commands, command.hidesHalted = true) :
    (first.transcript commands).map (Prod.map id unhalted) =
      (second.transcript commands).map (Prod.map id unhalted) := by
  induction commands generalizing first second with
  | nil => exact congrArg (fun monitor => some ([], monitor)) hsame
  | cons command commands ih =>
      have hhides := hhide command List.mem_cons_self
      have hperform : (first.perform command).map hideFlags =
          (second.perform command).map hideFlags :=
        calc
          (first.perform command).map hideFlags
              = (first.unhalted.perform command).map hideFlags :=
            (first.perform_unhalted hhides).symm
          _ = (second.unhalted.perform command).map hideFlags := by rw [hsame]
          _ = (second.perform command).map hideFlags := second.perform_unhalted hhides
      rw [transcript, transcript]
      revert hperform
      rcases first.perform command with - | ⟨reply, next⟩ <;>
        rcases second.perform command with - | ⟨reply', next'⟩ <;> intro hperform
      · rfl
      · exact nomatch hperform
      · exact nomatch hperform
      · obtain ⟨rfl, hnext⟩ : reply = reply' ∧ next.unhalted = next'.unhalted :=
          Prod.mk.inj (Option.some.inj hperform)
        have hrest := congrArg (Option.map (Prod.map (List.cons reply) id))
          (ih hnext fun later hlater => hhide later (List.mem_cons_of_mem _ hlater))
        simp only [Option.map_map] at hrest
        simp only [Option.bind_some, Option.map_map]
        exact hrest

theorem exists_transcript (hsized : monitor.Sized {Memory.addressCount}) {commands : List Command}
    (hown : ∀ command ∈ commands, command.restoresSnapshot = false) :
    ∃ replies final, monitor.transcript commands = some (replies, final) := by
  obtain ⟨final, hfinal, -⟩ := performAll_of_sized .singleton hsized hown
  rw [← transcript_snd] at hfinal
  obtain ⟨⟨replies, last⟩, hreplies, -⟩ := Option.map_eq_some_iff.mp hfinal
  exact ⟨replies, last, hreplies⟩

/-- What monitors do alike when the flags in them make no difference. -/
structure AlikeButHalted (first second : Monitor) : Prop where
  replies : ∀ commands : List Command, (∀ command ∈ commands, command.hidesHalted = true) →
    (first.transcript commands).map (Prod.map id unhalted) =
      (second.transcript commands).map (Prod.map id unhalted)
  performed : first.Sized {Memory.addressCount} → ∀ commands : List Command,
    (∀ command ∈ commands, command.restoresSnapshot = false) →
      ∃ replies final, first.transcript commands = some (replies, final)
  runs : ∀ (σ : Type) (host : Host σ), host.Blind → ∀ fuel state,
    (Cpu.runFor host fuel state first.cpu).unhalted =
      (Cpu.runFor host fuel state second.cpu).unhalted
  /-- A recognised opcode and a reset make the flags equal too. -/
  step_eq : Opcode.decode first.cpu.code ≠ none → first.cpu.step = second.cpu.step
  reset_eq : first.cpu.reset = second.cpu.reset
  of_unknown : Opcode.decode first.cpu.code = none →
    first.cpu.step.1 = second.cpu.step.1 ∧
      first.cpu.step.2.halted = first.cpu.halted ∧ second.cpu.step.2.halted = second.cpu.halted

theorem alikeButHalted_of_unhalted {first second : Monitor}
    (hsame : first.unhalted = second.unhalted) : first.AlikeButHalted second := by
  have hcpu : first.cpu.unhalted = second.cpu.unhalted := congrArg cpu hsame
  have hcode : first.cpu.code = second.cpu.code :=
    Cpu.congr_unhalted Cpu.code (fun _ => rfl) hcpu
  have hstep := Cpu.congr_unhalted (fun cpu => hideHalted cpu.step) Cpu.step_unhalted hcpu
  exact {
    replies := fun _ hhide => transcript_eq_of_unhalted hsame hhide
    performed := fun hsized _ hown => exists_transcript hsized hown
    runs := fun _ host hblind fuel state =>
      Cpu.congr_unhalted (fun cpu => (Cpu.runFor host fuel state cpu).unhalted)
        (Cpu.runFor_unhalted hblind fuel state) hcpu
    step_eq := Cpu.step_eq_of_unhalted hcpu
    reset_eq := Cpu.congr_unhalted Cpu.reset (fun _ => rfl) hcpu
    of_unknown := fun hdecode => ⟨(Prod.mk.inj hstep).1,
      Cpu.halted_step_of_decode_eq_none hdecode,
      Cpu.halted_step_of_decode_eq_none (hcode ▸ hdecode)⟩ }

end Monitor

end Machine6502
