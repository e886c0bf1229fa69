import Machine6502.Proofs.Commands
import Machine6502.Proofs.Sessions

/-!
# The marks of the status register

Two bits of a status byte are marks of the byte and no flags of the machine.  Whatever
bytes a program pulls, the register keeps the break mark clear and the reserved bit set,
and every status byte that it pushes has both set.  Only a client that sets the flags
itself can change this.
-/

namespace Machine6502

/-- The status is as it stands in the register: without the break mark and with the
reserved bit. -/
structure Status.Settled (status : Status) : Prop where
  breakMark : status.breakMark = false
  reserved : status.reserved = true

namespace Status

theorem settled_initial : initial.Settled :=
  ⟨rfl, rfl⟩

theorem settled_pulled (byte : UInt8) : (pulled byte).Settled :=
  ⟨rfl, rfl⟩

/-- The pushed byte has both marks, whatever the status. -/
theorem testBit_toByte_pushed (status : Status) :
    status.pushed.toByte.toNat.testBit 4 = true ∧ status.pushed.toByte.toNat.testBit 5 = true := by
  obtain ⟨n, v, r, b, d, i, z, c⟩ := status
  revert n v r b d i z c
  decide

end Status

def Flag.isMark : Flag → Bool
  | .breakMark => true
  | .reserved => true
  | _ => false

theorem Status.Settled.set {status : Status} (hsettled : status.Settled) {flag : Flag}
    (hflag : flag.isMark = false) (value : Bool) : (status.set flag value).Settled := by
  cases flag with
  | breakMark => exact nomatch hflag
  | reserved => exact nomatch hflag
  | _ => exact ⟨hsettled.breakMark, hsettled.reserved⟩

/-- Whether an instruction sets or clears no mark. -/
def Instruction.sparesMarks : Instruction → Bool
  | .implied (.setFlag flag) => !flag.isMark
  | .implied (.clearFlag flag) => !flag.isMark
  | _ => true

theorem Opcode.sparesMarks_of_mem_table {opcode : Opcode} (hmem : opcode ∈ table) :
    opcode.instruction.sparesMarks = true := by
  have hall : ∀ entry ∈ table, entry.instruction.sparesMarks = true := by decide +kernel
  exact hall opcode hmem

namespace Cpu

variable {cpu : Cpu}

section Settled

variable (hsettled : cpu.status.Settled)

include hsettled

theorem settled_setResult (register : Register) (value : UInt8) :
    (cpu.setResult register value).status.Settled := by
  cases register <;> exact ⟨hsettled.breakMark, hsettled.reserved⟩

theorem settled_addressed (operation : Addressed) (address : UInt16) :
    (operation.apply address cpu).status.Settled := by
  cases operation with
  | load register => exact settled_setResult hsettled register _
  | logic operation => exact settled_setResult hsettled .a _
  | _ => exact ⟨hsettled.breakMark, hsettled.reserved⟩

theorem settled_implied {operation : Implied}
    (hspares : (Instruction.implied operation).sparesMarks = true) :
    (operation.apply cpu).status.Settled := by
  cases operation with
  | transfer source target =>
      cases target with
      | s => exact hsettled
      | _ => exact settled_setResult hsettled _ _
  | increment register => exact settled_setResult hsettled register _
  | decrement register => exact settled_setResult hsettled register _
  | setFlag flag => exact hsettled.set (Bool.not_eq_true' _ ▸ hspares) true
  | clearFlag flag => exact hsettled.set (Bool.not_eq_true' _ ▸ hspares) false
  | pull => exact @settled_setResult cpu.pop.2 hsettled .a _
  | pullStatus => exact Status.settled_pulled _
  | _ => exact ⟨hsettled.breakMark, hsettled.reserved⟩

theorem settled_control (operation : Control) : (operation.apply cpu).status.Settled := by
  cases operation with
  | branch flag value =>
      simp only [Control.apply]
      split <;> exact hsettled
  | returnFromInterrupt => exact Status.settled_pulled _
  | _ => exact hsettled

theorem settled_execute {instruction : Instruction} (hspares : instruction.sparesMarks = true)
    (mode : Mode) : (instruction.execute mode cpu).2.status.Settled := by
  cases instruction with
  | addressed operation =>
      simp only [Instruction.execute]
      split
      · exact hsettled
      · exact settled_addressed hsettled operation _
  | implied operation => exact settled_implied hsettled hspares
  | control operation => exact settled_control hsettled operation

/-- No step changes the marks, whatever the bytes in memory. -/
theorem settled_step : cpu.step.2.status.Settled := by
  cases hdecode : Opcode.decode cpu.code with
  | none =>
      rw [step_of_decode_eq_none hdecode]
      exact hsettled
  | some opcode =>
      obtain ⟨hmem, -⟩ := Opcode.mem_table_of_decode hdecode
      rw [step_of_decode hdecode, advance_status]
      exact @settled_execute cpu.fetched hsettled _ (Opcode.sparesMarks_of_mem_table hmem) _

/-- What a host keeps settled, a run under it does. -/
theorem settled_runFor {σ : Type} {host : Host σ}
    (hhost : ∀ state cpu, cpu.status.Settled → (host.act state cpu).2.status.Settled)
    (fuel : Nat) (state : σ) : (runFor host fuel state cpu).cpu.status.Settled :=
  (@runFor_invariant _ host (fun _ cpu => cpu.status.Settled)
    (fun state cpu hcpu _ => hhost state cpu hcpu) (fun _ _ hcpu => settled_step hcpu)
    fuel state cpu hsettled).1

theorem settled_idleRun (fuel : Nat) : (runFor idleHost fuel () cpu).cpu.status.Settled :=
  settled_runFor hsettled (fun _ _ hcpu => hcpu) fuel ()

end Settled

/-- A machine that was just built, or just reset. -/
def Fresh (cpu : Cpu) : Prop :=
  cpu = initial ∨ ∃ before : Cpu, cpu = before.reset

theorem Fresh.settled (hfresh : cpu.Fresh) : cpu.status.Settled := by
  rcases hfresh with rfl | ⟨before, rfl⟩ <;> exact Status.settled_initial

theorem step_of_pushStatus (hcode : cpu.code = 0x08) :
    cpu.step = (.continued, cpu.fetched.push cpu.status.pushed.toByte) := by
  have hdecode : Opcode.decode cpu.code =
      some ⟨0x08, "PHP", 1, 3, .implied, .implied .pushStatus⟩ := by
    rw [hcode]
    rfl
  rw [step_of_decode hdecode, advance_one, carryOut_implied rfl]
  rfl

end Cpu

/-- Whether a command neither sets flags by itself nor takes over a machine that was not
built here. -/
def Command.sparesMarks : Command → Bool
  | .set changes => changes.status.isNone
  | .insertFlags _ => false
  | .removeFlags _ => false
  | .execute instruction _ => instruction.sparesMarks
  | .restoreSnapshot _ => false
  | _ => true

namespace Monitor

/-- Both machines have their marks settled. -/
structure Settled (monitor : Monitor) : Prop where
  cpu : monitor.cpu.status.Settled
  saved : monitor.saved.status.Settled

variable {monitor : Monitor}

theorem Settled.withCpu (hsettled : monitor.Settled) {cpu : Cpu} (hcpu : cpu.status.Settled) :
    (monitor.withCpu cpu).Settled :=
  ⟨hcpu, hsettled.saved⟩

/-- A command that spares the marks leaves them settled in both machines. -/
theorem Settled.after (hsettled : monitor.Settled) {command : Command}
    (hspares : command.sparesMarks = true) : (monitor.after command).Settled := by
  cases command with
  | insertFlags | removeFlags | restoreSnapshot => exact nomatch hspares
  | set changes =>
      have hkept : changes.status = none := Option.isNone_iff_eq_none.mp hspares
      refine hsettled.withCpu ?_
      rw [RegisterChanges.apply, hkept]
      exact hsettled.cpu
  | restart | initialStatus | reset => exact hsettled.withCpu Status.settled_initial
  | setA value => exact hsettled.withCpu (Cpu.settled_setResult hsettled.cpu .a value)
  | setResult value =>
      exact hsettled.withCpu ⟨hsettled.cpu.breakMark, hsettled.cpu.reserved⟩
  | execute instruction mode =>
      exact hsettled.withCpu (Cpu.settled_execute hsettled.cpu hspares mode)
  | step count => exact hsettled.withCpu (Cpu.settled_idleRun hsettled.cpu count)
  | run => exact hsettled.withCpu (Cpu.settled_idleRun hsettled.cpu _)
  | loadAndRun program =>
      exact hsettled.withCpu (Cpu.settled_idleRun Status.settled_initial _)
  | runScript script =>
      refine hsettled.withCpu (Cpu.settled_runFor hsettled.cpu (fun number cpu hcpu => ?_) _ 0)
      obtain ⟨change, hchange⟩ := script.apply_eq number
      have hturn : (script.host.act number cpu).2 = { cpu with memory := change cpu.memory } :=
        hchange cpu
      rw [hturn]
      exact hcpu
  | press text =>
      rw [Monitor.after]
      split <;> exact ⟨hsettled.cpu, hsettled.saved⟩
  | save => exact ⟨hsettled.cpu, hsettled.cpu⟩
  | restore => exact ⟨hsettled.saved, hsettled.saved⟩
  | _ => exact ⟨hsettled.cpu, hsettled.saved⟩

/-- A list of such commands leaves the marks settled. -/
theorem Settled.performAll (hsettled : monitor.Settled) {commands : List Command}
    (hspare : ∀ command ∈ commands, command.sparesMarks = true) :
    ∀ final ∈ monitor.performAll commands, final.Settled := by
  induction commands generalizing monitor with
  | nil => exact fun final hfinal => Option.some.inj hfinal ▸ hsettled
  | cons command commands ih =>
      intro final hfinal
      obtain ⟨⟨reply, next⟩, hnext, hrest⟩ := Option.bind_eq_some_iff.mp hfinal
      obtain rfl : next = monitor.after command := perform_snd (reply, next) hnext
      have hnext := hsettled.after (hspare command List.mem_cons_self)
      exact ih hnext (fun later hlater => hspare later (List.mem_cons_of_mem _ hlater))
        final hrest

/-- Whatever is done to a new machine or one that was just reset, short of setting its
flags from outside, the break mark in its status stays clear and the reserved bit set, and
the byte that a push of the status writes has both set. -/
theorem status_marks_kept {start : Monitor} (hcpu : start.cpu.Fresh) (hsaved : start.saved.Fresh)
    {commands : List Command} (hspare : ∀ command ∈ commands, command.sparesMarks = true) :
    (∀ final ∈ start.performAll commands,
      final.cpu.status.breakMark = false ∧ final.cpu.status.reserved = true ∧
        (final.cpu.code = 0x08 → ∃ byte : UInt8,
          final.cpu.step = (.continued, final.cpu.fetched.push byte) ∧
            byte.toNat.testBit 4 = true ∧ byte.toNat.testBit 5 = true)) ∧
      (start.Sized {Memory.addressCount} → ∃ final, start.performAll commands = some final) := by
  have hsettled : start.Settled := ⟨hcpu.settled, hsaved.settled⟩
  refine ⟨fun final hfinal => ?_, fun hsized => ?_⟩
  · obtain ⟨hbreak, hreserved⟩ := (hsettled.performAll hspare final hfinal).cpu
    exact ⟨hbreak, hreserved, fun hcode =>
      ⟨_, Cpu.step_of_pushStatus hcode, Status.testBit_toByte_pushed _⟩⟩
  · have hown : ∀ command ∈ commands, command.restoresSnapshot = false := by
      intro command hcommand
      have hspares := hspare command hcommand
      cases command with
      | restoreSnapshot => exact nomatch hspares
      | _ => rfl
    obtain ⟨final, hfinal, -⟩ := performAll_of_sized .singleton hsized hown
    exact ⟨final, hfinal⟩

/-- The accumulator is pushed with all bits set and pulled into the status. -/
theorem status_marks_kept_by_pull :
    Monitor.initial.cpu.Fresh ∧ Monitor.initial.saved.Fresh ∧
      ∃ final, initial.performAll [.load [0xA9, 0xFF, 0x48, 0x28], .reset, .step 3] = some final ∧
        final.cpu.status.breakMark = false ∧ final.cpu.status.reserved = true := by
  have hfresh : Cpu.initial.Fresh := .inl rfl
  obtain ⟨hkept, hperformed⟩ := @status_marks_kept initial hfresh hfresh
    [.load [0xA9, 0xFF, 0x48, 0x28], .reset, .step 3] (by decide)
  obtain ⟨final, hfinal⟩ := hperformed (sized_initial .singleton)
  obtain ⟨hbreak, hreserved, -⟩ := hkept final hfinal
  exact ⟨hfresh, hfresh, final, hfinal, hbreak, hreserved⟩

end Monitor

end Machine6502
