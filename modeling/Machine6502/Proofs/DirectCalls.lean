import Machine6502.Proofs.EffectiveAddress
import Machine6502.Proofs.ProgramCounter

/-!
# Instructions that are called with a mode

An instruction can be called with any mode, also with one that no opcode gives it.  Its name tells
whether it works on the cell of the mode, and only then can it fail: with the mode that names no
cell, and before it has changed anything.
-/

namespace Machine6502

namespace Mnemonic

/-- Whether a name stands for work on an operand.  The form of a shift without a mode works on the
accumulator instead. -/
def hasOperand (form : Mode) : Mnemonic → Bool
  | .lda | .ldx | .ldy | .sta | .stx | .sty | .and | .eor | .ora | .bit | .adc | .sbc => true
  | .inc | .dec | .cmp | .cpx | .cpy => true
  | .asl | .lsr | .rol | .ror => decide (form ≠ .implied)
  | _ => false

/-- Whether a name stands for an instruction that may move the program counter. -/
def movesCounter : Mnemonic → Bool
  | .bcc | .bcs | .beq | .bmi | .bne | .bpl | .bvc | .bvs | .jmp | .jsr | .rts | .rti => true
  | _ => false

variable {mnemonic : Mnemonic} {code : UInt8} {form : Mode}

theorem usesMode_shift (operation : Shift) (form : Mode) :
    (shift operation form).usesMode = decide (form ≠ .implied) := by
  rw [shift]
  split
  next himplied => simp [himplied, Instruction.usesMode]
  next hmode => simp [hmode, Instruction.usesMode]

theorem control?_shift (operation : Shift) (form : Mode) :
    (shift operation form).control? = none := by
  rw [shift]
  split <;> rfl

theorem usesMode_instruction (mnemonic : Mnemonic) (code : UInt8) (form : Mode) :
    (mnemonic.instruction code form).usesMode = mnemonic.hasOperand form := by
  cases mnemonic with
  | asl | lsr | rol | ror => exact usesMode_shift _ form
  | _ => rfl

theorem control?_instruction (hcounter : mnemonic.movesCounter = false) :
    (mnemonic.instruction code form).control? = none := by
  cases mnemonic with
  | asl | lsr | rol | ror => exact control?_shift _ form
  | bcc | bcs | beq | bmi | bne | bpl | bvc | bvs | jmp | jsr | rts | rti => cases hcounter
  | _ => rfl

end Mnemonic

namespace Instruction

variable {instruction : Instruction}

theorem execute_of_usesMode (huses : instruction.usesMode = true) (cpu : Cpu) :
    instruction.execute .implied cpu = (some (.unsupportedMode .implied), cpu) := by
  cases instruction with
  | addressed operation => rfl
  | implied operation | control operation => cases huses

/-- With a mode that names a cell, no instruction fails. -/
theorem fault_execute_of_ne_implied (instruction : Instruction) {mode : Mode}
    (hmode : mode ≠ .implied) (cpu : Cpu) : (instruction.execute mode cpu).1 = none := by
  cases instruction with
  | addressed operation =>
      obtain ⟨address, haddress⟩ := Cpu.exists_operandAddress hmode cpu
      rw [Cpu.execute_of_operandAddress haddress]
  | implied operation | control operation => rfl

/-- An instruction without an operand does not fail and does not look at its mode. -/
theorem execute_of_not_usesMode (huses : instruction.usesMode = false) (mode : Mode) (cpu : Cpu) :
    (instruction.execute mode cpu).1 = none ∧
      ∀ other, instruction.execute other cpu = instruction.execute mode cpu := by
  cases instruction with
  | addressed operation => cases huses
  | implied operation | control operation => exact ⟨rfl, fun _ => rfl⟩

theorem fault_execute_iff (instruction : Instruction) (mode : Mode) (cpu : Cpu) :
    (instruction.execute mode cpu).1 ≠ none ↔ instruction.usesMode = true ∧ mode = .implied := by
  constructor
  · intro hfault
    constructor
    · by_contra huses
      rw [Bool.not_eq_true] at huses
      exact hfault (execute_of_not_usesMode huses mode cpu).1
    · by_contra hmode
      exact hfault (instruction.fault_execute_of_ne_implied hmode cpu)
  · rintro ⟨huses, rfl⟩
    rw [execute_of_usesMode huses]
    exact Option.some_ne_none _

theorem pc_execute (hcontrol : instruction.control? = none) (mode : Mode) (cpu : Cpu) :
    (instruction.execute mode cpu).2.pc = cpu.pc := by
  cases instruction with
  | addressed operation =>
      rw [execute]
      split
      · rfl
      · exact Cpu.pc_addressed cpu operation _
  | implied operation => exact Cpu.pc_implied cpu operation
  | control operation => cases hcontrol

end Instruction

/-- What a call of a named instruction does, in one of the forms that its name has.  It fails when
it has an operand and the mode names no cell, and the machine is then as it was before.  Without an
operand it does not look at the mode, and without a jump it leaves the program counter. -/
structure Mnemonic.CallLaw (mnemonic : Mnemonic) (code : UInt8) (form mode : Mode) (cpu : Cpu)
    (fault : Option Fault) (next : Cpu) : Prop where
  fails_iff : fault ≠ none ↔ mnemonic.hasOperand form = true ∧ mode = .implied
  failed : ∀ cause ∈ fault, cause = .unsupportedMode .implied ∧ next = cpu
  anyMode : mnemonic.hasOperand form = false → ∀ other,
    cpu.execute? (mnemonic.instruction code form) other = some (fault, next)
  counter : mnemonic.movesCounter = false → next.pc = cpu.pc

theorem Mnemonic.callLaw_execute {cpu : Cpu} (hfull : cpu.memory.size = Memory.addressCount)
    (mnemonic : Mnemonic) (code : UInt8) (form mode : Mode) :
    mnemonic.CallLaw code form mode cpu ((mnemonic.instruction code form).execute mode cpu).1
      ((mnemonic.instruction code form).execute mode cpu).2 where
  fails_iff := by
    rw [← usesMode_instruction mnemonic code]
    exact Instruction.fault_execute_iff _ mode cpu
  failed cause hcause := by
    obtain ⟨huses, rfl⟩ := (Instruction.fault_execute_iff _ mode cpu).mp
      (Option.ne_none_iff_exists'.mpr ⟨cause, hcause⟩)
    rw [Instruction.execute_of_usesMode huses] at hcause ⊢
    exact ⟨(Option.some.inj hcause).symm, rfl⟩
  anyMode hoperand other := by
    rw [← usesMode_instruction mnemonic code] at hoperand
    rw [Cpu.execute?_of_full (Nat.le_of_eq hfull.symm),
      (Instruction.execute_of_not_usesMode hoperand mode cpu).2 other]
  counter hcounter := Instruction.pc_execute (control?_instruction hcounter) mode cpu

namespace Monitor

/-- A call of a named instruction has a reply, and what it tells and leaves obeys the law of calls:
a machine on which a call fails is left as it was. -/
theorem call_fails_unchanged {monitor : Monitor}
    (hfull : monitor.cpu.memory.size = Memory.addressCount) (mnemonic : Mnemonic) (code : UInt8)
    (form mode : Mode) :
    ∃ fault next, monitor.perform (.execute (mnemonic.instruction code form) mode) =
        some (.executed fault, monitor.withCpu next) ∧
      mnemonic.CallLaw code form mode monitor.cpu fault next := by
  refine ⟨_, _, ?_, mnemonic.callLaw_execute hfull code form mode⟩
  rw [perform, Cpu.execute?_of_full (Nat.le_of_eq hfull.symm)]
  rfl

/-- INC fails on a new machine when its mode names no cell.  The accumulator form of ASL takes any
mode, and leaves the program counter. -/
theorem call_fails_unchanged_on_new_machine :
    initial.cpu.memory.size = Memory.addressCount ∧
      initial.perform (.execute (.addressed .increment) .implied) =
        some (.executed (some (.unsupportedMode .implied)), initial) ∧
      ∃ next, initial.perform (.execute (.implied (.shift .left)) .absolute) =
        some (.executed none, initial.withCpu next) ∧ next.pc = initial.cpu.pc := by
  have hfull : initial.cpu.memory.size = Memory.addressCount := Memory.size_blank
  refine ⟨hfull, ?_, ?_⟩
  · obtain ⟨fault, next, hreply, hlaw⟩ := call_fails_unchanged hfull .inc 0xE6 .zeroPage .implied
    obtain ⟨cause, hcause⟩ := Option.ne_none_iff_exists'.mp (hlaw.fails_iff.mpr ⟨rfl, rfl⟩)
    obtain ⟨rfl, rfl⟩ := hlaw.failed cause hcause
    rw [hcause] at hreply
    exact hreply
  · obtain ⟨fault, next, hreply, hlaw⟩ := call_fails_unchanged hfull .asl 0x0A .implied .absolute
    have hworks : fault = none := by
      by_contra hfault
      cases (hlaw.fails_iff.mp hfault).1
    rw [hworks] at hreply
    exact ⟨next, hreply, hlaw.counter rfl⟩

end Monitor

end Machine6502
