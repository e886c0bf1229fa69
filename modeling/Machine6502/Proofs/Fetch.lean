import Machine6502.Footprint
import Machine6502.Proofs.OpcodeTable

/-!
# Steps on recognised opcodes

On a recognised opcode a step is never cut off: it fetches, lets the instruction
work, and advances over the operand bytes.  What an instruction does to registers,
flags and memory is therefore what the step does to them.
-/

namespace Machine6502

namespace Opcode

/-- What the opcode's instruction makes of a machine past the opcode byte. -/
def carryOut (opcode : Opcode) (cpu : Cpu) : Cpu :=
  (opcode.instruction.execute opcode.mode cpu).2

/-- How a step on an opcode ends: only a break does not go on. -/
def outcome (opcode : Opcode) : Outcome :=
  if opcode.instruction = .implied .halt then .halted else .continued

end Opcode

namespace Cpu

/-- The machine past the opcode byte, as the instruction finds it. -/
def fetched (cpu : Cpu) : Cpu :=
  { cpu with pc := cpu.pc + 1, halted := false }

theorem fetched_pc_add_one (cpu : Cpu) : cpu.fetched.pc + 1 = cpu.pc + 2 :=
  UInt16.add_assoc cpu.pc 1 1

/-- The address of the cell that a mode names for the opcode at the program counter. -/
def effectiveAddress (cpu : Cpu) (mode : Mode) : UInt16 :=
  (cpu.fetched.operandAddress mode).toOption.getD 0

theorem operandAddress_of_ne_implied {mode : Mode} (hmode : mode ≠ .implied) (cpu : Cpu) :
    cpu.fetched.operandAddress mode = .ok (cpu.effectiveAddress mode) := by
  cases mode with
  | implied => exact absurd rfl hmode
  | _ => rfl

section CarryOut

variable {opcode : Opcode}

theorem operandAddress_of_addressed {operation : Addressed} (hconsistent : opcode.Consistent)
    (hinstruction : opcode.instruction = .addressed operation) (cpu : Cpu) :
    cpu.fetched.operandAddress opcode.mode = .ok (cpu.effectiveAddress opcode.mode) := by
  have huses : opcode.instruction.usesMode = true := by
    rw [hinstruction]
    rfl
  exact operandAddress_of_ne_implied (hconsistent.mode_ne_implied huses) cpu

theorem carryOut_addressed {operation : Addressed} (hconsistent : opcode.Consistent)
    (hinstruction : opcode.instruction = .addressed operation) (cpu : Cpu) :
    opcode.carryOut cpu.fetched =
      operation.apply (cpu.effectiveAddress opcode.mode) cpu.fetched := by
  have haddress := operandAddress_of_addressed hconsistent hinstruction cpu
  rw [Opcode.carryOut, hinstruction, Instruction.execute, haddress]

theorem carryOut_implied {operation : Implied}
    (hinstruction : opcode.instruction = .implied operation) (cpu : Cpu) :
    opcode.carryOut cpu = operation.apply cpu := by
  rw [Opcode.carryOut, hinstruction, Instruction.execute]

theorem carryOut_control {operation : Control}
    (hinstruction : opcode.instruction = .control operation) (cpu : Cpu) :
    opcode.carryOut cpu = operation.apply cpu := by
  rw [Opcode.carryOut, hinstruction, Instruction.execute]

end CarryOut

section Advance

variable (start : UInt16) (length : UInt8) (cpu : Cpu)

/-- The operand bytes are skipped only when the counter stands behind the opcode, and
nothing but the counter moves. -/
theorem advance_eq : cpu.advance start length =
    { cpu with
      pc := if cpu.pc = start then start + (length.toUInt16 - 1) else cpu.pc } := by
  rw [advance]
  split <;> rfl

theorem advance_pc : (cpu.advance start length).pc =
    if cpu.pc = start then start + (length.toUInt16 - 1) else cpu.pc := by
  rw [advance_eq]

@[simp]
theorem advance_status : (cpu.advance start length).status = cpu.status := by
  rw [advance_eq]

@[simp]
theorem advance_memory : (cpu.advance start length).memory = cpu.memory := by
  rw [advance_eq]

theorem advance_one : cpu.advance start 1 = cpu := by
  have hnone : start + (UInt8.toUInt16 1 - 1) = start := UInt16.add_zero start
  rw [advance, hnone]
  split
  · rw [← ‹cpu.pc = start›]
  · rfl

end Advance

section Halted

variable (cpu : Cpu)

/-- No instruction on a cell stops the machine. -/
theorem halted_addressed (operation : Addressed) (address : UInt16) :
    (operation.apply address cpu).halted = cpu.halted := by
  cases operation with
  | load register => cases register <;> rfl
  | logic operation => cases operation <;> rfl
  | _ => rfl

theorem halted_implied {operation : Implied} (hoperation : operation ≠ .halt) :
    (operation.apply cpu).halted = cpu.halted := by
  cases operation with
  | halt => exact absurd rfl hoperation
  | transfer source target => cases target <;> rfl
  | increment register => cases register <;> rfl
  | decrement register => cases register <;> rfl
  | _ => rfl

theorem halted_control (operation : Control) : (operation.apply cpu).halted = cpu.halted := by
  cases operation with
  | branch flag value =>
      simp only [Control.apply]
      split <;> rfl
  | _ => rfl

end Halted

/-- A step on a recognised opcode carries it out on the fetched machine and advances. -/
theorem step_of_decode {cpu : Cpu} {opcode : Opcode}
    (hdecode : Opcode.decode (cpu.read cpu.pc) = some opcode) :
    cpu.step =
      (opcode.outcome, (opcode.carryOut cpu.fetched).advance (cpu.pc + 1) opcode.length) := by
  obtain ⟨hconsistent, -⟩ := Opcode.consistent_of_decode hdecode
  have hfetched : cpu.fetched.halted = false := rfl
  have hcpu : ({ cpu with pc := cpu.pc + 1, halted := false } : Cpu) = cpu.fetched := rfl
  simp only [step, hdecode, hcpu, Opcode.outcome, Opcode.carryOut]
  cases hinstruction : opcode.instruction with
  | addressed operation =>
      have haddress := operandAddress_of_addressed hconsistent hinstruction cpu
      simp [Instruction.execute, haddress, halted_addressed, hfetched]
  | implied operation =>
      by_cases hhalt : operation = .halt
      -- A break ends the step before it advances, but there is nothing to skip.
      · subst hhalt
        rw [hconsistent.length_of_halt hinstruction, advance_one]
        rfl
      · simp [Instruction.execute, halted_implied, hfetched, hhalt]
  | control operation =>
      simp [Instruction.execute, halted_control, hfetched]

/-- With a cell for every address, a step on a recognised opcode finds all it needs. -/
theorem step?_of_decode {cpu : Cpu} {opcode : Opcode}
    (hfull : cpu.memory.size = Memory.addressCount)
    (hdecode : Opcode.decode (cpu.read cpu.pc) = some opcode) :
    cpu.step? = some
      (opcode.outcome, (opcode.carryOut cpu.fetched).advance (cpu.pc + 1) opcode.length) := by
  rw [step?_of_full cpu (Nat.le_of_eq hfull.symm), step_of_decode hdecode]

end Cpu

end Machine6502
