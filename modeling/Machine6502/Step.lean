import Machine6502.Opcode

/-!
# Steps

A step fetches an opcode, carries it out and moves on to the next instruction.
-/

namespace Machine6502

inductive Outcome where
  | continued
  | halted
  | failed (fault : Fault)
deriving DecidableEq, Repr

namespace Cpu

/-- Ends an instruction of some length that began to work with the program counter
at `start`: when the counter still stands there, the operand bytes are skipped. -/
def advance (start : UInt16) (length : UInt8) (cpu : Cpu) : Cpu :=
  if cpu.pc = start then { cpu with pc := start + (length.toUInt16 - 1) } else cpu

/-- Executes one instruction.  On a byte that begins none, only the program counter
has moved.  After a break it stands on the byte behind the break. -/
def step (cpu : Cpu) : Outcome × Cpu :=
  let code := cpu.read cpu.pc
  let start := cpu.pc + 1
  match Opcode.decode code with
  | none => (.failed (.unrecognizedOpcode code cpu.pc), { cpu with pc := start })
  | some opcode =>
      match opcode.instruction.execute opcode.mode { cpu with pc := start, halted := false } with
      | (some fault, next) => (.failed fault, next)
      | (none, next) =>
          if next.halted then (.halted, next)
          else (.continued, next.advance start opcode.length)

end Cpu

end Machine6502
