import Machine6502.Arithmetic
import Machine6502.Cpu

/-!
# Instructions

Three kinds of instructions: those that work on the cell their mode names, those
that need no operand, and those that move the program counter.  Only the first
kind can fail, and only when its mode names no cell; nothing has changed then.
-/

namespace Machine6502

/-- Instructions on the cell that the mode names. -/
inductive Addressed where
  | load (register : Register)
  | store (register : Register)
  | logic (operation : Logic)
  /-- Tests the accumulator against the operand and copies its two top bits. -/
  | bitTest
  | add
  | subtract
  | shift (operation : Shift)
  | increment
  | decrement
  | compare (register : Register)
deriving DecidableEq, Repr

/-- Instructions without an operand. -/
inductive Implied where
  | transfer (source target : Register)
  | shift (operation : Shift)
  | increment (register : Register)
  | decrement (register : Register)
  | setFlag (flag : Flag)
  | clearFlag (flag : Flag)
  | push
  | pull
  | pushStatus
  | pullStatus
  | halt
  | idle
deriving DecidableEq, Repr

/-- Instructions that move the program counter. -/
inductive Control where
  | branch (flag : Flag) (value : Bool)
  | jump
  | jumpIndirect
  | call
  | returnFromCall
  | returnFromInterrupt
deriving DecidableEq, Repr

inductive Instruction where
  | addressed (operation : Addressed)
  | implied (operation : Implied)
  | control (operation : Control)
deriving DecidableEq, Repr

namespace Cpu

/-- Adds a byte and the carry to the accumulator.  The decimal flag plays no
part. -/
def addToA (cpu : Cpu) (operand : UInt8) : Cpu :=
  let sum := addWithCarry cpu.a operand cpu.status.carry
  { cpu with
    a := sum.value
    status := { cpu.status with carry := sum.carry, overflow := sum.overflow }.withResult sum.value }

/-- Compares a byte with an operand: the carry tells that it is not lower, and
zero and negative are those of the difference. -/
def compareWith (cpu : Cpu) (value operand : UInt8) : Cpu :=
  { cpu with
    status := { cpu.status with carry := operand ≤ value }.withResult (value - operand) }

/-- The status with the carry that a shift of a byte leaves. -/
def shiftStatus (cpu : Cpu) (operation : Shift) (byte : UInt8) : Status :=
  { cpu.status with carry := operation.carry byte }.withResult
    (operation.value byte cpu.status.carry)

/-- The word an indirect jump goes to.  The pointer does not leave its page: its
high byte comes from the start of the page when it lies at the end. -/
def indirectTarget (memory : Memory) (pointer : UInt16) : UInt16 :=
  wordOf (memory.read pointer) (memory.read (wordOf (lowByte pointer + 1) (highByte pointer)))

def pullStatus (cpu : Cpu) : Cpu :=
  let (byte, popped) := cpu.pop
  { popped with status := .pulled byte }

end Cpu

namespace Addressed

def apply (operation : Addressed) (address : UInt16) (cpu : Cpu) : Cpu :=
  match operation with
  | .load register => cpu.setResult register (cpu.read address)
  | .store register => cpu.write address (cpu.get register)
  | .logic operation => cpu.setResult .a (operation.apply cpu.a (cpu.read address))
  | .bitTest =>
      let operand := cpu.read address
      { cpu with
        status := { cpu.status with
          zero := cpu.a &&& operand == 0
          negative := operand.toNat.testBit 7
          overflow := operand.toNat.testBit 6 } }
  | .add => cpu.addToA (cpu.read address)
  | .subtract => cpu.addToA (cpu.read address - 1)
  | .shift operation =>
      let byte := cpu.read address
      let status := cpu.shiftStatus operation byte
      { cpu.write address (operation.value byte cpu.status.carry) with status := status }
  | .increment =>
      let result := cpu.read address + 1
      (cpu.write address result).withResult result
  | .decrement =>
      let result := cpu.read address - 1
      (cpu.write address result).withResult result
  | .compare register => cpu.compareWith (cpu.get register) (cpu.read address)

end Addressed

namespace Implied

/-- Works on registers, flags and the stack.  The stack pointer is set without a
result being recorded. -/
def apply (operation : Implied) (cpu : Cpu) : Cpu :=
  match operation with
  | .transfer source .s => cpu.set .s (cpu.get source)
  | .transfer source target => cpu.setResult target (cpu.get source)
  | .shift operation =>
      { cpu with
        a := operation.value cpu.a cpu.status.carry
        status := cpu.shiftStatus operation cpu.a }
  | .increment register => cpu.setResult register (cpu.get register + 1)
  | .decrement register => cpu.setResult register (cpu.get register - 1)
  | .setFlag flag => { cpu with status := cpu.status.set flag true }
  | .clearFlag flag => { cpu with status := cpu.status.set flag false }
  | .push => cpu.push cpu.a
  | .pull =>
      let (byte, popped) := cpu.pop
      popped.setResult .a byte
  | .pushStatus => cpu.push cpu.status.pushed.toByte
  | .pullStatus => cpu.pullStatus
  | .halt => { cpu with halted := true }
  | .idle => cpu

end Implied

namespace Control

/-- Moves the program counter.  A branch that is not taken leaves it.  A call
pushes the address of its last byte before it reads its target, and a return goes
to the byte after the popped address. -/
def apply (operation : Control) (cpu : Cpu) : Cpu :=
  match operation with
  | .branch flag value =>
      if cpu.status.get flag == value then
        { cpu with pc := cpu.pc + 1 + displacement (cpu.read cpu.pc) }
      else cpu
  | .jump => { cpu with pc := cpu.memory.readWord cpu.pc }
  | .jumpIndirect =>
      { cpu with pc := Cpu.indirectTarget cpu.memory (cpu.memory.readWord cpu.pc) }
  | .call =>
      let pushed := cpu.pushWord (cpu.pc + 1)
      { pushed with pc := pushed.memory.readWord pushed.pc }
  | .returnFromCall =>
      let (word, popped) := cpu.popWord
      { popped with pc := word + 1 }
  | .returnFromInterrupt =>
      let (word, popped) := cpu.pullStatus.popWord
      { popped with pc := word }

end Control

namespace Instruction

/-- Carries out an instruction whose operand is named by a mode, with the program
counter past the opcode byte.  When the mode names no operand for an instruction
that needs one, the fault is reported and the machine is left as it was. -/
def execute (instruction : Instruction) (mode : Mode) (cpu : Cpu) : Option Fault × Cpu :=
  match instruction with
  | .addressed operation =>
      match cpu.operandAddress mode with
      | .error fault => (some fault, cpu)
      | .ok address => (none, operation.apply address cpu)
  | .implied operation => (none, operation.apply cpu)
  | .control operation => (none, operation.apply cpu)

end Instruction

end Machine6502
