import Machine6502.Step

/-!
# Footprints

The cells that an instruction or a step needs.  A machine with a cell for every
address never lacks one; on a smaller memory `step?` and its kin have no result
when a needed cell is missing.
-/

namespace Machine6502

/-- The cells read to find the address of an operand.  The indexed indirect mode
reads a whole word and uses its low byte only. -/
def Mode.needed (mode : Mode) (cpu : Cpu) : List UInt16 :=
  let first := cpu.pc
  let second := cpu.pc + 1
  let pointer (byte : UInt8) : List UInt16 := [byte.toUInt16, (byte + 1).toUInt16]
  match mode with
  | .immediate => []
  | .zeroPage => [first]
  | .zeroPageX => [first]
  | .zeroPageY => [first]
  | .absolute => [first, second]
  | .absoluteX => [first, second]
  | .absoluteY => [first, second]
  | .indirectX => first :: second :: pointer (cpu.read first + cpu.x)
  | .indirectY => first :: pointer (cpu.read first)
  | .implied => []

/-- The next cells a push writes, the first one first. -/
def Cpu.pushCells (cpu : Cpu) (count : Nat) : List UInt16 :=
  (List.range count).map fun index => Cpu.stackAddress (cpu.s - UInt8.ofNat index)

/-- The next cells a pop reads, the first one first. -/
def Cpu.popCells (cpu : Cpu) (count : Nat) : List UInt16 :=
  (List.range count).map fun index => Cpu.stackAddress (cpu.s + 1 + UInt8.ofNat index)

def Implied.needed (operation : Implied) (cpu : Cpu) : List UInt16 :=
  match operation with
  | .push => cpu.pushCells 1
  | .pushStatus => cpu.pushCells 1
  | .pull => cpu.popCells 1
  | .pullStatus => cpu.popCells 1
  | _ => []

/-- The cells an instruction that moves the program counter needs.  A branch that
is not taken does not look at its displacement. -/
def Control.needed (operation : Control) (cpu : Cpu) : List UInt16 :=
  let operand := [cpu.pc, cpu.pc + 1]
  match operation with
  | .branch flag value => if cpu.status.get flag == value then [cpu.pc] else []
  | .jump => operand
  | .jumpIndirect =>
      let pointer := cpu.memory.readWord cpu.pc
      operand ++ [pointer, wordOf (lowByte pointer + 1) (highByte pointer)]
  | .call => cpu.pushCells 2 ++ operand
  | .returnFromCall => cpu.popCells 2
  | .returnFromInterrupt => cpu.popCells 3

def Instruction.needed (instruction : Instruction) (mode : Mode) (cpu : Cpu) : List UInt16 :=
  match instruction with
  | .addressed _ =>
      match cpu.operandAddress mode with
      | .ok address => mode.needed cpu ++ [address]
      | .error _ => []
  | .implied operation => operation.needed cpu
  | .control operation => operation.needed cpu

namespace Cpu

/-- The cells the next step needs, that of the opcode first. -/
def stepNeeded (cpu : Cpu) : List UInt16 :=
  cpu.pc ::
    match Opcode.decode (cpu.read cpu.pc) with
    | none => []
    | some opcode => opcode.instruction.needed opcode.mode { cpu with pc := cpu.pc + 1 }

def stepFits (cpu : Cpu) : Bool :=
  Memory.addressCount ≤ cpu.memory.size || cpu.memory.covers cpu.stepNeeded

def step? (cpu : Cpu) : Option (Outcome × Cpu) :=
  if cpu.stepFits then some cpu.step else none

def execute? (cpu : Cpu) (instruction : Instruction) (mode : Mode) :
    Option (Option Fault × Cpu) :=
  cpu.memory.within (instruction.needed mode cpu) (instruction.execute mode cpu)

def loadAt? (cpu : Cpu) (program : List UInt8) (origin : UInt16) : Option Cpu :=
  if cpu.memory.coversCopy origin program.length then
    cpu.memory.within (Memory.range resetVector 2) (cpu.loadAt program origin)
  else none

def reset? (cpu : Cpu) : Option Cpu :=
  cpu.memory.within (Memory.range resetVector 2) cpu.reset

/-- With a cell for every address, a step is never missing one. -/
theorem step?_of_full (cpu : Cpu) (hfull : Memory.addressCount ≤ cpu.memory.size) :
    cpu.step? = some cpu.step := by
  simp [step?, stepFits, hfull]

end Cpu

end Machine6502
