import Machine6502.Memory
import Machine6502.Status

/-!
# The processor

Registers, the stack in page one, and the effective address of an operand.  The
program counter stands on the first operand byte while an instruction works.
-/

namespace Machine6502

inductive Mode where
  | immediate
  | zeroPage
  | zeroPageX
  | zeroPageY
  | absolute
  | absoluteX
  | absoluteY
  | indirectX
  | indirectY
  | implied
deriving DecidableEq, Repr

def Mode.name : Mode → String
  | .immediate => "Immediate"
  | .zeroPage => "ZeroPage"
  | .zeroPageX => "ZeroPageX"
  | .zeroPageY => "ZeroPageY"
  | .absolute => "Absolute"
  | .absoluteX => "AbsoluteX"
  | .absoluteY => "AbsoluteY"
  | .indirectX => "IndirectX"
  | .indirectY => "IndirectY"
  | .implied => "NoneAddressing"

inductive Fault where
  /-- An instruction that needs an operand was given a mode that names none. -/
  | unsupportedMode (mode : Mode)
  /-- The byte fetched from an address begins no instruction. -/
  | unrecognizedOpcode (code : UInt8) (address : UInt16)
deriving DecidableEq, Repr

def Fault.message : Fault → String
  | .unsupportedMode mode => "unsupported addressing mode " ++ mode.name
  | .unrecognizedOpcode code address =>
      "unrecognized opcode 0x" ++ hexByte code ++ " at 0x" ++ hexWord address

inductive Register where
  | a
  | x
  | y
  | s
deriving DecidableEq, Repr

/-- The state of the machine: accumulator, index registers, stack pointer,
program counter, status, whether a break has stopped it, and memory. -/
structure Cpu where
  a : UInt8
  x : UInt8
  y : UInt8
  s : UInt8
  pc : UInt16
  status : Status
  halted : Bool
  memory : Memory
deriving DecidableEq

/-- What can be seen of the processor without its memory. -/
structure Registers where
  a : UInt8
  x : UInt8
  y : UInt8
  s : UInt8
  pc : UInt16
  status : Status
deriving DecidableEq

/-- One line of text with all registers, the status as eight bits. -/
def Registers.describe (registers : Registers) : String :=
  "\x7b A:" ++ hexByte registers.a ++ " X:" ++ hexByte registers.x ++
    " Y:" ++ hexByte registers.y ++ " S:" ++ hexByte registers.s ++
    " PC:" ++ hexWord registers.pc ++
    " P:" ++ numeral 2 8 registers.status.toByte.toNat ++ " \x7d"

namespace Cpu

def stackTop : UInt8 := 0xFD

/-- The address of the word that a reset starts from. -/
def resetVector : UInt16 := 0xFFFC

def defaultOrigin : UInt16 := 0x8000

def initial : Cpu where
  a := 0
  x := 0
  y := 0
  s := stackTop
  pc := 0
  status := .initial
  halted := false
  memory := .blank

def registers (cpu : Cpu) : Registers :=
  ⟨cpu.a, cpu.x, cpu.y, cpu.s, cpu.pc, cpu.status⟩

def describe (cpu : Cpu) : String :=
  cpu.registers.describe

def get (cpu : Cpu) : Register → UInt8
  | .a => cpu.a
  | .x => cpu.x
  | .y => cpu.y
  | .s => cpu.s

/-- Puts a byte into a register; no flag changes. -/
def set (cpu : Cpu) (register : Register) (value : UInt8) : Cpu :=
  match register with
  | .a => { cpu with a := value }
  | .x => { cpu with x := value }
  | .y => { cpu with y := value }
  | .s => { cpu with s := value }

/-- Records in the zero and negative flags what a result byte is. -/
def withResult (cpu : Cpu) (result : UInt8) : Cpu :=
  { cpu with status := cpu.status.withResult result }

/-- Puts a byte into a register and records it as the result. -/
def setResult (cpu : Cpu) (register : Register) (value : UInt8) : Cpu :=
  (cpu.set register value).withResult value

def read (cpu : Cpu) (address : UInt16) : UInt8 :=
  cpu.memory.read address

def write (cpu : Cpu) (address : UInt16) (value : UInt8) : Cpu :=
  { cpu with memory := cpu.memory.write address value }

/-- The cell in page one that a stack pointer names. -/
def stackAddress (pointer : UInt8) : UInt16 :=
  wordOf pointer 1

/-- Writes a byte to the stack cell and lowers the stack pointer, with
wrap-around inside the page. -/
def push (cpu : Cpu) (value : UInt8) : Cpu :=
  { cpu with memory := cpu.memory.write (stackAddress cpu.s) value, s := cpu.s - 1 }

/-- Raises the stack pointer and reads the byte it names. -/
def pop (cpu : Cpu) : UInt8 × Cpu :=
  let pointer := cpu.s + 1
  (cpu.memory.read (stackAddress pointer), { cpu with s := pointer })

/-- Pushes the high byte of a word and then its low byte. -/
def pushWord (cpu : Cpu) (word : UInt16) : Cpu :=
  (cpu.push (highByte word)).push (lowByte word)

/-- Pops the low byte of a word and then its high byte. -/
def popWord (cpu : Cpu) : UInt16 × Cpu :=
  let low := cpu.pop
  let high := low.2.pop
  (wordOf low.1 high.1, high.2)

/-- The word that a byte of page zero points to; the pointer stays in the page. -/
def zeroPageWord (memory : Memory) (pointer : UInt8) : UInt16 :=
  wordOf (memory.read pointer.toUInt16) (memory.read (pointer + 1).toUInt16)

def operandAddress (cpu : Cpu) : Mode → Except Fault UInt16
  | .immediate => .ok cpu.pc
  | .zeroPage => .ok (cpu.read cpu.pc).toUInt16
  | .zeroPageX => .ok (cpu.read cpu.pc + cpu.x).toUInt16
  | .zeroPageY => .ok (cpu.read cpu.pc + cpu.y).toUInt16
  | .absolute => .ok (cpu.memory.readWord cpu.pc)
  | .absoluteX => .ok (cpu.memory.readWord cpu.pc + cpu.x.toUInt16)
  | .absoluteY => .ok (cpu.memory.readWord cpu.pc + cpu.y.toUInt16)
  | .indirectX => .ok (zeroPageWord cpu.memory (cpu.read cpu.pc + cpu.x))
  | .indirectY => .ok (zeroPageWord cpu.memory (cpu.read cpu.pc) + cpu.y.toUInt16)
  | .implied => .error (.unsupportedMode .implied)

/-- Copies a program into memory and points the reset vector at its origin. -/
def loadAt (cpu : Cpu) (program : List UInt8) (origin : UInt16) : Cpu :=
  { cpu with memory := (cpu.memory.copy origin program).writeWord resetVector origin }

/-- Registers and status go back to what they were when switched on, the program
counter takes the word at the reset vector, and memory is kept. -/
def reset (cpu : Cpu) : Cpu where
  a := 0
  x := 0
  y := 0
  s := stackTop
  pc := cpu.memory.readWord resetVector
  status := .initial
  halted := false
  memory := cpu.memory

end Cpu

end Machine6502
