import Machine6502.Digest
import Machine6502.Direction
import Machine6502.Run
import Machine6502.Screen

/-!
# Events

What a machine tells about its work.  The events of an operation follow from the
state before it, so the operations themselves carry none of them along.
-/

namespace Machine6502

inductive Level where
  | trace
  | debug
  | info
  | warn
deriving DecidableEq, Repr

def Level.name : Level → String
  | .trace => "TRACE"
  | .debug => "DEBUG"
  | .info => "INFO"
  | .warn => "WARN"

/-- Something a machine tells. -/
inductive Event where
  | load (count : Nat) (origin : UInt16) (digest : List UInt8)
  | copy (count : Nat) (start : UInt16)
  | reset (entry : UInt16)
  /-- An opcode was recognised; the program counter of the registers is past it. -/
  | fetch (address : UInt16) (opcode : Opcode) (registers : Registers)
  | unrecognized (code : UInt8) (address : UInt16)
  | push (value : UInt8) (address : UInt16)
  | pop (value : UInt8) (address : UInt16)
  | halt (address : UInt16)
  | input (direction : Direction)
  | screenUpdate
  /-- A run under the runner ended with a break. -/
  | finish (registers : Registers)

namespace Event

def level : Event → Level
  | .load .. => .debug
  | .copy .. => .trace
  | .reset .. => .debug
  | .fetch .. => .trace
  | .unrecognized .. => .warn
  | .push .. => .trace
  | .pop .. => .trace
  | .halt .. => .info
  | .input .. => .trace
  | .screenUpdate => .trace
  | .finish .. => .info

def message : Event → String
  | .load count origin digest =>
      "Load " ++ toString count ++ " bytes at 0x" ++ hexWord origin ++ ", md5:" ++
        String.join (digest.map hexByte)
  | .copy count start => "Copy " ++ toString count ++ " bytes to 0x" ++ hexWord start
  | .reset entry => "Reset, entry point 0x" ++ hexWord entry
  | .fetch address opcode registers =>
      "[" ++ hexWord address ++ "] " ++ hexByte opcode.code ++ " " ++ opcode.mnemonic ++ " " ++
        registers.describe
  | .unrecognized code address =>
      "Unrecognized opcode 0x" ++ hexByte code ++ " at 0x" ++ hexWord address
  | .push value address => "Push 0x" ++ hexByte value ++ " -> 0x" ++ hexWord address
  | .pop value address => "Pop 0x" ++ hexByte value ++ " <- 0x" ++ hexWord address
  | .halt address => "BRK at 0x" ++ hexWord address ++ ", halting"
  | .input direction =>
      "Input: " ++ direction.name ++ " (0x" ++ hexByte direction.code ++ ")"
  | .screenUpdate => "Screen updated"
  | .finish registers => "Halted: " ++ registers.describe

def line (event : Event) : String :=
  event.level.name ++ " " ++ event.message

end Event

namespace Cpu

def pushEvents (cpu : Cpu) (bytes : List UInt8) : List Event :=
  List.zipWith .push bytes (cpu.pushCells bytes.length)

def pushWordEvents (cpu : Cpu) (word : UInt16) : List Event :=
  cpu.pushEvents [highByte word, lowByte word]

def popEvents (cpu : Cpu) (count : Nat) : List Event :=
  (cpu.popCells count).map fun address => .pop (cpu.read address) address

end Cpu

/-- The events of an instruction: those of the stack. -/
def Instruction.events (instruction : Instruction) (cpu : Cpu) : List Event :=
  match instruction with
  | .implied .push => cpu.pushEvents [cpu.a]
  | .implied .pushStatus => cpu.pushEvents [cpu.status.pushed.toByte]
  | .implied .pull => cpu.popEvents 1
  | .implied .pullStatus => cpu.popEvents 1
  | .control .call => cpu.pushWordEvents (cpu.pc + 1)
  | .control .returnFromCall => cpu.popEvents 2
  | .control .returnFromInterrupt => cpu.popEvents 3
  | _ => []

namespace Cpu

def stepEvents (cpu : Cpu) : List Event :=
  let code := cpu.read cpu.pc
  match Opcode.decode code with
  | none => [.unrecognized code cpu.pc]
  | some opcode =>
      let fetched := { cpu with pc := cpu.pc + 1 }
      .fetch cpu.pc opcode fetched.registers :: opcode.instruction.events fetched

def loadEvents (program : List UInt8) (origin : UInt16) : List Event :=
  [.load program.length origin (Digest.md5 program), .copy program.length origin]

def resetEvents (cpu : Cpu) : List Event :=
  [.reset cpu.reset.pc]

/-- A host with the events of its run so far, the last one first. -/
structure Recorder (σ : Type) where
  host : σ
  events : List Event

/-- A host that also records its own events and those of the steps it sees. -/
def recording {σ : Type} (host : Host σ) (hostEvents : σ → Cpu → List Event) :
    Host (Recorder σ) where
  ends recorder cpu := host.ends recorder.host cpu
  act recorder cpu :=
    let (state, changed) := host.act recorder.host cpu
    let events := hostEvents recorder.host cpu ++ changed.stepEvents
    (⟨state, events.reverse ++ recorder.events⟩, changed)

/-- The event of a run's end: a break is told with its address. -/
def endEvents (ending : Ending) (cpu : Cpu) : List Event :=
  if ending = .halted then [.halt (cpu.pc - 1)] else []

def runEvents {σ : Type} (host : Host σ) (hostEvents : σ → Cpu → List Event) (state : σ)
    (cpu : Cpu) : List Event :=
  let finish := runWith (recording host hostEvents) ⟨state, []⟩ cpu
  finish.host.events.reverse ++ endEvents finish.ending finish.cpu

/-- The events of a number of steps, as far as they go. -/
def stepsEvents (count : Nat) (cpu : Cpu) : List Event :=
  let finish := runFor (recording idleHost fun _ _ => []) count ⟨(), []⟩ cpu
  finish.host.events.reverse

end Cpu

end Machine6502
