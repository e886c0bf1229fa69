import Machine6502.Origin
import Machine6502.Snake

/-!
# Programs from a command line

Without arguments the program is the snake game.  Otherwise the first argument is
the path of a file with the bytes of a program, and the second, if there is one,
its origin.  Further arguments are ignored.
-/

namespace Machine6502

structure Program where
  bytes : List UInt8
  origin : UInt16
deriving DecidableEq, Repr

inductive ProgramError where
  /-- A file that cannot be read, and what the system says. -/
  | unreadable (path reason : String)
  | badOrigin (text : String) (error : OriginError)
deriving DecidableEq, Repr

def ProgramError.message : ProgramError → String
  | .unreadable path reason => path ++ ": " ++ reason
  | .badOrigin text error => "origin '" ++ text ++ "': " ++ error.message

namespace Program

def snake : Program := ⟨Snake.program, Snake.origin⟩

/-- The origin among the arguments behind the path. -/
def originOf : List String → Except ProgramError UInt16
  | [] => .ok Cpu.defaultOrigin
  | text :: _ => (Origin.parse text).mapError (.badOrigin text)

/-- The program of a command line.  A file that cannot be read is told before the
origin is looked at. -/
def ofArguments (readFile : String → Except String (List UInt8)) :
    List String → Except ProgramError Program
  | [] => .ok snake
  | path :: rest =>
      match readFile path with
      | .error reason => .error (.unreadable path reason)
      | .ok bytes => (originOf rest).map fun origin => ⟨bytes, origin⟩

/-- A new machine with the program loaded, at its origin. -/
def boot (program : Program) : Cpu :=
  (Cpu.initial.loadAt program.bytes program.origin).reset

end Program

end Machine6502
