import Machine6502.Runner

/-!
# The terminal

What a whole session on a terminal shows: the screen is cleared, pictures are
drawn, and an error is told at the end.  The display is slow beside the machine, so
the one picture it is sure to draw is the last.
-/

namespace Machine6502

namespace Terminal

def clear : String := "\x1b[2J"

def usage : String := "usage: pocket6502 [PROGRAM.bin [ORIGIN_HEX]]"

def about : String × String := ("Pocket6502", "0.3.1")

/-- What a session leaves behind: its exit code, what it wrote before the first
picture, the last picture, and its error messages. -/
structure Transcript where
  code : Nat
  opening : String
  lastPicture : Option Screen
  errors : List String
deriving DecidableEq

/-- The exit code and the error message of the end of a run. -/
def verdict : Ending → Nat × List String
  | .halted => (0, [])
  | .failed fault => (1, [fault.message])
  | _ => (1, [])

/-- A session in which all lines are typed before the first step. -/
def session (readFile : String → Except String (List UInt8)) (random : Nat → UInt8)
    (arguments lines : List String) : Transcript :=
  match Program.ofArguments readFile arguments with
  | .error _ => ⟨1, "", none, [usage]⟩
  | .ok program =>
      let typed := lines.foldl Shared.readLine Shared.blank
      let finish := Runner.run random typed program.boot
      let (code, errors) := verdict finish.ending
      let (requested, shared) := finish.host.shared.takeRequest
      ⟨code, clear, if requested then some shared.screen else none, errors⟩

end Terminal

end Machine6502
