import Machine6502.Program
import Machine6502.Script

/-!
# The runner

A running program shares a screen with the display, and a place for one direction
with the keyboard.  Before each step the runner shows the picture that the step
before has left, hands over a waiting direction, and provides a random byte.  After
the last step it shows the final picture.
-/

namespace Machine6502

/-- What the runner, the display and the keyboard share. -/
structure Shared where
  screen : Screen
  /-- Whether a picture waits to be drawn. -/
  redraw : Bool
  /-- The direction that waits to be handed over. -/
  waiting : Option Direction
deriving DecidableEq

namespace Shared

/-- A black screen that is drawn, and nothing waiting. -/
def blank : Shared := ⟨.blank, false, none⟩

/-- Shows the picture in memory and tells whether it differs from the one before. -/
def showPicture (shared : Shared) (memory : Memory) : Bool × Shared :=
  let (changed, screen) := shared.screen.update memory
  (changed, { shared with screen })

def requestRedraw (shared : Shared) : Shared :=
  { shared with redraw := true }

/-- Shows the picture in memory; if it differs from the one before, it waits to be
drawn. -/
def refresh (shared : Shared) (memory : Memory) : Shared :=
  let (changed, shown) := shared.showPicture memory
  if changed then shown.requestRedraw else shown

/-- The display takes the note that a picture waits to be drawn. -/
def takeRequest (shared : Shared) : Bool × Shared :=
  (shared.redraw, { shared with redraw := false })

/-- The keyboard puts a direction in place of one that was not handed over. -/
def store (shared : Shared) (direction : Direction) : Shared :=
  { shared with waiting := some direction }

def readLine (shared : Shared) (line : String) : Shared :=
  match Direction.ofLine? line with
  | none => shared
  | some direction => shared.store direction

/-- The runner takes the direction that waits. -/
def take (shared : Shared) : Option Direction × Shared :=
  (shared.waiting, { shared with waiting := none })

end Shared

namespace Runner

/-- What the runner knows between two steps. -/
structure State where
  shared : Shared
  steps : Nat

/-- Hands over a direction and provides a random byte. -/
def provide (waiting : Option Direction) (random : UInt8) (cpu : Cpu) : Cpu :=
  let pressed := waiting.elim cpu fun direction => direction.press cpu
  pressed.write randomCell random

/-- What is done before a step, with the next random byte.  Before the first step
there is no picture to show. -/
def beforeStep (random : UInt8) (state : State) (cpu : Cpu) : State × Cpu :=
  let shown := if state.steps = 0 then state.shared else state.shared.refresh cpu.memory
  let (waiting, shared) := shown.take
  (⟨shared, state.steps + 1⟩, provide waiting random cpu)

/-- The host that does so before every step, with a random byte for each. -/
def host (random : Nat → UInt8) : Host State where
  ends _ _ := none
  act state cpu := beforeStep (random state.steps) state cpu

def leastRandom : Nat := 1

def greatestRandom : Nat := 15

/-- A run that is cut off after a number of steps, with the final picture shown. -/
def runWithin (random : Nat → UInt8) (fuel : Nat) (shared : Shared) (cpu : Cpu) :
    Finish State :=
  let finish := Cpu.runFor (host random) fuel ⟨shared, 0⟩ cpu
  { finish with
    host := { finish.host with shared := finish.host.shared.refresh finish.cpu.memory } }

/-- Runs a machine to its end and shows the final picture. -/
def run (random : Nat → UInt8) (shared : Shared) (cpu : Cpu) : Finish State :=
  runWithin random Cpu.stepBound shared cpu

/-- The events of importance of a run: what ended it, and the registers when a break
did. -/
def report (finish : Finish State) : List Event :=
  match finish.ending with
  | .halted => [.halt (finish.cpu.pc - 1), .finish finish.cpu.registers]
  | .failed (.unrecognizedOpcode code address) => [.unrecognized code address]
  | _ => []

end Runner

end Machine6502
