import Machine6502.Event

/-!
# Scripted hosts

A host that follows a script: before certain steps it presses keys, before every
step it provides the next byte of a list as random byte, and after a number of
steps it ends the run.
-/

namespace Machine6502

/-- The cell that a program reads a random byte from. -/
def randomCell : UInt16 := 0x00FE

structure Script where
  /-- The run is ended before the step with this number, the first being 0. -/
  limit : Nat
  /-- The random bytes, used over and over; without any the cell is left alone. -/
  random : Array UInt8
  /-- The texts whose first key is pressed before the step with a number. -/
  keys : List (Nat × String)

namespace Script

def pressed (script : Script) (number : Nat) : List Direction :=
  script.keys.filterMap fun (step, text) =>
    if step = number then Direction.ofFirst? text else none

def randomByte (script : Script) (number : Nat) : Option UInt8 :=
  script.random[number % script.random.size]?

/-- The cells that are written before a step. -/
def needed (script : Script) (number : Nat) : List UInt16 :=
  (script.pressed number).map (fun _ => Direction.cell) ++
    (script.randomByte number).toList.map fun _ => randomCell

/-- The machine after what is done before a step. -/
def apply (script : Script) (number : Nat) (cpu : Cpu) : Cpu :=
  let changed := (script.pressed number).foldl (fun cpu direction => direction.press cpu) cpu
  match script.randomByte number with
  | none => changed
  | some byte => changed.write randomCell byte

/-- The host that follows the script, counting the steps. -/
def host (script : Script) : Host Nat where
  ends number cpu :=
    if script.limit ≤ number then some .stopped
    else if cpu.memory.covers (script.needed number) then none
    else some .outOfRange
  act number cpu := (number + 1, script.apply number cpu)

def events (script : Script) (number : Nat) (_cpu : Cpu) : List Event :=
  (script.pressed number).map .input

end Script

end Machine6502
