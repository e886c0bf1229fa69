import Machine6502.Cpu

/-!
# Directions

The four direction keys.  A pressed key is given to a program as the code of its
small letter in a cell of page zero.
-/

namespace Machine6502

inductive Direction where
  | up
  | down
  | left
  | right
deriving DecidableEq, Repr

namespace Direction

/-- The cell that a program reads the last direction from. -/
def cell : UInt16 := 0x00FF

def name : Direction → String
  | .up => "Up"
  | .down => "Down"
  | .left => "Left"
  | .right => "Right"

def key : Direction → Char
  | .up => 'w'
  | .down => 's'
  | .left => 'a'
  | .right => 'd'

def code (direction : Direction) : UInt8 :=
  direction.key.toNat.toUInt8

/-- The direction of a key, in either case.  No letter outside ASCII counts. -/
def ofKey? (key : Char) : Option Direction :=
  match key.toLower with
  | 'w' => some .up
  | 's' => some .down
  | 'a' => some .left
  | 'd' => some .right
  | _ => none

/-- The direction of the first key of a line that has one. -/
def ofLine? (line : String) : Option Direction :=
  line.toList.findSome? ofKey?

def ofFirst? (text : String) : Option Direction :=
  text.toList.head?.bind ofKey?

/-- Puts the code of a direction where a program reads it. -/
def press (direction : Direction) (cpu : Cpu) : Cpu :=
  cpu.write cell direction.code

end Direction

end Machine6502
