/-!
# Byte arithmetic

The values that the arithmetic and shift instructions compute, apart from the
machine that they change.
-/

namespace Machine6502

/-- What an addition gives: the byte, the carry out, and whether the signed sum
does not fit. -/
structure Sum where
  value : UInt8
  carry : Bool
  overflow : Bool
deriving DecidableEq, Repr

/-- Adds two bytes and a carry.  The signed sum does not fit exactly when both
operands differ in sign from the result. -/
def addWithCarry (left right : UInt8) (carry : Bool) : Sum :=
  let total := left.toNat + right.toNat + carry.toNat
  let value := UInt8.ofNat total
  { value
    carry := 255 < total
    overflow := (right ^^^ value) &&& (value ^^^ left) &&& 0x80 != 0 }

/-- Combines the accumulator with an operand bit by bit. -/
inductive Logic where
  | and
  | or
  | exclusiveOr
deriving DecidableEq, Repr

def Logic.apply : Logic → UInt8 → UInt8 → UInt8
  | .and, left, right => left &&& right
  | .or, left, right => left ||| right
  | .exclusiveOr, left, right => left ^^^ right

inductive Shift where
  | left
  | right
  | rotateLeft
  | rotateRight
deriving DecidableEq, Repr

namespace Shift

/-- The moved byte.  A shift leaves the free place empty and a rotation puts the
carry there. -/
def value : Shift → UInt8 → Bool → UInt8
  | .left, byte, _ => byte + byte
  | .right, byte, _ => byte / 2
  | .rotateLeft, byte, carry => byte + byte + if carry then 1 else 0
  | .rotateRight, byte, carry => byte / 2 + if carry then 128 else 0

/-- The bit that is moved out. -/
def carry : Shift → UInt8 → Bool
  | .left, byte => 128 ≤ byte
  | .rotateLeft, byte => 128 ≤ byte
  | .right, byte => byte % 2 == 1
  | .rotateRight, byte => byte % 2 == 1

end Shift

end Machine6502
