import Machine6502.Cpu

/-!
# Origins

The address a program is loaded at, written as a hexadecimal number.  Marks `0x` in
front are dropped, however many, and then one plus sign is allowed.
-/

namespace Machine6502

inductive OriginError where
  | empty
  | invalidDigit
  | tooLarge
deriving DecidableEq, Repr

def OriginError.message : OriginError → String
  | .empty => "cannot parse integer from empty string"
  | .invalidDigit => "invalid digit found in string"
  | .tooLarge => "number too large to fit in target type"

namespace Origin

/-- The value of a hexadecimal digit, in either case. -/
def digit? (digit : Char) : Option Nat :=
  if '0' ≤ digit ∧ digit ≤ '9' then some (digit.toNat - '0'.toNat)
  else if 'a' ≤ digit ∧ digit ≤ 'f' then some (digit.toNat - 'a'.toNat + 10)
  else if 'A' ≤ digit ∧ digit ≤ 'F' then some (digit.toNat - 'A'.toNat + 10)
  else none

def dropMarks : List Char → List Char
  | '0' :: 'x' :: rest => dropMarks rest
  | text => text

/-- Drops a plus sign that has something behind it. -/
def dropSign : List Char → List Char
  | '+' :: first :: rest => first :: rest
  | text => text

/-- Reads digits from left to right behind those that were read.  What is wrong
first is what is told. -/
def readDigits (value : Nat) : List Char → Except OriginError UInt16
  | [] => .ok (UInt16.ofNat value)
  | first :: rest =>
      match digit? first with
      | none => .error .invalidDigit
      | some digit =>
          let next := 16 * value + digit
          if 0xFFFF < next then .error .tooLarge else readDigits next rest

def parse (text : String) : Except OriginError UInt16 :=
  match dropMarks text.toList with
  | [] => .error .empty
  | digits => readDigits 0 (dropSign digits)

end Origin

end Machine6502
