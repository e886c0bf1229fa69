import Machine6502.Cpu

/-!
# Snapshots

The state of a machine as a row of bytes: four registers, the program counter as a
number of variable length, the status, the memory with its length before it, and
one byte for the halted flag.  A number of variable length has seven bits in a
byte, the low ones first, and all its bytes but the last have their top bit set.
-/

namespace Machine6502

inductive SnapshotError where
  | bufferFull
  | endOfBuffer
  /-- A number that goes on too long or is too big. -/
  | badNumber
  | badFlag
deriving DecidableEq, Repr

def SnapshotError.message : SnapshotError → String
  | .bufferFull => "The serialize buffer is full"
  | .endOfBuffer => "Hit the end of buffer, expected more data"
  | .badNumber => "Found a varint that didn't terminate. Is the usize too big for this platform?"
  | .badFlag => "Found a bool that wasn't 0 or 1"

namespace Snapshot

/-- A number of variable length, with as few bytes as it can have. -/
def writeNumber (value : Nat) : List UInt8 :=
  if value < 128 then [UInt8.ofNat value]
  else UInt8.ofNat (value % 128 + 128) :: writeNumber (value / 128)
termination_by value
decreasing_by omega

/-- How long a number may be, and how big its byte may be when it has all of
them. -/
structure NumberWidth where
  bytes : Nat
  lastByte : Nat
deriving DecidableEq, Repr

def wordWidth : NumberWidth := ⟨3, 3⟩

def lengthWidth : NumberWidth := ⟨10, 1⟩

/-- Reads a number of at most `count` more bytes, whose byte may be at most
`lastByte` when it has all of them.  Numbers with more bytes than they need are
accepted. -/
def readNumberFrom (lastByte : Nat) :
    Nat → List UInt8 → Except SnapshotError (Nat × List UInt8)
  | 0, _ => .error .badNumber
  | _ + 1, [] => .error .endOfBuffer
  | count + 1, byte :: rest =>
      if byte < 128 then
        if count = 0 ∧ lastByte < byte.toNat then .error .badNumber
        else .ok (byte.toNat, rest)
      else
        match readNumberFrom lastByte count rest with
        | .error error => .error error
        | .ok (high, rest) => .ok (byte.toNat - 128 + 128 * high, rest)

def readNumber (width : NumberWidth) (bytes : List UInt8) :
    Except SnapshotError (Nat × List UInt8) :=
  readNumberFrom width.lastByte width.bytes bytes

def readByte : List UInt8 → Except SnapshotError (UInt8 × List UInt8)
  | [] => .error .endOfBuffer
  | byte :: rest => .ok (byte, rest)

/-- Reads `count` bytes. -/
def readBytes (count : Nat) (bytes : List UInt8) :
    Except SnapshotError (List UInt8 × List UInt8) :=
  if count ≤ bytes.length then .ok (bytes.take count, bytes.drop count)
  else .error .endOfBuffer

/-- Reads a flag from a byte that is 0 or 1. -/
def readFlag (bytes : List UInt8) : Except SnapshotError (Bool × List UInt8) :=
  match bytes with
  | [] => .error .endOfBuffer
  | byte :: rest =>
      if byte = 0 then .ok (false, rest)
      else if byte = 1 then .ok (true, rest)
      else .error .badFlag

def encode (cpu : Cpu) : List UInt8 :=
  [cpu.a, cpu.x, cpu.y, cpu.s] ++ writeNumber cpu.pc.toNat ++ [cpu.status.toByte] ++
    writeNumber cpu.memory.size ++ cpu.memory.cells.toList ++ [if cpu.halted then 1 else 0]

/-- Reads a snapshot and gives what follows it. -/
def decodeWithRest (bytes : List UInt8) : Except SnapshotError (Cpu × List UInt8) := do
  let (a, bytes) ← readByte bytes
  let (x, bytes) ← readByte bytes
  let (y, bytes) ← readByte bytes
  let (s, bytes) ← readByte bytes
  let (pc, bytes) ← readNumber wordWidth bytes
  let (status, bytes) ← readByte bytes
  let (length, bytes) ← readNumber lengthWidth bytes
  let (cells, bytes) ← readBytes length bytes
  let (halted, bytes) ← readFlag bytes
  return (⟨a, x, y, s, UInt16.ofNat pc, .ofByte status, halted, ⟨cells.toArray⟩⟩, bytes)

/-- The machine of a snapshot.  Bytes after the snapshot are ignored, and a memory
of any length is accepted. -/
def decode (bytes : List UInt8) : Except SnapshotError Cpu :=
  (decodeWithRest bytes).map Prod.fst

def numberSize (value : Nat) : Nat :=
  if value < 128 then 1 else 1 + numberSize (value / 128)
termination_by value
decreasing_by omega

def size (cpu : Cpu) : Nat :=
  6 + numberSize cpu.pc.toNat + numberSize cpu.memory.size + cpu.memory.size

/-- Writes bytes over a buffer one after the other, behind those that are already
written, and gives the whole buffer. -/
def writeOver (written : List UInt8) :
    List UInt8 → List UInt8 → Except SnapshotError (List UInt8)
  | [], buffer => .ok (written.reverse ++ buffer)
  | _ :: _, [] => .error .bufferFull
  | byte :: bytes, _ :: buffer => writeOver (byte :: written) bytes buffer

/-- Writes a snapshot over the start of a buffer, and gives the whole buffer. -/
def encodeInto (cpu : Cpu) (buffer : List UInt8) : Except SnapshotError (List UInt8) :=
  writeOver [] (encode cpu) buffer

end Snapshot

end Machine6502
