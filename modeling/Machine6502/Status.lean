/-!
# The status register

Eight flags packed into one byte.  The main statements say that a status and its
byte determine each other.
-/

namespace Machine6502

/-- The flags, from bit 0 to bit 7. -/
inductive Flag where
  | carry
  | zero
  | interruptDisable
  | decimal
  | breakMark
  | reserved
  | overflow
  | negative
deriving DecidableEq, Repr

/-- A set of flags, from bit 7 down to bit 0. -/
structure Status where
  negative : Bool
  overflow : Bool
  reserved : Bool
  breakMark : Bool
  decimal : Bool
  interruptDisable : Bool
  zero : Bool
  carry : Bool
deriving DecidableEq, Repr

namespace Status

def initial : Status where
  negative := false
  overflow := false
  reserved := true
  breakMark := false
  decimal := false
  interruptDisable := true
  zero := false
  carry := false

def ofByte (byte : UInt8) : Status where
  negative := byte.toNat.testBit 7
  overflow := byte.toNat.testBit 6
  reserved := byte.toNat.testBit 5
  breakMark := byte.toNat.testBit 4
  decimal := byte.toNat.testBit 3
  interruptDisable := byte.toNat.testBit 2
  zero := byte.toNat.testBit 1
  carry := byte.toNat.testBit 0

def toByte (status : Status) : UInt8 :=
  UInt8.ofNat
    (128 * status.negative.toNat + 64 * status.overflow.toNat + 32 * status.reserved.toNat +
      16 * status.breakMark.toNat + 8 * status.decimal.toNat +
      4 * status.interruptDisable.toNat + 2 * status.zero.toNat + status.carry.toNat)

def get (status : Status) : Flag → Bool
  | .carry => status.carry
  | .zero => status.zero
  | .interruptDisable => status.interruptDisable
  | .decimal => status.decimal
  | .breakMark => status.breakMark
  | .reserved => status.reserved
  | .overflow => status.overflow
  | .negative => status.negative

def set (status : Status) (flag : Flag) (value : Bool) : Status :=
  match flag with
  | .carry => { status with carry := value }
  | .zero => { status with zero := value }
  | .interruptDisable => { status with interruptDisable := value }
  | .decimal => { status with decimal := value }
  | .breakMark => { status with breakMark := value }
  | .reserved => { status with reserved := value }
  | .overflow => { status with overflow := value }
  | .negative => { status with negative := value }

def union (status flags : Status) : Status where
  negative := status.negative || flags.negative
  overflow := status.overflow || flags.overflow
  reserved := status.reserved || flags.reserved
  breakMark := status.breakMark || flags.breakMark
  decimal := status.decimal || flags.decimal
  interruptDisable := status.interruptDisable || flags.interruptDisable
  zero := status.zero || flags.zero
  carry := status.carry || flags.carry

/-- The flags of the first that are not set in the second. -/
def without (status flags : Status) : Status where
  negative := status.negative && !flags.negative
  overflow := status.overflow && !flags.overflow
  reserved := status.reserved && !flags.reserved
  breakMark := status.breakMark && !flags.breakMark
  decimal := status.decimal && !flags.decimal
  interruptDisable := status.interruptDisable && !flags.interruptDisable
  zero := status.zero && !flags.zero
  carry := status.carry && !flags.carry

/-- Whether all flags of the second are set in the first, as holds for none. -/
def includes (status flags : Status) : Bool :=
  status.union flags = status

/-- Records a result byte: whether it is zero and whether its top bit is set. -/
def withResult (status : Status) (result : UInt8) : Status :=
  { status with zero := result == 0, negative := 128 ≤ result }

/-- The status as it is pushed: break mark and reserved bit are set. -/
def pushed (status : Status) : Status :=
  { status with breakMark := true, reserved := true }

/-- The status as it is pulled from a byte: the break mark is cleared and the
reserved bit is set. -/
def pulled (byte : UInt8) : Status :=
  { ofByte byte with breakMark := false, reserved := true }

@[simp]
theorem ofByte_toByte (status : Status) : ofByte status.toByte = status := by
  obtain ⟨n, v, r, b, d, i, z, c⟩ := status
  revert n v r b d i z c
  decide

@[simp]
theorem toByte_ofByte (byte : UInt8) : (ofByte byte).toByte = byte := by
  have hall : ∀ index : Fin 256,
      (ofByte (UInt8.ofNat index)).toByte = UInt8.ofNat index := by decide +kernel
  have hbyte := hall ⟨byte.toNat, byte.toNat_lt⟩
  simpa using hbyte

end Status

end Machine6502
