/-!
# Bytes, words and their numerals

A word is a sixteen-bit address or pointer made of a low and a high byte.  All
arithmetic on bytes and words wraps.  Numerals in messages have a fixed least
width and are filled up with zeros from the left.
-/

namespace Machine6502

def wordOf (low high : UInt8) : UInt16 :=
  low.toUInt16 + 256 * high.toUInt16

def lowByte (word : UInt16) : UInt8 :=
  word.toUInt8

def highByte (word : UInt16) : UInt8 :=
  (word / 256).toUInt8

/-- A displacement byte read as a signed number, as a word to be added. -/
def displacement (byte : UInt8) : UInt16 :=
  if byte < 128 then byte.toUInt16 else byte.toUInt16 + 0xFF00

/-- The numeral of `value` in the given base, with at least `width` digits. -/
def numeral (base width value : Nat) : String :=
  let digits := Nat.toDigits base value
  String.ofList (List.replicate (width - digits.length) '0' ++ digits)

def hexByte (byte : UInt8) : String :=
  numeral 16 2 byte.toNat

def hexWord (word : UInt16) : String :=
  numeral 16 4 word.toNat

theorem toNat_wordOf (low high : UInt8) :
    (wordOf low high).toNat = low.toNat + 256 * high.toNat := by
  have hlow := low.toNat_lt
  have hhigh := high.toNat_lt
  simp only [wordOf, UInt16.toNat_add, UInt16.toNat_mul, UInt8.toNat_toUInt16]
  have hbase : (256 : UInt16).toNat = 256 := rfl
  rw [hbase]
  omega

@[simp]
theorem lowByte_wordOf (low high : UInt8) : lowByte (wordOf low high) = low := by
  apply UInt8.toNat_inj.mp
  have hlow := low.toNat_lt
  have hword := toNat_wordOf low high
  simp only [lowByte, UInt16.toNat_toUInt8]
  omega

@[simp]
theorem highByte_wordOf (low high : UInt8) : highByte (wordOf low high) = high := by
  apply UInt8.toNat_inj.mp
  have hlow := low.toNat_lt
  have hhigh := high.toNat_lt
  have hword := toNat_wordOf low high
  have hbase : (256 : UInt16).toNat = 256 := rfl
  simp only [highByte, UInt16.toNat_toUInt8, UInt16.toNat_div, hbase]
  omega

@[simp]
theorem wordOf_bytes (word : UInt16) : wordOf (lowByte word) (highByte word) = word := by
  apply UInt16.toNat_inj.mp
  have hword := word.toNat_lt
  have hbase : (256 : UInt16).toNat = 256 := rfl
  rw [toNat_wordOf]
  simp only [lowByte, highByte, UInt16.toNat_toUInt8, UInt16.toNat_div, hbase]
  omega

end Machine6502
