import Mathlib.Algebra.Group.Nat.Defs
import Machine6502.Screen
import Machine6502.Proofs.Blocks
import Machine6502.Proofs.OpcodeTable

/-!
# Checked arithmetic

Most arithmetic of the machine wraps on purpose.  There are five places where it must
not: the address of a stack cell, the number of operand bytes, the room that a program
has up to the top of memory, the sum of an addition before it is cut to a byte, and the
place of a pixel among the bytes of the screen.  With operations that have no result
where they would wrap, each of them has a result, and it is the machine's.
-/

namespace Machine6502

/-- A sum, absent when it does not stay below a bound. -/
def sumBelow (bound left right : Nat) : Option Nat :=
  if left + right < bound then some (left + right) else none

/-- A product, absent when it does not stay below a bound. -/
def productBelow (bound left right : Nat) : Option Nat :=
  if left * right < bound then some (left * right) else none

/-- A difference, absent when it is below zero. -/
def difference? (left right : Nat) : Option Nat :=
  if right ≤ left then some (left - right) else none

/-- The bound of a word. -/
def wordBound : Nat := 2 ^ 16

/-- A bound that every index type is wide enough for. -/
def indexBound : Nat := 2 ^ 32

theorem sumBelow_of_lt {bound left right : Nat} (hlt : left + right < bound) :
    sumBelow bound left right = some (left + right) :=
  if_pos hlt

theorem productBelow_of_lt {bound left right : Nat} (hlt : left * right < bound) :
    productBelow bound left right = some (left * right) :=
  if_pos hlt

theorem difference?_of_le {left right : Nat} (hle : right ≤ left) :
    difference? left right = some (left - right) :=
  if_pos hle

theorem Cpu.sumBelow_stackPage (pointer : UInt8) :
    sumBelow wordBound 0x0100 pointer.toNat = some (stackAddress pointer).toNat := by
  have hpointer := pointer.toNat_lt
  have haddress : (stackAddress pointer).toNat = pointer.toNat + 256 * 1 := toNat_wordOf pointer 1
  rw [sumBelow_of_lt (by rw [wordBound]; omega), haddress, Nat.add_comm]

theorem Opcode.length_pos_of_mem_table {opcode : Opcode} (hmem : opcode ∈ table) :
    1 ≤ opcode.length.toNat := by
  have hall : ∀ entry ∈ table, 1 ≤ entry.length.toNat := by decide +kernel
  exact hall opcode hmem

theorem Opcode.difference?_length {code : UInt8} {opcode : Opcode}
    (hdecode : decode code = some opcode) :
    difference? opcode.length.toNat 1 = some (opcode.length.toUInt16 - 1).toNat := by
  have hpos := length_pos_of_mem_table (mem_table_of_decode hdecode).1
  have hle : (1 : UInt16) ≤ opcode.length.toUInt16 := by
    rw [UInt16.le_iff_toNat_le, UInt8.toNat_toUInt16]
    exact hpos
  rw [difference?_of_le hpos, UInt16.toNat_sub_of_le _ _ hle, UInt8.toNat_toUInt16]
  rfl

theorem Memory.difference?_room (start : UInt16) (count : Nat) :
    (difference? addressCount start.toNat).map (min count) = some (blockLength start count) := by
  have hstart : start.toNat ≤ addressCount := Nat.le_of_lt start.toNat_lt
  rw [difference?_of_le hstart]
  rfl

/-- The sum of two bytes and a carry is a word, and cutting it to a byte and looking for
what was cut off gives value and carry of the addition. -/
theorem sumBelow_addWithCarry (left right : UInt8) (carry : Bool) :
    ∃ total, (sumBelow wordBound left.toNat right.toNat).bind
        (sumBelow wordBound · carry.toNat) = some total ∧
      (addWithCarry left right carry).value.toNat = total % 256 ∧
      (addWithCarry left right carry).carry = decide (255 < total) := by
  have hleft := left.toNat_lt
  have hright := right.toNat_lt
  have hcarry := carry.toNat_le
  refine ⟨left.toNat + right.toNat + carry.toNat, ?_, UInt8.toNat_ofNat', rfl⟩
  rw [sumBelow_of_lt (by rw [wordBound]; omega), Option.bind_some,
    sumBelow_of_lt (by rw [wordBound]; omega)]

theorem Color.length_bytes (color : Color) : color.bytes.length = 3 :=
  rfl

namespace Screen

theorem length_flatMap_bytes (colors : List Color) :
    (colors.flatMap Color.bytes).length = colors.length * 3 :=
  length_flatMap_blocks fun color _ => Color.length_bytes color

/-- A screen has three bytes for each of its pixels. -/
theorem length_bytes (screen : Screen) : screen.bytes.length = 3072 := by
  rw [bytes, length_flatMap_bytes, Vector.length_toList]

theorem getElem?_flatMap_bytes (colors : List Color) (number offset : Nat) (hoffset : offset < 3) :
    (colors.flatMap Color.bytes)[number * 3 + offset]? =
      colors[number]?.bind fun color => color.bytes[offset]? :=
  getElem?_flatMap_blocks (fun color _ => Color.length_bytes color) number hoffset

/-- The colour in a column and a row, looked up among the bytes of the screen.  It is
absent when an index wraps or lies behind the last byte. -/
def checkedPixel? (screen : Screen) (x y : Nat) : Option (Option Color) :=
  if x < width ∧ y < height then do
    let before ← productBelow indexBound y width
    let number ← sumBelow indexBound before x
    let place ← productBelow indexBound number 3
    let red ← screen.bytes[place]?
    let green ← screen.bytes[place + 1]?
    let blue ← screen.bytes[place + 2]?
    return some ⟨red, green, blue⟩
  else some none

theorem checkedPixel?_eq (screen : Screen) (x y : Nat) :
    screen.checkedPixel? x y = some (screen.pixel? x y) := by
  rw [checkedPixel?, pixel?]
  split
  next hinside =>
    obtain ⟨hx, hy⟩ := hinside
    simp only [width, height, indexBound] at hx hy ⊢
    have hnumber : y * 32 + x < screen.pixels.toList.length := by
      rw [Vector.length_toList]
      omega
    have hpixel : screen.pixels.toList[y * 32 + x]? = some screen.pixels.toList[y * 32 + x] :=
      List.getElem?_eq_getElem hnumber
    have hfound : screen.pixels[y * 32 + x]? = some screen.pixels.toList[y * 32 + x] := by
      rw [← hpixel, Vector.getElem?_toList]
    have hbyte (offset : Nat) (hoffset : offset < 3) : screen.bytes[(y * 32 + x) * 3 + offset]? =
        screen.pixels.toList[y * 32 + x].bytes[offset]? := by
      rw [bytes, getElem?_flatMap_bytes _ _ _ hoffset, hpixel, Option.bind_some]
    have hred := hbyte 0 (by decide)
    have hgreen := hbyte 1 (by decide)
    have hblue := hbyte 2 (by decide)
    rw [productBelow_of_lt (by omega), hfound]
    simp only [Option.bind_eq_bind, Option.bind_some]
    rw [sumBelow_of_lt (by omega), Option.bind_some, productBelow_of_lt (by omega),
      Option.bind_some, ← Nat.add_zero ((y * 32 + x) * 3), hred, hgreen, hblue]
    rfl
  next => rfl

end Screen

/-- Where the arithmetic of the machine must not wrap, it does not. -/
structure ArithmeticFits : Prop where
  stack : ∀ pointer : UInt8,
    sumBelow wordBound 0x0100 pointer.toNat = some (Cpu.stackAddress pointer).toNat
  operands : ∀ (code : UInt8) (opcode : Opcode), Opcode.decode code = some opcode →
    difference? opcode.length.toNat 1 = some (opcode.length.toUInt16 - 1).toNat
  room : ∀ (start : UInt16) (count : Nat),
    (difference? Memory.addressCount start.toNat).map (min count) =
      some (Memory.blockLength start count)
  addition : ∀ (left right : UInt8) (carry : Bool),
    ∃ total, (sumBelow wordBound left.toNat right.toNat).bind
        (sumBelow wordBound · carry.toNat) = some total ∧
      (addWithCarry left right carry).value.toNat = total % 256 ∧
      (addWithCarry left right carry).carry = decide (255 < total)
  pixels : ∀ (screen : Screen) (x y : Nat),
    screen.checkedPixel? x y = some (screen.pixel? x y)

theorem arithmeticFits : ArithmeticFits where
  stack := Cpu.sumBelow_stackPage
  operands _ _ := Opcode.difference?_length
  room := Memory.difference?_room
  addition := sumBelow_addWithCarry
  pixels := Screen.checkedPixel?_eq

end Machine6502
