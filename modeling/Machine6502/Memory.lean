import Machine6502.Word

/-!
# Memory

A row of byte cells named by sixteen-bit addresses.  A machine is built with one
cell for every address; a memory restored from a snapshot may have fewer or more.
Reading a cell that is missing gives zero and writing it changes nothing, and
`covers` tells whether all cells of a list are there.
-/

namespace Machine6502

/-- The cells of a machine, the cell of address 0 first. -/
structure Memory where
  cells : Array UInt8
deriving DecidableEq

namespace Memory

def addressCount : Nat := 65536

/-- All cells zero, one for every address. -/
def blank : Memory :=
  ⟨Array.replicate addressCount 0⟩

def size (memory : Memory) : Nat :=
  memory.cells.size

def read (memory : Memory) (address : UInt16) : UInt8 :=
  memory.cells.getD address.toNat 0

def write (memory : Memory) (address : UInt16) (value : UInt8) : Memory :=
  ⟨memory.cells.setIfInBounds address.toNat value⟩

/-- The word at an address, low byte first.  The high byte of the word at the
last address is in the first cell. -/
def readWord (memory : Memory) (address : UInt16) : UInt16 :=
  wordOf (memory.read address) (memory.read (address + 1))

def writeWord (memory : Memory) (address word : UInt16) : Memory :=
  (memory.write address (lowByte word)).write (address + 1) (highByte word)

/-- Writes bytes one after the other to ascending addresses, going on with the
first cell after the last. -/
def writeAll (memory : Memory) (address : UInt16) : List UInt8 → Memory
  | [] => memory
  | byte :: bytes => (memory.write address byte).writeAll (address + 1) bytes

/-- The addresses of `count` cells from `address` on, with wrap-around. -/
def range (address : UInt16) (count : Nat) : List UInt16 :=
  (List.range count).map fun index => address + UInt16.ofNat index

/-- The bytes of `count` cells from `address` on, with wrap-around. -/
def readAll (memory : Memory) (address : UInt16) (count : Nat) : List UInt8 :=
  (range address count).map memory.read

def fill (memory : Memory) (value : UInt8) : Memory :=
  ⟨Array.replicate memory.size value⟩

/-- Replaces the cells from `start` on by a block. -/
def place (memory : Memory) (start : Nat) (block : List UInt8) : Memory :=
  ⟨memory.cells.extract 0 start ++ block.toArray ++
    memory.cells.extract (start + block.length) memory.size⟩

/-- The number of bytes of a program of `count` bytes that lie between its first
cell and the top of memory. -/
def blockLength (start : UInt16) (count : Nat) : Nat :=
  min count (addressCount - start.toNat)

/-- Copies bytes to ascending addresses: one block up to the top of memory, and
what is left from the first cell on, as often around as it takes. -/
def copy (memory : Memory) (start : UInt16) (bytes : List UInt8) : Memory :=
  let length := blockLength start bytes.length
  (memory.place start.toNat (bytes.take length)).writeAll 0 (bytes.drop length)

def has (memory : Memory) (address : UInt16) : Bool :=
  address.toNat < memory.size

def covers (memory : Memory) (addresses : List UInt16) : Bool :=
  addresses.all memory.has

/-- Whether copying `count` bytes to `start` finds all cells it needs.  A copy
that goes around the top needs every cell below it too. -/
def coversCopy (memory : Memory) (start : UInt16) (count : Nat) : Bool :=
  start.toNat + blockLength start count ≤ memory.size

/-- A result that needs the cells of a list, absent when one of them is missing. -/
def within {α : Type} (memory : Memory) (addresses : List UInt16) (result : α) : Option α :=
  if memory.covers addresses then some result else none

@[simp]
theorem size_blank : blank.size = addressCount := by
  simp [blank, size]

@[simp]
theorem size_write (memory : Memory) (address : UInt16) (value : UInt8) :
    (memory.write address value).size = memory.size := by
  simp [write, size]

@[simp]
theorem size_writeWord (memory : Memory) (address word : UInt16) :
    (memory.writeWord address word).size = memory.size := by
  simp [writeWord]

@[simp]
theorem size_writeAll (memory : Memory) (address : UInt16) (bytes : List UInt8) :
    (memory.writeAll address bytes).size = memory.size := by
  induction bytes generalizing memory address with
  | nil => rfl
  | cons byte bytes ih => simp [writeAll, ih]

theorem size_place (memory : Memory) (start : Nat) (block : List UInt8)
    (hfits : start + block.length ≤ memory.size) :
    (memory.place start block).size = memory.size := by
  simp only [place, size, Array.size_append, Array.size_extract, List.size_toArray] at *
  omega

theorem size_copy (memory : Memory) (start : UInt16) (bytes : List UInt8)
    (hfits : memory.coversCopy start bytes.length = true) :
    (memory.copy start bytes).size = memory.size := by
  simp only [coversCopy, decide_eq_true_eq] at hfits
  rw [copy, size_writeAll, size_place]
  simp only [List.length_take, blockLength] at *
  omega

/-- Memories of equal size are equal when every address reads the same, as long as
every cell has an address. -/
theorem ext_read {first second : Memory} (hsize : first.size = second.size)
    (hnamed : first.size ≤ addressCount)
    (hread : ∀ address, first.read address = second.read address) : first = second := by
  obtain ⟨firstCells⟩ := first
  obtain ⟨secondCells⟩ := second
  simp only [size, addressCount] at hsize hnamed
  congr 1
  apply Array.ext hsize
  intro index hfirst hsecond
  have hindex : (UInt16.ofNat index).toNat = index := by
    simp only [UInt16.toNat_ofNat']
    omega
  have hcell := hread (UInt16.ofNat index)
  simpa [read, hindex, hfirst, hsecond] using hcell

/-- A written cell holds what was written, and every other cell what it held. -/
theorem read_write (memory : Memory) (address other : UInt16) (value : UInt8)
    (hcell : address.toNat < memory.size) :
    (memory.write address value).read other =
      if other = address then value else memory.read other := by
  by_cases hother : other = address
  · subst hother
    simp_all [read, write, size, Array.getD]
  · have hindex : address.toNat ≠ other.toNat := fun h => hother (UInt16.toNat_inj.mp h).symm
    simp [read, write, hother, Array.getD_eq_getD_getElem?, Array.getElem?_setIfInBounds_ne hindex]

/-- A cell of a placed block holds the block's byte, and every other cell what it
held. -/
theorem read_place (memory : Memory) (start : Nat) (block : List UInt8) (address : UInt16)
    (hfits : start + block.length ≤ memory.size) :
    (memory.place start block).read address =
      if start ≤ address.toNat ∧ address.toNat < start + block.length then
        block.getD (address.toNat - start) 0
      else memory.read address := by
  simp only [read, place, size, Array.getD_eq_getD_getElem?, List.getD_eq_getElem?_getD,
    Array.getElem?_append, Array.size_append, Array.size_extract, List.size_toArray,
    Array.getElem?_extract, List.getElem?_toArray]
  generalize address.toNat = index
  simp only [size] at hfits
  rw [Nat.min_self, Nat.min_eq_left (by omega : start ≤ memory.cells.size), Nat.sub_zero]
  by_cases hbefore : index < start
  · rw [if_pos (by omega), if_pos (by omega), if_pos (by omega), if_neg (by omega), Nat.zero_add]
  · by_cases hblock : index < start + block.length
    · rw [if_pos (by omega), if_neg (by omega), if_pos (by omega)]
    · have houtside : ¬(start ≤ index ∧ index < start + block.length) := by omega
      rw [if_neg hblock, if_neg houtside]
      by_cases hcell : index < memory.cells.size
      · rw [if_pos (by omega), Nat.add_sub_cancel' (by omega)]
      · rw [if_neg (by omega), Array.getElem?_eq_none (by omega)]

/-- A memory with a cell for every address has the cells of every list. -/
theorem covers_of_full (memory : Memory) (addresses : List UInt16)
    (hfull : addressCount ≤ memory.size) : memory.covers addresses = true := by
  simp only [covers, List.all_eq_true, has, decide_eq_true_eq]
  intro address _
  have := address.toNat_lt
  simp only [addressCount] at hfull
  omega

end Memory

end Machine6502
