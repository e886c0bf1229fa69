import Mathlib.Logic.Function.Basic
import Machine6502.Instruction

/-!
# Registers and cells

The data of a machine apart from its program counter and flags: the byte registers
and one byte for every address.  The cells are a function of the address here, so
that a write is a change of that function at one point, and the stack is the page
that the stack pointer names cells of.
-/

namespace Machine6502

/-- The byte registers, and the byte in each cell. -/
structure Storage where
  a : UInt8
  x : UInt8
  y : UInt8
  s : UInt8
  cell : UInt16 → UInt8

namespace Storage

def get (storage : Storage) : Register → UInt8
  | .a => storage.a
  | .x => storage.x
  | .y => storage.y
  | .s => storage.s

def set (storage : Storage) (register : Register) (value : UInt8) : Storage :=
  match register with
  | .a => { storage with a := value }
  | .x => { storage with x := value }
  | .y => { storage with y := value }
  | .s => { storage with s := value }

/-- Puts a byte into a cell and changes nothing else. -/
def store (storage : Storage) (address : UInt16) (value : UInt8) : Storage :=
  { storage with cell := Function.update storage.cell address value }

def stackCell (pointer : UInt8) : UInt16 :=
  0x0100 + pointer.toUInt16

/-- Puts a byte in the cell that the stack pointer names and lowers the pointer. -/
def push (storage : Storage) (value : UInt8) : Storage :=
  { storage.store (stackCell storage.s) value with s := storage.s - 1 }

/-- The byte that lies `depth` cells above the stack pointer. -/
def peek (storage : Storage) (depth : UInt8) : UInt8 :=
  storage.cell (stackCell (storage.s + depth))

/-- The word whose low byte lies `depth` cells above the stack pointer. -/
def peekWord (storage : Storage) (depth : UInt8) : UInt16 :=
  wordOf (storage.peek depth) (storage.peek (depth + 1))

def drop (storage : Storage) (count : UInt8) : Storage :=
  { storage with s := storage.s + count }

theorem peek_drop (storage : Storage) (count depth : UInt8) :
    (storage.drop count).peek depth = storage.peek (count + depth) := by
  simp only [peek, drop, UInt8.add_assoc]

theorem peekWord_drop (storage : Storage) (count depth : UInt8) :
    (storage.drop count).peekWord depth = storage.peekWord (count + depth) := by
  simp only [peekWord, peek_drop, UInt8.add_assoc]

theorem drop_drop (storage : Storage) (first second : UInt8) :
    (storage.drop first).drop second = storage.drop (first + second) := by
  simp only [drop, UInt8.add_assoc]

end Storage

/-- Writing a cell changes the memory at its address only. -/
theorem Memory.read_write_eq_update {memory : Memory} (hfull : memory.size = addressCount)
    (address : UInt16) (value : UInt8) :
    (memory.write address value).read = Function.update memory.read address value := by
  have hcell : address.toNat < memory.size := by
    rw [hfull]
    exact address.toNat_lt
  funext other
  rw [read_write memory address other value hcell, Function.update_apply]

theorem Memory.read_blank (address : UInt16) : blank.read address = 0 := by
  rw [read, blank, Array.getD_eq_getD_getElem?, Array.getElem?_replicate]
  split <;> rfl

namespace Cpu

def storage (cpu : Cpu) : Storage :=
  ⟨cpu.a, cpu.x, cpu.y, cpu.s, cpu.memory.read⟩

theorem stackAddress_eq_stackCell (pointer : UInt8) :
    stackAddress pointer = Storage.stackCell pointer := by
  rw [stackAddress, Storage.stackCell, wordOf, UInt16.add_comm]
  rfl

variable {cpu : Cpu}

theorem storage_get (cpu : Cpu) (register : Register) :
    cpu.storage.get register = cpu.get register := by
  cases register <;> rfl

/-- Recording a result changes flags only. -/
theorem storage_setResult (cpu : Cpu) (register : Register) (value : UInt8) :
    (cpu.setResult register value).storage = cpu.storage.set register value := by
  cases register <;> rfl

theorem storage_write (hfull : cpu.memory.size = Memory.addressCount) (address : UInt16)
    (value : UInt8) : (cpu.write address value).storage = cpu.storage.store address value := by
  simp only [storage, write, Storage.store, Memory.read_write_eq_update hfull]

theorem storage_push (hfull : cpu.memory.size = Memory.addressCount) (value : UInt8) :
    (cpu.push value).storage = cpu.storage.push value := by
  simp only [storage, push, Storage.push, Storage.store, stackAddress_eq_stackCell,
    Memory.read_write_eq_update hfull]

theorem storage_pushWord (hfull : cpu.memory.size = Memory.addressCount) (word : UInt16) :
    (cpu.pushWord word).storage = (cpu.storage.push (highByte word)).push (lowByte word) := by
  have hpushed : (cpu.push (highByte word)).memory.size = Memory.addressCount := by
    simp [push, hfull]
  rw [pushWord, storage_push hpushed, storage_push hfull]

theorem pop_fst (cpu : Cpu) : cpu.pop.1 = cpu.storage.peek 1 := by
  simp only [pop, storage, Storage.peek, stackAddress_eq_stackCell]

theorem storage_pop (cpu : Cpu) : cpu.pop.2.storage = cpu.storage.drop 1 :=
  rfl

theorem storage_pullStatus (cpu : Cpu) : cpu.pullStatus.storage = cpu.storage.drop 1 :=
  rfl

/-- The word that two pops give, its low byte first. -/
theorem popWord_fst (cpu : Cpu) : cpu.popWord.1 = cpu.storage.peekWord 1 := by
  simp only [popWord, pop_fst, storage_pop, Storage.peek_drop, Storage.peekWord]

theorem storage_popWord (cpu : Cpu) : cpu.popWord.2.storage = cpu.storage.drop 2 :=
  Storage.drop_drop cpu.storage 1 1

/-- A new machine with some bytes from the first cell on.  Its memory is not to be
computed cell by cell. -/
@[irreducible]
def holding (bytes : List UInt8) : Cpu :=
  { initial with memory := Memory.blank.place 0 bytes }

theorem pc_holding (bytes : List UInt8) : (holding bytes).pc = 0 := by
  rw [holding]
  rfl

theorem status_holding (bytes : List UInt8) : (holding bytes).status = .initial := by
  rw [holding]
  rfl

theorem size_holding (bytes : List UInt8) (hfits : bytes.length ≤ Memory.addressCount) :
    (holding bytes).memory.size = Memory.addressCount := by
  rw [holding, Memory.size_place, Memory.size_blank]
  rwa [Memory.size_blank, Nat.zero_add]

theorem read_holding (bytes : List UInt8) (hfits : bytes.length ≤ Memory.addressCount) :
    (holding bytes).memory.read = fun address => bytes.getD address.toNat 0 := by
  funext address
  rw [holding, Memory.read_place _ _ _ _ (by rwa [Memory.size_blank, Nat.zero_add])]
  by_cases hinside : address.toNat < bytes.length
  · rw [if_pos ⟨Nat.zero_le _, by omega⟩, Nat.sub_zero]
  · rw [if_neg (by omega), Memory.read_blank, List.getD_eq_getElem?_getD,
      List.getElem?_eq_none (by omega), Option.getD_none]

end Cpu

end Machine6502
