import Machine6502.Proofs.Locality

/-!
# Stores

The cells that a step writes, with the bytes it puts there, in their order.  A store that
leaves a cell as it was is listed too.  The cells after a step are those before it with
its stores carried out.
-/

namespace Machine6502

/-- The stores of an instruction on the cell at an address. -/
def Addressed.stores (operation : Addressed) (address : UInt16) (cpu : Cpu) :
    List (UInt16 × UInt8) :=
  let operand := cpu.storage.cell address
  match operation with
  | .store register => [(address, cpu.storage.get register)]
  | .shift operation => [(address, operation.moved operand cpu.status.carry)]
  | .increment => [(address, operand + 1)]
  | .decrement => [(address, operand - 1)]
  | _ => []

def Implied.stores (operation : Implied) (cpu : Cpu) : List (UInt16 × UInt8) :=
  match operation with
  | .push => [(Storage.stackCell cpu.storage.s, cpu.storage.a)]
  | .pushStatus => [(Storage.stackCell cpu.storage.s, cpu.status.toByte ||| 0x30)]
  | _ => []

/-- Only a call stores: the address of its last byte, the high byte first. -/
def Control.stores (operation : Control) (cpu : Cpu) : List (UInt16 × UInt8) :=
  match operation with
  | .call =>
      [(Storage.stackCell cpu.storage.s, highByte (cpu.pc + 2)),
        (Storage.stackCell (cpu.storage.s - 1), lowByte (cpu.pc + 2))]
  | _ => []

def Instruction.stores (instruction : Instruction) (address : UInt16) (cpu : Cpu) :
    List (UInt16 × UInt8) :=
  match instruction with
  | .addressed operation => operation.stores address cpu
  | .implied operation => operation.stores cpu
  | .control operation => operation.stores cpu

/-- The cells after some stores, one after the other. -/
def storeAll (cell : UInt16 → UInt8) : List (UInt16 × UInt8) → UInt16 → UInt8
  | [] => cell
  | store :: stores => storeAll (Function.update cell store.1 store.2) stores

/-- What holds of the byte in a cell and of every byte that is stored there holds of the
byte that is there in the end. -/
theorem storeAll_induction {property : UInt8 → Prop} {cell : UInt16 → UInt8} {address : UInt16}
    (stores : List (UInt16 × UInt8)) (hcell : property (cell address))
    (hstores : ∀ store ∈ stores, store.1 = address → property store.2) :
    property (storeAll cell stores address) := by
  induction stores generalizing cell with
  | nil => exact hcell
  | cons store stores ih =>
      refine ih ?_ fun later hlater => hstores later (List.mem_cons_of_mem _ hlater)
      by_cases hhere : address = store.1
      · subst hhere
        rw [Function.update_self]
        exact hstores store List.mem_cons_self rfl
      · rw [Function.update_of_ne hhere]
        exact hcell

theorem storeAll_of_ne {cell : UInt16 → UInt8} {address : UInt16}
    {stores : List (UInt16 × UInt8)} (hother : ∀ store ∈ stores, store.1 ≠ address) :
    storeAll cell stores address = cell address :=
  @storeAll_induction (· = cell address) _ _ _ rfl fun store hstore hhere =>
    absurd hhere (hother store hstore)

theorem Addressed.storeAll_stores (operation : Addressed) (address : UInt16) (cpu : Cpu) :
    (operation.storageAfter address cpu).cell =
      storeAll cpu.storage.cell (operation.stores address cpu) := by
  cases operation with
  | load register => cases register <;> rfl
  | logic operation => cases operation <;> rfl
  | _ => rfl

theorem Implied.storeAll_stores (operation : Implied) (cpu : Cpu) :
    (operation.storageAfter cpu).cell = storeAll cpu.storage.cell (operation.stores cpu) := by
  cases operation with
  | transfer source target => cases target <;> rfl
  | increment register => cases register <;> rfl
  | decrement register => cases register <;> rfl
  | _ => rfl

theorem Control.storeAll_stores (operation : Control) (cpu : Cpu) :
    (operation.storageAfter cpu).cell = storeAll cpu.storage.cell (operation.stores cpu) := by
  cases operation <;> rfl

theorem Instruction.storeAll_stores (instruction : Instruction) (address : UInt16) (cpu : Cpu) :
    (instruction.storageAfter address cpu).cell =
      storeAll cpu.storage.cell (instruction.stores address cpu) := by
  cases instruction with
  | addressed operation => exact operation.storeAll_stores address cpu
  | implied operation => exact operation.storeAll_stores cpu
  | control operation => exact operation.storeAll_stores cpu

namespace Cpu

/-- The stores of the next step.  A byte that begins no instruction stores nothing. -/
def stores (cpu : Cpu) : List (UInt16 × UInt8) :=
  match Opcode.decode cpu.code with
  | none => []
  | some opcode => opcode.instruction.stores (cpu.effectiveAddress opcode.mode) cpu

variable {cpu : Cpu}

theorem stores_of_decode {opcode : Opcode} (hdecode : Opcode.decode cpu.code = some opcode) :
    cpu.stores = opcode.instruction.stores (cpu.effectiveAddress opcode.mode) cpu := by
  rw [stores, hdecode]

theorem stores_of_break (hcode : cpu.code = 0x00) : cpu.stores = [] := by
  have hdecode : Opcode.decode cpu.code =
      some ⟨0x00, "BRK", 1, 7, .implied, .implied .halt⟩ := by
    rw [hcode]
    rfl
  rw [stores_of_decode hdecode]
  rfl

/-- A step changes the cells by its stores and by nothing else. -/
theorem read_step (hfull : cpu.memory.size = Memory.addressCount) :
    cpu.step.2.read = storeAll cpu.read cpu.stores := by
  cases hdecode : Opcode.decode cpu.code with
  | none =>
      rw [step_of_decode_eq_none hdecode, stores, hdecode]
      rfl
  | some opcode =>
      obtain ⟨-, hstorage, -⟩ := laws_of_decode hfull hdecode
      rw [stores_of_decode hdecode]
      exact (congrArg Storage.cell hstorage).trans
        (opcode.instruction.storeAll_stores (cpu.effectiveAddress opcode.mode) cpu)

end Cpu

end Machine6502
