import Machine6502.Proofs.Flags
import Machine6502.Proofs.Outcome
import Machine6502.Proofs.ProgramCounter

/-!
# Locality

A step depends on no cell but those it looks at: its footprint.  Two machines that differ
in one other cell take the same step, and after it they differ in that cell at most.
-/

namespace Machine6502

/-- Whether an instruction on a cell looks at the byte that is there. -/
def Addressed.looksAtOperand : Addressed → Bool
  | .store _ => false
  | _ => true

/-- How many operand bytes a mode has. -/
def Mode.operandCount : Mode → Nat
  | .absolute => 2
  | .absoluteX => 2
  | .absoluteY => 2
  | .implied => 0
  | _ => 1

/-- The two cells of page zero in which an indirect mode finds an address.  The byte
behind the operand of the indexed mode is fetched along with it (`Mode.needed`), but is
not looked at. -/
def Mode.pointerCells (mode : Mode) (cpu : Cpu) : List UInt16 :=
  let pointer (byte : UInt8) : List UInt16 := [byte.toUInt16, (byte + 1).toUInt16]
  match mode with
  | .indirectX => pointer (cpu.read (cpu.pc + 1) + cpu.x)
  | .indirectY => pointer (cpu.read (cpu.pc + 1))
  | _ => []

/-- The two cells in which the indirect jump at the program counter finds its target. -/
def Cpu.targetCells (cpu : Cpu) : List UInt16 :=
  let pointer := cpu.operandWord
  [pointer, (pointer &&& 0xFF00) ||| ((pointer + 1) &&& 0x00FF)]

/-- The cells beside its own bytes that the instruction at the program counter looks at. -/
def Instruction.dataCells (instruction : Instruction) (mode : Mode) (cpu : Cpu) : List UInt16 :=
  match instruction with
  | .addressed operation =>
      mode.pointerCells cpu ++
        if operation.looksAtOperand then [cpu.effectiveAddress mode] else []
  | .implied .pull => cpu.popCells 1
  | .implied .pullStatus => cpu.popCells 1
  | .implied _ => []
  | .control .jumpIndirect => cpu.targetCells
  | .control .returnFromCall => cpu.popCells 2
  | .control .returnFromInterrupt => cpu.popCells 3
  | .control _ => []

/-- The cells that the next step looks at: its opcode, its operand bytes, and the cells
that its instruction looks at beside them. -/
def Cpu.footprint (cpu : Cpu) : List UInt16 :=
  cpu.pc ::
    match Opcode.decode cpu.code with
    | none => []
    | some opcode =>
        Memory.range (cpu.pc + 1) (opcode.length.toNat - 1) ++
          opcode.instruction.dataCells opcode.mode cpu

/-- The same registers, status and halted flag, and cells that differ at one address at
most. -/
structure Cpu.AgreeExcept (address : UInt16) (first second : Cpu) : Prop where
  registers : first.registers = second.registers
  halted : first.halted = second.halted
  read : ∀ other, other ≠ address → first.read other = second.read other

/-- Of two machines before a step and after it: the cell at an address is left alone in
both, or holds the same byte in both. -/
def Cpu.TreatAlike (address : UInt16) (first second next next' : Cpu) : Prop :=
  (next.read address = first.read address ∧ next'.read address = second.read address) ∨
    next.read address = next'.read address

namespace Storage

/-- The same byte registers, and cells that differ at one address at most. -/
structure AgreeExcept (address : UInt16) (first second : Storage) : Prop where
  a : first.a = second.a
  x : first.x = second.x
  y : first.y = second.y
  s : first.s = second.s
  cell : ∀ other, other ≠ address → first.cell other = second.cell other

/-- Two storages that agreed except at an address have become two that do so again.  The
cell there was left alone in both, or holds the same byte in both. -/
structure ChangeAlike (address : UInt16) (first second next next' : Storage) : Prop where
  agree : next.AgreeExcept address next'
  cell : (next.cell address = first.cell address ∧ next'.cell address = second.cell address) ∨
    next.cell address = next'.cell address

variable {address : UInt16} {first second next next' : Storage}

theorem AgreeExcept.get (hagree : first.AgreeExcept address second) (register : Register) :
    first.get register = second.get register := by
  cases register with
  | a => exact hagree.a
  | x => exact hagree.x
  | y => exact hagree.y
  | s => exact hagree.s

theorem AgreeExcept.unchanged (hagree : first.AgreeExcept address second) :
    ChangeAlike address first second first second :=
  ⟨hagree, .inl ⟨rfl, rfl⟩⟩

namespace ChangeAlike

theorem set (halike : ChangeAlike address first second next next') (register : Register)
    (value : UInt8) :
    ChangeAlike address first second (next.set register value) (next'.set register value) := by
  obtain ⟨⟨ha, hx, hy, hs, hcells⟩, hcell⟩ := halike
  cases register with
  | a => exact ⟨⟨rfl, hx, hy, hs, hcells⟩, hcell⟩
  | x => exact ⟨⟨ha, rfl, hy, hs, hcells⟩, hcell⟩
  | y => exact ⟨⟨ha, hx, rfl, hs, hcells⟩, hcell⟩
  | s => exact ⟨⟨ha, hx, hy, rfl, hcells⟩, hcell⟩

theorem store (halike : ChangeAlike address first second next next') (target : UInt16)
    (value : UInt8) :
    ChangeAlike address first second (next.store target value) (next'.store target value) := by
  obtain ⟨⟨ha, hx, hy, hs, hcells⟩, hcell⟩ := halike
  refine ⟨⟨ha, hx, hy, hs, fun other hother => ?_⟩, ?_⟩
  · simp only [Storage.store, Function.update_apply, hcells other hother]
  · by_cases htarget : address = target
    · right
      simp only [Storage.store, Function.update_apply, if_pos htarget]
    · simpa only [Storage.store, Function.update_of_ne htarget] using hcell

theorem drop (halike : ChangeAlike address first second next next') (count : UInt8) :
    ChangeAlike address first second (next.drop count) (next'.drop count) := by
  obtain ⟨⟨ha, hx, hy, hs, hcells⟩, hcell⟩ := halike
  exact ⟨⟨ha, hx, hy, congrArg (· + count) hs, hcells⟩, hcell⟩

theorem push (halike : ChangeAlike address first second next next') (value : UInt8) :
    ChangeAlike address first second (next.push value) (next'.push value) := by
  have hs := halike.agree.s
  obtain ⟨⟨ha, hx, hy, -, hcells⟩, hcell⟩ := halike.store (stackCell next.s) value
  rw [Storage.push, Storage.push, ← hs]
  exact ⟨⟨ha, hx, hy, rfl, hcells⟩, hcell⟩

end ChangeAlike

end Storage

namespace Memory

@[simp]
theorem range_zero (start : UInt16) : range start 0 = [] :=
  rfl

@[simp]
theorem range_succ (start : UInt16) (count : Nat) :
    range start (count + 1) = start :: range (start + 1) count := by
  simp only [range, List.range_succ_eq_map, List.map_cons, List.map_map]
  congr 1
  · exact UInt16.add_zero start
  · refine List.map_congr_left fun index _ => ?_
    rw [Function.comp_apply, Nat.succ_eq_add_one, UInt16.ofNat_add, UInt16.add_assoc,
      UInt16.add_comm (UInt16.ofNat index)]
    rfl

end Memory

/-- An opcode that works on a cell has the operand bytes of its mode. -/
theorem Opcode.operandCount_of_mem_table {opcode : Opcode} (hmem : opcode ∈ table)
    (huses : opcode.instruction.usesMode = true) :
    opcode.length.toNat - 1 = opcode.mode.operandCount := by
  have hall : ∀ entry ∈ table, entry.instruction.usesMode = true →
      entry.length.toNat - 1 = entry.mode.operandCount := by decide +kernel
  exact hall opcode hmem huses

namespace Cpu

variable {address : UInt16} {first second : Cpu}

theorem AgreeExcept.exists_memory (hagree : first.AgreeExcept address second) :
    ∃ memory, second = { first with memory := memory } := by
  obtain ⟨hregisters, hhalted, -⟩ := hagree
  obtain ⟨a, x, y, s, pc, status, halted, memory⟩ := second
  simp only [Cpu.registers, Registers.mk.injEq] at hregisters
  obtain ⟨rfl, rfl, rfl, rfl, rfl, rfl⟩ := hregisters
  exact ⟨memory, congrArg (Cpu.mk _ _ _ _ _ _ · memory) hhalted.symm⟩

theorem AgreeExcept.storage (hagree : first.AgreeExcept address second) :
    first.storage.AgreeExcept address second.storage := by
  have hread := hagree.read
  obtain ⟨memory, rfl⟩ := hagree.exists_memory
  exact ⟨rfl, rfl, rfl, rfl, hread⟩

/-- The indexed indirect mode fetches a whole word and goes by its low byte. -/
theorem effectiveAddress_indirectX (cpu : Cpu) :
    cpu.effectiveAddress .indirectX =
      zeroPageWord cpu.memory (lowByte cpu.operandWord + cpu.x) := by
  rw [operandWord, Memory.readWord, lowByte_wordOf]
  rfl

section Words

variable (hagree : first.AgreeExcept address second)

include hagree

theorem AgreeExcept.readWord (other : UInt16) (hlow : address ≠ other)
    (hhigh : address ≠ other + 1) :
    first.memory.readWord other = second.memory.readWord other :=
  congrArg₂ wordOf (hagree.read _ hlow.symm) (hagree.read _ hhigh.symm)

theorem AgreeExcept.zeroPageWord (pointer : UInt8) (hlow : address ≠ pointer.toUInt16)
    (hhigh : address ≠ (pointer + 1).toUInt16) :
    Cpu.zeroPageWord first.memory pointer = Cpu.zeroPageWord second.memory pointer :=
  congrArg₂ wordOf (hagree.read _ hlow.symm) (hagree.read _ hhigh.symm)

/-- An address is found by the operand bytes and the pointer alone. -/
theorem AgreeExcept.effectiveAddress {mode : Mode}
    (hoperand : address ∉ Memory.range (first.pc + 1) mode.operandCount)
    (hpointer : address ∉ mode.pointerCells first) :
    first.effectiveAddress mode = second.effectiveAddress mode := by
  have hbyte := hagree.read (first.pc + 1)
  have hword := hagree.readWord (first.pc + 1)
  have hpage := hagree.zeroPageWord
  obtain ⟨memory, rfl⟩ := hagree.exists_memory
  cases mode
  all_goals
    simp only [Mode.operandCount, Mode.pointerCells, Memory.range_succ, Memory.range_zero,
      List.mem_cons, List.not_mem_nil, or_false, not_or] at hoperand hpointer
  case immediate => rfl
  case zeroPage => exact congrArg UInt8.toUInt16 (hbyte (Ne.symm hoperand))
  case zeroPageX =>
    exact congrArg (fun byte => (byte + first.x).toUInt16) (hbyte (Ne.symm hoperand))
  case zeroPageY =>
    exact congrArg (fun byte => (byte + first.y).toUInt16) (hbyte (Ne.symm hoperand))
  case absolute => exact hword hoperand.1 hoperand.2
  case absoluteX => exact congrArg (· + first.x.toUInt16) (hword hoperand.1 hoperand.2)
  case absoluteY => exact congrArg (· + first.y.toUInt16) (hword hoperand.1 hoperand.2)
  case indirectX =>
    exact (hpage _ hpointer.1 hpointer.2).trans
      (congrArg (fun byte => Cpu.zeroPageWord memory (byte + first.x)) (hbyte (Ne.symm hoperand)))
  case indirectY =>
    have hfound := (hpage _ hpointer.1 hpointer.2).trans
      (congrArg (Cpu.zeroPageWord memory) (hbyte (Ne.symm hoperand)))
    exact congrArg (· + first.y.toUInt16) hfound
  case implied => rfl

/-- The bytes that pops find are the same. -/
theorem AgreeExcept.peek (count : Nat) (hpopped : address ∉ first.popCells count) (depth : Nat)
    (hpos : 0 < depth) (hdepth : depth ≤ count) :
    first.storage.peek (UInt8.ofNat depth) = second.storage.peek (UInt8.ofNat depth) := by
  have hread := hagree.read
  obtain ⟨memory, rfl⟩ := hagree.exists_memory
  refine hread _ fun haddress => hpopped ?_
  obtain ⟨above, rfl⟩ := Nat.exists_eq_succ_of_ne_zero (Nat.ne_of_gt hpos)
  refine List.mem_map.mpr ⟨above, List.mem_range.mpr hdepth, ?_⟩
  rw [stackAddress_eq_stackCell, ← haddress, UInt8.add_assoc, UInt8.add_comm 1, Nat.succ_eq_add_one,
    UInt8.ofNat_add]
  rfl

end Words

section Instructions

variable {mode : Mode} (hagree : first.AgreeExcept address second)

include hagree

theorem AgreeExcept.storage_addressed (operation : Addressed) (target : UInt16)
    (hoperand : operation.looksAtOperand = true → address ≠ target) :
    Storage.ChangeAlike address first.storage second.storage
      (operation.storageAfter target first) (operation.storageAfter target second) := by
  have hsame := hagree.storage.unchanged
  have hcell : operation.looksAtOperand = true →
      first.storage.cell target = second.storage.cell target :=
    fun hlooks => hagree.read target (hoperand hlooks).symm
  have hget := hagree.storage.get
  obtain ⟨memory, rfl⟩ := hagree.exists_memory
  cases operation with
  | load register =>
      simp only [Addressed.storageAfter, hcell rfl]
      exact hsame.set register _
  | store register =>
      simp only [Addressed.storageAfter, hget]
      exact hsame.store target _
  | logic operation =>
      cases operation <;> simp only [Addressed.storageAfter, hcell rfl] <;> exact hsame.set .a _
  | bitTest => exact hsame
  | add =>
      simp only [Addressed.storageAfter, hcell rfl]
      exact hsame.set .a _
  | subtract =>
      simp only [Addressed.storageAfter, hcell rfl]
      exact hsame.set .a _
  | shift operation =>
      simp only [Addressed.storageAfter, hcell rfl]
      exact hsame.store target _
  | increment =>
      simp only [Addressed.storageAfter, hcell rfl]
      exact hsame.store target _
  | decrement =>
      simp only [Addressed.storageAfter, hcell rfl]
      exact hsame.store target _
  | compare register => exact hsame

theorem AgreeExcept.storage_implied (operation : Implied)
    (hdata : address ∉ (Instruction.implied operation).dataCells mode first) :
    Storage.ChangeAlike address first.storage second.storage
      (operation.storageAfter first) (operation.storageAfter second) := by
  have hsame := hagree.storage.unchanged
  have hget := hagree.storage.get
  have hpeek := hagree.peek 1
  obtain ⟨memory, rfl⟩ := hagree.exists_memory
  cases operation with
  | transfer source target =>
      simp only [Implied.storageAfter, hget]
      exact hsame.set target _
  | shift operation => exact hsame.set .a _
  | increment register =>
      simp only [Implied.storageAfter, hget]
      exact hsame.set register _
  | decrement register =>
      simp only [Implied.storageAfter, hget]
      exact hsame.set register _
  | push => exact hsame.push _
  | pull =>
      have htop : first.storage.peek 1 = Storage.peek _ 1 :=
        hpeek hdata 1 Nat.one_pos (Nat.le_refl 1)
      simp only [Implied.storageAfter, htop]
      exact (hsame.drop 1).set .a _
  | pushStatus => exact hsame.push _
  | pullStatus => exact hsame.drop 1
  | setFlag flag => exact hsame
  | clearFlag flag => exact hsame
  | halt => exact hsame
  | idle => exact hsame

theorem AgreeExcept.storage_control (operation : Control) :
    Storage.ChangeAlike address first.storage second.storage
      (operation.storageAfter first) (operation.storageAfter second) := by
  have hsame := hagree.storage.unchanged
  obtain ⟨memory, rfl⟩ := hagree.exists_memory
  cases operation with
  | call => exact (hsame.push _).push _
  | returnFromCall => exact hsame.drop 2
  | returnFromInterrupt => exact hsame.drop 3
  | branch flag value => exact hsame
  | jump => exact hsame
  | jumpIndirect => exact hsame

theorem AgreeExcept.status_addressed (operation : Addressed) (target : UInt16)
    (hoperand : operation.looksAtOperand = true → address ≠ target) {next next' : Storage}
    (hnext : next.AgreeExcept address next') :
    operation.statusAfter target first next = operation.statusAfter target second next' := by
  have hcell : operation.looksAtOperand = true →
      first.storage.cell target = second.storage.cell target :=
    fun hlooks => hagree.read target (hoperand hlooks).symm
  have hwritten : operation.looksAtOperand = true → next.cell target = next'.cell target :=
    fun hlooks => hnext.cell target (hoperand hlooks).symm
  have hget := hagree.storage.get
  obtain ⟨memory, rfl⟩ := hagree.exists_memory
  cases operation with
  | load register => simp only [Addressed.statusAfter, hnext.get]
  | store register => rfl
  | logic operation => simp only [Addressed.statusAfter, hnext.a]
  | bitTest => simp only [Addressed.statusAfter, hcell rfl]
  | add =>
      simp only [Addressed.statusAfter, hcell rfl, hnext.a]
      rfl
  | subtract =>
      simp only [Addressed.statusAfter, hcell rfl, hnext.a]
      rfl
  | shift operation => simp only [Addressed.statusAfter, hcell rfl, hwritten rfl]
  | increment => simp only [Addressed.statusAfter, hwritten rfl]
  | decrement => simp only [Addressed.statusAfter, hwritten rfl]
  | compare register => simp only [Addressed.statusAfter, hcell rfl, hget]

theorem AgreeExcept.status_implied (operation : Implied)
    (hdata : address ∉ (Instruction.implied operation).dataCells mode first)
    {next next' : Storage} (hnext : next.AgreeExcept address next') :
    operation.statusAfter first next = operation.statusAfter second next' := by
  have hpeek := hagree.peek 1
  obtain ⟨memory, rfl⟩ := hagree.exists_memory
  cases operation with
  | transfer source target => cases target <;> simp only [Implied.statusAfter, hnext.get]
  | shift operation => simp only [Implied.statusAfter, hnext.a]
  | increment register => simp only [Implied.statusAfter, hnext.get]
  | decrement register => simp only [Implied.statusAfter, hnext.get]
  | pull => simp only [Implied.statusAfter, hnext.a]
  | pullStatus => exact congrArg Status.fromStack (hpeek hdata 1 Nat.one_pos (Nat.le_refl 1))
  | _ => rfl

theorem AgreeExcept.status_control (operation : Control)
    (hdata : address ∉ (Instruction.control operation).dataCells mode first) :
    operation.statusAfter first = operation.statusAfter second := by
  have hpeek := hagree.peek 3
  obtain ⟨memory, rfl⟩ := hagree.exists_memory
  cases operation with
  | returnFromInterrupt => exact congrArg Status.fromStack (hpeek hdata 1 Nat.one_pos (by decide))
  | _ => rfl

end Instructions

section Targets

variable (hagree : first.AgreeExcept address second)

include hagree

theorem AgreeExcept.branchTarget (hoperand : address ∉ Memory.range (first.pc + 1) 1) :
    first.branchTarget = second.branchTarget := by
  have hread := hagree.read (first.pc + 1)
  obtain ⟨memory, rfl⟩ := hagree.exists_memory
  simp only [Memory.range_succ, Memory.range_zero, List.mem_singleton] at hoperand
  exact congrArg (fun byte : UInt8 => UInt16.ofInt (first.pc.toNat + 2 + byte.toInt8.toInt))
    (hread (Ne.symm hoperand))

theorem AgreeExcept.operandWord (hoperand : address ∉ Memory.range (first.pc + 1) 2) :
    first.operandWord = second.operandWord := by
  have hword := hagree.readWord (first.pc + 1)
  obtain ⟨memory, rfl⟩ := hagree.exists_memory
  simp only [Memory.range_succ, Memory.range_zero, List.mem_cons, List.not_mem_nil, or_false,
    not_or] at hoperand
  exact hword hoperand.1 hoperand.2

theorem AgreeExcept.pointedTarget (hoperand : address ∉ Memory.range (first.pc + 1) 2)
    (hpointed : address ∉ first.targetCells) : first.pointedTarget = second.pointedTarget := by
  have hpointer := hagree.operandWord hoperand
  simp only [targetCells, List.mem_cons, List.not_mem_nil, or_false, not_or] at hpointed
  rw [hpointer] at hpointed
  have hlow := hagree.read _ (Ne.symm hpointed.1)
  have hhigh := hagree.read _ (Ne.symm hpointed.2)
  simp only [Cpu.pointedTarget, hpointer, hlow, hhigh]

/-- The pushes of a call put the same bytes into the same cells. -/
theorem AgreeExcept.callTarget (hoperand : address ∉ Memory.range (first.pc + 1) 2) :
    first.callTarget = second.callTarget := by
  have hpushed := ((hagree.storage.unchanged.push (highByte (first.pc + 2))).push
    (lowByte (first.pc + 2))).agree.cell
  obtain ⟨memory, rfl⟩ := hagree.exists_memory
  have hlast : first.pc + 1 + 1 = first.pc + 2 := fetched_pc_add_one first
  simp only [Memory.range_succ, Memory.range_zero, List.mem_cons, List.not_mem_nil, or_false,
    not_or, hlast] at hoperand
  exact congrArg₂ wordOf (hpushed _ (Ne.symm hoperand.1)) (hpushed _ (Ne.symm hoperand.2))

/-- Where a control transfer leads is told by its operand bytes and the cells it looks at
beside them. -/
theorem AgreeExcept.pcAfter {mode : Mode} (length : UInt8) (hcode : address ≠ first.pc)
    (hcontrol : ∀ operation, Control.ofCode? first.code = some operation →
      address ∉ Memory.range (first.pc + 1) (operation.length.toNat - 1) ∧
        address ∉ (Instruction.control operation).dataCells mode first) :
    first.pcAfter length = second.pcAfter length := by
  have hsame := hagree.read first.pc hcode.symm
  have hpc : second.pc = first.pc := (congrArg Registers.pc hagree.registers).symm
  have hstatus : second.status = first.status := (congrArg Registers.status hagree.registers).symm
  have hlanding : ∀ target, first.landing length target = second.landing length target := by
    intro target
    simp only [landing, hpc]
  rw [code] at hcontrol
  simp only [Cpu.pcAfter, hpc, hstatus, ← hsame]
  cases htransfer : Control.ofCode? (first.read first.pc) with
  | none => rfl
  | some operation =>
      obtain ⟨hoperand, hdata⟩ := hcontrol operation htransfer
      cases operation with
      | branch flag value => simp only [hagree.branchTarget hoperand, hlanding]
      | jump => simp only [hagree.operandWord hoperand, hlanding]
      | jumpIndirect => simp only [hagree.pointedTarget hoperand hdata, hlanding]
      | call => simp only [hagree.callTarget hoperand, hlanding]
      | returnFromCall =>
          have hlow := hagree.peek 2 hdata 1 (by decide) (by decide)
          have hhigh := hagree.peek 2 hdata 2 (by decide) (by decide)
          exact congrArg (· + 1) (congrArg₂ wordOf hlow hhigh)
      | returnFromInterrupt =>
          have hlow := hagree.peek 3 hdata 2 (by decide) (by decide)
          have hhigh := hagree.peek 3 hdata 3 (by decide) (by decide)
          exact congrArg₂ wordOf hlow hhigh

end Targets

section Steps

variable (hagree : first.AgreeExcept address second)

include hagree

/-- What an instruction on a cell looks at: its operand bytes, its pointer, and the cell
itself if its byte matters. -/
theorem AgreeExcept.of_addressed {operation : Addressed} {mode : Mode}
    (hoperand : address ∉ Memory.range (first.pc + 1) mode.operandCount)
    (hdata : address ∉ (Instruction.addressed operation).dataCells mode first) :
    first.effectiveAddress mode = second.effectiveAddress mode ∧
      (operation.looksAtOperand = true → address ≠ first.effectiveAddress mode) := by
  simp only [Instruction.dataCells, List.mem_append, not_or] at hdata
  refine ⟨hagree.effectiveAddress hoperand hdata.1, fun hlooks => ?_⟩
  simpa only [hlooks, if_true, List.mem_singleton] using hdata.2

variable {instruction : Instruction} {mode : Mode}
variable (hoperand : instruction.usesMode = true →
  address ∉ Memory.range (first.pc + 1) mode.operandCount)
variable (hdata : address ∉ instruction.dataCells mode first)

include hoperand hdata

theorem AgreeExcept.storageAfter :
    Storage.ChangeAlike address first.storage second.storage
      (instruction.storageAfter (first.effectiveAddress mode) first)
      (instruction.storageAfter (second.effectiveAddress mode) second) := by
  cases instruction with
  | addressed operation =>
      obtain ⟨haddress, hlooks⟩ := hagree.of_addressed (hoperand rfl) hdata
      rw [← haddress]
      exact hagree.storage_addressed operation _ hlooks
  | implied operation => exact hagree.storage_implied operation hdata
  | control operation => exact hagree.storage_control operation

theorem AgreeExcept.statusAfter {next next' : Storage} (hnext : next.AgreeExcept address next') :
    instruction.statusAfter (first.effectiveAddress mode) first next =
      instruction.statusAfter (second.effectiveAddress mode) second next' := by
  cases instruction with
  | addressed operation =>
      obtain ⟨haddress, hlooks⟩ := hagree.of_addressed (hoperand rfl) hdata
      rw [← haddress]
      exact hagree.status_addressed operation _ hlooks hnext
  | implied operation => exact hagree.status_implied operation hdata hnext
  | control operation => exact hagree.status_control operation hdata

end Steps

theorem AgreeExcept.of_storage (hstorage : first.storage.AgreeExcept address second.storage)
    (hpc : first.pc = second.pc) (hstatus : first.status = second.status)
    (hhalted : first.halted = second.halted) : first.AgreeExcept address second := by
  obtain ⟨ha, hx, hy, hs, hcell⟩ := hstorage
  refine ⟨?_, hhalted, hcell⟩
  simp only [Cpu.registers, Registers.mk.injEq]
  exact ⟨ha, hx, hy, hs, hpc, hstatus⟩

/-- The laws of a recognised opcode, put together. -/
theorem laws_of_decode {cpu : Cpu} {opcode : Opcode}
    (hfull : cpu.memory.size = Memory.addressCount)
    (hdecode : Opcode.decode cpu.code = some opcode) :
    cpu.step.1 = opcode.outcome ∧
      cpu.step.2.storage =
        opcode.instruction.storageAfter (cpu.effectiveAddress opcode.mode) cpu ∧
      cpu.step.2.status =
        opcode.instruction.statusAfter (cpu.effectiveAddress opcode.mode) cpu
          cpu.step.2.storage ∧
      cpu.step.2.pc = cpu.pcAfter opcode.length := by
  obtain ⟨hconsistent, -⟩ := Opcode.consistent_of_decode hdecode
  rw [step_of_decode hdecode, storage_advance, advance_status]
  exact ⟨rfl, storage_carryOut hfull hconsistent, status_carryOut hfull hconsistent,
    pc_advance_carryOut hfull hdecode⟩

/-- What stands outside the footprint of a step on a recognised opcode. -/
theorem not_mem_of_footprint {cpu : Cpu} {opcode : Opcode} (hunseen : address ∉ cpu.footprint)
    (hdecode : Opcode.decode cpu.code = some opcode) :
    (opcode.instruction.usesMode = true →
        address ∉ Memory.range (cpu.pc + 1) opcode.mode.operandCount) ∧
      address ∉ opcode.instruction.dataCells opcode.mode cpu ∧
      ∀ operation, Control.ofCode? cpu.code = some operation →
        address ∉ Memory.range (cpu.pc + 1) (operation.length.toNat - 1) ∧
          address ∉ (Instruction.control operation).dataCells opcode.mode cpu := by
  obtain ⟨hmem, hentry⟩ := Opcode.mem_table_of_decode hdecode
  have hconsistent := Opcode.consistent_of_mem_table hmem
  simp only [footprint, hdecode, List.mem_cons, List.mem_append, not_or] at hunseen
  obtain ⟨-, hoperand, hdata⟩ := hunseen
  refine ⟨fun huses => Opcode.operandCount_of_mem_table hmem huses ▸ hoperand, hdata, ?_⟩
  intro operation htransfer
  have hcontrol : opcode.instruction.control? = some operation := by
    rw [hconsistent.control?_eq, hentry, htransfer]
  rw [← hconsistent.length_of_control operation hcontrol,
    ← Instruction.eq_control_of_control? hcontrol]
  exact ⟨hoperand, hdata⟩

/-- Machines that differ in one cell take the same step when it is not looked at. -/
theorem AgreeExcept.step (hagree : first.AgreeExcept address second)
    (hfull : first.memory.size = Memory.addressCount)
    (hfull' : second.memory.size = Memory.addressCount) (hunseen : address ∉ first.footprint) :
    first.step.1 = second.step.1 ∧ first.step.2.AgreeExcept address second.step.2 ∧
      TreatAlike address first second first.step.2 second.step.2 := by
  have hopcode : address ≠ first.pc := List.ne_of_not_mem_cons hunseen
  have hpc : first.pc = second.pc := congrArg Registers.pc hagree.registers
  have hcode : first.code = second.code := by
    rw [code, code, ← hpc]
    exact hagree.read first.pc hopcode.symm
  cases hdecode : Opcode.decode first.code with
  | none =>
      rw [step_of_decode_eq_none hdecode, step_of_decode_eq_none (hcode ▸ hdecode), hcode, hpc]
      have hnext := hagree.storage.unchanged
      refine ⟨rfl, .of_storage hnext.agree rfl ?_ hagree.halted, hnext.cell⟩
      exact congrArg Registers.status hagree.registers
  | some opcode =>
      obtain ⟨hoperand, hdata, hcontrol⟩ := not_mem_of_footprint hunseen hdecode
      obtain ⟨houtcome, hstorage, hstatus, hcounter⟩ := laws_of_decode hfull hdecode
      obtain ⟨houtcome', hstorage', hstatus', hcounter'⟩ :=
        laws_of_decode hfull' (hcode ▸ hdecode)
      have hnext : Storage.ChangeAlike address first.storage second.storage
          first.step.2.storage second.step.2.storage := by
        rw [hstorage, hstorage']
        exact hagree.storageAfter hoperand hdata
      refine ⟨houtcome.trans houtcome'.symm, .of_storage hnext.agree ?_ ?_ ?_, hnext.cell⟩
      · rw [hcounter, hcounter']
        exact hagree.pcAfter opcode.length hopcode hcontrol
      · rw [hstatus, hstatus']
        exact hagree.statusAfter hoperand hdata hnext.agree
      · have hfound : Opcode.decode first.code ≠ none := by simp [hdecode]
        rw [halted_step_of_decode hfound, halted_step_of_decode (hcode ▸ hfound), hcode]

end Cpu

end Machine6502
