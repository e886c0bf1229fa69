import Machine6502.Proofs.Calls
import Machine6502.Proofs.CheckedArithmetic
import Machine6502.Proofs.EffectiveAddress
import Machine6502.Proofs.ViewSteps

/-!
# Comparisons and the branches behind them

A comparison of a register with an operand says in the flags how the two bytes are ordered,
and changes nothing else.  The branch behind it is taken when they stand in the relation that
the branch asks for.  The carry tells the unsigned order, the sign only that of the wrapped
difference, and the overflow is left over from before.
-/

namespace Machine6502

/-- The encodings of a comparison, with the register and the mode that names the operand. -/
def comparisonCodes : List (UInt8 × Register × Mode) := [
  (0xC9, .a, .immediate),
  (0xC5, .a, .zeroPage),
  (0xD5, .a, .zeroPageX),
  (0xCD, .a, .absolute),
  (0xDD, .a, .absoluteX),
  (0xD9, .a, .absoluteY),
  (0xC1, .a, .indirectX),
  (0xD1, .a, .indirectY),
  (0xE0, .x, .immediate),
  (0xE4, .x, .zeroPage),
  (0xEC, .x, .absolute),
  (0xC0, .y, .immediate),
  (0xC4, .y, .zeroPage),
  (0xCC, .y, .absolute)]

/-- The comparisons of the opcode table are these and no others. -/
theorem mem_comparisonCodes_iff {code : UInt8} {register : Register} {mode : Mode} :
    (code, register, mode) ∈ comparisonCodes ↔
      ∃ opcode, Opcode.decode code = some opcode ∧
        opcode.instruction = .addressed (.compare register) ∧ opcode.mode = mode := by
  have hcodes : ∀ entry ∈ comparisonCodes, ∃ opcode ∈ Opcode.table, opcode.code = entry.1 ∧
      opcode.instruction = .addressed (.compare entry.2.1) ∧ opcode.mode = entry.2.2 := by
    decide +kernel
  have htable : ∀ opcode ∈ Opcode.table, ∀ register ∈ [Register.a, .x, .y, .s],
      opcode.instruction = .addressed (.compare register) →
        (opcode.code, register, opcode.mode) ∈ comparisonCodes := by
    decide +kernel
  constructor
  · intro hmem
    obtain ⟨opcode, hopcode, rfl, hinstruction, hmode⟩ := hcodes _ hmem
    exact ⟨opcode, Opcode.decode_code hopcode, hinstruction, hmode⟩
  · rintro ⟨opcode, hdecode, hinstruction, rfl⟩
    obtain ⟨hopcode, rfl⟩ := Opcode.mem_table_of_decode hdecode
    exact htable opcode hopcode register (by cases register <;> simp) hinstruction

/-- The conditional branches, by what they look for. -/
inductive Branch where
  | carrySet
  | carryClear
  | equal
  | different
  | minus
  | plus
  | overflowSet
  | overflowClear
deriving DecidableEq, Repr

namespace Branch

def code : Branch → UInt8
  | .carrySet => 0xB0 -- BCS
  | .carryClear => 0x90 -- BCC
  | .equal => 0xF0 -- BEQ
  | .different => 0xD0 -- BNE
  | .minus => 0x30 -- BMI
  | .plus => 0x10 -- BPL
  | .overflowSet => 0x70 -- BVS
  | .overflowClear => 0x50 -- BVC

def flag : Branch → Flag
  | .carrySet => .carry
  | .carryClear => .carry
  | .equal => .zero
  | .different => .zero
  | .minus => .negative
  | .plus => .negative
  | .overflowSet => .overflow
  | .overflowClear => .overflow

/-- What the flag is when the branch is taken. -/
def value : Branch → Bool
  | .carrySet => true
  | .carryClear => false
  | .equal => true
  | .different => false
  | .minus => true
  | .plus => false
  | .overflowSet => true
  | .overflowClear => false

/-- The relation of a byte to the operand it was compared with in which the branch is taken,
when the overflow was so before. -/
def Holds (branch : Branch) (byte operand : UInt8) (overflow : Bool) : Prop :=
  match branch with
  | .carrySet => operand.toNat ≤ byte.toNat
  | .carryClear => byte.toNat < operand.toNat
  | .equal => byte = operand
  | .different => byte ≠ operand
  | .minus => (byte - operand).toNat.testBit 7 = true
  | .plus => (byte - operand).toNat.testBit 7 = false
  | .overflowSet => overflow = true
  | .overflowClear => overflow = false

theorem ofCode?_code (branch : Branch) :
    Control.ofCode? branch.code = some (.branch branch.flag branch.value) := by
  cases branch <;> rfl

/-- Behind a comparison the flag that a branch looks at tells the relation of the bytes. -/
theorem get_compared_iff (branch : Branch) (status : Status) (byte operand : UInt8) :
    (View.compared status byte operand).get branch.flag = branch.value ↔
      branch.Holds byte operand status.overflow := by
  have hcarry : (View.compared status byte operand).get .carry = decide (operand ≤ byte) := rfl
  have hnegative : (View.compared status byte operand).get .negative =
      (byte - operand).toNat.testBit 7 := rfl
  have hoverflow : (View.compared status byte operand).get .overflow = status.overflow := rfl
  cases branch with
  | carrySet =>
      rw [flag, value, hcarry, decide_eq_true_eq]
      exact UInt8.le_iff_toNat_le
  | carryClear =>
      rw [flag, value, hcarry, decide_eq_false_iff_not, UInt8.not_le]
      exact UInt8.lt_iff_toNat_lt
  | equal =>
      rw [flag, value, View.zero_compared, decide_eq_true_eq]
      rfl
  | different =>
      rw [flag, value, View.zero_compared, decide_eq_false_iff_not]
      rfl
  | minus | plus =>
      rw [flag, value, hnegative]
      rfl
  | overflowSet | overflowClear =>
      rw [flag, value, hoverflow]
      rfl

end Branch

/-- An opcode that works on a cell is as long as its opcode byte and the operand bytes of its
mode. -/
theorem Opcode.toUInt16_length_of_mem_table {opcode : Opcode} (hmem : opcode ∈ table)
    (huses : opcode.instruction.usesMode = true) :
    opcode.length.toUInt16 = 1 + UInt16.ofNat opcode.mode.operandCount := by
  have hcount := operandCount_of_mem_table hmem huses
  have hpos := length_pos_of_mem_table hmem
  calc
    opcode.length.toUInt16 = UInt16.ofNat opcode.length.toNat := (UInt16.ofNat_uInt8ToNat _).symm
    _ = UInt16.ofNat (1 + opcode.mode.operandCount) := by
          rw [← hcount, Nat.add_sub_cancel' hpos]
    _ = 1 + UInt16.ofNat opcode.mode.operandCount := UInt16.ofNat_add 1 _

theorem displacement_eq_zero_iff (byte : UInt8) : displacement byte = 0 ↔ byte = 0x00 := by
  revert byte
  exact forall_byte (by decide +kernel)

namespace Cpu

/-- The machine with the counter behind an instruction with the operand bytes of a mode. -/
def behind (cpu : Cpu) (mode : Mode) : Cpu :=
  { cpu with pc := cpu.pc + 1 + UInt16.ofNat mode.operandCount }

variable {cpu next : Cpu} {register : Register} {mode : Mode} {branch : Branch}

/-- Storages tell memories apart when there is a cell for every address. -/
theorem memory_eq_of_storage (hfull : cpu.memory.size = Memory.addressCount)
    (hsize : next.memory.size = cpu.memory.size) (hstorage : next.storage = cpu.storage) :
    next.memory = cpu.memory :=
  Memory.ext_read hsize (Nat.le_of_eq (hsize.trans hfull)) fun address =>
    congrFun (congrArg Storage.cell hstorage) address

/-- A comparison says in the flags how two bytes are ordered, and goes on behind its operand. -/
theorem step_of_comparison (hfull : cpu.memory.size = Memory.addressCount)
    (hcode : (cpu.code, register, mode) ∈ comparisonCodes) :
    cpu.step.1 = .continued ∧ cpu.step.2.storage = cpu.storage ∧
      cpu.step.2.status =
        View.compared cpu.status (cpu.get register) (cpu.read (cpu.effectiveAddress mode)) ∧
      cpu.step.2.pc = (cpu.behind mode).pc := by
  obtain ⟨opcode, hdecode, hinstruction, rfl⟩ := mem_comparisonCodes_iff.mp hcode
  obtain ⟨hmem, hentry⟩ := Opcode.mem_table_of_decode hdecode
  obtain ⟨hconsistent, -⟩ := Opcode.consistent_of_decode hdecode
  obtain ⟨houtcome, hstorage, hstatus, hpc⟩ := laws_of_decode hfull hdecode
  have huses : opcode.instruction.usesMode = true := by
    rw [hinstruction]
    rfl
  have htransfer : Control.ofCode? (cpu.read cpu.pc) = none := by
    rw [← code, ← hentry, ← hconsistent.control?_eq, hinstruction]
    rfl
  have hbreak : cpu.read cpu.pc ≠ 0x00 := by
    rw [← code, ← hentry, ne_eq, ← hconsistent.halts_iff_code, hinstruction]
    simp
  have hlength := Opcode.toUInt16_length_of_mem_table hmem huses
  rw [hinstruction] at hstorage hstatus
  refine ⟨?_, hstorage, ?_, ?_⟩
  · rw [houtcome, Opcode.outcome, hinstruction]
    rfl
  · rw [hstatus, ← storage_get]
    rfl
  · rw [hpc, pcAfter, htransfer, behind]
    simp only [if_neg hbreak, hlength, UInt16.add_assoc]

/-- A branch goes on at its target or behind its displacement, and changes nothing else. -/
theorem step_of_branch (hfull : cpu.memory.size = Memory.addressCount)
    (hcode : cpu.code = branch.code) (hdisplacement : cpu.read (cpu.pc + 1) ≠ 0xFF) :
    cpu.step.1 = .continued ∧ cpu.step.2.storage = cpu.storage ∧
      cpu.step.2.pc =
        if cpu.status.get branch.flag = branch.value then cpu.branchTarget else cpu.pc + 2 := by
  have htransfer : Control.ofCode? cpu.code = some (.branch branch.flag branch.value) := by
    rw [hcode, branch.ofCode?_code]
  have hlands : cpu.landing 2 cpu.branchTarget = cpu.branchTarget :=
    if_neg (mt (branchTarget_eq_iff cpu).mp hdisplacement)
  obtain ⟨houtcome, hstorage, -, hpc⟩ := laws_of_control hfull htransfer
  rw [pcAfter, ← code, htransfer] at hpc
  refine ⟨houtcome, hstorage, hpc.trans ?_⟩
  rw [Control.length, hlands]

/-- A branch without a displacement leads behind itself, and no other branch does. -/
theorem branchTarget_eq_next_iff (cpu : Cpu) :
    cpu.branchTarget = cpu.pc + 2 ↔ cpu.read (cpu.pc + 1) = 0x00 := by
  have hnext : cpu.pc + 2 = cpu.pc + 1 + 1 := (UInt16.add_assoc cpu.pc 1 1).symm
  rw [branchTarget, ← add_displacement, hnext, UInt16.add_eq_left, displacement_eq_zero_iff]

/-- At a branch, a machine has gone on by whether a relation holds: to the target, or behind the
branch. -/
structure BranchesBy (branching : Cpu) (relation : Prop) (last : Cpu) : Prop where
  taken : relation → last.pc = branching.branchTarget
  passed : ¬relation → last.pc = branching.pc + 2
  /-- Without a displacement the two places are one. -/
  target_iff : branching.read (branching.pc + 1) ≠ 0x00 →
    (last.pc = branching.branchTarget ↔ relation)
  storage : last.storage = branching.storage
  memory : last.memory = branching.memory

theorem branchesBy_of_pc {branching last : Cpu} {relation : Prop} [Decidable relation]
    (hfull : branching.memory.size = Memory.addressCount)
    (hsize : last.memory.size = branching.memory.size)
    (hstorage : last.storage = branching.storage)
    (hpc : last.pc = if relation then branching.branchTarget else branching.pc + 2) :
    BranchesBy branching relation last where
  taken hrelation := by rw [hpc, if_pos hrelation]
  passed hrelation := by rw [hpc, if_neg hrelation]
  target_iff hdisplacement := by
    have hnext : branching.pc + 2 ≠ branching.branchTarget :=
      Ne.symm (mt (branchTarget_eq_next_iff branching).mp hdisplacement)
    rw [hpc, ite_eq_left_iff, not_imp_comm]
    exact forall_prop_of_true hnext
  storage := hstorage
  memory := memory_eq_of_storage hfull hsize hstorage

/-- Two steps on a comparison and the branch behind it, which does not lead to its own
displacement byte, lead to the target of the branch when the bytes stand in its relation and
behind the branch when they do not.  All registers and cells are as before. -/
theorem branch_decides_order (hfull : cpu.memory.size = Memory.addressCount)
    (hcode : (cpu.code, register, mode) ∈ comparisonCodes)
    (hbranch : (cpu.behind mode).code = branch.code)
    (hdisplacement : cpu.read ((cpu.behind mode).pc + 1) ≠ 0xFF) :
    ∃ address first last, cpu.fetched.operandAddress mode = .ok address ∧
      cpu.step? = some (.continued, first) ∧ first.step? = some (.continued, last) ∧
      BranchesBy (cpu.behind mode)
        (branch.Holds (cpu.get register) (cpu.read address) cpu.status.overflow) last := by
  obtain ⟨houtcome, hstorage, hstatus, hpc⟩ := step_of_comparison hfull hcode
  have hfirst : cpu.step.2.memory.size = Memory.addressCount := (size_step cpu).trans hfull
  have hread : cpu.step.2.read = cpu.read := congrArg Storage.cell hstorage
  have hbranch' : cpu.step.2.code = branch.code := by
    rw [code, hread, hpc]
    exact hbranch
  have hdisplacement' : cpu.step.2.read (cpu.step.2.pc + 1) ≠ 0xFF := by
    rw [hread, hpc]
    exact hdisplacement
  obtain ⟨houtcome', hstorage', hpc'⟩ := step_of_branch hfirst hbranch' hdisplacement'
  have htarget : cpu.step.2.branchTarget = (cpu.behind mode).branchTarget := by
    rw [branchTarget, hread, hpc]
    rfl
  obtain ⟨opcode, hdecode, hinstruction, rfl⟩ := mem_comparisonCodes_iff.mp hcode
  obtain ⟨hconsistent, -⟩ := Opcode.consistent_of_decode hdecode
  refine ⟨_, cpu.step.2, cpu.step.2.step.2,
    operandAddress_of_addressed hconsistent hinstruction cpu, ?_, ?_, ?_⟩
  · rw [step?_of_full cpu (Nat.le_of_eq hfull.symm), ← houtcome]
  · rw [step?_of_full _ (Nat.le_of_eq hfirst.symm), ← houtcome']
  · classical
    refine branchesBy_of_pc hfull ((size_step _).trans (size_step cpu))
      (hstorage'.trans hstorage) ?_
    rw [hpc', hstatus, htarget, hpc]
    exact if_congr (branch.get_compared_iff _ _ _) rfl rfl

/-- Zero compared with one: the branch on a clear carry is taken, over sixteen bytes. -/
theorem branch_decides_order_of_lower :
    (holding [0xC9, 0x01, 0x90, 0x10]).memory.size = Memory.addressCount ∧
      ((holding [0xC9, 0x01, 0x90, 0x10]).code, Register.a, Mode.immediate) ∈ comparisonCodes ∧
      ((holding [0xC9, 0x01, 0x90, 0x10]).behind .immediate).code = Branch.carryClear.code ∧
      (holding [0xC9, 0x01, 0x90, 0x10]).read
        (((holding [0xC9, 0x01, 0x90, 0x10]).behind .immediate).pc + 1) ≠ 0xFF ∧
      ∃ first last, (holding [0xC9, 0x01, 0x90, 0x10]).step? = some (.continued, first) ∧
        first.step? = some (.continued, last) ∧ last.pc = 0x0014 := by
  have hfull := size_holding [0xC9, 0x01, 0x90, 0x10] (by decide)
  have hread := read_holding [0xC9, 0x01, 0x90, 0x10] (by decide)
  have hpc := pc_holding [0xC9, 0x01, 0x90, 0x10]
  have ha : (holding [0xC9, 0x01, 0x90, 0x10]).a = 0 := by
    rw [holding]
    rfl
  have hcode : ((holding [0xC9, 0x01, 0x90, 0x10]).code, Register.a, Mode.immediate) ∈
      comparisonCodes := by
    rw [code, read, hread, hpc]
    decide
  have hbranch : ((holding [0xC9, 0x01, 0x90, 0x10]).behind .immediate).code =
      Branch.carryClear.code := by
    simp only [code, read, behind, hread, hpc]
    rfl
  have hdisplacement : (holding [0xC9, 0x01, 0x90, 0x10]).read
      (((holding [0xC9, 0x01, 0x90, 0x10]).behind .immediate).pc + 1) ≠ 0xFF := by
    simp only [read, behind, hread, hpc]
    decide
  obtain ⟨address, first, last, haddress, hfirst, hlast, hbranches⟩ :=
    branch_decides_order hfull hcode hbranch hdisplacement
  refine ⟨hfull, hcode, hbranch, hdisplacement, first, last, hfirst, hlast,
    (hbranches.taken ?_).trans ?_⟩
  · obtain rfl : (holding [0xC9, 0x01, 0x90, 0x10]).pc + 1 = address := Except.ok.inj haddress
    simp only [Branch.Holds, get, read, hread, hpc, ha]
    decide
  · simp only [branchTarget, read, behind, hread, hpc]
    rfl

end Cpu

end Machine6502
