import Machine6502.Proofs.Loading
import Machine6502.Proofs.Locality
import Machine6502.Proofs.Stack

/-!
# Calls and returns

A call pushes the address of its last byte, and a return goes to the byte behind the address
that it pops.  A call reads its operand word only after the pushes, so code that runs inside
the stack page can lose its operand bytes to them, and the call then leads elsewhere.
-/

namespace Machine6502

theorem wordOf_inj {low high low' high' : UInt8} :
    wordOf low high = wordOf low' high' ↔ low = low' ∧ high = high' := by
  refine ⟨fun hwords => ?_, fun ⟨hlow, hhigh⟩ => congrArg₂ wordOf hlow hhigh⟩
  have hlow := congrArg lowByte hwords
  have hhigh := congrArg highByte hwords
  rw [lowByte_wordOf, lowByte_wordOf] at hlow
  rw [highByte_wordOf, highByte_wordOf] at hhigh
  exact ⟨hlow, hhigh⟩

namespace Storage

variable {storage : Storage} {first second : UInt8} {address : UInt16}

/-- Two pushes write two different cells. -/
theorem stackCell_sub_one_ne (pointer : UInt8) : stackCell (pointer - 1) ≠ stackCell pointer := by
  rw [ne_eq, stackCell_inj, UInt8.sub_eq_iff_eq_add]
  simp

theorem cell_push_push :
    ((storage.push first).push second).cell address =
      if address = stackCell (storage.s - 1) then second
      else if address = stackCell storage.s then first else storage.cell address := by
  rw [cell_push, cell_push, pointer_push, Function.update_apply, Function.update_apply]

/-- Two pushes leave a cell as it was unless they write another byte there. -/
theorem cell_push_push_eq_iff :
    ((storage.push first).push second).cell address = storage.cell address ↔
      (stackCell storage.s = address → storage.cell address = first) ∧
        (stackCell (storage.s - 1) = address → storage.cell address = second) := by
  have hcells := stackCell_sub_one_ne storage.s
  rw [cell_push_push]
  by_cases hlower : stackCell (storage.s - 1) = address
  · subst hlower
    simp only [hcells.symm, if_true, false_imp_iff, true_and, true_imp_iff, eq_comm]
  · by_cases hupper : stackCell storage.s = address
    · subst hupper
      simp only [hcells, hcells.symm, if_true, if_false, false_imp_iff, and_true, true_imp_iff,
        eq_comm]
    · simp only [hlower, hupper, Ne.symm hlower, Ne.symm hupper, if_false, false_imp_iff,
        and_self]

end Storage

namespace Cpu

variable {cpu : Cpu}

section Steps

variable (hfull : cpu.memory.size = Memory.addressCount)

include hfull

/-- The laws of a control transfer, put together. -/
theorem laws_of_control {operation : Control}
    (hcode : Control.ofCode? cpu.code = some operation) :
    cpu.step.1 = .continued ∧ cpu.step.2.storage = operation.storageAfter cpu ∧
      cpu.step.2.status = operation.statusAfter cpu ∧
      cpu.step.2.pc = cpu.pcAfter operation.length := by
  obtain ⟨opcode, hdecode⟩ := Opcode.exists_decode_of_ofCode? hcode
  obtain ⟨hconsistent, hentry⟩ := Opcode.consistent_of_decode hdecode
  have hcontrol : opcode.instruction.control? = some operation := by
    rw [hconsistent.control?_eq, hentry, hcode]
  have hinstruction := Instruction.eq_control_of_control? hcontrol
  obtain ⟨houtcome, hstorage, hstatus, hpc⟩ := laws_of_decode hfull hdecode
  rw [hconsistent.length_of_control operation hcontrol] at hpc
  rw [hinstruction] at hstorage hstatus
  refine ⟨?_, hstorage, hstatus, hpc⟩
  rw [houtcome, Opcode.outcome, hinstruction]
  rfl

theorem step_of_call (hcode : cpu.code = 0x20) :
    cpu.step? = some (.continued, cpu.step.2) ∧
      cpu.step.2.storage =
        (cpu.storage.push (highByte (cpu.pc + 2))).push (lowByte (cpu.pc + 2)) ∧
      cpu.step.2.status = cpu.status ∧ cpu.step.2.pc = cpu.landing 3 cpu.callTarget := by
  have hcall : Control.ofCode? (cpu.read cpu.pc) = some .call := by
    rw [← code, hcode]
    rfl
  obtain ⟨houtcome, hstorage, hstatus, hpc⟩ := laws_of_control hfull hcall
  rw [pcAfter, hcall] at hpc
  refine ⟨?_, hstorage, hstatus, hpc⟩
  rw [step?_of_full cpu (Nat.le_of_eq hfull.symm), ← houtcome]

theorem step_of_return (hcode : cpu.code = 0x60) :
    cpu.step? = some (.continued, cpu.step.2) ∧ cpu.step.2.storage = cpu.storage.drop 2 ∧
      cpu.step.2.status = cpu.status ∧ cpu.step.2.pc = cpu.storage.peekWord 1 + 1 := by
  have hreturn : Control.ofCode? (cpu.read cpu.pc) = some .returnFromCall := by
    rw [← code, hcode]
    rfl
  obtain ⟨houtcome, hstorage, hstatus, hpc⟩ := laws_of_control hfull hreturn
  rw [pcAfter, hreturn] at hpc
  refine ⟨?_, hstorage, hstatus, hpc⟩
  rw [step?_of_full cpu (Nat.le_of_eq hfull.symm), ← houtcome]

end Steps

/-- The pushes of a call at the program counter write nothing else over its operand bytes. -/
def KeepsOperand (cpu : Cpu) : Prop :=
  let last := cpu.pc + 2
  ∀ address ∈ [cpu.pc + 1, cpu.pc + 2],
    (Storage.stackCell cpu.s = address → cpu.read address = highByte last) ∧
      (Storage.stackCell (cpu.s - 1) = address → cpu.read address = lowByte last)

theorem keepsOperand_of_outside
    (houtside : ∀ address ∈ [cpu.pc + 1, cpu.pc + 2], address < 0x0100 ∨ 0x01FF < address) :
    cpu.KeepsOperand := by
  intro address haddress
  have hcells := Storage.ne_stackCell_of_outside (houtside address haddress)
  exact ⟨fun hcell => absurd hcell.symm (hcells _), fun hcell => absurd hcell.symm (hcells _)⟩

/-- A call leads to its operand word exactly when its pushes keep the operand bytes. -/
theorem callTarget_eq_operandWord_iff : cpu.callTarget = cpu.operandWord ↔ cpu.KeepsOperand := by
  have hsecond : cpu.pc + 1 + 1 = cpu.pc + 2 := by
    rw [UInt16.add_assoc]
    rfl
  simp only [callTarget, operandWord, Memory.readWord, hsecond, wordOf_inj, KeepsOperand,
    List.forall_mem_cons, List.not_mem_nil, false_imp_iff, implies_true, and_true]
  exact and_congr Storage.cell_push_push_eq_iff Storage.cell_push_push_eq_iff

theorem lowByte_add (word places : UInt16) :
    lowByte (word + places) = lowByte word + lowByte places :=
  UInt16.toUInt8_add word places

/-- When a call leads to its own operand bytes although its operand word points behind them,
the first of them was overwritten with the high byte of the pushed address. -/
theorem eq_stackCell_of_callTarget (htarget : cpu.callTarget = cpu.pc + 1)
    (hword : cpu.operandWord = cpu.pc + 3) :
    cpu.pc + 1 = Storage.stackCell cpu.s ∧ highByte (cpu.pc + 2) = lowByte (cpu.pc + 1) := by
  have hlow := congrArg lowByte htarget
  have hread := congrArg lowByte hword
  simp only [callTarget, lowByte_wordOf, Storage.cell_push_push, storage] at hlow
  rw [operandWord, Memory.readWord, lowByte_wordOf] at hread
  by_cases hlower : cpu.pc + 1 = Storage.stackCell (cpu.s - 1)
  · rw [if_pos hlower, lowByte_add, lowByte_add, UInt8.add_right_inj] at hlow
    exact absurd hlow (by decide)
  · rw [if_neg hlower] at hlow
    by_cases hupper : cpu.pc + 1 = Storage.stackCell cpu.s
    · rw [if_pos hupper] at hlow
      exact ⟨hupper, hlow⟩
    · rw [if_neg hupper, hread, lowByte_add, lowByte_add, UInt8.add_right_inj] at hlow
      exact absurd hlow (by decide)

/-- A call that leads to its own operand bytes runs on behind them.  That is where its operand
word points in one place only. -/
theorem callTarget_eq_skipped_iff :
    (cpu.callTarget = cpu.pc + 1 ∧ cpu.operandWord = cpu.pc + 3) ↔
      cpu.pc = 0x0100 ∧ cpu.s = 1 ∧ cpu.operandWord = 0x0103 := by
  constructor
  · rintro ⟨htarget, hword⟩
    obtain ⟨hcell, hbyte⟩ := eq_stackCell_of_callTarget htarget hword
    have hlast : cpu.pc + 2 = Storage.stackCell cpu.s + 1 := by
      rw [← hcell, UInt16.add_assoc]
      rfl
    have hpage : ∀ pointer : UInt8, highByte (Storage.stackCell pointer + 1) =
        lowByte (Storage.stackCell pointer) → pointer = 1 := forall_byte (by decide +kernel)
    rw [hlast, hcell] at hbyte
    have hs : cpu.s = 1 := hpage cpu.s hbyte
    have hpc : cpu.pc = 0x0100 := by
      rw [hs] at hcell
      exact (UInt16.add_left_inj 1).mp hcell
    exact ⟨hpc, hs, by rw [hword, hpc]; rfl⟩
  · rintro ⟨hpc, hs, hword⟩
    have hhigh := congrArg highByte hword
    rw [operandWord, Memory.readWord, highByte_wordOf, hpc] at hhigh
    refine ⟨?_, by rw [hword, hpc]; rfl⟩
    simp only [callTarget, Storage.cell_push_push, storage, hpc, hs]
    rw [if_neg (by decide), if_pos (by decide), if_neg (by decide), if_neg (by decide)]
    exact congrArg (wordOf 1) hhigh

/-- A call goes on.  If its operand word is not the byte behind its opcode, it gets there
exactly when its pushes keep its operand bytes.  One call at the bottom of the stack page
loses them and gets there all the same, because they are skipped. -/
theorem call_reaches_operand_iff (hfull : cpu.memory.size = Memory.addressCount)
    (hcode : cpu.code = 0x20) (hoperand : cpu.operandWord ≠ cpu.pc + 1) :
    ∃ next, cpu.step? = some (.continued, next) ∧
      (next.pc = cpu.operandWord ↔
        cpu.KeepsOperand ∨ (cpu.pc = 0x0100 ∧ cpu.s = 1 ∧ cpu.operandWord = 0x0103)) := by
  obtain ⟨hstep, -, -, hpc⟩ := step_of_call hfull hcode
  refine ⟨cpu.step.2, hstep, ?_⟩
  rw [hpc, landing, ← callTarget_eq_operandWord_iff, ← callTarget_eq_skipped_iff]
  by_cases hskipped : cpu.callTarget = cpu.pc + 1
  · simp only [hskipped, if_true, hoperand.symm, false_or, true_and]
    exact eq_comm
  · simp only [hskipped, if_false, false_and, or_false]

/-- A call at the first address, far from the stack. -/
theorem call_reaches_operand_of_outside :
    (holding [0x20, 0x34, 0x12]).memory.size = Memory.addressCount ∧
      (holding [0x20, 0x34, 0x12]).code = 0x20 ∧
      (holding [0x20, 0x34, 0x12]).operandWord ≠ (holding [0x20, 0x34, 0x12]).pc + 1 ∧
      ∃ next, (holding [0x20, 0x34, 0x12]).step? = some (.continued, next) ∧
        next.pc = 0x1234 := by
  have hfull := size_holding [0x20, 0x34, 0x12] (by decide)
  have hread := read_holding [0x20, 0x34, 0x12] (by decide)
  have hcode : (holding [0x20, 0x34, 0x12]).code = 0x20 := by
    rw [code, read, hread, pc_holding]
    rfl
  have hword : (holding [0x20, 0x34, 0x12]).operandWord = 0x1234 := by
    rw [operandWord, Memory.readWord, hread, pc_holding]
    rfl
  have hoperand : (holding [0x20, 0x34, 0x12]).operandWord ≠
      (holding [0x20, 0x34, 0x12]).pc + 1 := by
    rw [hword, pc_holding]
    decide
  have hkeeps : (holding [0x20, 0x34, 0x12]).KeepsOperand :=
    keepsOperand_of_outside (by simp [pc_holding])
  obtain ⟨next, hstep, hreaches⟩ := call_reaches_operand_iff hfull hcode hoperand
  exact ⟨hfull, hcode, hoperand, next, hstep, (hreaches.mpr (.inl hkeeps)).trans hword⟩

/-- A call whose three bytes end at the top of an empty stack pushes over its operand bytes and
leads to the last of them, whatever they were. -/
theorem callTarget_at_top (hpc : cpu.pc = 0x01FB) (hs : cpu.s = 0xFD) :
    cpu.callTarget = 0x01FD := by
  simp only [callTarget, Storage.cell_push_push, storage, hpc, hs]
  rw [if_pos (by decide), if_neg (by decide), if_pos (by decide)]
  rfl

/-- A call to the address 1234 that does not get there. -/
theorem call_at_top_missed :
    (initial.loadAt [0x20, 0x34, 0x12] 0x01FB).reset.memory.size = Memory.addressCount ∧
      (initial.loadAt [0x20, 0x34, 0x12] 0x01FB).reset.code = 0x20 ∧
      (initial.loadAt [0x20, 0x34, 0x12] 0x01FB).reset.operandWord = 0x1234 ∧
      (initial.loadAt [0x20, 0x34, 0x12] 0x01FB).reset.pc = 0x01FB ∧
      ∃ next, (initial.loadAt [0x20, 0x34, 0x12] 0x01FB).reset.step? =
          some (.continued, next) ∧ next.pc = 0x01FD := by
  have hblank : initial.memory.size = Memory.addressCount := Memory.size_blank
  have hholds := holdsAt_loadAt hblank
    (show (0x01FB : UInt16).toNat + [0x20, 0x34, 0x12].length ≤ resetVector.toNat by decide)
  have hfull := (size_loadAt (Nat.le_of_eq hblank.symm) [0x20, 0x34, 0x12] 0x01FB).trans hblank
  have hpc : (initial.loadAt [0x20, 0x34, 0x12] 0x01FB).reset.pc = 0x01FB :=
    pc_reset_loadAt hblank
  have hs : (initial.loadAt [0x20, 0x34, 0x12] 0x01FB).reset.s = 0xFD := rfl
  have hmemory : (initial.loadAt [0x20, 0x34, 0x12] 0x01FB).reset.memory =
    (initial.loadAt [0x20, 0x34, 0x12] 0x01FB).memory := rfl
  rw [← hmemory] at hholds hfull
  generalize (initial.loadAt [0x20, 0x34, 0x12] 0x01FB).reset = cpu at *
  have hcode : cpu.code = 0x20 := by
    rw [code, hpc]
    exact hholds.head
  have hword : cpu.operandWord = 0x1234 := by
    have hlow : cpu.memory.read (0x01FB + 1) = 0x34 := hholds 1 (by decide)
    have hhigh : cpu.memory.read (0x01FB + 1 + 1) = 0x12 := hholds 2 (by decide)
    rw [operandWord, hpc, Memory.readWord, hlow, hhigh]
    rfl
  obtain ⟨hstep, -, -, hafter⟩ := step_of_call hfull hcode
  refine ⟨hfull, hcode, hword, hpc, _, hstep, ?_⟩
  rw [hafter, callTarget_at_top hpc hs, landing, hpc]
  rfl

end Cpu

end Machine6502
