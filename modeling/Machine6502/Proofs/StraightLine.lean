import Mathlib.Data.List.Infix
import Machine6502.Monitor
import Machine6502.Proofs.DataPath
import Machine6502.Proofs.Loading
import Machine6502.Proofs.ProgramCounter

/-!
# Straight-line programs

A straight program has no control transfers and writes no cell outside the stack.  Loaded
and run, it goes through its lines one by one, a step for each, and stops at the break
behind the last one.
-/

namespace Machine6502

/-- An instruction that does not move the program counter, does not stop the machine, and
writes to the stack if anywhere. -/
def Instruction.straight : Instruction → Bool
  | .addressed (.store _) => false
  | .addressed (.shift _) => false
  | .addressed .increment => false
  | .addressed .decrement => false
  | .addressed _ => true
  | .implied .halt => false
  | .implied _ => true
  | .control _ => false

/-- The opcodes of the table that are not straight, by name: the break, the branches, jumps,
calls and returns, the stores, and whatever else writes the cell that its mode names. -/
theorem Opcode.straight_eq_false_iff {opcode : Opcode} (hmem : opcode ∈ table) :
    opcode.instruction.straight = false ↔
      opcode.mnemonic ∈ ["BRK", "BCC", "BCS", "BEQ", "BMI", "BNE", "BPL", "BVC", "BVS", "JMP",
        "JSR", "RTS", "RTI", "STA", "STX", "STY", "INC", "DEC"] ∨
      opcode.mnemonic ∈ ["ASL", "LSR", "ROL", "ROR"] ∧ opcode.mode ≠ .implied := by
  revert opcode
  decide +kernel

/-- A line of a straight program: an opcode and its operand bytes. -/
structure Line where
  opcode : Opcode
  operands : List UInt8
  mem_table : opcode ∈ Opcode.table
  straight : opcode.instruction.straight = true
  length_eq : operands.length + 1 = opcode.length.toNat

namespace Line

def bytes (line : Line) : List UInt8 :=
  line.opcode.code :: line.operands

/-- The bytes of the lines, one line behind the other. -/
def code (lines : List Line) : List UInt8 :=
  lines.flatMap bytes

theorem length_bytes (line : Line) : line.bytes.length = line.opcode.length.toNat :=
  line.length_eq

theorem code_cons (line : Line) (lines : List Line) :
    code (line :: lines) = line.bytes ++ code lines :=
  List.flatMap_cons

/-- Every line has a byte at least. -/
theorem length_le_length_code (lines : List Line) : lines.length ≤ (code lines).length := by
  induction lines with
  | nil => exact Nat.le_refl 0
  | cons line lines ih =>
      rw [code_cons, List.length_append, List.length_cons, bytes, List.length_cons]
      omega

end Line

/-- The addresses 0100 to 01FF. -/
def OnStackPage (address : UInt16) : Prop :=
  0x0100 ≤ address ∧ address ≤ 0x01FF

theorem Storage.onStackPage_stackCell (pointer : UInt8) : OnStackPage (stackCell pointer) := by
  have hpointer := pointer.toNat_lt
  have hbase : (0x0100 : UInt16).toNat = 256 := rfl
  have hlast : (0x01FF : UInt16).toNat = 511 := rfl
  have hcell : (stackCell pointer).toNat = 256 + pointer.toNat := by
    rw [stackCell, UInt16.toNat_add, UInt8.toNat_toUInt16, hbase]
    omega
  rw [OnStackPage, UInt16.le_iff_toNat_le, UInt16.le_iff_toNat_le, hcell, hbase, hlast]
  omega

theorem Storage.cell_set (storage : Storage) (register : Register) (value : UInt8) :
    (storage.set register value).cell = storage.cell := by
  cases register <;> rfl

theorem Storage.cell_push_of_not_onStackPage (storage : Storage) (value : UInt8)
    {address : UInt16} (houtside : ¬OnStackPage address) :
    (storage.push value).cell address = storage.cell address := by
  refine Function.update_of_ne (fun haddress => houtside ?_) _ _
  rw [haddress]
  exact onStackPage_stackCell storage.s

section Cells

variable {address : UInt16} (houtside : ¬OnStackPage address) (cpu : Cpu)

theorem Addressed.cell_storageAfter {operation : Addressed} (target : UInt16)
    (hstraight : (Instruction.addressed operation).straight = true) :
    (operation.storageAfter target cpu).cell = cpu.storage.cell := by
  cases operation with
  | store register => exact nomatch hstraight
  | shift operation => exact nomatch hstraight
  | increment => exact nomatch hstraight
  | decrement => exact nomatch hstraight
  | load register => exact Storage.cell_set _ register _
  | logic operation => cases operation <;> rfl
  | _ => rfl

include houtside

theorem Implied.cell_storageAfter (operation : Implied) :
    (operation.storageAfter cpu).cell address = cpu.storage.cell address := by
  cases operation with
  | transfer source target => exact congrFun (Storage.cell_set _ target _) address
  | increment register => exact congrFun (Storage.cell_set _ register _) address
  | decrement register => exact congrFun (Storage.cell_set _ register _) address
  | push => exact Storage.cell_push_of_not_onStackPage _ _ houtside
  | pushStatus => exact Storage.cell_push_of_not_onStackPage _ _ houtside
  | _ => rfl

/-- A straight instruction changes no cell outside the stack page. -/
theorem Instruction.cell_storageAfter {instruction : Instruction} (target : UInt16)
    (hstraight : instruction.straight = true) :
    (instruction.storageAfter target cpu).cell address = cpu.storage.cell address := by
  cases instruction with
  | addressed operation =>
      exact congrFun (Addressed.cell_storageAfter cpu target hstraight) address
  | implied operation => exact Implied.cell_storageAfter houtside cpu operation
  | control operation => exact nomatch hstraight

end Cells

/-- The host that looks at the machine before every step and leaves it alone. -/
def Host.watching {σ : Type} (note : σ → Cpu → σ) : Host σ :=
  ofCallback fun state cpu => (note state cpu, cpu)

namespace Cpu

variable {cpu : Cpu}

/-- A step on a straight instruction goes on behind its operand bytes. -/
theorem step_of_straight {opcode : Opcode} (hfull : cpu.memory.size = Memory.addressCount)
    (hdecode : Opcode.decode cpu.code = some opcode)
    (hstraight : opcode.instruction.straight = true) :
    cpu.step.1 = .continued ∧ cpu.step.2.pc = cpu.pc + opcode.length.toUInt16 ∧
      ∀ address, ¬OnStackPage address → cpu.step.2.read address = cpu.read address := by
  obtain ⟨hconsistent, -⟩ := Opcode.consistent_of_decode hdecode
  have hcontrol : opcode.instruction.control? = none := by
    cases hinstruction : opcode.instruction with
    | control operation => simp [hinstruction, Instruction.straight] at hstraight
    | _ => rfl
  have hgoes : opcode.instruction ≠ .implied .halt := by
    intro hhalt
    simp [hhalt, Instruction.straight] at hstraight
  rw [step_of_decode hdecode, Opcode.outcome, if_neg hgoes]
  refine ⟨rfl, ?_, fun address houtside => ?_⟩
  · rw [advance_pc, pc_carryOut hconsistent hcontrol, if_pos rfl, add_operandLength]
  · have hstorage : ((opcode.carryOut cpu.fetched).advance (cpu.pc + 1) opcode.length).storage =
        opcode.instruction.storageAfter (cpu.effectiveAddress opcode.mode) cpu := by
      rw [storage_advance, storage_carryOut hfull hconsistent]
    exact (congrArg (·.cell address) hstorage).trans
      (Instruction.cell_storageAfter houtside cpu _ hstraight)

end Cpu

/-- How a straight program runs on a machine at its first line, with the machines before
each step and the one that is left. -/
structure Line.RunThrough (lines : List Line) (memory : Memory) (cpu : Cpu)
    (visited : List Cpu) (final : Cpu) : Prop where
  codes : visited.map Cpu.code = lines.map (·.opcode.code) ++ [0x00]
  addresses : visited.map Cpu.pc =
    lines.inits.map fun before => cpu.pc + UInt16.ofNat (Line.code before).length
  run : ∀ (σ : Type) (note : σ → Cpu → σ) (state : σ) (fuel : Nat), lines.length < fuel →
    Cpu.runFor (Host.watching note) fuel state cpu = ⟨.halted, visited.foldl note state, final⟩
  pc : final.pc = cpu.pc + UInt16.ofNat (Line.code lines).length + 1
  cells : ∀ address, ¬OnStackPage address → final.read address = memory.read address
  full : final.memory.size = Memory.addressCount

namespace Line

variable {lines : List Line} {memory : Memory} {cpu final : Cpu} {visited : List Cpu}

theorem addresses_cons (line : Line) (lines : List Line) (start : UInt16) :
    ((line :: lines).inits.map fun before => start + UInt16.ofNat (code before).length) =
      start :: lines.inits.map fun before =>
        start + UInt16.ofNat line.bytes.length + UInt16.ofNat (code before).length := by
  rw [List.inits_cons, List.map_cons, List.map_map]
  refine congrArg₂ List.cons (UInt16.add_zero start) (List.map_congr_left fun before _ => ?_)
  rw [Function.comp_apply, code_cons, List.length_append, UInt16.ofNat_add, UInt16.add_assoc]

/-- Without any line the machine is at the break. -/
theorem runThrough_nil (hfull : cpu.memory.size = Memory.addressCount) (hcode : cpu.code = 0x00)
    (hcells : ∀ address, ¬OnStackPage address → cpu.read address = memory.read address) :
    RunThrough [] memory cpu [cpu] cpu.step.2 := by
  have hstep := Cpu.step_of_break hcode
  refine ⟨congrArg (fun code => [code]) hcode, ?_, ?_, ?_, ?_, (Cpu.size_step cpu).trans hfull⟩
  · exact congrArg (fun pc => [pc]) (UInt16.add_zero cpu.pc).symm
  · intro σ note state fuel hfuel
    obtain ⟨fuel, rfl⟩ := Nat.exists_eq_succ_of_ne_zero (Nat.ne_of_gt hfuel)
    have hrun := @Cpu.runFor_succ σ (Host.watching note) (fun _ _ => rfl) fuel (state, cpu) hfull
    have hturn : (Host.watching note).turn (state, cpu) 0 = (note state cpu, cpu) := rfl
    rw [hrun, hturn, hstep]
    rfl
  · rw [hstep]
    exact congrArg (· + 1) (UInt16.add_zero cpu.pc).symm
  · rw [hstep]
    exact hcells

/-- A line in front is one step more. -/
theorem RunThrough.cons {line : Line} (hfull : cpu.memory.size = Memory.addressCount)
    (hcode : cpu.code = line.opcode.code) (hcontinued : cpu.step.1 = .continued)
    (hpc : cpu.step.2.pc = cpu.pc + UInt16.ofNat line.bytes.length)
    (hrest : RunThrough lines memory cpu.step.2 visited final) :
    RunThrough (line :: lines) memory cpu (cpu :: visited) final where
  codes := congrArg₂ List.cons hcode hrest.codes
  addresses := by
    rw [addresses_cons, List.map_cons, hrest.addresses, hpc]
  run σ note state fuel hfuel := by
    obtain ⟨fuel, rfl⟩ := Nat.exists_eq_succ_of_ne_zero (Nat.ne_of_gt (Nat.zero_lt_of_lt hfuel))
    have hrun := @Cpu.runFor_succ σ (Host.watching note) (fun _ _ => rfl) fuel (state, cpu) hfull
    have hturn : (Host.watching note).turn (state, cpu) 0 = (note state cpu, cpu) := rfl
    have hround : (Host.watching note).round (state, cpu) = (note state cpu, cpu.step.2) := rfl
    rw [hrun, hturn, if_pos hcontinued, hround]
    exact hrest.run σ note _ fuel (Nat.lt_of_succ_lt_succ hfuel)
  pc := by
    rw [hrest.pc, hpc, code_cons, List.length_append, UInt16.ofNat_add, UInt16.add_assoc cpu.pc]
  cells := hrest.cells
  full := hrest.full

theorem toUInt16_length (line : Line) :
    line.opcode.length.toUInt16 = UInt16.ofNat line.bytes.length := by
  rw [length_bytes, UInt16.ofNat_uInt8ToNat]

/-- A straight program above the stack page that stands at the program counter, with a
break behind it, is run through. -/
theorem exists_runThrough (lines : List Line) (hfull : cpu.memory.size = Memory.addressCount)
    (hholds : memory.HoldsAt cpu.pc (code lines ++ [0x00])) (habove : 0x01FF < cpu.pc.toNat)
    (hfits : cpu.pc.toNat + (code lines).length < Memory.addressCount)
    (hcells : ∀ address, ¬OnStackPage address → cpu.read address = memory.read address) :
    ∃ visited final, RunThrough lines memory cpu visited final := by
  -- The program counter stays above the stack page, so the fetched byte is always the one
  -- that was loaded there.
  have hfetch : cpu.code = memory.read cpu.pc :=
    hcells cpu.pc fun hpage => Nat.not_le_of_lt habove (UInt16.le_iff_toNat_le.mp hpage.2)
  induction lines generalizing cpu with
  | nil => exact ⟨_, _, runThrough_nil hfull (hfetch.trans hholds.head) hcells⟩
  | cons line lines ih =>
      rw [code_cons, List.append_assoc] at hholds
      rw [code_cons, List.length_append] at hfits
      have hcode : cpu.code = line.opcode.code := hfetch.trans hholds.head
      have hdecode : Opcode.decode cpu.code = some line.opcode :=
        hcode ▸ Opcode.decode_code line.mem_table
      obtain ⟨hcontinued, hpc, hkept⟩ := Cpu.step_of_straight hfull hdecode line.straight
      rw [toUInt16_length] at hpc
      have hnext : cpu.step.2.pc.toNat = cpu.pc.toNat + line.bytes.length :=
        hpc ▸ Memory.toNat_add_ofNat (by omega)
      have hcells' : ∀ address, ¬OnStackPage address →
          cpu.step.2.read address = memory.read address :=
        fun address houtside => (hkept address houtside).trans (hcells address houtside)
      have habove' : 0x01FF < cpu.step.2.pc.toNat := by omega
      obtain ⟨visited, final, hrest⟩ := ih ((Cpu.size_step cpu).trans hfull)
        (hpc ▸ hholds.behind) habove' (by omega) hcells'
        (hcells' _ fun hpage => Nat.not_le_of_lt habove' (UInt16.le_iff_toNat_le.mp hpage.2))
      exact ⟨_, _, hrest.cons hfull hcode hcontinued hpc⟩

end Line

namespace Monitor

/-- A straight program with a break behind it that is loaded and run goes through its
lines one by one, and ends behind the break with the memory as it was loaded, but for the
stack page. -/
theorem loadAndRun_straight_program {monitor : Monitor}
    (hfull : monitor.cpu.memory.size = Memory.addressCount) (lines : List Line)
    (hlength : (Line.code lines).length ≤ 0x7FFB) :
    let program := Line.code lines ++ [0x00]
    let loaded := monitor.cpu.loadAt program Cpu.defaultOrigin
    loaded.memory.HoldsAt 0x8000 program ∧ loaded.reset.pc = 0x8000 ∧
      ∃ visited final,
        monitor.perform (.loadAndRun program) = some (.ran .halted, monitor.withCpu final) ∧
        visited.length = lines.length + 1 ∧
        Line.RunThrough lines loaded.memory loaded.reset visited final ∧
        final.pc.toNat = 0x8000 + (Line.code lines).length + 1 := by
  intro program loaded
  have hprogram : program.length = (Line.code lines).length + 1 := List.length_append
  have horigin : Cpu.defaultOrigin.toNat = 32768 := rfl
  have hvector : Cpu.resetVector.toNat = 65532 := rfl
  have hholds : loaded.memory.HoldsAt Cpu.defaultOrigin program :=
    Cpu.holdsAt_loadAt hfull (by omega)
  have hstart : loaded.reset.pc = Cpu.defaultOrigin := Cpu.pc_reset_loadAt hfull
  have hcells : loaded.memory.size = Memory.addressCount :=
    (Cpu.size_loadAt (Nat.le_of_eq hfull.symm) _ _).trans hfull
  obtain ⟨visited, final, hrun⟩ := Line.exists_runThrough lines
    ((Cpu.size_reset loaded).trans hcells) (hstart ▸ hholds)
    (by rw [hstart, horigin]; omega) (by rw [hstart, horigin, Memory.addressCount]; omega)
    fun _ _ => rfl
  have hbound : lines.length < Cpu.stepBound := by
    have hlines := Line.length_le_length_code lines
    have hbig : 0x7FFB < Cpu.stepBound := by decide
    omega
  refine ⟨hholds, hstart, visited, final, ?_, ?_, hrun, ?_⟩
  · have hfinish : loaded.reset.run = ⟨.halted, visited.foldl (fun state _ => state) (), final⟩ :=
      hrun.run Unit (fun state _ => state) () Cpu.stepBound hbound
    rw [perform, Cpu.loadAt?_of_full (Nat.le_of_eq hfull.symm), Option.bind_some,
      Cpu.reset?_of_full (Nat.le_of_eq hcells.symm), Option.bind_some, runReply, hfinish]
    rfl
  · have hcodes := congrArg List.length hrun.codes
    rwa [List.length_map, List.length_append, List.length_map] at hcodes
  · have hbehind : final.pc = Cpu.defaultOrigin + UInt16.ofNat ((Line.code lines).length + 1) := by
      rw [hrun.pc, hstart, UInt16.ofNat_add, UInt16.add_assoc]
      rfl
    rw [hbehind, Memory.toNat_add_ofNat, horigin]
    · rfl
    · rw [horigin, Memory.addressCount]
      omega

/-- A load and a push: three steps, the last one on the break. -/
theorem loadAndRun_straight_program_with_push :
    let lines : List Line := [
      ⟨⟨0xA9, "LDA", 2, 2, .immediate, .addressed (.load .a)⟩, [0x42], by decide, rfl, rfl⟩,
      ⟨⟨0x48, "PHA", 1, 3, .implied, .implied .push⟩, [], by decide, rfl, rfl⟩]
    initial.cpu.memory.size = Memory.addressCount ∧ (Line.code lines).length ≤ 0x7FFB ∧
      ∃ (visited : List Cpu) (final : Cpu),
        initial.perform (.loadAndRun [0xA9, 0x42, 0x48, 0x00]) =
          some (.ran .halted, initial.withCpu final) ∧
        visited.map Cpu.code = [0xA9, 0x48, 0x00] ∧
        final.pc.toNat = 0x8004 := by
  intro lines
  have hfull : initial.cpu.memory.size = Memory.addressCount := Memory.size_blank
  have hlength : (Line.code lines).length ≤ 0x7FFB := by decide
  obtain ⟨-, -, visited, final, hperform, -, hrun, hpc⟩ :=
    loadAndRun_straight_program hfull lines hlength
  exact ⟨hfull, hlength, visited, final, hperform, hrun.codes, hpc⟩

end Monitor

end Machine6502
