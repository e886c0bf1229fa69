import Machine6502.Proofs.Locality
import Machine6502.Proofs.PairedRuns
import Machine6502.Proofs.Resumption

/-!
# Noninterference

A host that puts bytes into a cell before every step has no influence on a run whose
steps do not look at that cell: whatever bytes it puts there, the steps have the same
outcomes, the run the same end, and the machine that is left differs in that cell at
most.
-/

namespace Machine6502

namespace Cpu

variable {address : UInt16} {first second : Cpu}

theorem read_write_of_ne {cpu : Cpu} (hfull : cpu.memory.size = Memory.addressCount)
    {other : UInt16} (hother : other ≠ address) (value : UInt8) :
    (cpu.write address value).read other = cpu.read other := by
  rw [read, write, Memory.read_write_eq_update hfull, Function.update_of_ne hother, read]

theorem agreeExcept_write {cpu : Cpu} (hfull : cpu.memory.size = Memory.addressCount)
    (value : UInt8) : cpu.AgreeExcept address (cpu.write address value) :=
  ⟨rfl, rfl, fun _ hother => (read_write_of_ne hfull hother value).symm⟩

theorem size_write_eq {cpu : Cpu} (hfull : cpu.memory.size = Memory.addressCount)
    (value : UInt8) : (cpu.write address value).memory.size = Memory.addressCount :=
  (Memory.size_write cpu.memory address value).trans hfull

/-- Different bytes in the cell keep the machines in agreement except there. -/
theorem AgreeExcept.write (hagree : first.AgreeExcept address second)
    (hfull : first.memory.size = Memory.addressCount)
    (hfull' : second.memory.size = Memory.addressCount) (value value' : UInt8) :
    (first.write address value).AgreeExcept address (second.write address value') := by
  refine ⟨hagree.registers, hagree.halted, fun other hother => ?_⟩
  rw [read_write_of_ne hfull hother, read_write_of_ne hfull' hother]
  exact hagree.read other hother

end Cpu

namespace Host

variable {σ τ : Type}

/-- The host that puts a byte of its choice into a cell before every step. -/
def writing (address : UInt16) (choose : σ → Cpu → σ × UInt8) : Host σ :=
  ofCallback fun state cpu => ((choose state cpu).1, cpu.write address (choose state cpu).2)

theorem keepsCells_writing (address : UInt16) (choose : σ → Cpu → σ × UInt8) :
    (writing address choose).KeepsCells :=
  fun _ cpu hfull => (Memory.size_write cpu.memory address _).trans hfull

theorem Reaches.succ {host : Host σ} {start : σ × Cpu} {number : Nat}
    (hgoes : (host.turn start 0).2.GoesOn) (hreaches : host.Reaches (host.round start) number) :
    host.Reaches start (number + 1) := by
  intro earlier hearlier
  cases earlier with
  | zero => exact hgoes
  | succ earlier =>
      rw [turn_succ]
      exact hreaches earlier (Nat.lt_of_succ_lt_succ hearlier)

/-- None of the next rounds has a step that looks at the cell. -/
def Unseen (host : Host σ) (start : σ × Cpu) (address : UInt16) (rounds : Nat) : Prop :=
  ∀ number < rounds, host.Reaches start number → address ∉ (host.turn start number).2.footprint

theorem Unseen.round {host : Host σ} {start : σ × Cpu} {address : UInt16} {rounds : Nat}
    (hunseen : host.Unseen start address (rounds + 1)) (hgoes : (host.turn start 0).2.GoesOn) :
    host.Unseen (host.round start) address rounds := by
  intro number hnumber hreaches
  rw [← turn_succ]
  exact hunseen (number + 1) (Nat.succ_lt_succ hnumber) (hreaches.succ hgoes)

end Host

namespace Cpu

variable {σ τ : Type} {address : UInt16}

/-- A run under a host that puts bytes of its choice into a cell, with the outcomes of the
steps noted. -/
def runWriting (address : UInt16) (choose : σ → Cpu → σ × UInt8) (fuel : Nat) (state : σ)
    (cpu : Cpu) : Finish (σ × List Outcome) :=
  runFor (Host.writing address choose).observing fuel (state, []) cpu

/-- Two runs between two rounds: the same outcomes so far, machines that differ in the cell
at most, and steps to come that do not look at it. -/
structure Unaffected (address : UInt16) (choose : σ → Cpu → σ × UInt8) (rounds : Nat)
    (moment : (σ × List Outcome) × Cpu) (other : (τ × List Outcome) × Cpu) : Prop where
  noted : moment.1.2 = other.1.2
  full : moment.2.memory.size = Memory.addressCount
  full' : other.2.memory.size = Memory.addressCount
  agree : moment.2.AgreeExcept address other.2
  unseen : (Host.writing address choose).Unseen (moment.1.1, moment.2) address rounds

section Runs

variable {choose : σ → Cpu → σ × UInt8} (choose' : τ → Cpu → τ × UInt8) {rounds : Nat}
variable {moment : (σ × List Outcome) × Cpu} {other : (τ × List Outcome) × Cpu}

theorem Unaffected.step (hsame : Unaffected address choose (rounds + 1) moment other) :
    let turned := (Host.writing address choose).observing.turn moment 0
    let turned' := (Host.writing address choose').observing.turn other 0
    turned.2.memory.size = Memory.addressCount ∧ turned'.2.memory.size = Memory.addressCount ∧
      turned.2.step.1 = turned'.2.step.1 ∧
        turned.2.step.2.AgreeExcept address turned'.2.step.2 := by
  have hturned := (Host.keepsCells_writing address choose).observing.turn hsame.full 0
  have hturned' := (Host.keepsCells_writing address choose').observing.turn hsame.full' 0
  have hunseen := hsame.unseen 0 (Nat.succ_pos rounds) nofun
  have hagree := hsame.agree.write hsame.full hsame.full' (choose moment.1.1 moment.2).2
    (choose' other.1.1 other.2).2
  obtain ⟨houtcome, hnext, -⟩ := hagree.step hturned hturned' hunseen
  exact ⟨hturned, hturned', houtcome, hnext⟩

/-- The machines still agree after the round; what is known of later steps is another
matter. -/
theorem Unaffected.round (hsame : Unaffected address choose (rounds + 1) moment other)
    {left : Nat}
    (hunseen : (Host.writing address choose).Unseen
      ((Host.writing address choose).round (moment.1.1, moment.2)) address left) :
    Unaffected address choose left ((Host.writing address choose).observing.round moment)
      ((Host.writing address choose').observing.round other) := by
  obtain ⟨hturned, hturned', houtcome, hnext⟩ := hsame.step choose'
  exact ⟨congrArg₂ List.cons houtcome hsame.noted, (size_step _).trans hturned,
    (size_step _).trans hturned', hnext, hunseen⟩

theorem keepInStep_writing :
    (Host.writing address choose).observing.KeepInStep (Host.writing address choose').observing
      (Unaffected address choose) where
  ends _ := rfl
  fits hsame _ := by
    obtain ⟨hturned, hturned', -⟩ := hsame.step choose'
    exact ⟨stepFits_of_full (Nat.le_of_eq hturned.symm),
      stepFits_of_full (Nat.le_of_eq hturned'.symm)⟩
  outcome hsame _ := (hsame.step choose').2.2.1
  goesOn hsame _ houtcome :=
    hsame.round choose' (hsame.unseen.round ((outcomeLaw_step _).continued_iff.mp houtcome))
  stops hsame _ _ := hsame.round choose' nofun

end Runs

/-- A cell that the next step does not look at does not affect it: machines that differ in
that cell at most take the same step, and after it differ there at most.  Nor do bytes
that hosts put there before every step of a run affect a run whose steps do not look at
it. -/
theorem independent_of_unseen_cell {first second : Cpu}
    (hfull : first.memory.size = Memory.addressCount)
    (hfull' : second.memory.size = Memory.addressCount)
    (hagree : first.AgreeExcept address second) :
    (address ∉ first.footprint →
      ∃ outcome next next', first.step? = some (outcome, next) ∧
        second.step? = some (outcome, next') ∧ next.AgreeExcept address next' ∧
        TreatAlike address first second next next') ∧
    ∀ (σ τ : Type) (choose : σ → Cpu → σ × UInt8) (choose' : τ → Cpu → τ × UInt8)
      (state : σ) (state' : τ) (rounds : Nat),
      (Host.writing address choose).Unseen (state, first) address rounds →
        (runWriting address choose rounds state first).ending =
            (runWriting address choose' rounds state' second).ending ∧
          (runWriting address choose rounds state first).host.2 =
            (runWriting address choose' rounds state' second).host.2 ∧
          (runWriting address choose rounds state first).cpu.AgreeExcept address
            (runWriting address choose' rounds state' second).cpu := by
  refine ⟨fun hunseen => ?_, ?_⟩
  · obtain ⟨houtcome, hnext, halike⟩ := hagree.step hfull hfull' hunseen
    have hsecond : second.step? = some (first.step.1, second.step.2) :=
      (step?_of_full second (Nat.le_of_eq hfull'.symm)).trans
        (congrArg some (Prod.ext houtcome.symm rfl))
    exact ⟨_, _, _, step?_of_full first (Nat.le_of_eq hfull.symm), hsecond, hnext, halike⟩
  · intro σ τ choose choose' state state' rounds hunseen
    have hstart : Unaffected address choose rounds ((state, []), first) ((state', []), second) :=
      ⟨rfl, hfull, hfull', hagree, hunseen⟩
    obtain ⟨hending, left, hfinish⟩ :=
      runFor_keepInStep (keepInStep_writing choose') rounds hstart
    exact ⟨hending, hfinish.noted, hfinish.agree⟩

/-- A load through the pointer at the operand and X fetches the byte behind its operand
too, but whatever stands there is the same to it. -/
theorem independent_of_unseen_cell_behind_operand :
    (holding [0xA1, 0x10]).memory.size = Memory.addressCount ∧
      ((holding [0xA1, 0x10]).write 2 7).memory.size = Memory.addressCount ∧
      (holding [0xA1, 0x10]).AgreeExcept 2 ((holding [0xA1, 0x10]).write 2 7) ∧
      (2 : UInt16) ∉ (holding [0xA1, 0x10]).footprint ∧
      (∃ outcome next next', (holding [0xA1, 0x10]).step? = some (outcome, next) ∧
        ((holding [0xA1, 0x10]).write 2 7).step? = some (outcome, next') ∧
        next.AgreeExcept 2 next') ∧
      (Host.writing 2 fun (_ : Unit) _ => ((), 5)).Unseen ((), holding [0xA1, 0x10]) 2 1 ∧
      (runWriting 2 (fun (_ : Unit) _ => ((), 5)) 1 () (holding [0xA1, 0x10])).cpu.AgreeExcept 2
        (runWriting 2 (fun (_ : Unit) _ => ((), 9)) 1 ()
          ((holding [0xA1, 0x10]).write 2 7)).cpu := by
  have hfull := size_holding [0xA1, 0x10] (by decide)
  have hagree := @agreeExcept_write 2 _ hfull 7
  -- Neither machine of the run has another byte in the cells the load looks at.
  have hfootprint : ∀ cpu : Cpu, cpu.pc = 0 → cpu.x = 0 →
      cpu.read 0 = 0xA1 → cpu.read 1 = 0x10 → cpu.read 0x10 = 0 → cpu.read 0x11 = 0 →
      (2 : UInt16) ∉ cpu.footprint := by
    intro cpu hpc hx hcode hoperand hlow hhigh
    have hdecode : Opcode.decode cpu.code =
        some ⟨0xA1, "LDA", 2, 6, .indirectX, .addressed (.load .a)⟩ := by
      rw [code, hpc, hcode]
      rfl
    have hpointer : Mode.pointerCells .indirectX cpu = [0x10, 0x11] := by
      rw [Mode.pointerCells, hpc, hx]
      exact congrArg (fun byte : UInt8 => [(byte + 0).toUInt16, (byte + 0 + 1).toUInt16]) hoperand
    have haddress : cpu.effectiveAddress .indirectX = 0 := by
      have hbase : cpu.memory.read (0 + 1) + 0 = 0x10 := congrArg (· + 0) hoperand
      rw [effectiveAddress_indirectX, operandWord, Memory.readWord, lowByte_wordOf, hpc, hx, hbase]
      exact congrArg₂ wordOf hlow hhigh
    simp only [footprint, hdecode, Instruction.dataCells, Addressed.looksAtOperand, hpointer,
      haddress, hpc]
    decide
  have hx : (holding [0xA1, 0x10]).x = 0 := by
    rw [holding]
    rfl
  have hcell : ∀ other, (holding [0xA1, 0x10]).read other = [0xA1, 0x10].getD other.toNat 0 :=
    congrFun (read_holding [0xA1, 0x10] (by decide))
  have hfirst : (2 : UInt16) ∉ (holding [0xA1, 0x10]).footprint :=
    hfootprint _ (pc_holding _) hx (hcell 0) (hcell 1) (hcell 0x10) (hcell 0x11)
  have hunseen : (Host.writing 2 fun (_ : Unit) _ => ((), 5)).Unseen
      ((), holding [0xA1, 0x10]) 2 1 := by
    intro number hnumber _
    obtain rfl : number = 0 := Nat.lt_one_iff.mp hnumber
    have hkept : ∀ other, other ≠ 2 →
        ((holding [0xA1, 0x10]).write 2 5).read other = [0xA1, 0x10].getD other.toNat 0 :=
      fun other hother => (read_write_of_ne hfull hother 5).trans (hcell other)
    exact hfootprint _ (pc_holding _) hx (hkept 0 (by decide)) (hkept 1 (by decide))
      (hkept 0x10 (by decide)) (hkept 0x11 (by decide))
  obtain ⟨hstep, hrun⟩ := independent_of_unseen_cell hfull (size_write_eq hfull 7) hagree
  obtain ⟨outcome, next, next', hnext, hnext', hafter, -⟩ := hstep hfirst
  have hruns := hrun Unit Unit _ (fun _ _ => ((), 9)) () () 1 hunseen
  exact ⟨hfull, size_write_eq hfull 7, hagree, hfirst,
    ⟨outcome, next, next', hnext, hnext', hafter⟩, hunseen, hruns.2.2⟩

end Cpu

end Machine6502
