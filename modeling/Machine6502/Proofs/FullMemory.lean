import Machine6502.Script
import Machine6502.Proofs.Runs

/-!
# Machines with a cell for every address

A machine that has a cell for every address finds every cell it needs, whatever the
operation, and no operation changes how many cells there are.
-/

namespace Machine6502

namespace Memory

variable {memory : Memory}

theorem within_of_full {α : Type} (hfull : addressCount ≤ memory.size)
    (addresses : List UInt16) (result : α) : memory.within addresses result = some result := by
  rw [within, if_pos (covers_of_full memory addresses hfull)]

theorem map_within {α β : Type} (addresses : List UInt16) (result : α) (change : α → β) :
    (memory.within addresses result).map change = memory.within addresses (change result) := by
  rw [within, within]
  split <;> rfl

/-- What is found is the result that was asked for. -/
theorem eq_of_mem_within {α : Type} {addresses : List UInt16} {result found : α}
    (hfound : found ∈ memory.within addresses result) : found = result := by
  rw [within] at hfound
  split at hfound
  · exact (Option.some.inj hfound).symm
  · exact nomatch hfound

/-- The block of a copy ends at the top of the addresses. -/
theorem coversCopy_of_full (hfull : addressCount ≤ memory.size) (start : UInt16) (count : Nat) :
    memory.coversCopy start count = true := by
  have hstart : start.toNat < addressCount := start.toNat_lt
  rw [coversCopy, decide_eq_true_eq, blockLength]
  omega

end Memory

namespace Cpu

variable {cpu : Cpu}

section Loading

theorem size_loadAt (hfull : Memory.addressCount ≤ cpu.memory.size) (program : List UInt8)
    (origin : UInt16) : (cpu.loadAt program origin).memory.size = cpu.memory.size := by
  rw [loadAt, Memory.size_writeWord, Memory.size_copy]
  exact Memory.coversCopy_of_full hfull origin program.length

theorem loadAt?_of_full (hfull : Memory.addressCount ≤ cpu.memory.size) (program : List UInt8)
    (origin : UInt16) : cpu.loadAt? program origin = some (cpu.loadAt program origin) := by
  rw [loadAt?, if_pos (Memory.coversCopy_of_full hfull origin program.length),
    Memory.within_of_full hfull]

theorem eq_of_mem_loadAt? {program : List UInt8} {origin : UInt16} {loaded : Cpu}
    (hloaded : loaded ∈ cpu.loadAt? program origin) : loaded = cpu.loadAt program origin := by
  rw [loadAt?] at hloaded
  split at hloaded
  · exact Memory.eq_of_mem_within hloaded
  · exact nomatch hloaded

theorem size_reset (cpu : Cpu) : cpu.reset.memory.size = cpu.memory.size :=
  rfl

theorem reset?_of_full (hfull : Memory.addressCount ≤ cpu.memory.size) :
    cpu.reset? = some cpu.reset := by
  rw [reset?, Memory.within_of_full hfull]

end Loading

section Size

variable (cpu)

theorem size_push (value : UInt8) : (cpu.push value).memory.size = cpu.memory.size := by
  rw [push, Memory.size_write]

theorem size_pushWord (word : UInt16) : (cpu.pushWord word).memory.size = cpu.memory.size := by
  rw [pushWord, size_push, size_push]

theorem size_press (direction : Direction) :
    (direction.press cpu).memory.size = cpu.memory.size := by
  rw [Direction.press, write, Memory.size_write]

theorem size_execute (instruction : Instruction) (mode : Mode) :
    (instruction.execute mode cpu).2.memory.size = cpu.memory.size := by
  cases instruction with
  | addressed operation =>
      simp only [Instruction.execute]
      split
      · rfl
      · exact size_addressed cpu operation _
  | implied operation => exact size_implied cpu operation
  | control operation => exact size_control cpu operation

end Size

/-- A direct call of an instruction finds every cell it needs. -/
theorem execute?_of_full (hfull : Memory.addressCount ≤ cpu.memory.size)
    (instruction : Instruction) (mode : Mode) :
    cpu.execute? instruction mode = some (instruction.execute mode cpu) := by
  rw [execute?, Memory.within_of_full hfull]

/-- A run under a host that neither lacks a cell nor changes how many there are does
neither. -/
theorem runFor_of_full {σ : Type} (host : Host σ) {size : Nat}
    (hfull : Memory.addressCount ≤ size)
    (hkeeps : ∀ state cpu, cpu.memory.size = size → (host.act state cpu).2.memory.size = size)
    (hends : ∀ state cpu, cpu.memory.size = size → host.ends state cpu ≠ some .outOfRange)
    (fuel : Nat) (state : σ) {cpu : Cpu} (hsize : cpu.memory.size = size) :
    (runFor host fuel state cpu).cpu.memory.size = size ∧
      (runFor host fuel state cpu).ending ≠ .outOfRange := by
  obtain ⟨hfinish, hlacks⟩ := @runFor_invariant _ host (fun _ cpu => cpu.memory.size = size)
    (fun state cpu hcells _ => hkeeps state cpu hcells)
    (fun _ cpu hcells => (size_step cpu).trans hcells) fuel state cpu hsize
  refine ⟨hfinish, fun hout => ?_⟩
  obtain ⟨state, cpu, hcells, hlack | hshort⟩ := hlacks hout
  · exact hends state cpu hcells hlack
  · exact absurd (hcells ▸ hfull) (Nat.not_le_of_lt hshort)

theorem run_of_full (hfull : Memory.addressCount ≤ cpu.memory.size) :
    cpu.run.cpu.memory.size = cpu.memory.size ∧ cpu.run.ending ≠ .outOfRange :=
  runFor_of_full idleHost hfull (fun _ _ hcells => hcells)
    (fun _ _ _ => (Option.some_ne_none _).symm) stepBound () rfl

/-- A list of steps is not cut off, and keeps the number of cells. -/
theorem stepsFrom_of_full (hfull : Memory.addressCount ≤ cpu.memory.size)
    (listed : List (Outcome × Registers)) (count : Nat) :
    ∃ list last, stepsFrom listed count cpu = some (list, last) ∧
      last.memory.size = cpu.memory.size := by
  induction count generalizing listed cpu with
  | zero => exact ⟨listed, cpu, rfl, rfl⟩
  | succ count ih =>
      have hsize := size_step cpu
      rcases hstep : cpu.step with ⟨outcome, next⟩
      rw [hstep] at hsize
      simp only [stepsFrom, step?_of_full cpu hfull, hstep]
      cases outcome with
      | continued =>
          obtain ⟨list, last, hlist, hlast⟩ :=
            ih (hsize ▸ hfull) ((.continued, next.registers) :: listed)
          exact ⟨list, last, hlist, hlast.trans hsize⟩
      | halted => exact ⟨_, next, rfl, hsize⟩
      | failed fault => exact ⟨_, next, rfl, hsize⟩

end Cpu

namespace Script

variable {cpu : Cpu}

/-- What a script does before a step it does to the memory only. -/
theorem apply_eq (script : Script) (number : Nat) :
    ∃ change : Memory → Memory, ∀ cpu, script.apply number cpu =
      { cpu with memory := change cpu.memory } := by
  have hpressed : ∀ directions : List Direction, ∃ change : Memory → Memory, ∀ cpu,
      directions.foldl (fun cpu direction => direction.press cpu) cpu =
        { cpu with memory := change cpu.memory } := by
    intro directions
    induction directions with
    | nil => exact ⟨id, fun _ => rfl⟩
    | cons direction directions ih =>
        obtain ⟨change, hchange⟩ := ih
        exact ⟨fun memory => change (memory.write Direction.cell direction.code),
          fun cpu => hchange (direction.press cpu)⟩
  obtain ⟨change, hchange⟩ := hpressed (script.pressed number)
  cases hbyte : script.randomByte number with
  | none => exact ⟨change, fun cpu => by rw [apply, hbyte, hchange]⟩
  | some byte =>
      refine ⟨fun memory => (change memory).write randomCell byte, fun cpu => ?_⟩
      rw [apply, hbyte, hchange]
      rfl

theorem size_apply (script : Script) (number : Nat) (cpu : Cpu) :
    (script.apply number cpu).memory.size = cpu.memory.size := by
  have hpressed : ∀ (directions : List Direction) (cpu : Cpu),
      (directions.foldl (fun cpu direction => direction.press cpu) cpu).memory.size =
        cpu.memory.size := by
    intro directions
    induction directions with
    | nil => exact fun _ => rfl
    | cons direction directions ih =>
        intro cpu
        rw [List.foldl_cons, ih, Cpu.size_press]
  rw [apply]
  split
  · exact hpressed _ cpu
  · rw [Cpu.write, Memory.size_write, hpressed]

/-- A script that does not lack a cell ends a run only at its limit. -/
theorem ends_host_of_full (script : Script) (number : Nat)
    (hfull : Memory.addressCount ≤ cpu.memory.size) :
    script.host.ends number cpu = if script.limit ≤ number then some .stopped else none := by
  simp only [host, Memory.covers_of_full _ _ hfull, if_true]

end Script

end Machine6502
