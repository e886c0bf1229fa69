import Machine6502.Monitor
import Machine6502.Proofs.FullMemory

/-!
# How runs end

A run that the host does not end is ended by the first byte it fetches that does not go
on: normally by a break, with a fault by a byte that begins no instruction.  An
instruction that needs a cell is never found under a mode that names none, so no run
ends with the fault of that.
-/

namespace Machine6502

theorem Outcome.ending_eq_halted_iff {outcome : Outcome} :
    outcome.ending = .halted ↔ outcome = .halted := by
  cases outcome <;> simp [ending]

theorem Outcome.ending_eq_unfinished_iff {outcome : Outcome} :
    outcome.ending = .unfinished ↔ outcome = .continued := by
  cases outcome <;> simp [ending]

theorem Outcome.ending_eq_failed_iff {outcome : Outcome} {fault : Fault} :
    outcome.ending = .failed fault ↔ outcome = .failed fault := by
  cases outcome <;> simp [ending]

/-- What the fetched bytes say about the end of a run of at most `fuel` rounds. -/
structure EndingLaw {σ : Type} (host : Host σ) (start : σ × Cpu) (fuel : Nat)
    (finish : Finish σ) : Prop where
  halted_iff : finish.ending = .halted ↔ ∃ number < fuel, host.Reaches start number ∧
    (host.turn start number).2.code = 0x00
  failed_iff : ∀ fault, finish.ending = .failed fault ↔
    ∃ number < fuel, host.Reaches start number ∧
      Opcode.decode (host.turn start number).2.code = none ∧
      fault = .unrecognizedOpcode (host.turn start number).2.code (host.turn start number).2.pc
  unfinished_iff : finish.ending = .unfinished ↔ host.Reaches start fuel
  exhaustive : finish.ending = .halted ∨ (∃ fault, finish.ending = .failed fault) ∨
    finish.ending = .unfinished
  supported : ∀ mode, finish.ending ≠ .failed (.unsupportedMode mode)
  /-- The step that does not go on is the last one. -/
  cpu_of_stop : ∀ number < fuel, host.Reaches start number →
    ¬(host.turn start number).2.GoesOn → finish.cpu = (host.turn start number).2.step.2

namespace Cpu

section Rounds

variable {σ : Type} {host : Host σ} {start : σ × Cpu}
variable (hends : ∀ state cpu, host.ends state cpu = none)
variable (hfull : ∀ number, (host.turn start number).2.memory.size = Memory.addressCount)

include hends hfull

theorem ending_of_reaches {fuel : Nat} (hreaches : host.Reaches start fuel) :
    (runFor host fuel start.1 start.2).ending = .unfinished := by
  have hrun := runFor_of_reaches hends 0 hfull hreaches
  rw [Nat.add_zero] at hrun
  rw [hrun, runFor]

/-- The first step that does not go on gives the run its ending. -/
theorem ending_of_stop {fuel number : Nat} (hbound : number < fuel)
    (hreaches : host.Reaches start number) (hstop : ¬(host.turn start number).2.GoesOn) :
    (runFor host fuel start.1 start.2).ending = (host.turn start number).2.step.1.ending := by
  rw [runFor_of_stop hends hbound hfull hreaches hstop]

/-- A run that is not unfinished has the ending of the first step that does not go on. -/
theorem exists_stop_of_ending {fuel : Nat} {ending : Ending}
    (hending : (runFor host fuel start.1 start.2).ending = ending)
    (hfinished : ending ≠ .unfinished) :
    ∃ number < fuel, host.Reaches start number ∧
      (host.turn start number).2.step.1.ending = ending := by
  subst hending
  rcases reaches_or_stops host start fuel with hreaches | ⟨number, hbound, hreaches, hstop⟩
  · exact absurd (ending_of_reaches hends hfull hreaches) hfinished
  · exact ⟨number, hbound, hreaches, (ending_of_stop hends hfull hbound hreaches hstop).symm⟩

theorem ending_eq_halted_iff (fuel : Nat) :
    (runFor host fuel start.1 start.2).ending = .halted ↔
      ∃ number < fuel, host.Reaches start number ∧ (host.turn start number).2.code = 0x00 := by
  constructor
  · intro hending
    obtain ⟨number, hbound, hreaches, hstep⟩ :=
      exists_stop_of_ending hends hfull hending nofun
    have houtcome := Outcome.ending_eq_halted_iff.mp hstep
    exact ⟨number, hbound, hreaches, (outcomeLaw_step _).halted_iff.mp houtcome⟩
  · rintro ⟨number, hbound, hreaches, hcode⟩
    rw [ending_of_stop hends hfull hbound hreaches fun hgo => hgo.2 hcode, step_of_break hcode]
    rfl

theorem ending_eq_failed_iff (fuel : Nat) (fault : Fault) :
    (runFor host fuel start.1 start.2).ending = .failed fault ↔
      ∃ number < fuel, host.Reaches start number ∧
        Opcode.decode (host.turn start number).2.code = none ∧
        fault = .unrecognizedOpcode (host.turn start number).2.code
          (host.turn start number).2.pc := by
  constructor
  · intro hending
    obtain ⟨number, hbound, hreaches, hstep⟩ :=
      exists_stop_of_ending hends hfull hending nofun
    have houtcome := Outcome.ending_eq_failed_iff.mp hstep
    have hlaw := outcomeLaw_step (host.turn start number).2
    exact ⟨number, hbound, hreaches, hlaw.failed_iff.mp ⟨fault, houtcome⟩,
      (hlaw.of_failed fault houtcome).1⟩
  · rintro ⟨number, hbound, hreaches, hdecode, rfl⟩
    rw [ending_of_stop hends hfull hbound hreaches fun hgo => hgo.1 hdecode,
      step_of_decode_eq_none hdecode]
    rfl

theorem ending_eq_unfinished_iff (fuel : Nat) :
    (runFor host fuel start.1 start.2).ending = .unfinished ↔ host.Reaches start fuel := by
  refine ⟨fun hending => ?_, ending_of_reaches hends hfull⟩
  rcases reaches_or_stops host start fuel with hreaches | ⟨number, hbound, hreaches, hstop⟩
  · exact hreaches
  · rw [ending_of_stop hends hfull hbound hreaches hstop, Outcome.ending_eq_unfinished_iff]
      at hending
    exact absurd ((outcomeLaw_step _).continued_iff.mp hending) hstop

theorem endingLaw_runFor (fuel : Nat) :
    EndingLaw host start fuel (runFor host fuel start.1 start.2) where
  halted_iff := ending_eq_halted_iff hends hfull fuel
  failed_iff := ending_eq_failed_iff hends hfull fuel
  unfinished_iff := ending_eq_unfinished_iff hends hfull fuel
  exhaustive := by
    by_cases hending : (runFor host fuel start.1 start.2).ending = .unfinished
    · exact .inr (.inr hending)
    · obtain ⟨number, -, -, hstep⟩ := exists_stop_of_ending hends hfull rfl hending
      rw [← hstep]
      cases (host.turn start number).2.step.1 <;> simp [Outcome.ending]
  supported := by
    intro mode hending
    obtain ⟨number, -, -, -, hfault⟩ := (ending_eq_failed_iff hends hfull fuel _).mp hending
    exact Fault.noConfusion hfault
  cpu_of_stop := by
    intro number hbound hreaches hstop
    rw [runFor_of_stop hends hbound hfull hreaches hstop]

end Rounds

/-- The law of a run that only steps, as the reply to a command that runs. -/
theorem exists_runReply (monitor : Monitor) {cpu : Cpu}
    (hfull : cpu.memory.size = Memory.addressCount) :
    ∃ finish : Finish Unit, EndingLaw idleHost ((), cpu) stepBound finish ∧
      monitor.runReply cpu = some (.ran finish.ending, monitor.withCpu finish.cpu) := by
  have hkeeps : ∀ number, (idleHost.turn ((), cpu) number).2.memory.size = Memory.addressCount :=
    Host.keepsCells_idleHost.turn hfull
  have hlaw : EndingLaw idleHost ((), cpu) stepBound cpu.run :=
    endingLaw_runFor (fun _ _ => rfl) hkeeps stepBound
  have hrange := (run_of_full (Nat.le_of_eq hfull.symm)).2
  refine ⟨cpu.run, hlaw, ?_⟩
  simp only [Monitor.runReply, Monitor.endReply, if_neg hrange]

/-- The fetched byte decides how a step ends, and the fetched bytes how a run ends: one
under any host that has its turns and no more, one that is asked for, and one that is
loaded first. -/
theorem ends_by_fetched_bytes {cpu : Cpu} (hfull : cpu.memory.size = Memory.addressCount) :
    (∃ outcome next, cpu.step? = some (outcome, next) ∧ cpu.OutcomeLaw outcome next) ∧
      (∀ (σ : Type) (callback : σ → Cpu → σ × Cpu), (Host.ofCallback callback).KeepsCells →
        ∀ state fuel, EndingLaw (Host.ofCallback callback) (state, cpu) fuel
          (runFor (Host.ofCallback callback) fuel state cpu)) ∧
      ∀ monitor : Monitor, monitor.cpu = cpu →
        (∃ finish, EndingLaw idleHost ((), cpu) stepBound finish ∧
          monitor.perform .run = some (.ran finish.ending, monitor.withCpu finish.cpu)) ∧
        ∀ program, ∃ finish,
          EndingLaw idleHost ((), (cpu.loadAt program defaultOrigin).reset) stepBound finish ∧
          monitor.perform (.loadAndRun program) =
            some (.ran finish.ending, monitor.withCpu finish.cpu) := by
  have hcells : Memory.addressCount ≤ cpu.memory.size := Nat.le_of_eq hfull.symm
  refine ⟨⟨_, _, step?_of_full cpu hcells, outcomeLaw_step cpu⟩, ?_, ?_⟩
  · intro σ callback hkeeps state fuel
    have hturns : ∀ number, ((Host.ofCallback callback).turn (state, cpu) number).2.memory.size =
        Memory.addressCount := hkeeps.turn hfull
    exact endingLaw_runFor (fun _ _ => rfl) hturns fuel
  · rintro monitor rfl
    refine ⟨exists_runReply monitor hfull, fun program => ?_⟩
    have hloaded := size_loadAt hcells program defaultOrigin
    have hreset : (monitor.cpu.loadAt program defaultOrigin).reset.memory.size =
        Memory.addressCount := by
      rw [size_reset, hloaded, hfull]
    simp only [Monitor.perform, loadAt?_of_full hcells, Option.bind_some,
      reset?_of_full (Nat.le_trans hcells (Nat.le_of_eq hloaded.symm))]
    exact exists_runReply monitor hreset

/-- A byte that begins no instruction ends a step, and a run in its first round. -/
theorem ends_by_fetched_bytes_at_unknown :
    (holding [0x02]).memory.size = Memory.addressCount ∧
      (∃ next, (holding [0x02]).step? = some (.failed (.unrecognizedOpcode 0x02 0), next)) ∧
      (Host.ofCallback fun (calls : Nat) cpu => (calls + 1, cpu)).KeepsCells ∧
      (runFor (Host.ofCallback fun (calls : Nat) cpu => (calls + 1, cpu)) 5 0
        (holding [0x02])).ending = .failed (.unrecognizedOpcode 0x02 0) := by
  have hfull := size_holding [0x02] (by decide)
  have hcode : (holding [0x02]).code = 0x02 := by
    rw [code, read, read_holding [0x02] (by decide), pc_holding]
    rfl
  have hdecode : Opcode.decode (holding [0x02]).code = none := by
    rw [hcode]
    rfl
  have hkeeps : (Host.ofCallback fun (calls : Nat) cpu => (calls + 1, cpu)).KeepsCells :=
    fun _ _ hcells => hcells
  obtain ⟨⟨outcome, next, hstep, hlaw⟩, hruns, -⟩ := ends_by_fetched_bytes hfull
  obtain ⟨fault, rfl⟩ := hlaw.failed_iff.mpr hdecode
  have hfault : fault = .unrecognizedOpcode 0x02 0 := by
    rw [(hlaw.of_failed fault rfl).1, hcode, pc_holding]
  refine ⟨hfull, ⟨next, hfault ▸ hstep⟩, hkeeps, ?_⟩
  refine ((hruns Nat _ hkeeps 0 5).failed_iff _).mpr ⟨0, by decide, ?_, hdecode, ?_⟩
  · exact fun earlier hearlier => absurd hearlier (Nat.not_lt_zero earlier)
  · exact (congrArg₂ Fault.unrecognizedOpcode hcode (pc_holding [0x02])).symm

end Cpu

end Machine6502
