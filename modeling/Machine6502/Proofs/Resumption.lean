import Machine6502.Proofs.Runs
import Machine6502.Proofs.SnapshotFormat

/-!
# Resuming from snapshots

A run may be broken off between two rounds and go on with the machine that is read from
a snapshot.  It then takes the steps that it would have taken, and ends as it would have
ended.
-/

namespace Machine6502

namespace Host

variable {σ : Type}

/-- The host that notes the outcome of every step, the last one first, and otherwise
does what another does. -/
def observing (host : Host σ) : Host (σ × List Outcome) where
  ends state cpu := host.ends state.1 cpu
  act state cpu :=
    let turn := host.act state.1 cpu
    ((turn.1, turn.2.step.1 :: state.2), turn.2)

theorem KeepsCells.observing {host : Host σ} (hkeeps : host.KeepsCells) :
    host.observing.KeepsCells :=
  fun state cpu hfull => hkeeps state.1 cpu hfull

end Host

/-- A finish without what was noted about its run. -/
def Finish.unobserved {σ : Type} (finish : Finish (σ × List Outcome)) : Finish σ :=
  ⟨finish.ending, finish.host.1, finish.cpu⟩

@[simp]
theorem Finish.unobserved_ending {σ : Type} (finish : Finish (σ × List Outcome)) :
    finish.unobserved.ending = finish.ending := rfl

namespace Cpu

variable {σ : Type} {host : Host σ}

/-- Noting outcomes changes nothing about a run. -/
theorem unobserved_runFor (fuel : Nat) (state : σ) (noted : List Outcome) (cpu : Cpu) :
    (runFor host.observing fuel (state, noted) cpu).unobserved = runFor host fuel state cpu := by
  induction fuel generalizing state noted cpu with
  | zero => rfl
  | succ fuel ih =>
      have hobserved : host.observing.ends (state, noted) cpu = host.ends state cpu := rfl
      have hturn : host.observing.act (state, noted) cpu =
          (((host.act state cpu).1, (host.act state cpu).2.step.1 :: noted),
            (host.act state cpu).2) := rfl
      cases hends : host.ends state cpu with
      | some ending => simp only [runFor, hobserved, hends, Finish.unobserved]
      | none =>
          simp only [runFor, hobserved, hends, hturn]
          split
          · rcases hstep : (host.act state cpu).2.step with ⟨outcome, next⟩
            cases outcome with
            | continued => exact ih _ _ _
            | halted => rfl
            | failed fault => rfl
          · rfl

/-- A run that is broken off after `count` rounds.  If it is still going on there, its
machine is written as a snapshot, with some bytes behind it, and the run goes on with
what is read from there. -/
def runRestored (host : Host σ) (rest : List UInt8) (count fuel : Nat) (state : σ)
    (cpu : Cpu) : Except SnapshotError (Finish σ) :=
  let before := runFor host count state cpu
  if before.ending = .unfinished then
    (Snapshot.decode (Snapshot.encode before.cpu ++ rest)).map fun restored =>
      runFor host fuel before.host restored
  else .ok before

theorem runRestored_eq_runFor (hkeeps : host.KeepsCells) (rest : List UInt8) (count fuel : Nat)
    (state : σ) {cpu : Cpu} (hfull : cpu.memory.size = Memory.addressCount) :
    runRestored host rest count fuel state cpu = .ok (runFor host (count + fuel) state cpu) := by
  have hsize : (runFor host count state cpu).cpu.memory.size < 2 ^ 64 := by
    rw [size_runFor hkeeps count state hfull]
    decide
  rw [runFor_split]
  simp only [runRestored]
  split
  · rw [Snapshot.decode_encode_append hsize, Except.map]
  · rfl

/-- A machine is read back from its snapshot, whatever its memory and whatever follows,
and a run that goes on with what was read has the outcomes, the end and the machine of
the run that was not broken off. -/
theorem snapshot_resumes_run :
    (∀ (cpu : Cpu) (rest : List UInt8), cpu.memory.size < 2 ^ 64 →
      Snapshot.decode (Snapshot.encode cpu ++ rest) = .ok cpu) ∧
    ∀ (σ : Type) (host : Host σ), host.KeepsCells →
      ∀ cpu : Cpu, cpu.memory.size = Memory.addressCount → ∀ rest count fuel state noted,
        runRestored host.observing rest count fuel (state, noted) cpu =
            .ok (runFor host.observing (count + fuel) (state, noted) cpu) ∧
          (runFor host.observing (count + fuel) (state, noted) cpu).unobserved =
            runFor host (count + fuel) state cpu := by
  refine ⟨fun cpu rest hsize => Snapshot.decode_encode_append hsize rest, ?_⟩
  intro σ host hkeeps cpu hfull rest count fuel state noted
  exact ⟨runRestored_eq_runFor hkeeps.observing rest count fuel (state, noted) hfull,
    unobserved_runFor (count + fuel) state noted cpu⟩

/-- A stopped machine with two hundred cells, whose length takes two bytes and its counter
three; and a break that a new machine comes to with its second step. -/
theorem snapshot_resumes_run_to_break :
    Snapshot.decode
        (Snapshot.encode ⟨1, 2, 3, 4, 0x8000, .ofByte 0xFF, true, ⟨Array.replicate 200 7⟩⟩ ++
          [0x80]) =
      .ok ⟨1, 2, 3, 4, 0x8000, .ofByte 0xFF, true, ⟨Array.replicate 200 7⟩⟩ ∧
    (holding [0xEA, 0x00]).memory.size = Memory.addressCount ∧
    ∃ finish, runRestored idleHost.observing [0x80] 1 1 ((), []) (holding [0xEA, 0x00]) =
        .ok finish ∧
      finish.unobserved = runFor idleHost 2 () (holding [0xEA, 0x00]) ∧
      finish.ending = .halted := by
  have hfull := size_holding [0xEA, 0x00] (by decide)
  have hread := read_holding [0xEA, 0x00] (by decide)
  have hdecode : Opcode.decode ((holding [0xEA, 0x00]).read (holding [0xEA, 0x00]).pc) =
      some ⟨0xEA, "NOP", 1, 2, .implied, .implied .idle⟩ := by
    rw [read, hread, pc_holding]
    rfl
  have hfirst : (holding [0xEA, 0x00]).GoesOn := by
    rw [GoesOn, code, hdecode, read, hread, pc_holding]
    decide
  have hstep : (holding [0xEA, 0x00]).step.2 = (holding [0xEA, 0x00]).fetched := by
    rw [step_of_decode hdecode, advance_one, carryOut_implied rfl]
    rfl
  have hsecond : (idleHost.turn ((), holding [0xEA, 0x00]) 1).2.code = 0x00 := by
    have hturn : ∀ cpu : Cpu, (idleHost.turn ((), cpu) 1).2 = cpu.step.2 := fun _ => rfl
    rw [hturn, hstep, code, read, fetched, hread, pc_holding]
    rfl
  obtain ⟨hrestored, hruns⟩ := snapshot_resumes_run
  have hresumed := hruns Unit idleHost Host.keepsCells_idleHost _ hfull [0x80] 1 1 () []
  refine ⟨hrestored _ _ ?_, hfull, _, hresumed.1, hresumed.2, ?_⟩
  · simp [Memory.size]
  · have hreaches : idleHost.Reaches ((), holding [0xEA, 0x00]) 1 := by
      intro earlier hearlier
      obtain rfl : earlier = 0 := Nat.lt_one_iff.mp hearlier
      exact hfirst
    have hstopped := runFor_of_stop (fun _ _ => rfl) Nat.one_lt_two
      (Host.keepsCells_idleHost.turn hfull) hreaches fun hgo => hgo.2 hsecond
    rw [← Finish.unobserved_ending, hresumed.2, hstopped, step_of_break hsecond]
    rfl

end Cpu

end Machine6502
