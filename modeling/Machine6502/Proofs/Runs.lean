import Mathlib.Logic.Function.Iterate
import Machine6502.Run
import Machine6502.Proofs.Outcome

/-!
# Runs in rounds

A run goes in rounds of a turn of the host and a step.  What a turn and a step keep, a
run keeps; a run can be taken in two parts; and under a host that never ends it, a run
ends in the first round whose step does not go on.
-/

namespace Machine6502

/-- The ending of a run that a step gives it, when the step does not go on. -/
def Outcome.ending : Outcome → Ending
  | .continued => .unfinished
  | .halted => .halted
  | .failed fault => .failed fault

namespace Host

variable {σ : Type}

/-- The host that has a turn before every step and ends no run. -/
def ofCallback (callback : σ → Cpu → σ × Cpu) : Host σ where
  ends _ _ := none
  act := callback

/-- A machine with exactly one cell for each address comes back from the host as one. -/
def KeepsCells (host : Host σ) : Prop :=
  ∀ state cpu, cpu.memory.size = Memory.addressCount →
    (host.act state cpu).2.memory.size = Memory.addressCount

theorem keepsCells_idleHost : Cpu.idleHost.KeepsCells :=
  fun _ _ hfull => hfull

/-- A round of a run that goes on: a turn of the host and a step. -/
def round (host : Host σ) (moment : σ × Cpu) : σ × Cpu :=
  let turn := host.act moment.1 moment.2
  (turn.1, turn.2.step.2)

/-- The host and the machine in the round with a number, the first being 0, between
the turn of the host and the step. -/
def turn (host : Host σ) (start : σ × Cpu) (number : Nat) : σ × Cpu :=
  let moment := host.round^[number] start
  host.act moment.1 moment.2

theorem turn_succ (host : Host σ) (start : σ × Cpu) (number : Nat) :
    host.turn start (number + 1) = host.turn (host.round start) number := by
  rw [turn, Function.iterate_succ_apply, turn]

/-- The steps of all rounds before the one with a number go on. -/
def Reaches (host : Host σ) (start : σ × Cpu) (number : Nat) : Prop :=
  ∀ earlier < number, (host.turn start earlier).2.GoesOn

variable {host : Host σ}

theorem KeepsCells.round (hkeeps : host.KeepsCells) {moment : σ × Cpu}
    (hfull : moment.2.memory.size = Memory.addressCount) :
    (host.round moment).2.memory.size = Memory.addressCount := by
  rw [Host.round, Cpu.size_step]
  exact hkeeps moment.1 moment.2 hfull

theorem KeepsCells.turn (hkeeps : host.KeepsCells) {start : σ × Cpu}
    (hfull : start.2.memory.size = Memory.addressCount) (number : Nat) :
    (host.turn start number).2.memory.size = Memory.addressCount := by
  induction number generalizing start with
  | zero => exact hkeeps start.1 start.2 hfull
  | succ number ih =>
      rw [turn_succ]
      exact ih (hkeeps.round hfull)

end Host

namespace Cpu

variable {σ : Type} {host : Host σ}

/-- A run of two bounds together is a run of the one, and of the other from where it
stands if it is still going on there. -/
theorem runFor_split (fuel more : Nat) (state : σ) (cpu : Cpu) :
    runFor host (fuel + more) state cpu =
      let before := runFor host fuel state cpu
      if before.ending = .unfinished then runFor host more before.host before.cpu
      else before := by
  induction fuel generalizing state cpu with
  | zero => simp [runFor]
  | succ fuel ih =>
      rw [Nat.succ_add]
      cases hends : host.ends state cpu with
      | some ending =>
          -- A host that calls the run unfinished does so again in the second part.
          cases more <;> simp +contextual [runFor, hends]
      | none =>
          by_cases hfits : (host.act state cpu).2.stepFits
          · rcases hstep : (host.act state cpu).2.step with ⟨outcome, next⟩
            cases outcome with
            | continued =>
                simp only [runFor, hends, hfits, hstep, if_true]
                exact ih _ _
            | halted => simp [runFor, hends, hfits, hstep]
            | failed fault => simp [runFor, hends, hfits, hstep]
          · simp [runFor, hends, hfits]

theorem stepFits_of_full {cpu : Cpu} (hfull : Memory.addressCount ≤ cpu.memory.size) :
    cpu.stepFits = true := by
  simp [stepFits, hfull]

section Invariant

variable {invariant : σ → Cpu → Prop}

/-- What a turn of the host and a step keep, a run keeps.  A run that ends for want of a
cell lacks it in a state that keeps all this. -/
theorem runFor_invariant
    (hturn : ∀ state cpu, invariant state cpu → host.ends state cpu = none →
      invariant (host.act state cpu).1 (host.act state cpu).2)
    (hstep : ∀ state cpu, invariant state cpu → invariant state cpu.step.2)
    (fuel : Nat) {state : σ} {cpu : Cpu} (hstart : invariant state cpu) :
    invariant (runFor host fuel state cpu).host (runFor host fuel state cpu).cpu ∧
      ((runFor host fuel state cpu).ending = .outOfRange →
        ∃ state cpu, invariant state cpu ∧
          (host.ends state cpu = some .outOfRange ∨ cpu.memory.size < Memory.addressCount)) := by
  induction fuel generalizing state cpu with
  | zero => exact ⟨hstart, by simp [runFor]⟩
  | succ fuel ih =>
      cases hends : host.ends state cpu with
      | some ending =>
          simp only [runFor, hends]
          refine ⟨hstart, fun hout => ⟨state, cpu, hstart, .inl ?_⟩⟩
          rw [hends, hout]
      | none =>
          have hturned := hturn state cpu hstart hends
          by_cases hfits : (host.act state cpu).2.stepFits
          · have hstepped := hstep _ _ hturned
            rcases hresult : (host.act state cpu).2.step with ⟨outcome, next⟩
            rw [hresult] at hstepped
            cases outcome with
            | continued =>
                simp only [runFor, hends, hfits, hresult, if_true]
                exact ih hstepped
            | halted =>
                simp only [runFor, hends, hfits, hresult, if_true]
                exact ⟨hstepped, by simp⟩
            | failed fault =>
                simp only [runFor, hends, hfits, hresult, if_true]
                exact ⟨hstepped, by simp⟩
          · simp only [runFor, hends, hfits]
            refine ⟨hturned, fun _ => ⟨_, _, hturned, .inr ?_⟩⟩
            by_contra hfull
            exact hfits (stepFits_of_full (Nat.le_of_not_lt hfull))

/-- A run under a host that keeps all cells keeps them. -/
theorem size_runFor (hkeeps : host.KeepsCells) (fuel : Nat) (state : σ) {cpu : Cpu}
    (hfull : cpu.memory.size = Memory.addressCount) :
    (runFor host fuel state cpu).cpu.memory.size = Memory.addressCount := by
  have hturn : ∀ state cpu, cpu.memory.size = Memory.addressCount →
      host.ends state cpu = none → (host.act state cpu).2.memory.size = Memory.addressCount :=
    fun state cpu hcells _ => hkeeps state cpu hcells
  have hstep : ∀ (_ : σ) (cpu : Cpu), cpu.memory.size = Memory.addressCount →
      cpu.step.2.memory.size = Memory.addressCount :=
    fun _ cpu hcells => (size_step cpu).trans hcells
  exact (runFor_invariant hturn hstep fuel hfull).1

end Invariant

/-- A list of steps leaves the machine that a run of as many rounds leaves. -/
theorem cpu_of_stepsFrom {listed list : List (Outcome × Registers)} {count : Nat}
    {cpu last : Cpu} (hlist : stepsFrom listed count cpu = some (list, last)) :
    last = (runFor idleHost count () cpu).cpu := by
  induction count generalizing listed cpu with
  | zero => exact (Prod.mk.inj (Option.some.inj hlist)).2.symm
  | succ count ih =>
      rcases hresult : cpu.step with ⟨outcome, next⟩
      by_cases hfits : cpu.stepFits
      · simp only [stepsFrom, step?, hfits, hresult, if_true] at hlist
        simp only [runFor, idleHost, hfits, hresult, if_true]
        cases outcome with
        | continued => exact ih hlist
        | halted => exact (Prod.mk.inj (Option.some.inj hlist)).2.symm
        | failed fault => exact (Prod.mk.inj (Option.some.inj hlist)).2.symm
      · simp [stepsFrom, step?, hfits] at hlist

section Rounds

variable (hends : ∀ state cpu, host.ends state cpu = none)

include hends

/-- A round of a run that the host does not end is a turn, a step, and what follows from
the outcome of the step. -/
theorem runFor_succ (fuel : Nat) {moment : σ × Cpu}
    (hfull : (host.turn moment 0).2.memory.size = Memory.addressCount) :
    runFor host (fuel + 1) moment.1 moment.2 =
      if (host.turn moment 0).2.step.1 = .continued then
        runFor host fuel (host.round moment).1 (host.round moment).2
      else ⟨(host.turn moment 0).2.step.1.ending, (host.turn moment 0).1,
        (host.turn moment 0).2.step.2⟩ := by
  have hturn : host.turn moment 0 = host.act moment.1 moment.2 := rfl
  rw [hturn] at hfull
  have hfits : (host.act moment.1 moment.2).2.stepFits = true :=
    stepFits_of_full (Nat.le_of_eq hfull.symm)
  simp only [runFor, hends, hfits, if_true, hturn, Host.round]
  rcases hstep : (host.act moment.1 moment.2).2.step with ⟨outcome, next⟩
  cases outcome <;> simp [Outcome.ending]

/-- As long as the steps go on, a run goes from round to round. -/
theorem runFor_of_reaches (fuel : Nat) {number : Nat} {start : σ × Cpu}
    (hfull : ∀ earlier, (host.turn start earlier).2.memory.size = Memory.addressCount)
    (hreaches : host.Reaches start number) :
    runFor host (number + fuel) start.1 start.2 =
      runFor host fuel (host.round^[number] start).1 (host.round^[number] start).2 := by
  induction number generalizing start with
  | zero => rw [Nat.zero_add, Function.iterate_zero, id]
  | succ number ih =>
      have hfirst := hreaches 0 (Nat.succ_pos number)
      have hlater := @ih (host.round start)
        (fun earlier => host.turn_succ start earlier ▸ hfull (earlier + 1))
        (fun earlier hlt => host.turn_succ start earlier ▸ hreaches _ (Nat.succ_lt_succ hlt))
      rw [Nat.succ_add, runFor_succ hends _ (hfull 0), if_pos (step_of_goesOn hfirst).1, hlater,
        Function.iterate_succ_apply]

/-- A run ends in the first round whose step does not go on. -/
theorem runFor_of_stop {fuel number : Nat} (hbound : number < fuel) {start : σ × Cpu}
    (hfull : ∀ earlier, (host.turn start earlier).2.memory.size = Memory.addressCount)
    (hreaches : host.Reaches start number) (hstop : ¬(host.turn start number).2.GoesOn) :
    runFor host fuel start.1 start.2 =
      ⟨(host.turn start number).2.step.1.ending, (host.turn start number).1,
        (host.turn start number).2.step.2⟩ := by
  obtain ⟨more, rfl⟩ := Nat.exists_eq_add_of_lt hbound
  have houtcome : (host.turn start number).2.step.1 ≠ .continued :=
    mt (outcomeLaw_step _).continued_iff.mp hstop
  have hlast : host.turn (host.round^[number] start) 0 = host.turn start number := rfl
  rw [Nat.add_assoc, runFor_of_reaches hends _ hfull hreaches,
    runFor_succ hends more (hlast ▸ hfull number), hlast, if_neg houtcome]

end Rounds

/-- Either a run reaches a round, or it reaches an earlier one whose step does not go
on. -/
theorem reaches_or_stops (host : Host σ) (start : σ × Cpu) (fuel : Nat) :
    host.Reaches start fuel ∨
      ∃ number < fuel, host.Reaches start number ∧ ¬(host.turn start number).2.GoesOn := by
  induction fuel with
  | zero => exact .inl fun number hlt => absurd hlt (Nat.not_lt_zero number)
  | succ fuel ih =>
      rcases ih with hreaches | ⟨number, hlt, hreaches, hstop⟩
      · by_cases hgo : (host.turn start fuel).2.GoesOn
        · left
          intro number hlt
          rcases Nat.lt_succ_iff_lt_or_eq.mp hlt with hbefore | rfl
          · exact hreaches number hbefore
          · exact hgo
        · exact .inr ⟨fuel, Nat.lt_succ_self fuel, hreaches, hgo⟩
      · exact .inr ⟨number, Nat.lt_succ_of_lt hlt, hreaches, hstop⟩

end Cpu

end Machine6502
