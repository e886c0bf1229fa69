import Machine6502.Footprint

/-!
# Runs

A run takes steps until a break, a fault or the host ends it.  Before every step
the host sees the machine and may change it.  A run is bounded by a number of
steps; one that is still going on then is unfinished.
-/

namespace Machine6502

inductive Ending where
  | halted
  | failed (fault : Fault)
  /-- The host ended the run before a step. -/
  | stopped
  /-- A cell was needed that the memory does not have. -/
  | outOfRange
  /-- The bound on the number of steps was reached. -/
  | unfinished
deriving DecidableEq, Repr

/-- What the host does before a step: it may end the run, and if it does not, it may
change the machine and its own state. -/
structure Host (σ : Type) where
  ends : σ → Cpu → Option Ending
  act : σ → Cpu → σ × Cpu

/-- How a run ended, and the host and the machine as it left them. -/
structure Finish (σ : Type) where
  ending : Ending
  host : σ
  cpu : Cpu

namespace Cpu

/-- Runs for a bounded number of steps under a host. -/
def runFor {σ : Type} (host : Host σ) : Nat → σ → Cpu → Finish σ
  | 0, state, cpu => ⟨.unfinished, state, cpu⟩
  | fuel + 1, state, cpu =>
      match host.ends state cpu with
      | some ending => ⟨ending, state, cpu⟩
      | none =>
          let turn := host.act state cpu
          if turn.2.stepFits then
            match turn.2.step with
            | (.continued, next) => runFor host fuel turn.1 next
            | (.halted, next) => ⟨.halted, turn.1, next⟩
            | (.failed fault, next) => ⟨.failed fault, turn.1, next⟩
          else ⟨.outOfRange, turn.1, turn.2⟩

/-- A bound that no run reaches in practice. -/
def stepBound : Nat := Nat.pow 2 62

def runWith {σ : Type} (host : Host σ) (state : σ) (cpu : Cpu) : Finish σ :=
  runFor host stepBound state cpu

def idleHost : Host Unit where
  ends _ _ := none
  act state cpu := (state, cpu)

def run (cpu : Cpu) : Finish Unit :=
  runWith idleHost () cpu

/-- Takes up to `count` more steps, stopping after a break or a fault, and lists
each outcome with the registers after it behind those already listed, the last one
first. -/
def stepsFrom (listed : List (Outcome × Registers)) :
    Nat → Cpu → Option (List (Outcome × Registers) × Cpu)
  | 0, cpu => some (listed, cpu)
  | count + 1, cpu =>
      match cpu.step? with
      | none => none
      | some (.continued, next) => stepsFrom ((.continued, next.registers) :: listed) count next
      | some (outcome, next) => some ((outcome, next.registers) :: listed, next)

/-- Takes up to `count` steps, stopping after a break or a fault, and lists each
outcome with the registers after it. -/
def steps? (count : Nat) (cpu : Cpu) : Option (List (Outcome × Registers) × Cpu) :=
  (stepsFrom [] count cpu).map fun (listed, last) => (listed.reverse, last)

end Cpu

end Machine6502
