import Machine6502.Proofs.Runs

/-!
# Two runs side by side

Two runs keep in step when each round of the one has a round of the other beside it: the
hosts end both or neither, and the two steps have one outcome.  Runs that keep in step end
alike, and what was kept from round to round holds of what they leave.
-/

namespace Machine6502

namespace Host

variable {σ τ : Type}

/-- What relates two moments of two runs, with a number of rounds left, still relates them
a round later, with no round left when the steps do not go on.  The rounds lack no cell
and have one outcome. -/
structure KeepInStep (first : Host σ) (second : Host τ)
    (related : Nat → σ × Cpu → τ × Cpu → Prop) : Prop where
  ends : ∀ {fuel moment other}, related (fuel + 1) moment other →
    first.ends moment.1 moment.2 = second.ends other.1 other.2
  fits : ∀ {fuel moment other}, related (fuel + 1) moment other →
    first.ends moment.1 moment.2 = none →
      (first.turn moment 0).2.stepFits = true ∧ (second.turn other 0).2.stepFits = true
  outcome : ∀ {fuel moment other}, related (fuel + 1) moment other →
    first.ends moment.1 moment.2 = none →
      (first.turn moment 0).2.step.1 = (second.turn other 0).2.step.1
  goesOn : ∀ {fuel moment other}, related (fuel + 1) moment other →
    first.ends moment.1 moment.2 = none → (first.turn moment 0).2.step.1 = .continued →
      related fuel (first.round moment) (second.round other)
  stops : ∀ {fuel moment other}, related (fuel + 1) moment other →
    first.ends moment.1 moment.2 = none → (first.turn moment 0).2.step.1 ≠ .continued →
      related 0 (first.round moment) (second.round other)

end Host

namespace Cpu

variable {σ τ : Type} {first : Host σ} {second : Host τ}
variable {related : Nat → σ × Cpu → τ × Cpu → Prop}

/-- Runs that keep in step end alike, and are related where they end. -/
theorem runFor_keepInStep (hstep : first.KeepInStep second related) (fuel : Nat)
    {moment : σ × Cpu} {other : τ × Cpu} (hstart : related fuel moment other) :
    (runFor first fuel moment.1 moment.2).ending = (runFor second fuel other.1 other.2).ending ∧
      ∃ left, related left
        ((runFor first fuel moment.1 moment.2).host, (runFor first fuel moment.1 moment.2).cpu)
        ((runFor second fuel other.1 other.2).host, (runFor second fuel other.1 other.2).cpu) := by
  induction fuel generalizing moment other with
  | zero => exact ⟨rfl, 0, hstart⟩
  | succ fuel ih =>
      have hends := hstep.ends hstart
      cases hfirst : first.ends moment.1 moment.2 with
      | some ending =>
          rw [hfirst] at hends
          simp only [runFor, hfirst, ← hends]
          exact ⟨trivial, fuel + 1, hstart⟩
      | none =>
          rw [hfirst] at hends
          obtain ⟨hfits, hfits'⟩ := hstep.fits hstart hfirst
          have houtcome := hstep.outcome hstart hfirst
          have hgoes := hstep.goesOn hstart hfirst
          have hstops := hstep.stops hstart hfirst
          simp only [Host.turn, Function.iterate_zero, id] at hfits hfits' houtcome
          simp only [Host.turn, Host.round, Function.iterate_zero, id] at hgoes hstops
          simp only [runFor, hfirst, ← hends, hfits, hfits', if_true]
          rcases hresult : (first.act moment.1 moment.2).2.step with ⟨outcome, next⟩
          rcases hresult' : (second.act other.1 other.2).2.step with ⟨outcome', next'⟩
          simp only [hresult, hresult'] at houtcome hgoes hstops
          subst houtcome
          cases outcome with
          | continued => exact ih (hgoes rfl)
          | halted => exact ⟨rfl, 0, hstops (by simp)⟩
          | failed fault => exact ⟨rfl, 0, hstops (by simp)⟩

end Cpu

end Machine6502
