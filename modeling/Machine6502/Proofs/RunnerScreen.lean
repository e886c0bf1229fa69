import Machine6502.Runner
import Machine6502.Proofs.Endings

/-!
# The runner's screen

The runner shows the picture that a step leaves before it takes the next one, and once
more after the last.  Whatever the program does to its frame buffer and to the cells of
key and random byte, the screen ends as the picture in the final memory, and a drawing is
requested exactly when a picture has differed from the one before.
-/

namespace Machine6502

/-- The colours of the frame buffer, cell by cell. -/
def Memory.palette (memory : Memory) : List Color :=
  (memory.readAll Screen.base 1024).map Color.ofCell

theorem Screen.toList_ofMemory (memory : Memory) :
    (Screen.ofMemory memory).pixels.toList = memory.palette := by
  apply List.ext_getElem
  · simp [Screen.ofMemory, Memory.palette, Memory.readAll, Memory.range]
  · intro index hscreen hpalette
    simp [Screen.ofMemory, Memory.palette, Memory.readAll, Memory.range]

theorem Screen.eq_ofMemory_iff {screen : Screen} {memory : Memory} :
    screen = .ofMemory memory ↔ screen.pixels.toList = memory.palette := by
  obtain ⟨pixels⟩ := screen
  rw [← Screen.toList_ofMemory, Vector.toList_inj, Screen.ofMemory, Screen.mk.injEq]

theorem Screen.toList_blank : Screen.blank.pixels.toList = List.replicate 1024 Color.black :=
  Vector.toList_replicate

namespace Shared

variable (shared : Shared) (memory : Memory)

theorem refresh_eq : shared.refresh memory =
    ⟨.ofMemory memory, shared.redraw || decide (shared.screen ≠ .ofMemory memory),
      shared.waiting⟩ := by
  simp only [refresh, showPicture, Screen.update, requestRedraw]
  by_cases hchanged : shared.screen = .ofMemory memory <;> simp [hchanged]

theorem toList_refresh : (shared.refresh memory).screen.pixels.toList = memory.palette := by
  rw [refresh_eq, Screen.toList_ofMemory]

theorem redraw_refresh_iff : (shared.refresh memory).redraw = true ↔
    shared.redraw = true ∨ memory.palette ≠ shared.screen.pixels.toList := by
  rw [refresh_eq, Bool.or_eq_true, decide_eq_true_eq, ne_eq, Screen.eq_ofMemory_iff, ne_comm]

theorem waiting_refresh (hwaiting : shared.waiting = none) :
    (shared.refresh memory).waiting = none := by
  rw [refresh_eq, hwaiting]

end Shared

namespace Runner

theorem size_provide (waiting : Option Direction) (byte : UInt8) (cpu : Cpu) :
    (provide waiting byte cpu).memory.size = cpu.memory.size := by
  rw [provide, Cpu.write, Memory.size_write]
  cases waiting with
  | none => rfl
  | some direction => exact Cpu.size_press cpu direction

theorem randomCell_provide {cpu : Cpu} (hfull : cpu.memory.size = Memory.addressCount)
    (waiting : Option Direction) (byte : UInt8) :
    (provide waiting byte cpu).read randomCell = byte := by
  rw [provide, Cpu.read, Cpu.write, Memory.read_write_eq_update, Function.update_self]
  cases waiting with
  | none => exact hfull
  | some direction => exact (Cpu.size_press cpu direction).trans hfull

/-- A direction that waits is put into its cell, and without one the cell is left alone. -/
theorem directionCell_provide {cpu : Cpu} (hfull : cpu.memory.size = Memory.addressCount)
    (waiting : Option Direction) (byte : UInt8) :
    (provide waiting byte cpu).read Direction.cell =
      waiting.elim (cpu.read Direction.cell) Direction.code := by
  have hother : Direction.cell ≠ randomCell := by decide
  cases waiting with
  | none =>
      simp only [provide, Option.elim_none, Cpu.read, Cpu.write]
      rw [Memory.read_write_eq_update hfull, Function.update_of_ne hother]
  | some direction =>
      simp only [provide, Option.elim_some, Cpu.read, Cpu.write]
      rw [Memory.read_write_eq_update ((Cpu.size_press cpu direction).trans hfull),
        Function.update_of_ne hother, Direction.press, Cpu.write,
        Memory.read_write_eq_update hfull, Function.update_self]

theorem keepsCells_host (random : Nat → UInt8) : (host random).KeepsCells :=
  fun _ cpu hfull => (size_provide _ _ cpu).trans hfull

/-- A runner and its machine before the first step: a black screen that is drawn, and
maybe a direction. -/
def start (waiting : Option Direction) (cpu : Cpu) : State × Cpu :=
  (⟨⟨.blank, false, waiting⟩, 0⟩, cpu)

theorem ending_runWithin (random : Nat → UInt8) (fuel : Nat) (waiting : Option Direction)
    (cpu : Cpu) : (runWithin random fuel ⟨.blank, false, waiting⟩ cpu).ending =
      (Cpu.runFor (host random) fuel (start waiting cpu).1 (start waiting cpu).2).ending :=
  rfl

section Turns

variable (random : Nat → UInt8) (waiting : Option Direction) (cpu : Cpu)

/-- The picture after a number of steps; before the first it is black. -/
def picture : Nat → List Color
  | 0 => List.replicate 1024 .black
  | steps + 1 => ((host random).round^[steps + 1] (start waiting cpu)).2.memory.palette

/-- The machine as a step finds it, after the runner's turn. -/
def before (number : Nat) : Cpu :=
  ((host random).turn (start waiting cpu) number).2

/-- The machine as a step leaves it. -/
def after (number : Nat) : Cpu :=
  (before random waiting cpu number).step.2

theorem round_succ (number : Nat) :
    (host random).round^[number + 1] (start waiting cpu) =
      (((host random).turn (start waiting cpu) number).1, after random waiting cpu number) := by
  rw [Function.iterate_succ_apply']
  rfl

/-- The first turn shows no picture and hands over the direction. -/
theorem turn_zero : (host random).turn (start waiting cpu) 0 =
    (⟨⟨.blank, false, none⟩, 1⟩, provide waiting (random 0) cpu) :=
  rfl

theorem before_zero : before random waiting cpu 0 = provide waiting (random 0) cpu := by
  rw [before, turn_zero]

/-- What the runner knows after its turn before a step. -/
structure Aware (number : Nat) (state : State) : Prop where
  steps : state.steps = number + 1
  taken : state.shared.waiting = none
  screen : state.shared.screen.pixels.toList = picture random waiting cpu number
  redraw_iff : state.shared.redraw = true ↔
    ∃ earlier < number,
      picture random waiting cpu (earlier + 1) ≠ picture random waiting cpu earlier

/-- A picture that is shown on the one before keeps account of all changes so far. -/
theorem Aware.redraw_refresh {number : Nat} {state : State}
    (h : Aware random waiting cpu number state) :
    (state.shared.refresh (after random waiting cpu number).memory).redraw = true ↔
      ∃ earlier < number + 1,
        picture random waiting cpu (earlier + 1) ≠ picture random waiting cpu earlier := by
  have hpicture : picture random waiting cpu (number + 1) =
      (after random waiting cpu number).memory.palette := by
    rw [picture, round_succ]
  rw [Shared.redraw_refresh_iff, h.redraw_iff, h.screen, ← hpicture]
  constructor
  · rintro (⟨earlier, hearlier, hchanged⟩ | hchanged)
    · exact ⟨earlier, Nat.lt_succ_of_lt hearlier, hchanged⟩
    · exact ⟨number, Nat.lt_succ_self number, hchanged⟩
  · rintro ⟨earlier, hearlier, hchanged⟩
    rcases Nat.lt_succ_iff_lt_or_eq.mp hearlier with hbefore | rfl
    · exact .inl ⟨earlier, hbefore, hchanged⟩
    · exact .inr hchanged

theorem beforeStep_of_pos {state : State} (hsteps : state.steps ≠ 0)
    (hwaiting : state.shared.waiting = none) (byte : UInt8) (cpu : Cpu) :
    beforeStep byte state cpu =
      (⟨state.shared.refresh cpu.memory, state.steps + 1⟩, cpu.write randomCell byte) := by
  simp only [beforeStep, if_neg hsteps, Shared.take, Shared.refresh_eq, hwaiting, provide,
    Option.elim_none]

/-- A later turn shows the picture and provides a random byte. -/
theorem Aware.turn {number : Nat}
    (h : Aware random waiting cpu number ((host random).turn (start waiting cpu) number).1) :
    (host random).turn (start waiting cpu) (number + 1) =
      (⟨((host random).turn (start waiting cpu) number).1.shared.refresh
          (after random waiting cpu number).memory, number + 1 + 1⟩,
        (after random waiting cpu number).write randomCell (random (number + 1))) := by
  have hsteps : ((host random).turn (start waiting cpu) number).1.steps ≠ 0 := by
    rw [h.steps]
    exact Nat.succ_ne_zero number
  have hturn := beforeStep_of_pos hsteps h.taken
    (random ((host random).turn (start waiting cpu) number).1.steps)
    (after random waiting cpu number)
  rw [Host.turn, round_succ, ← h.steps]
  exact hturn

theorem aware_turn (number : Nat) :
    Aware random waiting cpu number ((host random).turn (start waiting cpu) number).1 := by
  induction number with
  | zero =>
      rw [turn_zero]
      refine ⟨rfl, rfl, ?_, by simp⟩
      rw [picture]
      exact Screen.toList_blank
  | succ number ih =>
      rw [ih.turn]
      refine ⟨rfl, Shared.waiting_refresh _ _ ih.taken, ?_, ih.redraw_refresh⟩
      rw [Shared.toList_refresh, picture, round_succ]

/-- After the first turn, the runner writes nothing but a random byte. -/
theorem before_succ (number : Nat) : before random waiting cpu (number + 1) =
    (after random waiting cpu number).write randomCell (random (number + 1)) := by
  rw [before, (aware_turn random waiting cpu number).turn]

variable {random waiting cpu}

theorem randomCell_before (hfull : cpu.memory.size = Memory.addressCount) (number : Nat) :
    (before random waiting cpu number).read randomCell = random number := by
  cases number with
  | zero => rw [before_zero, randomCell_provide hfull]
  | succ number =>
      have hafter : (after random waiting cpu number).memory.size = Memory.addressCount :=
        (Cpu.size_step _).trans ((keepsCells_host random).turn hfull number)
      rw [before_succ, Cpu.read, Cpu.write, Memory.read_write_eq_update hafter,
        Function.update_self]

/-- The direction is in its cell when the first step begins. -/
theorem directionCell_before (hfull : cpu.memory.size = Memory.addressCount)
    (direction : Direction) :
    (before random (some direction) cpu 0).read Direction.cell = direction.code := by
  rw [before_zero, directionCell_provide hfull, Option.elim_some]

theorem picture_eq_black {last : Nat}
    (hsame : ¬∃ number ≤ last,
      picture random waiting cpu (number + 1) ≠ picture random waiting cpu number) :
    picture random waiting cpu (last + 1) = List.replicate 1024 .black := by
  have hstep : ∀ number ≤ last,
      picture random waiting cpu (number + 1) = picture random waiting cpu number := by
    simpa only [not_exists, not_and, ne_eq, not_not] using hsame
  induction last with
  | zero => exact hstep 0 (Nat.le_refl 0)
  | succ last ih =>
      have hearlier := fun number hle => hstep number (Nat.le_succ_of_le hle)
      rw [hstep _ (Nat.le_refl _)]
      exact ih (by simpa using hearlier) hearlier

end Turns

/-- What a run that a step has ended says about the screen and the cells of key and random
byte. -/
structure InStep (random : Nat → UInt8) (waiting : Option Direction) (cpu : Cpu) (last : Nat)
    (finish : Finish State) : Prop where
  reaches : (host random).Reaches (start waiting cpu) last
  stops : ¬(before random waiting cpu last).GoesOn
  ended : finish.ending = .halted ∨ ∃ fault, finish.ending = .failed fault
  cpu_eq : finish.cpu = after random waiting cpu last
  screen : finish.host.shared.screen.bytes =
    (finish.cpu.memory.readAll 0x0200 1024).flatMap fun cell => (Color.ofCell cell).bytes
  /-- The last step counts too, whether it halted or failed. -/
  redraw_iff : finish.host.shared.redraw = true ↔ ∃ number ≤ last,
    picture random waiting cpu (number + 1) ≠ picture random waiting cpu number
  black : finish.host.shared.redraw = false →
    finish.cpu.memory.palette = List.replicate 1024 .black
  taken : finish.host.shared.waiting = none
  pressed : ∀ direction ∈ waiting,
    (before random waiting cpu 0).read Direction.cell = direction.code
  /-- No later turn of the runner writes the cell of the key. -/
  later : ∀ number < last, before random waiting cpu (number + 1) =
    (after random waiting cpu number).write randomCell (random (number + 1))
  provided : ∀ number ≤ last,
    1 ≤ (before random waiting cpu number).read randomCell ∧
      (before random waiting cpu number).read randomCell < 16

/-- A run on a black screen that is ended by a step leaves the screen in step with
memory, however long it was. -/
theorem inStep_of_ended {random : Nat → UInt8} (hrandom : ∀ number, 1 ≤ random number ∧
    random number < 16) {cpu : Cpu} (hfull : cpu.memory.size = Memory.addressCount)
    (waiting : Option Direction) (fuel : Nat)
    (hended : (runWithin random fuel ⟨.blank, false, waiting⟩ cpu).ending ≠ .unfinished) :
    ∃ last < fuel, InStep random waiting cpu last
      (runWithin random fuel ⟨.blank, false, waiting⟩ cpu) := by
  have hends : ∀ state cpu, (host random).ends state cpu = none := fun _ _ => rfl
  have hturns : ∀ number, (before random waiting cpu number).memory.size = Memory.addressCount :=
    (keepsCells_host random).turn hfull
  have hlaw : EndingLaw (host random) (start waiting cpu) fuel _ :=
    Cpu.endingLaw_runFor hends hturns fuel
  rcases Cpu.reaches_or_stops (host random) (start waiting cpu) fuel with
    hreaches | ⟨last, hlast, hreaches, hstop⟩
  · exact absurd (hlaw.unfinished_iff.mpr hreaches) hended
  have haware := aware_turn random waiting cpu last
  have hpicture : picture random waiting cpu (last + 1) =
      (after random waiting cpu last).memory.palette := by
    rw [picture, round_succ]
  have hrun : runWithin random fuel ⟨.blank, false, waiting⟩ cpu =
      ⟨(before random waiting cpu last).step.1.ending,
        { ((host random).turn (start waiting cpu) last).1 with
          shared := ((host random).turn (start waiting cpu) last).1.shared.refresh
            (after random waiting cpu last).memory },
        after random waiting cpu last⟩ := by
    have hfinish := Cpu.runFor_of_stop hends hlast hturns hreaches hstop
    simp only [start] at hfinish
    simp only [runWithin, hfinish]
    rfl
  have hredraw : (runWithin random fuel ⟨.blank, false, waiting⟩ cpu).host.shared.redraw = true ↔
      ∃ number ≤ last,
        picture random waiting cpu (number + 1) ≠ picture random waiting cpu number := by
    rw [hrun]
    simpa only [Nat.lt_succ_iff] using haware.redraw_refresh
  refine ⟨last, hlast, hreaches, hstop, ?_, congrArg Finish.cpu hrun, ?_, hredraw, fun hclear => ?_,
    ?_, ?_, fun number _ => before_succ random waiting cpu number, fun number _ => ?_⟩
  · have hexhaustive := hlaw.exhaustive
    rcases hexhaustive with hhalted | hfailed | hunfinished
    · exact .inl hhalted
    · exact .inr hfailed
    · exact absurd hunfinished hended
  · rw [hrun, Screen.bytes, Shared.toList_refresh, Memory.palette, List.flatMap_map]
    rfl
  · rw [hrun, ← hpicture]
    exact picture_eq_black (mt hredraw.mpr (by simp [hclear]))
  · rw [hrun]
    exact Shared.waiting_refresh _ _ haware.taken
  · rintro direction ⟨⟩
    exact directionCell_before hfull direction
  · rw [randomCell_before hfull]
    exact hrandom number

/-- A break at once, with a white cell in the frame buffer and a direction waiting. -/
theorem inStep_of_ended_at_break :
    (Cpu.initial.write Screen.base 1).memory.size = Memory.addressCount ∧
      (runWithin (fun _ => 5) 3 ⟨.blank, false, some .left⟩
        (Cpu.initial.write Screen.base 1)).ending ≠ .unfinished ∧
      ∃ last < 3, InStep (fun _ => 5) (some .left) (Cpu.initial.write Screen.base 1) last
        (runWithin (fun _ => 5) 3 ⟨.blank, false, some .left⟩
          (Cpu.initial.write Screen.base 1)) := by
  have hblank : Cpu.initial.memory.size = Memory.addressCount := Memory.size_blank
  have hfull : (Cpu.initial.write Screen.base 1).memory.size = Memory.addressCount :=
    (Memory.size_write _ _ _).trans hblank
  have hpressed : (Direction.left.press (Cpu.initial.write Screen.base 1)).memory.size =
      Memory.addressCount := (Memory.size_write _ _ _).trans hfull
  have hcode : (before (fun _ => 5) (some .left) (Cpu.initial.write Screen.base 1) 0).code =
      0x00 := by
    rw [before_zero]
    simp only [provide, Option.elim_some, Cpu.code, Cpu.read, Cpu.write, Direction.press] at *
    rw [Memory.read_write_eq_update hpressed, Memory.read_write_eq_update hfull,
      Memory.read_write_eq_update hblank, Function.update_of_ne (by decide),
      Function.update_of_ne (by decide), Function.update_of_ne (by decide)]
    exact Memory.read_blank _
  have hturns : ∀ number, (before (fun _ => 5) (some .left) (Cpu.initial.write Screen.base 1)
      number).memory.size = Memory.addressCount := (keepsCells_host fun _ => 5).turn hfull
  have hlaw : EndingLaw (host fun _ => 5) (start (some .left) (Cpu.initial.write Screen.base 1))
      3 _ := Cpu.endingLaw_runFor (fun _ _ => rfl) hturns 3
  have hended : (runWithin (fun _ => 5) 3 ⟨.blank, false, some .left⟩
      (Cpu.initial.write Screen.base 1)).ending ≠ .unfinished := by
    rw [ending_runWithin, hlaw.halted_iff.mpr ⟨0, by decide, ?_, hcode⟩]
    · simp
    · exact fun earlier hlt => absurd hlt (Nat.not_lt_zero earlier)
  have hrandom : (1 : UInt8) ≤ 5 ∧ (5 : UInt8) < 16 := ⟨by decide, by decide⟩
  exact ⟨hfull, hended, @inStep_of_ended _ (fun _ => hrandom) _ hfull (some .left) 3 hended⟩

end Runner

end Machine6502
