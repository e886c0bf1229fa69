import Mathlib.Data.List.Basic
import Mathlib.Data.List.Induction
import Machine6502.Proofs.RunnerScreen

/-!
# Keys on their way to the machine

The keyboard leaves directions in a place for one, over what is still there, and the runner takes
them out before its steps.  The two, and the display beside them, go on at their own pace, so their
actions may come in any order.  However they come, the runner writes the direction that was stored
last, each one at most once and all in the order of their lines, and what is lost is lost to a
later key.
-/

namespace Machine6502

namespace Direction

/-- The letters that stand for a direction. -/
def letters : Direction → List Char
  | .up => ['w', 'W']
  | .down => ['s', 'S']
  | .left => ['a', 'A']
  | .right => ['d', 'D']

/-- The first letter of a line that stands for any direction stands for this one. -/
def FirstIn (direction : Direction) (line : String) : Prop :=
  ∃ before letter behind, line.toList = before ++ letter :: behind ∧
    letter ∈ direction.letters ∧ ∀ earlier ∈ before, ∀ other : Direction, earlier ∉ other.letters

theorem mem_letters_iff {letter : Char} {direction : Direction} :
    letter ∈ direction.letters ↔ letter.toLower = direction.key := by
  constructor
  · intro hletter
    cases direction <;>
      simp only [letters, List.mem_cons, List.not_mem_nil, or_false] at hletter <;>
      rcases hletter with rfl | rfl <;> rfl
  · intro hlower
    by_cases hcapital : letter.val ≥ 'A'.val ∧ letter.val ≤ 'Z'.val
    · have hsum : letter.toLower.val = letter.val + 32 := congrArg Char.val (dif_pos hcapital)
      have hletter : letter.val = direction.key.val - 32 := by
        rw [← hlower, hsum, UInt32.add_sub_cancel]
      cases direction <;> simp [letters, Char.ext_iff, hletter, key]
    · have hsame : letter.toLower = letter := dif_neg hcapital
      rw [hsame] at hlower
      cases direction <;> simp [letters, hlower, key]

theorem ofKey?_eq_some_iff {letter : Char} {direction : Direction} :
    ofKey? letter = some direction ↔ letter ∈ direction.letters := by
  rw [mem_letters_iff, ofKey?]
  split <;> cases direction <;> simp_all [key]

theorem ofKey?_eq_none_iff {letter : Char} :
    ofKey? letter = none ↔ ∀ direction : Direction, letter ∉ direction.letters := by
  simp only [Option.eq_none_iff_forall_ne_some, ne_eq, ofKey?_eq_some_iff]

theorem ofLine?_eq_some_iff {line : String} {direction : Direction} :
    ofLine? line = some direction ↔ direction.FirstIn line := by
  simp only [ofLine?, FirstIn, List.findSome?_eq_some_iff, ofKey?_eq_some_iff, ofKey?_eq_none_iff]

end Direction

namespace Keyboard

/-- An action of one of the tasks that no other task can come into the middle of. -/
inductive Action where
  /-- The keyboard reads a line. -/
  | readLine (line : String)
  /-- The runner shows the picture in its machine's memory. -/
  | showPicture
  /-- The runner notes that a picture waits to be drawn. -/
  | requestRedraw
  /-- The display takes the note. -/
  | takeRequest
  /-- The runner hands over the direction that waits, provides a random byte and takes a step.  It
  keeps the keyboard from the place until the direction is written. -/
  | turn (random : UInt8)

/-- What the tasks share, and the machine of the runner. -/
structure State where
  shared : Shared
  cpu : Cpu

namespace Action

def line? : Action → Option String
  | .readLine line => some line
  | _ => none

/-- The direction that an action stores. -/
def stored? (action : Action) : Option Direction :=
  action.line?.bind Direction.ofLine?

end Action

namespace State

/-- The machine as the step of a turn finds it. -/
def handed (state : State) (random : UInt8) : Cpu :=
  Runner.provide state.shared.take.1 random state.cpu

def after (state : State) : Action → State
  | .readLine line => { state with shared := state.shared.readLine line }
  | .showPicture => { state with shared := (state.shared.showPicture state.cpu.memory).2 }
  | .requestRedraw => { state with shared := state.shared.requestRedraw }
  | .takeRequest => { state with shared := state.shared.takeRequest.2 }
  | .turn random => ⟨state.shared.take.2, (state.handed random).step.2⟩

/-- The direction that an action writes. -/
def written? (state : State) : Action → Option Direction
  | .turn _ => state.shared.take.1
  | _ => none

end State

/-- The directions of the lines that have one, in the order in which they are read. -/
def typed (actions : List Action) : List Direction :=
  (actions.filterMap Action.line?).filterMap Direction.ofLine?

section Numbers

variable (start : State) (actions : List Action) (number : Nat)

/-- The state before the action with a number, the first being 0. -/
def stateAt : State :=
  (actions.take number).foldl State.after start

def TurnAt : Prop :=
  ∃ random, actions[number]? = some (.turn random)

def storedAt : Option Direction :=
  actions[number]?.bind Action.stored?

def writtenAt : Option Direction :=
  actions[number]?.bind (stateAt start actions number).written?

/-- The directions that are written, in order. -/
def written : List Direction :=
  (List.range actions.length).filterMap (writtenAt start actions)

/-- Before the action with a number, the direction that the action `source` has stored waits: no
other was stored behind it, and the runner had no turn. -/
structure Waits (source : Nat) (direction : Direction) : Prop where
  earlier : source < number
  stored : storedAt actions source = some direction
  latest : ∀ between, source < between → between < number → storedAt actions between = none
  untaken : ∀ between, source < between → between < number → ¬TurnAt actions between

end Numbers

section Slot

variable {start : State} {actions : List Action}

/-- Only lines and turns change what waits. -/
theorem waiting_after (state : State) {action : Action} (hturn : ∀ random, action ≠ .turn random) :
    (state.after action).shared.waiting = action.stored?.or state.shared.waiting := by
  cases action with
  | readLine line =>
      simp only [State.after, Shared.readLine, Action.stored?, Action.line?, Option.bind_some]
      cases Direction.ofLine? line <;> rfl
  | turn random => exact absurd rfl (hturn random)
  | showPicture => simp [State.after, Shared.showPicture, Action.stored?, Action.line?]
  | requestRedraw => rfl
  | takeRequest => rfl

theorem stateAt_succ {number : Nat} {action : Action} (haction : actions[number]? = some action) :
    stateAt start actions (number + 1) = (stateAt start actions number).after action := by
  rw [stateAt, List.take_add_one, haction, List.foldl_append]
  rfl

theorem not_turnAt_of_stored {number : Nat} {direction : Direction}
    (hstored : storedAt actions number = some direction) : ¬TurnAt actions number := by
  rintro ⟨random, hturn⟩
  rw [storedAt, hturn] at hstored
  cases hstored

/-- An action that neither stores a direction nor is a turn leaves waiting what waits. -/
theorem waits_succ_iff {number source : Nat} {direction : Direction}
    (hstored : storedAt actions number = none) (hturn : ¬TurnAt actions number) :
    Waits actions (number + 1) source direction ↔ Waits actions number source direction := by
  constructor
  · intro hwaits
    have hne : source ≠ number := by
      rintro rfl
      exact absurd hwaits.stored (by simp [hstored])
    exact ⟨Nat.lt_of_le_of_ne (Nat.le_of_lt_succ hwaits.earlier) hne, hwaits.stored,
      fun between hlt hbefore => hwaits.latest between hlt (Nat.lt_succ_of_lt hbefore),
      fun between hlt hbefore => hwaits.untaken between hlt (Nat.lt_succ_of_lt hbefore)⟩
  · intro hwaits
    refine ⟨Nat.lt_succ_of_lt hwaits.earlier, hwaits.stored, fun between hlt hbefore => ?_,
      fun between hlt hbefore => ?_⟩
    · rcases Nat.lt_succ_iff_lt_or_eq.mp hbefore with hbefore | rfl
      · exact hwaits.latest between hlt hbefore
      · exact hstored
    · rcases Nat.lt_succ_iff_lt_or_eq.mp hbefore with hbefore | rfl
      · exact hwaits.untaken between hlt hbefore
      · exact hturn

theorem not_waits_of_turn {number source : Nat} {direction : Direction}
    (hturn : TurnAt actions number) : ¬Waits actions (number + 1) source direction := by
  intro hwaits
  rcases Nat.lt_succ_iff_lt_or_eq.mp hwaits.earlier with hearlier | rfl
  · exact hwaits.untaken number hearlier (Nat.lt_succ_self number) hturn
  · exact not_turnAt_of_stored hwaits.stored hturn

/-- A direction that was just stored waits, and no other one does. -/
theorem exists_waits_iff_of_stored {number : Nat} {direction stored : Direction}
    (hstored : storedAt actions number = some stored) :
    (∃ source, Waits actions (number + 1) source direction) ↔ stored = direction := by
  constructor
  · rintro ⟨source, hwaits⟩
    rcases Nat.lt_succ_iff_lt_or_eq.mp hwaits.earlier with hearlier | rfl
    · have hnone := hwaits.latest number hearlier (Nat.lt_succ_self number)
      exact absurd hstored (by simp [hnone])
    · exact Option.some.inj (hstored.symm.trans hwaits.stored)
  · rintro rfl
    exact ⟨number, Nat.lt_succ_self number, hstored,
      fun between hlt hbefore => absurd hlt (Nat.not_lt.mpr (Nat.le_of_lt_succ hbefore)),
      fun between hlt hbefore => absurd hlt (Nat.not_lt.mpr (Nat.le_of_lt_succ hbefore))⟩

theorem waiting_succ_of_turn {number : Nat} (hturn : TurnAt actions number) :
    (stateAt start actions (number + 1)).shared.waiting = none := by
  obtain ⟨random, haction⟩ := hturn
  rw [stateAt_succ haction]
  rfl

theorem waiting_succ {number : Nat} (hturn : ¬TurnAt actions number) :
    (stateAt start actions (number + 1)).shared.waiting =
      (storedAt actions number).or (stateAt start actions number).shared.waiting := by
  cases haction : actions[number]? with
  | none =>
      rw [storedAt, stateAt, List.take_add_one, haction, Option.toList_none, List.append_nil,
        Option.bind_none, Option.none_or, stateAt]
  | some action =>
      have hother : ∀ random, action ≠ .turn random := by
        rintro random rfl
        exact hturn ⟨random, haction⟩
      rw [stateAt_succ haction, waiting_after _ hother, storedAt, haction, Option.bind_some]

/-- What waits in the place is the direction that was stored last, unless a turn has taken it. -/
theorem waiting_stateAt_iff (hempty : start.shared.waiting = none) (number : Nat)
    (direction : Direction) :
    (stateAt start actions number).shared.waiting = some direction ↔
      ∃ source, Waits actions number source direction := by
  induction number with
  | zero =>
      rw [stateAt, List.take_zero, List.foldl_nil, hempty]
      refine iff_of_false (by simp) ?_
      rintro ⟨source, hwaits⟩
      exact Nat.not_lt_zero source hwaits.earlier
  | succ number ih =>
      -- The place after an action depends on it and on the place before: emptied, filled or kept.
      by_cases hturn : TurnAt actions number
      · rw [waiting_succ_of_turn hturn]
        refine iff_of_false (by simp) ?_
        rintro ⟨source, hwaits⟩
        exact not_waits_of_turn hturn hwaits
      · rw [waiting_succ hturn]
        cases hstored : storedAt actions number with
        | none => simp only [Option.none_or, ih, waits_succ_iff hstored hturn]
        | some stored =>
            rw [Option.some_or, Option.some.injEq, exists_waits_iff_of_stored hstored]

end Slot

section Order

variable {start : State}

theorem typed_append (actions : List Action) (action : Action) :
    typed (actions ++ [action]) = typed actions ++ action.stored?.toList := by
  rw [typed, List.filterMap_append, List.filterMap_append, Action.stored?]
  congr 1
  cases hline : action.line? with
  | none => simp [hline]
  | some line => cases hdirection : Direction.ofLine? line <;> simp [hline, hdirection]

theorem stateAt_append {actions : List Action} {number : Nat} (hle : number ≤ actions.length)
    (more : List Action) :
    stateAt start (actions ++ more) number = stateAt start actions number := by
  rw [stateAt, stateAt, List.take_append_of_le_length hle]

theorem written_append (actions : List Action) (action : Action) :
    written start (actions ++ [action]) = written start actions ++
      ((stateAt start actions actions.length).written? action).toList := by
  have hlast : writtenAt start (actions ++ [action]) actions.length =
      (stateAt start actions actions.length).written? action := by
    rw [writtenAt, List.getElem?_concat_length, Option.bind_some,
      stateAt_append (Nat.le_refl actions.length)]
  have hearlier : ∀ number ∈ List.range actions.length,
      writtenAt start (actions ++ [action]) number = writtenAt start actions number := by
    intro number hnumber
    have hlt : number < actions.length := List.mem_range.mp hnumber
    rw [writtenAt, writtenAt, List.getElem?_append_left hlt, stateAt_append (Nat.le_of_lt hlt)]
  rw [written, List.length_append, List.length_singleton, List.range_succ, List.filterMap_append,
    List.filterMap_congr hearlier, written]
  congr 1
  rw [List.filterMap_cons, hlast]
  cases (stateAt start actions actions.length).written? action <;> rfl

/-- The state behind all actions follows from the last one. -/
theorem stateAt_length_append (actions : List Action) (action : Action) :
    stateAt start (actions ++ [action]) (actions ++ [action]).length =
      (stateAt start actions actions.length).after action := by
  rw [List.length_append, List.length_singleton,
    stateAt_succ List.getElem?_concat_length, stateAt_append (Nat.le_refl actions.length)]

/-- What is written, and the direction that waits behind it, are in the order in which they were
typed, and the last of them is the last typed. -/
theorem written_of_typed (hempty : start.shared.waiting = none) (actions : List Action) :
    let sent := written start actions ++
      (stateAt start actions actions.length).shared.waiting.toList
    sent.Sublist (typed actions) ∧ sent.getLast? = (typed actions).getLast? := by
  induction actions using List.reverseRecOn with
  | nil => simp [written, stateAt, hempty, typed]
  | append_singleton actions action ih =>
      simp only [stateAt_length_append, written_append, typed_append] at ih ⊢
      obtain ⟨hsublist, hlast⟩ := ih
      -- A turn moves what waits behind what is written; only a later key can push it out.
      by_cases hturn : ∃ random, action = .turn random
      · obtain ⟨random, rfl⟩ := hturn
        have hwritten : (stateAt start actions actions.length).written? (.turn random) =
            (stateAt start actions actions.length).shared.waiting := rfl
        simpa [hwritten, State.after, Shared.take, Action.stored?, Action.line?] using
          And.intro hsublist hlast
      · have hother : ∀ random, action ≠ .turn random := not_exists.mp hturn
        have hwritten : (stateAt start actions actions.length).written? action = none := by
          cases action <;> simp_all [State.written?]
        rw [waiting_after _ hother, hwritten, Option.toList_none, List.append_nil]
        cases action.stored? with
        | none => simpa using And.intro hsublist hlast
        | some direction =>
            have hbefore : (written start actions).Sublist (typed actions) :=
              (List.sublist_append_left _ _).trans hsublist
            simp only [Option.some_or, Option.toList_some, List.getLast?_concat, and_true]
            exact hbefore.append_right [direction]

end Order

section Deliveries

variable {start : State} {actions : List Action}

theorem TurnAt.lt_length {number : Nat} (hturn : TurnAt actions number) :
    number < actions.length := by
  obtain ⟨random, haction⟩ := hturn
  exact (List.getElem?_eq_some_iff.mp haction).1

theorem storedAt_eq_some_iff {number : Nat} {direction : Direction} :
    storedAt actions number = some direction ↔
      ∃ line, actions[number]? = some (.readLine line) ∧ direction.FirstIn line := by
  rw [storedAt, Option.bind_eq_some_iff]
  constructor
  · rintro ⟨action, haction, hstored⟩
    obtain ⟨line, hline, hdirection⟩ := Option.bind_eq_some_iff.mp hstored
    cases action with
    | readLine read =>
        obtain rfl : read = line := Option.some.inj hline
        exact ⟨read, haction, Direction.ofLine?_eq_some_iff.mp hdirection⟩
    | _ => cases hline
  · rintro ⟨line, haction, hdirection⟩
    exact ⟨.readLine line, haction, Direction.ofLine?_eq_some_iff.mpr hdirection⟩

/-- A turn writes what waits when its time comes. -/
theorem writtenAt_eq_some_iff {number : Nat} {direction : Direction} :
    writtenAt start actions number = some direction ↔
      TurnAt actions number ∧ (stateAt start actions number).shared.waiting = some direction := by
  rw [writtenAt, Option.bind_eq_some_iff]
  constructor
  · rintro ⟨action, haction, hwritten⟩
    cases action with
    | turn random => exact ⟨⟨random, haction⟩, hwritten⟩
    | _ => cases hwritten
  · rintro ⟨⟨random, haction⟩, hwaiting⟩
    exact ⟨.turn random, haction, hwaiting⟩

/-- Two turns that find the direction of one line are the same turn, since the first one takes
it. -/
theorem Waits.eq_of_turns {source number other : Nat} {direction second : Direction}
    (hfirst : Waits actions number source direction) (hsecond : Waits actions other source second)
    (hturn : TurnAt actions number) (hother : TurnAt actions other) : number = other := by
  rcases Nat.lt_trichotomy number other with hlt | heq | hlt
  · exact absurd hturn (hsecond.untaken number hfirst.earlier hlt)
  · exact heq
  · exact absurd hother (hfirst.untaken other hsecond.earlier hlt)

/-- When the runner has had a turn and nothing was stored since, nothing waits. -/
theorem waiting_of_turn (hempty : start.shared.waiting = none) {number : Nat}
    (hturn : TurnAt actions number)
    (hquiet : ∀ later, number < later → storedAt actions later = none) :
    (stateAt start actions actions.length).shared.waiting = none := by
  rw [Option.eq_none_iff_forall_ne_some]
  intro direction hwaiting
  obtain ⟨source, hwaits⟩ := (waiting_stateAt_iff hempty _ direction).mp hwaiting
  rcases Nat.lt_trichotomy source number with hbefore | rfl | hbehind
  · exact hwaits.untaken number hbefore hturn.lt_length hturn
  · exact not_turnAt_of_stored hwaits.stored hturn
  · exact absurd hwaits.stored (by simp [hquiet source hbehind])

theorem size_after (state : State) (action : Action) :
    (state.after action).cpu.memory.size = state.cpu.memory.size := by
  cases action with
  | turn random => exact (Cpu.size_step _).trans (Runner.size_provide _ _ _)
  | _ => rfl

theorem size_stateAt (hfull : start.cpu.memory.size = Memory.addressCount) (number : Nat) :
    (stateAt start actions number).cpu.memory.size = Memory.addressCount :=
  List.foldlRecOn (actions.take number) State.after hfull
    fun state hstate action _ => (size_after state action).trans hstate

/-- What the actions of the tasks, in the order in which they come, do with the keys. -/
structure Delivered (start : State) (actions : List Action) : Prop where
  /-- A line stores the direction of its first letter that has one. -/
  stored_iff : ∀ number direction, storedAt actions number = some direction ↔
    ∃ line, actions[number]? = some (.readLine line) ∧ direction.FirstIn line
  /-- A turn that writes a direction puts its code where the program looks for it, and any other
  leaves alone what is there. -/
  cell : ∀ number random, actions[number]? = some (.turn random) →
    ((stateAt start actions number).handed random).read 0x00FF =
      (writtenAt start actions number).elim ((stateAt start actions number).cpu.read 0x00FF)
        Direction.code
  inOrder : (written start actions).Sublist (typed actions)
  /-- A turn writes the direction stored last before it, if there was no turn since. -/
  written_iff : ∀ number direction, writtenAt start actions number = some direction ↔
    TurnAt actions number ∧ ∃ source, Waits actions number source direction
  once : ∀ source number other direction second,
    writtenAt start actions number = some direction → Waits actions number source direction →
    writtenAt start actions other = some second → Waits actions other source second →
    number = other
  /-- When a turn comes behind all that is stored, the last direction typed is the last written. -/
  last : ∀ number, TurnAt actions number →
    (∀ later, number < later → storedAt actions later = none) →
    (written start actions).getLast? = (typed actions).getLast?

/-- Whatever lines are typed, and however the actions of keyboard, runner and display come: the
directions that are written are in the order of their lines, each is the one stored last at the
time, none is written twice, and the last one typed is the last one written as soon as the runner
has a turn behind it. -/
theorem delivered_in_order (hempty : start.shared.waiting = none)
    (hfull : start.cpu.memory.size = Memory.addressCount) (actions : List Action) :
    Delivered start actions where
  stored_iff _ _ := storedAt_eq_some_iff
  cell number random haction := by
    have hwritten : writtenAt start actions number =
        (stateAt start actions number).shared.waiting := by
      rw [writtenAt, haction]
      rfl
    rw [hwritten]
    exact Runner.directionCell_provide (size_stateAt hfull number) _ random
  inOrder := (List.sublist_append_left _ _).trans (written_of_typed hempty actions).1
  written_iff number direction := by
    rw [writtenAt_eq_some_iff, waiting_stateAt_iff hempty]
  once source number other direction second hfirst hsource hsecond hsource' :=
    hsource.eq_of_turns hsource' (writtenAt_eq_some_iff.mp hfirst).1
      (writtenAt_eq_some_iff.mp hsecond).1
  last number hturn hquiet := by
    have hlast := (written_of_typed hempty actions).2
    rwa [waiting_of_turn hempty hturn hquiet, Option.toList_none, List.append_nil] at hlast

/-- Four lines and three turns: the first line has no direction, the third is too late for the
first turn and loses its place to the fourth, and the last turn finds nothing. -/
def hurried : List Action :=
  [.readLine "quit", .readLine "go West", .turn 1, .readLine "S", .showPicture, .readLine "xDa",
    .turn 2, .takeRequest, .turn 3]

theorem delivered_in_order_hurried :
    Shared.blank.waiting = none ∧ Cpu.initial.memory.size = Memory.addressCount ∧
      typed hurried = [.up, .down, .right] ∧
      (written ⟨.blank, .initial⟩ hurried).Sublist [.up, .down, .right] ∧
      writtenAt ⟨.blank, .initial⟩ hurried 2 = some .up ∧
      (written ⟨.blank, .initial⟩ hurried).getLast? = some .right := by
  have hfull : Cpu.initial.memory.size = Memory.addressCount := Memory.size_blank
  have htyped : typed hurried = [.up, .down, .right] := by decide
  have hdelivered : Delivered ⟨.blank, .initial⟩ hurried :=
    @delivered_in_order ⟨.blank, .initial⟩ rfl hfull hurried
  have hwaits : Waits hurried 2 1 .up :=
    ⟨by decide, by decide, fun between hlt hbefore => by omega, fun between hlt hbefore => by omega⟩
  have hquiet : ∀ later, 8 < later → storedAt hurried later = none := fun later hlater => by
    rw [storedAt, List.getElem?_eq_none hlater, Option.bind_none]
  refine ⟨rfl, hfull, htyped, htyped ▸ hdelivered.inOrder,
    (hdelivered.written_iff 2 .up).mpr ⟨⟨1, rfl⟩, 1, hwaits⟩, ?_⟩
  rw [hdelivered.last 8 ⟨3, rfl⟩ hquiet, htyped]
  rfl

end Deliveries

end Keyboard

end Machine6502
