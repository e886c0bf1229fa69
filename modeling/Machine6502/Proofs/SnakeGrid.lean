import Machine6502.Proofs.SnakeMove

/-!
# The snake on the grid

The pointer to the head is an address in the frame buffer, which is a place of a grid of 32
rows and 32 columns.  A move right, down or left takes the head to the next place.  A move
up takes it up by seven rows, for the routine subtracts `0x20`, and a subtraction with the
carry set adds its operand: the low byte grows by `0x20`, and the high byte goes down by one.
-/

namespace Machine6502

namespace Snake

open View

variable {cell : UInt16 → UInt8}

section Grid

/-- The address of the cell of the frame buffer in a row and a column. -/
def position (row column : Nat) : UInt16 :=
  UInt16.ofNat (0x0200 + 32 * row + column)

/-- The cell next to one in a direction; none beyond the edge of the grid. -/
def neighbour? (direction : Direction) (row column : Nat) : Option (Nat × Nat) :=
  match direction with
  | .up => if 1 ≤ row then some (row - 1, column) else none
  | .right => if column + 1 < 32 then some (row, column + 1) else none
  | .down => if row + 1 < 32 then some (row + 1, column) else none
  | .left => if 1 ≤ column then some (row, column - 1) else none

/-- Where a move takes the head: up by seven rows, and to the next cell in any other
direction. -/
def landing? (direction : Direction) (row column : Nat) : Option (Nat × Nat) :=
  match direction with
  | .up => if 7 ≤ row then some (row - 7, column) else none
  | direction => neighbour? direction row column

theorem toNat_and_0x1F (byte : UInt8) : (byte &&& 0x1F).toNat = byte.toNat % 32 := by
  rw [UInt8.toNat_and]
  exact Nat.and_two_pow_sub_one_eq_mod byte.toNat 5

theorem and_0x1F_eq_iff {byte remainder : UInt8} :
    byte &&& 0x1F = remainder ↔ byte.toNat % 32 = remainder.toNat := by
  rw [← UInt8.toNat_inj, toNat_and_0x1F]

/-- The head is at a place of the grid. -/
def HeadAt (low high : UInt8) (row column : Nat) : Prop :=
  low.toNat + 256 * high.toNat = 0x0200 + 32 * row + column

/-- A pointer to the head and a place of the grid: both none, or the one at the other. -/
def Agree (head : Option (UInt8 × UInt8)) (place : Option (Nat × Nat)) : Prop :=
  match place with
  | none => head = none
  | some (row, column) => ∃ low high, head = some (low, high) ∧ HeadAt low high row column

section Position

variable {low high : UInt8} {row column : Nat} (hrow : row < 32) (hcolumn : column < 32)
variable (hhead : HeadAt low high row column)

include hrow hcolumn hhead

theorem headAfter_up : Agree (headAfter .up low high) (landing? .up row column) := by
  have hlow := low.toNat_lt
  have hbound : (0xE0 : UInt8).toNat = 0xE0 := rfl
  have hstride : (low + 0x20).toNat = (low.toNat + 0x20) % 256 := UInt8.toNat_add low 0x20
  rw [HeadAt] at hhead
  have hpage : (high - 1).toNat = high.toNat - 1 :=
    UInt8.toNat_sub_of_le high 1 (UInt8.le_iff_toNat_le.mpr (by simp; omega))
  have hwall : high - 1 = 0x01 ↔ high.toNat - 1 = 1 := by
    rw [← UInt8.toNat_inj, hpage]
    rfl
  simp only [Agree, landing?, headAfter, UInt8.le_iff_toNat_le, hbound, hwall]
  by_cases hgrid : 7 ≤ row
  · rw [if_pos hgrid]
    by_cases hlast : 0xE0 ≤ low.toNat
    · rw [if_pos hlast]
      exact ⟨_, _, rfl, by rw [HeadAt]; omega⟩
    · rw [if_neg hlast, if_neg (by omega)]
      exact ⟨_, _, rfl, by rw [HeadAt]; omega⟩
  · rw [if_neg hgrid, if_neg (by omega), if_pos (by omega)]

theorem headAfter_down : Agree (headAfter .down low high) (landing? .down row column) := by
  have hlow := low.toNat_lt
  have hbound : (0xE0 : UInt8).toNat = 0xE0 := rfl
  have hstride : (low + 0x20).toNat = (low.toNat + 0x20) % 256 := UInt8.toNat_add low 0x20
  have hpage : (high + 1).toNat = (high.toNat + 1) % 256 := UInt8.toNat_add high 1
  rw [HeadAt] at hhead
  have hwall : high + 1 = 0x06 ↔ (high.toNat + 1) % 256 = 6 := by
    rw [← UInt8.toNat_inj, hpage]
    rfl
  simp only [Agree, landing?, neighbour?, headAfter, UInt8.lt_iff_toNat_lt, hbound, hwall]
  by_cases hgrid : row + 1 < 32
  · rw [if_pos hgrid]
    by_cases hlast : low.toNat < 0xE0
    · rw [if_pos hlast]
      exact ⟨_, _, rfl, by rw [HeadAt]; omega⟩
    · rw [if_neg hlast, if_neg (by omega)]
      exact ⟨_, _, rfl, by rw [HeadAt]; omega⟩
  · rw [if_neg hgrid, if_neg (by omega), if_pos (by omega)]

omit hrow in
theorem headAfter_right : Agree (headAfter .right low high) (landing? .right row column) := by
  have hlow := low.toNat_lt
  have hnext : (low + 1).toNat = (low.toNat + 1) % 256 := UInt8.toNat_add low 1
  rw [HeadAt] at hhead
  have hwall : 0x1F &&& (low + 1) = 0 ↔ (low.toNat + 1) % 256 % 32 = 0 := by
    rw [UInt8.and_comm, and_0x1F_eq_iff, hnext]
    rfl
  simp only [Agree, landing?, neighbour?, headAfter, hwall]
  by_cases hgrid : column + 1 < 32
  · rw [if_pos hgrid, if_neg (by omega)]
    exact ⟨_, _, rfl, by rw [HeadAt]; omega⟩
  · rw [if_neg hgrid, if_pos (by omega)]

omit hrow in
theorem headAfter_left : Agree (headAfter .left low high) (landing? .left row column) := by
  have hlow := low.toNat_lt
  have hnext : (low - 1).toNat = (255 + low.toNat) % 256 := UInt8.toNat_sub low 1
  rw [HeadAt] at hhead
  have hwall : (low - 1) &&& 0x1F = 0x1F ↔ (255 + low.toNat) % 256 % 32 = 31 := by
    rw [and_0x1F_eq_iff, hnext]
    rfl
  simp only [Agree, landing?, neighbour?, headAfter, hwall]
  by_cases hgrid : 1 ≤ column
  · rw [if_pos hgrid, if_neg (by omega)]
    exact ⟨_, _, rfl, by rw [HeadAt]; omega⟩
  · rw [if_neg hgrid, if_pos (by omega)]

/-- The pointer to the head goes where the grid says. -/
theorem headAfter_position (direction : Direction) :
    Agree (headAfter direction low high) (landing? direction row column) := by
  cases direction with
  | up => exact headAfter_up hrow hcolumn hhead
  | right => exact headAfter_right hcolumn hhead
  | down => exact headAfter_down hrow hcolumn hhead
  | left => exact headAfter_left hcolumn hhead

end Position

end Grid

section Machine

/-- A machine that is about to move the snake, its head in a row and a column. -/
structure Ready (cpu : Cpu) (direction : Direction) (row column : Nat) : Prop where
  full : cpu.memory.size = Memory.addressCount
  loaded : cpu.memory.HoldsAt origin program
  /-- The break behind the program. -/
  behind : cpu.read 0x0735 = 0x00
  pc : cpu.pc = 0x06C3
  heading : cpu.read 0x0002 = heading direction
  positive : 0 < cpu.read 0x0003
  bounded : cpu.read 0x0003 ≤ 0x80
  row_lt : row < 32
  column_lt : column < 32
  head : cpu.memory.readWord 0x0010 = position row column

/-- What the routine leaves when it returns: the head at a place, every other pointer where
the one before it was, and the stack as it was. -/
structure Moved (cpu last : Cpu) (row column : Nat) : Prop where
  returns : MoveReturn last.pc
  code : last.code = 0x60
  s : last.s = cpu.s
  head : last.memory.readWord 0x0010 = position row column
  body : ∀ index < (cpu.read 0x0003).toNat / 2,
    last.memory.readWord (UInt16.ofNat (0x10 + 2 * (index + 1))) =
      cpu.memory.readWord (UInt16.ofNat (0x10 + 2 * index))

/-- The routine comes to its first return with the head at a place of the grid, or without
a return to the break behind the program. -/
def Lands (cpu : Cpu) (place : Option (Nat × Nat)) : Prop :=
  ∃ steps, Cpu.idleHost.Reaches ((), cpu) steps ∧
    (∀ earlier < steps, InMove (Cpu.idleHost.turn ((), cpu) earlier).2.pc) ∧
    let last := (Cpu.idleHost.turn ((), cpu) steps).2
    match place with
    | none => last.pc = 0x0735 ∧ last.code = 0x00
    | some (row, column) => Moved cpu last row column

theorem stands_of_holdsAt {memory : Memory} (hloaded : memory.HoldsAt origin program) :
    Program.snake.Stands memory.read where
  above := by decide
  fits := by decide +kernel
  holds := hloaded

variable {cpu : Cpu} {direction : Direction} {row column : Nat}

theorem Ready.headAt (hready : Ready cpu direction row column) :
    HeadAt (cpu.read 0x0010) (cpu.read 0x0011) row column := by
  have hrow := hready.row_lt
  have hcolumn := hready.column_lt
  have hword := congrArg UInt16.toNat hready.head
  rw [Memory.readWord, toNat_wordOf, position, toNat_ofNat_of_lt (by omega)] at hword
  exact hword

/-- The views at the ends of the routine. -/
def MoveEnd (cpu : Cpu) (place : Option (Nat × Nat)) (view : View) : Prop :=
  match place with
  | none => view.pc = 0x0735 ∧ view.storage.cell 0x0735 = 0x00
  | some (row, column) => MoveReturn view.pc ∧ view.storage.s = cpu.s ∧
      ∃ low high, HeadAt low high row column ∧
        view.storage.cell = afterMove cpu.memory.read low high

theorem Ready.leads (hready : Ready cpu direction row column) :
    Leads (fun _ => True) (fun view _ => InMove view.pc)
      (MoveEnd cpu (landing? direction row column)) (ofCpu cpu) := by
  have hindex : (cpu.read 0x0003).toNat - 1 < 0x80 := last_lt hready.bounded
  have hagree := headAfter_position hready.row_lt hready.column_lt hready.headAt direction
  have hcovers : CoversMove fun view _ => InMove view.pc := fun _ _ hpc _ => hpc
  rw [ofCpu, hready.pc]
  refine leads_move hcovers (stands_of_holdsAt hready.loaded) hready.heading hready.positive
    hready.bounded ⟨fun low high hhead pc status a hreturn => .here ?_,
      fun hhead status a moved hmoved => .here ?_⟩
  · replace hagree : Agree (some (low, high)) (landing? direction row column) := hhead ▸ hagree
    cases hplace : landing? direction row column with
    | none => simp [Agree, hplace] at hagree
    | some place =>
        simp only [Agree, hplace, Option.some.injEq, Prod.mk.injEq] at hagree
        obtain ⟨_, _, ⟨rfl, rfl⟩, hhead⟩ := hagree
        exact ⟨hreturn, rfl, low, high, hhead, rfl⟩
  · replace hagree : Agree none (landing? direction row column) := hhead ▸ hagree
    cases hplace : landing? direction row column with
    | none =>
        have hkept : shifted cpu.memory.read ((cpu.read 0x0003).toNat - 1) 0x0735 = 0x00 :=
          (shifted_of_not_bodyCell (by decide) hindex).trans hready.behind
        exact ⟨rfl, (hmoved 0x0735 (by decide)).trans hkept⟩
    | some place => simp [Agree, hplace] at hagree

theorem not_hostCell_ofNat {number : Nat} (hlt : number < 0xFE) :
    ¬HostCell (UInt16.ofNat number) := by
  refine Program.not_hostCell_of_lt (UInt16.lt_iff_toNat_lt.mpr ?_)
  rw [toNat_ofNat_of_lt (by omega)]
  exact hlt

/-- What the view at a return of the routine says about the machine. -/
theorem Ready.moved {last : Cpu} {view : View} {input : Input} {row' column' : Nat}
    (hready : Ready cpu direction row column) (hshows : view.Shows input last)
    (hend : MoveEnd cpu (some (row', column')) view) : Moved cpu last row' column' := by
  obtain ⟨hreturn, hs, low, high, hhead, hcell⟩ := hend
  have hlength : (cpu.read 0x0003).toNat ≤ 0x80 := UInt8.le_iff_toNat_le.mp hready.bounded
  have hread : ∀ number < 0xFE, last.read (UInt16.ofNat number) =
      afterMove cpu.memory.read low high (UInt16.ofNat number) := by
    intro number hnumber
    rw [hshows.read (not_hostCell_ofNat hnumber), hcell]
  refine ⟨hshows.pc ▸ hreturn, ?_, (congrArg Storage.s hshows.storage).trans hs, ?_, ?_⟩
  · have hstands : Program.snake.Stands view.storage.cell := by
      rw [hcell]
      refine (stands_of_holdsAt hready.loaded).congr fun address haddress => ?_
      have hbody : ¬BodyCell address := fun hbody =>
        absurd (UInt16.le_trans haddress hbody.2) (by decide)
      exact afterMove_of_not_bodyCell hready.bounded hbody low high
    obtain ⟨hcode, habove⟩ := hstands.first hreturn.2.2
    rw [Cpu.code, hshows.pc, hshows.read (Program.not_hostCell_of_le habove)]
    exact hcode
  · have hlow : last.memory.read 0x0010 = low :=
      (hread 0x10 (by decide)).trans (afterMove_low _ low high)
    have hhigh : last.memory.read (0x0010 + 1) = high :=
      (hread 0x11 (by decide)).trans (afterMove_high _ low high)
    have hword := toNat_wordOf low high
    have hlt := (wordOf low high).toNat_lt
    rw [HeadAt] at hhead
    apply UInt16.toNat_inj.mp
    rw [Memory.readWord, hlow, hhigh, hword, position, toNat_ofNat_of_lt (by omega)]
    exact hhead
  · intro index hcount
    have hlow := (hread (0x12 + 2 * index) (by omega)).trans
      (afterMove_of_lt hready.bounded (by omega : _ < (cpu.read 0x0003).toNat) low high)
    have hhigh := (hread (0x12 + (2 * index + 1)) (by omega)).trans
      (afterMove_of_lt hready.bounded (by omega : _ < (cpu.read 0x0003).toNat) low high)
    have haddress : 0x10 + 2 * (index + 1) = 0x12 + 2 * index := by omega
    have hnext : UInt16.ofNat (0x12 + 2 * index) + 1 = UInt16.ofNat (0x12 + (2 * index + 1)) :=
      (UInt16.ofNat_add _ 1).symm
    have hnext' : UInt16.ofNat (0x10 + 2 * index) + 1 = UInt16.ofNat (0x10 + (2 * index + 1)) :=
      (UInt16.ofNat_add _ 1).symm
    rw [Memory.readWord, Memory.readWord, haddress, hnext, hnext']
    exact congrArg₂ wordOf hlow hhigh

theorem lands_of_ready (hready : Ready cpu direction row column) :
    Lands cpu (landing? direction row column) := by
  obtain ⟨steps, hreaches, hpassed, final, hend, hshows⟩ :=
    hready.leads.reaches (shows_ofCpu hready.full)
  refine ⟨steps, hreaches, fun earlier hearlier => ?_, ?_⟩
  · obtain ⟨passed, stores, hpc, hshown⟩ := hpassed earlier hearlier
    rw [← hshown.pc] at hpc
    exact hpc
  · cases hplace : landing? direction row column with
    | none =>
        rw [hplace] at hend
        obtain ⟨hpc, hbreak⟩ := hend
        have hcode := hshows.read (by decide : ¬HostCell 0x0735)
        rw [← hpc, ← hshows.pc] at hcode
        refine ⟨hshows.pc.trans hpc, hcode.trans ?_⟩
        rw [hshows.pc, hpc]
        exact hbreak
    | some place =>
        rw [hplace] at hend
        exact hready.moved hshows hend

end Machine

section MidGame

/-- The game with the snake in the middle of the grid, about to move it in a direction. -/
def midGame (direction : Direction) : Cpu :=
  { Program.snake.boot with
    pc := 0x06C3
    memory := (Program.snake.boot.memory.writeAll 0x0002 [heading direction, 4]).writeAll
      0x0010 [0x11, 4, 0x10, 4, 0x0F, 4] }

theorem read_midGame (direction : Direction) : (midGame direction).memory.read =
    storeAll Program.snake.boot.memory.read
      [(0x0002, heading direction), (0x0003, 4), (0x0010, 0x11), (0x0011, 4), (0x0012, 0x10),
        (0x0013, 4), (0x0014, 0x0F), (0x0015, 4)] := by
  have hfull := Program.size_boot Program.snake
  simp only [midGame, Memory.writeAll, storeAll]
  repeat rw [Memory.read_write_eq_update (by simpa using hfull)]
  rfl

theorem read_midGame_of_le {address : UInt16} (haddress : 0x0200 ≤ address)
    (direction : Direction) :
    (midGame direction).memory.read address = Program.snake.boot.memory.read address := by
  have hbelow : ∀ value : UInt8, ∀ store ∈ [((0x0002 : UInt16), value), (0x0003, 4),
      (0x0010, 0x11), (0x0011, 4), (0x0012, 0x10), (0x0013, 4), (0x0014, 0x0F), (0x0015, 4)],
      store.1 < 0x0200 := by simp
  rw [read_midGame]
  refine storeAll_of_ne fun store hstore => UInt16.ne_of_lt ?_
  exact UInt16.lt_of_lt_of_le (hbelow _ store hstore) haddress

theorem ready_midGame (direction : Direction) : Ready (midGame direction) direction 16 17 := by
  have hboot := Program.stands_boot fits_program (by decide)
  have hstands : Program.snake.Stands (midGame direction).memory.read :=
    hboot.congr fun address habove =>
      read_midGame_of_le (UInt16.le_trans (by decide) habove) direction
  have hlength : (midGame direction).memory.read 0x0003 = 4 := by
    rw [read_midGame]
    rfl
  refine ⟨?_, hstands.holds, ?_, rfl, ?_, ?_, ?_, by decide, by decide, ?_⟩
  · simpa [midGame] using Program.size_boot Program.snake
  · have houtside : ¬(Program.snake.origin.toNat ≤ (0x0735 : UInt16).toNat ∧
        (0x0735 : UInt16).toNat < Program.snake.origin.toNat + Program.snake.bytes.length) := by
      decide +kernel
    exact (read_midGame_of_le (by decide) direction).trans
      (Program.read_boot fits_program (by decide) houtside)
  · rw [Cpu.read, read_midGame]
    rfl
  · rw [Cpu.read, hlength]
    decide
  · rw [Cpu.read, hlength]
    decide
  · rw [Memory.readWord, read_midGame]
    rfl

end MidGame

variable {cpu : Cpu} {direction : Direction} {row column : Nat}

/-- The first return settles where the head is. -/
theorem Lands.position_eq {row' column' : Nat} (hlands : Lands cpu (some (row, column)))
    (hlands' : Lands cpu (some (row', column'))) : position row column = position row' column' := by
  obtain ⟨steps, -, hpassed, hmoved⟩ := hlands
  obtain ⟨steps', -, hpassed', hmoved'⟩ := hlands'
  rcases Nat.lt_trichotomy steps steps' with hlt | rfl | hlt
  · exact absurd hmoved.returns.2.2 (hpassed' steps hlt).2.2
  · exact hmoved.head.symm.trans hmoved'.head
  · exact absurd hmoved'.returns.2.2 (hpassed steps' hlt).2.2

/-- A move takes the head to its landing place, and the body after it; off the grid it ends
the game.  Except for up, the place is the next one in the direction. -/
theorem move_lands (hready : Ready cpu direction row column) :
    Lands cpu (landing? direction row column) ∧
      (direction ≠ .up → landing? direction row column = neighbour? direction row column) := by
  refine ⟨lands_of_ready hready, fun hdirection => ?_⟩
  cases direction with
  | up => exact absurd rfl hdirection
  | _ => rfl

theorem move_lands_up : Ready (midGame .up) .up 16 17 ∧ Lands (midGame .up) (some (9, 17)) :=
  ⟨ready_midGame .up, (move_lands (ready_midGame .up)).1⟩

/-- A move up in the middle of the grid does not take the head to the row above. -/
theorem up_misses_neighbour : Ready (midGame .up) .up 16 17 ∧
    neighbour? .up 16 17 = some (15, 17) ∧ ¬Lands (midGame .up) (neighbour? .up 16 17) := by
  refine ⟨ready_midGame .up, rfl, fun hlands => ?_⟩
  have hposition : position 15 17 = position 9 17 :=
    Lands.position_eq hlands (lands_of_ready (ready_midGame .up))
  exact absurd hposition (by decide)

end Snake

end Machine6502
