import Machine6502.Proofs.SnakeLoop

/-!
# Plays of the snake game

A player has a turn before every step: it provides a random byte, and it may put any byte
in the cell of the key.  Whatever it does, the game only stores where it should, keeps its
program, draws nothing but colors, never turns the snake around, and ends at the break
behind the program only.  This holds until the snake is too long for its cells.
-/

namespace Machine6502

namespace Snake

open View

section Turns

/-- What a player does before a step. -/
structure Turn where
  /-- The byte that is put in the cell of the key; without one the cell is left alone. -/
  key? : Option UInt8
  random : UInt8

namespace Turn

def take (turn : Turn) (cpu : Cpu) : Cpu :=
  let pressed := turn.key?.elim cpu fun key => cpu.write Direction.cell key
  pressed.write randomCell turn.random

/-- The random byte is a color, and not black. -/
def Fair (turn : Turn) : Prop :=
  1 ≤ turn.random ∧ turn.random < 16

/-- What stands in the cells of the host after a turn. -/
def input (turn : Turn) (before : Input) : Input :=
  ⟨turn.random, turn.key?.getD before.key⟩

variable {view : View} {input : Input} {cpu : Cpu}

theorem shows_take (turn : Turn) (hshows : view.Shows input cpu) :
    view.Shows (turn.input input) (turn.take cpu) := by
  obtain ⟨hfull, hpc, hstatus, hstorage⟩ := hshows
  obtain ⟨key?, random⟩ := turn
  cases key? with
  | none =>
      refine ⟨(Memory.size_write _ _ _).trans hfull, hpc, hstatus, ?_⟩
      calc
        (cpu.write randomCell random).storage
            = (view.storage.fed input).store randomCell random := by
              rw [Cpu.storage_write hfull, hstorage]
        _ = view.storage.fed ⟨random, input.key⟩ := by
              simp only [Storage.fed, Storage.store, Function.update_idem]
  | some key =>
      have hpressed : (cpu.write Direction.cell key).memory.size = Memory.addressCount :=
        (Memory.size_write _ _ _).trans hfull
      refine ⟨(Memory.size_write _ _ _).trans hpressed, hpc, hstatus, ?_⟩
      calc
        ((cpu.write Direction.cell key).write randomCell random).storage
            = (view.storage.fed input).fed ⟨random, key⟩ := by
              rw [Cpu.storage_write hpressed, Cpu.storage_write hfull, hstorage]
              rfl
        _ = view.storage.fed ⟨random, key⟩ := Storage.fed_fed _ _ _

end Turn

/-- The host that has these turns, one before each step. -/
def player (turns : Nat → Turn) : Host Nat :=
  Host.ofCallback fun number cpu => (number + 1, (turns number).take cpu)

/-- The machine after so many steps of a play. -/
def played (turns : Nat → Turn) (number : Nat) : Cpu :=
  ((player turns).round^[number] (0, Program.snake.boot)).2

/-- The machine that takes the step with a number, the first being 0. -/
def turned (turns : Nat → Turn) (number : Nat) : Cpu :=
  (turns number).take (played turns number)

theorem fst_round_player (turns : Nat → Turn) (number : Nat) (start : Nat × Cpu) :
    ((player turns).round^[number] start).1 = start.1 + number := by
  induction number with
  | zero => rfl
  | succ number ih =>
      rw [Function.iterate_succ_apply']
      exact congrArg (· + 1) ih

theorem played_succ (turns : Nat → Turn) (number : Nat) :
    played turns (number + 1) = (turned turns number).step.2 := by
  have hnumber : ((player turns).round^[number] (0, Program.snake.boot)).1 = number :=
    (fst_round_player turns number _).trans (Nat.zero_add number)
  rw [played, Function.iterate_succ_apply', turned, played]
  exact congrArg (fun turn => ((turns turn).take _).step.2) hnumber

end Turns

section Order

/-- What the cells of the game hold at any time: the program as it was loaded, colors, and
a direction once there is one. -/
structure Tidy (cell : UInt16 → UInt8) : Prop where
  program : ∀ address, 0x0600 ≤ address → address ≤ 0x0735 →
    cell address = Program.snake.boot.read address
  color : ∀ address, FrameCell address → cell address < 16
  direction : cell 0x0002 = 0 ∨ ∃ direction, cell 0x0002 = heading direction

/-- A machine with its program counter in the program or at the break behind it, or behind
this break, and with tidy cells. -/
structure InOrder (cpu : Cpu) : Prop where
  pc : 0x0600 ≤ cpu.pc ∧ cpu.pc ≤ 0x0736
  tidy : Tidy cpu.read

/-- A step of the game. -/
structure StepsWell (cpu : Cpu) : Prop where
  succeeds : ∀ fault, cpu.step.1 ≠ .failed fault
  halts : cpu.step.1 = .halted → cpu.pc = 0x0735
  stores : ∀ store ∈ cpu.stores, GameCell store.1
  kept : ∀ address, ¬GameCell address → cpu.step.2.read address = cpu.read address
  turns : ∀ direction, cpu.read 0x0002 = heading direction →
    ∃ next, cpu.step.2.read 0x0002 = heading next ∧ next ≠ opposite direction
  next : InOrder cpu.step.2

variable {cell other : UInt16 → UInt8} {stores : List (UInt16 × UInt8)}

theorem opposite_opposite (direction : Direction) : opposite (opposite direction) = direction := by
  cases direction <;> rfl

theorem ne_opposite (direction : Direction) : direction ≠ opposite direction := by
  cases direction <;> decide

theorem Tidy.congr (htidy : Tidy cell)
    (hsame : ∀ address, ¬HostCell address → other address = cell address) : Tidy other := by
  refine ⟨fun address hfirst hlast => ?_, fun address haddress => ?_, ?_⟩
  · rw [hsame address (Program.not_hostCell_of_le (UInt16.le_trans (by decide) hfirst))]
    exact htidy.program address hfirst hlast
  · rw [hsame address (Program.not_hostCell_of_le haddress.1)]
    exact htidy.color address haddress
  · rw [hsame 0x0002 (by decide)]
    exact htidy.direction

section Stores

variable (hsafe : ∀ store ∈ stores, SafeStore cell store)

include hsafe

theorem Tidy.storeAll (htidy : Tidy cell) : Tidy (storeAll cell stores) := by
  refine ⟨fun address hfirst hlast => ?_, fun address haddress => ?_, ?_⟩
  · have hprogram : ¬GameCell address := by
      rintro (hgame | ⟨-, hgame⟩ | ⟨-, hgame⟩ | ⟨-, hgame⟩)
      · exact absurd (UInt16.le_trans hfirst hgame) (by decide)
      · exact absurd (UInt16.le_trans hfirst hgame) (by decide)
      · exact absurd (UInt16.le_trans hfirst hgame) (by decide)
      · exact UInt16.not_le.mpr hgame hfirst
    have hkept : Machine6502.storeAll cell stores address = cell address :=
      storeAll_of_ne fun store hstore hhere => hprogram (hhere ▸ (hsafe store hstore).inside)
    exact hkept.trans (htidy.program address hfirst hlast)
  · exact @storeAll_induction (· < 16) _ _ stores (htidy.color address haddress)
      fun store hstore hhere => (hsafe store hstore).color (hhere.symm ▸ haddress)
  · refine @storeAll_induction (fun byte => byte = 0 ∨ ∃ direction, byte = heading direction)
      _ _ stores htidy.direction fun store hstore hhere => ?_
    obtain ⟨direction, hturn, -⟩ := (hsafe store hstore).turn hhere
    exact .inr ⟨direction, hturn⟩

/-- The snake is never turned around. -/
theorem heading_storeAll {direction : Direction} (hheading : cell 0x0002 = heading direction) :
    ∃ next, storeAll cell stores 0x0002 = heading next ∧ next ≠ opposite direction := by
  refine @storeAll_induction (fun byte => ∃ next, byte = heading next ∧ next ≠ opposite direction)
    _ _ stores ⟨direction, hheading, ne_opposite direction⟩ fun store hstore hhere => ?_
  obtain ⟨next, hturn, hback⟩ := (hsafe store hstore).turn hhere
  refine ⟨next, hturn, ?_⟩
  rintro rfl
  rw [opposite_opposite] at hback
  exact hback hheading

end Stores

end Order

section Steps

variable {view : View} {input : Input} {cpu : Cpu}

/-- A play goes on, unless the snake is too long or the game is over. -/
theorem plays_cases (hplays : Plays view) :
    Proceeds view ∨ (InGame view.pc ∧ 0x80 < view.storage.cell 0x0003) ∨
      (view.pc = 0x0735 ∧ view.storage.cell 0x0735 = 0x00) := by
  cases hplays with
  | here hgoal =>
      cases hgoal with
      | loop hboard => exact .inl (proceeds_loop hboard)
      | overlong hpc hlength => exact .inr (.inl ⟨hpc, hlength⟩)
      | finished hbreak => exact .inr (.inr ⟨rfl, hbreak⟩)
  | next htakes htame hleads => exact .inl ⟨_, _, htakes, htame, hleads⟩

theorem pc_of_plays (hplays : Plays view) : 0x0600 ≤ view.pc ∧ view.pc ≤ 0x0735 := by
  rcases plays_cases hplays with ⟨_, _, -, ⟨hpc, -⟩, -⟩ | ⟨hpc, -⟩ | ⟨hpc, -⟩
  · exact ⟨hpc.1, UInt16.le_of_lt hpc.2⟩
  · exact ⟨hpc.1, UInt16.le_of_lt hpc.2⟩
  · rw [hpc]
    decide

theorem SafeStore.congr {cell other : UInt16 → UInt8} {store : UInt16 × UInt8}
    (hsafe : SafeStore cell store) (hsame : other 0x0002 = cell 0x0002) : SafeStore other store :=
  ⟨hsafe.inside, hsafe.color, hsame ▸ hsafe.turn⟩

theorem stepsWell_of_proceeds (hshows : view.Shows input cpu) (hprovided : Provided input)
    (htidy : Tidy cpu.read) (hproceeds : Proceeds view) :
    StepsWell cpu ∧ ∃ next, next.Shows input cpu.step.2 ∧ Plays next := by
  obtain ⟨stores, next, htakes, ⟨-, hsafe⟩, hplays⟩ := hproceeds
  obtain ⟨hgoes, hstores, hnext⟩ := htakes input cpu hshows
  have hcontinued := (Cpu.step_of_goesOn hgoes).1
  have hread := Cpu.read_step hshows.full
  have hsafe : ∀ store ∈ cpu.stores, SafeStore cpu.read store := fun store hstore =>
    (hsafe store (hstores ▸ hstore)).congr (hshows.read (by decide))
  have hpc := pc_of_plays (hplays input hprovided)
  refine ⟨⟨?_, ?_, fun store hstore => (hsafe store hstore).inside, ?_, ?_, ?_, ?_⟩,
    _, hnext, hplays input hprovided⟩
  · simp [hcontinued]
  · simp [hcontinued]
  · intro address haddress
    rw [hread]
    exact storeAll_of_ne fun store hstore hhere => haddress (hhere ▸ (hsafe store hstore).inside)
  · intro direction hheading
    rw [hread]
    exact heading_storeAll hsafe hheading
  · rw [hnext.pc]
    exact ⟨hpc.1, UInt16.le_trans hpc.2 (by decide)⟩
  · rw [hread]
    exact htidy.storeAll hsafe

theorem stepsWell_of_over (hshows : view.Shows input cpu) (htidy : Tidy cpu.read)
    (hpc : view.pc = 0x0735) (hbreak : view.storage.cell 0x0735 = 0x00) :
    StepsWell cpu ∧ cpu.step.1 = .halted := by
  have hpc' : cpu.pc = 0x0735 := hshows.pc.trans hpc
  have hcode : cpu.code = 0x00 := by
    rw [Cpu.code, hpc', hshows.read (by decide)]
    exact hbreak
  have hread : cpu.step.2.read = cpu.read := by
    rw [Cpu.read_step hshows.full, Cpu.stores_of_break hcode]
    rfl
  have hnext : cpu.step.2.pc = 0x0736 := by
    rw [Cpu.step_of_break hcode]
    exact congrArg (· + 1) hpc'
  have hhalted : cpu.step.1 = .halted := by
    rw [Cpu.step_of_break hcode]
  refine ⟨⟨by simp [hhalted], fun _ => hpc', ?_, ?_, ?_, ?_, hread.symm ▸ htidy⟩, hhalted⟩
  · simp [Cpu.stores_of_break hcode]
  · exact fun address _ => congrFun hread address
  · intro direction hheading
    exact ⟨direction, (congrFun hread _).trans hheading, ne_opposite direction⟩
  · rw [hnext]
    decide

theorem stepsWell_of_plays (hshows : view.Shows input cpu) (hprovided : Provided input)
    (htidy : Tidy cpu.read) (hplays : Plays view) (hlength : cpu.read 0x0003 ≤ 0x80) :
    StepsWell cpu ∧
      (cpu.step.1 ≠ .halted → ∃ next, next.Shows input cpu.step.2 ∧ Plays next) := by
  rcases plays_cases hplays with hproceeds | ⟨-, hlong⟩ | ⟨hpc, hbreak⟩
  · obtain ⟨hwell, hnext⟩ := stepsWell_of_proceeds hshows hprovided htidy hproceeds
    exact ⟨hwell, fun _ => hnext⟩
  · rw [hshows.read (by decide)] at hlength
    exact absurd hlong (UInt8.not_lt.mpr hlength)
  · obtain ⟨hwell, hhalted⟩ := stepsWell_of_over hshows htidy hpc hbreak
    exact ⟨hwell, fun hgoes => absurd hhalted hgoes⟩

end Steps

section Plays

/-- A machine in the middle of a play. -/
structure InPlay (cpu : Cpu) : Prop where
  tidy : Tidy cpu.read
  plays : ∃ view input, view.Shows input cpu ∧ Plays view

variable {cpu : Cpu} {turn : Turn}

theorem InPlay.inOrder (hplay : InPlay cpu) : InOrder cpu := by
  obtain ⟨htidy, view, input, hshows, hplays⟩ := hplay
  obtain ⟨hfirst, hlast⟩ := pc_of_plays hplays
  rw [← hshows.pc] at hfirst hlast
  exact ⟨⟨hfirst, UInt16.le_trans hlast (by decide)⟩, htidy⟩

/-- A turn changes nothing that the game depends on. -/
theorem InPlay.take (hplay : InPlay cpu) (turn : Turn) :
    InPlay (turn.take cpu) ∧ ∀ address, ¬HostCell address →
      (turn.take cpu).read address = cpu.read address := by
  obtain ⟨htidy, view, input, hshows, hplays⟩ := hplay
  have htaken := turn.shows_take hshows
  have hsame : ∀ address, ¬HostCell address → (turn.take cpu).read address = cpu.read address :=
    fun address haddress => (htaken.read haddress).trans (hshows.read haddress).symm
  exact ⟨⟨htidy.congr hsame, view, _, htaken, hplays⟩, hsame⟩

theorem InPlay.round (hplay : InPlay cpu) (hfair : turn.Fair) (hlength : cpu.read 0x0003 ≤ 0x80) :
    InOrder (turn.take cpu) ∧ StepsWell (turn.take cpu) ∧
      ((turn.take cpu).step.1 ≠ .halted → InPlay (turn.take cpu).step.2) := by
  obtain ⟨htaken, hsame⟩ := hplay.take turn
  obtain ⟨-, view, input, hshows, hplays⟩ := hplay
  rw [← hsame 0x0003 (by decide)] at hlength
  obtain ⟨hwell, hnext⟩ :=
    stepsWell_of_plays (turn.shows_take hshows) hfair htaken.tidy hplays hlength
  refine ⟨htaken.inOrder, hwell, fun hgoes => ⟨hwell.next.tidy, ?_⟩⟩
  obtain ⟨next, hshows', hplays'⟩ := hnext hgoes
  exact ⟨next, _, hshows', hplays'⟩

theorem read_boot_of_lt {address : UInt16} (haddress : address < 0x0600) :
    Program.snake.boot.read address = 0 := by
  refine Program.read_boot fits_program (UInt16.lt_trans haddress (by decide)) fun hinside => ?_
  exact absurd (UInt16.lt_iff_toNat_lt.mp haddress) (Nat.not_lt.mpr hinside.1)

theorem pc_boot : Program.snake.boot.pc = 0x0600 :=
  Cpu.pc_reset_loadAt Memory.size_blank

theorem inPlay_boot : InPlay Program.snake.boot := by
  have hunset := read_boot_of_lt (by decide : (0x0002 : UInt16) < _)
  have hover : Program.snake.boot.read 0x0735 = 0 :=
    Program.read_boot fits_program (by decide) (by decide +kernel)
  refine ⟨⟨fun _ _ _ => rfl, fun address haddress => ?_, .inl hunset⟩,
    ofCpu Program.snake.boot, _, shows_ofCpu (Program.size_boot Program.snake), ?_⟩
  · rw [read_boot_of_lt haddress.2]
    decide
  · rw [ofCpu, pc_boot]
    exact plays_start ⟨Program.stands_boot fits_program (by decide), hover⟩ hunset

variable {turns : Nat → Turn}

theorem inPlay_played (hfair : ∀ number, (turns number).Fair) {number : Nat}
    (hgoes : ∀ earlier < number, (played turns earlier).read 0x0003 ≤ 0x80 ∧
      (turned turns earlier).step.1 ≠ .halted) : InPlay (played turns number) := by
  induction number with
  | zero => exact inPlay_boot
  | succ number ih =>
      have hplay := ih fun earlier hearlier => hgoes earlier (Nat.lt_succ_of_lt hearlier)
      obtain ⟨hlength, hgoes'⟩ := hgoes number (Nat.lt_succ_self number)
      rw [played_succ]
      exact (hplay.round (hfair number) hlength).2.2 hgoes'

/-- In a play in which no snake was too long and no step halted before, the machine is in
order, and unless the snake is too long now, the next step does well. -/
theorem play_safe (turns : Nat → Turn) (hfair : ∀ number, (turns number).Fair) (number : Nat)
    (hgoes : ∀ earlier < number, (played turns earlier).read 0x0003 ≤ 0x80 ∧
      (turned turns earlier).step.1 ≠ .halted) :
    InOrder (played turns number) ∧
      ((played turns number).read 0x0003 ≤ 0x80 →
        InOrder (turned turns number) ∧ StepsWell (turned turns number)) := by
  have hplay := inPlay_played hfair hgoes
  refine ⟨hplay.inOrder, fun hlength => ?_⟩
  obtain ⟨horder, hwell, -⟩ := hplay.round (hfair number) hlength
  exact ⟨horder, hwell⟩

theorem play_safe_up_pressed :
    let turns : Nat → Turn := fun _ => ⟨some 0x77, 5⟩
    (∀ number, (turns number).Fair) ∧
      (∀ earlier < 1, (played turns earlier).read 0x0003 ≤ 0x80 ∧
        (turned turns earlier).step.1 ≠ .halted) ∧
      StepsWell (turned turns 0) ∧ InOrder (played turns 1) := by
  intro turns
  have hfair : ∀ number, (turns number).Fair := fun _ => ⟨by decide, by decide⟩
  have hlength : (played turns 0).read 0x0003 ≤ 0x80 := by
    rw [played, Function.iterate_zero, id, read_boot_of_lt (by decide)]
    decide
  have hstart : StepsWell (turned turns 0) :=
    ((play_safe turns hfair 0 fun _ hlt => absurd hlt (Nat.not_lt_zero _)).2 hlength).2
  have hpc : (turned turns 0).pc = 0x0600 := pc_boot
  have hgoes : ∀ earlier < 1, (played turns earlier).read 0x0003 ≤ 0x80 ∧
      (turned turns earlier).step.1 ≠ .halted := by
    intro earlier hearlier
    obtain rfl : earlier = 0 := by omega
    refine ⟨hlength, fun hhalted => ?_⟩
    exact absurd (hpc.symm.trans (hstart.halts hhalted)) (by decide)
  exact ⟨hfair, hgoes, hstart, (play_safe turns hfair 1 hgoes).1⟩

end Plays

end Snake

end Machine6502
