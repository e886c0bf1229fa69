import Machine6502.Proofs.SnakeMove

/-!
# The board of the snake game

What stands in the cells of the game between its routines, and what the game may store.  A
play is followed to the next time around the loop, to the end of the game, or to a snake
that is too long for its cells.
-/

namespace Machine6502

namespace Snake

open View

def opposite : Direction → Direction
  | .up => .down
  | .right => .left
  | .down => .up
  | .left => .right

theorem heading_inj {direction other : Direction} :
    heading direction = heading other ↔ direction = other := by
  cases direction <;> cases other <;> decide

/-- A direction is a bit of its own. -/
theorem heading_and_heading {direction other : Direction} :
    heading direction &&& heading other = 0 ↔ direction ≠ other := by
  cases direction <;> cases other <;> decide

/-- The high byte of an address in the frame buffer. -/
def Page (high : UInt8) : Prop :=
  0x02 ≤ high ∧ high ≤ 0x05

instance : DecidablePred Page :=
  fun high => inferInstanceAs (Decidable (0x02 ≤ high ∧ high ≤ 0x05))

def FrameCell (address : UInt16) : Prop :=
  0x0200 ≤ address ∧ address < 0x0600

instance : DecidablePred FrameCell :=
  fun address => inferInstanceAs (Decidable (0x0200 ≤ address ∧ address < 0x0600))

theorem frameCell_of_page (low : UInt8) {high : UInt8} (hpage : Page high) :
    FrameCell (wordOf low high) := by
  have hlow := low.toNat_lt
  have hword := toNat_wordOf low high
  have hfirst := UInt8.le_iff_toNat_le.mp hpage.1
  have hlast := UInt8.le_iff_toNat_le.mp hpage.2
  have hsecond : (0x02 : UInt8).toNat = 2 := rfl
  have hfifth : (0x05 : UInt8).toNat = 5 := rfl
  refine ⟨UInt16.le_iff_toNat_le.mpr ?_, UInt16.lt_iff_toNat_lt.mpr ?_⟩
  · exact Nat.le_trans (by decide : _ ≤ 0x0200) (by omega)
  · exact Nat.lt_of_lt_of_le (by omega : _ < 0x0600) (by decide)

section Stores

/-- A cell of the stack that the game uses: it calls no deeper than four times. -/
def CallCell (address : UInt16) : Prop :=
  0x01F6 ≤ address ∧ address ≤ 0x01FD

instance : DecidablePred CallCell :=
  fun address => inferInstanceAs (Decidable (0x01F6 ≤ address ∧ address ≤ 0x01FD))

/-- The cells that the game writes. -/
def GameCell (address : UInt16) : Prop :=
  address ≤ 0x0003 ∨ BodyCell address ∨ CallCell address ∨ FrameCell address

instance : DecidablePred GameCell :=
  fun address => inferInstanceAs
    (Decidable (address ≤ 0x0003 ∨ BodyCell address ∨ CallCell address ∨ FrameCell address))

/-- A store of the game.  Only colors go to the frame buffer, and the direction is never
turned around. -/
structure SafeStore (cell : UInt16 → UInt8) (store : UInt16 × UInt8) : Prop where
  inside : GameCell store.1
  color : FrameCell store.1 → store.2 < 16
  turn : store.1 = 0x0002 → ∃ direction,
    store.2 = heading direction ∧ cell 0x0002 ≠ heading (opposite direction)

variable {cell : UInt16 → UInt8} {address : UInt16} {value : UInt8}

theorem SafeStore.of_plain (hinside : GameCell address) (hframe : ¬FrameCell address)
    (hdirection : address ≠ 0x0002) : SafeStore cell (address, value) :=
  ⟨hinside, fun hhere => absurd hhere hframe, fun hhere => absurd hhere hdirection⟩

theorem SafeStore.of_bodyCell (haddress : BodyCell address) : SafeStore cell (address, value) := by
  refine .of_plain (.inr (.inl haddress)) (fun hframe => ?_) ?_
  · exact absurd (UInt16.le_trans hframe.1 haddress.2) (by decide)
  · rintro rfl
    exact absurd haddress (by decide)

theorem SafeStore.of_callCell (haddress : CallCell address) : SafeStore cell (address, value) := by
  refine .of_plain (.inr (.inr (.inl haddress))) (fun hframe => ?_) ?_
  · exact absurd (UInt16.le_trans hframe.1 haddress.2) (by decide)
  · rintro rfl
    exact absurd haddress (by decide)

theorem SafeStore.of_frameCell (haddress : FrameCell address) (hcolor : value < 16) :
    SafeStore cell (address, value) := by
  refine ⟨.inr (.inr (.inr haddress)), fun _ => hcolor, ?_⟩
  rintro rfl
  exact absurd haddress (by decide)

end Stores

section Board

/-- The program and the break behind it. -/
structure Loaded (cell : UInt16 → UInt8) : Prop where
  stands : Program.snake.Stands cell
  behind : cell 0x0735 = 0x00

/-- The pointers to the head and to the parts behind it, so many of them, go into the frame
buffer. -/
def Paged (cell : UInt16 → UInt8) (count : Nat) : Prop :=
  ∀ index < count, Page (cell (UInt16.ofNat (0x11 + 2 * index)))

/-- The snake: its direction, its length in bytes, and its pointers. -/
structure Body (cell : UInt16 → UInt8) (parts count : Nat) : Prop extends Loaded cell where
  heading : ∃ direction, cell 0x0002 = heading direction
  length : (cell 0x0003).toNat = 2 * parts
  two_le : 2 ≤ parts
  le : parts ≤ 0x40
  count_le : count ≤ parts + 1
  paged : Paged cell count

/-- The snake and the apple. -/
structure Board (cell : UInt16 → UInt8) (parts count : Nat) : Prop
    extends Body cell parts count where
  apple : Page (cell 0x0001)

variable {cell other : UInt16 → UInt8} {parts count : Nat}

theorem Loaded.congr (hloaded : Loaded cell)
    (hsame : ∀ address, 0x0600 ≤ address → other address = cell address) : Loaded other :=
  ⟨hloaded.stands.congr hsame, (hsame 0x0735 (by decide)).trans hloaded.behind⟩

theorem Loaded.update (hloaded : Loaded cell) {address : UInt16} (hbelow : address < 0x0600)
    (value : UInt8) : Loaded (Function.update cell address value) := by
  refine hloaded.congr fun other hother => Function.update_of_ne ?_ _ _
  rintro rfl
  exact absurd hbelow (UInt16.not_lt.mpr hother)

theorem bodyCell_of_lt {index : Nat} (hindex : index < 0x41) :
    BodyCell (UInt16.ofNat (0x11 + 2 * index)) := by
  have hplace : (UInt16.ofNat (0x11 + 2 * index)).toNat = 0x11 + 2 * index :=
    toNat_ofNat_of_lt (by omega)
  rw [BodyCell, UInt16.le_iff_toNat_le, UInt16.le_iff_toNat_le, hplace]
  exact ⟨by simp; omega, by simp; omega⟩

theorem Paged.congr (hpaged : Paged cell count) (hcount : count ≤ 0x41)
    (hsame : ∀ address, BodyCell address → other address = cell address) : Paged other count := by
  intro index hindex
  rw [hsame _ (bodyCell_of_lt (by omega))]
  exact hpaged index hindex

theorem Paged.update (hpaged : Paged cell count) (hcount : count ≤ 0x41) {address : UInt16}
    (haddress : ¬BodyCell address) (value : UInt8) :
    Paged (Function.update cell address value) count := by
  refine hpaged.congr hcount fun other hother => Function.update_of_ne ?_ _ _
  rintro rfl
  exact haddress hother

theorem Body.count_le_cells (hbody : Body cell parts count) : count ≤ 0x41 :=
  Nat.le_trans hbody.count_le (Nat.succ_le_succ hbody.le)

theorem Body.lower (hbody : Body cell parts count) {fewer : Nat} (hfewer : fewer ≤ count) :
    Body cell parts fewer :=
  { hbody with
    count_le := Nat.le_trans hfewer hbody.count_le
    paged := fun index hindex => hbody.paged index (Nat.lt_of_lt_of_le hindex hfewer) }

/-- Stack and frame buffer, which hold nothing of snake and apple. -/
def Scratch (address : UInt16) : Prop :=
  0x0100 ≤ address ∧ address < 0x0600

instance : DecidablePred Scratch :=
  fun address => inferInstanceAs (Decidable (0x0100 ≤ address ∧ address < 0x0600))

theorem not_scratch_of_bodyCell {address : UInt16} (haddress : BodyCell address) :
    ¬Scratch address :=
  fun hscratch => absurd (UInt16.le_trans hscratch.1 haddress.2) (by decide)

theorem not_scratch_of_le {address : UInt16} (haddress : 0x0600 ≤ address) : ¬Scratch address :=
  fun hscratch => UInt16.not_le.mpr hscratch.2 haddress

section Congr

variable (hsame : ∀ address, ¬Scratch address → other address = cell address)

include hsame

theorem Body.congr (hbody : Body cell parts count) : Body other parts count where
  toLoaded := hbody.toLoaded.congr fun _ haddress => hsame _ (not_scratch_of_le haddress)
  heading := by
    rw [hsame 0x0002 (by decide)]
    exact hbody.heading
  length := by
    rw [hsame 0x0003 (by decide)]
    exact hbody.length
  two_le := hbody.two_le
  le := hbody.le
  count_le := hbody.count_le
  paged := hbody.paged.congr hbody.count_le_cells fun _ haddress =>
    hsame _ (not_scratch_of_bodyCell haddress)

theorem Board.congr (hboard : Board cell parts count) : Board other parts count where
  toBody := hboard.toBody.congr hsame
  apple := by
    rw [hsame 0x0001 (by decide)]
    exact hboard.apple

end Congr

end Board

section Plays

/-- A place in the program. -/
def InGame (pc : UInt16) : Prop :=
  0x0600 ≤ pc ∧ pc < 0x0735

instance : DecidablePred InGame :=
  fun pc => inferInstanceAs (Decidable (0x0600 ≤ pc ∧ pc < 0x0735))

/-- The random bytes are colors, and none is black. -/
def Provided (input : Input) : Prop :=
  1 ≤ input.random ∧ input.random < 16

def Tame (view : View) (stores : List (UInt16 × UInt8)) : Prop :=
  InGame view.pc ∧ ∀ store ∈ stores, SafeStore view.storage.cell store

/-- Where a play is followed to: the loop, a snake that is too long, or the break. -/
inductive Checkpoint : View → Prop
  | loop {status : Status} {a x y : UInt8} {cell : UInt16 → UInt8} {parts : Nat}
      (hboard : Board cell parts (parts + 1)) : Checkpoint ⟨0x0638, status, ⟨a, x, y, 0xFB, cell⟩⟩
  | overlong {pc : UInt16} {status : Status} {a x y s : UInt8} {cell : UInt16 → UInt8}
      (hpc : InGame pc) (hlength : 0x80 < cell 0x0003) : Checkpoint ⟨pc, status, ⟨a, x, y, s, cell⟩⟩
  | finished {status : Status} {a x y s : UInt8} {cell : UInt16 → UInt8}
      (hbreak : cell 0x0735 = 0x00) : Checkpoint ⟨0x0735, status, ⟨a, x, y, s, cell⟩⟩

/-- Whatever the host does, the game goes on well to one of the points that a play is
followed to. -/
def Plays (view : View) : Prop :=
  Leads Provided Tame Checkpoint view

/-- A step goes on well, and so does the game after it. -/
def Proceeds (view : View) : Prop :=
  ∃ stores next, view.Takes stores next ∧ Tame view stores ∧
    ∀ input, Provided input → Plays (next input)

theorem Proceeds.plays {view : View} (hproceeds : Proceeds view) : Plays view := by
  obtain ⟨stores, next, htakes, htame, hplays⟩ := hproceeds
  exact .next htakes htame hplays

variable {cell other : UInt16 → UInt8} {pc target : UInt16} {status : Status} {storage : Storage}
variable {a x y s : UInt8} {next : View}

theorem Plays.step (hpc : InGame pc) (htakes : Takes ⟨pc, status, storage⟩ [] fun _ => next)
    (hplays : Plays next) : Plays ⟨pc, status, storage⟩ :=
  Leads.step htakes ⟨hpc, by simp⟩ hplays

theorem Plays.input {next : Input → View} (hpc : InGame pc)
    (htakes : Takes ⟨pc, status, storage⟩ [] next)
    (hplays : ∀ input, Provided input → Plays (next input)) : Plays ⟨pc, status, storage⟩ :=
  .next htakes ⟨hpc, by simp⟩ hplays

theorem Plays.store {address : UInt16} {value : UInt8} (hpc : InGame pc)
    (hsafe : SafeStore cell (address, value))
    (htakes : Takes ⟨pc, status, ⟨a, x, y, s, cell⟩⟩ [(address, value)] fun _ => next)
    (hplays : Plays next) : Plays ⟨pc, status, ⟨a, x, y, s, cell⟩⟩ :=
  Leads.step htakes ⟨hpc, by simpa using hsafe⟩ hplays

theorem coversMove_tame : CoversMove Tame := by
  intro view stores hpc hstores
  refine ⟨⟨UInt16.le_trans (by decide) hpc.1, UInt16.lt_of_le_of_lt hpc.2.1 (by decide)⟩, ?_⟩
  exact fun store hstore => .of_bodyCell (hstores store hstore)

end Plays

section Calls

/-- The address that a return finds on the stack. -/
def Returns (cell : UInt16 → UInt8) (s : UInt8) (target : UInt16) : Prop :=
  wordOf (cell (Storage.stackCell (s + 1))) (cell (Storage.stackCell (s + 2))) + 1 = target

variable {cell other : UInt16 → UInt8} {pc target : UInt16} {status : Status}
variable {a x y s : UInt8}

theorem Returns.congr (hreturns : Returns cell s target)
    (hlow : other (Storage.stackCell (s + 1)) = cell (Storage.stackCell (s + 1)))
    (hhigh : other (Storage.stackCell (s + 2)) = cell (Storage.stackCell (s + 2))) :
    Returns other s target := by
  rw [Returns, hlow, hhigh]
  exact hreturns

theorem stackCell_mem_page (pointer : UInt8) :
    0x0100 ≤ Storage.stackCell pointer ∧ Storage.stackCell pointer < 0x0200 := by
  revert pointer
  exact forall_byte (by decide +kernel)

/-- Stores outside the stack leave the address there. -/
theorem Returns.congr_outside (hreturns : Returns cell s target)
    (hsame : ∀ address, 0x0100 ≤ address → address < 0x0200 → other address = cell address) :
    Returns other s target := by
  obtain ⟨hlow, hlow'⟩ := stackCell_mem_page (s + 1)
  obtain ⟨hhigh, hhigh'⟩ := stackCell_mem_page (s + 2)
  exact hreturns.congr (hsame _ hlow hlow') (hsame _ hhigh hhigh')

theorem Plays.rts (hloaded : Loaded cell) (hpc : InGame pc)
    (hline : Program.snake.line pc 1 = [0x60]) (hreturns : Returns cell s target) {outer : UInt8}
    (houter : s + 2 = outer) (hplays : Plays ⟨target, status, ⟨a, x, y, outer, cell⟩⟩) :
    Plays ⟨pc, status, ⟨a, x, y, s, cell⟩⟩ := by
  rw [Returns] at hreturns
  subst hreturns houter
  exact .step hpc (hloaded.stands.rts hline) hplays

/-- What a call leaves: the address behind it on the stack, and nothing else changed. -/
structure Called (cell other : UInt16 → UInt8) (s : UInt8) (pc : UInt16) : Prop where
  returns : Returns other (s - 1 - 1) (pc + 3)
  kept : ∀ address, address ≠ Storage.stackCell s → address ≠ Storage.stackCell (s - 1) →
    other address = cell address

theorem called_update (cell : UInt16 → UInt8) (s : UInt8) (pc : UInt16) :
    Called cell (Function.update (Function.update cell (Storage.stackCell s) (highByte (pc + 2)))
      (Storage.stackCell (s - 1)) (lowByte (pc + 2))) s pc := by
  have hother : Storage.stackCell s ≠ Storage.stackCell (s - 1) := by
    revert s
    exact forall_byte (by decide +kernel)
  have hlow : s - 1 - 1 + 1 = s - 1 := UInt8.sub_add_cancel _ _
  have hhigh : s - 1 - 1 + 2 = s := by
    revert s
    exact forall_byte (by decide +kernel)
  refine ⟨?_, fun address hfirst hsecond => ?_⟩
  · rw [Returns, hlow, hhigh, Function.update_self, Function.update_of_ne hother,
      Function.update_self, wordOf_bytes, UInt16.add_assoc]
    rfl
  · rw [Function.update_of_ne hsecond, Function.update_of_ne hfirst]

/-- A call keeps what lies above the two cells that it writes. -/
theorem Called.kept_of_lt (hcalled : Called cell other s pc) {bound address : UInt16}
    (hbound : Storage.stackCell s < bound ∧ Storage.stackCell (s - 1) < bound)
    (haddress : bound ≤ address) : other address = cell address :=
  hcalled.kept address (Ne.symm (UInt16.ne_of_lt (UInt16.lt_of_lt_of_le hbound.1 haddress)))
    (Ne.symm (UInt16.ne_of_lt (UInt16.lt_of_lt_of_le hbound.2 haddress)))

theorem Called.not_page (hcalled : Called cell other s pc) {address : UInt16}
    (haddress : ¬(0x0100 ≤ address ∧ address < 0x0200)) : other address = cell address := by
  refine hcalled.kept address ?_ ?_ <;>
    exact fun hhere => haddress (hhere ▸ stackCell_mem_page _)

theorem Called.loaded (hcalled : Called cell other s pc) (hloaded : Loaded cell) : Loaded other :=
  hloaded.congr fun _ haddress => hcalled.not_page fun hpage =>
    absurd (UInt16.lt_of_lt_of_le hpage.2 (UInt16.le_trans (by decide) haddress))
      (UInt16.lt_irrefl _)

theorem Called.board {parts count : Nat} (hcalled : Called cell other s pc)
    (hboard : Board cell parts count) : Board other parts count :=
  hboard.congr fun _ haddress => hcalled.not_page fun hpage =>
    haddress ⟨hpage.1, UInt16.lt_trans hpage.2 (by decide)⟩

theorem callCells : ∀ pointer : UInt8, 0xF7 ≤ pointer ∧ pointer ≤ 0xFD →
    CallCell (Storage.stackCell pointer) ∧ CallCell (Storage.stackCell (pointer - 1)) :=
  forall_byte (by decide +kernel)

theorem proceeds_call {low high : UInt8} (hloaded : Loaded cell) (hpc : InGame pc)
    (hdepth : 0xF7 ≤ s ∧ s ≤ 0xFD) (target : UInt16)
    (hline : Program.snake.line pc 3 = [0x20, low, high]) (htarget : wordOf low high = target)
    (hmissed : target ≠ pc + 1) (inner : UInt8) (hinner : s - 1 - 1 = inner)
    (hplays : ∀ other, Called cell other s pc →
      Plays ⟨target, status, ⟨a, x, y, inner, other⟩⟩) :
    Proceeds ⟨pc, status, ⟨a, x, y, s, cell⟩⟩ := by
  obtain ⟨hfirst, hsecond⟩ := callCells s hdepth
  subst hinner
  refine ⟨_, _, hloaded.stands.jsr target hline htarget hmissed, ⟨hpc, ?_⟩, fun _ _ => ?_⟩
  · simpa using ⟨.of_callCell hfirst, .of_callCell hsecond⟩
  · exact hplays _ (called_update cell s pc)

end Calls

end Snake

end Machine6502
