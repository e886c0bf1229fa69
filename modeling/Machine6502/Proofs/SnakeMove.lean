import Machine6502.Proofs.ProgramSteps

/-!
# The snake's move

The routine of the game that moves the snake, followed from its first line.  A loop copies
the pointers to head and body to the next places, from the last one down; then the pointer
to the head goes in the direction.  The routine comes to one of its returns, or jumps to
the break behind the program when the head has come to a wall.
-/

namespace Machine6502

namespace Snake

open View

/-- The code of a direction in the cell that the game keeps it in. -/
def heading : Direction → UInt8
  | .up => 1
  | .right => 2
  | .down => 4
  | .left => 8

theorem fits_program :
    Program.snake.origin.toNat + Program.snake.bytes.length ≤ Cpu.resetVector.toNat := by
  decide +kernel

/-- The lines of the routine that moves the snake, but for its returns. -/
def InMove (pc : UInt16) : Prop :=
  0x06C3 ≤ pc ∧ pc ≤ 0x0716 ∧ Program.snake.line pc 1 ≠ [0x60]

instance : DecidablePred InMove :=
  fun pc => inferInstanceAs
    (Decidable (0x06C3 ≤ pc ∧ pc ≤ 0x0716 ∧ Program.snake.line pc 1 ≠ [0x60]))

/-- A return of the routine that moves the snake. -/
def MoveReturn (pc : UInt16) : Prop :=
  0x06C3 ≤ pc ∧ pc ≤ 0x0716 ∧ Program.snake.line pc 1 = [0x60]

instance : DecidablePred MoveReturn :=
  fun pc => inferInstanceAs
    (Decidable (0x06C3 ≤ pc ∧ pc ≤ 0x0716 ∧ Program.snake.line pc 1 = [0x60]))

/-- A cell of the head or of the body. -/
def BodyCell (address : UInt16) : Prop :=
  0x10 ≤ address ∧ address ≤ 0x91

instance : DecidablePred BodyCell :=
  fun address => inferInstanceAs (Decidable (0x10 ≤ address ∧ address ≤ 0x91))

/-- What is asked of views and stores on the way holds of the lines of the routine as long as
they store to head and body only. -/
def CoversMove (along : View → List (UInt16 × UInt8) → Prop) : Prop :=
  ∀ view stores, InMove view.pc → (∀ store ∈ stores, BodyCell store.1) → along view stores

variable {provided : Input → Prop} {along : View → List (UInt16 × UInt8) → Prop}
variable {goal : View → Prop} {next : View} {cell : UInt16 → UInt8} {status : Status}
variable {a x y s : UInt8}

section Lines

variable {pc : UInt16} {storage : Storage} (hcovers : CoversMove along)

include hcovers

theorem CoversMove.step (hpc : InMove pc)
    (htakes : Takes ⟨pc, status, storage⟩ [] fun _ => next)
    (hleads : Leads provided along goal next) :
    Leads provided along goal ⟨pc, status, storage⟩ :=
  .step htakes (hcovers _ _ hpc (by simp)) hleads

theorem CoversMove.store {address : UInt16} {value : UInt8} (hpc : InMove pc)
    (haddress : BodyCell address)
    (htakes : Takes ⟨pc, status, storage⟩ [(address, value)] fun _ => next)
    (hleads : Leads provided along goal next) :
    Leads provided along goal ⟨pc, status, storage⟩ :=
  .step htakes (hcovers _ _ hpc (by simpa using haddress)) hleads

end Lines

section Shift

theorem toNat_ofNat_of_lt {number : Nat} (hlt : number < 65536) :
    (UInt16.ofNat number).toNat = number :=
  UInt16.toNat_ofNat_of_lt' hlt

/-- A cell of page zero that is named by an index. -/
theorem toUInt16_add_ofNat {base : UInt8} {index : Nat} (hfits : base.toNat + index < 0xFE) :
    base + UInt8.ofNat index < 0xFE ∧
      (base + UInt8.ofNat index).toUInt16 = UInt16.ofNat (base.toNat + index) := by
  have hsum : (base + UInt8.ofNat index).toNat = base.toNat + index := by
    rw [UInt8.toNat_add, UInt8.toNat_ofNat']
    omega
  refine ⟨UInt8.lt_iff_toNat_lt.mpr (hsum ▸ hfits), UInt16.toNat_inj.mp ?_⟩
  rw [UInt8.toNat_toUInt16, hsum, toNat_ofNat_of_lt (by omega)]

theorem ofNat_succ_sub_one (number : Nat) :
    UInt8.ofNat (number + 1) - 1 = UInt8.ofNat number := by
  rw [UInt8.ofNat_add]
  exact UInt8.add_sub_cancel _ _

/-- The cells of head and body have been copied to the next two, up to an index. -/
def shifted (cell : UInt16 → UInt8) (index : Nat) (address : UInt16) : UInt8 :=
  if 0x12 ≤ address.toNat ∧ address.toNat ≤ 0x12 + index then cell (address - 2) else cell address

/-- One copy, to the cell with an index. -/
def copied (cell : UInt16 → UInt8) (index : Nat) : UInt16 → UInt8 :=
  Function.update cell (UInt16.ofNat (0x12 + index)) (cell (UInt16.ofNat (0x10 + index)))

theorem shifted_of_lt {address : UInt16} (haddress : address < 0x12) (index : Nat) :
    shifted cell index address = cell address :=
  if_neg fun hinside => absurd (UInt16.lt_iff_toNat_lt.mp haddress) (Nat.not_lt.mpr hinside.1)

theorem shifted_of_not_bodyCell {address : UInt16} (haddress : ¬BodyCell address) {index : Nat}
    (hindex : index < 0x80) : shifted cell index address = cell address := by
  refine if_neg fun hinside =>
    haddress ⟨UInt16.le_iff_toNat_le.mpr ?_, UInt16.le_iff_toNat_le.mpr ?_⟩
  · exact Nat.le_trans (by decide) hinside.1
  · have hlast : (0x91 : UInt16).toNat = 0x91 := rfl
    omega

theorem toNat_sub_two {address : UInt16} (haddress : 2 ≤ address.toNat) :
    (address - 2).toNat = address.toNat - 2 :=
  UInt16.toNat_sub_of_le address 2 (UInt16.le_iff_toNat_le.mpr haddress)

theorem copied_of_ne {address : UInt16} {index : Nat} (hindex : index < 0x80)
    (hother : address.toNat ≠ 0x12 + index) : copied cell index address = cell address := by
  refine Function.update_of_ne (fun hhere => hother ?_) _ _
  rw [hhere, toNat_ofNat_of_lt (by omega)]

theorem copied_at {address : UInt16} {index : Nat} (hindex : index < 0x80)
    (hhere : address.toNat = 0x12 + index) : copied cell index address = cell (address - 2) := by
  have haddress : address = UInt16.ofNat (0x12 + index) := by
    apply UInt16.toNat_inj.mp
    rw [hhere, toNat_ofNat_of_lt (by omega)]
  have hsource : address - 2 = UInt16.ofNat (0x10 + index) := by
    apply UInt16.toNat_inj.mp
    rw [toNat_sub_two (by omega), toNat_ofNat_of_lt (by omega)]
    omega
  rw [copied, haddress, Function.update_self, ← haddress, hsource]

theorem shifted_zero : shifted cell 0 = copied cell 0 := by
  funext address
  by_cases hhere : address.toNat = 0x12 + 0
  · rw [shifted, if_pos (by omega), copied_at (by decide) hhere]
  · rw [shifted, if_neg (by omega), copied_of_ne (by decide) hhere]

/-- The copies go downwards, so none reads a cell that another has written before. -/
theorem shifted_copied {index : Nat} (hindex : index + 1 < 0x80) :
    shifted (copied cell (index + 1)) index = shifted cell (index + 1) := by
  funext address
  rw [shifted, shifted]
  by_cases hinside : 0x12 ≤ address.toNat ∧ address.toNat ≤ 0x12 + index
  · have hsource := @toNat_sub_two address (by omega)
    rw [if_pos hinside, if_pos (by omega), copied_of_ne hindex (by omega)]
  · rw [if_neg hinside]
    by_cases hhere : address.toNat = 0x12 + (index + 1)
    · rw [if_pos (by omega), copied_at hindex hhere]
    · rw [if_neg (by omega), copied_of_ne hindex hhere]

end Shift

section Routine

variable (hcovers : CoversMove along)

include hcovers

/-- One round of the loop that copies, up to its test. -/
theorem leads_copy {index : Nat} (hindex : index < 0x80) (hstands : Program.snake.Stands cell)
    (hnext : ∀ (status : Status) a, Leads provided along goal
      ⟨0x06CC, status.recording (UInt8.ofNat index - 1),
        ⟨a, UInt8.ofNat index - 1, y, s, copied cell index⟩⟩) :
    Leads provided along goal ⟨0x06C7, status, ⟨a, UInt8.ofNat index, y, s, cell⟩⟩ := by
  have hbase : (0x10 : UInt8).toNat = 0x10 := rfl
  have hbase' : (0x12 : UInt8).toNat = 0x12 := rfl
  obtain ⟨hsource, hsource'⟩ := @toUInt16_add_ofNat 0x10 index (by omega)
  obtain ⟨htarget, htarget'⟩ := @toUInt16_add_ofNat 0x12 index (by omega)
  have hplace : (UInt16.ofNat (0x12 + index)).toNat = 0x12 + index :=
    toNat_ofNat_of_lt (by omega)
  have hbody : BodyCell (0x12 + UInt8.ofNat index).toUInt16 := by
    rw [htarget', hbase', BodyCell, UInt16.le_iff_toNat_le, UInt16.le_iff_toNat_le, hplace]
    exact ⟨by simp; omega, by simp; omega⟩
  have hbelow : (0x12 + UInt8.ofNat index).toUInt16 < Program.snake.origin :=
    UInt16.lt_of_le_of_lt hbody.2 (by decide)
  have hcopied : Function.update cell (0x12 + UInt8.ofNat index).toUInt16
      (cell (0x10 + UInt8.ofNat index).toUInt16) = copied cell index := by
    rw [htarget', hsource']
    rfl
  refine hcovers.step (by decide) (hstands.lda_zeroPageX hsource rfl) ?_
  refine hcovers.store (by decide) hbody (hstands.sta_zeroPageX htarget rfl) ?_
  refine hcovers.step (by decide) ((hstands.update hbelow _).dex rfl) ?_
  rw [hcopied]
  exact hnext _ _

/-- The loop copies from the cell with the index downwards, and leaves when the index has
become negative. -/
theorem leads_shift {index : Nat} (hindex : index < 0x80) (hstands : Program.snake.Stands cell)
    (hnext : ∀ status a,
      Leads provided along goal ⟨0x06CE, status, ⟨a, 0xFF, y, s, shifted cell index⟩⟩) :
    Leads provided along goal ⟨0x06C7, status, ⟨a, UInt8.ofNat index, y, s, cell⟩⟩ := by
  induction index generalizing cell status a with
  | zero =>
      refine leads_copy hcovers hindex hstands fun status a => ?_
      have hstands' : Program.snake.Stands (copied cell 0) := hstands.update (by decide) _
      refine hcovers.step (by decide) (hstands'.branch_skipped rfl rfl rfl) ?_
      rw [← shifted_zero]
      exact hnext _ _
  | succ index ih =>
      refine leads_copy hcovers hindex hstands fun status a => ?_
      have hstands' : Program.snake.Stands (copied cell (index + 1)) := by
        refine hstands.update (UInt16.lt_iff_toNat_lt.mpr ?_) _
        rw [toNat_ofNat_of_lt (by omega)]
        exact Nat.lt_of_lt_of_le (by omega : _ < 0x100) (by decide)
      have hpositive : (UInt8.ofNat index).toNat.testBit 7 = false := by
        rw [UInt8.toNat_ofNat']
        exact Nat.testBit_lt_two_pow (by omega)
      rw [ofNat_succ_sub_one]
      refine hcovers.step (by decide) (hstands'.branch 0x06C7 rfl rfl hpositive rfl (by decide)) ?_
      refine ih (by omega) hstands' fun status a => ?_
      rw [shifted_copied hindex]
      exact hnext _ _

/-- Where the routine goes on for a direction. -/
def moveEntry : Direction → UInt16
  | .up => 0x06DC
  | .right => 0x06EF
  | .down => 0x06F8
  | .left => 0x070B

/-- The bit of the direction is shifted out of its code. -/
theorem leads_moveEntry {direction : Direction} (hstands : Program.snake.Stands cell)
    (hheading : cell 0x0002 = heading direction)
    (hnext : ∀ status a,
      Leads provided along goal ⟨moveEntry direction, status, ⟨a, x, y, s, cell⟩⟩) :
    Leads provided along goal ⟨0x06CE, status, ⟨a, x, y, s, cell⟩⟩ := by
  refine hcovers.step (by decide) (hstands.lda_zeroPage 0x0002 (by decide) rfl) ?_
  rw [hheading]
  refine hcovers.step (by decide) (hstands.lsr rfl) ?_
  cases direction with
  | up =>
      exact hcovers.step (by decide) (hstands.branch 0x06DC rfl rfl rfl rfl (by decide))
        (hnext _ _)
  | right =>
      refine hcovers.step (by decide) (hstands.branch_skipped rfl rfl rfl) ?_
      refine hcovers.step (by decide) (hstands.lsr rfl) ?_
      exact hcovers.step (by decide) (hstands.branch 0x06EF rfl rfl rfl rfl (by decide))
        (hnext _ _)
  | down =>
      refine hcovers.step (by decide) (hstands.branch_skipped rfl rfl rfl) ?_
      refine hcovers.step (by decide) (hstands.lsr rfl) ?_
      refine hcovers.step (by decide) (hstands.branch_skipped rfl rfl rfl) ?_
      refine hcovers.step (by decide) (hstands.lsr rfl) ?_
      exact hcovers.step (by decide) (hstands.branch 0x06F8 rfl rfl rfl rfl (by decide))
        (hnext _ _)
  | left =>
      refine hcovers.step (by decide) (hstands.branch_skipped rfl rfl rfl) ?_
      refine hcovers.step (by decide) (hstands.lsr rfl) ?_
      refine hcovers.step (by decide) (hstands.branch_skipped rfl rfl rfl) ?_
      refine hcovers.step (by decide) (hstands.lsr rfl) ?_
      refine hcovers.step (by decide) (hstands.branch_skipped rfl rfl rfl) ?_
      refine hcovers.step (by decide) (hstands.lsr rfl) ?_
      exact hcovers.step (by decide) (hstands.branch 0x070B rfl rfl rfl rfl (by decide))
        (hnext _ _)

end Routine

section Head

/-- The pointer to the head after a move; none when the move ends the game.  A move up takes
the head up by seven rows. -/
def headAfter (direction : Direction) (low high : UInt8) : Option (UInt8 × UInt8) :=
  match direction with
  | .up =>
      if 0xE0 ≤ low then some (low + 0x20, high)
      else if high - 1 = 0x01 then none else some (low + 0x20, high - 1)
  | .right => if 0x1F &&& (low + 1) = 0 then none else some (low + 1, high)
  | .down =>
      if low < 0xE0 then some (low + 0x20, high)
      else if high + 1 = 0x06 then none else some (low + 0x20, high + 1)
  | .left => if (low - 1) &&& 0x1F = 0x1F then none else some (low - 1, high)

/-- The cells with the pointer to the head set. -/
def withHead (cell : UInt16 → UInt8) (low high : UInt8) : UInt16 → UInt8 :=
  Function.update (Function.update cell 0x0010 low) 0x0011 high

theorem withHead_high (low : UInt8) :
    withHead cell low (cell 0x0011) = Function.update cell 0x0010 low := by
  have hhigh : cell 0x0011 = Function.update cell 0x0010 low 0x0011 :=
    (Function.update_of_ne (by decide) _ _).symm
  rw [withHead, hhigh, Function.update_eq_self]

variable (hcovers : CoversMove along)

/-- What is to be shown of the ends of the routine: its returns with the head at its place,
and the jump that ends the game. -/
structure MoveEnds (provided : Input → Prop) (along : View → List (UInt16 × UInt8) → Prop)
    (goal : View → Prop) (x y s : UInt8) (cell : UInt16 → UInt8)
    (head : Option (UInt8 × UInt8)) : Prop where
  returns : ∀ low high, head = some (low, high) → ∀ pc status a, MoveReturn pc →
    Leads provided along goal ⟨pc, status, ⟨a, x, y, s, withHead cell low high⟩⟩
  fails : head = none → ∀ status a moved,
    (∀ address, ¬BodyCell address → moved address = cell address) →
    Leads provided along goal ⟨0x0735, status, ⟨a, x, y, s, moved⟩⟩

theorem withHead_of_not_bodyCell {address : UInt16} (haddress : ¬BodyCell address)
    (low high : UInt8) : withHead cell low high address = cell address := by
  have hlow : address ≠ 0x0010 := by
    rintro rfl
    exact haddress (by decide)
  have hhigh : address ≠ 0x0011 := by
    rintro rfl
    exact haddress (by decide)
  rw [withHead, Function.update_of_ne hhigh, Function.update_of_ne hlow]

/-- Behind the head, every cell holds what was two cells before it. -/
theorem withHead_shifted {index number : Nat} (hnumber : number ≤ index) (hindex : index < 0x80)
    (low high : UInt8) :
    withHead (shifted cell index) low high (UInt16.ofNat (0x12 + number)) =
      cell (UInt16.ofNat (0x10 + number)) := by
  have hplace : (UInt16.ofNat (0x12 + number)).toNat = 0x12 + number :=
    toNat_ofNat_of_lt (by omega)
  have hsource : UInt16.ofNat (0x12 + number) - 2 = UInt16.ofNat (0x10 + number) := by
    apply UInt16.toNat_inj.mp
    rw [toNat_sub_two (by omega), hplace, toNat_ofNat_of_lt (by omega)]
    omega
  have hlow : UInt16.ofNat (0x12 + number) ≠ 0x0010 := by
    intro hhere
    rw [hhere] at hplace
    exact absurd hplace (by simp; omega)
  have hhigh : UInt16.ofNat (0x12 + number) ≠ 0x0011 := by
    intro hhere
    rw [hhere] at hplace
    exact absurd hplace (by simp; omega)
  rw [withHead, Function.update_of_ne hhigh, Function.update_of_ne hlow, shifted,
    if_pos (by omega), hsource]

/-- The cells after a move that takes the head to a place. -/
def afterMove (cell : UInt16 → UInt8) (low high : UInt8) : UInt16 → UInt8 :=
  withHead (shifted cell ((cell 0x0003).toNat - 1)) low high

theorem afterMove_low (cell : UInt16 → UInt8) (low high : UInt8) :
    afterMove cell low high 0x0010 = low := by
  rw [afterMove, withHead, Function.update_of_ne (by decide), Function.update_self]

theorem afterMove_high (cell : UInt16 → UInt8) (low high : UInt8) :
    afterMove cell low high 0x0011 = high := by
  rw [afterMove, withHead, Function.update_self]

section AfterMove

variable (hbounded : cell 0x0003 ≤ 0x80)

include hbounded

theorem last_lt : (cell 0x0003).toNat - 1 < 0x80 := by
  have hlength := UInt8.le_iff_toNat_le.mp hbounded
  have hbound : (0x80 : UInt8).toNat = 0x80 := rfl
  omega

theorem afterMove_of_not_bodyCell {address : UInt16} (haddress : ¬BodyCell address)
    (low high : UInt8) : afterMove cell low high address = cell address := by
  rw [afterMove, withHead_of_not_bodyCell haddress,
    shifted_of_not_bodyCell haddress (last_lt hbounded)]

theorem afterMove_of_lt {number : Nat} (hnumber : number < (cell 0x0003).toNat)
    (low high : UInt8) :
    afterMove cell low high (UInt16.ofNat (0x12 + number)) =
      cell (UInt16.ofNat (0x10 + number)) :=
  withHead_shifted (Nat.le_sub_one_of_lt hnumber) (last_lt hbounded) low high

end AfterMove

include hcovers

theorem leads_over {head : Option (UInt8 × UInt8)} (hhead : head = none) {moved : UInt16 → UInt8}
    (hends : MoveEnds provided along goal x y s cell head) (hstands : Program.snake.Stands moved)
    (hmoved : ∀ address, ¬BodyCell address → moved address = cell address) :
    Leads provided along goal ⟨0x0716, status, ⟨a, x, y, s, moved⟩⟩ :=
  hcovers.step (by decide) (hstands.jmp 0x0735 rfl rfl (by decide)) (hends.fails hhead _ _ _ hmoved)

theorem leads_right (hstands : Program.snake.Stands cell)
    (hends : MoveEnds provided along goal x y s cell
      (headAfter .right (cell 0x0010) (cell 0x0011))) :
    Leads provided along goal ⟨0x06EF, status, ⟨a, x, y, s, cell⟩⟩ := by
  have hstands' := hstands.update (by decide : (0x0010 : UInt16) < _) (cell 0x0010 + 1)
  refine hcovers.store (by decide) (by decide) (hstands.inc_zeroPage 0x0010 (by decide) rfl) ?_
  refine hcovers.step (by decide) (hstands'.lda_immediate rfl) ?_
  refine hcovers.step (by decide) (hstands'.bit_zeroPage 0x0010 (by decide) rfl) ?_
  rw [Function.update_self]
  rw [headAfter] at hends
  by_cases hwall : 0x1F &&& (cell 0x0010 + 1) = 0
  · refine hcovers.step (by decide)
      (hstands'.branch 0x0716 rfl rfl (by simp [hwall]) rfl (by decide)) ?_
    refine leads_over hcovers (if_pos hwall) hends hstands' fun address haddress => ?_
    rw [← withHead_high, withHead_of_not_bodyCell haddress]
  · refine hcovers.step (by decide) (hstands'.branch_skipped rfl rfl (by simp [hwall])) ?_
    rw [← withHead_high]
    exact hends.returns _ _ (if_neg hwall) _ _ _ (by decide)

theorem leads_left (hstands : Program.snake.Stands cell)
    (hends : MoveEnds provided along goal x y s cell
      (headAfter .left (cell 0x0010) (cell 0x0011))) :
    Leads provided along goal ⟨0x070B, status, ⟨a, x, y, s, cell⟩⟩ := by
  have hstands' := hstands.update (by decide : (0x0010 : UInt16) < _) (cell 0x0010 - 1)
  refine hcovers.store (by decide) (by decide) (hstands.dec_zeroPage 0x0010 (by decide) rfl) ?_
  refine hcovers.step (by decide) (hstands'.lda_zeroPage 0x0010 (by decide) rfl) ?_
  refine hcovers.step (by decide) (hstands'.and_immediate rfl) ?_
  refine hcovers.step (by decide) (hstands'.cmp_immediate rfl) ?_
  rw [Function.update_self]
  rw [headAfter] at hends
  by_cases hwall : (cell 0x0010 - 1) &&& 0x1F = 0x1F
  · refine hcovers.step (by decide)
      (hstands'.branch 0x0716 rfl rfl (zero_compared_of_eq _ hwall) rfl (by decide)) ?_
    refine leads_over hcovers (if_pos hwall) hends hstands' fun address haddress => ?_
    rw [← withHead_high, withHead_of_not_bodyCell haddress]
  · refine hcovers.step (by decide)
      (hstands'.branch_skipped rfl rfl (zero_compared_of_ne _ hwall)) ?_
    rw [← withHead_high]
    exact hends.returns _ _ (if_neg hwall) _ _ _ (by decide)

/-- The high byte of the pointer to the head has changed, and may name the page behind a wall. -/
theorem leads_page {pc : UInt16} {low high wall displaced : UInt8}
    (hpc : InMove pc ∧ InMove (pc + 2) ∧ InMove (pc + 2 + 2))
    (hstands : Program.snake.Stands (withHead cell low high))
    (hload : Program.snake.line pc 2 = [0xA9, wall])
    (hcompare : Program.snake.line (pc + 2) 2 = [0xC5, 0x11])
    (hbranch : Program.snake.line (pc + 2 + 2) 2 = [0xF0, displaced])
    (htarget : pc + 2 + 2 + 1 + 1 + displacement displaced = 0x0716)
    (hmissed : 0x0716 ≠ pc + 2 + 2 + 1) (hreturn : MoveReturn (pc + 2 + 2 + 2))
    (hends : MoveEnds provided along goal x y s cell
      (if high = wall then none else some (low, high))) :
    Leads provided along goal ⟨pc, status, ⟨a, x, y, s, withHead cell low high⟩⟩ := by
  have hhigh : withHead cell low high 0x0011 = high := Function.update_self _ _ _
  refine hcovers.step hpc.1 (hstands.lda_immediate hload) ?_
  refine hcovers.step hpc.2.1 (hstands.cmp_zeroPage 0x0011 (by decide) hcompare) ?_
  rw [hhigh]
  by_cases hwall : high = wall
  · refine hcovers.step hpc.2.2 (hstands.branch 0x0716 hbranch rfl
      (zero_compared_of_eq _ (Eq.symm hwall)) htarget hmissed) ?_
    exact leads_over hcovers (if_pos hwall) hends hstands fun address haddress =>
      withHead_of_not_bodyCell haddress _ _
  · refine hcovers.step hpc.2.2 (hstands.branch_skipped hbranch rfl
      (zero_compared_of_ne _ (Ne.symm hwall))) ?_
    exact hends.returns _ _ (if_neg hwall) _ _ _ hreturn

theorem leads_up (hstands : Program.snake.Stands cell)
    (hends : MoveEnds provided along goal x y s cell
      (headAfter .up (cell 0x0010) (cell 0x0011))) :
    Leads provided along goal ⟨0x06DC, status, ⟨a, x, y, s, cell⟩⟩ := by
  have hstands' := hstands.update (by decide : (0x0010 : UInt16) < _) (cell 0x0010 + 0x20)
  have hkept : Function.update cell 0x0010 (cell 0x0010 + 0x20) 0x0011 = cell 0x0011 :=
    Function.update_of_ne (by decide) _ _
  have hbound : (0xE0 : UInt8).toNat = 0xE0 := rfl
  refine hcovers.step (by decide) (hstands.lda_zeroPage 0x0010 (by decide) rfl) ?_
  refine hcovers.step (by decide) (hstands.sec rfl) ?_
  refine hcovers.step (by decide) (hstands.sbc_immediate_of_set rfl rfl) ?_
  refine hcovers.store (by decide) (by decide) (hstands.sta_zeroPage 0x0010 (by decide) rfl) ?_
  rw [headAfter] at hends
  by_cases hrow : 0xE0 ≤ cell 0x0010
  · have hset : 255 < (cell 0x0010).toNat + 0x1F + 1 := by
      have hle := UInt8.le_iff_toNat_le.mp hrow
      omega
    refine hcovers.step (by decide) (hstands'.branch_skipped rfl rfl (decide_eq_true hset)) ?_
    rw [← withHead_high]
    exact hends.returns _ _ (if_pos hrow) _ _ _ (by decide)
  · have hclear : ¬255 < (cell 0x0010).toNat + 0x1F + 1 := by
      have hlt := UInt8.lt_iff_toNat_lt.mp (UInt8.not_le.mp hrow)
      omega
    rw [if_neg hrow] at hends
    refine hcovers.step (by decide)
      (hstands'.branch 0x06E6 rfl rfl (decide_eq_false hclear) rfl (by decide)) ?_
    have hstands'' := hstands'.update (by decide : (0x0011 : UInt16) < _) (cell 0x0011 - 1)
    refine hcovers.store (by decide) (by decide) (hstands'.dec_zeroPage 0x0011 (by decide) rfl) ?_
    rw [hkept]
    exact leads_page hcovers (by decide) hstands'' rfl rfl rfl rfl (by decide) (by decide) hends

theorem leads_down (hstands : Program.snake.Stands cell)
    (hends : MoveEnds provided along goal x y s cell
      (headAfter .down (cell 0x0010) (cell 0x0011))) :
    Leads provided along goal ⟨0x06F8, status, ⟨a, x, y, s, cell⟩⟩ := by
  have hstands' := hstands.update (by decide : (0x0010 : UInt16) < _) (cell 0x0010 + 0x20)
  have hkept : Function.update cell 0x0010 (cell 0x0010 + 0x20) 0x0011 = cell 0x0011 :=
    Function.update_of_ne (by decide) _ _
  refine hcovers.step (by decide) (hstands.lda_zeroPage 0x0010 (by decide) rfl) ?_
  refine hcovers.step (by decide) (hstands.clc rfl) ?_
  refine hcovers.step (by decide) (hstands.adc_immediate_of_clear rfl rfl) ?_
  refine hcovers.store (by decide) (by decide) (hstands.sta_zeroPage 0x0010 (by decide) rfl) ?_
  rw [headAfter] at hends
  by_cases hrow : cell 0x0010 < 0xE0
  · have hclear : ¬255 < (cell 0x0010).toNat + 0x20 + 0 := by
      have hlt := UInt8.lt_iff_toNat_lt.mp hrow
      have hbound : (0xE0 : UInt8).toNat = 0xE0 := rfl
      omega
    refine hcovers.step (by decide)
      (hstands'.branch_skipped rfl rfl (decide_eq_false hclear)) ?_
    rw [← withHead_high]
    exact hends.returns _ _ (if_pos hrow) _ _ _ (by decide)
  · have hset : 255 < (cell 0x0010).toNat + 0x20 + 0 := by
      have hle := UInt8.le_iff_toNat_le.mp (UInt8.not_lt.mp hrow)
      have hbound : (0xE0 : UInt8).toNat = 0xE0 := rfl
      omega
    rw [if_neg hrow] at hends
    refine hcovers.step (by decide)
      (hstands'.branch 0x0702 rfl rfl (decide_eq_true hset) rfl (by decide)) ?_
    have hstands'' := hstands'.update (by decide : (0x0011 : UInt16) < _) (cell 0x0011 + 1)
    refine hcovers.store (by decide) (by decide) (hstands'.inc_zeroPage 0x0011 (by decide) rfl) ?_
    rw [hkept]
    exact leads_page hcovers (by decide) hstands'' rfl rfl rfl rfl (by decide) (by decide) hends

theorem leads_head {direction : Direction} (hstands : Program.snake.Stands cell)
    (hends : MoveEnds provided along goal x y s cell
      (headAfter direction (cell 0x0010) (cell 0x0011))) :
    Leads provided along goal ⟨moveEntry direction, status, ⟨a, x, y, s, cell⟩⟩ := by
  cases direction with
  | up => exact leads_up hcovers hstands hends
  | right => exact leads_right hcovers hstands hends
  | down => exact leads_down hcovers hstands hends
  | left => exact leads_left hcovers hstands hends

/-- The routine copies as many cells as the length says and moves the head. -/
theorem leads_move {direction : Direction} (hstands : Program.snake.Stands cell)
    (hheading : cell 0x0002 = heading direction) (hlength : 0 < cell 0x0003)
    (hlength' : cell 0x0003 ≤ 0x80)
    (hends : MoveEnds provided along goal 0xFF y s (shifted cell ((cell 0x0003).toNat - 1))
      (headAfter direction (cell 0x0010) (cell 0x0011))) :
    Leads provided along goal ⟨0x06C3, status, ⟨a, x, y, s, cell⟩⟩ := by
  have hpositive := UInt8.lt_iff_toNat_lt.mp hlength
  have hindex := last_lt hlength'
  have hlast : cell 0x0003 - 1 = UInt8.ofNat ((cell 0x0003).toNat - 1) := by
    apply UInt8.toNat_inj.mp
    have hle : (1 : UInt8) ≤ cell 0x0003 := UInt8.le_iff_toNat_le.mpr hpositive
    rw [UInt8.toNat_sub_of_le _ _ hle, UInt8.toNat_ofNat']
    exact (Nat.mod_eq_of_lt (by omega)).symm
  have hstands' : Program.snake.Stands (shifted cell ((cell 0x0003).toNat - 1)) := by
    refine hstands.congr fun address haddress => shifted_of_not_bodyCell (fun hbody => ?_) hindex
    exact absurd (UInt16.le_trans haddress hbody.2) (by decide)
  refine hcovers.step (by decide) (hstands.ldx_zeroPage 0x0003 (by decide) rfl) ?_
  refine hcovers.step (by decide) (hstands.dex rfl) ?_
  refine hcovers.step (by decide) (hstands.txa rfl) ?_
  rw [hlast]
  refine leads_shift hcovers hindex hstands fun status a => ?_
  have hheading' : shifted cell ((cell 0x0003).toNat - 1) 0x0002 = heading direction := by
    rw [shifted_of_lt (by decide)]
    exact hheading
  exact leads_moveEntry hcovers hstands' hheading' fun status a =>
    leads_head hcovers hstands' hends

end Head

end Snake

end Machine6502
