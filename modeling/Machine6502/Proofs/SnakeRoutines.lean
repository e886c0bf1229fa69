import Machine6502.Proofs.SnakeBoard

/-!
# The routines of the snake game

Each routine is followed from its first line to its return, for any board.  What is to be
shown of the game after the return is a hypothesis, so the routines are put together in the
order in which the game calls them.
-/

namespace Machine6502

namespace Snake

open View

variable {cell : UInt16 → UInt8} {status : Status} {a x y s : UInt8} {pc target : UInt16}
variable {parts count : Nat}

section Keys

theorem Board.turned (hboard : Board cell parts count) (direction : Direction) :
    Board (Function.update cell 0x0002 (heading direction)) parts count :=
  { hboard with
    toLoaded := hboard.toLoaded.update (by decide) _
    heading := ⟨direction, Function.update_self _ _ _⟩
    length := by
      rw [Function.update_of_ne (by decide)]
      exact hboard.length
    paged := hboard.paged.update hboard.count_le_cells (by decide) _
    apple := by
      rw [Function.update_of_ne (by decide)]
      exact hboard.apple }

/-- Where the key of a direction is answered. -/
def turnEntry : Direction → UInt16
  | .up => 0x0660
  | .right => 0x066B
  | .down => 0x0676
  | .left => 0x0681

variable (hboard : Board cell parts count) (hreturns : Returns cell 0xF9 target)
variable (hnext : ∀ status a other, Board other parts count →
  Plays ⟨target, status, ⟨a, x, y, 0xFB, other⟩⟩)

include hboard hreturns hnext

/-- The snake turns, unless it is heading the other way. -/
theorem plays_turn (direction : Direction) :
    Plays ⟨turnEntry direction, status, ⟨a, x, y, 0xF9, cell⟩⟩ := by
  obtain ⟨before, hbefore⟩ := hboard.heading
  have hstands := hboard.stands
  have hopposite : Program.snake.line (turnEntry direction) 2 =
      [0xA9, heading (opposite direction)] := by
    cases direction <;> rfl
  have htest : Program.snake.line (turnEntry direction + 2) 2 = [0x24, 0x02] := by
    cases direction <;> rfl
  have hbranch : Program.snake.line (turnEntry direction + 2 + 2) 2 =
      [0xD0, (0x068C - (turnEntry direction + 2 + 2 + 2)).toUInt8] := by
    cases direction <;> rfl
  have hturn : Program.snake.line (turnEntry direction + 2 + 2 + 2) 2 =
      [0xA9, heading direction] := by
    cases direction <;> rfl
  have hstore : Program.snake.line (turnEntry direction + 2 + 2 + 2 + 2) 2 = [0x85, 0x02] := by
    cases direction <;> rfl
  have hreturn : Program.snake.line (turnEntry direction + 2 + 2 + 2 + 2 + 2) 1 = [0x60] := by
    cases direction <;> rfl
  refine .step (by cases direction <;> decide) (hstands.lda_immediate hopposite) ?_
  refine .step (by cases direction <;> decide)
    (hstands.bit_zeroPage 0x0002 (by decide) htest) ?_
  rw [hbefore]
  by_cases hback : before = opposite direction
  · subst hback
    refine .step (by cases direction <;> decide)
      (hstands.branch 0x068C hbranch rfl ?_ (by cases direction <;> rfl)
        (by cases direction <;> decide)) ?_
    · cases direction <;> rfl
    · exact .rts hboard.toLoaded (by decide) rfl hreturns rfl (hnext _ _ _ hboard)
  · refine .step (by cases direction <;> decide) (hstands.branch_skipped hbranch rfl ?_) ?_
    · rw [zero_tested, heading_and_heading.mpr (Ne.symm hback)]
      rfl
    · have hsafe : SafeStore cell (0x0002, heading direction) := by
        refine ⟨(by decide : GameCell 0x0002), fun hframe => ?_, fun _ => ⟨_, rfl, ?_⟩⟩
        · exact absurd hframe (by decide : ¬FrameCell 0x0002)
        · rw [hbefore, ne_eq, heading_inj]
          exact hback
      have hturned := hboard.turned direction
      have hreturns' : Returns (Function.update cell 0x0002 (heading direction)) 0xF9 target := by
        refine hreturns.congr_outside fun address haddress _ => Function.update_of_ne ?_ _ _
        rintro rfl
        exact absurd haddress (by decide)
      refine .step (by cases direction <;> decide) (hstands.lda_immediate hturn) ?_
      refine .store (by cases direction <;> decide) hsafe
        (hstands.sta_zeroPage 0x0002 (by decide) hstore) ?_
      exact .rts hturned.toLoaded (by cases direction <;> decide) hreturn hreturns' rfl
        (hnext _ _ _ hturned)

omit hreturns hnext in
/-- The key is one that is asked for, or not. -/
theorem plays_key {key displaced : UInt8} (hpc : InGame pc) (hpc' : InGame (pc + 2))
    (hcompare : Program.snake.line pc 2 = [0xC9, key])
    (hbranch : Program.snake.line (pc + 2) 2 = [0xF0, displaced])
    (htarget : pc + 2 + 1 + 1 + displacement displaced = target) (hmissed : target ≠ pc + 2 + 1)
    (hpressed : ∀ status, Plays ⟨target, status, ⟨a, x, y, s, cell⟩⟩)
    (hother : ∀ status, Plays ⟨pc + 2 + 2, status, ⟨a, x, y, s, cell⟩⟩) :
    Plays ⟨pc, status, ⟨a, x, y, s, cell⟩⟩ := by
  have hstands := hboard.stands
  refine .step hpc (hstands.cmp_immediate hcompare) ?_
  by_cases hkey : a = key
  · have hflag := zero_compared_of_eq status hkey
    exact .step hpc' (hstands.branch target hbranch rfl hflag htarget hmissed) (hpressed _)
  · exact .step hpc' (hstands.branch_skipped hbranch rfl (zero_compared_of_ne _ hkey)) (hother _)

theorem plays_keys : Plays ⟨0x064D, status, ⟨a, x, y, 0xF9, cell⟩⟩ := by
  have hturn : ∀ direction status a, Plays ⟨turnEntry direction, status, ⟨a, x, y, 0xF9, cell⟩⟩ :=
    fun direction status a => plays_turn hboard hreturns hnext direction
  refine .input (by decide) (hboard.stands.lda_key rfl) fun input _ => ?_
  refine plays_key hboard (by decide) (by decide) rfl rfl rfl (by decide)
    (fun _ => hturn .up _ _) fun _ => ?_
  refine plays_key hboard (by decide) (by decide) rfl rfl rfl (by decide)
    (fun _ => hturn .right _ _) fun _ => ?_
  refine plays_key hboard (by decide) (by decide) rfl rfl rfl (by decide)
    (fun _ => hturn .down _ _) fun _ => ?_
  refine plays_key hboard (by decide) (by decide) rfl rfl rfl (by decide)
    (fun _ => hturn .left _ _) fun _ => ?_
  exact .rts hboard.toLoaded (by decide) rfl hreturns rfl (hnext _ _ _ hboard)

end Keys

section Apple

/-- The cells with the pointer to the apple set. -/
def withApple (cell : UInt16 → UInt8) (low high : UInt8) : UInt16 → UInt8 :=
  Function.update (Function.update cell 0x0000 low) 0x0001 high

theorem withApple_of_lt {address : UInt16} (haddress : 0x0001 < address) (low high : UInt8) :
    withApple cell low high address = cell address := by
  have hlow : address ≠ 0x0000 := by
    rintro rfl
    exact absurd haddress (by decide)
  have hhigh := Ne.symm (UInt16.ne_of_lt haddress)
  rw [withApple, Function.update_of_ne hhigh, Function.update_of_ne hlow]

theorem Loaded.withApple (hloaded : Loaded cell) (low high : UInt8) :
    Loaded (withApple cell low high) :=
  (hloaded.update (by decide) low).update (by decide) high

theorem Returns.withApple (hreturns : Returns cell s target) (low high : UInt8) :
    Returns (withApple cell low high) s target :=
  hreturns.congr_outside fun _ haddress _ =>
    withApple_of_lt (UInt16.lt_of_lt_of_le (by decide) haddress) _ _

theorem Body.withApple (hbody : Body cell parts count) (low : UInt8) {high : UInt8}
    (hpage : Page high) : Board (withApple cell low high) parts count where
  toLoaded := hbody.toLoaded.withApple low high
  heading := by
    rw [withApple_of_lt (by decide)]
    exact hbody.heading
  length := by
    rw [withApple_of_lt (by decide)]
    exact hbody.length
  two_le := hbody.two_le
  le := hbody.le
  count_le := hbody.count_le
  paged := (hbody.paged.update hbody.count_le_cells (by decide) low).update
    hbody.count_le_cells (by decide) high
  apple := by
    rw [Snake.withApple, Function.update_self]
    exact hpage

/-- A random byte makes a page of the frame buffer. -/
theorem page_of_random (random : UInt8) : Page ((random &&& 0x03) + 0x02) := by
  revert random
  exact forall_byte (by decide +kernel)

theorem plays_apple (hloaded : Loaded cell) (hreturns : Returns cell s target) {outer : UInt8}
    (houter : s + 2 = outer)
    (hnext : ∀ status a low high, Page high →
      Plays ⟨target, status, ⟨a, x, y, outer, withApple cell low high⟩⟩) :
    Plays ⟨0x062A, status, ⟨a, x, y, s, cell⟩⟩ := by
  have hstands := hloaded.stands
  refine .input (by decide) (hstands.lda_random rfl) fun first _ => ?_
  have hstands' := hstands.update (by decide : (0x0000 : UInt16) < _) first.random
  refine .store (by decide) (.of_plain (by decide) (by decide) (by decide))
    (hstands.sta_zeroPage 0x0000 (by decide) rfl) ?_
  refine .input (by decide) (hstands'.lda_random rfl) fun second _ => ?_
  refine .step (by decide) (hstands'.and_immediate rfl) ?_
  refine .step (by decide) (hstands'.clc rfl) ?_
  refine .step (by decide) (hstands'.adc_immediate_of_clear rfl rfl) ?_
  refine .store (by decide) (.of_plain (by decide) (by decide) (by decide))
    (hstands'.sta_zeroPage 0x0001 (by decide) rfl) ?_
  exact .rts (hloaded.withApple _ _) (by decide) rfl (hreturns.withApple _ _) houter
    (hnext _ _ _ _ (page_of_random second.random))

end Apple

section Feed

/-- A snake that has eaten is longer by one part, which is where its tail was before. -/
theorem Board.grown (hboard : Board cell parts (parts + 1)) (hshort : parts ≠ 0x40) :
    Board (Function.update cell 0x0003 (cell 0x0003 + 1 + 1)) (parts + 1) (parts + 1) := by
  have hle := hboard.le
  have hlength := hboard.length
  have hone : (1 : UInt8).toNat = 1 := rfl
  exact {
    toLoaded := hboard.toLoaded.update (by decide) _
    heading := by
      rw [Function.update_of_ne (by decide)]
      exact hboard.heading
    length := by
      rw [Function.update_self, UInt8.toNat_add, UInt8.toNat_add, hone]
      omega
    two_le := Nat.le_succ_of_le hboard.two_le
    le := by omega
    count_le := Nat.le_succ _
    paged := hboard.paged.update hboard.count_le_cells (by decide) _
    apple := by
      rw [Function.update_of_ne (by decide)]
      exact hboard.apple }

variable (hboard : Board cell parts (parts + 1)) (hreturns : Returns cell 0xF7 target)
variable (hnext : ∀ status a other parts, Board other parts parts →
  (∀ address, 0x01F8 ≤ address → other address = cell address) →
  Plays ⟨target, status, ⟨a, x, y, 0xF9, other⟩⟩)

include hboard hreturns hnext

/-- The snake grows, and there is a new apple; or the snake is too long. -/
theorem plays_eat : Plays ⟨0x06A0, status, ⟨a, x, y, 0xF7, cell⟩⟩ := by
  have hstands := hboard.stands
  have hstands' := hstands.update (by decide : (0x0003 : UInt16) < _) (cell 0x0003 + 1)
  refine .store (by decide) (.of_plain (by decide) (by decide) (by decide))
    (hstands.inc_zeroPage 0x0003 (by decide) rfl) ?_
  -- The pointers of a snake of 0x40 parts fill the cells up to 0x0091.
  by_cases hlong : parts = 0x40
  · refine .here (.overlong (by decide) ?_)
    have hlength := hboard.length
    rw [Function.update_self, UInt8.lt_iff_toNat_lt, UInt8.toNat_add, hlength, hlong]
    decide
  · refine .store (by decide) (.of_plain (by decide) (by decide) (by decide))
      (hstands'.inc_zeroPage 0x0003 (by decide) rfl) ?_
    rw [Function.update_self, Function.update_idem]
    have hgrown := hboard.grown hlong
    refine (proceeds_call hgrown.toLoaded (by decide) (by decide) 0x062A rfl rfl (by decide)
      0xF5 rfl fun other hcalled => ?_).plays
    refine plays_apple (hcalled.loaded hgrown.toLoaded) hcalled.returns rfl
      fun status a low high hpage => ?_
    have hkept : ∀ address, 0x01F8 ≤ address →
        withApple other low high address = cell address := by
      intro address hfirst
      have hlength : address ≠ 0x0003 :=
        Ne.symm (UInt16.ne_of_lt (UInt16.lt_of_lt_of_le (by decide) hfirst))
      rw [withApple_of_lt (UInt16.lt_of_lt_of_le (by decide) hfirst),
        hcalled.kept_of_lt (by decide) hfirst, Function.update_of_ne hlength]
    have hreturns' : Returns (withApple other low high) 0xF7 target :=
      hreturns.congr (hkept _ (by decide)) (hkept _ (by decide))
    have hfed := (hcalled.board hgrown).toBody.withApple low hpage
    exact .rts hfed.toLoaded (by decide) rfl hreturns' rfl (hnext _ _ _ _ hfed hkept)

theorem plays_feed : Plays ⟨0x0694, status, ⟨a, x, y, 0xF7, cell⟩⟩ := by
  have hstands := hboard.stands
  have hhungry : ∀ status a, Plays ⟨0x06A7, status, ⟨a, x, y, 0xF7, cell⟩⟩ := fun status a =>
    .rts hboard.toLoaded (by decide) rfl hreturns rfl
      (hnext _ _ _ _ { hboard with toBody := hboard.toBody.lower (Nat.le_succ _) }
        fun _ _ => rfl)
  refine .step (by decide) (hstands.lda_zeroPage 0x0000 (by decide) rfl) ?_
  refine .step (by decide) (hstands.cmp_zeroPage 0x0010 (by decide) rfl) ?_
  by_cases hlow : cell 0x0000 = cell 0x0010
  · refine .step (by decide) (hstands.branch_skipped rfl rfl (zero_compared_of_eq _ hlow)) ?_
    refine .step (by decide) (hstands.lda_zeroPage 0x0001 (by decide) rfl) ?_
    refine .step (by decide) (hstands.cmp_zeroPage 0x0011 (by decide) rfl) ?_
    by_cases hhigh : cell 0x0001 = cell 0x0011
    · refine .step (by decide) (hstands.branch_skipped rfl rfl (zero_compared_of_eq _ hhigh)) ?_
      exact plays_eat hboard hreturns hnext
    · refine .step (by decide)
        (hstands.branch 0x06A7 rfl rfl (zero_compared_of_ne _ hhigh) rfl (by decide)) ?_
      exact hhungry _ _
  · refine .step (by decide)
      (hstands.branch 0x06A7 rfl rfl (zero_compared_of_ne _ hlow) rfl (by decide)) ?_
    exact hhungry _ _

end Feed

section Bite

/-- A part behind the head is where the head is, which ends the game, or the next one is
looked at. -/
theorem plays_bite_part (hloaded : Loaded cell) {index : Nat} (hindex : index < 0x40)
    (hpassed : ∀ status a, Plays ⟨0x06B6, status, ⟨a, UInt8.ofNat (2 * index), y, s, cell⟩⟩) :
    Plays ⟨0x06AA, status, ⟨a, UInt8.ofNat (2 * index), y, s, cell⟩⟩ := by
  have hstands := hloaded.stands
  have hbase : (0x10 : UInt8).toNat = 0x10 := rfl
  have hbase' : (0x11 : UInt8).toNat = 0x11 := rfl
  have hlow := (@toUInt16_add_ofNat 0x10 (2 * index) (by omega)).1
  have hhigh := (@toUInt16_add_ofNat 0x11 (2 * index) (by omega)).1
  refine .step (by decide) (hstands.lda_zeroPageX hlow rfl) ?_
  refine .step (by decide) (hstands.cmp_zeroPage 0x0010 (by decide) rfl) ?_
  by_cases hsame : cell (0x10 + UInt8.ofNat (2 * index)).toUInt16 = cell 0x0010
  · refine .step (by decide) (hstands.branch_skipped rfl rfl (zero_compared_of_eq _ hsame)) ?_
    refine .step (by decide) (hstands.lda_zeroPageX hhigh rfl) ?_
    refine .step (by decide) (hstands.cmp_zeroPage 0x0011 (by decide) rfl) ?_
    by_cases hbitten : cell (0x11 + UInt8.ofNat (2 * index)).toUInt16 = cell 0x0011
    · refine .step (by decide)
        (hstands.branch 0x06BF rfl rfl (zero_compared_of_eq _ hbitten) rfl (by decide)) ?_
      exact .step (by decide) (hstands.jmp 0x0735 rfl rfl (by decide))
        (.here (.finished hloaded.behind))
    · refine .step (by decide)
        (hstands.branch_skipped rfl rfl (zero_compared_of_ne _ hbitten)) ?_
      exact hpassed _ _
  · refine .step (by decide)
      (hstands.branch 0x06B6 rfl rfl (zero_compared_of_ne _ hsame) rfl (by decide)) ?_
    exact hpassed _ _

variable (hboard : Board cell parts count) (hreturns : Returns cell 0xF7 target)
variable (hnext : ∀ status a x, Plays ⟨target, status, ⟨a, x, y, 0xF9, cell⟩⟩)

include hboard hreturns hnext

/-- All parts behind the head from one on are looked at. -/
theorem plays_bite_parts {index rest : Nat} (hparts : index + rest + 1 = parts) :
    Plays ⟨0x06AA, status, ⟨a, UInt8.ofNat (2 * index), y, 0xF7, cell⟩⟩ := by
  have hle := hboard.le
  have hlength := hboard.length
  have hstands := hboard.stands
  induction rest generalizing index status a with
  | zero =>
      refine plays_bite_part hboard.toLoaded (by omega) fun status a => ?_
      have hlast : UInt8.ofNat (2 * index) + 1 + 1 = cell 0x0003 := by
        have hone : (1 : UInt8).toNat = 1 := rfl
        rw [← UInt8.toNat_inj, UInt8.toNat_add, UInt8.toNat_add, UInt8.toNat_ofNat', hone]
        omega
      refine .step (by decide) (hstands.inx rfl) ?_
      refine .step (by decide) (hstands.inx rfl) ?_
      refine .step (by decide) (hstands.cpx_zeroPage 0x0003 (by decide) rfl) ?_
      refine .step (by decide)
        (hstands.branch 0x06C2 rfl rfl (zero_compared_of_eq _ hlast) rfl (by decide)) ?_
      exact .rts hboard.toLoaded (by decide) rfl hreturns rfl (hnext _ _ _)
  | succ rest ih =>
      refine plays_bite_part hboard.toLoaded (by omega) fun status a => ?_
      have hmore : UInt8.ofNat (2 * index) + 1 + 1 = UInt8.ofNat (2 * (index + 1)) := by
        rw [Nat.mul_succ, UInt8.ofNat_add, UInt8.add_assoc]
        rfl
      have hbefore : UInt8.ofNat (2 * (index + 1)) ≠ cell 0x0003 := by
        rw [ne_eq, ← UInt8.toNat_inj, UInt8.toNat_ofNat']
        omega
      refine .step (by decide) (hstands.inx rfl) ?_
      refine .step (by decide) (hstands.inx rfl) ?_
      refine .step (by decide) (hstands.cpx_zeroPage 0x0003 (by decide) rfl) ?_
      rw [hmore]
      refine .step (by decide) (hstands.branch_skipped rfl rfl (zero_compared_of_ne _ hbefore)) ?_
      exact .step (by decide) (hstands.jmp 0x06AA rfl rfl (by decide)) (ih (by omega))

theorem plays_bite : Plays ⟨0x06A8, status, ⟨a, x, y, 0xF7, cell⟩⟩ := by
  obtain ⟨rest, hrest⟩ := Nat.exists_eq_add_of_le hboard.two_le
  exact .step (by decide) (hboard.stands.ldx_immediate rfl)
    (plays_bite_parts hboard hreturns hnext (by omega : 1 + rest + 1 = parts))

end Bite

section Check

theorem plays_check (hboard : Board cell parts (parts + 1)) (hreturns : Returns cell 0xF9 target)
    (hnext : ∀ status a x other parts, Board other parts parts →
      Plays ⟨target, status, ⟨a, x, y, 0xFB, other⟩⟩) :
    Plays ⟨0x068D, status, ⟨a, x, y, 0xF9, cell⟩⟩ := by
  refine (proceeds_call hboard.toLoaded (by decide) (by decide) 0x0694 rfl rfl (by decide)
    0xF7 rfl fun other hcalled => ?_).plays
  refine plays_feed (hcalled.board hboard) hcalled.returns
    fun status a fed parts hfed hkept => ?_
  refine (proceeds_call hfed.toLoaded (by decide) (by decide) 0x06A8 rfl rfl (by decide)
    0xF7 rfl fun last hlast => ?_).plays
  have hboard' := hlast.board hfed
  -- The calls of the check lie below the address that it returns to.
  have hreturns' : Returns last 0xF9 target := by
    refine hreturns.congr ?_ ?_ <;>
      exact (hlast.kept _ (by decide) (by decide)).trans
        ((hkept _ (by decide)).trans (hcalled.kept _ (by decide) (by decide)))
  refine plays_bite hboard' hlast.returns fun status a x => ?_
  exact .rts hboard'.toLoaded (by decide) rfl hreturns' rfl (hnext _ _ _ _ _ hboard')

end Check

section Move

/-- A head that has not come to a wall is still in the frame buffer. -/
theorem page_headAfter {direction : Direction} {low high low' high' : UInt8} (hpage : Page high)
    (hhead : headAfter direction low high = some (low', high')) : Page high' := by
  have hbelow : ∀ high, Page high → high - 1 ≠ 0x01 → Page (high - 1) :=
    forall_byte (by decide +kernel)
  have habove : ∀ high, Page high → high + 1 ≠ 0x06 → Page (high + 1) :=
    forall_byte (by decide +kernel)
  cases direction <;> rw [headAfter] at hhead
  case up =>
    split at hhead
    · cases hhead
      exact hpage
    · split at hhead <;> cases hhead
      exact hbelow _ hpage ‹_›
  case down =>
    split at hhead
    · cases hhead
      exact hpage
    · split at hhead <;> cases hhead
      exact habove _ hpage ‹_›
  all_goals
    split at hhead <;> cases hhead
    exact hpage

theorem Body.bounded (hbody : Body cell parts count) : cell 0x0003 ≤ 0x80 := by
  have hle := hbody.le
  rw [UInt8.le_iff_toNat_le, hbody.length]
  exact Nat.le_trans (by omega : _ ≤ 0x80) (by decide)

/-- Every pointer is where the one before it was, so there is one more of them. -/
theorem Board.moved (hboard : Board cell parts parts) (low : UInt8) {high : UInt8}
    (hpage : Page high) : Board (afterMove cell low high) parts (parts + 1) := by
  have hlength := hboard.length
  have hsame : ∀ {address : UInt16}, ¬BodyCell address →
      afterMove cell low high address = cell address :=
    fun haddress => afterMove_of_not_bodyCell hboard.bounded haddress low high
  have hprogram : ∀ {address : UInt16}, 0x0600 ≤ address → ¬BodyCell address :=
    fun haddress hbody => absurd (UInt16.le_trans haddress hbody.2) (by decide)
  exact {
    toLoaded := hboard.toLoaded.congr fun _ haddress => hsame (hprogram haddress)
    heading := by
      rw [hsame (by decide)]
      exact hboard.heading
    length := by
      rw [hsame (by decide)]
      exact hlength
    two_le := hboard.two_le
    le := hboard.le
    count_le := Nat.le_refl _
    paged := by
      intro index hindex
      cases index with
      | zero => exact (afterMove_high cell low high).symm ▸ hpage
      | succ index =>
          have hplace : 0x11 + 2 * (index + 1) = 0x12 + (2 * index + 1) := by omega
          have hsource : 0x10 + (2 * index + 1) = 0x11 + 2 * index := by omega
          rw [hplace, afterMove_of_lt hboard.bounded (by omega), hsource]
          exact hboard.paged index (by omega)
    apple := by
      rw [hsame (by decide)]
      exact hboard.apple }

theorem plays_move (hboard : Board cell parts parts) (hreturns : Returns cell 0xF9 target)
    (hnext : ∀ status a x other, Board other parts (parts + 1) →
      Plays ⟨target, status, ⟨a, x, y, 0xFB, other⟩⟩) :
    Plays ⟨0x06C3, status, ⟨a, x, y, 0xF9, cell⟩⟩ := by
  obtain ⟨direction, hheading⟩ := hboard.heading
  have hlength := hboard.length
  have hle := hboard.le
  have htwo := hboard.two_le
  have hpage : Page (cell 0x0011) := hboard.paged 0 (by omega)
  have hpositive : 0 < cell 0x0003 := by
    rw [UInt8.lt_iff_toNat_lt, hlength]
    exact Nat.lt_of_lt_of_le (by decide : _ < 4) (by omega)
  refine leads_move coversMove_tame hboard.stands hheading hpositive hboard.bounded
    ⟨fun low high hhead pc status a hpc => ?_, fun _ status a moved hmoved => ?_⟩
  · have hmoved := hboard.moved low (page_headAfter hpage hhead)
    have hreturns' : Returns (afterMove cell low high) 0xF9 target := by
      refine hreturns.congr_outside fun address haddress _ => ?_
      refine afterMove_of_not_bodyCell hboard.bounded (fun hbody => ?_) low high
      exact absurd (UInt16.le_trans haddress hbody.2) (by decide)
    have hgame : InGame pc :=
      ⟨UInt16.le_trans (by decide) hpc.1, UInt16.lt_of_le_of_lt hpc.2.1 (by decide)⟩
    exact Plays.rts hmoved.toLoaded hgame hpc.2.2 hreturns' rfl (hnext _ _ _ _ hmoved)
  · refine .here (.finished ?_)
    rw [hmoved 0x0735 (by decide),
      shifted_of_not_bodyCell (by decide) (last_lt hboard.bounded)]
    exact hboard.behind

end Move

section Draw

theorem Board.painted (hboard : Board cell parts count) {address : UInt16}
    (haddress : FrameCell address) (color : UInt8) :
    Board (Function.update cell address color) parts count := by
  refine hboard.congr fun other hother => Function.update_of_ne ?_ _ _
  rintro rfl
  exact hother ⟨UInt16.le_trans (by decide) haddress.1, haddress.2⟩

theorem Returns.painted (hreturns : Returns cell s target) {address : UInt16}
    (haddress : FrameCell address) (color : UInt8) :
    Returns (Function.update cell address color) s target := by
  refine hreturns.congr_outside fun other _ hother => Function.update_of_ne ?_ _ _
  rintro rfl
  exact absurd (UInt16.lt_of_lt_of_le hother haddress.1) (UInt16.lt_irrefl _)

theorem plays_drawApple (hboard : Board cell parts count) (hreturns : Returns cell 0xF9 target)
    (hnext : ∀ status a y other, Board other parts count →
      Plays ⟨target, status, ⟨a, x, y, 0xFB, other⟩⟩) :
    Plays ⟨0x0719, status, ⟨a, x, y, 0xF9, cell⟩⟩ := by
  have hstands := hboard.stands
  have hframe := frameCell_of_page (cell 0x0000) hboard.apple
  refine .step (by decide) (hstands.ldy_immediate rfl) ?_
  refine .input (by decide) (hstands.lda_random rfl) fun input hinput => ?_
  refine .store (by decide) (.of_frameCell hframe hinput.2)
    (hstands.sta_indirectY (by decide) (by decide) (UInt16.add_zero _) hframe.1 rfl) ?_
  have hpainted := hboard.painted hframe input.random
  exact .rts hpainted.toLoaded (by decide) rfl (hreturns.painted hframe _) rfl
    (hnext _ _ _ _ hpainted)

/-- A color goes to the place that a pointer of the snake points to. -/
theorem plays_paint {index : Nat} (hboard : Board cell parts (parts + 1))
    (hreturns : Returns cell s target) (hindex : index ≤ parts) (hx : x = UInt8.ofNat (2 * index))
    (hcolor : a < 16) (hpc : InGame pc) (hline : Program.snake.line pc 2 = [0x81, 0x10])
    (hnext : ∀ other, Board other parts (parts + 1) → Returns other s target →
      Plays ⟨pc + 2, status, ⟨a, x, y, s, other⟩⟩) :
    Plays ⟨pc, status, ⟨a, x, y, s, cell⟩⟩ := by
  have hle := hboard.le
  have hbase : (0x10 : UInt8).toNat = 0x10 := rfl
  have hbase' : (0x11 : UInt8).toNat = 0x11 := rfl
  obtain ⟨hlow, -⟩ := @toUInt16_add_ofNat 0x10 (2 * index) (by omega)
  obtain ⟨hhigh, hhigh'⟩ := @toUInt16_add_ofNat 0x11 (2 * index) (by omega)
  have hsecond : 0x10 + x + 1 = 0x11 + UInt8.ofNat (2 * index) := by
    rw [hx, UInt8.add_assoc, UInt8.add_comm _ 1, ← UInt8.add_assoc]
    rfl
  have hpage : Page (cell (0x10 + x + 1).toUInt16) := by
    rw [hsecond, hhigh', hbase']
    exact hboard.paged index (by omega)
  have hframe := frameCell_of_page (cell (0x10 + x).toUInt16) hpage
  rw [← hx] at hlow
  rw [← hsecond] at hhigh
  refine .store hpc (.of_frameCell hframe hcolor)
    (hboard.stands.sta_indirectX hlow hhigh rfl hframe.1 hline) ?_
  exact hnext _ (hboard.painted hframe a) (hreturns.painted hframe a)

/-- The tail is wiped out and the head is drawn. -/
theorem plays_drawSnake (hboard : Board cell parts (parts + 1))
    (hreturns : Returns cell 0xF9 target)
    (hnext : ∀ status a x other, Board other parts (parts + 1) →
      Plays ⟨target, status, ⟨a, x, y, 0xFB, other⟩⟩) :
    Plays ⟨0x0720, status, ⟨a, x, y, 0xF9, cell⟩⟩ := by
  have hlength : cell 0x0003 = UInt8.ofNat (2 * parts) := by
    rw [← hboard.length, UInt8.ofNat_toNat]
  refine .step (by decide) (hboard.stands.ldx_zeroPage 0x0003 (by decide) rfl) ?_
  refine .step (by decide) (hboard.stands.lda_immediate rfl) ?_
  refine plays_paint hboard hreturns (Nat.le_refl _) hlength (by decide) (by decide) rfl
    fun wiped hwiped hreturns => ?_
  refine .step (by decide) (hwiped.stands.ldx_immediate rfl) ?_
  refine .step (by decide) (hwiped.stands.lda_immediate rfl) ?_
  refine plays_paint hwiped hreturns (Nat.zero_le _) rfl (by decide) (by decide) rfl
    fun drawn hdrawn hreturns => ?_
  exact .rts hdrawn.toLoaded (by decide) rfl hreturns rfl (hnext _ _ _ _ hdrawn)

end Draw

section Pause

variable (hloaded : Loaded cell) (hreturns : Returns cell 0xF9 target)
variable (hnext : ∀ status x, Plays ⟨target, status, ⟨a, x, y, 0xFB, cell⟩⟩)

include hloaded hreturns hnext

/-- The rounds of the pause that are left. -/
theorem plays_pause_rounds {rest : Nat} (hrest : rest < 0x100) :
    Plays ⟨0x072F, status, ⟨a, UInt8.ofNat (rest + 1), y, 0xF9, cell⟩⟩ := by
  have hstands := hloaded.stands
  induction rest generalizing status with
  | zero =>
      refine .step (by decide) (hstands.nop rfl) ?_
      refine .step (by decide) (hstands.nop rfl) ?_
      refine .step (by decide) (hstands.dex rfl) ?_
      refine .step (by decide) (hstands.branch_skipped rfl rfl rfl) ?_
      exact .rts hloaded (by decide) rfl hreturns rfl (hnext _ _)
  | succ rest ih =>
      have hmore : UInt8.ofNat (rest + 1) ≠ 0 := by
        rw [ne_eq, ← UInt8.toNat_inj, UInt8.toNat_ofNat']
        exact Nat.ne_of_gt (by simp; omega)
      refine .step (by decide) (hstands.nop rfl) ?_
      refine .step (by decide) (hstands.nop rfl) ?_
      refine .step (by decide) (hstands.dex rfl) ?_
      rw [ofNat_succ_sub_one]
      refine .step (by decide)
        (hstands.branch 0x072F rfl rfl ((zero_recording _ _).trans (decide_eq_false hmore)) rfl
          (by decide)) ?_
      exact ih (by omega)

/-- The pause counts down from zero, so it has as many rounds as there are bytes. -/
theorem plays_pause : Plays ⟨0x072D, status, ⟨a, x, y, 0xF9, cell⟩⟩ :=
  .step (by decide) (hloaded.stands.ldx_immediate rfl)
    (plays_pause_rounds hloaded hreturns hnext (by decide : 0xFF < 0x100))

end Pause

end Snake

end Machine6502
