import Machine6502.Proofs.SnakeRoutines

/-!
# The loop of the snake game

From its start the game comes to its loop, and once around the loop it comes there again,
to its end, or to a snake that is too long for its cells.
-/

namespace Machine6502

namespace Snake

open View

variable {cell other : UInt16 → UInt8} {status : Status} {a x y s : UInt8}
variable {pc target : UInt16} {parts count : Nat}

section Loop

/-- The loop calls a routine. -/
theorem proceeds_routine {low high : UInt8} (hboard : Board cell parts count) (hpc : InGame pc)
    (target : UInt16) (hline : Program.snake.line pc 3 = [0x20, low, high])
    (htarget : wordOf low high = target) (hmissed : target ≠ pc + 1)
    (hplays : ∀ other, Board other parts count → Returns other 0xF9 (pc + 3) →
      Plays ⟨target, status, ⟨a, x, y, 0xF9, other⟩⟩) :
    Proceeds ⟨pc, status, ⟨a, x, y, 0xFB, cell⟩⟩ :=
  proceeds_call hboard.toLoaded hpc (by decide) target hline htarget hmissed 0xF9 rfl
    fun other hcalled => hplays other (hcalled.board hboard) hcalled.returns

/-- Once around the loop. -/
theorem proceeds_loop (hboard : Board cell parts (parts + 1)) :
    Proceeds ⟨0x0638, status, ⟨a, x, y, 0xFB, cell⟩⟩ := by
  refine proceeds_routine hboard (by decide) 0x064D rfl rfl (by decide)
    fun _ hboard hreturns => plays_keys hboard hreturns fun _ _ _ hboard => ?_
  refine (proceeds_routine hboard (by decide) 0x068D rfl rfl (by decide)
    fun _ hboard hreturns => plays_check hboard hreturns fun _ _ _ _ _ hboard => ?_).plays
  refine (proceeds_routine hboard (by decide) 0x06C3 rfl rfl (by decide)
    fun _ hboard hreturns => plays_move hboard hreturns fun _ _ _ _ hboard => ?_).plays
  refine (proceeds_routine hboard (by decide) 0x0719 rfl rfl (by decide)
    fun _ hboard hreturns => plays_drawApple hboard hreturns fun _ _ _ _ hboard => ?_).plays
  refine (proceeds_routine hboard (by decide) 0x0720 rfl rfl (by decide)
    fun _ hboard hreturns => plays_drawSnake hboard hreturns fun _ _ _ _ hboard => ?_).plays
  refine (proceeds_routine hboard (by decide) 0x072D rfl rfl (by decide)
    fun _ hboard hreturns => plays_pause hboard.toLoaded hreturns fun _ _ => ?_).plays
  exact .step (by decide) (hboard.stands.jmp 0x0638 rfl rfl (by decide)) (.here (.loop hboard))

end Loop

section Start

/-- The cells with the snake in its first place. -/
def placed (cell : UInt16 → UInt8) : UInt16 → UInt8 :=
  storeAll cell [(0x0002, 0x02), (0x0003, 0x04), (0x0010, 0x11), (0x0012, 0x10), (0x0014, 0x0F),
    (0x0011, 0x04), (0x0013, 0x04), (0x0015, 0x04)]

theorem placed_of_le {address : UInt16} (haddress : 0x0100 ≤ address) :
    placed cell address = cell address := by
  have hbelow : ∀ store ∈ [((0x0002 : UInt16), (0x02 : UInt8)), (0x0003, 0x04), (0x0010, 0x11),
      (0x0012, 0x10), (0x0014, 0x0F), (0x0011, 0x04), (0x0013, 0x04), (0x0015, 0x04)],
      store.1 < 0x0100 := by simp
  refine storeAll_of_ne fun store hstore => UInt16.ne_of_lt ?_
  exact UInt16.lt_of_lt_of_le (hbelow store hstore) haddress

theorem body_placed (hloaded : Loaded cell) : Body (placed cell) 2 3 where
  toLoaded := hloaded.congr fun _ haddress => placed_of_le (UInt16.le_trans (by decide) haddress)
  heading := ⟨.right, rfl⟩
  length := rfl
  two_le := Nat.le_refl _
  le := by decide
  count_le := Nat.le_refl _
  paged := by
    have hpage : Page 0x04 := by decide
    intro index hindex
    obtain rfl | rfl | rfl : index = 0 ∨ index = 1 ∨ index = 2 := by omega
    · exact hpage
    · exact hpage
    · exact hpage

/-- A byte is loaded and put in a cell of page zero. -/
theorem plays_put {value : UInt8} (hloaded : Loaded cell) (address : UInt16)
    (hpc : InGame pc ∧ InGame (pc + 2)) (hload : Program.snake.line pc 2 = [0xA9, value])
    (hstore : Program.snake.line (pc + 2) 2 = [0x85, address.toUInt8]) (haddress : address < 0xFE)
    (hsafe : SafeStore cell (address, value))
    (hplays : ∀ status, Loaded (Function.update cell address value) →
      Plays ⟨pc + 2 + 2, status, ⟨value, x, y, s, Function.update cell address value⟩⟩) :
    Plays ⟨pc, status, ⟨a, x, y, s, cell⟩⟩ := by
  refine .step hpc.1 (hloaded.stands.lda_immediate hload) ?_
  refine .store hpc.2 hsafe (hloaded.stands.sta_zeroPage address haddress hstore) ?_
  exact hplays _ (hloaded.update (UInt16.lt_trans haddress (by decide)) value)

theorem plays_place (hloaded : Loaded cell) (hunset : cell 0x0002 = 0)
    (hreturns : Returns cell 0xF9 target)
    (hnext : ∀ status a, Plays ⟨target, status, ⟨a, x, y, 0xFB, placed cell⟩⟩) :
    Plays ⟨0x060D, status, ⟨a, x, y, 0xF9, cell⟩⟩ := by
  have hsafe : SafeStore cell (0x0002, 0x02) := by
    refine ⟨by decide, fun hframe => absurd hframe (by decide), fun _ => ⟨.right, rfl, ?_⟩⟩
    rw [hunset]
    decide
  have hreturns' : Returns (placed cell) 0xF9 target :=
    hreturns.congr_outside fun _ haddress _ => placed_of_le haddress
  refine plays_put hloaded 0x0002 (by decide) rfl rfl (by decide) hsafe fun _ hloaded => ?_
  refine plays_put hloaded 0x0003 (by decide) rfl rfl (by decide)
    (.of_plain (by decide) (by decide) (by decide)) fun _ hloaded => ?_
  refine plays_put hloaded 0x0010 (by decide) rfl rfl (by decide) (.of_bodyCell (by decide))
    fun _ hloaded => ?_
  refine plays_put hloaded 0x0012 (by decide) rfl rfl (by decide) (.of_bodyCell (by decide))
    fun _ hloaded => ?_
  refine plays_put hloaded 0x0014 (by decide) rfl rfl (by decide) (.of_bodyCell (by decide))
    fun _ hloaded => ?_
  refine plays_put hloaded 0x0011 (by decide) rfl rfl (by decide) (.of_bodyCell (by decide))
    fun _ hloaded => ?_
  have hloaded' := hloaded.update (by decide : (0x0013 : UInt16) < _) 0x04
  refine .store (by decide) (.of_bodyCell (by decide))
    (hloaded.stands.sta_zeroPage 0x0013 (by decide) rfl) ?_
  refine .store (by decide) (.of_bodyCell (by decide))
    (hloaded'.stands.sta_zeroPage 0x0015 (by decide) rfl) ?_
  exact Plays.rts (body_placed ‹Loaded cell›).toLoaded (by decide) rfl hreturns' rfl (hnext _ _)

/-- From the start the game comes to its loop. -/
theorem plays_start (hloaded : Loaded cell) (hunset : cell 0x0002 = 0) :
    Plays ⟨0x0600, status, ⟨a, x, y, 0xFD, cell⟩⟩ := by
  refine (proceeds_call hloaded (by decide) (by decide) 0x0606 rfl rfl (by decide) 0xFB rfl
    fun first hfirst => ?_).plays
  have hloaded := hfirst.loaded hloaded
  refine (proceeds_call hloaded (by decide) (by decide) 0x060D rfl rfl (by decide) 0xF9 rfl
    fun second hsecond => ?_).plays
  have hloaded := hsecond.loaded hloaded
  have hunset' : second 0x0002 = 0 :=
    (hsecond.not_page (by decide)).trans ((hfirst.not_page (by decide)).trans hunset)
  refine plays_place hloaded hunset' hsecond.returns fun status a => ?_
  have hbody := body_placed hloaded
  refine (proceeds_call hbody.toLoaded (by decide) (by decide) 0x062A rfl rfl (by decide) 0xF9 rfl
    fun third hthird => ?_).plays
  refine plays_apple (hthird.loaded hbody.toLoaded) hthird.returns rfl
    fun status a low high hpage => ?_
  have hkept : ∀ address, 0x01FC ≤ address → withApple third low high address = first address := by
    intro address haddress
    rw [withApple_of_lt (UInt16.lt_of_lt_of_le (by decide) haddress),
      hthird.kept_of_lt (by decide) haddress,
      placed_of_le (UInt16.le_trans (by decide) haddress),
      hsecond.kept_of_lt (by decide) haddress]
  have hreturns : Returns (withApple third low high) 0xFB (0x0600 + 3) :=
    hfirst.returns.congr (hkept _ (by decide)) (hkept _ (by decide))
  have hboard := (hbody.congr fun _ haddress => hthird.not_page fun hpage =>
    haddress ⟨hpage.1, UInt16.lt_trans hpage.2 (by decide)⟩).withApple low hpage
  refine .rts hboard.toLoaded (by decide) rfl hreturns rfl ?_
  exact (proceeds_call hboard.toLoaded (by decide) (by decide) 0x0638 rfl rfl (by decide) 0xFB rfl
    fun last hlast => .here (.loop (hlast.board hboard))).plays

end Start

end Snake

end Machine6502
