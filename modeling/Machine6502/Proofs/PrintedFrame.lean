import Mathlib.Data.List.Basic
import Machine6502.Proofs.Blocks
import Machine6502.Proofs.FrameBuffer

/-!
# The frame on a terminal

A drawn screen is text of a fixed shape: 32 lines of 64 characters behind what moves the cursor.
Black is the colour of the cell zero alone, so the text tells which cells of the frame buffer are
zero, and nothing else about them.
-/

namespace Machine6502

theorem Color.ofCell_eq_black_iff (cell : UInt8) : ofCell cell = black ↔ cell = 0 := by
  revert cell
  exact forall_byte (by decide +kernel)

namespace Screen

/-- The mark of a cell, which stands twice in a frame. -/
def cellMark (cell : UInt8) : Char :=
  if cell = 0 then ' ' else '#'

theorem cellMark_eq_iff {cell : UInt8} : cellMark cell = '#' ↔ cell ≠ 0 := by
  by_cases hzero : cell = 0 <;> simp [cellMark, hzero]

/-- The line that shows a row of the frame buffer. -/
def line (memory : Memory) (y : Nat) : List Char :=
  (List.range width).flatMap fun x =>
    List.replicate 2 (cellMark (memory.read (base + UInt16.ofNat (32 * y + x))))

/-- A text is a frame of a memory: its lines stand behind the three characters that move the
cursor to its first place, and each cell of the frame buffer has its mark in two columns. -/
structure FrameOf (memory : Memory) (text : String) (lines : List (List Char)) : Prop where
  toList : text.toList = ['\x1b', '[', 'H'] ++ lines.flatMap fun line => line ++ ['\n']
  rows : lines.length = 32
  columns : ∀ line ∈ lines, line.length = 64
  marks : ∀ x < 32, ∀ y < 32, ∃ row, lines[y]? = some row ∧
    ∀ column, column = 2 * x ∨ column = 2 * x + 1 → row[column]? = some
      (if memory.read (0x0200 + UInt16.ofNat (32 * y + x)) = 0 then ' ' else '#')

/-- The addresses of the cells that a frame shows as not zero, read off the first of their two
marks.  A line has 65 characters with its end. -/
def litCells (frame : String) : List UInt16 :=
  (Memory.range base 1024).filter fun address =>
    let index := (address - base).toNat
    frame.toList[3 + (index / 32 * 65 + index % 32 * 2)]? == some '#'

section Drawing

variable (memory : Memory)

theorem pixelText_ofCell (cell : UInt8) :
    pixelText (some (.ofCell cell)) = List.replicate 2 (cellMark cell) := by
  simp only [pixelText, cellMark, Option.some_inj, Color.ofCell_eq_black_iff]
  split <;> rfl

theorem rowText_ofMemory {y : Nat} (hy : y < height) :
    (ofMemory memory).rowText y = line memory y ++ ['\n'] := by
  rw [rowText, line]
  congr 1
  apply List.flatMap_congr
  intro x hx
  have hinside : x < 32 ∧ y < 32 := ⟨List.mem_range.mp hx, hy⟩
  rw [pixel?_ofMemory, if_pos hinside, pixelText_ofCell]

theorem toList_draw :
    (ofMemory memory).draw.toList = ['\x1b', '[', 'H'] ++
      ((List.range height).map (line memory)).flatMap fun line => line ++ ['\n'] := by
  have hhome : home.toList = ['\x1b', '[', 'H'] := rfl
  have hrows : (List.range height).flatMap (ofMemory memory).rowText =
      (List.range height).flatMap fun y => line memory y ++ ['\n'] := by
    apply List.flatMap_congr
    intro y hy
    exact rowText_ofMemory memory (List.mem_range.mp hy)
  rw [draw, text, String.toList_append, String.toList_ofList, hhome, hrows, List.flatMap_map]

theorem length_line (y : Nat) : (line memory y).length = 64 := by
  rw [line, length_flatMap_blocks fun _ _ => List.length_replicate, List.length_range, width]

theorem getElem?_line {x part : Nat} (hx : x < width) (hpart : part < 2) (y : Nat) :
    (line memory y)[x * 2 + part]? =
      some (cellMark (memory.read (base + UInt16.ofNat (32 * y + x)))) := by
  rw [line, getElem?_flatMap_blocks (fun _ _ => List.length_replicate) x hpart,
    List.getElem?_range hx, Option.bind_some, List.getElem?_replicate, if_pos hpart]

theorem frameOf_draw :
    FrameOf memory (ofMemory memory).draw ((List.range height).map (line memory)) where
  toList := toList_draw memory
  rows := by rw [List.length_map, List.length_range, height]
  columns := by
    simp only [List.mem_map]
    rintro _ ⟨y, -, rfl⟩
    exact length_line memory y
  marks x hx y hy := by
    refine ⟨line memory y, ?_, ?_⟩
    · have hrow : y < height := hy
      rw [List.getElem?_map, List.getElem?_range hrow, Option.map_some]
    · rintro _ (rfl | rfl)
      · rw [Nat.mul_comm]
        exact getElem?_line memory hx Nat.zero_lt_two y
      · rw [Nat.mul_comm]
        exact getElem?_line memory hx Nat.one_lt_two y

end Drawing

section Reading

variable {memory other : Memory} {frame : String} {lines : List (List Char)}

/-- The first mark of a cell stands in the line of its row. -/
theorem FrameOf.getElem?_toList (hframe : FrameOf memory frame lines) {index : Nat}
    (hindex : index < 1024) :
    frame.toList[3 + (index / 32 * 65 + index % 32 * 2)]? =
      some (cellMark (memory.read (base + UInt16.ofNat index))) := by
  -- With their ends the lines are blocks of one length, behind the three characters.
  have hended : ∀ line ∈ lines, (line ++ ['\n']).length = 65 := fun line hline => by
    rw [List.length_append, hframe.columns line hline, List.length_singleton]
  obtain ⟨line, hline, hmarks⟩ := hframe.marks (index % 32) (by omega) (index / 32) (by omega)
  have hcolumn : index % 32 * 2 < line.length := by
    rw [hframe.columns line (List.mem_of_getElem? hline)]
    omega
  have hmark := hmarks (index % 32 * 2) (.inl (Nat.mul_comm _ _))
  rw [Nat.div_add_mod] at hmark
  rw [hframe.toList, List.getElem?_append_right (Nat.le_add_right 3 _), List.length_cons,
    List.length_cons, List.length_cons, List.length_nil, Nat.add_sub_cancel_left,
    getElem?_flatMap_blocks hended _ (by omega), hline, Option.bind_some,
    List.getElem?_append_left hcolumn, hmark]
  rfl

/-- The cells that are not zero can be read off a frame. -/
theorem FrameOf.mem_litCells_iff (hframe : FrameOf memory frame lines) (address : UInt16) :
    address ∈ litCells frame ↔ base ≤ address ∧ address ≤ last ∧ memory.read address ≠ 0 := by
  rw [litCells, List.mem_filter, mem_frame_iff, and_assoc]
  apply and_congr_right
  intro hlow
  apply and_congr_right
  intro hhigh
  have hindex : (address - base).toNat < 1024 := by
    rw [UInt16.toNat_sub_of_le _ _ hlow]
    exact Nat.sub_lt_left_of_lt_add hlow (Nat.lt_succ_of_le hhigh)
  have haddress : base + UInt16.ofNat (address - base).toNat = address := by
    rw [UInt16.ofNat_toNat, UInt16.add_comm, UInt16.sub_add_cancel]
  rw [beq_iff_eq, hframe.getElem?_toList hindex, haddress, Option.some_inj, cellMark_eq_iff]

end Reading

/-- Two memories have the same frame when they have the same cells that are zero. -/
theorem draw_inj {memory other : Memory} :
    (ofMemory memory).draw = (ofMemory other).draw ↔
      ∀ address, base ≤ address → address ≤ last →
        (memory.read address = 0 ↔ other.read address = 0) := by
  constructor
  · intro hsame address hlow hhigh
    have hlit := (frameOf_draw memory).mem_litCells_iff address
    rw [hsame, (frameOf_draw other).mem_litCells_iff] at hlit
    simp only [hlow, hhigh, true_and] at hlit
    exact (not_iff_not.mp hlit).symm
  · intro hzero
    have hlines : (List.range height).map (line memory) = (List.range height).map (line other) := by
      apply List.map_congr_left
      intro y hy
      apply List.flatMap_congr
      intro x hx
      have hpixel : base + UInt16.ofNat (32 * y + x) ∈ Memory.range base 1024 := by
        apply List.mem_map_of_mem
        simp only [List.mem_range, width, height] at hx hy ⊢
        omega
      obtain ⟨hlow, hhigh⟩ := mem_frame_iff.mp hpixel
      simp only [cellMark, hzero _ hlow hhigh]
    rw [← String.toList_inj, toList_draw, toList_draw, hlines]

end Screen

namespace Monitor

variable {monitor other : Monitor}

/-- What is drawn after an update is a frame of the memory, whatever was on the screen.  The cells
that are not zero can be read off it, and a machine with other colours in them draws the same. -/
theorem draws_cells_not_zero (hfull : monitor.cpu.memory.size = Memory.addressCount)
    (hother : other.cpu.memory.size = Memory.addressCount) :
    ∃ changed shown frame lines,
      monitor.perform .updateScreen =
        some (.shown changed shown, { monitor with screen := shown }) ∧
      { monitor with screen := shown }.perform .draw =
        some (.text frame, { monitor with screen := shown }) ∧
      Screen.FrameOf monitor.cpu.memory frame lines ∧
      (∀ address, address ∈ Screen.litCells frame ↔
        0x0200 ≤ address ∧ address ≤ 0x05FF ∧ monitor.cpu.read address ≠ 0) ∧
      ∃ otherChanged otherShown otherFrame,
        other.perform .updateScreen =
          some (.shown otherChanged otherShown, { other with screen := otherShown }) ∧
        { other with screen := otherShown }.perform .draw =
          some (.text otherFrame, { other with screen := otherShown }) ∧
        (frame = otherFrame ↔ ∀ address, 0x0200 ≤ address → address ≤ 0x05FF →
          (monitor.cpu.read address = 0 ↔ other.cpu.read address = 0)) := by
  have hframe := Screen.frameOf_draw monitor.cpu.memory
  exact ⟨_, _, _, _, perform_updateScreen hfull monitor.screen, rfl, hframe,
    hframe.mem_litCells_iff, _, _, _, perform_updateScreen hother other.screen, rfl,
    Screen.draw_inj⟩

/-- A pixel of another colour is drawn the same, and only a black one is not drawn. -/
theorem draws_cells_not_zero_of_one_pixel :
    (withPixel 2).cpu.memory.size = Memory.addressCount ∧
      (withPixel 5).cpu.memory.size = Memory.addressCount ∧
      ∃ changed shown frame otherChanged otherShown,
        (withPixel 2).perform .updateScreen =
          some (.shown changed shown, { withPixel 2 with screen := shown }) ∧
        { withPixel 2 with screen := shown }.perform .draw =
          some (.text frame, { withPixel 2 with screen := shown }) ∧
        (∀ address, address ∈ Screen.litCells frame ↔ address = 0x0200) ∧
        (withPixel 5).perform .updateScreen =
          some (.shown otherChanged otherShown, { withPixel 5 with screen := otherShown }) ∧
        { withPixel 5 with screen := otherShown }.perform .draw =
          some (.text frame, { withPixel 5 with screen := otherShown }) := by
  obtain ⟨changed, shown, frame, -, hupdate, hdraw, -, hlit, otherChanged, otherShown, otherFrame,
    hotherUpdate, hotherDraw, hsame⟩ :=
    draws_cells_not_zero (size_withPixel 2) (size_withPixel 5)
  have hframes : frame = otherFrame := by
    apply hsame.mpr
    intro address _ _
    rw [read_withPixel, read_withPixel]
    split <;> decide
  refine ⟨size_withPixel 2, size_withPixel 5, changed, shown, frame, otherChanged, otherShown,
    hupdate, hdraw, ?_, hotherUpdate, hframes ▸ hotherDraw⟩
  intro address
  rw [hlit, read_withPixel]
  constructor
  · rintro ⟨-, -, hcell⟩
    by_contra hother
    exact hcell (if_neg hother)
  · rintro rfl
    decide

end Monitor

end Machine6502
