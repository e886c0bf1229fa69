import Machine6502.Proofs.CheckedArithmetic
import Machine6502.Proofs.RunnerScreen

/-!
# The frame buffer on the screen

A screen has three bytes for each pixel, and an update goes through them and the cells of the
frame buffer side by side.  What it leaves depends on the colours of the cells alone, and a
change is reported when they are not the colours that were shown.
-/

namespace Machine6502

namespace Color

theorem bytes_inj {first second : Color} : first.bytes = second.bytes ↔ first = second := by
  obtain ⟨red, green, blue⟩ := first
  simp only [bytes, List.cons.injEq, and_true]
  constructor
  · rintro ⟨rfl, rfl, rfl⟩
    rfl
  · rintro rfl
    exact ⟨rfl, rfl, rfl⟩

theorem flatMap_bytes_injective :
    Function.Injective (List.flatMap bytes : List Color → List UInt8) := by
  intro first second hsame
  induction first generalizing second with
  | nil =>
      cases second with
      | nil => rfl
      | cons => cases hsame
  | cons color colors ih =>
      cases second with
      | nil => cases hsame
      | cons other others =>
          rw [List.flatMap_cons, List.flatMap_cons] at hsame
          obtain ⟨hcolor, hcolors⟩ := List.append_inj hsame rfl
          rw [bytes_inj.mp hcolor, ih hcolors]

/-- Bytes in threes are colours. -/
theorem exists_flatMap_bytes {buffer : List UInt8} {count : Nat}
    (hlength : buffer.length = count * 3) :
    ∃ colors : List Color, colors.length = count ∧ colors.flatMap bytes = buffer := by
  induction count generalizing buffer with
  | zero =>
      rw [Nat.zero_mul, List.length_eq_zero_iff] at hlength
      exact ⟨[], rfl, hlength.symm⟩
  | succ count ih =>
      rcases buffer with _ | ⟨red, _ | ⟨green, _ | ⟨blue, rest⟩⟩⟩ <;>
        simp only [List.length_cons, List.length_nil] at hlength
      case cons.cons.cons =>
        have hbehind : rest.length = count * 3 := by omega
        obtain ⟨colors, hcount, hrest⟩ := ih hbehind
        refine ⟨⟨red, green, blue⟩ :: colors, congrArg (· + 1) hcount, ?_⟩
        rw [List.flatMap_cons, hrest]
        rfl
      all_goals omega

end Color

namespace Screen

theorem bytes_inj {first second : Screen} : first.bytes = second.bytes ↔ first = second := by
  refine ⟨fun hsame => ?_, congrArg bytes⟩
  obtain ⟨pixels⟩ := first
  obtain ⟨others⟩ := second
  exact congrArg mk (Vector.toList_inj.mp (Color.flatMap_bytes_injective hsame))

/-- Any 3072 bytes are those of one screen. -/
theorem existsUnique_bytes {buffer : List UInt8} (hlength : buffer.length = 3072) :
    ∃! screen : Screen, screen.bytes = buffer := by
  have hthrees : buffer.length = 1024 * 3 := hlength
  obtain ⟨colors, hcount, hcolors⟩ := Color.exists_flatMap_bytes hthrees
  refine ⟨⟨⟨colors.toArray, hcount⟩⟩, hcolors, fun other hother => ?_⟩
  exact bytes_inj.mp (hother.trans hcolors.symm)

/-- Goes through cells and bytes side by side, three bytes to a cell.  Bytes that are not those
of the cell's colour are overwritten, and it tells whether there were any. -/
def repaint : List UInt8 → List UInt8 → Bool × List UInt8
  | cell :: cells, red :: green :: blue :: buffer =>
      let (changed, painted) := repaint cells buffer
      let wanted := (Color.ofCell cell).bytes
      if [red, green, blue] = wanted then (changed, [red, green, blue] ++ painted)
      else (true, wanted ++ painted)
  | _, buffer => (false, buffer)

/-- One pixel takes the colour of its cell. -/
theorem repaint_cons (cell : UInt8) (cells : List UInt8) (color : Color) (buffer : List UInt8) :
    repaint (cell :: cells) (color.bytes ++ buffer) =
      (decide (color ≠ .ofCell cell) || (repaint cells buffer).1,
        (Color.ofCell cell).bytes ++ (repaint cells buffer).2) := by
  have hstep : repaint (cell :: cells) (color.bytes ++ buffer) =
      if color.bytes = (Color.ofCell cell).bytes then
        ((repaint cells buffer).1, color.bytes ++ (repaint cells buffer).2)
      else (true, (Color.ofCell cell).bytes ++ (repaint cells buffer).2) := rfl
  rw [hstep]
  by_cases hsame : color = .ofCell cell
  · rw [if_pos (congrArg Color.bytes hsame), hsame, decide_eq_false (not_not_intro rfl),
      Bool.false_or]
  · rw [if_neg (mt Color.bytes_inj.mp hsame), decide_eq_true hsame, Bool.true_or]

theorem repaint_flatMap_bytes {cells : List UInt8} {colors : List Color}
    (hlength : cells.length = colors.length) :
    repaint cells (colors.flatMap Color.bytes) =
      (decide (colors ≠ cells.map Color.ofCell),
        (cells.map Color.ofCell).flatMap Color.bytes) := by
  induction cells generalizing colors with
  | nil =>
      rw [List.length_eq_zero_iff.mp hlength.symm]
      rfl
  | cons cell cells ih =>
      cases colors with
      | nil => cases hlength
      | cons color colors =>
          rw [List.flatMap_cons, repaint_cons, ih (Nat.succ.inj hlength), List.map_cons,
            List.flatMap_cons, ← Bool.decide_or]
          simp only [ne_eq, List.cons.injEq, not_and_or]

/-- The update of a screen is what going through its bytes leaves. -/
theorem repaint_eq_update (screen : Screen) (memory : Memory) :
    repaint (memory.readAll base 1024) screen.bytes =
      ((screen.update memory).1, (screen.update memory).2.bytes) := by
  have hlength : (memory.readAll base 1024).length = screen.pixels.toList.length := by
    rw [Memory.readAll, Memory.range, List.length_map, List.length_map, List.length_range,
      Vector.length_toList]
  have hchanged : screen.pixels.toList ≠ memory.palette ↔ screen ≠ ofMemory memory :=
    not_congr eq_ofMemory_iff.symm
  have hshown : memory.palette.flatMap Color.bytes = (ofMemory memory).bytes := by
    rw [← toList_ofMemory, bytes]
  rw [bytes, repaint_flatMap_bytes hlength, ← Memory.palette, hshown, update,
    decide_eq_decide.mpr hchanged]

theorem pixel?_ofMemory (memory : Memory) (x y : Nat) :
    (ofMemory memory).pixel? x y =
      if x < 32 ∧ y < 32 then some (.ofCell (memory.read (base + UInt16.ofNat (32 * y + x))))
      else none := by
  rw [pixel?, width, height]
  by_cases hinside : x < 32 ∧ y < 32
  · have hpixel : y * 32 + x < 1024 := by omega
    rw [if_pos hinside, if_pos hinside, ofMemory, Vector.getElem?_eq_getElem hpixel,
      Vector.getElem_ofFn, Nat.mul_comm 32]
  · rw [if_neg hinside, if_neg hinside]

theorem mem_frame_iff {address : UInt16} :
    address ∈ Memory.range base 1024 ↔ base ≤ address ∧ address ≤ last := by
  have hbase : base.toNat = 512 := rfl
  have hlast : last.toNat = 1535 := rfl
  simp only [Memory.range, List.mem_map, List.mem_range, UInt16.le_iff_toNat_le, hbase, hlast]
  constructor
  · rintro ⟨index, hindex, rfl⟩
    rw [UInt16.toNat_add, UInt16.toNat_ofNat', hbase]
    omega
  · rintro ⟨hlow, hhigh⟩
    refine ⟨address.toNat - 512, by omega, ?_⟩
    rw [← UInt16.toNat_inj, UInt16.toNat_add, UInt16.toNat_ofNat', hbase]
    omega

theorem updated_iff (screen : Screen) (memory : Memory) :
    (screen.update memory).1 = true ↔ screen ≠ ofMemory memory :=
  decide_eq_true_iff

/-- Two memories look the same when the colours of their frame buffers are the same. -/
theorem ofMemory_inj {first second : Memory} : ofMemory first = ofMemory second ↔
    ∀ address, base ≤ address → address ≤ last →
      Color.ofCell (first.read address) = Color.ofCell (second.read address) := by
  rw [eq_ofMemory_iff, toList_ofMemory, Memory.palette, Memory.palette, Memory.readAll,
    Memory.readAll, List.map_map, List.map_map, List.map_inj_left]
  simp only [mem_frame_iff, and_imp, Function.comp_apply]

/-- After the update from one memory, that from another changes the screen if a colour differs. -/
theorem updated_ofMemory_iff (first second : Memory) :
    ((ofMemory first).update second).1 = true ↔ ∃ address, base ≤ address ∧ address ≤ last ∧
      Color.ofCell (first.read address) ≠ Color.ofCell (second.read address) := by
  rw [updated_iff, ne_eq, ofMemory_inj]
  simp only [Classical.not_forall, exists_prop, ne_eq]

/-- The screen shows a frame buffer instead of what it showed before.  A pixel is looked up by
its column and its row, and that is where the loop has put the colour of its cell. -/
structure Repaints (before : Screen) (memory : Memory) (changed : Bool) (after : Screen) :
    Prop where
  loop : repaint (memory.readAll base 1024) before.bytes = (changed, after.bytes)
  changed : changed = true ↔ after.bytes ≠ before.bytes
  pixel : ∀ x y, after.pixel? x y =
    if x < 32 ∧ y < 32 then some (.ofCell (memory.read (0x0200 + UInt16.ofNat (32 * y + x))))
    else none
  lookup : ∀ x y, after.checkedPixel? x y = some (after.pixel? x y)

theorem repaints_update (screen : Screen) (memory : Memory) :
    screen.Repaints memory (screen.update memory).1 (screen.update memory).2 where
  loop := repaint_eq_update screen memory
  changed := (updated_iff screen memory).trans (not_congr (eq_comm.trans bytes_inj.symm))
  pixel := pixel?_ofMemory memory
  lookup := checkedPixel?_eq _

end Screen

namespace Monitor

variable {monitor other : Monitor}

theorem perform_updateScreen (hfull : monitor.cpu.memory.size = Memory.addressCount)
    (screen : Screen) : { monitor with screen }.perform .updateScreen =
      some (.shown (screen.update monitor.cpu.memory).1 (.ofMemory monitor.cpu.memory),
        { monitor with screen := .ofMemory monitor.cpu.memory }) :=
  Memory.within_of_full (Nat.le_of_eq hfull.symm) _ _

/-- An update of the screen shows the frame buffer, whatever was shown before, and tells
whether that changed a byte.  Doing it again changes nothing.  Another machine with the same
frame buffer shows the same screen, and one whose update comes after this one's reports a change
exactly when the colour of a cell differs. -/
theorem screen_is_view (hfull : monitor.cpu.memory.size = Memory.addressCount)
    (hother : other.cpu.memory.size = Memory.addressCount) :
    (∀ buffer : List UInt8, buffer.length = 3072 → ∃! screen : Screen, screen.bytes = buffer) ∧
    ∃ changed shown,
      monitor.perform .updateScreen =
        some (.shown changed shown, { monitor with screen := shown }) ∧
      monitor.screen.Repaints monitor.cpu.memory changed shown ∧
      { monitor with screen := shown }.perform .updateScreen =
        some (.shown false shown, { monitor with screen := shown }) ∧
      ((∀ address, 0x0200 ≤ address → address ≤ 0x05FF →
          monitor.cpu.read address = other.cpu.read address) →
        ∃ otherChanged, other.perform .updateScreen =
          some (.shown otherChanged shown, { other with screen := shown })) ∧
      ∃ differs next,
        { other with screen := shown }.perform .updateScreen =
          some (.shown differs next, { other with screen := next }) ∧
        (differs = true ↔ ∃ address, 0x0200 ≤ address ∧ address ≤ 0x05FF ∧
          Color.ofCell (monitor.cpu.read address) ≠ Color.ofCell (other.cpu.read address)) := by
  refine ⟨fun _ => Screen.existsUnique_bytes, _, _, perform_updateScreen hfull monitor.screen,
    Screen.repaints_update monitor.screen monitor.cpu.memory, ?_, fun hagree => ?_, _, _,
    perform_updateScreen hother _, Screen.updated_ofMemory_iff _ _⟩
  · have hsame : ((Screen.ofMemory monitor.cpu.memory).update monitor.cpu.memory).1 = false :=
      Screen.update_update monitor.screen monitor.cpu.memory
    rw [perform_updateScreen hfull, hsame]
  · have hsame : Screen.ofMemory monitor.cpu.memory = .ofMemory other.cpu.memory :=
      Screen.ofMemory_inj.mpr fun address hlow hhigh =>
        congrArg Color.ofCell (hagree address hlow hhigh)
    rw [hsame]
    exact ⟨_, perform_updateScreen hother other.screen⟩

/-- A memory that is blank but for its first pixel. -/
def withPixel (index : UInt8) : Monitor :=
  { initial with cpu := { Cpu.initial with memory := Memory.blank.write 0x0200 index } }

theorem size_withPixel (index : UInt8) :
    (withPixel index).cpu.memory.size = Memory.addressCount :=
  (Memory.size_write Memory.blank _ _).trans Memory.size_blank

theorem read_withPixel (index : UInt8) (address : UInt16) :
    (withPixel index).cpu.read address = if address = 0x0200 then index else 0 := by
  have hread := Memory.read_write_eq_update Memory.size_blank 0x0200 index
  rw [← Memory.read_blank address, ← Function.update_apply, ← hread]
  rfl

/-- Another index of the same colour is no change, and cells behind the frame buffer do not
count. -/
theorem screen_is_view_of_grey :
    let behind : Monitor := { initial with
      cpu := { Cpu.initial with memory := (withPixel 2).cpu.memory.write 0x0600 1 } }
    (withPixel 2).cpu.memory.size = Memory.addressCount ∧
      (withPixel 9).cpu.memory.size = Memory.addressCount ∧
      behind.cpu.memory.size = Memory.addressCount ∧
      ∃ changed shown,
        (withPixel 2).perform .updateScreen =
          some (.shown changed shown, { withPixel 2 with screen := shown }) ∧
        shown.pixel? 0 0 = some .grey ∧ shown.pixel? 31 31 = some .black ∧
        shown.pixel? 32 0 = none ∧
        (∃ changed, behind.perform .updateScreen =
          some (.shown changed shown, { behind with screen := shown })) ∧
        ∃ next, { withPixel 9 with screen := shown }.perform .updateScreen =
          some (.shown false next, { withPixel 9 with screen := next }) := by
  intro behind
  have hbehind : behind.cpu.memory.size = Memory.addressCount :=
    (Memory.size_write _ _ _).trans (size_withPixel 2)
  have hframe : ∀ address : UInt16, 0x0200 ≤ address → address ≤ 0x05FF →
      (withPixel 2).cpu.read address = behind.cpu.read address := by
    intro address _ hhigh
    have hother : address ≠ 0x0600 := by
      rintro rfl
      exact absurd hhigh (by decide)
    have hread := Memory.read_write_eq_update (size_withPixel 2) 0x0600 1
    exact ((congrFun hread address).trans (Function.update_of_ne hother _ _)).symm
  have hcolours : ∀ address, Color.ofCell ((withPixel 2).cpu.read address) =
      Color.ofCell ((withPixel 9).cpu.read address) := by
    intro address
    rw [read_withPixel, read_withPixel]
    split <;> rfl
  obtain ⟨-, changed, shown, hshown, hrepaints, -, hsame, -⟩ :=
    screen_is_view (size_withPixel 2) hbehind
  obtain ⟨-, _, _, hfirst, -, -, -, differs, next, hnext, hdiffers⟩ :=
    screen_is_view (size_withPixel 2) (size_withPixel 9)
  obtain ⟨hreply, -⟩ := Prod.mk.inj (Option.some.inj (hshown.symm.trans hfirst))
  obtain ⟨-, rfl⟩ := Reply.shown.inj hreply
  have hunchanged : differs = false := by
    rw [← Bool.not_eq_true, hdiffers]
    rintro ⟨address, -, -, hdiffer⟩
    exact hdiffer (hcolours address)
  rw [hunchanged] at hnext
  refine ⟨size_withPixel 2, size_withPixel 9, hbehind, changed, shown, hshown, ?_, ?_, ?_,
    hsame hframe, next, hnext⟩
  · rw [hrepaints.pixel]
    exact congrArg (some ∘ Color.ofCell) (read_withPixel 2 0x0200)
  · rw [hrepaints.pixel]
    exact congrArg (some ∘ Color.ofCell) (read_withPixel 2 0x05FF)
  · rw [hrepaints.pixel]
    rfl

end Monitor

end Machine6502
