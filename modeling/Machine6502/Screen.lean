import Machine6502.Cpu

/-!
# The screen

A grid of 32 by 32 coloured pixels, one for each cell of the frame buffer, row by
row from the top.  Updating the screen from memory reports whether a pixel changed.
-/

namespace Machine6502

structure Color where
  red : UInt8
  green : UInt8
  blue : UInt8
deriving DecidableEq, Repr

namespace Color

def black : Color := ⟨0, 0, 0⟩
def white : Color := ⟨255, 255, 255⟩
def grey : Color := ⟨128, 128, 128⟩
def pureRed : Color := ⟨255, 0, 0⟩
def pureGreen : Color := ⟨0, 255, 0⟩
def pureBlue : Color := ⟨0, 0, 255⟩
def magenta : Color := ⟨255, 0, 255⟩
def yellow : Color := ⟨255, 255, 0⟩
def cyan : Color := ⟨0, 255, 255⟩

/-- The colour of a frame buffer cell.  The numbers 9 to 14 repeat 2 to 7, and all
others from 8 on are cyan. -/
def ofCell (cell : UInt8) : Color :=
  match cell with
  | 0 => black
  | 1 => white
  | 2 => grey
  | 3 => pureRed
  | 4 => pureGreen
  | 5 => pureBlue
  | 6 => magenta
  | 7 => yellow
  | 9 => grey
  | 10 => pureRed
  | 11 => pureGreen
  | 12 => pureBlue
  | 13 => magenta
  | 14 => yellow
  | _ => cyan

def bytes (color : Color) : List UInt8 :=
  [color.red, color.green, color.blue]

end Color

/-- The pixels of the screen, row by row. -/
structure Screen where
  pixels : Vector Color 1024
deriving DecidableEq

namespace Screen

def width : Nat := 32

def height : Nat := 32

def base : UInt16 := 0x0200

def last : UInt16 := 0x05FF

def blank : Screen :=
  ⟨Vector.replicate 1024 Color.black⟩

/-- The frame buffer of a memory in colours. -/
def ofMemory (memory : Memory) : Screen :=
  ⟨Vector.ofFn fun index => Color.ofCell (memory.read (base + UInt16.ofNat index))⟩

/-- Shows the frame buffer, and tells whether a pixel changed. -/
def update (screen : Screen) (memory : Memory) : Bool × Screen :=
  let next := ofMemory memory
  (screen ≠ next, next)

/-- The colour in a column and a row, if the screen has them. -/
def pixel? (screen : Screen) (x y : Nat) : Option Color :=
  if x < width ∧ y < height then screen.pixels[y * width + x]? else none

def bytes (screen : Screen) : List UInt8 :=
  screen.pixels.toList.flatMap Color.bytes

/-- Moves the cursor of a terminal to its first place. -/
def home : String := "\x1b[H"

/-- A pixel in text: two blanks for a black one, and two marks for any other. -/
def pixelText (color : Option Color) : List Char :=
  if color = some Color.black then [' ', ' '] else ['#', '#']

/-- A row in text, with the end of its line. -/
def rowText (screen : Screen) (y : Nat) : List Char :=
  (List.range width).flatMap (fun x => pixelText (screen.pixel? x y)) ++ ['\n']

def text (screen : Screen) : String :=
  String.ofList ((List.range height).flatMap screen.rowText)

/-- What draws the screen on a terminal, over the picture that is there. -/
def draw (screen : Screen) : String :=
  home ++ screen.text

/-- The screen shows what was shown last, so showing it again changes nothing. -/
@[simp]
theorem update_update (screen : Screen) (memory : Memory) :
    ((screen.update memory).2.update memory).1 = false := by
  simp [update]

end Screen

end Machine6502
