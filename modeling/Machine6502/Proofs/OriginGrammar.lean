import Mathlib.Data.List.TakeWhile
import Mathlib.Data.Nat.Digits.Defs
import Machine6502.Program

/-!
# The grammar of origins

An origin is a hexadecimal numeral behind any number of marks and at most one plus sign.  What is
wrong with any other text depends on the digits that it begins with: when these are too large
already, nothing behind them is looked at.
-/

namespace Machine6502

namespace Origin

/-- The hexadecimal digits in the order of their values. -/
def numerals : List Char :=
  ['0', '1', '2', '3', '4', '5', '6', '7', '8', '9', 'a', 'b', 'c', 'd', 'e', 'f']

def isDigit (digit : Char) : Bool :=
  decide (digit.toLower ∈ numerals)

def digitValue (digit : Char) : Nat :=
  numerals.idxOf digit.toLower

/-- The value of a row of digits, the lowest digit last. -/
def value (digits : List Char) : Nat :=
  Nat.ofDigits 16 (digits.reverse.map digitValue)

/-- What a text is taken apart into: what is behind its marks, what of that is behind a sign, and
the digits that this begins with. -/
structure Parts where
  unmarked : List Char
  unsigned : List Char
  digits : List Char

/-- These are the parts of a text.  All marks are dropped, and a plus sign unless it is the last
character; the digits are the longest row of digits in front of what is left. -/
structure Parts.Of (parts : Parts) (text : String) : Prop where
  marks : ∃ count, text.toList = (List.replicate count ['0', 'x']).flatten ++ parts.unmarked
  noMark : ¬['0', 'x'] <+: parts.unmarked
  sign : parts.unmarked = '+' :: parts.unsigned ∧ parts.unsigned ≠ [] ∨
    parts.unmarked = parts.unsigned ∧ ∀ behind, behind ≠ [] → parts.unmarked ≠ '+' :: behind
  front : parts.digits <+: parts.unsigned
  digits : ∀ digit ∈ parts.digits, isDigit digit = true
  longest : ∀ digits, digits <+: parts.unsigned → (∀ digit ∈ digits, isDigit digit = true) →
    digits.length ≤ parts.digits.length

/-- The text names an address: digits and nothing behind them, not too large. -/
structure Parts.NameAddress (parts : Parts) : Prop where
  nonempty : parts.unsigned ≠ []
  complete : parts.digits = parts.unsigned
  fits : value parts.digits ≤ 0xFFFF

/-- What is wrong with a text that names no address. -/
def Parts.complaint (parts : Parts) : String :=
  if parts.unmarked = [] then "cannot parse integer from empty string"
  else if 0xFFFF < value parts.digits then "number too large to fit in target type"
  else "invalid digit found in string"

section Digits

theorem digit?_of_lt {digit : Char} (hascii : digit.toNat < 128) :
    digit? digit = if isDigit digit then some (digitValue digit) else none := by
  -- Both sides look at one character only, so the 128 of them are gone through.
  have hall : ∀ code < 128, digit? (Char.ofNat code) =
      if isDigit (Char.ofNat code) then some (digitValue (Char.ofNat code)) else none := by
    decide +kernel
  have hdigit := hall digit.toNat hascii
  rwa [Char.ofNat_toNat] at hdigit

/-- A character outside ASCII is no digit. -/
theorem digit?_of_le {digit : Char} (hascii : 128 ≤ digit.toNat) :
    digit? digit = none ∧ isDigit digit = false := by
  have hbehind : ∀ bound : Char, bound.toNat < 128 → ¬digit ≤ bound := by
    intro bound hbound hle
    rw [Char.le_def, UInt32.le_iff_toNat_le] at hle
    exact Nat.not_le.mpr hbound (Nat.le_trans hascii hle)
  have hlower : digit.toLower = digit :=
    dif_neg fun hupper => hbehind 'Z' (by decide) hupper.2
  have hother : digit ∉ numerals := by
    intro hmem
    have hall : ∀ numeral ∈ numerals, numeral.toNat < 128 := by simp [numerals]
    exact Nat.not_lt.mpr hascii (hall digit hmem)
  constructor
  · rw [digit?, if_neg fun h => hbehind '9' (by decide) h.2,
      if_neg fun h => hbehind 'f' (by decide) h.2, if_neg fun h => hbehind 'F' (by decide) h.2]
  · rw [isDigit, hlower, decide_eq_false hother]

theorem digit?_eq (digit : Char) :
    digit? digit = if isDigit digit then some (digitValue digit) else none := by
  by_cases hascii : digit.toNat < 128
  · exact digit?_of_lt hascii
  · obtain ⟨hnone, hdigit⟩ := digit?_of_le (Nat.not_lt.mp hascii)
    rw [hnone, hdigit]
    rfl

end Digits

section Values

/-- The value of digits behind others. -/
def valueFrom (before : Nat) (digits : List Char) : Nat :=
  digits.foldl (fun before digit => 16 * before + digitValue digit) before

theorem valueFrom_cons (before : Nat) (digit : Char) (digits : List Char) :
    valueFrom before (digit :: digits) = valueFrom (16 * before + digitValue digit) digits :=
  rfl

theorem le_valueFrom (before : Nat) (digits : List Char) : before ≤ valueFrom before digits := by
  induction digits generalizing before with
  | nil => exact Nat.le_refl before
  | cons digit digits ih =>
      calc
        before ≤ 16 * before + digitValue digit := by omega
        _ ≤ valueFrom before (digit :: digits) := ih _

theorem value_eq_valueFrom (digits : List Char) : value digits = valueFrom 0 digits := by
  rw [value, Nat.ofDigits_eq_foldr, List.foldr_map, List.foldr_reverse, valueFrom]
  congr 1
  funext before digit
  exact Nat.add_comm _ _

/-- Digits are read as far as they go, unless they become too large before. -/
theorem readDigits_eq {before : Nat} (hbefore : before ≤ 0xFFFF) (text : List Char) :
    readDigits before text =
      let digits := text.takeWhile isDigit
      if 0xFFFF < valueFrom before digits then .error .tooLarge
      else if digits = text then .ok (UInt16.ofNat (valueFrom before digits))
      else .error .invalidDigit := by
  induction text generalizing before with
  | nil => simp [readDigits, valueFrom, Nat.not_lt.mpr hbefore]
  | cons first rest ih =>
      rw [readDigits, digit?_eq]
      cases hfirst : isDigit first with
      | false =>
          simp [hfirst, valueFrom, Nat.not_lt.mpr hbefore]
      | true =>
          simp only [if_true, List.takeWhile_cons_of_pos hfirst, valueFrom_cons, List.cons.injEq,
            true_and]
          by_cases hlarge : 0xFFFF < 16 * before + digitValue first
          -- A number that is too large stays so, whatever its next digits are.
          · have htotal := Nat.lt_of_lt_of_le hlarge (le_valueFrom _ (rest.takeWhile isDigit))
            rw [if_pos hlarge, if_pos htotal]
          · rw [if_neg hlarge, ih (Nat.not_lt.mp hlarge)]

end Values

section Taking

theorem dropMarks_marks (count : Nat) (text : List Char) :
    dropMarks ((List.replicate count ['0', 'x']).flatten ++ text) = dropMarks text := by
  induction count with
  | zero => rfl
  | succ count ih =>
      rw [List.replicate_succ, List.flatten_cons, List.append_assoc]
      exact ih

theorem dropMarks_of_noMark {text : List Char} (hmark : ¬['0', 'x'] <+: text) :
    dropMarks text = text := by
  rw [dropMarks]
  rintro rest rfl
  exact hmark ⟨rest, rfl⟩

/-- What is dropped are marks, and none is left. -/
theorem exists_marks (text : List Char) :
    (∃ count, text = (List.replicate count ['0', 'x']).flatten ++ dropMarks text) ∧
      ¬['0', 'x'] <+: dropMarks text := by
  fun_induction dropMarks text with
  | case1 rest ih =>
      obtain ⟨⟨count, hmarks⟩, hmark⟩ := ih
      refine ⟨⟨count + 1, ?_⟩, hmark⟩
      rw [List.replicate_succ, List.flatten_cons, List.append_assoc, ← hmarks]
      rfl
  | case2 text hother =>
      refine ⟨⟨0, rfl⟩, ?_⟩
      rintro ⟨rest, rfl⟩
      exact hother rest rfl

theorem dropSign_eq_iff {text behind : List Char} : dropSign text = behind ↔
    text = '+' :: behind ∧ behind ≠ [] ∨
      text = behind ∧ ∀ rest, rest ≠ [] → text ≠ '+' :: rest := by
  fun_cases dropSign text with
  | case1 first rest =>
      constructor
      · rintro rfl
        exact .inl ⟨rfl, List.cons_ne_nil first rest⟩
      · rintro (⟨hsigned, -⟩ | ⟨-, hunsigned⟩)
        · exact (List.cons.inj hsigned).2
        · exact absurd rfl (hunsigned (first :: rest) (List.cons_ne_nil first rest))
  | case2 text hother =>
      constructor
      · rintro rfl
        refine .inr ⟨rfl, fun rest hrest hsigned => ?_⟩
        obtain ⟨first, behind, rfl⟩ := List.exists_cons_of_ne_nil hrest
        exact hother first behind hsigned
      · rintro (⟨hsigned, hbehind⟩ | ⟨hunsigned, -⟩)
        · obtain ⟨first, rest, rfl⟩ := List.exists_cons_of_ne_nil hbehind
          exact absurd hsigned (hother first rest)
        · exact hunsigned

/-- Digits in front that no longer row of digits exceeds are all the digits in front. -/
theorem eq_takeWhile_iff {digits text : List Char} :
    digits = text.takeWhile isDigit ↔ digits <+: text ∧
      (∀ digit ∈ digits, isDigit digit = true) ∧
      ∀ longer, longer <+: text → (∀ digit ∈ longer, isDigit digit = true) →
        longer.length ≤ digits.length := by
  have hle : ∀ other, other <+: text → (∀ digit ∈ other, isDigit digit = true) →
      other <+: text.takeWhile isDigit := by
    rintro other ⟨behind, rfl⟩ hother
    rw [List.takeWhile_append_of_pos hother]
    exact List.prefix_append other _
  constructor
  · rintro rfl
    exact ⟨List.takeWhile_prefix _, fun _ => List.mem_takeWhile_imp,
      fun longer hfront hdigits => (hle longer hfront hdigits).length_le⟩
  · rintro ⟨hfront, hdigits, hlongest⟩
    apply (hle digits hfront hdigits).eq_of_length_le
    exact hlongest _ (List.takeWhile_prefix _) fun _ => List.mem_takeWhile_imp

/-- The parts that reading an origin takes a text apart into. -/
def Parts.ofText (text : String) : Parts :=
  let unmarked := dropMarks text.toList
  let unsigned := dropSign unmarked
  ⟨unmarked, unsigned, unsigned.takeWhile isDigit⟩

theorem Parts.of_ofText (text : String) : (ofText text).Of text := by
  obtain ⟨hmarks, hmark⟩ := exists_marks text.toList
  obtain ⟨hfront, hdigits, hlongest⟩ := eq_takeWhile_iff.mp (Eq.refl (ofText text).digits)
  exact ⟨hmarks, hmark, dropSign_eq_iff.mp rfl, hfront, hdigits, hlongest⟩

theorem Parts.Of.eq_ofText {parts : Parts} {text : String} (hparts : parts.Of text) :
    parts = ofText text := by
  obtain ⟨unmarked, unsigned, digits⟩ := parts
  obtain ⟨⟨count, hmarks⟩, hmark, hsign, hfront, hdigits, hlongest⟩ := hparts
  have hunmarked : dropMarks text.toList = unmarked := by
    rw [hmarks, dropMarks_marks, dropMarks_of_noMark hmark]
  have hunsigned : dropSign unmarked = unsigned := dropSign_eq_iff.mpr hsign
  have htaken : digits = unsigned.takeWhile isDigit :=
    eq_takeWhile_iff.mpr ⟨hfront, hdigits, hlongest⟩
  simp only [ofText, hunmarked, hunsigned, htaken]

/-- A text has its parts, and only these. -/
theorem existsUnique_parts (text : String) : ∃! parts : Parts, parts.Of text :=
  ⟨.ofText text, Parts.of_ofText text, fun _ hparts => hparts.eq_ofText⟩

end Taking

section Reading

theorem dropSign_ne_nil {text : List Char} (htext : text ≠ []) : dropSign text ≠ [] := by
  fun_cases dropSign text with
  | case1 first rest => exact List.cons_ne_nil first rest
  | case2 text => exact htext

theorem parse_of_ne_nil {text : String} (htext : dropMarks text.toList ≠ []) :
    parse text = readDigits 0 (dropSign (dropMarks text.toList)) := by
  rw [parse]
  split
  next hnil => exact absurd hnil htext
  next => rfl

variable {parts : Parts} {text : String}

theorem Parts.Of.parse_eq (hparts : parts.Of text) : parse text =
    if parts.unmarked = [] then .error .empty
    else if 0xFFFF < value parts.digits then .error .tooLarge
    else if parts.digits = parts.unsigned then .ok (UInt16.ofNat (value parts.digits))
    else .error .invalidDigit := by
  rw [hparts.eq_ofText]
  by_cases hempty : dropMarks text.toList = []
  · simp only [parse, Parts.ofText, hempty, if_true]
  · simp only [parse_of_ne_nil hempty, Parts.ofText, hempty, if_false,
      readDigits_eq (Nat.zero_le _), value_eq_valueFrom]

theorem Parts.Of.unsigned_ne_nil (hparts : parts.Of text) (hunmarked : parts.unmarked ≠ []) :
    parts.unsigned ≠ [] := by
  rw [← dropSign_eq_iff.mpr hparts.sign]
  exact dropSign_ne_nil hunmarked

theorem Parts.Of.parse_of_nameAddress (hparts : parts.Of text) (hname : parts.NameAddress) :
    parse text = .ok (UInt16.ofNat (value parts.digits)) := by
  have hunmarked : parts.unmarked ≠ [] := by
    intro hnil
    apply hname.nonempty
    rw [← dropSign_eq_iff.mpr hparts.sign, hnil]
    rfl
  rw [hparts.parse_eq, if_neg hunmarked, if_neg (Nat.not_lt.mpr hname.fits),
    if_pos hname.complete]

/-- What is told about a text that names no address is what is wrong with it. -/
theorem Parts.Of.parse_of_not_nameAddress (hparts : parts.Of text) (hname : ¬parts.NameAddress) :
    ∃ error, parse text = .error error ∧ error.message = parts.complaint := by
  rw [hparts.parse_eq, complaint]
  by_cases hempty : parts.unmarked = []
  · rw [if_pos hempty, if_pos hempty]
    exact ⟨.empty, rfl, rfl⟩
  rw [if_neg hempty, if_neg hempty]
  by_cases hlarge : 0xFFFF < value parts.digits
  · rw [if_pos hlarge, if_pos hlarge]
    exact ⟨.tooLarge, rfl, rfl⟩
  rw [if_neg hlarge, if_neg hlarge]
  have hincomplete : parts.digits ≠ parts.unsigned := fun hcomplete =>
    hname ⟨hparts.unsigned_ne_nil hempty, hcomplete, Nat.not_lt.mp hlarge⟩
  rw [if_neg hincomplete]
  exact ⟨.invalidDigit, rfl, rfl⟩

end Reading

end Origin

namespace Program

/-- The result of a command line with an origin: the program when the text names an address, and
otherwise a message with the text and what is wrong with it. -/
structure ReadsOrigin (bytes : List UInt8) (text : String) (parts : Origin.Parts)
    (result : Except ProgramError Program) : Prop where
  accepted : ∀ program, result = .ok program ↔
    parts.NameAddress ∧ program.bytes = bytes ∧ program.origin.toNat = Origin.value parts.digits
  refused : ∀ message, (∃ error, result = .error error ∧ error.message = message) ↔
    ¬parts.NameAddress ∧ message = "origin '" ++ text ++ "': " ++ parts.complaint

section Reading

variable {parts : Origin.Parts} {text : String}

theorem originOf_of_nameAddress (hparts : parts.Of text) (hname : parts.NameAddress)
    (rest : List String) :
    originOf (text :: rest) = .ok (UInt16.ofNat (Origin.value parts.digits)) := by
  rw [originOf, hparts.parse_of_nameAddress hname]
  rfl

theorem originOf_of_not_nameAddress (hparts : parts.Of text) (hname : ¬parts.NameAddress)
    (rest : List String) :
    ∃ error, originOf (text :: rest) = .error error ∧
      error.message = "origin '" ++ text ++ "': " ++ parts.complaint := by
  obtain ⟨error, herror, hmessage⟩ := hparts.parse_of_not_nameAddress hname
  refine ⟨.badOrigin text error, ?_, ?_⟩
  · rw [originOf, herror]
    rfl
  · rw [ProgramError.message, hmessage]

theorem readsOrigin (hparts : parts.Of text) (bytes : List UInt8) (rest : List String) :
    ReadsOrigin bytes text parts ((originOf (text :: rest)).map fun origin => ⟨bytes, origin⟩) := by
  by_cases hname : parts.NameAddress
  · have hvalue : (UInt16.ofNat (Origin.value parts.digits)).toNat = Origin.value parts.digits :=
      UInt16.toNat_ofNat_of_lt' (Nat.lt_succ_of_le hname.fits)
    rw [originOf_of_nameAddress hparts hname]
    constructor
    · intro program
      constructor
      · intro hsame
        rw [← Except.ok.inj hsame]
        exact ⟨hname, rfl, hvalue⟩
      · rintro ⟨-, hbytes, horigin⟩
        rw [← hvalue, UInt16.toNat_inj] at horigin
        rw [← hbytes, ← horigin]
        rfl
    · intro message
      constructor
      · rintro ⟨_, hsame, -⟩
        cases hsame
      · rintro ⟨hother, -⟩
        exact absurd hname hother
  · obtain ⟨error, herror, htold⟩ := originOf_of_not_nameAddress hparts hname rest
    rw [herror]
    constructor
    · intro program
      constructor
      · intro hsame
        cases hsame
      · rintro ⟨hother, -⟩
        exact absurd hother hname
    · intro message
      constructor
      · rintro ⟨_, hsame, rfl⟩
        rw [← Except.error.inj hsame]
        exact ⟨hname, htold⟩
      · rintro ⟨-, rfl⟩
        exact ⟨error, rfl, htold⟩

end Reading

/-- A program is read from a file and an origin.  A file that cannot be read is told whatever
stands behind it, a program without an origin has one of its own, and with one the text decides. -/
theorem ofArguments_reads (readFile : String → Except String (List UInt8)) (path : String) :
    (∀ reason, readFile path = .error reason → ∀ rest, ∃ error,
      ofArguments readFile (path :: rest) = .error error ∧ error.message = path ++ ": " ++ reason) ∧
    ∀ bytes, readFile path = .ok bytes →
      ofArguments readFile [path] = .ok ⟨bytes, 0x8000⟩ ∧
      ∀ text rest, (∃! parts : Origin.Parts, parts.Of text) ∧
        ∀ parts : Origin.Parts, parts.Of text →
          ReadsOrigin bytes text parts (ofArguments readFile (path :: text :: rest)) := by
  constructor
  · intro reason hreason rest
    refine ⟨.unreadable path reason, ?_, rfl⟩
    rw [ofArguments, hreason]
  · intro bytes hbytes
    have hread : ∀ rest, ofArguments readFile (path :: rest) =
        (originOf rest).map fun origin => ⟨bytes, origin⟩ := fun rest => by
      rw [ofArguments, hbytes]
    refine ⟨hread [], fun text rest => ⟨Origin.existsUnique_parts text, ?_⟩⟩
    intro parts hparts
    rw [hread]
    exact readsOrigin hparts bytes rest

/-- Marks, a sign and small letters in front of an address, digits that are too large before the
bad character is reached, and an origin that nobody looks at. -/
theorem ofArguments_reads_three_command_lines :
    let readFile : String → Except String (List UInt8) := fun path =>
      if path = "idle.bin" then .ok [0xEA] else .error "not found"
    readFile "idle.bin" = .ok [0xEA] ∧ readFile "lost.bin" = .error "not found" ∧
      ofArguments readFile ["idle.bin", "0x0x+00fF"] = .ok ⟨[0xEA], 0x00FF⟩ ∧
      (∃ error, ofArguments readFile ["idle.bin", "12345g", "?"] = .error error ∧
        error.message = "origin '12345g': number too large to fit in target type") ∧
      ∃ error, ofArguments readFile ["lost.bin", "12345g"] = .error error ∧
        error.message = "lost.bin: not found" := by
  intro readFile
  have hidle : readFile "idle.bin" = .ok [0xEA] := by decide
  have hlost : readFile "lost.bin" = .error "not found" := by decide
  obtain ⟨-, hreads⟩ := ofArguments_reads readFile "idle.bin"
  obtain ⟨-, horigin⟩ := hreads [0xEA] hidle
  obtain ⟨-, haccepted⟩ := horigin "0x0x+00fF" []
  obtain ⟨-, hrefused⟩ := horigin "12345g" ["?"]
  refine ⟨hidle, hlost, ?_, ?_, (ofArguments_reads readFile "lost.bin").1 _ hlost ["12345g"]⟩
  · have hparts := Origin.Parts.of_ofText "0x0x+00fF"
    exact ((haccepted _ hparts).accepted _).mpr
      ⟨⟨by decide, by decide, by decide⟩, rfl, by decide⟩
  · have hparts := Origin.Parts.of_ofText "12345g"
    refine ((hrefused _ hparts).refused _).mpr ⟨fun hname => ?_, by decide⟩
    exact absurd hname.fits (by decide)

end Program

end Machine6502
