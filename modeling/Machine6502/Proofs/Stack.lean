import Mathlib.Data.List.Infix
import Machine6502.Proofs.FullMemory
import Machine6502.Proofs.Storage

/-!
# The stack as a list

The stack page holds a list of bytes, the oldest one at a base and every later one in the
cell below, with wrap-around inside the page.  Pushing appends to the list and popping takes
its last byte, as long as the list has no more than 256 bytes; one byte more takes the place
of the oldest.
-/

namespace Machine6502

namespace Storage

/-- The stack cell that lies some places below a base, inside the page. -/
def cellBelow (base : UInt8) (places : Nat) : UInt16 :=
  stackCell (base - UInt8.ofNat places)

/-- The stack page holds some bytes from a base downwards, and the stack pointer names the
cell for the next one. -/
structure Stacked (storage : Storage) (base : UInt8) (entries : List UInt8) : Prop where
  length_le : entries.length ≤ 256
  pointer : storage.s = base - UInt8.ofNat entries.length
  cell : ∀ (index : Nat) (hindex : index < entries.length),
    storage.cell (cellBelow base index) = entries[index]

theorem pointer_push (storage : Storage) (value : UInt8) :
    (storage.push value).s = storage.s - 1 :=
  rfl

theorem cell_push (storage : Storage) (value : UInt8) :
    (storage.push value).cell = Function.update storage.cell (stackCell storage.s) value :=
  rfl

theorem toNat_stackCell (pointer : UInt8) : (stackCell pointer).toNat = 256 + pointer.toNat := by
  have hpointer := pointer.toNat_lt
  have hpage : (0x0100 : UInt16).toNat = 256 := rfl
  rw [stackCell, UInt16.toNat_add, UInt8.toNat_toUInt16, hpage]
  omega

theorem stackCell_inj {first second : UInt8} :
    stackCell first = stackCell second ↔ first = second := by
  refine ⟨fun hcells => UInt8.toNat_inj.mp ?_, congrArg stackCell⟩
  have hnumbers := congrArg UInt16.toNat hcells
  rw [toNat_stackCell, toNat_stackCell] at hnumbers
  exact Nat.add_left_cancel hnumbers

theorem ne_stackCell_of_outside {address : UInt16}
    (houtside : address < 0x0100 ∨ 0x01FF < address) (pointer : UInt8) :
    address ≠ stackCell pointer := by
  rintro rfl
  have hpointer := pointer.toNat_lt
  simp only [UInt16.lt_iff_toNat_lt, toNat_stackCell, UInt16.reduceToNat] at houtside
  omega

section Below

variable (base : UInt8) (places : Nat)

theorem below_succ : base - UInt8.ofNat (places + 1) = base - UInt8.ofNat places - 1 := by
  have hone : UInt8.ofNat (places + 1) = UInt8.ofNat places + 1 := UInt8.ofNat_add places 1
  simp only [hone, UInt8.sub_eq_add_neg, UInt8.neg_add, UInt8.add_assoc]

theorem below_succ_add_one : base - UInt8.ofNat (places + 1) + 1 = base - UInt8.ofNat places := by
  rw [below_succ, UInt8.sub_add_cancel]

/-- The cells that hold one byte each, when the stack holds no more than a page. -/
theorem cellBelow_inj {first second : Nat} (hfirst : first < 256) (hsecond : second < 256) :
    cellBelow base first = cellBelow base second ↔ first = second := by
  refine ⟨fun hcells => ?_, congrArg (cellBelow base)⟩
  have hplaces : UInt8.ofNat first = UInt8.ofNat second :=
    (UInt8.sub_right_inj base).mp (stackCell_inj.mp hcells)
  have hnumbers := congrArg UInt8.toNat hplaces
  rwa [UInt8.toNat_ofNat_of_lt' hfirst, UInt8.toNat_ofNat_of_lt' hsecond] at hnumbers

end Below

namespace Stacked

variable {storage : Storage} {base : UInt8} {entries below : List UInt8}

theorem nil (storage : Storage) : storage.Stacked storage.s [] where
  length_le := Nat.zero_le 256
  pointer := (UInt8.sub_zero storage.s).symm
  cell index hindex := absurd hindex (Nat.not_lt_zero index)

/-- A storage of one value alone holds as many of it as its stack pointer says. -/
theorem replicate {value : UInt8} {count : Nat} (hcount : count ≤ 256)
    (hpointer : storage.s = base - UInt8.ofNat count)
    (hcell : ∀ address, storage.cell address = value) :
    storage.Stacked base (List.replicate count value) where
  length_le := by rwa [List.length_replicate]
  pointer := by rw [List.length_replicate, hpointer]
  cell index hindex := by rw [hcell, List.getElem_replicate]

theorem push (hstacked : storage.Stacked base entries) (hroom : entries.length < 256)
    (value : UInt8) : (storage.push value).Stacked base (entries ++ [value]) := by
  have hcell : stackCell storage.s = cellBelow base entries.length :=
    congrArg stackCell hstacked.pointer
  refine ⟨?_, ?_, fun index hindex => ?_⟩
  · rw [List.length_append]
    exact hroom
  · rw [pointer_push, hstacked.pointer, List.length_append, List.length_singleton, below_succ]
  · rw [List.length_append, List.length_singleton] at hindex
    rw [cell_push, hcell]
    rcases Nat.lt_succ_iff_lt_or_eq.mp hindex with holder | rfl
    · have hother : cellBelow base index ≠ cellBelow base entries.length :=
        mt (cellBelow_inj base (by omega) hroom).mp (Nat.ne_of_lt holder)
      rw [Function.update_of_ne hother, hstacked.cell index holder, List.getElem_append_left]
    · rw [Function.update_self, List.getElem_concat_length rfl]

theorem peek_one {value : UInt8} (hstacked : storage.Stacked base (below ++ [value])) :
    storage.peek 1 = value := by
  have hlength : (below ++ [value]).length = below.length + 1 := List.length_append
  have htop := hstacked.cell below.length (by omega)
  rw [List.getElem_concat_length rfl] at htop
  rw [peek, hstacked.pointer, hlength, below_succ_add_one]
  exact htop

theorem drop_one {value : UInt8} (hstacked : storage.Stacked base (below ++ [value])) :
    (storage.drop 1).Stacked base below := by
  have hlength : (below ++ [value]).length = below.length + 1 := List.length_append
  have hdepth := hstacked.length_le
  refine ⟨by omega, ?_, fun index hindex => ?_⟩
  · rw [drop, hstacked.pointer, hlength, below_succ_add_one]
  · have hcell := hstacked.cell index (by omega)
    rwa [List.getElem_append_left hindex] at hcell

theorem push_push (hstacked : storage.Stacked base entries) (hroom : entries.length + 2 ≤ 256)
    (first second : UInt8) :
    ((storage.push first).push second).Stacked base (entries ++ [first, second]) := by
  have hroom' : (entries ++ [first]).length < 256 := by
    rw [List.length_append]
    exact hroom
  have hpushed := (hstacked.push (Nat.lt_of_succ_lt hroom) first).push hroom' second
  rwa [List.append_assoc] at hpushed

/-- The two bytes on top are a word with its low byte on top. -/
theorem peekWord_one {high low : UInt8} (hstacked : storage.Stacked base (below ++ [high, low])) :
    storage.peekWord 1 = wordOf low high := by
  rw [List.append_cons] at hstacked
  have hlow := hstacked.peek_one
  have hhigh := hstacked.drop_one.peek_one
  rw [peek_drop] at hhigh
  exact congrArg₂ wordOf hlow hhigh

theorem drop_two {high low : UInt8} (hstacked : storage.Stacked base (below ++ [high, low])) :
    (storage.drop 2).Stacked base below := by
  rw [List.append_cons] at hstacked
  have hdropped := hstacked.drop_one.drop_one
  rwa [drop_drop] at hdropped

/-- The list without its oldest byte has its base in the cell below. -/
theorem forget {oldest : UInt8} (hstacked : storage.Stacked base (oldest :: entries)) :
    storage.Stacked (base - 1) entries := by
  have hbelow : ∀ places, base - 1 - UInt8.ofNat places = base - UInt8.ofNat (places + 1) := by
    intro places
    rw [below_succ]
    simp only [UInt8.sub_eq_add_neg, UInt8.add_assoc, UInt8.add_comm (-1)]
  refine ⟨Nat.le_of_succ_le hstacked.length_le, ?_, fun index hindex => ?_⟩
  · rw [hbelow]
    exact hstacked.pointer
  · rw [cellBelow, hbelow]
    exact hstacked.cell (index + 1) (Nat.succ_lt_succ hindex)

/-- A byte that is pushed on a full page takes the place of the oldest one. -/
theorem push_of_full (hstacked : storage.Stacked base entries) (hfull : entries.length = 256)
    (value : UInt8) :
    (storage.push value).Stacked (base - 1) (entries.tail ++ [value]) ∧
      storage.push value = { storage.store (stackCell base) value with s := base - 1 } := by
  have hpointer : storage.s = base := by
    rw [hstacked.pointer, hfull]
    exact UInt8.sub_zero base
  refine ⟨?_, by rw [Storage.push, hpointer]⟩
  cases entries with
  | nil => cases hfull
  | cons oldest entries =>
      refine hstacked.forget.push ?_ value
      rw [List.length_cons] at hfull
      omega

end Stacked

end Storage

namespace Cpu

/-- From one machine to another only the stack pointer and cells of the stack page change. -/
structure ChangesStackOnly (before after : Cpu) : Prop where
  rest : after = { before with s := after.s, memory := after.memory }
  size : after.memory.size = before.memory.size
  cell : ∀ address, address < 0x0100 ∨ 0x01FF < address →
    after.read address = before.read address

theorem ChangesStackOnly.refl (cpu : Cpu) : ChangesStackOnly cpu cpu :=
  ⟨rfl, rfl, fun _ _ => rfl⟩

theorem ChangesStackOnly.trans {first second third : Cpu} (hearly : ChangesStackOnly first second)
    (hlate : ChangesStackOnly second third) : ChangesStackOnly first third where
  rest := by rw [hlate.rest, hearly.rest]
  size := hlate.size.trans hearly.size
  cell address houtside := (hlate.cell address houtside).trans (hearly.cell address houtside)

variable {cpu : Cpu} {base : UInt8} {entries below : List UInt8}

section Push

variable (hfull : cpu.memory.size = Memory.addressCount)

include hfull

theorem read_push (value : UInt8) :
    (cpu.push value).read = Function.update cpu.read (Storage.stackCell cpu.s) value :=
  congrArg Storage.cell (storage_push hfull value)

theorem changesStackOnly_push (value : UInt8) : ChangesStackOnly cpu (cpu.push value) where
  rest := rfl
  size := size_push cpu value
  cell address houtside := by
    rw [read_push hfull, Function.update_of_ne (Storage.ne_stackCell_of_outside houtside cpu.s)]

theorem stacked_push (hstacked : cpu.storage.Stacked base entries) (hroom : entries.length < 256)
    (value : UInt8) : (cpu.push value).storage.Stacked base (entries ++ [value]) := by
  rw [storage_push hfull]
  exact hstacked.push hroom value

theorem changesStackOnly_pushWord (word : UInt16) : ChangesStackOnly cpu (cpu.pushWord word) :=
  (changesStackOnly_push hfull _).trans
    (changesStackOnly_push ((size_push cpu (highByte word)).trans hfull) _)

theorem stacked_pushWord (hstacked : cpu.storage.Stacked base entries)
    (hroom : entries.length + 2 ≤ 256) (word : UInt16) :
    (cpu.pushWord word).storage.Stacked base (entries ++ [highByte word, lowByte word]) := by
  rw [storage_pushWord hfull]
  exact hstacked.push_push hroom _ _

end Push

theorem changesStackOnly_pop (cpu : Cpu) : ChangesStackOnly cpu cpu.pop.2 :=
  ⟨rfl, rfl, fun _ _ => rfl⟩

theorem changesStackOnly_popWord (cpu : Cpu) : ChangesStackOnly cpu cpu.popWord.2 :=
  ⟨rfl, rfl, fun _ _ => rfl⟩

theorem stacked_pop {value : UInt8} (hstacked : cpu.storage.Stacked base (below ++ [value])) :
    cpu.pop.1 = value ∧ cpu.pop.2.storage.Stacked base below := by
  rw [pop_fst, storage_pop]
  exact ⟨hstacked.peek_one, hstacked.drop_one⟩

theorem stacked_popWord {high low : UInt8}
    (hstacked : cpu.storage.Stacked base (below ++ [high, low])) :
    cpu.popWord.1 = wordOf low high ∧ cpu.popWord.2.storage.Stacked base below := by
  rw [popWord_fst, storage_popWord]
  exact ⟨hstacked.peekWord_one, hstacked.drop_two⟩

end Cpu

/-- What can be done with a stack. -/
inductive StackOperation where
  | push (value : UInt8)
  | pushWord (word : UInt16)
  | pop
  | popWord
deriving DecidableEq, Repr

/-- What is taken off a stack. -/
inductive Popped where
  | nothing
  | byte (value : UInt8)
  | word (value : UInt16)
deriving DecidableEq, Repr

namespace StackOperation

def onCpu (operation : StackOperation) (cpu : Cpu) : Popped × Cpu :=
  match operation with
  | .push value => (.nothing, cpu.push value)
  | .pushWord word => (.nothing, cpu.pushWord word)
  | .pop => (.byte cpu.pop.1, cpu.pop.2)
  | .popWord => (.word cpu.popWord.1, cpu.popWord.2)

/-- The operation on a list of at most 256 bytes whose last one is on top.  A word has its
low byte on top.  There is no result when there is no room or too little to take. -/
def onList? (operation : StackOperation) (entries : List UInt8) : Option (Popped × List UInt8) :=
  match operation with
  | .push value =>
      if entries.length + 1 ≤ 256 then some (.nothing, entries ++ [value]) else none
  | .pushWord word =>
      if entries.length + 2 ≤ 256 then some (.nothing, entries ++ [highByte word, lowByte word])
      else none
  | .pop => entries.getLast?.map fun top => (.byte top, entries.dropLast)
  | .popWord =>
      entries.getLast?.bind fun low =>
        entries.dropLast.getLast?.map fun high =>
          (.word (wordOf low high), entries.dropLast.dropLast)

/-- By how many bytes a stack grows. -/
def growth : StackOperation → Int
  | .push _ => 1
  | .pushWord _ => 2
  | .pop => -1
  | .popWord => -2

def allOnCpu : List StackOperation → Cpu → List Popped × Cpu
  | [], cpu => ([], cpu)
  | operation :: operations, cpu =>
      let first := operation.onCpu cpu
      let rest := allOnCpu operations first.2
      (first.1 :: rest.1, rest.2)

def allOnList? : List StackOperation → List UInt8 → Option (List Popped × List UInt8)
  | [], entries => some ([], entries)
  | operation :: operations, entries =>
      (operation.onList? entries).bind fun first =>
        (allOnList? operations first.2).map fun rest => (first.1 :: rest.1, rest.2)

/-- The depth of a stack after some operations on it. -/
def depthAfter (depth : Int) (operations : List StackOperation) : Int :=
  operations.foldl (fun depth operation => depth + operation.growth) depth

/-- The depth of a stack stays from nothing to a full page, operation by operation. -/
def StaysWithin (depth : Int) (operations : List StackOperation) : Prop :=
  ∀ done, done <+: operations → 0 ≤ depthAfter depth done ∧ depthAfter depth done ≤ 256

theorem depthAfter_cons (depth : Int) (operation : StackOperation)
    (operations : List StackOperation) :
    depthAfter depth (operation :: operations) =
      depthAfter (depth + operation.growth) operations :=
  rfl

theorem StaysWithin.tail {depth : Int} {operation : StackOperation}
    {operations : List StackOperation} (hwithin : StaysWithin depth (operation :: operations)) :
    StaysWithin (depth + operation.growth) operations := by
  intro done hdone
  rw [← depthAfter_cons]
  exact hwithin (operation :: done) (List.cons_prefix_cons.mpr ⟨rfl, hdone⟩)

/-- An operation that keeps the depth in its bounds has a result. -/
theorem exists_onList? {operation : StackOperation} {entries : List UInt8}
    (hlow : 0 ≤ entries.length + operation.growth)
    (hhigh : entries.length + operation.growth ≤ 256) :
    ∃ popped after, operation.onList? entries = some (popped, after) ∧
      (after.length : Int) = entries.length + operation.growth := by
  cases operation with
  | push value =>
      simp only [growth] at hhigh ⊢
      exact ⟨.nothing, entries ++ [value], if_pos (by omega), by simp⟩
  | pushWord word =>
      simp only [growth] at hhigh ⊢
      exact ⟨.nothing, entries ++ [highByte word, lowByte word], if_pos (by omega), by simp⟩
  | pop =>
      simp only [growth] at hlow ⊢
      rcases List.eq_nil_or_concat entries with rfl | ⟨below, top, rfl⟩
      · simp at hlow
      · refine ⟨.byte top, below, by simp [onList?], ?_⟩
        rw [List.length_concat]
        omega
  | popWord =>
      simp only [growth] at hlow ⊢
      rcases List.eq_nil_or_concat entries with rfl | ⟨rest, low, rfl⟩
      · simp at hlow
      · rcases List.eq_nil_or_concat rest with rfl | ⟨below, high, rfl⟩
        · simp at hlow
        · refine ⟨.word (wordOf low high), below, by simp [onList?], ?_⟩
          rw [List.length_concat, List.length_concat]
          omega

theorem exists_allOnList? {operations : List StackOperation} {entries : List UInt8}
    (hwithin : StaysWithin entries.length operations) :
    ∃ popped final, allOnList? operations entries = some (popped, final) ∧
      (final.length : Int) = depthAfter entries.length operations := by
  induction operations generalizing entries with
  | nil => exact ⟨[], entries, rfl, rfl⟩
  | cons operation operations ih =>
      have hfirst := hwithin [operation] (by simp)
      obtain ⟨popped, after, honList, hlength⟩ := exists_onList? hfirst.1 hfirst.2
      obtain ⟨later, final, hlater, hfinal⟩ := ih (hlength ▸ hwithin.tail)
      refine ⟨popped :: later, final, ?_, ?_⟩
      · simp only [allOnList?, honList, Option.bind_some, hlater, Option.map_some]
      · rw [hfinal, hlength, depthAfter_cons]

section Refinement

variable {cpu : Cpu} {base : UInt8} {entries : List UInt8}

theorem changesStackOnly_onCpu (hfull : cpu.memory.size = Memory.addressCount)
    (operation : StackOperation) : cpu.ChangesStackOnly (operation.onCpu cpu).2 := by
  cases operation with
  | push value => exact Cpu.changesStackOnly_push hfull value
  | pushWord word => exact Cpu.changesStackOnly_pushWord hfull word
  | pop => exact Cpu.changesStackOnly_pop cpu
  | popWord => exact Cpu.changesStackOnly_popWord cpu

/-- The machine does to its stack what the list shows. -/
theorem stacked_onCpu {operation : StackOperation} {popped : Popped} {after : List UInt8}
    (hfull : cpu.memory.size = Memory.addressCount) (hstacked : cpu.storage.Stacked base entries)
    (hlist : operation.onList? entries = some (popped, after)) :
    (operation.onCpu cpu).1 = popped ∧ (operation.onCpu cpu).2.storage.Stacked base after := by
  cases operation with
  | push value =>
      simp only [onList?, Option.ite_none_right_eq_some, Option.some.injEq, Prod.mk.injEq] at hlist
      obtain ⟨hroom, rfl, rfl⟩ := hlist
      exact ⟨rfl, Cpu.stacked_push hfull hstacked hroom value⟩
  | pushWord word =>
      simp only [onList?, Option.ite_none_right_eq_some, Option.some.injEq, Prod.mk.injEq] at hlist
      obtain ⟨hroom, rfl, rfl⟩ := hlist
      exact ⟨rfl, Cpu.stacked_pushWord hfull hstacked hroom word⟩
  | pop =>
      simp only [onList?, Option.map_eq_some_iff, Prod.mk.injEq] at hlist
      obtain ⟨top, htop, rfl, rfl⟩ := hlist
      obtain ⟨below, rfl⟩ := List.getLast?_eq_some_iff.mp htop
      obtain ⟨hvalue, hbelow⟩ := Cpu.stacked_pop hstacked
      rw [List.dropLast_concat]
      exact ⟨congrArg Popped.byte hvalue, hbelow⟩
  | popWord =>
      simp only [onList?, Option.bind_eq_some_iff, Option.map_eq_some_iff, Prod.mk.injEq] at hlist
      obtain ⟨low, hlow, high, hhigh, rfl, rfl⟩ := hlist
      obtain ⟨rest, rfl⟩ := List.getLast?_eq_some_iff.mp hlow
      rw [List.dropLast_concat] at hhigh ⊢
      obtain ⟨below, rfl⟩ := List.getLast?_eq_some_iff.mp hhigh
      rw [List.append_assoc] at hstacked
      obtain ⟨hvalue, hbelow⟩ := Cpu.stacked_popWord hstacked
      rw [List.dropLast_concat]
      exact ⟨congrArg Popped.word hvalue, hbelow⟩

theorem stacked_allOnCpu {operations : List StackOperation} {popped : List Popped}
    {final : List UInt8} (hfull : cpu.memory.size = Memory.addressCount)
    (hstacked : cpu.storage.Stacked base entries)
    (hlist : allOnList? operations entries = some (popped, final)) :
    (allOnCpu operations cpu).1 = popped ∧
      (allOnCpu operations cpu).2.storage.Stacked base final ∧
      cpu.ChangesStackOnly (allOnCpu operations cpu).2 := by
  induction operations generalizing cpu entries popped with
  | nil =>
      simp only [allOnList?, Option.some.injEq, Prod.mk.injEq] at hlist
      obtain ⟨rfl, rfl⟩ := hlist
      exact ⟨rfl, hstacked, .refl cpu⟩
  | cons operation operations ih =>
      simp only [allOnList?, Option.bind_eq_some_iff, Option.map_eq_some_iff,
        Prod.mk.injEq] at hlist
      obtain ⟨⟨taken, after⟩, hfirst, ⟨later, last⟩, hrest, rfl, rfl⟩ := hlist
      obtain ⟨htaken, hafter⟩ := stacked_onCpu hfull hstacked hfirst
      have hchange := changesStackOnly_onCpu hfull operation
      obtain ⟨hlater, hfinal, hchanges⟩ := ih (hchange.size.trans hfull) hafter hrest
      exact ⟨congrArg₂ List.cons htaken hlater, hfinal, hchange.trans hchanges⟩

end Refinement

end StackOperation

namespace Cpu

/-- The stack of a machine is a list of bytes on which pushes and pops of bytes and words work
as on a list, in any order, as long as it stays within a page.  They change nothing outside
the page but the stack pointer, and a push on a full page overwrites the oldest byte. -/
theorem stack_refines_list {cpu : Cpu} (hfull : cpu.memory.size = Memory.addressCount)
    {base : UInt8} {entries : List UInt8} (hstacked : cpu.storage.Stacked base entries) :
    (∀ value, entries.length < 256 →
        (cpu.push value).storage.Stacked base (entries ++ [value])) ∧
      (∀ below value, entries = below ++ [value] →
        cpu.pop.1 = value ∧ cpu.pop.2.storage.Stacked base below ∧
          cpu.pop.2.memory = cpu.memory) ∧
      (∀ word, cpu.pushWord word = (cpu.push (highByte word)).push (lowByte word)) ∧
      (∀ below word, entries = below ++ [highByte word, lowByte word] →
        cpu.popWord.1 = word ∧ cpu.popWord.2.storage.Stacked base below ∧
          cpu.popWord.2.memory = cpu.memory) ∧
      (∀ operations, StackOperation.StaysWithin entries.length operations →
        ∃ popped final, StackOperation.allOnList? operations entries = some (popped, final) ∧
          (final.length : Int) = StackOperation.depthAfter entries.length operations ∧
          (StackOperation.allOnCpu operations cpu).1 = popped ∧
          (StackOperation.allOnCpu operations cpu).2.storage.Stacked base final ∧
          (StackOperation.allOnCpu operations cpu).2.s = base - UInt8.ofNat final.length ∧
          cpu.ChangesStackOnly (StackOperation.allOnCpu operations cpu).2) ∧
      (entries.length = 256 → ∀ value,
        (cpu.push value).storage.Stacked (base - 1) (entries.tail ++ [value]) ∧
          (cpu.push value).read =
            Function.update cpu.read (Storage.cellBelow base 0) value) := by
  refine ⟨fun value hroom => stacked_push hfull hstacked hroom value, ?_, fun _ => rfl,
    ?_, ?_, ?_⟩
  · rintro below value rfl
    obtain ⟨hvalue, hbelow⟩ := stacked_pop hstacked
    exact ⟨hvalue, hbelow, rfl⟩
  · rintro below word rfl
    obtain ⟨hvalue, hbelow⟩ := stacked_popWord hstacked
    exact ⟨hvalue.trans (wordOf_bytes word), hbelow, rfl⟩
  · intro operations hwithin
    obtain ⟨popped, final, hlist, hlength⟩ := StackOperation.exists_allOnList? hwithin
    obtain ⟨hpopped, hfinal, hchanges⟩ := StackOperation.stacked_allOnCpu hfull hstacked hlist
    exact ⟨popped, final, hlist, hlength, hpopped, hfinal, hfinal.pointer, hchanges⟩
  · intro hpage value
    obtain ⟨hpushed, hstorage⟩ := hstacked.push_of_full hpage value
    rw [← storage_push hfull] at hpushed hstorage
    have holdest : Storage.cellBelow base 0 = Storage.stackCell base :=
      congrArg Storage.stackCell (UInt8.sub_zero base)
    rw [holdest]
    exact ⟨hpushed, congrArg Storage.cell hstorage⟩

/-- A word and a byte pushed and popped from the bottom of the stack page, so that the word is
split between its two ends; and one byte more than the page holds. -/
theorem stack_refines_list_around_the_page :
    ({ initial with s := 0 } : Cpu).storage.Stacked 0 [] ∧
      (StackOperation.allOnCpu [.pushWord 0x1234, .push 0x56, .pop, .popWord]
          { initial with s := 0 }).1 = [.nothing, .nothing, .byte 0x56, .word 0x1234] ∧
      ({ initial with s := 0 } : Cpu).storage.Stacked 0 (List.replicate 256 0) ∧
      (({ initial with s := 0 } : Cpu).push 0x56).storage.Stacked 0xFF
        (List.replicate 255 0 ++ [0x56]) := by
  have hfull : ({ initial with s := 0 } : Cpu).memory.size = Memory.addressCount :=
    Memory.size_blank
  have hmemory : initial.memory = Memory.blank := rfl
  have hempty : ({ initial with s := 0 } : Cpu).storage.Stacked 0 [] := .nil _
  have hpage : ({ initial with s := 0 } : Cpu).storage.Stacked 0 (List.replicate 256 0) :=
    .replicate (Nat.le_refl 256) rfl fun _ => by
      simp only [storage, hmemory, Memory.read_blank]
  have hwithin : StackOperation.StaysWithin 0 [.pushWord 0x1234, .push 0x56, .pop, .popWord] := by
    intro done hdone
    rw [← List.mem_inits] at hdone
    revert done
    decide
  obtain ⟨-, -, -, -, hoperations, -⟩ := stack_refines_list hfull hempty
  obtain ⟨popped, final, hlist, -, hpopped, -⟩ := hoperations _ hwithin
  obtain ⟨-, -, -, -, -, hoverwrites⟩ := stack_refines_list hfull hpage
  refine ⟨hempty, hpopped.trans ?_, hpage, ?_⟩
  · have hlisted : StackOperation.allOnList? [.pushWord 0x1234, .push 0x56, .pop, .popWord] [] =
        some ([.nothing, .nothing, .byte 0x56, .word 0x1234], []) := by decide
    rw [hlisted, Option.some.injEq, Prod.mk.injEq] at hlist
    exact hlist.1.symm
  · have hpushed := (hoverwrites List.length_replicate 0x56).1
    rwa [List.tail_replicate] at hpushed

end Cpu

end Machine6502
