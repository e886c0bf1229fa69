import Mathlib.Data.List.Induction
import Machine6502.Proofs.Loading

/-!
# Copies of any length

A copy goes up to the top of memory in one block and around it from there.  It leaves what
writing its bytes one by one leaves: a cell holds the last byte that went to it.  The origin of
a loaded program is written over such a copy.
-/

namespace Machine6502

namespace Memory

/-- From one memory to another, bytes were written one by one to ascending addresses with
wrap-around: each cell holds the last byte that went to it, and what it held if none did. -/
structure Overwrites (before : Memory) (start : UInt16) (bytes : List UInt8)
    (after : Memory) : Prop where
  size : after.size = before.size
  last : ∀ (address : UInt16) (index : Nat) (hindex : index < bytes.length),
    (start.toNat + index) % addressCount = address.toNat →
    (∀ later < bytes.length, index < later →
      (start.toNat + later) % addressCount ≠ address.toNat) →
    after.read address = bytes[index]
  kept : ∀ address : UInt16,
    (∀ index < bytes.length, (start.toNat + index) % addressCount ≠ address.toNat) →
    after.read address = before.read address

variable {memory first second : Memory} {start : UInt16} {bytes : List UInt8}

/-- Of the bytes that go to a cell, if any do, there is a last one. -/
theorem untouched_or_last (start : UInt16) (count : Nat) (address : UInt16) :
    (∀ index < count, (start.toNat + index) % addressCount ≠ address.toNat) ∨
      ∃ index < count, (start.toNat + index) % addressCount = address.toNat ∧
        ∀ later < count, index < later →
          (start.toNat + later) % addressCount ≠ address.toNat := by
  induction count with
  | zero => exact .inl fun index hindex => absurd hindex (Nat.not_lt_zero index)
  | succ count ih =>
      by_cases hhere : (start.toNat + count) % addressCount = address.toNat
      · exact .inr ⟨count, Nat.lt_succ_self count, hhere, fun later hlater hbehind =>
          absurd hlater (Nat.not_lt_of_le hbehind)⟩
      · rcases ih with hnone | ⟨index, hindex, hthere, hlast⟩
        · refine .inl fun index hindex => ?_
          rcases Nat.lt_succ_iff_lt_or_eq.mp hindex with hbefore | rfl
          · exact hnone index hbefore
          · exact hhere
        · refine .inr ⟨index, Nat.lt_succ_of_lt hindex, hthere, fun later hlater hbehind => ?_⟩
          rcases Nat.lt_succ_iff_lt_or_eq.mp hlater with hbefore | rfl
          · exact hlast later hbefore hbehind
          · exact hhere

/-- What the bytes leave in the cells is determined. -/
theorem Overwrites.unique (hfull : memory.size = addressCount)
    (hfirst : memory.Overwrites start bytes first)
    (hsecond : memory.Overwrites start bytes second) : first = second := by
  refine ext_read (hfirst.size.trans hsecond.size.symm)
    (Nat.le_of_eq (hfirst.size.trans hfull)) fun address => ?_
  rcases untouched_or_last start bytes.length address with hnone | ⟨index, hindex, hhere, hlast⟩
  · rw [hfirst.kept address hnone, hsecond.kept address hnone]
  · rw [hfirst.last address index hindex hhere hlast,
      hsecond.last address index hindex hhere hlast]

theorem writeAll_append (memory : Memory) (start : UInt16) (before bytes : List UInt8) :
    memory.writeAll start (before ++ bytes) =
      (memory.writeAll start before).writeAll (start + UInt16.ofNat before.length) bytes := by
  induction before generalizing memory start with
  | nil => exact congrArg (memory.writeAll · bytes) (UInt16.add_zero start).symm
  | cons byte before ih =>
      have hnext : start + 1 + UInt16.ofNat before.length =
          start + UInt16.ofNat (before.length + 1) := by
        rw [UInt16.ofNat_add, UInt16.add_assoc, UInt16.add_comm 1]
        rfl
      rw [List.cons_append, writeAll, ih, hnext]
      rfl

theorem Overwrites.refl (memory : Memory) (start : UInt16) : memory.Overwrites start [] memory where
  size := rfl
  last _ index hindex := absurd hindex (Nat.not_lt_zero index)
  kept _ _ := rfl

/-- One more byte is written behind the others. -/
theorem Overwrites.write {after : Memory} (hover : memory.Overwrites start bytes after)
    (hfull : memory.size = addressCount) (byte : UInt8) :
    memory.Overwrites start (bytes ++ [byte])
      (after.write (start + UInt16.ofNat bytes.length) byte) := by
  have hread := read_write_eq_update (hover.size.trans hfull)
    (start + UInt16.ofNat bytes.length) byte
  have hplace : ∀ address, address = start + UInt16.ofNat bytes.length ↔
      (start.toNat + bytes.length) % addressCount = address.toNat := by
    intro address
    rw [← UInt16.toNat_inj, UInt16.toNat_add, UInt16.toNat_ofNat', addressCount]
    omega
  have hlength : (bytes ++ [byte]).length = bytes.length + 1 := List.length_append
  refine ⟨(size_write after _ byte).trans hover.size, fun address index hindex hhere hlast => ?_,
    fun address hnone => ?_⟩
  · rw [hlength] at hindex hlast
    rcases Nat.lt_succ_iff_lt_or_eq.mp hindex with hbefore | rfl
    · have hother := hlast bytes.length (Nat.lt_succ_self _) hbefore
      rw [hread, Function.update_of_ne (mt (hplace address).mp hother),
        hover.last address index hbefore hhere fun later hlater =>
          hlast later (Nat.lt_succ_of_lt hlater),
        List.getElem_append_left hbefore]
    · rw [hread, (hplace address).mpr hhere, Function.update_self, List.getElem_concat_length]
      rfl
  · rw [hlength] at hnone
    have hother := hnone bytes.length (Nat.lt_succ_self _)
    rw [hread, Function.update_of_ne (mt (hplace address).mp hother)]
    exact hover.kept address fun index hindex => hnone index (Nat.lt_succ_of_lt hindex)

/-- Bytes that are written one by one overwrite the cells they go to. -/
theorem overwrites_writeAll (hfull : memory.size = addressCount) :
    memory.Overwrites start bytes (memory.writeAll start bytes) := by
  -- A later byte takes the place of an earlier one, so the list is taken from its end.
  induction bytes using List.reverseRecOn with
  | nil => exact .refl memory start
  | append_singleton bytes byte ih =>
      rw [writeAll_append]
      exact ih.write hfull byte

/-- A block below the top goes to every cell at most once. -/
theorem overwrites_place (hfull : memory.size = addressCount)
    (hfits : start.toNat + bytes.length ≤ addressCount) :
    memory.Overwrites start bytes (memory.place start.toNat bytes) := by
  have hplaced : start.toNat + bytes.length ≤ memory.size := hfull ▸ hfits
  refine ⟨size_place memory start.toNat bytes hplaced, fun address index hindex hhere _ => ?_,
    fun address hnone => ?_⟩
  · rw [Nat.mod_eq_of_lt (by omega)] at hhere
    rw [read_place _ _ _ _ hplaced, ← hhere, if_pos (by omega), Nat.add_sub_cancel_left,
      List.getD_eq_getElem _ _ hindex]
  · rw [read_place _ _ _ _ hplaced, if_neg]
    rintro ⟨hlow, hhigh⟩
    refine hnone (address.toNat - start.toNat) (by omega) ?_
    rw [Nat.add_sub_cancel' hlow]
    exact Nat.mod_eq_of_lt address.toNat_lt

/-- The block of a copy and the rest of it meet at the top of memory. -/
theorem copy_eq_writeAll (hfull : memory.size = addressCount) :
    memory.copy start bytes = memory.writeAll start bytes := by
  let length := blockLength start bytes.length
  have hstart : start.toNat < addressCount := start.toNat_lt
  have hfits : start.toNat + (bytes.take length).length ≤ addressCount := by
    simp only [length, blockLength, List.length_take]
    omega
  have hblock : memory.place start.toNat (bytes.take length) =
      memory.writeAll start (bytes.take length) :=
    (overwrites_place hfull hfits).unique hfull (overwrites_writeAll hfull)
  have hsplit : memory.copy start bytes =
      (memory.writeAll start (bytes.take length)).writeAll 0 (bytes.drop length) :=
    congrArg (Memory.writeAll · 0 (bytes.drop length)) hblock
  rw [hsplit]
  by_cases hwhole : bytes.length ≤ length
  · rw [List.take_of_length_le hwhole, List.drop_of_length_le hwhole, writeAll]
  · have htop : start + UInt16.ofNat (bytes.take length).length = 0 := by
      rw [← UInt16.toNat_inj, UInt16.toNat_add, UInt16.toNat_ofNat', List.length_take]
      simp only [length, blockLength, addressCount] at hwhole hstart ⊢
      rw [UInt16.toNat_zero]
      omega
    rw [← htop, ← writeAll_append, List.take_append_drop]

end Memory

namespace Cpu

/-- A program was loaded: its bytes were copied, the reset vector holds its origin, the low
byte first, and a reset starts there. -/
structure Loads (cpu : Cpu) (program : List UInt8) (origin : UInt16) (loaded : Cpu) : Prop where
  low : loaded.read 0xFFFC = lowByte origin
  high : loaded.read 0xFFFD = highByte origin
  cell : ∀ address, address ≠ 0xFFFC → address ≠ 0xFFFD →
    loaded.read address = (cpu.memory.copy origin program).read address
  rest : loaded = { cpu with memory := loaded.memory }
  start : ∃ next, loaded.reset? = some next ∧ next.pc = origin

variable {cpu : Cpu}

theorem loads_loadAt (hfull : cpu.memory.size = Memory.addressCount) (program : List UInt8)
    (origin : UInt16) : cpu.Loads program origin (cpu.loadAt program origin) := by
  have hread : ∀ address, (cpu.loadAt program origin).read address =
      if address = 0xFFFD then highByte origin
      else if address = 0xFFFC then lowByte origin
      else (cpu.memory.copy origin program).read address :=
    read_loadAt hfull
  have hloaded := size_loadAt (Nat.le_of_eq hfull.symm) program origin
  refine ⟨?_, ?_, fun address hlow hhigh => ?_, rfl, _,
    reset?_of_full (Nat.le_of_eq (hloaded.trans hfull).symm), pc_reset_loadAt hfull⟩
  · rw [hread, if_neg (by decide), if_pos rfl]
  · rw [hread, if_pos rfl]
  · rw [hread, if_neg hhigh, if_neg hlow]

/-- Copying bytes to any address of a memory finds all the cells it needs and equals writing
them one by one with wrap-around, however many there are: a cell holds the last byte that went
to it.  A program is loaded by such a copy, with its origin in the reset vector even if it runs
over it, and a reset starts at the origin. -/
theorem copy_is_bytewise (hfull : cpu.memory.size = Memory.addressCount) (bytes : List UInt8)
    (start : UInt16) :
    cpu.memory.coversCopy start bytes.length = true ∧
      cpu.memory.copy start bytes = cpu.memory.writeAll start bytes ∧
      cpu.memory.Overwrites start bytes (cpu.memory.copy start bytes) ∧
      ∃ loaded, cpu.loadAt? bytes start = some loaded ∧ cpu.Loads bytes start loaded := by
  have hcells := Nat.le_of_eq hfull.symm
  have hcopy : cpu.memory.copy start bytes = cpu.memory.writeAll start bytes :=
    Memory.copy_eq_writeAll hfull
  exact ⟨Memory.coversCopy_of_full hcells start bytes.length, hcopy,
    hcopy ▸ Memory.overwrites_writeAll hfull, _, loadAt?_of_full hcells bytes start,
    loads_loadAt hfull bytes start⟩

/-- A program that is one byte longer than memory and starts at the reset vector: its last byte
takes the place of its first, and the origin that of both. -/
theorem copy_is_bytewise_around_memory :
    initial.memory.size = Memory.addressCount ∧
      (initial.memory.copy 0xFFFC (List.replicate 65536 1 ++ [2])).read 0xFFFC = 2 ∧
      (initial.memory.copy 0xFFFC (List.replicate 65536 1 ++ [2])).read 0xFFFB = 1 ∧
      ∃ loaded, initial.loadAt? (List.replicate 65536 1 ++ [2]) 0xFFFC = some loaded ∧
        loaded.read 0xFFFC = 0xFC ∧ loaded.read 0xFFFD = 0xFF ∧ loaded.read 0xFFFB = 1 ∧
        ∃ next, loaded.reset? = some next ∧ next.pc = 0xFFFC := by
  have hfull : initial.memory.size = Memory.addressCount := Memory.size_blank
  obtain ⟨-, -, hcopied, loaded, hloads, hloaded⟩ :=
    copy_is_bytewise hfull (List.replicate 65536 1 ++ [2]) 0xFFFC
  have hlength : (List.replicate 65536 (1 : UInt8) ++ [2]).length = 65537 := by
    rw [List.length_append, List.length_replicate, List.length_singleton]
  have hlast : (initial.memory.copy 0xFFFC (List.replicate 65536 1 ++ [2])).read 0xFFFC = 2 := by
    rw [hcopied.last 0xFFFC 65536 (by omega) rfl fun later hlater hbehind => by omega]
    exact List.getElem_concat_length List.length_replicate.symm _
  have hbefore : (initial.memory.copy 0xFFFC (List.replicate 65536 1 ++ [2])).read 0xFFFB = 1 := by
    rw [hcopied.last 0xFFFB 65535 (by omega) rfl fun later hlater hbehind => by
      obtain rfl : later = 65536 := by omega
      decide]
    rw [List.getElem_append_left (by rw [List.length_replicate]; omega), List.getElem_replicate]
  exact ⟨hfull, hlast, hbefore, loaded, hloads, hloaded.low, hloaded.high,
    (hloaded.cell 0xFFFB (by decide) (by decide)).trans hbefore, hloaded.start⟩

end Cpu

end Machine6502
