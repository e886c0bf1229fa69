import Machine6502.Proofs.SnapshotFormat

/-!
# Readers

A reader that takes bytes for a value asks for all of them: wherever they are cut off, it hits the
end of the buffer.  Readers that go on one behind the other keep this, and the reader of machines
is made of such readers.
-/

namespace Machine6502

namespace Snapshot

/-- Reads a value from the front of bytes and gives what follows it. -/
abbrev Reader (α : Type) := List UInt8 → Except SnapshotError (α × List UInt8)

section Readers

variable {α β : Type}

/-- A reader takes bytes for a value: it reads the value from them, whatever follows, and from
fewer of them it reads nothing but the end of the buffer. -/
structure Takes (read : Reader α) (used : List UInt8) (value : α) : Prop where
  reads : ∀ rest, read (used ++ rest) = .ok (value, rest)
  misses : ∀ cut, cut <+: used → cut.length < used.length → read cut = .error .endOfBuffer

/-- Reads a value, and goes on behind it with a reader that may depend on it. -/
def andThen (first : Reader α) (next : α → Reader β) : Reader β := fun bytes => do
  let (value, rest) ← first bytes
  next value rest

/-- Gives a value without reading anything. -/
def giving (value : α) : Reader α := fun bytes => .ok (value, bytes)

theorem andThen_of_ok {first : Reader α} {bytes rest : List UInt8} {value : α}
    (hfirst : first bytes = .ok (value, rest)) (next : α → Reader β) :
    andThen first next bytes = next value rest := by
  rw [andThen, hfirst]
  rfl

theorem andThen_of_error {first : Reader α} {bytes : List UInt8} {error : SnapshotError}
    (hfirst : first bytes = .error error) (next : α → Reader β) :
    andThen first next bytes = .error error := by
  rw [andThen, hfirst]
  rfl

/-- A cut of the bytes of two readers is inside those of the first, or leaves these whole and is
inside those of the second. -/
theorem Takes.andThen {first : Reader α} {next : α → Reader β} {used more : List UInt8} {value : α}
    {result : β} (hfirst : Takes first used value) (hnext : Takes (next value) more result) :
    Takes (andThen first next) (used ++ more) result where
  reads rest := by
    rw [List.append_assoc, andThen_of_ok (hfirst.reads (more ++ rest)), hnext.reads]
  misses cut hcut hshort := by
    have hused : used <+: used ++ more := List.prefix_append used more
    rcases Nat.lt_or_ge cut.length used.length with hinside | hbehind
    · have hpart : cut <+: used :=
        List.prefix_of_prefix_length_le hcut hused (Nat.le_of_lt hinside)
      rw [andThen_of_error (hfirst.misses cut hpart hinside)]
    · obtain ⟨part, rfl⟩ := List.prefix_of_prefix_length_le hused hcut hbehind
      have hpart : part <+: more := (List.prefix_append_right_inj used).mp hcut
      have hless : part.length < more.length := by
        rw [List.length_append, List.length_append] at hshort
        exact Nat.lt_of_add_lt_add_left hshort
      rw [andThen_of_ok (hfirst.reads part), hnext.misses part hpart hless]

theorem takes_giving (value : α) : Takes (giving value) [] value where
  reads _ := rfl
  misses _ _ hshort := absurd hshort (Nat.not_lt_zero _)

end Readers

section Fields

theorem eq_nil_of_cut {cut : List UInt8} {byte : UInt8} (hshort : cut.length < [byte].length) :
    cut = [] :=
  List.length_eq_zero_iff.mp (Nat.lt_one_iff.mp hshort)

theorem takes_byte (byte : UInt8) : Takes readByte [byte] byte where
  reads _ := rfl
  misses cut _ hshort := by
    rw [eq_nil_of_cut hshort]
    rfl

theorem takes_flag (flag : Bool) : Takes readFlag [if flag then 1 else 0] flag where
  reads rest := readFlag_cons flag rest
  misses cut _ hshort := by
    rw [eq_nil_of_cut hshort]
    rfl

theorem takes_block (block : List UInt8) : Takes (readBytes block.length) block block where
  reads rest := readBytes_append block rest
  misses cut _ hshort := by
    rw [readBytes, if_neg (Nat.not_le_of_lt hshort)]

end Fields

/-- The reader of machines goes through the fields one behind the other. -/
theorem decodeWithRest_eq_andThen :
    decodeWithRest =
      andThen readByte fun a => andThen readByte fun x => andThen readByte fun y =>
      andThen readByte fun s => andThen (readNumber wordWidth) fun pc =>
      andThen readByte fun status => andThen (readNumber lengthWidth) fun length =>
      andThen (readBytes length) fun cells => andThen readFlag fun halted =>
      giving ⟨a, x, y, s, UInt16.ofNat pc, .ofByte status, halted, ⟨cells.toArray⟩⟩ :=
  rfl

end Snapshot

end Machine6502
