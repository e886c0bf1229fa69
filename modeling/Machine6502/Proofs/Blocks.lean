import Mathlib.Algebra.Group.Nat.Defs

/-!
# Blocks of one length

In a row of blocks of one length, a place is the number of a block and a place in the block.
-/

namespace Machine6502

variable {α β : Type} {block : α → List β} {length : Nat}

theorem length_flatMap_blocks {items : List α}
    (hlength : ∀ item ∈ items, (block item).length = length) :
    (items.flatMap block).length = items.length * length := by
  rw [List.length_flatMap, List.map_congr_left hlength, List.map_const', List.sum_replicate_nat]

theorem getElem?_flatMap_blocks {items : List α}
    (hlength : ∀ item ∈ items, (block item).length = length) (number : Nat) {offset : Nat}
    (hoffset : offset < length) :
    (items.flatMap block)[number * length + offset]? =
      items[number]?.bind fun item => (block item)[offset]? := by
  induction items generalizing number with
  | nil => rfl
  | cons item items ih =>
      obtain ⟨hitem, hitems⟩ := List.forall_mem_cons.mp hlength
      rw [List.flatMap_cons]
      cases number with
      | zero =>
          rw [Nat.zero_mul, Nat.zero_add, List.getElem?_append_left (hitem ▸ hoffset)]
          rfl
      | succ number =>
          have hplace : (number + 1) * length + offset - (block item).length =
              number * length + offset := by
            rw [hitem, Nat.succ_mul]
            omega
          have hbehind : (block item).length ≤ (number + 1) * length + offset := by
            rw [hitem, Nat.succ_mul]
            omega
          rw [List.getElem?_append_right hbehind, hplace, ih hitems, List.getElem?_cons_succ]

end Machine6502
