import Dotqoo.Lib.Cells

/-!
# Blocks of memory

A block is an array of slots that has its size with it, and can be given another one.
The operations that write several slots at once are `fill` and `move`; both are checked,
and each has two lemmas: what the slots are afterwards where all that is touched is
inside, and `none` where it is not.
-/

namespace Dotqoo.Lib

structure Block (α : Type) where
  size : Nat
  slot : Nat → α

namespace Block

variable {α : Type}

/-- The block with another size; `left` is what the slots that are new have in them. -/
def resize (left : Nat → α) (b : Block α) (n : Nat) : Block α :=
  ⟨n, fun i => if i < b.size then b.slot i else left i⟩

/-- Read a slot. -/
def read (b : Block α) (i : Int) : Option α := readCell b.size b.slot i

/-- Write a slot. -/
def write (b : Block α) (i : Int) (a : α) : Option (Block α) :=
  (writeCell b.size b.slot i a).map fun slot => { b with slot }

/-- Write `a` to `k` slots from `p` on. -/
def fill (b : Block α) (p k : Nat) (a : α) : Option (Block α) :=
  (writeCells b.size b.slot p (List.replicate k a)).map fun slot => { b with slot }

/-- Copy the `k` slots from `p` on to those from `q` on. -/
def move (b : Block α) (q p k : Nat) : Option (Block α) := do
  let s ← readCells b.size b.slot p k
  let slot ← writeCells b.size b.slot q s
  some { b with slot }

variable {b : Block α} {p q k : Nat}

theorem write_of_lt {i : Nat} (h : i < b.size) (a : α) :
    b.write i a = some { b with slot := Function.update b.slot i a } := by
  rw [write, writeCell_of_lt h, Option.map_some]

@[simp] theorem fill_zero (b : Block α) (p : Nat) (a : α) : b.fill p 0 a = some b := rfl

theorem fill_of_le (h : p + k ≤ b.size) (a : α) :
    b.fill p k a =
      some { b with slot := fun i => if p ≤ i ∧ i < p + k then a else b.slot i } := by
  rw [fill, writeCells_of_le (by rwa [List.length_replicate]), Option.map_some]
  congr 2
  funext i
  by_cases hp : p ≤ i
  · rw [if_pos hp, List.getElem?_replicate]
    by_cases hk : i < p + k
    · rw [if_pos (by omega), if_pos ⟨hp, hk⟩, Option.getD_some]
    · rw [if_neg (by omega), if_neg (fun hi => hk hi.2), Option.getD_none]
  · rw [if_neg hp, if_neg fun hi => hp hi.1]

theorem fill_eq_none (hk : 0 < k) (h : b.size < p + k) (a : α) : b.fill p k a = none := by
  have hs : List.replicate k a ≠ [] := fun hnil => by simp at hnil; omega
  rw [fill, writeCells_eq_none hs (by rwa [List.length_replicate]), Option.map_none]

theorem move_of_le (hp : p + k ≤ b.size) (hq : q + k ≤ b.size) :
    b.move q p k = some { b with
      slot := fun i => if q ≤ i ∧ i < q + k then b.slot (p + (i - q)) else b.slot i } := by
  rw [move, readCells_of_le hp, Option.bind_eq_bind, Option.bind_some,
    writeCells_of_le (by rwa [length_cellList]), Option.bind_eq_bind, Option.bind_some]
  congr 2
  funext i
  by_cases hi : q ≤ i
  · rw [if_pos hi, getElem?_cellList]
    by_cases hk : i < q + k
    · rw [if_pos (by omega), if_pos ⟨hi, hk⟩, Option.getD_some]
    · rw [if_neg (by omega), if_neg (fun h => hk h.2), Option.getD_none]
  · rw [if_neg hi, if_neg fun h => hi h.1]

/-- A move that reads behind the block. -/
theorem move_eq_none (hk : 0 < k) (h : b.size < p + k) : b.move q p k = none := by
  rw [move, readCells_eq_none hk h]
  rfl

end Block

end Dotqoo.Lib
