import Mathlib.Logic.Function.Basic
import Mathlib.Data.List.Basic

/-!
# Ring buffers

A queue in an array of `n` slots with two indices: `push` writes at `head`, `pop`
reads at `tail`, and either index goes on modulo `n`. Equal indices mean an empty
queue, so one slot is never used and a ring is `full` with `n - 1` entries.

`contents` is the queue as a list. While both indices are below `n`, what `push`
and `pop` do to it is what a first-in-first-out queue does.
-/

namespace Dotqoo.Lib

structure RingBuffer (α : Type) where
  slot : Nat → α
  head : Nat
  tail : Nat

namespace RingBuffer

variable {α : Type} (n : Nat)

/-- No slot is left. -/
def Full (r : RingBuffer α) : Prop := (r.head + 1) % n = r.tail

instance (r : RingBuffer α) : Decidable (r.Full n) := inferInstanceAs (Decidable (_ = _))

/-- Write at the head. -/
def push (r : RingBuffer α) (x : α) : RingBuffer α :=
  { r with slot := Function.update r.slot r.head x, head := (r.head + 1) % n }

/-- Go on behind the entry at the tail. -/
def pop (r : RingBuffer α) : RingBuffer α := { r with tail := (r.tail + 1) % n }

/-- The number of entries. -/
def count (r : RingBuffer α) : Nat :=
  if r.tail ≤ r.head then r.head - r.tail else r.head + n - r.tail

/-- The entries, from the tail on. -/
def contents (r : RingBuffer α) : List α :=
  (List.range (r.count n)).map fun i => r.slot ((r.tail + i) % n)

/-- Both indices are those of slots. -/
structure InRange (r : RingBuffer α) : Prop where
  head_lt : r.head < n
  tail_lt : r.tail < n

variable {n} {r : RingBuffer α}

@[simp] theorem length_contents : (r.contents n).length = r.count n := by simp [contents]

/-- The index behind an index. -/
theorem succ_mod {i : Nat} (h : i < n) : (i + 1) % n = if i + 1 = n then 0 else i + 1 := by
  split
  next heq => rw [heq, Nat.mod_self]
  next hne => exact Nat.mod_eq_of_lt (by omega)

theorem add_mod {i j : Nat} (hi : i < n) (hj : j < n) :
    (i + j) % n = if i + j < n then i + j else i + j - n := by
  split
  next hlt => exact Nat.mod_eq_of_lt hlt
  next hge =>
    rw [Nat.mod_eq_sub_mod (by omega)]
    exact Nat.mod_eq_of_lt (by omega)

theorem InRange.pos (h : r.InRange n) : 0 < n := Nat.lt_of_le_of_lt (Nat.zero_le _) h.head_lt

theorem InRange.push (h : r.InRange n) (x : α) : (r.push n x).InRange n :=
  ⟨Nat.mod_lt _ h.pos, h.tail_lt⟩

theorem InRange.pop (h : r.InRange n) : (r.pop n).InRange n :=
  ⟨h.head_lt, Nat.mod_lt _ h.pos⟩

/-- One slot stays empty. -/
theorem InRange.count_lt (h : r.InRange n) : r.count n < n := by
  have hhead := h.head_lt
  have htail := h.tail_lt
  unfold count
  split <;> omega

theorem InRange.full_iff (h : r.InRange n) : r.Full n ↔ r.count n + 1 = n := by
  have hhead := h.head_lt
  have htail := h.tail_lt
  rw [Full, succ_mod hhead, count]
  split <;> split <;> omega

theorem InRange.contents_eq_nil_iff (h : r.InRange n) : r.contents n = [] ↔ r.head = r.tail := by
  have hhead := h.head_lt
  have htail := h.tail_lt
  rw [← List.length_eq_zero_iff, length_contents, count]
  split <;> omega

/-- **A new entry is the last**, and overwrites none. -/
theorem InRange.contents_push (h : r.InRange n) (hfull : ¬ r.Full n) (x : α) :
    (r.push n x).contents n = r.contents n ++ [x] := by
  have hhead := h.head_lt
  have htail := h.tail_lt
  have hlt := h.count_lt
  have hcount : (r.push n x).count n = r.count n + 1 := by
    rw [Full, succ_mod hhead] at hfull
    simp only [count, RingBuffer.push, succ_mod hhead]
    split_ifs at hfull ⊢ <;> omega
  rw [contents, hcount, List.range_succ, List.map_append, List.map_singleton]
  congr 1
  · refine List.map_congr_left fun i hi => ?_
    rw [List.mem_range] at hi
    have hne : (r.tail + i) % n ≠ r.head := by
      rw [add_mod htail (by omega)]
      rw [count] at hi
      split at hi <;> split <;> omega
    exact Function.update_of_ne hne x r.slot
  · have hend : (r.tail + r.count n) % n = r.head := by
      rw [add_mod htail hlt, count]
      split <;> split <;> omega
    show [Function.update r.slot r.head x ((r.tail + r.count n) % n)] = [x]
    rw [hend, Function.update_self]

/-- **The first entry is popped**, and no other. -/
theorem InRange.contents_pop (h : r.InRange n) (hne : r.head ≠ r.tail) :
    r.contents n = r.slot r.tail :: (r.pop n).contents n := by
  have hhead := h.head_lt
  have htail := h.tail_lt
  have hcount : r.count n = (r.pop n).count n + 1 := by
    simp only [count, RingBuffer.pop, succ_mod htail]
    split_ifs <;> omega
  rw [contents, hcount, List.range_succ_eq_map, List.map_cons, List.map_map, Nat.add_zero,
    Nat.mod_eq_of_lt htail]
  congr 1
  refine List.map_congr_left fun i _ => ?_
  show r.slot ((r.tail + (i + 1)) % n) = r.slot (((r.tail + 1) % n + i) % n)
  rw [Nat.mod_add_mod]
  congr 2
  omega

end RingBuffer

end Dotqoo.Lib
