import Mathlib.Data.Nat.Basic
import Mathlib.Tactic.Ring
import Mathlib.Tactic.Positivity

/-!
# Fixed-width little-endian integers

The two sides of a wire format meet in this file: `leBytes w x` is what copying
a `w`-byte little-endian integer into a buffer leaves there, `ofLe` is the
number a little-endian reader makes of such bytes. `ofLe_leBytes` is the round
trip (modulo the width), and `leInt` carries signed values in two's complement.

A packed record is its fields back to back. `unpackLe_flatten` reads one field
by field, and `slices_flatten` cuts a string of records of one size at the
record boundaries.
-/

namespace Dotqoo.Lib

/-- The `w` little-endian bytes of `x`, modulo `256 ^ w`. -/
def leBytes : Nat → Nat → List UInt8
  | 0, _ => []
  | w + 1, x => UInt8.ofNat x :: leBytes w (x / 256)

/-- The number a little-endian reader makes of a byte string. -/
def ofLe : List UInt8 → Nat
  | [] => 0
  | b :: bs => b.toNat + 256 * ofLe bs

@[simp] theorem length_leBytes : ∀ (w x : Nat), (leBytes w x).length = w
  | 0, _ => rfl
  | w + 1, x => by rw [leBytes, List.length_cons, length_leBytes w]

/-- Reading back what was written gives the number modulo the width. -/
theorem ofLe_leBytes : ∀ (w x : Nat), ofLe (leBytes w x) = x % 256 ^ w
  | 0, x => by simp [leBytes, ofLe, Nat.mod_one]
  | w + 1, x => by
    rw [leBytes, ofLe, ofLe_leBytes w, Nat.pow_succ', Nat.mod_mul]
    simp

theorem ofLe_leBytes_of_lt {w x : Nat} (h : x < 256 ^ w) : ofLe (leBytes w x) = x := by
  rw [ofLe_leBytes, Nat.mod_eq_of_lt h]

/-- A byte string is a number below the width. -/
theorem ofLe_lt : ∀ bs : List UInt8, ofLe bs < 256 ^ bs.length
  | [] => by simp [ofLe]
  | b :: bs => by
    have hb : b.toNat < 256 := b.toNat_lt
    have hbs := ofLe_lt bs
    rw [ofLe, List.length_cons, Nat.pow_succ']
    omega

/-- The `w` little-endian bytes of a signed number, in two's complement. -/
def leInt (w : Nat) (x : Int) : List UInt8 := leBytes w (x % 256 ^ w).toNat

@[simp] theorem length_leInt (w : Nat) (x : Int) : (leInt w x).length = w :=
  length_leBytes w _

/-- An unsigned reader sees a signed number modulo the width. -/
theorem ofLe_leInt (w : Nat) (x : Int) : (ofLe (leInt w x) : Int) = x % 256 ^ w := by
  have hpos : (0 : Int) < 256 ^ w := by positivity
  have hnn : 0 ≤ x % 256 ^ w := Int.emod_nonneg _ (by omega)
  have hlt : x % 256 ^ w < 256 ^ w := Int.emod_lt_of_pos _ hpos
  have hcast : ((256 ^ w : Nat) : Int) = 256 ^ w := by push_cast; rfl
  rw [leInt, ofLe_leBytes_of_lt (by omega), Int.toNat_of_nonneg hnn]

/-- Masking with ones in `n` places from `s` on keeps what stands there. -/
theorem and_ones (x n s : Nat) : x &&& (2 ^ n - 1) * 2 ^ s = x / 2 ^ s % 2 ^ n * 2 ^ s := by
  rw [← Nat.and_two_pow_sub_one_eq_mod]
  apply Nat.eq_of_testBit_eq
  intro i
  simp only [Nat.testBit_and, Nat.testBit_mul_two_pow, Nat.testBit_div_two_pow,
    Nat.testBit_two_pow_sub_one]
  by_cases hi : s ≤ i
  · simp [hi, Nat.sub_add_cancel hi]
  · simp [hi]

/-! ## Packed records -/

/-- The fields of a packed record, read one after the other. -/
def readFields : List Nat → List UInt8 → List Nat
  | [], _ => []
  | w :: ws, bytes => ofLe (bytes.take w) :: readFields ws (bytes.drop w)

/-- Read a record of the given widths; it must have exactly their length. -/
def unpackLe (widths : List Nat) (bytes : List UInt8) : Option (List Nat) :=
  if bytes.length = widths.sum then some (readFields widths bytes) else none

theorem readFields_flatten : ∀ (fields : List (List UInt8)),
    readFields (fields.map List.length) fields.flatten = fields.map ofLe
  | [] => rfl
  | f :: fields => by
    rw [List.map_cons, List.flatten_cons, readFields, List.take_left' rfl, List.drop_left' rfl,
      readFields_flatten fields, List.map_cons]

/-- Fields laid out back to back are read back one by one. -/
theorem unpackLe_flatten {widths : List Nat} {fields : List (List UInt8)}
    (h : fields.map List.length = widths) :
    unpackLe widths fields.flatten = some (fields.map ofLe) := by
  subst h
  rw [unpackLe, if_pos (by rw [List.length_flatten]), readFields_flatten]

/-- The slices a loop `for i in range(0, len, size)` takes of a byte string. -/
def slices (size : Nat) (bytes : List UInt8) : List (List UInt8) :=
  (List.range ((bytes.length + size - 1) / size)).map fun k => (bytes.drop (size * k)).take size

/-- The slices of records of one size, laid out back to back, are the records. -/
theorem slices_flatten {size : Nat} (hpos : 0 < size) : ∀ (records : List (List UInt8)),
    (∀ r ∈ records, r.length = size) → slices size records.flatten = records
  | [], _ => by
    have hzero : (size - 1) / size = 0 := Nat.div_eq_of_lt (by omega)
    simp [slices, hzero]
  | r :: records, h => by
    have hr : r.length = size := h r (List.mem_cons_self ..)
    have ih := slices_flatten hpos records fun r' hr' => h r' (List.mem_cons_of_mem _ hr')
    have hcount : ((r ++ records.flatten).length + size - 1) / size
        = (records.flatten.length + size - 1) / size + 1 := by
      rw [List.length_append, hr, ← Nat.add_div_right _ hpos]
      congr 1
      omega
    rw [List.flatten_cons, slices, hcount, List.range_succ_eq_map, List.map_cons, List.map_map]
    congr 1
    · rw [Nat.mul_zero, List.drop_zero, List.take_left' hr]
    · -- slice k + 1 of the whole is slice k of the rest
      refine Eq.trans (List.map_congr_left fun k _ => ?_) ih
      have hk : size * (k + 1) = r.length + size * k := by rw [hr]; ring
      simp only [Function.comp, hk, List.drop_append]
      rw [List.drop_eq_nil_of_le (by omega), List.nil_append]
      congr 2
      omega

theorem mapM_eq_some_map {α β γ : Type} {f : α → Option β} {g : γ → β} {e : γ → α}
    (h : ∀ x, f (e x) = some (g x)) : ∀ xs : List γ, (xs.map e).mapM f = some (xs.map g)
  | [] => rfl
  | x :: xs => by
    rw [List.map_cons, List.mapM_cons, h x, mapM_eq_some_map h xs]
    rfl

end Dotqoo.Lib
