import Dotqoo.Lib.Blocks
import Dotqoo.Lib.Runs

/-!
# `vector.c`: a growable array

A vector has a block of slots, of which the first `n_used` are in use. It doubles the
block when an entry is pushed and no slot is left, and halves it when less than half of
it is used. The doubling is right. The halving clears as many slots as the old block had
behind the used ones, and the new block ends before that; and `vector_remove` reads and
clears the slot behind the last used one, which the block need not have.
`vector_ok_iff` says which runs meet none of this.

Mirroring notes:
- The block has a size of its own. Between two calls it is `n`; in `vector_reallocate`
  it is not. Every access is checked against it, and `none` is one outside.
- `calloc` and `memset` make items of zeros, `default`. What `realloc` leaves in the new
  slots of a block is arbitrary.
- `item *t` is an index into `ary`.
- `xcalloc` and `xrealloc` return a block or abort. No block has the size at which
  `n * 2 * sizeof(item)` would wrap, so sizes are `Nat`.
-/

namespace Dotqoo.Table

open Dotqoo.Lib

variable {ν : Type}

/-- `struct _vector`. No function makes `n` zero. -/
structure Vector (ν : Type) where
  ary : Block ν
  n : Nat
  nUsed : Nat
  n_pos : 0 < n

section Functions

variable [Inhabited ν] (left : Nat → Nat → ν)

/-- `vector_new`. -/
def vectorNew : Vector ν := ⟨⟨16, fun _ => default⟩, 16, 0, by decide⟩

/-- `vector_reallocate`; `left n` is what `realloc` leaves in a block of `n` slots. -/
def vectorReallocate (v : Vector ν) (n : Nat) : Option (Vector ν) :=
  if h : n < v.nUsed ∨ n = 0 then some v
  else do
    let ary := v.ary.resize (left n) n
    -- `v->n` is the old size still
    let ary ← ary.fill v.nUsed (v.n - v.nUsed) default
    some { v with ary, n, n_pos := by omega }

/-- `vector_push_back`. -/
def vectorPushBack (v : Vector ν) (t : ν) : Option (Vector ν) := do
  let v ← (if v.nUsed = v.n then vectorReallocate left v (v.n * 2) else some v)
  let ary ← v.ary.write v.nUsed t
  some { v with ary, nUsed := v.nUsed + 1 }

/-- `vector_pop_back`. -/
def vectorPopBack (v : Vector ν) : Option (Vector ν) :=
  if 0 < v.nUsed then
    let v := { v with nUsed := v.nUsed - 1 }
    if v.nUsed < v.n / 2 then vectorReallocate left v (v.n / 2) else some v
  else some v

/-- `vector_back`. -/
def vectorBack (v : Vector ν) : Option ν := v.ary.read ((v.nUsed : Int) - 1)

/-- `vector_remove`, with the pointer it returns. -/
def vectorRemove (v : Vector ν) (t : Nat) : Option (Vector ν × Option Nat) :=
  if v.nUsed ≤ t then some (v, none)
  else do
    let ary ← (if t + 1 < v.nUsed then v.ary.move t (t + 1) (v.nUsed - t) else some v.ary)
    -- `n_used` is counted down behind the use
    let ary ← ary.fill v.nUsed 1 default
    let v := { v with ary, nUsed := v.nUsed - 1 }
    let v ← (if v.nUsed < v.n / 2 ∧ 16 < v.n then vectorReallocate left v (v.n / 2) else some v)
    some (v, some t)

end Functions

/-! ## The list it stands for -/

/-- The slots in use. -/
def Vector.items (v : Vector ν) : List ν := cellList v.ary.slot 0 v.nUsed

/-- The vector is in bounds and has the entries of the list. -/
structure Vector.Stores (v : Vector ν) (xs : List ν) : Prop where
  used_le : v.nUsed ≤ v.n
  size : v.ary.size = v.n
  items : v.items = xs

section Stores

variable {v : Vector ν} {xs : List ν}

theorem Vector.Stores.length (h : v.Stores xs) : xs.length = v.nUsed := by
  rw [← h.items, Vector.items, length_cellList]

theorem Vector.getElem?_items (v : Vector ν) (i : Nat) :
    v.items[i]? = if i < v.nUsed then some (v.ary.slot i) else none := by
  rw [Vector.items, getElem?_cellList, Nat.zero_add]

/-- **The last entry**; an empty vector is read in front of its block. -/
theorem Vector.Stores.vectorBack (h : v.Stores xs) : vectorBack v = xs.getLast? := by
  rw [List.getLast?_eq_getElem?, h.length, ← h.items, v.getElem?_items]
  by_cases hused : 0 < v.nUsed
  · have hlt : v.nUsed - 1 < v.ary.size := by
      have := h.used_le
      rw [h.size]
      omega
    rw [if_pos (by omega), Table.vectorBack, Block.read, ← readCell_of_lt hlt,
      Int.natCast_sub hused]
    rfl
  · rw [if_neg (by omega), Table.vectorBack]
    exact if_neg (by omega)

/-- The first entries of a vector. -/
theorem Vector.Stores.dropLast (h : v.Stores xs) :
    ({ v with nUsed := v.nUsed - 1 } : Vector ν).Stores xs.dropLast := by
  have hle := h.used_le
  refine ⟨?_, h.size, ?_⟩
  · show v.nUsed - 1 ≤ v.n
    omega
  · apply List.ext_getElem?
    intro i
    rw [List.getElem?_dropLast, h.length, Vector.getElem?_items, ← h.items, v.getElem?_items]
    by_cases hi : i < v.nUsed - 1
    · rw [if_pos hi, if_pos hi, if_pos (by omega)]
    · rw [if_neg hi, if_neg hi]

/-- The slots behind the entry are moved down. -/
theorem Vector.Stores.moved (h : v.Stores xs) {t : Nat} (ht : t < v.nUsed)
    (hroom : v.nUsed < v.n) :
    ∃ ary, (if t + 1 < v.nUsed then v.ary.move t (t + 1) (v.nUsed - t) else some v.ary) = some ary ∧
      ary.size = v.n ∧
      ∀ i < v.nUsed - 1, ary.slot i = v.ary.slot (if i < t then i else i + 1) := by
  split
  next hmove =>
    have hsize := h.size
    refine ⟨_, Block.move_of_le (by omega) (by omega), hsize, fun i hi => ?_⟩
    dsimp only
    by_cases hit : i < t
    · rw [if_pos hit, if_neg (by omega)]
    · rw [if_neg hit, if_pos (by omega)]
      congr 1
      omega
  next hlast =>
    refine ⟨v.ary, rfl, h.size, fun i hi => ?_⟩
    rw [if_pos (by omega)]

end Stores

/-! ## The calls -/

section Calls

variable [Inhabited ν] (left : Nat → Nat → ν) {v : Vector ν} {xs : List ν}

/-- **To halve the block** is to write behind it. -/
theorem vectorReallocate_halve (hused : v.nUsed < v.n / 2) :
    vectorReallocate left v (v.n / 2) = none := by
  have hout : (v.ary.resize (left (v.n / 2)) (v.n / 2)).fill v.nUsed (v.n - v.nUsed) default
      = none := by
    apply Block.fill_eq_none
    · omega
    · show v.n / 2 < _
      omega
  rw [vectorReallocate, dif_neg (by omega)]
  dsimp only
  rw [hout]
  rfl

/-- **To double it** when it is full clears nothing, and keeps the entries. -/
theorem vectorReallocate_double (h : v.Stores xs) (hfull : v.nUsed = v.n) :
    ∃ v', vectorReallocate left v (v.n * 2) = some v' ∧ v'.Stores xs ∧ v'.nUsed < v'.n := by
  have hpos := v.n_pos
  have hnot : ¬ (v.n * 2 < v.nUsed ∨ v.n * 2 = 0) := by omega
  refine ⟨⟨v.ary.resize (left (v.n * 2)) (v.n * 2), v.n * 2, v.nUsed, by omega⟩, ?_, ?_, ?_⟩
  · have hnone : v.n - v.nUsed = 0 := by omega
    rw [vectorReallocate, dif_neg hnot]
    simp only [hnone, Block.fill_zero]
    rfl
  · refine ⟨?_, rfl, ?_⟩
    · show v.nUsed ≤ v.n * 2
      omega
    · rw [← h.items]
      apply cellList_congr
      intro i hi
      rw [Nat.zero_add]
      exact if_pos (by rw [h.size]; exact hfull ▸ hi)
  · show v.nUsed < v.n * 2
    omega

/-- **A push** appends the entry, in every vector. -/
theorem Vector.Stores.pushBack (h : v.Stores xs) (t : ν) :
    ∃ v', vectorPushBack left v t = some v' ∧ v'.Stores (xs ++ [t]) := by
  have hwrite : ∀ {v : Vector ν}, v.Stores xs → v.nUsed < v.n →
      ∃ ary, v.ary.write v.nUsed t = some ary ∧
        (⟨ary, v.n, v.nUsed + 1, v.n_pos⟩ : Vector ν).Stores (xs ++ [t]) := by
    intro v h hroom
    refine ⟨_, Block.write_of_lt (by rwa [h.size]) t, hroom, h.size, ?_⟩
    rw [Vector.items, cellList_succ, ← h.items]
    congr 1
    · apply cellList_congr
      intro i hi
      exact Function.update_of_ne (by omega) ..
    · simp
  rw [vectorPushBack]
  by_cases hfull : v.nUsed = v.n
  · obtain ⟨v₁, hgrow, h₁, hroom⟩ := vectorReallocate_double left h hfull
    obtain ⟨ary, hary, h'⟩ := hwrite h₁ hroom
    refine ⟨_, ?_, h'⟩
    rw [if_pos hfull, hgrow, Option.bind_eq_bind, Option.bind_some, hary]
    rfl
  · have hroom : v.nUsed < v.n := Nat.lt_of_le_of_ne h.used_le hfull
    obtain ⟨ary, hary, h'⟩ := hwrite h hroom
    refine ⟨_, ?_, h'⟩
    rw [if_neg hfull, Option.bind_eq_bind, Option.bind_some, hary]
    rfl

/-- **A pop** takes the last entry away, unless it has the block halved. -/
theorem Vector.Stores.popBack (h : v.Stores xs) :
    (v.nUsed = 0 ∨ v.n / 2 < v.nUsed →
      ∃ v', vectorPopBack left v = some v' ∧ v'.Stores xs.dropLast) ∧
    (¬ (v.nUsed = 0 ∨ v.n / 2 < v.nUsed) → vectorPopBack left v = none) := by
  rw [vectorPopBack]
  by_cases hused : 0 < v.nUsed
  · rw [if_pos hused]
    refine ⟨fun hkeep => ?_, fun hhalve => ?_⟩
    · exact ⟨_, if_neg (by show ¬ v.nUsed - 1 < v.n / 2; omega), h.dropLast⟩
    · have hless : v.nUsed - 1 < v.n / 2 := by omega
      exact (if_pos hless).trans (vectorReallocate_halve left hless)
  · rw [if_neg hused]
    refine ⟨fun _ => ⟨v, rfl, ?_⟩, fun hhalve => absurd (Or.inl (by omega)) hhalve⟩
    have hnil : xs = [] := List.length_eq_zero_iff.mp (by rw [h.length]; omega)
    subst hnil
    exact h

/-- The list without the entry is in the slots, once that behind it is clear. -/
theorem Vector.Stores.erased (h : v.Stores xs) {t : Nat} (ht : t < v.nUsed)
    (hroom : v.nUsed < v.n) {ary : Block ν} (hsize : ary.size = v.n)
    (hslot : ∀ i < v.nUsed - 1, ary.slot i = v.ary.slot (if i < t then i else i + 1)) :
    ∃ ary', ary.fill v.nUsed 1 default = some ary' ∧
      (⟨ary', v.n, v.nUsed - 1, v.n_pos⟩ : Vector ν).Stores (xs.eraseIdx t) := by
  refine ⟨_, Block.fill_of_le (by omega) default, ?_, hsize, ?_⟩
  · show v.nUsed - 1 ≤ v.n
    omega
  · apply List.ext_getElem?
    intro i
    rw [List.getElem?_eraseIdx, ← h.items, v.getElem?_items, v.getElem?_items,
      Vector.getElem?_items]
    dsimp only
    by_cases hi : i < v.nUsed - 1
    · rw [if_pos hi, if_neg (by omega), hslot i hi, if_pos (by omega : i < v.nUsed),
        if_pos (by omega : i + 1 < v.nUsed)]
      split <;> rfl
    · rw [if_neg hi, if_neg (by omega : ¬ i + 1 < v.nUsed), if_neg (by omega : ¬ i < t)]

/-- **A removal** takes the entry out, if a slot is left behind the last one, and unless
it has the block halved. -/
theorem Vector.Stores.remove (h : v.Stores xs) (t : Nat) :
    (v.nUsed ≤ t ∨ v.nUsed < v.n ∧ (v.n ≤ 16 ∨ v.n / 2 < v.nUsed) →
      ∃ v' p, vectorRemove left v t = some (v', p) ∧ v'.Stores (xs.eraseIdx t)) ∧
    (¬ (v.nUsed ≤ t ∨ v.nUsed < v.n ∧ (v.n ≤ 16 ∨ v.n / 2 < v.nUsed)) →
      vectorRemove left v t = none) := by
  rw [vectorRemove]
  by_cases ht : v.nUsed ≤ t
  · rw [if_pos ht]
    refine ⟨fun _ => ⟨v, none, rfl, ?_⟩, fun hout => absurd (Or.inl ht) hout⟩
    rwa [List.eraseIdx_of_length_le (by rwa [h.length])]
  · rw [if_neg ht]
    by_cases hroom : v.nUsed < v.n
    · obtain ⟨ary, hmove, hsize, hslot⟩ := h.moved (Nat.lt_of_not_le ht) hroom
      obtain ⟨ary', hfill, h'⟩ := h.erased (Nat.lt_of_not_le ht) hroom hsize hslot
      rw [hmove, Option.bind_eq_bind, Option.bind_some, hfill, Option.bind_eq_bind,
        Option.bind_some]
      dsimp only
      refine ⟨fun hkeep => ⟨_, some t, ?_, h'⟩, fun hhalve => ?_⟩
      · rw [if_neg (by omega)]
        rfl
      · rw [if_pos (by omega), vectorReallocate_halve left (by show v.nUsed - 1 < v.n / 2; omega)]
        rfl
    · -- the slot behind the last one is outside
      refine ⟨fun hkeep => absurd hkeep (by omega), fun _ => ?_⟩
      have hsize := h.size
      split
      next hmove =>
        rw [Block.move_eq_none (by omega) (by omega)]
        rfl
      next hlast =>
        have hout : v.ary.fill v.nUsed 1 default = none :=
          Block.fill_eq_none (by decide) (by omega) default
        rw [Option.bind_eq_bind, Option.bind_some, hout]
        rfl

end Calls

/-! ## Runs -/

/-- A call. -/
inductive VectorOp (ν : Type)
  | pushBack (t : ν)
  | popBack
  | remove (t : Nat)
  deriving Repr

/-- A vector, or `none` behind an access outside of its block, and the list that the same
calls make. -/
structure VectorRun (ν : Type) where
  vec : Option (Vector ν)
  list : List ν

/-- The call on a list. -/
def listCall (xs : List ν) : VectorOp ν → List ν
  | .pushBack t => xs ++ [t]
  | .popBack => xs.dropLast
  | .remove t => xs.eraseIdx t

/-- No slot was touched outside, `n_used` is at most `n`, and the slots in use are the list. -/
def VectorOk (s : VectorRun ν) : Prop := ∃ v, s.vec = some v ∧ v.Stores s.list

/-- A pop comes to an empty vector or to one of which more than half is used. A removal
takes out an entry only where a slot is left, and where the vector is one of 16 slots or
more than half of it is used. -/
def Vector.Fits (v : Vector ν) : VectorOp ν → Prop
  | .pushBack _ => True
  | .popBack => v.nUsed = 0 ∨ v.n / 2 < v.nUsed
  | .remove t => v.nUsed ≤ t ∨ v.nUsed < v.n ∧ (v.n ≤ 16 ∨ v.n / 2 < v.nUsed)

instance (v : Vector ν) : ∀ op, Decidable (v.Fits op)
  | .pushBack _ => inferInstanceAs (Decidable True)
  | .popBack => inferInstanceAs (Decidable (_ ∨ _))
  | .remove _ => inferInstanceAs (Decidable (_ ∨ _ ∧ _))

/-- The next call fits the vector as it is. -/
def NextFits (s : VectorRun ν) (op : VectorOp ν) : Prop := ∀ v ∈ s.vec, v.Fits op

section Runs

variable [Inhabited ν] (left : Nat → Nat → ν)

/-- The call on a vector. -/
def vectorCall (v : Vector ν) : VectorOp ν → Option (Vector ν)
  | .pushBack t => vectorPushBack left v t
  | .popBack => vectorPopBack left v
  | .remove t => (vectorRemove left v t).map Prod.fst

/-- The start of every run. -/
def vectorStart : VectorRun ν := ⟨some vectorNew, []⟩

/-- A call on both. -/
def vectorStep (s : VectorRun ν) (op : VectorOp ν) : VectorRun ν :=
  ⟨s.vec.bind fun v => vectorCall left v op, listCall s.list op⟩

/-- **One call** goes well exactly if it fits. -/
theorem Vector.Stores.call {v : Vector ν} {xs : List ν} (h : v.Stores xs) (op : VectorOp ν) :
    (v.Fits op → ∃ v', vectorCall left v op = some v' ∧ v'.Stores (listCall xs op)) ∧
    (¬ v.Fits op → vectorCall left v op = none) := by
  cases op with
  | pushBack t => exact ⟨fun _ => h.pushBack left t, fun hout => absurd trivial hout⟩
  | popBack => exact h.popBack left
  | remove t =>
    obtain ⟨hfits, hout⟩ := h.remove left t
    refine ⟨fun hf => ?_, fun hf => ?_⟩
    · obtain ⟨v', p, hrun, h'⟩ := hfits hf
      exact ⟨v', by rw [vectorCall, hrun]; rfl, h'⟩
    · rw [vectorCall, hout hf]
      rfl

theorem vectorOk_step_iff {s : VectorRun ν} (hok : VectorOk s) (op : VectorOp ν) :
    VectorOk (vectorStep left s op) ↔ NextFits s op := by
  obtain ⟨v, hv, h⟩ := hok
  obtain ⟨hfits, hout⟩ := h.call left op
  rw [VectorOk, vectorStep, hv, Option.bind_some]
  constructor
  · rintro ⟨v', hv', -⟩ v₁ hv₁
    cases hv.symm.trans hv₁
    by_contra hf
    rw [hout hf] at hv'
    cases hv'
  · intro hf
    exact hfits (hf v hv)

theorem vectorOk_start : VectorOk (vectorStart : VectorRun ν) := by
  refine ⟨vectorNew, rfl, ?_, rfl, rfl⟩
  show 0 ≤ 16
  decide

/-- **A vector stays in bounds** in a run, and stands for its list, exactly if every call
fits the vector that it comes to. -/
theorem vector_ok_iff (ops : List (VectorOp ν)) :
    Throughout (vectorStep left) VectorOk vectorStart ops ↔
      Along (vectorStep left) NextFits vectorStart ops :=
  throughout_iff_along (fun _ op hok => vectorOk_step_iff left hok op) vectorOk_start

/-- Pushes always fit. -/
theorem vectorOk_pushes (ts : List ν) :
    Throughout (vectorStep left) VectorOk vectorStart (ts.map .pushBack) := by
  have hpushes : ∀ (ts : List ν) (s : VectorRun ν), VectorOk s →
      Throughout (vectorStep left) VectorOk s (ts.map .pushBack) := by
    intro ts
    induction ts with
    | nil => exact fun s hok => hok
    | cons t ts ih =>
      intro s hok
      have hstep : VectorOk (vectorStep left s (.pushBack t)) :=
        (vectorOk_step_iff left hok _).mpr fun v _ => trivial
      exact ⟨hok, ih _ hstep⟩
  exact hpushes ts _ vectorOk_start

end Runs

/-- One entry is pushed and popped: eight slots are left of the block, and sixteen are
cleared. -/
theorem popped_outside :
    ¬ ∀ ops : List (VectorOp Int),
      Throughout (vectorStep fun _ _ => 0) VectorOk vectorStart ops := by
  intro h
  obtain ⟨v, hv, -⟩ := (h [.pushBack 7, .popBack]).last
  have hnone : (run (vectorStep fun _ _ => (0 : Int)) vectorStart
      [.pushBack 7, .popBack]).vec.isNone := by
    decide
  rw [hv] at hnone
  cases hnone

end Dotqoo.Table
