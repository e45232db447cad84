import Mathlib.Logic.Function.Basic
import Mathlib.Data.List.Basic

/-!
# An array of cells, and the terminated strings in it

An array of `n` cells that is read and written by index. An access outside of it is
an error (`none`), so a result is also the statement that all indices were inside.

`scanCells` goes through the cells from an index on to the first that stops it, as all
functions on terminated strings do. `Spells b p s` says that the cells from `p` on
hold `s` and its end mark; with it a scan is a `takeWhile` on `s` (`Spells.scan`).
`cellList` is some cells as a list, whether they are a string or not.
-/

namespace Dotqoo.Lib

variable {α : Type} (n : Nat)

/-- Read a cell. -/
def readCell (b : Nat → α) (i : Int) : Option α := if 0 ≤ i ∧ i < n then some (b i.toNat) else none

/-- Write a cell. -/
def writeCell (b : Nat → α) (i : Int) (a : α) : Option (Nat → α) :=
  if 0 ≤ i ∧ i < n then some (Function.update b i.toNat a) else none

/-- Write cells from an index on. -/
def writeCells (b : Nat → α) (p : Nat) : List α → Option (Nat → α)
  | [] => some b
  | a :: s => do
    let b ← writeCell n b p a
    writeCells b (p + 1) s

/-- Read `k` cells from an index on. -/
def readCells (b : Nat → α) (p : Nat) : Nat → Option (List α)
  | 0 => some []
  | k + 1 => do
    let a ← readCell n b p
    let s ← readCells b (p + 1) k
    some (a :: s)

/-- The first index from `p` on whose cell stops the scan. -/
def scanCells (stop : α → Bool) (b : Nat → α) (p : Nat) : Option Nat :=
  if _h : p < n then
    if stop (b p) then some p else scanCells stop b (p + 1)
  else none
termination_by n - p

variable {n} {b : Nat → α} {p : Nat}

theorem readCell_of_lt {i : Nat} (h : i < n) : readCell n b i = some (b i) :=
  if_pos ⟨Int.natCast_nonneg i, Int.ofNat_lt.mpr h⟩

theorem writeCell_of_lt {i : Nat} (h : i < n) (a : α) :
    writeCell n b i a = some (Function.update b i a) :=
  if_pos ⟨Int.natCast_nonneg i, Int.ofNat_lt.mpr h⟩

/-- What is written stands there, and the other cells are as before. -/
theorem writeCells_of_le {s : List α} (h : p + s.length ≤ n) :
    writeCells n b p s = some fun i => if p ≤ i then (s[i - p]?).getD (b i) else b i := by
  induction s generalizing b p with
  | nil => simp [writeCells]
  | cons a s ih =>
    rw [List.length_cons] at h
    rw [writeCells, writeCell_of_lt (by omega), Option.bind_eq_bind, Option.bind_some,
      ih (by omega)]
    congr 1
    funext i
    rcases Nat.lt_trichotomy i p with hlt | rfl | hgt
    · simp [Nat.not_le.mpr hlt, show ¬ p + 1 ≤ i by omega, Function.update_of_ne (Nat.ne_of_lt hlt)]
    · simp [show ¬ i + 1 ≤ i by omega]
    · have hsub : i - p = i - (p + 1) + 1 := by omega
      simp [show p ≤ i by omega, show p + 1 ≤ i by omega, hsub,
        Function.update_of_ne (Nat.ne_of_gt hgt)]

/-- To write some cells the last of them has to be inside. -/
theorem writeCells_eq_none {s : List α} (hs : s ≠ []) (h : n < p + s.length) :
    writeCells n b p s = none := by
  induction s generalizing b p with
  | nil => exact absurd rfl hs
  | cons a s ih =>
    rw [List.length_cons] at h
    rw [writeCells]
    by_cases hp : p < n
    · have hrest : s ≠ [] := by
        rintro rfl
        rw [List.length_nil] at h
        omega
      rw [writeCell_of_lt hp, Option.bind_eq_bind, Option.bind_some, ih hrest (by omega)]
    · have hout : writeCell n b (p : Int) a = none := if_neg (by omega)
      rw [hout]
      rfl

/-- The cells from `p` on, as a list. -/
def cellList (b : Nat → α) (p k : Nat) : List α := (List.range k).map fun i => b (p + i)

@[simp] theorem length_cellList (b : Nat → α) (p k : Nat) : (cellList b p k).length = k := by
  rw [cellList, List.length_map, List.length_range]

theorem getElem?_cellList (b : Nat → α) (p k i : Nat) :
    (cellList b p k)[i]? = if i < k then some (b (p + i)) else none := by
  rw [cellList, List.getElem?_map]
  split
  next hi => rw [List.getElem?_range hi, Option.map_some]
  next hi => rw [List.getElem?_eq_none (by simpa using hi), Option.map_none]

theorem cellList_congr {b' : Nat → α} {k : Nat} (h : ∀ i < k, b (p + i) = b' (p + i)) :
    cellList b p k = cellList b' p k := by
  rw [cellList, cellList]
  exact List.map_congr_left fun i hi => h i (List.mem_range.mp hi)

theorem cellList_succ (b : Nat → α) (p k : Nat) :
    cellList b p (k + 1) = cellList b p k ++ [b (p + k)] := by
  rw [cellList, List.range_succ, List.map_append]
  rfl

theorem readCells_of_le {k : Nat} (h : p + k ≤ n) : readCells n b p k = some (cellList b p k) := by
  induction k generalizing p with
  | zero => rfl
  | succ k ih =>
    rw [readCells, readCell_of_lt (by omega), Option.bind_eq_bind, Option.bind_some, ih (by omega),
      Option.bind_eq_bind, Option.bind_some, cellList, cellList, List.range_succ_eq_map,
      List.map_cons, List.map_map]
    congr 2
    refine List.map_congr_left fun i _ => ?_
    rw [Function.comp_apply, Nat.add_right_comm, Nat.add_assoc]

/-- To read some cells the last of them has to be inside. -/
theorem readCells_eq_none {k : Nat} (hk : 0 < k) (h : n < p + k) : readCells n b p k = none := by
  induction k generalizing p with
  | zero => omega
  | succ k ih =>
    rw [readCells]
    by_cases hp : p < n
    · rw [readCell_of_lt hp, Option.bind_eq_bind, Option.bind_some, ih (by omega) (by omega)]
      rfl
    · have hout : readCell n b (p : Int) = none := if_neg (by omega)
      rw [hout]
      rfl

/-- The cells from `p` on are those of a string, with its end mark. -/
structure Spells (nul : α) (n : Nat) (b : Nat → α) (p : Nat) (s : List α) : Prop where
  cell : ∀ i a, s[i]? = some a → b (p + i) = a
  stop : b (p + s.length) = nul
  nul_not_mem : nul ∉ s
  lt : p + s.length < n

variable {nul : α}

/-- The cells are the string. -/
theorem Spells.cellList_eq {s : List α} (h : Spells nul n b p s) : cellList b p s.length = s := by
  refine List.ext_getElem? fun i => ?_
  rw [getElem?_cellList]
  split
  next hi => rw [List.getElem?_eq_getElem hi, h.cell i _ (List.getElem?_eq_getElem hi)]
  next hi => rw [List.getElem?_eq_none (Nat.le_of_not_lt hi)]

/-- A scan that stops at the end mark at the latest. -/
theorem Spells.scan {s : List α} (h : Spells nul n b p s) {stop : α → Bool} (hnul : stop nul) :
    scanCells n stop b p = some (p + (s.takeWhile fun a => !stop a).length) := by
  induction s generalizing p with
  | nil =>
    have hlt := h.lt
    have hstop := h.stop
    rw [List.length_nil, Nat.add_zero] at hlt hstop
    rw [scanCells, dif_pos hlt, hstop, if_pos hnul]
    rfl
  | cons a s ih =>
    have hlt := h.lt
    rw [List.length_cons] at hlt
    have ha : b p = a := h.cell 0 a rfl
    rw [scanCells, dif_pos (by omega), ha]
    by_cases hstop : stop a
    · simp [hstop]
    · have htail : Spells nul n b (p + 1) s := by
        refine ⟨fun i a' hi => ?_, ?_, fun hmem => h.nul_not_mem (List.mem_cons_of_mem a hmem),
          by omega⟩
        · rw [Nat.add_assoc, Nat.add_comm 1 i]
          exact h.cell (i + 1) a' hi
        · rw [Nat.add_assoc, Nat.add_comm 1]
          exact h.stop
      rw [if_neg hstop, ih htail]
      simp only [hstop, Bool.not_false, List.takeWhile_cons_of_pos, List.length_cons]
      congr 1
      omega

/-- The elements of a list are all that counts for its leading ones. -/
theorem takeWhile_congr_of_mem {q q' : α → Bool} : ∀ {s : List α}, (∀ a ∈ s, q a = q' a) →
    s.takeWhile q = s.takeWhile q'
  | [], _ => rfl
  | a :: s, h => by
    rw [List.takeWhile_cons, List.takeWhile_cons, h a List.mem_cons_self,
      takeWhile_congr_of_mem fun b hb => h b (List.mem_cons_of_mem a hb)]

/-- A scan that asks for the end mark too stops in the string where it would not. -/
theorem Spells.scan_or [DecidableEq α] {s : List α} (h : Spells nul n b p s) (stop : α → Bool) :
    scanCells n (fun a => stop a || a = nul) b p =
      some (p + (s.takeWhile fun a => !stop a).length) := by
  rw [h.scan (by simp)]
  congr 3
  refine takeWhile_congr_of_mem fun a ha => ?_
  have hne : a ≠ nul := fun heq => h.nul_not_mem (heq ▸ ha)
  simp [hne]

/-- The end of a string is one. -/
theorem Spells.right {s t : List α} (h : Spells nul n b p (s ++ t)) :
    Spells nul n b (p + s.length) t := by
  have hlt := h.lt
  have hstop := h.stop
  rw [List.length_append] at hlt hstop
  refine ⟨fun i a hi => ?_, by rw [Nat.add_assoc, hstop],
    fun hmem => h.nul_not_mem (List.mem_append_right s hmem), by omega⟩
  rw [Nat.add_assoc]
  exact h.cell _ a (by rw [List.getElem?_append_right (by omega), Nat.add_sub_cancel_left, hi])

theorem Spells.read {s : List α} (h : Spells nul n b p s) {i : Nat} {a : α} (hi : s[i]? = some a) :
    readCell n b ((p + i : Nat) : Int) = some a := by
  have hlt := h.lt
  have hlen := (List.getElem?_eq_some_iff.mp hi).1
  rw [readCell_of_lt (by omega), h.cell i a hi]

/-- The cell of the end mark can be read. -/
theorem Spells.read_end {s : List α} (h : Spells nul n b p s) :
    readCell n b ((p + s.length : Nat) : Int) = some nul := by
  rw [readCell_of_lt h.lt, h.stop]

/-- Cells that agree spell the same. -/
theorem Spells.congr {s : List α} (h : Spells nul n b p s) {b' : Nat → α}
    (hsame : ∀ i, p ≤ i → i ≤ p + s.length → b' i = b i) : Spells nul n b' p s := by
  refine ⟨fun i a hi => ?_, ?_, h.nul_not_mem, h.lt⟩
  · have hlen := (List.getElem?_eq_some_iff.mp hi).1
    rw [hsame _ (by omega) (by omega)]
    exact h.cell i a hi
  · rw [hsame _ (by omega) (by omega)]
    exact h.stop

/-- An end mark in the middle cuts a string off. -/
theorem Spells.cut {s t : List α} (h : Spells nul n b p (s ++ t)) :
    Spells nul n (Function.update b (p + s.length) nul) p s := by
  have hlt := h.lt
  rw [List.length_append] at hlt
  refine ⟨fun i a hi => ?_, Function.update_self .., fun hmem =>
    h.nul_not_mem (List.mem_append_left t hmem), by omega⟩
  have hlen := (List.getElem?_eq_some_iff.mp hi).1
  rw [Function.update_of_ne (by omega)]
  exact h.cell i a (by rw [List.getElem?_append_left hlen, hi])

/-- A string behind the end mark that is written stays. -/
theorem Spells.update_of_lt {s : List α} (h : Spells nul n b p s) {i : Nat} (hi : i < p) (a : α) :
    Spells nul n (Function.update b i a) p s :=
  h.congr fun _ hj _ => Function.update_of_ne (by omega) ..

/-- So does one in front of it. -/
theorem Spells.update_of_gt {s : List α} (h : Spells nul n b p s) {i : Nat}
    (hi : p + s.length < i) (a : α) : Spells nul n (Function.update b i a) p s :=
  h.congr fun _ _ hj => Function.update_of_ne (by omega) ..

/-- **Any cells with an end mark** spell something. -/
theorem exists_spells [DecidableEq α] {e : Nat} (h : scanCells n (fun a => a = nul) b p = some e) :
    ∃ s, Spells nul n b p s ∧ e = p + s.length := by
  fun_induction scanCells n (fun a => decide (a = nul)) b p with
  | case1 p hlt hstop =>
    cases h
    exact ⟨[], ⟨fun i a hi => by simp at hi, of_decide_eq_true hstop, by simp, hlt⟩, rfl⟩
  | case2 p hlt hgo ih =>
    obtain ⟨s, hs, rfl⟩ := ih h
    have hend := hs.lt
    refine ⟨b p :: s, ⟨fun i a hi => ?_, ?_, ?_, ?_⟩, by rw [List.length_cons]; omega⟩
    · cases i with
      | zero => exact Option.some.inj hi
      | succ i =>
        rw [Nat.add_comm i, ← Nat.add_assoc]
        exact hs.cell i a hi
    · rw [List.length_cons, Nat.add_comm s.length, ← Nat.add_assoc]
      exact hs.stop
    · intro hmem
      rcases List.mem_cons.mp hmem with heq | hmem
      · exact hgo (decide_eq_true heq.symm)
      · exact hs.nul_not_mem hmem
    · rw [List.length_cons]
      omega
  | case3 => cases h

end Dotqoo.Lib
