import Mathlib.Data.List.Basic

/-!
# Programs that read memory

A parser of untrusted bytes, seen through its loads: it returns, or reads the
cell at some offset and goes on with what it finds. What it computes (`value`)
and whether it stays inside the first `n` cells (`Within`) are two readings of
one program, and the second follows the same branches as the first.

The laws of sequencing and branching are simp lemmas that fire on the way down:
a condition is rewritten after it has been taken out of the program, together
with the instance that decides it.

`checked` runs the program on a list of cells and fails on the first read behind
its end. `checked_eq` says that this is `value` where `Within` holds and a
failure elsewhere.
-/

namespace Dotqoo.Lib

inductive Reads (β α : Type) where
  | done (a : α)
  | read (off : Nat) (next : β → Reads β α)

namespace Reads

variable {β α γ : Type}

protected def bind (x : Reads β α) (f : α → Reads β γ) : Reads β γ :=
  match x with
  | done a => f a
  | read off next => read off (fun b => (next b).bind f)

instance : Monad (Reads β) where
  pure := done
  bind := Reads.bind

/-- The cell at an offset. -/
def cell (off : Nat) : Reads β β := read off done

/-- The `len` cells from an offset on. -/
def cells (off : Nat) : Nat → Reads β (List β)
  | 0 => pure []
  | len + 1 => do
    let b ← cell off
    let rest ← cells (off + 1) len
    pure (b :: rest)

/-- C's `&&`: the second operand is not evaluated if the first is false. -/
def and (x y : Reads β Bool) : Reads β Bool := do
  if ← x then y else pure false

/-- The result, when the memory holds `mem`. -/
def value (mem : Nat → β) : Reads β α → α
  | done a => a
  | read off next => value mem (next (mem off))

/-- Every read is of one of the first `n` cells. -/
def Within (mem : Nat → β) (n : Nat) : Reads β α → Prop
  | done _ => True
  | read off next => off < n ∧ Within mem n (next (mem off))

instance Within.decidable (mem : Nat → β) (n : Nat) :
    ∀ x : Reads β α, Decidable (Within mem n x)
  | done _ => isTrue trivial
  | read off next =>
    have : Decidable (Within mem n (next (mem off))) := Within.decidable mem n (next (mem off))
    inferInstanceAs (Decidable (off < n ∧ Within mem n (next (mem off))))

/-- The result on a list of cells; `none` once a read is not of one of them. -/
def checked (bytes : List β) : Reads β α → Option α
  | done a => some a
  | read off next =>
    match bytes[off]? with
    | some b => checked bytes (next b)
    | none => none

variable {mem : Nat → β} {n : Nat}

@[simp] theorem value_pure (a : α) : value mem (pure a) = a := rfl

@[simp ↓] theorem value_bind (x : Reads β α) (f : α → Reads β γ) :
    value mem (x >>= f) = value mem (f (value mem x)) := by
  show value mem (x.bind f) = _
  induction x with
  | done a => rfl
  | read off next ih => exact ih (mem off)

@[simp] theorem value_cell (off : Nat) : value mem (cell off) = mem off := rfl

@[simp ↓] theorem value_ite {c : Prop} [Decidable c] (x y : Reads β α) :
    value mem (if c then x else y) = if c then value mem x else value mem y := by
  split
  next => rfl
  next => rfl

@[simp] theorem value_and (x y : Reads β Bool) :
    value mem (x.and y) = (value mem x && value mem y) := by
  rw [and, value_bind]
  cases value mem x with
  | false => rfl
  | true => rfl

@[simp] theorem within_pure (a : α) : Within mem n (pure a : Reads β α) ↔ True := Iff.rfl

@[simp ↓] theorem within_bind (x : Reads β α) (f : α → Reads β γ) :
    Within mem n (x >>= f) ↔ Within mem n x ∧ Within mem n (f (value mem x)) := by
  show Within mem n (x.bind f) ↔ _
  induction x with
  | done a => exact ⟨fun h => ⟨trivial, h⟩, fun h => h.2⟩
  | read off next ih =>
    show (off < n ∧ Within mem n ((next (mem off)).bind f)) ↔
      (off < n ∧ Within mem n (next (mem off))) ∧ _
    rw [ih (mem off), and_assoc]
    rfl

@[simp] theorem within_cell (off : Nat) : Within mem n (cell off : Reads β β) ↔ off < n :=
  ⟨fun h => h.1, fun h => ⟨h, trivial⟩⟩

@[simp ↓] theorem within_ite {c : Prop} [Decidable c] (x y : Reads β α) :
    Within mem n (if c then x else y) ↔ (c → Within mem n x) ∧ (¬ c → Within mem n y) := by
  split
  next h => exact ⟨fun hx => ⟨fun _ => hx, fun hn => absurd h hn⟩, fun hx => hx.1 h⟩
  next h => exact ⟨fun hy => ⟨fun hc => absurd hc h, fun _ => hy⟩, fun hy => hy.2 h⟩

@[simp] theorem within_and (x y : Reads β Bool) :
    Within mem n (x.and y) ↔ Within mem n x ∧ (value mem x = true → Within mem n y) := by
  rw [and, within_bind]
  cases value mem x with
  | false => simp
  | true => simp

@[simp] theorem value_cells (off len : Nat) :
    value mem (cells off len) = (List.range' off len).map mem := by
  induction len generalizing off with
  | zero => rfl
  | succ len ih => simp [cells, ih, List.range'_succ]

@[simp] theorem within_cells (off len : Nat) :
    Within mem n (cells off len : Reads β (List β)) ↔ len = 0 ∨ off + len ≤ n := by
  induction len generalizing off with
  | zero => simp [cells]
  | succ len ih =>
    simp only [cells, within_bind, within_cell, ih, within_pure, and_true]
    omega

/-- A checked run is the run itself, if it stays within the cells, and a failure
otherwise. -/
theorem checked_eq {bytes : List β} (hmem : ∀ i < bytes.length, bytes[i]? = some (mem i))
    (x : Reads β α) : checked bytes x =
      if Within mem bytes.length x then some (value mem x) else none := by
  induction x with
  | done a => simp [checked, Within, value]
  | read off next ih =>
    rw [checked]
    by_cases hoff : off < bytes.length
    · simp only [hmem off hoff, ih (mem off), Within, hoff, true_and]
      rfl
    · rw [List.getElem?_eq_none (by omega)]
      simp [Within, hoff]

theorem checked_isSome_iff {bytes : List β}
    (hmem : ∀ i < bytes.length, bytes[i]? = some (mem i)) (x : Reads β α) :
    (checked bytes x).isSome ↔ Within mem bytes.length x := by
  rw [checked_eq hmem]
  split
  next h => simp [h]
  next h => simp [h]

end Reads

end Dotqoo.Lib
