import Mathlib.Data.List.DropRight

/-!
# Reading a text line by line, with a bounded buffer

`lineUpTo nl n` takes the next line off a text, its end mark `nl` included, but
never more than `n` elements: a longer line is handed out in parts. Three
equations say what it does, and they leave nothing open: the line fits with its
end mark, or it fills the buffer first, or the text ends without one.

A line that is handed out in parts comes in `blocks`.

Trimming takes elements off the right end. `trimRight` leaves the first element
alone, whatever it is, and takes the others while they satisfy the test.
-/

namespace Dotqoo.Lib

variable {α : Type}

section Lines

variable [DecidableEq α] (nl : α)

/-- The next line of a text, up to `n` elements of it, and what is left. -/
def lineUpTo : Nat → List α → List α × List α
  | 0, text => ([], text)
  | _ + 1, [] => ([], [])
  | n + 1, a :: text =>
    if a = nl then ([a], text) else (a :: (lineUpTo n text).1, (lineUpTo n text).2)

theorem lineUpTo_append : ∀ (n : Nat) (text : List α),
    (lineUpTo nl n text).1 ++ (lineUpTo nl n text).2 = text
  | 0, _ => rfl
  | _ + 1, [] => rfl
  | n + 1, a :: text => by
    unfold lineUpTo
    split
    · rfl
    · show a :: ((lineUpTo nl n text).1 ++ (lineUpTo nl n text).2) = a :: text
      rw [lineUpTo_append n text]

theorem length_lineUpTo (n : Nat) (text : List α) :
    (lineUpTo nl n text).1.length + (lineUpTo nl n text).2.length = text.length := by
  rw [← List.length_append, lineUpTo_append]

theorem length_lineUpTo_le : ∀ (n : Nat) (text : List α), (lineUpTo nl n text).1.length ≤ n
  | 0, _ => Nat.le_refl 0
  | _ + 1, [] => Nat.zero_le _
  | n + 1, a :: text => by
    unfold lineUpTo
    split
    · exact Nat.succ_le_succ (Nat.zero_le n)
    · exact Nat.succ_le_succ (length_lineUpTo_le n text)

/-- Something is taken if there is room and something to take. -/
theorem length_lineUpTo_lt {n : Nat} (hn : 0 < n) {text : List α} (htext : text ≠ []) :
    (lineUpTo nl n text).2.length < text.length := by
  obtain ⟨n, rfl⟩ := Nat.exists_eq_succ_of_ne_zero hn.ne'
  obtain ⟨a, text, rfl⟩ := List.exists_cons_of_ne_nil htext
  unfold lineUpTo
  split
  · show text.length < text.length + 1
    omega
  · have hlen := length_lineUpTo nl n text
    show (lineUpTo nl n text).2.length < text.length + 1
    omega

variable {nl}

/-- The line fits with its end mark. -/
theorem lineUpTo_line (rest : List α) : ∀ {n : Nat} {line : List α}, nl ∉ line → line.length < n →
    lineUpTo nl n (line ++ nl :: rest) = (line ++ [nl], rest)
  | 0, _, _, hn => absurd hn (Nat.not_lt_zero _)
  | _ + 1, [], _, _ => by simp [lineUpTo]
  | n + 1, a :: line, hline, hn => by
    have hne : a ≠ nl := fun h => hline (h ▸ List.mem_cons_self)
    have ih := lineUpTo_line rest (n := n) (fun h => hline (List.mem_cons_of_mem a h))
      (Nat.lt_of_succ_lt_succ hn)
    show lineUpTo nl (n + 1) (a :: (line ++ nl :: rest)) = _
    rw [lineUpTo, if_neg hne, ih]
    rfl

/-- The buffer is full before the end mark. -/
theorem lineUpTo_full (rest : List α) : ∀ {line : List α}, nl ∉ line →
    lineUpTo nl line.length (line ++ rest) = (line, rest)
  | [], _ => rfl
  | a :: line, hline => by
    have hne : a ≠ nl := fun h => hline (h ▸ List.mem_cons_self)
    have ih := lineUpTo_full rest fun h : nl ∈ line => hline (List.mem_cons_of_mem a h)
    show lineUpTo nl (line.length + 1) (a :: (line ++ rest)) = _
    rw [lineUpTo, if_neg hne, ih]

/-- The text ends before either. -/
theorem lineUpTo_end : ∀ {n : Nat} {line : List α}, nl ∉ line → line.length ≤ n →
    lineUpTo nl n line = (line, [])
  | 0, line, _, hn => by
    rw [List.length_eq_zero_iff.mp (Nat.le_zero.mp hn)]
    rfl
  | _ + 1, [], _, _ => rfl
  | n + 1, a :: line, hline, hn => by
    have hne : a ≠ nl := fun h => hline (h ▸ List.mem_cons_self)
    have ih := lineUpTo_end (n := n) (fun h => hline (List.mem_cons_of_mem a h))
      (Nat.le_of_succ_le_succ hn)
    rw [lineUpTo, if_neg hne, ih]

end Lines

section Blocks

/-- A line in the parts that a reader with room for `n` elements takes. -/
def blocks (n : Nat) (line : List α) : List (List α) :=
  if _h : line = [] ∨ n = 0 then [] else line.take n :: blocks n (line.drop n)
  termination_by line.length
  decreasing_by
    obtain ⟨hne, hn⟩ := not_or.mp _h
    have hpos := List.length_pos_iff.mpr hne
    rw [List.length_drop]
    omega

@[simp] theorem blocks_nil (n : Nat) : blocks n ([] : List α) = [] := by
  rw [blocks, dif_pos (Or.inl rfl)]

/-- The first part of a line that fills the room. -/
theorem blocks_append {n : Nat} (hn : n ≠ 0) {first : List α} (hlen : first.length = n)
    (rest : List α) : blocks n (first ++ rest) = first :: blocks n rest := by
  have hne : first ++ rest ≠ [] := by
    intro h
    rw [(List.append_eq_nil_iff.mp h).1] at hlen
    exact hn hlen.symm
  rw [blocks, dif_neg (not_or.mpr ⟨hne, hn⟩), List.take_left' hlen, List.drop_left' hlen]

/-- A line that there is room for is one part. -/
theorem blocks_of_length_le {n : Nat} {line : List α} (hne : line ≠ []) (hlen : line.length ≤ n) :
    blocks n line = [line] := by
  have hpos := List.length_pos_iff.mpr hne
  rw [blocks, dif_neg (not_or.mpr ⟨hne, by omega⟩), List.take_of_length_le hlen,
    List.drop_eq_nil_of_le hlen, blocks_nil]

end Blocks

section Trim

variable (p : α → Bool)

/-- Take elements off the right end, but not the first one. -/
def trimRight : List α → List α
  | [] => []
  | a :: l => a :: l.rdropWhile p

theorem isPrefix_trimRight (l : List α) : trimRight p l <+: l := by
  cases l with
  | nil => exact List.prefix_refl []
  | cons a l => exact (List.prefix_cons_inj a).mpr (List.rdropWhile_prefix p l)

theorem length_trimRight_le (l : List α) : (trimRight p l).length ≤ l.length :=
  (isPrefix_trimRight p l).length_le

variable {p}

theorem rdropWhile_append_all {l tail : List α} (htail : ∀ a ∈ tail, p a) :
    (l ++ tail).rdropWhile p = l.rdropWhile p := by
  rw [List.rdropWhile, List.reverse_append, List.dropWhile_append_of_pos, List.rdropWhile]
  intro a ha
  exact htail a (List.mem_reverse.mp ha)

/-- What is on the right of the last element to stay is taken off. -/
theorem trimRight_append {l tail : List α} (hl : l ≠ []) (hlast : ∀ a ∈ l.getLast?, p a = false)
    (htail : ∀ a ∈ tail, p a) : trimRight p (l ++ tail) = l := by
  obtain ⟨a, l, rfl⟩ := List.exists_cons_of_ne_nil hl
  show a :: (l ++ tail).rdropWhile p = a :: l
  rw [rdropWhile_append_all htail, List.rdropWhile_eq_self_iff.mpr]
  intro hne
  have := hlast (l.getLast hne) (by
    rw [List.getLast?_cons, List.getLast?_eq_some_getLast hne]
    rfl)
  simp [this]

/-- What comes after the end of the leading elements does not matter. -/
theorem takeWhile_append_stop {q : α → Bool} (s : List α) {t : List α}
    (ht : ∀ a ∈ t.head?, q a = false) : (s ++ t).takeWhile q = s.takeWhile q := by
  have hnone : t.takeWhile q = [] := by
    cases t with
    | nil => rfl
    | cons a t => exact List.takeWhile_cons_of_neg (by simp [ht a rfl])
  rw [List.takeWhile_append, hnone, List.append_nil]
  split
  next hall => exact (List.Sublist.eq_of_length (List.takeWhile_sublist _) hall).symm
  next => rfl

/-- Nor do the elements that are trimmed off, if none of them is one to take. -/
theorem takeWhile_trimRight {q : α → Bool} (hpq : ∀ a, p a → q a = false) (l : List α) :
    (trimRight p l).takeWhile q = l.takeWhile q := by
  cases l with
  | nil => rfl
  | cons a l =>
    have hsplit : a :: l = trimRight p (a :: l) ++ l.rtakeWhile p := by
      show a :: l = a :: (l.rdropWhile p ++ l.rtakeWhile p)
      rw [List.rdropWhile_append_rtakeWhile]
    conv_rhs => rw [hsplit]
    refine (takeWhile_append_stop _ fun b hb => hpq b ?_).symm
    exact List.mem_rtakeWhile_imp (List.mem_of_mem_head? hb)

end Trim

end Dotqoo.Lib
