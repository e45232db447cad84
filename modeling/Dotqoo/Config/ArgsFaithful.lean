import Dotqoo.Config.ArgsExact

/-!
# When the argument file is read as it is meant

The words should be those of the lines that are not empty and no comments, in
order. `faithful_iff` has the exact condition. Three of its parts are about the
sizes of the arrays. The others are about what the size of `buff` does to long
comments, about a NUL in the file, and about `args` on entry: if no line is
copied, the words come out of what happened to be in it.
-/

namespace Dotqoo.Config

open Dotqoo.Lib

/-- A line that is not empty and does not begin with `#`. -/
def isArgLine (line : List Char) : Bool := line ≠ [] && line.head? ≠ some '#'

/-- The argument lines of a file. -/
def argLines (text : List Char) : List (List Char) := (text.splitOn '\n').filter isArgLine

/-- The words a file is meant to give. -/
def expectedArgs (text : List Char) : List CString := (argLines text).flatMap (strtok ' ')

/-- The words that come from a line. -/
def argsOfLine (line : List Char) : List CString := (keptOfLine line).flatMap (strtok ' ')

/-- The file is read as it is meant: no array is left, the words are the expected
ones, none comes from a comment line, and without argument lines there are none. -/
structure Faithful (stack : Stack) (text : List Char) : Prop where
  words : readArgsFromFile stack text = some (expectedArgs text)
  comments : ∀ line ∈ text.splitOn '\n', line.head? = some '#' → argsOfLine line = []
  none : argLines text = [] → readArgsFromFile stack text = some []

/-- What a file must be like for that. -/
structure Readable (stack : Stack) (text : List Char) : Prop where
  /-- No argument line is cut at a NUL. -/
  noNul : ∀ line ∈ argLines text, '\x00' ∉ line
  /-- Each part of a long comment begins with `#` again or is blank. -/
  comments : ∀ line ∈ text.splitOn '\n', line.head? = some '#' →
    ∀ part ∈ blocks (argsSize - 1) line, part.head? = some '#' ∨ ∀ c ∈ cString part, c = ' '
  /-- What is copied fits into `args`. -/
  room : (joined (keptOf text)).length < argsSize
  /-- The words fit into `fargv`. -/
  slots : 1 + (expectedArgs text).length ≤ fargvLen
  /-- Each word fits into its copy. -/
  tokens : ∀ arg ∈ expectedArgs text, arg.length < tokenSize
  /-- If nothing is copied, the array on entry is a blank string. -/
  stack : keptOf text = [] → '\x00' ∈ stack.chars ∧ ∀ c ∈ cString stack.chars, c = ' '

/-! ## Lines -/

theorem isArgLine_iff {line : List Char} :
    isArgLine line = true ↔ line ≠ [] ∧ line.head? ≠ some '#' := by
  simp [isArgLine]

/-- The first part of an argument line is copied. -/
theorem kept_argLine {line : List Char} (h : isArgLine line = true) :
    cString (line.take (argsSize - 1)) ∈ keptOfLine line := by
  obtain ⟨hne, hhead⟩ := isArgLine_iff.mp h
  obtain ⟨c, rest, rfl⟩ := List.exists_cons_of_ne_nil hne
  have hfirst : (c :: rest).take (argsSize - 1) ∈ blocks (argsSize - 1) (c :: rest) := by
    rw [blocks, dif_neg (by simp [argsSize])]
    exact List.mem_cons_self
  refine List.mem_flatMap.mpr ⟨_, hfirst, ?_⟩
  have hc : ((c :: rest).take (argsSize - 1)).head? ≠ some '#' := hhead
  rw [kept, if_neg hc]
  exact List.mem_singleton.mpr rfl

/-- A text that is copied takes its room, and a blank. -/
theorem length_lt_joined {texts : List CString} {t : CString} (ht : t ∈ texts) :
    t.length < (joined texts).length := by
  obtain ⟨before, after, rfl⟩ := List.append_of_mem ht
  simp only [joined, List.flatMap_append, List.flatMap_cons, List.length_append,
    List.length_singleton]
  omega

/-- An argument line without a NUL, in a file that fits, is copied as it is. -/
theorem keptOfLine_argLine {text line : List Char} (hline : line ∈ argLines text)
    (hnul : '\x00' ∉ line) (hroom : (joined (keptOf text)).length < argsSize) :
    keptOfLine line = [line] := by
  obtain ⟨hmem, harg⟩ := List.mem_filter.mp hline
  have hcut : ∀ l : List Char, '\x00' ∉ l → cString l = l := fun l => untilMark_of_not_mem
  -- a longer line fills the array with its first part
  have hshort : line.length < argsSize - 1 := by
    have hkept : cString (line.take (argsSize - 1)) ∈ keptOf text :=
      List.mem_flatMap.mpr ⟨line, hmem, kept_argLine harg⟩
    rw [hcut _ fun h => hnul (List.mem_of_mem_take h)] at hkept
    have hlt := length_lt_joined hkept
    rw [List.length_take] at hlt
    omega
  obtain ⟨hne, hhead⟩ := isArgLine_iff.mp harg
  rw [keptOfLine, blocks_of_length_le hne (by omega), List.flatMap_singleton, kept, if_neg hhead,
    hcut line hnul]

/-- A comment line whose parts are comments or blank gives no words. -/
theorem argsOfLine_eq_nil_iff {line : List Char} : argsOfLine line = [] ↔
    ∀ part ∈ blocks (argsSize - 1) line, part.head? = some '#' ∨ ∀ c ∈ cString part, c = ' ' := by
  have hpart : ∀ part, (kept part).flatMap (strtok ' ') = []
      ↔ part.head? = some '#' ∨ ∀ c ∈ cString part, c = ' ' := by
    intro part
    unfold kept
    by_cases hc : part.head? = some '#'
    · simp [hc]
    · simp [hc, strtok_eq_nil_iff]
  rw [argsOfLine, keptOfLine, List.flatMap_assoc, List.flatMap_eq_nil_iff]
  exact forall₂_congr fun part _ => hpart part

/-- What a line should give. -/
theorem expectedArgs_eq (text : List Char) : expectedArgs text
    = (text.splitOn '\n').flatMap fun line => if isArgLine line then strtok ' ' line else [] := by
  unfold expectedArgs argLines
  induction text.splitOn '\n' with
  | nil => rfl
  | cons line lines ih =>
    by_cases harg : isArgLine line = true
    · rw [List.filter_cons_of_pos harg, List.flatMap_cons, ih, List.flatMap_cons, if_pos harg]
    · rw [List.filter_cons_of_neg harg, ih, List.flatMap_cons, if_neg harg, List.nil_append]

/-- In a readable file every line gives the words it should. -/
theorem args_of_lines {text : List Char} (hnul : ∀ line ∈ argLines text, '\x00' ∉ line)
    (hcomments : ∀ line ∈ text.splitOn '\n', line.head? = some '#' → argsOfLine line = [])
    (hroom : (joined (keptOf text)).length < argsSize) :
    (keptOf text).flatMap (strtok ' ') = expectedArgs text := by
  rw [keptOf, List.flatMap_assoc, expectedArgs_eq]
  refine List.flatMap_congr fun line hline => ?_
  by_cases harg : isArgLine line = true
  · have hmem : line ∈ argLines text := List.mem_filter.mpr ⟨hline, harg⟩
    rw [if_pos harg, keptOfLine_argLine hmem (hnul line hmem) hroom, List.flatMap_singleton]
  · rw [if_neg harg]
    by_cases hne : line = []
    · rw [hne, keptOfLine, blocks_nil]
      rfl
    · have hhead : line.head? = some '#' := by
        by_contra h
        exact harg (isArgLine_iff.mpr ⟨hne, h⟩)
      exact hcomments line hline hhead

/-- If nothing is copied there is no argument line. -/
theorem argLines_eq_nil {text : List Char} (h : keptOf text = []) : argLines text = [] := by
  rw [argLines, List.filter_eq_nil_iff]
  intro line hline harg
  have hkept : cString (line.take (argsSize - 1)) ∈ keptOf text :=
    List.mem_flatMap.mpr ⟨line, hline, kept_argLine harg⟩
  rw [h] at hkept
  exact absurd hkept List.not_mem_nil

/-! ## Files -/

theorem faithful_of_readable {stack : Stack} {text : List Char} (h : Readable stack text) :
    Faithful stack text := by
  have hcomments : ∀ line ∈ text.splitOn '\n', line.head? = some '#' → argsOfLine line = [] :=
    fun line hline hhead => argsOfLine_eq_nil_iff.mpr (h.comments line hline hhead)
  have hwords : readArgsFromFile stack text = some (expectedArgs text) := by
    rw [readArgsFromFile_eq, if_pos h.room]
    by_cases hnone : keptOf text = []
    · obtain ⟨hnul, hblank⟩ := h.stack hnone
      rw [if_pos hnone, if_pos hnul, strtok_eq_nil_iff.mpr hblank, expectedArgs,
        argLines_eq_nil hnone]
      rfl
    · rw [if_neg hnone, args_of_lines h.noNul hcomments h.room, storeArgs_eq 1 _ (by decide),
        if_pos ⟨h.slots, h.tokens⟩]
  refine ⟨hwords, hcomments, fun hnone => ?_⟩
  rw [hwords, expectedArgs, hnone]
  rfl

/-- The words of an argument line with a NUL are not among those that are read. -/
theorem noNul_of_words {text : List Char}
    (h : (keptOf text).flatMap (strtok ' ') = expectedArgs text) :
    ∀ line ∈ argLines text, '\x00' ∉ line := by
  intro line hline hnul
  have hdelim : '\x00' ≠ ' ' := by decide
  obtain ⟨token, htoken, hmem⟩ := (mem_strtok hdelim line).mpr hnul
  have hexpected : token ∈ expectedArgs text := List.mem_flatMap.mpr ⟨line, hline, htoken⟩
  rw [← h] at hexpected
  obtain ⟨t, ht, htok⟩ := List.mem_flatMap.mp hexpected
  exact nul_notMem_kept ht ((mem_strtok hdelim t).mp ⟨token, htok, hmem⟩)

theorem readable_of_faithful {stack : Stack} {text : List Char} (h : Faithful stack text) :
    Readable stack text := by
  have hcomments : ∀ line ∈ text.splitOn '\n', line.head? = some '#' →
      ∀ part ∈ blocks (argsSize - 1) line, part.head? = some '#' ∨ ∀ c ∈ cString part, c = ' ' :=
    fun line hline hhead => argsOfLine_eq_nil_iff.mp (h.comments line hline hhead)
  have hwords := h.words
  rw [readArgsFromFile_eq] at hwords
  split at hwords
  next hroom =>
    split at hwords
    next hnone =>
      have hexpected : expectedArgs text = [] := by rw [expectedArgs, argLines_eq_nil hnone]; rfl
      split at hwords
      next hnul =>
        rw [storeArgs_eq 1 _ (by decide)] at hwords
        split at hwords
        next =>
          have hblank := Option.some.inj hwords
          rw [hexpected, strtok_eq_nil_iff] at hblank
          refine ⟨?_, hcomments, hroom, ?_, ?_, fun _ => ⟨hnul, hblank⟩⟩
          · rw [argLines_eq_nil hnone]
            exact fun line hline => absurd hline List.not_mem_nil
          · rw [hexpected]
            decide
          · rw [hexpected]
            exact fun arg harg => absurd harg List.not_mem_nil
        next => cases hwords
      next => cases hwords
    next hsome =>
      rw [storeArgs_eq 1 _ (by decide)] at hwords
      split at hwords
      next hfit =>
        have heq := Option.some.inj hwords
        rw [heq] at hfit
        exact ⟨noNul_of_words heq, hcomments, hroom, hfit.1, hfit.2,
          fun hnone => absurd hnone hsome⟩
      next => cases hwords
  next => cases hwords

/-- The argument file is read as it is meant if and only if it is readable. -/
theorem faithful_iff (stack : Stack) (text : List Char) :
    Faithful stack text ↔ Readable stack text :=
  ⟨readable_of_faithful, faithful_of_readable⟩

/-- An array of NULs. -/
def cleared : Stack where
  chars := List.replicate argsSize '\x00'
  length_eq := List.length_replicate

/-- A comment of 254 characters with more behind them. -/
def longComment : List Char := '#' :: List.replicate 253 'x' ++ "-p".toList

/-- The end of a long comment becomes an argument. -/
theorem longComment_not_faithful : ¬ Faithful cleared (longComment ++ ['\n']) := by
  intro h
  have hfirst : ('#' :: List.replicate 253 'x').length = argsSize - 1 := by
    rw [List.length_cons, List.length_replicate]
    rfl
  have hpart : "-p".toList ∈ blocks (argsSize - 1) longComment := by
    rw [longComment, blocks_append (by decide) hfirst, blocks_of_length_le (by decide) (by decide)]
    exact List.mem_cons_of_mem _ (List.mem_singleton.mpr rfl)
  have hline : longComment ∈ (longComment ++ ['\n']).splitOn '\n' := by
    rw [List.splitOn_append_cons_self_of_not_mem (by decide)]
    exact List.mem_cons_self
  rcases (readable_of_faithful h).comments longComment hline rfl _ hpart with hhead | hblank
  · exact absurd hhead (by decide)
  · exact absurd (hblank '-' List.mem_cons_self) (by decide)

end Dotqoo.Config
