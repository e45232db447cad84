import Dotqoo.Config.ArgsFile

/-!
# What the argument file comes to

`readArgsFromFile_eq` is the function in closed form: the words are the tokens of
the texts that are copied, `keptOf`, if these fit. The texts are those of the
parts of lines that do not begin with `#`, cut at a NUL. So a line of 254
characters or more does not fit if it is an argument line, and is read as several
lines if it is a comment.
-/

namespace Dotqoo.Config

open Dotqoo.Lib

/-- What is copied of a part of a line. -/
def kept (part : List Char) : List CString :=
  if part.head? = some '#' then [] else [cString part]

/-- What is copied of a line. -/
def keptOfLine (line : List Char) : List CString := (blocks (argsSize - 1) line).flatMap kept

/-- What is copied of a file. -/
def keptOf (text : List Char) : List CString := (text.splitOn '\n').flatMap keptOfLine

/-- The texts, a blank behind each. -/
def joined (texts : List CString) : CString := texts.flatMap fun t => t ++ [' ']

/-! ## Reading -/

theorem head?_cString (c : Char) (rest : List Char) :
    (cString (c :: rest)).head? = if c = '\x00' then none else some c := by
  by_cases hc : c = '\x00'
  · simp [cString, hc]
  · simp [cString, hc]

/-- Without the newline, a C string shows the part of the line in front of it. -/
theorem takeWhile_cString {part : List Char} (tail : List Char) (hnl : '\n' ∉ part)
    (htail : tail = [] ∨ tail = ['\n']) :
    (cString (part ++ tail)).takeWhile (fun c => c ≠ '\n') = cString part := by
  show untilMark '\n' (untilMark '\x00' (part ++ tail)) = untilMark '\x00' part
  have hcut : '\n' ∉ untilMark '\x00' part := fun h =>
    hnl ((List.takeWhile_sublist _).subset h)
  by_cases hnul : '\x00' ∈ part
  · obtain ⟨rest, he⟩ := eq_untilMark_append hnul
    have hfree := mark_notMem_untilMark '\x00' part
    have hsame : untilMark '\x00' (part ++ tail) = untilMark '\x00' part := by
      conv => lhs; rw [he, List.append_assoc, List.cons_append, untilMark_append hfree]
      simp
    rw [hsame, untilMark_of_not_mem hcut]
  · rw [untilMark_append hnul, untilMark_of_not_mem hnul, untilMark_append hnl]
    rcases htail with rfl | rfl
    · simp
    · have hnewline : untilMark '\x00' ['\n'] = ['\n'] := by decide
      rw [hnewline, untilMark_mark, List.append_nil]

/-- The body of the loop, for a part of a line with or without its newline. -/
theorem readLine_part (b : ArgsBuffer) {part tail : List Char} (hnl : '\n' ∉ part)
    (hlen : part.length ≤ argsSize - 1) (htail : part ≠ [] ∧ tail = [] ∨ tail = ['\n']) :
    b.readLine (cString (part ++ tail)) = (keptOfLine part).foldlM ArgsBuffer.append b := by
  cases part with
  | nil =>
    rcases htail with ⟨hne, -⟩ | rfl
    · exact absurd rfl hne
    · have hbuff : cString ([] ++ ['\n']) = ['\n'] := by decide
      have hskip : ['\n'].head? = some '#' ∨ ['\n'].head? = some '\n' := Or.inr rfl
      rw [hbuff, ArgsBuffer.readLine, if_pos hskip, keptOfLine, blocks_nil]
      rfl
  | cons c rest =>
    have hblocks : keptOfLine (c :: rest) = kept (c :: rest) := by
      rw [keptOfLine, blocks_of_length_le (List.cons_ne_nil c rest) hlen, List.flatMap_singleton]
    have hc : c ≠ '\n' := fun h => hnl (h ▸ List.mem_cons_self)
    have hcut := takeWhile_cString tail hnl (htail.imp And.right id)
    have hhead : (cString (c :: rest ++ tail)).head? = if c = '\x00' then none else some c :=
      head?_cString c (rest ++ tail)
    rw [hblocks, ArgsBuffer.readLine, hhead, hcut, kept, List.head?_cons]
    by_cases hcomment : c = '#'
    · rw [hcomment]
      rfl
    · have hskip : ¬ ((if c = '\x00' then none else some c) = some '#'
          ∨ (if c = '\x00' then none else some c) = some '\n') := by
        split
        next => simp
        next => simp [hcomment, hc]
      rw [if_neg hskip, if_neg (by simpa using hcomment)]
      simp only [List.foldlM_cons, List.foldlM_nil, bind_pure]

theorem splitOn_append {first : List Char} (hnl : '\n' ∉ first) (rest : List Char) :
    (first ++ rest).splitOn '\n' = (rest.splitOn '\n').modifyHead (first ++ ·) := by
  induction first with
  | nil =>
    rw [List.nil_append]
    cases rest.splitOn '\n' <;> rfl
  | cons c first ih =>
    have hc : c ≠ '\n' := fun h => hnl (h ▸ List.mem_cons_self)
    rw [List.cons_append, List.splitOn_cons_eq_if_modifyHead, if_neg (by simpa using hc),
      ih fun h => hnl (List.mem_cons_of_mem c h), List.modifyHead_modifyHead]
    rfl

/-- What `fgets` takes off a text: a part of a line, with its newline or not. -/
theorem fgets_part {text : List Char} (hne : text ≠ []) :
    ∃ part tail left, fgets argsSize text = some (cString (part ++ tail), left)
      ∧ '\n' ∉ part ∧ part.length ≤ argsSize - 1 ∧ (part ≠ [] ∧ tail = [] ∨ tail = ['\n'])
      ∧ keptOf text = keptOfLine part ++ keptOf left := by
  by_cases hnl : '\n' ∈ text.take (argsSize - 1)
  -- the line ends in time
  · obtain ⟨line, more, htake, hline⟩ := List.eq_append_cons_of_mem hnl
    have htext : text = line ++ '\n' :: (more ++ text.drop (argsSize - 1)) := by
      conv => lhs; rw [← List.take_append_drop (argsSize - 1) text, htake]
      simp
    have hlen : line.length < argsSize - 1 := by
      have h := congrArg List.length htake
      rw [List.length_take, List.length_append, List.length_cons] at h
      omega
    refine ⟨line, ['\n'], more ++ text.drop (argsSize - 1), ?_, hline, by omega, Or.inr rfl, ?_⟩
    · conv => lhs; rw [htext]
      exact fgets_line argsSize _ hline (by omega)
    · conv => lhs; rw [htext, keptOf, List.splitOn_append_cons_self_of_not_mem hline,
        List.flatMap_cons]
      rfl
  · by_cases hlen : text.length < argsSize - 1
    -- the text ends first
    · have hfree : '\n' ∉ text := by
        rwa [List.take_of_length_le (by omega)] at hnl
      refine ⟨text, [], [], ?_, hfree, by omega, Or.inl ⟨hne, rfl⟩, ?_⟩
      · rw [List.append_nil]
        exact fgets_end argsSize hfree hne (by omega)
      · rw [keptOf, List.splitOn_eq_singleton hfree]
        simp [keptOf, keptOfLine]
    -- the buffer is full first
    · have hfull : (text.take (argsSize - 1)).length = argsSize - 1 := by
        rw [List.length_take]
        omega
      have hfgets := fgets_full argsSize (text.drop (argsSize - 1)) hnl (by
        rw [hfull]
        rfl)
      rw [List.take_append_drop] at hfgets
      refine ⟨text.take (argsSize - 1), [], text.drop (argsSize - 1), ?_, hnl, by omega,
        Or.inl ⟨?_, rfl⟩, ?_⟩
      · rw [List.append_nil]
        exact hfgets
      · intro hnil
        rw [hnil] at hfull
        cases hfull
      · obtain ⟨line, others, hsplit⟩ :=
          List.exists_cons_of_ne_nil (List.splitOn_ne_nil '\n' (text.drop (argsSize - 1)))
        have hwhole := splitOn_append hnl (text.drop (argsSize - 1))
        rw [List.take_append_drop, hsplit, List.modifyHead_cons] at hwhole
        have hfirst : keptOfLine (text.take (argsSize - 1)) = kept (text.take (argsSize - 1)) := by
          rw [keptOfLine, blocks_of_length_le ?_ (Nat.le_of_eq hfull), List.flatMap_singleton]
          intro hnil
          rw [hnil] at hfull
          cases hfull
        have hline : keptOfLine (text.take (argsSize - 1) ++ line)
            = kept (text.take (argsSize - 1)) ++ keptOfLine line := by
          rw [keptOfLine, blocks_append (by decide) hfull, List.flatMap_cons, keptOfLine]
        rw [keptOf, hwhole, keptOf, hsplit, List.flatMap_cons, List.flatMap_cons, hline, hfirst,
          List.append_assoc]

/-- The reading loop copies the texts one after the other. -/
theorem readLines_eq (b : ArgsBuffer) (text : List Char) :
    b.readLines text = (keptOf text).foldlM ArgsBuffer.append b := by
  rw [ArgsBuffer.readLines]
  by_cases hne : text = []
  · have hend : fgets argsSize text = none := by
      rw [hne]
      rfl
    have hkept : keptOf text = [] := by
      rw [hne]
      simp [keptOf, keptOfLine]
    rw [hkept]
    split
    next => rfl
    next buff left hsome => exact absurd (hsome ▸ hend) (by simp)
  · obtain ⟨part, tail, left, hread, hnl, hlen, htail, hkept⟩ := fgets_part hne
    have hlt := length_fgets_lt (by decide) hread
    rw [hkept, List.foldlM_append, ← readLine_part b hnl hlen htail]
    split
    next hnone => exact absurd (hnone ▸ hread) (by simp)
    next buff left' hsome =>
      obtain ⟨rfl, rfl⟩ : cString (part ++ tail) = buff ∧ left = left' := by
        simpa [hsome, eq_comm] using hread
      cases b.readLine (cString (part ++ tail)) with
      | none => rfl
      | some b => exact readLines_eq b left
  termination_by text.length

/-! ## Copying -/

/-- `content` is in the array, and `i` stands behind it. -/
structure ArgsBuffer.Holds (b : ArgsBuffer) (content : CString) : Prop where
  length_eq : b.args.length = argsSize
  i_eq : b.i = content.length
  take_eq : b.args.take b.i = content

theorem strcpyAt_some (dest : List Char) (pos : Nat) (src : CString)
    (h : pos + src.length < dest.length) : ∃ rest,
      strcpyAt dest pos src = some (dest.take pos ++ src ++ '\x00' :: rest)
        ∧ (dest.take pos ++ src ++ '\x00' :: rest).length = dest.length := by
  refine ⟨dest.drop (pos + src.length + 1), if_pos h, ?_⟩
  rw [List.length_append, List.length_append, List.length_take, List.length_cons, List.length_drop]
  omega

/-- A text that fits goes behind the content, and the array is ended by a NUL. -/
theorem append_some {b : ArgsBuffer} {content : CString} (hb : b.Holds content) {line : CString}
    (h : (content ++ line ++ [' ']).length < argsSize) : ∃ b', b.append line = some b'
      ∧ b'.Holds (content ++ line ++ [' '])
      ∧ ∃ rest, b'.args = content ++ line ++ [' '] ++ '\x00' :: rest := by
  obtain ⟨hlen, hi, htake⟩ := hb
  rw [List.length_append, List.length_append, List.length_singleton] at h
  obtain ⟨rest, hcopy, hcopied⟩ := strcpyAt_some b.args b.i line (by omega)
  rw [htake] at hcopy hcopied
  obtain ⟨rest', hblank, hblanked⟩ := strcpyAt_some (content ++ line ++ '\x00' :: rest)
    (b.i + line.length) [' '] (by
      rw [hcopied, List.length_singleton]
      omega)
  have hfront : (content ++ line ++ '\x00' :: rest).take (b.i + line.length) = content ++ line :=
    List.take_left' (by rw [List.length_append, hi])
  rw [hfront] at hblank hblanked
  have hcount : (content ++ line ++ [' ']).length = b.i + line.length + 1 := by
    rw [List.length_append, List.length_append, List.length_singleton, hi]
  refine ⟨⟨content ++ line ++ [' '] ++ '\x00' :: rest', b.i + line.length + 1⟩, ?_,
    ⟨?_, hcount.symm, List.take_left' hcount⟩, rest', rfl⟩
  · rw [ArgsBuffer.append, hcopy, Option.bind_eq_bind, Option.bind_some, hblank]
    rfl
  · show (content ++ line ++ [' '] ++ '\x00' :: rest').length = argsSize
    rw [hblanked, hcopied, hlen]

/-- A text that does not fit is written over the end of the array. -/
theorem append_none {b : ArgsBuffer} {content : CString} (hb : b.Holds content) {line : CString}
    (h : argsSize ≤ (content ++ line ++ [' ']).length) : b.append line = none := by
  obtain ⟨hlen, hi, htake⟩ := hb
  rw [List.length_append, List.length_append, List.length_singleton] at h
  rw [ArgsBuffer.append]
  by_cases hfit : b.i + line.length < b.args.length
  · obtain ⟨rest, hcopy, hcopied⟩ := strcpyAt_some b.args b.i line hfit
    rw [hcopy, Option.bind_eq_bind, Option.bind_some, strcpyAt, if_neg (by
      rw [hcopied, List.length_singleton]
      omega)]
    rfl
  · rw [strcpyAt, if_neg hfit]
    rfl

/-- All texts are copied, if there is room for them. -/
theorem foldlM_append_some : ∀ {texts : List CString} {b : ArgsBuffer} {content : CString},
    b.Holds content → (content ++ joined texts).length < argsSize →
      ∃ b', texts.foldlM ArgsBuffer.append b = some b' ∧ (texts = [] → b' = b)
        ∧ (texts ≠ [] → ∃ rest, b'.args = content ++ joined texts ++ '\x00' :: rest) := by
  intro texts
  induction texts with
  | nil => exact fun {b} {_} _ _ => ⟨b, rfl, fun _ => rfl, fun h => absurd rfl h⟩
  | cons text texts ih =>
    intro b content hb hroom
    have hsplit : content ++ joined (text :: texts) = content ++ text ++ [' '] ++ joined texts := by
      simp [joined]
    rw [hsplit] at hroom ⊢
    have hfirst : (content ++ text ++ [' ']).length < argsSize := by
      rw [List.length_append] at hroom
      omega
    obtain ⟨b', happend, hb', rest, hrest⟩ := append_some hb hfirst
    obtain ⟨b'', hfold, hsame, hend⟩ := ih hb' hroom
    refine ⟨b'', ?_, fun h => absurd h (List.cons_ne_nil _ _), fun _ => ?_⟩
    · rw [List.foldlM_cons, happend]
      exact hfold
    · by_cases hlast : texts = []
      · rw [hsame hlast, hlast]
        exact ⟨rest, by rw [hrest, joined, List.flatMap_nil, List.append_nil]⟩
      · exact hend hlast

theorem foldlM_append_none : ∀ {texts : List CString} {b : ArgsBuffer} {content : CString},
    b.Holds content → content.length < argsSize → argsSize ≤ (content ++ joined texts).length →
      texts.foldlM ArgsBuffer.append b = none := by
  intro texts
  induction texts with
  | nil =>
    intro b content _ hlt hle
    rw [joined, List.flatMap_nil, List.append_nil] at hle
    omega
  | cons text texts ih =>
    intro b content hb _ hle
    have hsplit : content ++ joined (text :: texts) = content ++ text ++ [' '] ++ joined texts := by
      simp [joined]
    rw [hsplit] at hle
    rw [List.foldlM_cons]
    by_cases hfirst : (content ++ text ++ [' ']).length < argsSize
    · obtain ⟨b', happend, hb', -⟩ := append_some hb hfirst
      rw [happend]
      exact ih hb' hfirst hle
    · rw [append_none hb (by omega)]
      rfl

/-! ## The closed form -/

theorem nul_notMem_kept {text : List Char} {t : CString} (ht : t ∈ keptOf text) : '\x00' ∉ t := by
  obtain ⟨line, -, hline⟩ := List.mem_flatMap.mp ht
  obtain ⟨part, -, hpart⟩ := List.mem_flatMap.mp hline
  unfold kept at hpart
  split at hpart
  next => exact absurd hpart List.not_mem_nil
  next =>
    rw [List.mem_singleton.mp hpart]
    exact mark_notMem_untilMark '\x00' _

theorem strtok_joined (texts : List CString) :
    strtok ' ' (joined texts) = texts.flatMap (strtok ' ') := by
  induction texts with
  | nil => rfl
  | cons text texts ih =>
    rw [joined, List.flatMap_cons, List.append_assoc, List.singleton_append, strtok_append,
      List.flatMap_cons, ← ih]
    rfl

/-- The words of a file: the tokens of what is copied, if that fits and the
tokens do; where nothing is copied, the tokens of what was in the array. -/
theorem readArgsFromFile_eq (stack : Stack) (text : List Char) :
    readArgsFromFile stack text =
      if (joined (keptOf text)).length < argsSize then
        if keptOf text = [] then
          if '\x00' ∈ stack.chars then storeArgs 1 (strtok ' ' (cString stack.chars)) else none
        else storeArgs 1 ((keptOf text).flatMap (strtok ' '))
      else none := by
  have hstart : ArgsBuffer.Holds ⟨stack.chars, 0⟩ [] := ⟨stack.length_eq, rfl, rfl⟩
  rw [readArgsFromFile, readLines_eq]
  by_cases hroom : (joined (keptOf text)).length < argsSize
  · rw [if_pos hroom]
    obtain ⟨b, hfold, hsame, hend⟩ := foldlM_append_some hstart hroom
    rw [hfold]
    by_cases hnone : keptOf text = []
    · rw [if_pos hnone, hsame hnone]
    · obtain ⟨rest, hargs⟩ := hend hnone
      have hnul : '\x00' ∉ joined (keptOf text) := by
        intro hmem
        obtain ⟨t, ht, hchar⟩ := List.mem_flatMap.mp hmem
        rcases List.mem_append.mp hchar with h | h
        · exact nul_notMem_kept ht h
        · exact absurd h (by decide)
      have hstring : cString (joined (keptOf text) ++ '\x00' :: rest) = joined (keptOf text) := by
        show untilMark '\x00' _ = _
        rw [untilMark_append hnul, untilMark_mark, List.append_nil]
      rw [if_neg hnone]
      simp only [hargs, List.nil_append, hstring, strtok_joined]
      exact if_pos (List.mem_append_right _ List.mem_cons_self)
  · rw [if_neg hroom, foldlM_append_none hstart (by decide) (Nat.le_of_not_lt hroom)]

end Dotqoo.Config
