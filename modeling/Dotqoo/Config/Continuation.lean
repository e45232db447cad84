import Mathlib.Data.List.Basic
import Dotqoo.Config.CfgFile

/-!
# Lines broken by backslash-newline

What the reading loop makes of a line of at most 2046 characters that is broken
over several physical lines. It reads the joined line, with one exception: a
continuation is read with a size one less than the room there is, and when the
characters so far are 2045 at a break that is not the first, only the backslash
fits and the newline behind it is read as a continuation of its own. The line ends
there. What is left of it, at most one character, is read as a line and says
nothing.

`Reads val text rest` is the form all this is put in: wherever the loop is with
`text` before it, it gets to `rest`, and each directive that had no value has the
one `val` gives.
-/

namespace Dotqoo.Config

open Dotqoo.Lib

/-- Parts of a line with a backslash-newline between each two. -/
def broken : List Char → List (List Char) → List Char
  | part, [] => part
  | part, next :: parts => part ++ '\\' :: '\n' :: broken next parts

/-- A broken line and what comes behind it, up to the first break. -/
theorem broken_cons_append (part next : List Char) (parts : List (List Char)) (t : List Char) :
    broken part (next :: parts) ++ t = part ++ '\\' :: '\n' :: (broken next parts ++ t) := by
  simp [broken]

/-- No character that ends a line or breaks it. -/
def Unbroken (s : List Char) : Prop := ∀ c ∈ s, c ≠ '\n' ∧ c ≠ '\\'

/-- A part of a line before its comment: no NUL either. -/
def Visible (s : List Char) : Prop := ∀ c ∈ s, c ≠ '\n' ∧ c ≠ '\\' ∧ c ≠ '\x00'

theorem Unbroken.append {s t : List Char} (hs : Unbroken s) (ht : Unbroken t) :
    Unbroken (s ++ t) := fun c hc => (List.mem_append.mp hc).elim (hs c) (ht c)

theorem Visible.append {s t : List Char} (hs : Visible s) (ht : Visible t) :
    Visible (s ++ t) := fun c hc => (List.mem_append.mp hc).elim (hs c) (ht c)

theorem Visible.left {s t : List Char} (h : Visible (s ++ t)) : Visible s :=
  fun c hc => h c (List.mem_append_left t hc)

theorem Visible.right {s t : List Char} (h : Visible (s ++ t)) : Visible t :=
  fun c hc => h c (List.mem_append_right s hc)

theorem Visible.unbroken {s : List Char} (h : Visible s) : Unbroken s :=
  fun c hc => ⟨(h c hc).1, (h c hc).2.1⟩

theorem Unbroken.newline {s : List Char} (h : Unbroken s) : '\n' ∉ s :=
  fun hc => (h _ hc).1 rfl

theorem Unbroken.backslash {s : List Char} (h : Unbroken s) : '\\' ∉ s :=
  fun hc => (h _ hc).2 rfl

/-! ## C strings in the buffer -/

theorem cString_append {s : List Char} (h : Visible s) (t : List Char) :
    cString (s ++ t) = s ++ cString t := by
  apply List.takeWhile_append_of_pos
  intro c hc
  simpa using (h c hc).2.2

theorem cString_visible {s : List Char} (h : Visible s) : cString s = s := by
  have := cString_append h []
  simpa [cString] using this

theorem mem_of_mem_cString {s : List Char} {c : Char} (h : c ∈ cString s) : c ∈ s :=
  (List.takeWhile_prefix _).subset h

theorem mem_of_mem_stripNewlines {s : CString} {c : Char} (h : c ∈ stripNewlines s) : c ∈ s := by
  cases s with
  | nil => exact h
  | cons a s =>
    rcases List.mem_cons.mp h with rfl | hc
    · exact List.mem_cons_self
    · exact List.mem_cons_of_mem a ((List.rdropWhile_prefix _ s).subset hc)

/-- What a line says does not depend on newlines at its end. -/
theorem cutComment_stripNewlines (s : CString) : cutComment (stripNewlines s) = cutComment s :=
  takeWhile_trimRight (fun c hc => by simp [of_decide_eq_true hc]) s

/-- What a line says, as it stands in the file. -/
def content (s : List Char) : CString := cutComment (cString s)

theorem content_newline (s t : List Char) : content (s ++ '\n' :: t) = content s := by
  unfold content cutComment cString
  rw [List.takeWhile_takeWhile, List.takeWhile_takeWhile]
  exact takeWhile_append_stop s fun c hc => by cases hc; rfl

/-! ## One physical line

`line` is what stands before the backslash the next physical line is read over. -/

theorem stripNewlines_append {s newlines : List Char} (hs : '\n' ∉ s) (hne : s ≠ [])
    (h : ∀ c ∈ newlines, c = '\n') : stripNewlines (s ++ newlines) = s := by
  apply trimRight_append hne
  · intro c hc
    have hmem := List.mem_of_getLast? hc
    exact decide_eq_false fun heq => hs (heq ▸ hmem)
  · intro c hc
    exact decide_eq_true (h c hc)

theorem stripNewlines_newline {s : List Char} (hs : '\n' ∉ s) (hne : s ≠ []) :
    stripNewlines (s ++ ['\n']) = s := stripNewlines_append hs hne (by simp)

theorem stripNewlines_self {s : List Char} (hs : '\n' ∉ s) : stripNewlines s = s := by
  by_cases hne : s = []
  · rw [hne]
    rfl
  · have hstrip : stripNewlines (s ++ []) = s := stripNewlines_append hs hne (by simp)
    rwa [List.append_nil] at hstrip

/-- The text of a logical line and what follows it: a newline and the rest of the
file, or the end of the file. -/
inductive Ends (text : List Char) : List Char → List Char → Prop
  | newline (rest : List Char) : Ends text ('\n' :: rest) rest
  | eof {c : Char} : text.getLast? = some c → c ≠ '\n' → Ends text [] []

theorem Ends.next {part text tl rest : List Char} (h : Ends (part ++ '\\' :: '\n' :: text) tl rest) :
    Ends text tl rest := by
  cases h with
  | newline => exact .newline _
  | @eof c hc hne =>
    refine .eof (c := c) ?_ hne
    rw [List.getLast?_append_cons, List.getLast?_cons_cons, List.getLast?_cons] at hc
    cases hlast : text.getLast? with
    | none =>
      rw [hlast] at hc
      cases hc
      exact absurd rfl hne
    | some d =>
      rw [hlast] at hc
      exact hc

theorem Ends.prepend {text tl rest : List Char} (h : Ends text tl rest) (s : List Char) :
    Ends (s ++ text) tl rest := by
  cases h with
  | newline => exact .newline _
  | eof hc hne => exact .eof (by rw [List.getLast?_append, hc, Option.some_or]) hne

/-- A line with no break at its end is complete. -/
theorem continueLine_final {line x : List Char} (hline : Visible line) (hx : '\\' ∉ x)
    (text : List Char) : ∃ l, continueLine (stripNewlines (line ++ cString x)) text = (l, text) ∧
      cutComment l = content (line ++ x) := by
  refine ⟨_, continueLine_stop ?_ text, ?_⟩
  · intro hc
    rcases List.mem_append.mp (mem_of_mem_stripNewlines hc) with hc | hc
    · exact hline.unbroken.backslash hc
    · exact hx (mem_of_mem_cString hc)
  · rw [cutComment_stripNewlines, content, cString_append hline]

/-- A break that fits with its newline. -/
theorem continueLine_next {line part : List Char} (h : Visible (line ++ part))
    (hlen : (line ++ part).length ≤ 2044) (text : List Char) :
    continueLine (line ++ ['\\']) (part ++ '\\' :: '\n' :: text)
      = continueLine (line ++ part ++ ['\\']) text := by
  rw [List.length_append] at hlen
  have hnl : '\n' ∉ part ++ ['\\'] := by
    simpa using h.right.unbroken.newline
  have hread := fgets_line (maxConfigLine - (line.length + 1)) text hnl (by
    rw [List.length_append, maxConfigLine]
    show part.length + 1 + 1 < _
    omega)
  rw [List.append_cons part, continueLine_read hread, List.append_assoc part,
    cString_append h.right]
  have hstrip : stripNewlines (line ++ (part ++ ['\\', '\n'])) = line ++ part ++ ['\\'] := by
    have hsplit : line ++ (part ++ ['\\', '\n']) = line ++ part ++ ['\\'] ++ ['\n'] := by simp
    rw [hsplit]
    exact stripNewlines_newline (by simpa using h.unbroken.newline) (by simp)
  show continueLine (stripNewlines (line ++ (part ++ ['\\', '\n']))) text = _
  rw [hstrip]

/-- A break of which only the backslash fits: the line ends. -/
theorem continueLine_cut {line part : List Char} (h : Visible (line ++ part))
    (hlen : (line ++ part).length = 2045) (text : List Char) :
    continueLine (line ++ ['\\']) (part ++ '\\' :: '\n' :: text) = (line ++ part, text) := by
  have hne : line ++ part ≠ [] := fun h => by simp [h] at hlen
  rw [List.length_append] at hlen
  have hnl : '\n' ∉ part ++ ['\\'] := by
    simpa using h.right.unbroken.newline
  have hread := fgets_full (maxConfigLine - (line.length + 1)) ('\n' :: text) hnl (by
    rw [List.length_append, maxConfigLine]
    show part.length + 1 + 1 = _
    omega)
  -- the newline is left over, and read as the next continuation
  have hrest : fgets (maxConfigLine - ((line ++ part).length + 1)) ([] ++ '\n' :: text)
      = some (cString ([] ++ ['\n']), text) := by
    apply fgets_line _ text (by simp)
    rw [List.length_append, hlen, maxConfigLine]
    decide
  have hstrip : stripNewlines (line ++ cString (part ++ ['\\'])) = line ++ part ++ ['\\'] := by
    rw [cString_append h.right, ← List.append_assoc]
    show stripNewlines (line ++ part ++ ['\\']) = line ++ part ++ ['\\']
    exact stripNewlines_self (by simpa using h.unbroken.newline)
  rw [List.append_cons part, continueLine_read hread, hstrip]
  show continueLine (line ++ part ++ ['\\']) ([] ++ '\n' :: text) = _
  rw [continueLine_read hrest]
  show continueLine (stripNewlines (line ++ part ++ ['\n'])) text = _
  rw [stripNewlines_newline h.unbroken.newline hne]
  exact continueLine_stop h.unbroken.backslash text

/-- The characters fill the buffer. -/
theorem continueLine_full {line part : List Char} (hline : Visible line) (hpart : Unbroken part)
    (hlen : (line ++ part).length = 2046) (text : List Char) :
    ∃ l, continueLine (line ++ ['\\']) (part ++ text) = (l, text) ∧
      cutComment l = content (line ++ part) := by
  rw [List.length_append] at hlen
  have hread := fgets_full (maxConfigLine - (line.length + 1)) text hpart.newline (by
    rw [maxConfigLine]
    omega)
  rw [continueLine_read hread]
  exact continueLine_final hline hpart.backslash text

/-- The last physical line, with room for its newline. -/
theorem continueLine_last {line part tl rest : List Char} (hline : Visible line)
    (hpart : Unbroken part) (hlen : (line ++ part).length ≤ 2045) (hend : Ends part tl rest) :
    ∃ l, continueLine (line ++ ['\\']) (part ++ tl) = (l, rest) ∧
      cutComment l = content (line ++ part) := by
  rw [List.length_append] at hlen
  cases hend with
  | newline =>
    have hread := fgets_line (maxConfigLine - (line.length + 1)) rest hpart.newline (by
      rw [maxConfigLine]
      omega)
    rw [continueLine_read hread, ← content_newline (line ++ part) [], List.append_assoc]
    exact continueLine_final hline (by simpa using hpart.backslash) rest
  | eof hc =>
    have hne : part ≠ [] := fun h => by simp [h] at hc
    have hread := fgets_end (maxConfigLine - (line.length + 1)) hpart.newline hne (by
      rw [maxConfigLine]
      omega)
    rw [List.append_nil, continueLine_read hread]
    exact continueLine_final hline hpart.backslash []

/-! ## The start of a line -/

theorem readLine_eq {text left : List Char} {line : CString}
    (h : fgets maxConfigLine text = some (line, left)) :
    readLine text = some (continueLine (stripNewlines line) left) := by
  rw [readLine, h]
  rfl

/-- A first break that fits with its newline. -/
theorem readLine_next {part : List Char} (h : Visible part) (hlen : part.length ≤ 2045)
    (text : List Char) :
    readLine (part ++ '\\' :: '\n' :: text) = some (continueLine (part ++ ['\\']) text) := by
  have hnl : '\n' ∉ part ++ ['\\'] := by simpa using h.unbroken.newline
  have hread := fgets_line maxConfigLine text hnl (by
    rw [List.length_append, maxConfigLine]
    show part.length + 1 + 1 < _
    omega)
  rw [List.append_cons part, readLine_eq hread, List.append_assoc part, cString_append h]
  show some (continueLine (stripNewlines (part ++ ['\\', '\n'])) text) = _
  have hstrip : stripNewlines (part ++ ['\\', '\n']) = part ++ ['\\'] := by
    rw [List.append_cons part]
    exact stripNewlines_newline hnl (by simp)
  rw [hstrip]

/-- A first break of which only the backslash fits: nothing is read over it. -/
theorem readLine_full {part : List Char} (h : Visible part) (hlen : part.length = 2046)
    (text : List Char) :
    readLine (part ++ '\\' :: '\n' :: text) = some (part, '\n' :: text) := by
  have hnl : '\n' ∉ part ++ ['\\'] := by simpa using h.unbroken.newline
  have hread := fgets_full maxConfigLine ('\n' :: text) hnl (by
    rw [List.length_append, hlen]
    rfl)
  have hrest : fgets (maxConfigLine - (part.length + 1)) ('\n' :: text)
      = some ([], '\n' :: text) := by
    rw [hlen]
    rfl
  rw [List.append_cons part, readLine_eq hread, cString_append h]
  show some (continueLine (stripNewlines (part ++ ['\\'])) ('\n' :: text)) = _
  rw [stripNewlines_self hnl, continueLine_read hrest, List.append_nil,
    stripNewlines_self h.unbroken.newline, continueLine_stop h.unbroken.backslash]

/-- A line that is not broken. -/
theorem readLine_last {part tl rest : List Char} (hpart : Unbroken part)
    (hlen : part.length ≤ 2046) (hend : Ends part tl rest) :
    ∃ l, readLine (part ++ tl) = some (l, rest) ∧ cutComment l = content part := by
  have hvoid : Visible [] := fun c hc => absurd hc (List.not_mem_nil)
  cases hend with
  | newline =>
    have hread := fgets_line maxConfigLine rest hpart.newline (by
      rw [maxConfigLine]
      omega)
    obtain ⟨l, hl, hcut⟩ := continueLine_final hvoid (x := part ++ ['\n'])
      (by simpa using hpart.backslash) rest
    refine ⟨l, ?_, hcut.trans (content_newline part [])⟩
    rw [readLine_eq hread]
    exact congrArg some hl
  | eof hc =>
    have hne : part ≠ [] := fun h => by simp [h] at hc
    have hread := fgets_end maxConfigLine hpart.newline hne (by
      rw [maxConfigLine]
      omega)
    obtain ⟨l, hl, hcut⟩ := continueLine_final hvoid hpart.backslash []
    refine ⟨l, ?_, hcut⟩
    rw [List.append_nil, readLine_eq hread]
    exact congrArg some hl

/-! ## What is read of a text -/

/-- With `text` before it the loop gets to `rest`, and `val` is what the directives
without a value have then. -/
def Reads (val : CString → Option CString) (text rest : List Char) : Prop :=
  ∀ (f : CString) (i : Nat) (r : Reading), ∃ (i' : Nat) (r' : Reading),
    readLines f i text r = readLines f i' rest r' ∧ ∀ d ∈ configDirectives,
      configGetString r'.config d = (configGetString r.config d).or (val d)

/-- Nothing in a text is a setting. -/
abbrev Skips (text rest : List Char) : Prop := Reads (fun _ => none) text rest

theorem Reads.refl (text : List Char) : Skips text text :=
  fun _ i r => ⟨i, r, rfl, fun d _ => by simp⟩

theorem Reads.trans {v w : CString → Option CString} {a b c : List Char} (h : Reads v a b)
    (h' : Reads w b c) : Reads (fun d => (v d).or (w d)) a c := by
  intro f i r
  obtain ⟨i₁, r₁, h₁, hget₁⟩ := h f i r
  obtain ⟨i₂, r₂, h₂, hget₂⟩ := h' f i₁ r₁
  refine ⟨i₂, r₂, h₁.trans h₂, fun d hd => ?_⟩
  rw [hget₂ d hd, hget₁ d hd, Option.or_assoc]

theorem Reads.skip {v : CString → Option CString} {a b c : List Char} (h : Reads v a b)
    (h' : Skips b c) : Reads v a c := by
  have := h.trans h'
  simpa using this

theorem Reads.congr {v w : CString → Option CString} {text rest : List Char}
    (h : Reads v text rest) (hvw : ∀ d ∈ configDirectives, v d = w d) : Reads w text rest := by
  intro f i r
  obtain ⟨i', r', hr, hget⟩ := h f i r
  refine ⟨i', r', hr, fun d hd => ?_⟩
  rw [hget d hd, hvw d hd]

theorem cutComment_content (s : List Char) : cutComment (content s) = content s := by
  rw [content, cutComment, cutComment, List.takeWhile_takeWhile]
  simp only [and_self, Bool.decide_eq_true]

theorem lineValue_of_content {line : CString} {s : List Char} (h : cutComment line = content s)
    (d : CString) : lineValue line d = lineValue (content s) d := by
  unfold lineValue splitLine
  rw [cutComment_content, h]

theorem Reads.of_readLine {text left s : List Char} {line : CString}
    (h : readLine text = some (line, left)) (hline : cutComment line = content s) :
    Reads (lineValue (content s)) text left := by
  intro f i r
  refine ⟨i + 1, storeLine f i r line, readLines_of_readLine h, fun d hd => ?_⟩
  rw [configGetString_storeLine f i r line hd, lineValue_of_content hline]

/-- One character is no setting. -/
theorem lineValue_short {s : List Char} (hlen : s.length ≤ 1) (d : CString) :
    lineValue (content s) d = none := by
  have hcut : (cutComment (content s)).length ≤ 1 :=
    ((List.takeWhile_prefix _).length_le.trans ((List.takeWhile_prefix _).length_le.trans
      (List.takeWhile_prefix _).length_le)).trans hlen
  have hsplit : splitLine (content s) = none := by
    unfold splitLine
    generalize cutComment (content s) = line at hcut
    match line, hcut with
    | [], _ => rfl
    | [c], _ =>
      by_cases hc : c = ':'
      · rw [hc]
        rfl
      · rw [List.dropWhile_cons_of_pos (by simpa using hc)]
        rfl
  rw [lineValue, hsplit]
  rfl

/-! ## Lines far from the limit -/

theorem continueLine_short {tail tl rest : List Char} (htail : Unbroken tail) :
    ∀ {parts : List (List Char)} {line part : List Char},
      Visible (line ++ part ++ parts.flatten) →
      (line ++ part ++ parts.flatten ++ tail).length ≤ 2044 →
      Ends (broken part parts ++ tail) tl rest →
      ∃ l, continueLine (line ++ ['\\']) (broken part parts ++ tail ++ tl) = (l, rest) ∧
        cutComment l = content (line ++ part ++ parts.flatten ++ tail) := by
  intro parts
  induction parts with
  | nil =>
    intro line part hvis hlen hend
    rw [List.flatten_nil, List.append_nil] at hvis hlen ⊢
    rw [List.append_assoc line] at hlen ⊢
    show ∃ l, continueLine (line ++ ['\\']) (part ++ tail ++ tl) = (l, rest) ∧ _
    exact continueLine_last hvis.left (hvis.right.unbroken.append htail) (by omega) hend
  | cons next parts ih =>
    intro line part hvis hlen hend
    have hflat : line ++ part ++ (next :: parts).flatten = line ++ part ++ next ++ parts.flatten := by
      simp
    rw [hflat] at hvis hlen ⊢
    rw [broken_cons_append] at hend ⊢
    obtain ⟨l, hl, hcut⟩ := ih hvis hlen hend.next
    refine ⟨l, ?_, hcut⟩
    have hfit : (line ++ part).length ≤ 2044 := by
      simp only [List.length_append] at hlen ⊢
      omega
    have hstep := continueLine_next hvis.left.left hfit (broken next parts ++ tail ++ tl)
    rw [← hl, ← hstep]
    simp

/-- What is left of a line at its limit says nothing. -/
theorem skips_short (part : List Char) (parts : List (List Char)) {tail tl rest : List Char}
    (hvis : Visible (part ++ parts.flatten)) (htail : Unbroken tail)
    (hlen : (part ++ parts.flatten ++ tail).length ≤ 1)
    (hend : Ends (broken part parts ++ tail) tl rest) :
    Skips (broken part parts ++ tail ++ tl) rest := by
  have hread : ∃ l, readLine (broken part parts ++ tail ++ tl) = some (l, rest) ∧
      cutComment l = content (part ++ parts.flatten ++ tail) := by
    cases parts with
    | nil =>
      rw [List.flatten_nil, List.append_nil] at hvis hlen ⊢
      show ∃ l, readLine (part ++ tail ++ tl) = some (l, rest) ∧ _
      exact readLine_last (hvis.unbroken.append htail) (by omega) hend
    | cons next parts =>
      have hflat : part ++ (next :: parts).flatten = part ++ next ++ parts.flatten := by simp
      rw [hflat] at hvis hlen ⊢
      rw [broken_cons_append] at hend ⊢
      obtain ⟨l, hl, hcut⟩ := continueLine_short htail hvis (by omega) hend.next
      refine ⟨l, ?_, hcut⟩
      have hfit : part.length ≤ 2045 := by
        simp only [List.length_append] at hlen
        omega
      have hstep := readLine_next hvis.left.left hfit (broken next parts ++ tail ++ tl)
      rw [← hl, ← hstep]
      simp
  obtain ⟨l, hl, hcut⟩ := hread
  exact (Reads.of_readLine hl hcut).congr fun d _ => lineValue_short hlen d

/-! ## Lines up to the limit -/

/-- With `len` characters before the first break of `parts`: a break has 2045
characters before it and one behind it. -/
def EndsEarly (len : Nat) (parts : List (List Char)) (tail : List Char) : Prop :=
  ∃ front back, parts = front ++ back ∧ back ≠ [] ∧ len + front.flatten.length = 2045 ∧
    (back.flatten ++ tail).length = 1

theorem EndsEarly.length {len : Nat} {parts : List (List Char)} {tail : List Char}
    (h : EndsEarly len parts tail) : len + parts.flatten.length + tail.length = 2046 := by
  obtain ⟨front, back, rfl, -, hfront, hback⟩ := h
  rw [List.length_append] at hback
  rw [List.flatten_append, List.length_append]
  omega

theorem not_endsEarly_nil {len : Nat} {tail : List Char} : ¬ EndsEarly len [] tail := by
  intro ⟨front, back, hsplit, hback, _⟩
  exact hback (List.append_eq_nil_iff.mp hsplit.symm).2

theorem endsEarly_cons {len : Nat} {part : List Char} {parts : List (List Char)}
    {tail : List Char} (hlen : len ≠ 2045) :
    EndsEarly len (part :: parts) tail ↔ EndsEarly (len + part.length) parts tail := by
  constructor
  · intro ⟨front, back, hsplit, hne, hfront, hback⟩
    cases front with
    | nil => exact absurd hfront hlen
    | cons first front =>
      rw [List.cons_append] at hsplit
      injection hsplit with hfirst hrest
      refine ⟨front, back, hrest, hne, ?_, hback⟩
      rw [List.flatten_cons, List.length_append, ← hfirst] at hfront
      omega
  · intro ⟨front, back, hsplit, hne, hfront, hback⟩
    refine ⟨part :: front, back, by rw [hsplit, List.cons_append], hne, ?_, hback⟩
    rw [List.flatten_cons, List.length_append]
    omega

/-- What is read of a joined line: all of it, or all but its last character. -/
structure Kept (joined : List Char) (early : Prop) (line : CString) : Prop where
  whole : ¬ early → cutComment line = content joined
  short : early → cutComment line = content joined.dropLast

theorem Ends.skips {text tl rest : List Char} (h : Ends text tl rest) : Skips tl rest := by
  have hvoid : ∀ {s : List Char}, s = [] → Visible s := by
    intro s hs c hc
    rw [hs] at hc
    exact absurd hc (List.not_mem_nil)
  cases h with
  | newline =>
    have hempty : Unbroken [] := (hvoid rfl).unbroken
    exact skips_short [] [] (hvoid rfl) hempty (Nat.zero_le 1) (.newline rest)
  | eof => exact Reads.refl []

/-- The line ends at a break; the few characters behind it are skipped. -/
theorem kept_at_break {joined rem : List Char} {early : Prop} (hvis : Visible joined)
    (hrem : rem.length = 1 ∨ rem = []) (hearly : early ↔ rem.length = 1) :
    Kept (joined ++ rem) early joined := by
  have hcontent : cutComment joined = content joined := by rw [content, cString_visible hvis]
  constructor
  · intro hno
    rcases hrem with hone | hnil
    · exact absurd (hearly.mpr hone) hno
    · rw [hnil, List.append_nil]
      exact hcontent
  · intro h
    obtain ⟨c, rfl⟩ := List.length_eq_one_iff.mp (hearly.mp h)
    rw [List.dropLast_concat]
    exact hcontent

theorem continueLine_broken {tail tl rest : List Char} (htail : Unbroken tail) :
    ∀ {parts : List (List Char)} {line part : List Char},
      Visible (line ++ part ++ parts.flatten) → line.length ≤ 2045 →
      (line ++ part ++ parts.flatten ++ tail).length ≤ 2046 →
      Ends (broken part parts ++ tail) tl rest →
      ∃ l left, continueLine (line ++ ['\\']) (broken part parts ++ tail ++ tl) = (l, left) ∧
        Kept (line ++ part ++ parts.flatten ++ tail)
          (EndsEarly (line ++ part).length parts tail) l ∧ Skips left rest := by
  intro parts
  induction parts with
  | nil =>
    intro line part hvis _ hlen hend
    rw [List.flatten_nil, List.append_nil] at hvis hlen ⊢
    rw [List.append_assoc line] at hlen ⊢
    show ∃ l left, continueLine (line ++ ['\\']) (part ++ tail ++ tl) = (l, left) ∧ _
    have hpart : Unbroken (part ++ tail) := hvis.right.unbroken.append htail
    by_cases hfull : (line ++ (part ++ tail)).length ≤ 2045
    · obtain ⟨l, hl, hcut⟩ := continueLine_last hvis.left hpart hfull hend
      exact ⟨l, rest, hl, ⟨fun _ => hcut, fun h => absurd h not_endsEarly_nil⟩, Reads.refl rest⟩
    · obtain ⟨l, hl, hcut⟩ := continueLine_full hvis.left hpart (by omega) tl
      exact ⟨l, tl, hl, ⟨fun _ => hcut, fun h => absurd h not_endsEarly_nil⟩, hend.skips⟩
  | cons next parts ih =>
    intro line part hvis hline hlen hend
    have htl : broken part (next :: parts) ++ tail ++ tl
        = part ++ '\\' :: '\n' :: (broken next parts ++ tail ++ tl) := by
      rw [List.append_assoc, broken_cons_append, List.append_assoc]
    rw [broken_cons_append] at hend
    rw [htl]
    rw [List.flatten_cons] at hvis hlen ⊢
    by_cases hfit : (line ++ part).length ≤ 2044
    · rw [← List.append_assoc (line ++ part)] at hvis hlen ⊢
      obtain ⟨l, left, hl, hkept, hskip⟩ := ih hvis (by omega) hlen hend.next
      refine ⟨l, left, (continueLine_next hvis.left.left hfit _).trans hl, ?_, hskip⟩
      have hearly : EndsEarly (line ++ part).length (next :: parts) tail ↔ _ :=
        endsEarly_cons (by omega)
      rw [← List.length_append] at hearly
      exact ⟨fun h => hkept.whole (hearly.not.mp h), fun h => hkept.short (hearly.mp h)⟩
    · -- what is behind the break
      have hrem : (next ++ parts.flatten ++ tail).length ≤ 2046 - (line ++ part).length := by
        simp only [List.length_append] at hlen hfit ⊢
        omega
      have hjoined : line ++ part ++ (next ++ parts.flatten) ++ tail
          = line ++ part ++ (next ++ parts.flatten ++ tail) := by simp
      rw [hjoined]
      by_cases hcut : (line ++ part).length = 2045
      · refine ⟨_, _, continueLine_cut hvis.left hcut _, ?_,
          skips_short next parts hvis.right htail (by omega) hend.next⟩
        apply kept_at_break hvis.left
        · rcases Nat.le_one_iff_eq_zero_or_eq_one.mp (by omega :
            (next ++ parts.flatten ++ tail).length ≤ 1) with h | h
          · exact Or.inr (List.length_eq_zero_iff.mp h)
          · exact Or.inl h
        · constructor
          · intro h
            have := h.length
            simp only [List.length_append, List.flatten_cons] at this hcut ⊢
            omega
          · intro h
            exact ⟨[], next :: parts, rfl, List.cons_ne_nil _ _, hcut, by
              rw [List.flatten_cons]
              exact h⟩
      · have hall : (line ++ part).length = 2046 := by
          simp only [List.length_append] at hlen hfit hcut ⊢
          omega
        have hnil : next ++ parts.flatten ++ tail = [] :=
          List.length_eq_zero_iff.mp (by omega)
        obtain ⟨l, hl, hcontent⟩ := continueLine_full hvis.left.left hvis.left.right.unbroken hall
          ('\\' :: '\n' :: (broken next parts ++ tail ++ tl))
        refine ⟨l, _, hl, ⟨fun _ => ?_, fun h => ?_⟩, ?_⟩
        · rw [hnil, List.append_nil]
          exact hcontent
        · obtain ⟨front, back, -, -, hfront, -⟩ := h
          omega
        · have hlast : Ends (broken [] (next :: parts) ++ tail) tl rest :=
            hend.next.prepend ['\\', '\n']
          exact skips_short [] (next :: parts) hvis.right htail (by
            rw [List.nil_append, List.flatten_cons, hnil]
            exact Nat.zero_le 1) hlast

/-- A break that is not the first has 2045 characters of the line before it and one
behind it. -/
def LosesLast (part : List Char) (parts : List (List Char)) (tail : List Char) : Prop :=
  ∃ front back, parts = front ++ back ∧ front ≠ [] ∧ back ≠ [] ∧
    (part ++ front.flatten).length = 2045 ∧ (back.flatten ++ tail).length = 1

theorem not_losesLast_nil {part tail : List Char} : ¬ LosesLast part [] tail := by
  intro ⟨front, back, hsplit, hfront, _⟩
  exact hfront (List.append_eq_nil_iff.mp hsplit.symm).1

theorem losesLast_cons {part next tail : List Char} {parts : List (List Char)} :
    LosesLast part (next :: parts) tail ↔ EndsEarly (part ++ next).length parts tail := by
  constructor
  · intro ⟨front, back, hsplit, hfront, hback, hlen, hone⟩
    obtain ⟨first, front, rfl⟩ := List.exists_cons_of_ne_nil hfront
    rw [List.cons_append] at hsplit
    injection hsplit with hfirst hrest
    refine ⟨front, back, hrest, hback, ?_, hone⟩
    rw [hfirst, ← hlen, List.flatten_cons, List.length_append, List.length_append,
      List.length_append, Nat.add_assoc]
  · intro ⟨front, back, hsplit, hback, hlen, hone⟩
    refine ⟨next :: front, back, by rw [hsplit, List.cons_append], List.cons_ne_nil _ _, hback,
      ?_, hone⟩
    rw [← hlen, List.flatten_cons, List.length_append, List.length_append, List.length_append,
      Nat.add_assoc]

/-- **What is read of a broken line**, and that its remains are skipped. -/
theorem readLine_broken {part tail tl rest : List Char} {parts : List (List Char)}
    (hvis : Visible (part ++ parts.flatten)) (htail : Unbroken tail)
    (hlen : (part ++ parts.flatten ++ tail).length ≤ 2046)
    (hend : Ends (broken part parts ++ tail) tl rest) :
    ∃ l left, readLine (broken part parts ++ tail ++ tl) = some (l, left) ∧
      Kept (part ++ parts.flatten ++ tail) (LosesLast part parts tail) l ∧ Skips left rest := by
  cases parts with
  | nil =>
    rw [List.flatten_nil, List.append_nil] at hvis hlen ⊢
    obtain ⟨l, hl, hcut⟩ := readLine_last (hvis.unbroken.append htail) hlen hend
    exact ⟨l, rest, hl, ⟨fun _ => hcut, fun h => absurd h not_losesLast_nil⟩, Reads.refl rest⟩
  | cons next parts =>
    have htl : broken part (next :: parts) ++ tail ++ tl
        = part ++ '\\' :: '\n' :: (broken next parts ++ tail ++ tl) := by
      rw [List.append_assoc, broken_cons_append, List.append_assoc]
    rw [broken_cons_append] at hend
    rw [htl]
    rw [List.flatten_cons, ← List.append_assoc] at hvis hlen ⊢
    by_cases hfit : part.length ≤ 2045
    · obtain ⟨l, left, hl, hkept, hskip⟩ :=
        continueLine_broken htail hvis hfit hlen hend.next
      refine ⟨l, left, ?_, ?_, hskip⟩
      · rw [readLine_next hvis.left.left hfit, hl]
      · exact ⟨fun h => hkept.whole (losesLast_cons.not.mp h),
          fun h => hkept.short (losesLast_cons.mp h)⟩
    · have hall : part.length = 2046 := by
        simp only [List.length_append] at hlen
        omega
      have hnil : next ++ parts.flatten ++ tail = [] := by
        rw [← List.length_eq_zero_iff]
        simp only [List.length_append] at hlen ⊢
        omega
      have hjoined : part ++ next ++ parts.flatten ++ tail
          = part ++ (next ++ parts.flatten ++ tail) := by simp
      rw [hjoined]
      refine ⟨part, _, readLine_full hvis.left.left hall _, ?_, ?_⟩
      · apply kept_at_break hvis.left.left (Or.inr hnil)
        rw [losesLast_cons, hnil]
        constructor
        · intro ⟨front, back, _, _, hfront, _⟩
          rw [List.length_append] at hfront
          omega
        · intro h
          cases h
      · rw [List.append_assoc] at hvis
        have hline := skips_short next parts hvis.right htail
          (by rw [hnil]; exact Nat.zero_le 1) hend.next
        -- the newline of the break is a blank line
        exact (@Ends.newline [] _).skips.skip hline

/-- The settings a broken line makes. -/
theorem reads_broken {part tail tl rest : List Char} {parts : List (List Char)}
    (hvis : Visible (part ++ parts.flatten)) (htail : Unbroken tail)
    (hlen : (part ++ parts.flatten ++ tail).length ≤ 2046)
    (hend : Ends (broken part parts ++ tail) tl rest) :
    (¬ LosesLast part parts tail →
      Reads (lineValue (content (part ++ parts.flatten ++ tail)))
        (broken part parts ++ tail ++ tl) rest) ∧
    (LosesLast part parts tail →
      Reads (lineValue (content (part ++ parts.flatten ++ tail).dropLast))
        (broken part parts ++ tail ++ tl) rest) := by
  obtain ⟨l, left, hl, hkept, hskip⟩ := readLine_broken hvis htail hlen hend
  constructor
  · intro h
    exact (Reads.of_readLine hl (hkept.whole h)).skip hskip
  · intro h
    exact (Reads.of_readLine hl (hkept.short h)).skip hskip

end Dotqoo.Config
