import Mathlib.Data.List.Basic
import Dotqoo.Config.Continuation

/-!
# Command line before configuration file

The manual gives a configuration file one directive per line, as a name and a
value, and the command line precedence over the file. Here that is a property of
`read_config_file` on files of settings, blank lines, comments and lines for
unknown directives: a directive has its last value from the command line, or the
value of its first line in the file, or none.

The property holds unless the line that decides is cut short: a line of the
greatest length, broken twice or more, with a break right before the last
character of its value. The continuation is read with a size one too small, and
that character is lost.
-/

namespace Dotqoo.Config

open Dotqoo.Lib

/-! ## Lines of the file -/

/-- The longest joined line. -/
def maxJoined : Nat := 2046

/-- A line `key : value # comment`, with blanks around the key, the colon and the
value, and the value in one part or more. The key may be no directive. -/
structure Setting where
  before : List Char
  key : CString
  middle : List Char
  after : List Char
  part : CString
  parts : List CString
  trailing : List Char
  comment : List Char
  blanks : ∀ c ∈ before ++ middle ++ after ++ trailing, isBlank c = true
  keyChars : ∀ c ∈ key, isBlank c = false ∧ c ∉ [':', '#', '\n', '\\', '\x00']
  keyNonempty : key ≠ []
  valueChars : ∀ c ∈ part ++ parts.flatten, c ∉ ['#', '\n', '\\', '\x00']
  noLeading : ∀ c ∈ (part ++ parts.flatten).head?, isBlank c = false
  noTrailing : ∀ c ∈ (part ++ parts.flatten).getLast?, isBlank c = false
  commentHead : ∀ c ∈ comment.head?, c = '#'
  commentChars : Unbroken comment
  lengthLe : (before ++ key ++ middle ++ ':' :: after ++ (part ++ parts.flatten)
    ++ (trailing ++ comment)).length ≤ maxJoined

namespace Setting

/-- The line up to the value. -/
def head (s : Setting) : List Char := s.before ++ s.key ++ s.middle ++ ':' :: s.after

def value (s : Setting) : CString := s.part ++ s.parts.flatten

/-- The line behind the value. -/
def tail (s : Setting) : List Char := s.trailing ++ s.comment

/-- The line in the file, without the newline at its end. -/
def text (s : Setting) : List Char := s.head ++ broken s.part s.parts ++ s.tail

/-- The line ends with its value, and a break of the value that is not the first has
2045 characters of the line before it and one behind it. -/
def CutShort (s : Setting) : Prop :=
  s.tail = [] ∧ ∃ n < s.parts.length, 0 < n ∧
    (s.head ++ s.part ++ (s.parts.take n).flatten).length = 2045 ∧
    (s.parts.drop n).flatten.length = 1

instance (s : Setting) : Decidable s.CutShort := inferInstanceAs (Decidable (_ ∧ _))

/-- What is stored for the setting. -/
def stored (s : Setting) : CString := if s.CutShort then trimValue s.value.dropLast else s.value

end Setting

/-- A blank line, a comment, or a line for an unknown directive: its first word,
which may be empty, is no directive. -/
structure OtherLine where
  before : List Char
  word : CString
  rest : List Char
  blanks : ∀ c ∈ before, isBlank c = true
  wordChars : ∀ c ∈ word, isBlank c = false ∧ c ∉ [':', '#', '\x00']
  restHead : ∀ c ∈ rest.head?, c ∈ [':', '#', '\x00'] ∨ (isBlank c = true ∧ word ≠ [])
  unknown : word ∉ configDirectives
  chars : Unbroken (before ++ word ++ rest)
  lengthLe : (before ++ word ++ rest).length ≤ maxJoined

/-- A logical line. -/
inductive LogicalLine where
  | other (l : OtherLine)
  | setting (s : Setting)

/-- The line in the file, without the newline at its end. -/
def LogicalLine.text : LogicalLine → List Char
  | other l => l.before ++ l.word ++ l.rest
  | setting s => s.text

/-- The setting of a directive in a line. -/
def LogicalLine.settingFor (d : CString) : LogicalLine → Option Setting
  | other _ => none
  | setting s => if s.key = d then some s else none

/-- A file: lines with their newlines, and perhaps a last one without. -/
structure ConfigFile where
  lines : List LogicalLine
  last : Option LogicalLine
  lastEnds : ∀ l ∈ last, ∃ c, l.text.getLast? = some c ∧ c ≠ '\n'

/-- The characters of the file. -/
def ConfigFile.text (file : ConfigFile) : List Char :=
  file.lines.flatMap (fun l => l.text ++ ['\n']) ++ file.last.elim [] LogicalLine.text

/-- The first line for a directive. -/
def ConfigFile.firstFor (file : ConfigFile) (d : CString) : Option Setting :=
  (file.lines ++ file.last.toList).findSome? (LogicalLine.settingFor d)

/-! ## What one line says -/

theorem content_eq (s : List Char) :
    content s = s.takeWhile (fun c => c ∉ ['#', '\n', '\x00']) := by
  unfold content cutComment cString
  rw [List.takeWhile_takeWhile]
  congr 1
  funext c
  simp [Bool.and_assoc]

/-- The part of a line before the comment. -/
theorem content_comment {s comment : List Char} (hs : ∀ c ∈ s, c ∉ ['#', '\n', '\x00'])
    (hcomment : ∀ c ∈ comment.head?, c = '#') : content (s ++ comment) = s := by
  rw [content_eq, takeWhile_append_stop, List.takeWhile_eq_self_iff]
  · intro c hc
    exact decide_eq_true (hs c hc)
  · intro c hc
    rw [hcomment c hc]
    rfl

theorem trimValue_blanks {blanks : List Char} (h : ∀ c ∈ blanks, isBlank c = true)
    (value : CString) : trimValue (blanks ++ value) = trimValue value := by
  rw [trimValue, List.dropWhile_append_of_pos h, trimValue]

theorem trimValue_self {value trailing : List Char} (hhead : ∀ c ∈ value.head?, isBlank c = false)
    (hlast : ∀ c ∈ value.getLast?, isBlank c = false)
    (htrailing : ∀ c ∈ trailing, isBlank c = true) : trimValue (value ++ trailing) = value := by
  cases value with
  | nil =>
    have hnone : ([] ++ trailing).dropWhile isBlank = [] := List.dropWhile_eq_nil_iff.mpr htrailing
    rw [trimValue, hnone]
    rfl
  | cons c value =>
    have hc : ¬ isBlank c = true := by simp [hhead c rfl]
    rw [trimValue, List.cons_append, List.dropWhile_cons_of_neg hc, ← List.cons_append]
    exact trimRight_append (List.cons_ne_nil c value) hlast htrailing

theorem length_trimValue_le (value : CString) : (trimValue value).length ≤ value.length :=
  (length_trimRight_le _ _).trans (List.dropWhile_suffix _).length_le

theorem ne_of_isBlank {b c : Char} (hc : isBlank c = true) (hb : isBlank b = false) : c ≠ b := by
  intro h
  rw [h, hb] at hc
  cases hc

/-- Blanks and key stop at the first character behind the key. -/
theorem firstWord_append {before word rest : List Char} (hbefore : ∀ c ∈ before, isBlank c = true)
    (hword : ∀ c ∈ word, isBlank c = false ∧ c ≠ ':')
    (hrest : ∀ c ∈ rest.head?, c = ':' ∨ (isBlank c = true ∧ word ≠ [])) :
    firstWord (before ++ word ++ rest) = word := by
  have hstart : (word ++ rest).dropWhile isBlank = word ++ rest := by
    cases hhead : (word ++ rest).head? with
    | none =>
      rw [List.head?_eq_none_iff.mp hhead]
      rfl
    | some c =>
      obtain ⟨l, hl⟩ := List.head?_eq_some_iff.mp hhead
      rw [hl, List.dropWhile_cons_of_neg]
      cases word with
      | nil =>
        rcases hrest c hhead with rfl | ⟨-, h⟩
        · decide
        · exact absurd rfl h
      | cons d word =>
        cases hhead
        have hc := (hword c List.mem_cons_self).1
        simp [hc]
  rw [firstWord, List.append_assoc, List.dropWhile_append_of_pos hbefore, hstart,
    takeWhile_append_stop, List.takeWhile_eq_self_iff]
  · intro c hc
    obtain ⟨hblank, hcolon⟩ := hword c hc
    simp [hblank, hcolon]
  · intro c hc
    rcases hrest c hc with rfl | ⟨hblank, -⟩
    · rfl
    · simp [hblank]

section Line

variable (s : Setting)

theorem Setting.head_chars : ∀ c ∈ s.head, c ∉ ['#', '\n', '\\', '\x00'] := by
  have hblank : ∀ c, isBlank c = true → c ∉ ['#', '\n', '\\', '\x00'] := by
    intro c hc
    simp only [List.mem_cons, List.not_mem_nil, or_false, not_or]
    exact ⟨ne_of_isBlank hc rfl, ne_of_isBlank hc rfl, ne_of_isBlank hc rfl, ne_of_isBlank hc rfl⟩
  intro c hc
  simp only [Setting.head, List.append_assoc, List.mem_append, List.mem_cons] at hc
  rcases hc with hc | hc | hc | rfl | hc
  · exact hblank c (s.blanks c (by simp [hc]))
  · have hkey := (s.keyChars c hc).2
    simp only [List.mem_cons, List.not_mem_nil, or_false, not_or] at hkey ⊢
    exact hkey.2
  · exact hblank c (s.blanks c (by simp [hc]))
  · decide
  · exact hblank c (s.blanks c (by simp [hc]))

/-- The key and the value, whatever stands in the place of the value. -/
theorem Setting.splitLine_eq {u trailing comment : List Char}
    (hu : ∀ c ∈ u, c ∉ ['#', '\n', '\\', '\x00']) (htrailing : ∀ c ∈ trailing, isBlank c = true)
    (hcomment : ∀ c ∈ comment.head?, c = '#') :
    splitLine (content (s.head ++ u ++ (trailing ++ comment)))
      = some (s.key, trimValue (u ++ trailing)) := by
  have hseen : ∀ c ∈ s.head ++ u ++ trailing, c ∉ ['#', '\n', '\x00'] := by
    intro c hc
    have hall : c ∈ trailing ∨ c ∉ ['#', '\n', '\\', '\x00'] := by
      rcases List.mem_append.mp hc with hc | hc
      · exact Or.inr ((List.mem_append.mp hc).elim (s.head_chars c) (hu c))
      · exact Or.inl hc
    simp only [List.mem_cons, List.not_mem_nil, or_false, not_or] at hall ⊢
    rcases hall with hc | hc
    · have hblank := htrailing c hc
      exact ⟨ne_of_isBlank hblank rfl, ne_of_isBlank hblank rfl, ne_of_isBlank hblank rfl⟩
    · exact ⟨hc.1, hc.2.1, hc.2.2.2⟩
  have hcut : cutComment (s.head ++ u ++ trailing) = s.head ++ u ++ trailing := by
    rw [cutComment, List.takeWhile_eq_self_iff]
    intro c hc
    have := hseen c hc
    simp only [List.mem_cons, List.not_mem_nil, or_false, not_or] at this
    simp [this]
  have hsplit : s.head ++ u ++ trailing
      = s.before ++ s.key ++ (s.middle ++ ':' :: (s.after ++ (u ++ trailing))) := by
    simp [Setting.head]
  have hword : firstWord (s.head ++ u ++ trailing) = s.key := by
    rw [hsplit]
    apply firstWord_append
    · exact fun c hc => s.blanks c (by simp [hc])
    · intro c hc
      obtain ⟨hblank, hchars⟩ := s.keyChars c hc
      exact ⟨hblank, fun h => hchars (by simp [h])⟩
    · intro c hc
      cases hmiddle : s.middle with
      | nil =>
        rw [hmiddle] at hc
        cases hc
        exact Or.inl rfl
      | cons d middle =>
        rw [hmiddle] at hc
        cases hc
        exact Or.inr ⟨s.blanks _ (by simp [hmiddle]), s.keyNonempty⟩
  have hcolon : (s.head ++ u ++ trailing).dropWhile (fun c => c ≠ ':')
      = ':' :: (s.after ++ (u ++ trailing)) := by
    rw [hsplit, ← List.append_assoc, List.dropWhile_append_of_pos, List.dropWhile_cons_of_neg]
    · simp
    · intro c hc
      rw [List.mem_append, List.mem_append] at hc
      rcases hc with (hc | hc) | hc
      · exact decide_eq_true (ne_of_isBlank (s.blanks c (by simp [hc])) rfl)
      · exact decide_eq_true fun h => (s.keyChars c hc).2 (by simp [h])
      · exact decide_eq_true (ne_of_isBlank (s.blanks c (by simp [hc])) rfl)
  rw [← List.append_assoc, content_comment hseen hcomment]
  unfold splitLine
  rw [hcut, hcolon, hword]
  show (if s.key = [] then none else some (s.key, trimValue (s.after ++ (u ++ trailing)))) = _
  rw [if_neg s.keyNonempty, trimValue_blanks fun c hc => s.blanks c (by simp [hc])]

end Line

/-- A line for no directive has no value for any. -/
theorem OtherLine.lineValue_eq (l : OtherLine) {d : CString} (hd : d ∈ configDirectives) :
    lineValue (content (l.before ++ l.word ++ l.rest)) d = none := by
  have hword : firstWord (cutComment (content (l.before ++ l.word ++ l.rest))) = l.word := by
    have hseen : ∀ c ∈ l.before ++ l.word, c ∉ ['#', '\n', '\x00'] := by
      intro c hc
      have hnewline : c ≠ '\n' := (l.chars c (List.mem_append_left _ hc)).1
      simp only [List.mem_cons, List.not_mem_nil, or_false, not_or]
      rcases List.mem_append.mp hc with hc | hc
      · exact ⟨ne_of_isBlank (l.blanks c hc) rfl, hnewline, ne_of_isBlank (l.blanks c hc) rfl⟩
      · have hword := (l.wordChars c hc).2
        exact ⟨fun h => hword (by simp [h]), hnewline, fun h => hword (by simp [h])⟩
    rw [cutComment_content, content_eq,
      List.takeWhile_append_of_pos fun c hc => decide_eq_true (hseen c hc)]
    apply firstWord_append l.blanks
    · intro c hc
      obtain ⟨hblank, hchars⟩ := l.wordChars c hc
      exact ⟨hblank, fun h => hchars (by simp [h])⟩
    · -- a character that ends the word and is seen is a colon or a blank
      intro c hc
      have hmem : c ∈ l.rest.takeWhile (fun c => c ∉ ['#', '\n', '\x00']) :=
        List.mem_of_mem_head? hc
      have hpass := List.mem_takeWhile_imp hmem
      obtain ⟨front, hfront⟩ := List.takeWhile_prefix (l := l.rest)
        (fun c => decide (c ∉ ['#', '\n', '\x00']))
      have hrest : c ∈ l.rest.head? := by
        rw [← hfront, List.head?_append, hc]
        rfl
      rcases l.restHead c hrest with h | h
      · left
        simp only [List.mem_cons, List.not_mem_nil, or_false, not_or, decide_eq_true_eq] at h hpass
        rcases h with h | h | h
        · exact h
        · exact absurd h hpass.1
        · exact absurd h hpass.2.2
      · exact Or.inr h
  unfold lineValue splitLine
  rw [hword]
  split
  next => rfl
  next =>
    split
    next => rfl
    next =>
      exact if_neg fun h : l.word = d => l.unknown (h ▸ hd)

namespace Setting

variable (s : Setting)

theorem joined_eq : s.head ++ s.part ++ s.parts.flatten ++ s.tail = s.head ++ s.value ++ s.tail := by
  rw [value, List.append_assoc s.head]

theorem trimValue_value {trailing : List Char} (h : ∀ c ∈ trailing, isBlank c = true) :
    trimValue (s.value ++ trailing) = s.value :=
  trimValue_self s.noLeading s.noTrailing h

theorem visible : Visible (s.head ++ s.part ++ s.parts.flatten) := by
  intro c hc
  have hchars : c ∉ ['#', '\n', '\\', '\x00'] := by
    rw [List.append_assoc] at hc
    exact (List.mem_append.mp hc).elim (s.head_chars c) (s.valueChars c)
  simp only [List.mem_cons, List.not_mem_nil, or_false, not_or] at hchars
  exact hchars.2

theorem tail_unbroken : Unbroken s.tail := by
  apply Unbroken.append
  · intro c hc
    have hblank := s.blanks c (by simp [hc])
    exact ⟨ne_of_isBlank hblank rfl, ne_of_isBlank hblank rfl⟩
  · exact s.commentChars

/-- When the last character of a longest line is lost and it is not one of the value,
the line still ends where the value does. -/
theorem value_of_losesLast (h : LosesLast (s.head ++ s.part) s.parts s.tail) (htail : s.tail ≠ []) :
    (s.head ++ s.value ++ s.tail).dropLast = s.head ++ s.value := by
  obtain ⟨front, back, -, -, -, -, hone⟩ := h
  obtain ⟨c, tail, htl⟩ := List.exists_cons_of_ne_nil htail
  rw [htl, List.length_append, List.length_cons] at hone
  have hnil : tail = [] := List.length_eq_zero_iff.mp (by omega)
  rw [htl, hnil, List.dropLast_concat]

theorem cutShort_iff : s.CutShort ↔
    s.tail = [] ∧ LosesLast (s.head ++ s.part) s.parts s.tail := by
  refine and_congr_right fun htail => ?_
  rw [htail]
  constructor
  · intro ⟨n, hn, hpos, hlen, hone⟩
    refine ⟨s.parts.take n, s.parts.drop n, (List.take_append_drop n s.parts).symm, ?_, ?_, hlen,
      by rwa [List.append_nil]⟩
    · intro h
      have hmin := congrArg List.length h
      rw [List.length_take, List.length_nil] at hmin
      omega
    · intro h
      rw [h] at hone
      cases hone
  · intro ⟨front, back, hsplit, hfront, hback, hlen, hone⟩
    refine ⟨front.length, ?_, List.length_pos_iff.mpr hfront, ?_, ?_⟩
    · rw [hsplit, List.length_append]
      exact Nat.lt_add_of_pos_right (List.length_pos_iff.mpr hback)
    · rw [hsplit, List.take_left]
      exact hlen
    · rw [hsplit, List.drop_left, ← hone, List.append_nil]

/-- The last part of a line that is cut short is not empty, and neither is the value. -/
theorem value_pos (h : s.CutShort) : 0 < s.value.length := by
  obtain ⟨-, n, -, -, -, hone⟩ := h
  have hle : (s.parts.drop n).flatten.length ≤ s.value.length := by
    rw [value, List.length_append, ← List.take_append_drop n s.parts, List.flatten_append,
      List.length_append, List.take_append_drop]
    omega
  omega

/-- What is stored is shorter than the value exactly if the line is cut short. -/
theorem stored_eq_iff : s.stored = s.value ↔ ¬ s.CutShort := by
  unfold stored
  by_cases h : s.CutShort
  · rw [if_pos h]
    refine iff_of_false (fun heq => ?_) (not_not.mpr h)
    have hlen := length_trimValue_le s.value.dropLast
    rw [heq, List.length_dropLast] at hlen
    have hpos := s.value_pos h
    omega
  · rw [if_neg h]
    exact iff_of_true rfl h

end Setting

/-! ## What a file says -/

/-- A line gives its directive what is stored for it. -/
theorem LogicalLine.reads (l : LogicalLine) {tl rest : List Char} (hend : Ends l.text tl rest) :
    Reads (fun d => (l.settingFor d).map Setting.stored) (l.text ++ tl) rest := by
  cases l with
  | other l =>
    obtain ⟨line, hline, hcut⟩ := readLine_last l.chars l.lengthLe hend
    exact (Reads.of_readLine hline hcut).congr fun d hd => l.lineValue_eq hd
  | setting s =>
    have hvalue : ∀ {v : CString} (x : List Char), splitLine (content x) = some (s.key, v) →
        v = s.stored → ∀ d ∈ configDirectives, lineValue (content x) d
          = (LogicalLine.settingFor d (.setting s)).map Setting.stored := by
      intro v x hsplit hv d _
      rw [lineValue, hsplit, hv]
      show (if s.key = d then some s.stored else none)
        = (if s.key = d then some s else none).map Setting.stored
      split <;> rfl
    have htext : s.text = broken (s.head ++ s.part) s.parts ++ s.tail := by
      unfold Setting.text
      cases s.parts <;> simp [broken]
    have hlen : (s.head ++ s.part ++ s.parts.flatten ++ s.tail).length ≤ 2046 := by
      rw [s.joined_eq]
      exact s.lengthLe
    change Ends s.text tl rest at hend
    show Reads _ (s.text ++ tl) rest
    rw [htext] at hend ⊢
    obtain ⟨hwhole, hshort⟩ := reads_broken s.visible s.tail_unbroken hlen hend
    rw [s.joined_eq] at hwhole hshort
    have htrailing : ∀ c ∈ s.trailing, isBlank c = true := fun c hc => s.blanks c (by simp [hc])
    have hnone : ∀ c ∈ ([] : List Char), isBlank c = true := by simp
    have hnoComment : ∀ c ∈ ([] : List Char).head?, c = '#' := by simp
    by_cases hlost : LosesLast (s.head ++ s.part) s.parts s.tail
    · refine (hshort hlost).congr ?_
      by_cases htail : s.tail = []
      · -- the value loses its last character
        have hcut : s.CutShort := s.cutShort_iff.mpr ⟨htail, hlost⟩
        have hne : s.value ≠ [] := List.length_pos_iff.mp (s.value_pos hcut)
        have hsplit := s.splitLine_eq
          (fun c hc => s.valueChars c (List.dropLast_subset _ hc)) hnone hnoComment
        rw [List.append_nil, List.append_nil, List.append_nil] at hsplit
        rw [htail, List.append_nil, List.dropLast_append_of_ne_nil hne]
        exact hvalue _ hsplit (if_pos hcut).symm
      · have hsplit := s.splitLine_eq s.valueChars hnone hnoComment
        rw [List.append_nil, List.append_nil] at hsplit
        rw [s.value_of_losesLast hlost htail]
        apply hvalue _ hsplit
        rw [Setting.stored, if_neg fun h => htail h.1]
        exact s.trimValue_value hnone
    · refine (hwhole hlost).congr (hvalue _ (s.splitLine_eq s.valueChars htrailing s.commentHead) ?_)
      rw [Setting.stored, if_neg fun h => hlost (s.cutShort_iff.mp h).2]
      exact s.trimValue_value htrailing

theorem reads_lines : ∀ (lines : List LogicalLine) (rest : List Char),
    Reads (fun d => (lines.findSome? (LogicalLine.settingFor d)).map Setting.stored)
      (lines.flatMap (fun l => l.text ++ ['\n']) ++ rest) rest
  | [], rest => Reads.refl rest
  | l :: lines, rest => by
    have hfirst := l.reads (.newline (lines.flatMap (fun l => l.text ++ ['\n']) ++ rest))
    have hboth := (hfirst.trans (reads_lines lines rest)).congr (w := fun d =>
      ((l :: lines).findSome? (LogicalLine.settingFor d)).map Setting.stored) fun d _ => by
        rw [List.findSome?_cons]
        cases l.settingFor d <;> rfl
    have htext : (l :: lines).flatMap (fun l => l.text ++ ['\n']) ++ rest
        = l.text ++ '\n' :: (lines.flatMap (fun l => l.text ++ ['\n']) ++ rest) := by simp
    rw [htext]
    exact hboth

theorem ConfigFile.reads (file : ConfigFile) :
    Reads (fun d => (file.firstFor d).map Setting.stored) file.text [] := by
  have hlines := reads_lines file.lines (file.last.elim [] LogicalLine.text)
  unfold ConfigFile.text ConfigFile.firstFor
  cases hlast : file.last with
  | none =>
    rw [hlast] at hlines
    simpa using hlines
  | some l =>
    rw [hlast] at hlines
    obtain ⟨c, hc, hne⟩ := file.lastEnds l hlast
    have hend := l.reads (.eof hc hne)
    rw [List.append_nil] at hend
    refine (hlines.trans hend).congr fun d _ => ?_
    rw [List.findSome?_append]
    cases file.lines.findSome? (LogicalLine.settingFor d) <;> simp

theorem configGetString_readConfigFile (f : CString) (whinge : Bool) (file : ConfigFile)
    (config : StringMap) {d : CString} (hd : d ∈ configDirectives) :
    configGetString (readConfigFile f whinge (.ok file.text) config).2.config d =
      (configGetString config d).or ((file.firstFor d).map Setting.stored) := by
  obtain ⟨i, r, hread, hget⟩ := file.reads f 1 { config, stderr := [] }
  show configGetString (readLines f 1 file.text { config, stderr := [] }).config d = _
  rw [hread, readLines_end]
  exact hget d hd

/-! ## Precedence -/

/-- The configuration after the command line. -/
def commandLine (settings : List (CString × CString)) : StringMap :=
  settings.foldl (fun config s => configSetString config s.1 s.2) .leaf

/-- The last value of a directive on the command line. -/
def lastValue (settings : List (CString × CString)) (d : CString) : Option CString :=
  (settings.reverse.find? (fun s => s.1 = d)).map Prod.snd

theorem configGetString_commandLine (settings : List (CString × CString)) (d : CString) :
    configGetString (commandLine settings) d = lastValue settings d := by
  induction settings using List.reverseRecOn with
  | nil => rfl
  | append_singleton settings s ih =>
    have hstep : commandLine (settings ++ [s]) = configSetString (commandLine settings) s.1 s.2 := by
      rw [commandLine, List.foldl_append]
      rfl
    rw [hstep, configGetString_set, lastValue, List.reverse_append]
    by_cases hd : d = s.1
    · rw [if_pos hd]
      show some s.2 = ((s :: settings.reverse).find? (fun s => s.1 = d)).map Prod.snd
      rw [List.find?_cons_of_pos (by simp [hd])]
      rfl
    · rw [if_neg hd, ih]
      show _ = ((s :: settings.reverse).find? (fun s => s.1 = d)).map Prod.snd
      rw [List.find?_cons_of_neg (by simpa using Ne.symm hd)]
      rfl

/-- After the file is read, a directive has its last value from the command line, or
the value of its first line, or none. -/
def Precedence (f : CString) (whinge : Bool) (settings : List (CString × CString))
    (file : ConfigFile) : Prop :=
  ∀ d ∈ configDirectives,
    configGetString (readConfigFile f whinge (.ok file.text) (commandLine settings)).2.config d =
      (lastValue settings d).or ((file.firstFor d).map Setting.value)

/-- **Precedence holds exactly if no line that decides is cut short**: for every
directive without a value on the command line, its first line keeps its value. -/
theorem precedence_iff (f : CString) (whinge : Bool) (settings : List (CString × CString))
    (file : ConfigFile) : Precedence f whinge settings file ↔
      ∀ d ∈ configDirectives, lastValue settings d = none →
        ∀ s, file.firstFor d = some s → ¬ s.CutShort := by
  unfold Precedence
  refine forall₂_congr fun d hd => ?_
  rw [configGetString_readConfigFile f whinge file _ hd, configGetString_commandLine]
  cases lastValue settings d with
  | some v => simp
  | none =>
    cases file.firstFor d with
    | none => simp
    | some s => simpa using s.stored_eq_iff

/-- A filter of 2033 characters on a line of 2046, broken before its last two parts;
the last part is one character. -/
def longFilter : Setting where
  before := []
  key := "filter-code".toList
  middle := []
  after := [' ']
  part := List.replicate 1000 'a'
  parts := [List.replicate 1032 'a', ['b']]
  trailing := []
  comment := []
  blanks := by simp [isBlank]
  keyChars := by simp [isBlank]
  keyNonempty := by simp
  valueChars := by simp [-List.reduceReplicate]
  noLeading := by intro c hc; cases hc; rfl
  noTrailing := by simp [-List.reduceReplicate, isBlank]
  commentHead := by simp
  commentChars := by simp [Unbroken]
  lengthLe := by simp [-List.reduceReplicate, maxJoined]

/-- The last character of the filter is lost. -/
theorem precedence_fails :
    ¬ Precedence "/etc/iftoprc".toList true [] ⟨[.setting longFilter], none, by simp⟩ := by
  intro h
  have hd : "filter-code".toList ∈ configDirectives := by decide
  have hcut : longFilter.CutShort := by
    refine ⟨rfl, 1, by decide, by decide, ?_, rfl⟩
    simp [-List.reduceReplicate, longFilter, Setting.head]
  have hget := h _ hd
  rw [configGetString_readConfigFile _ _ _ _ hd] at hget
  have hfirst : ConfigFile.firstFor ⟨[.setting longFilter], none, by simp⟩ "filter-code".toList
      = some longFilter := rfl
  rw [hfirst] at hget
  have hstored : longFilter.stored = longFilter.value := Option.some.inj hget
  exact longFilter.stored_eq_iff.mp hstored hcut

end Dotqoo.Config
