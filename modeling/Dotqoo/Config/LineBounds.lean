import Mathlib.Logic.Relation
import Dotqoo.Config.LineBuffer

/-!
# Inside the line buffer

The loops of `read_config_file` on the cells. They end on every file: a pass of the
outer loop takes some text, and a continuation takes text or the backslash it is read
over. All accesses are inside but one: where `line` is the empty string, the test for
a backslash reads the cell in front of it. It is empty when `fgets` writes a NUL to
its first cell, and `staysInLine_iff` says when that is.
-/

namespace Dotqoo.Config

open Dotqoo.Lib

/-! ## The loops -/

theorem exists_holds {line : LineBuf} {n : Nat} (h : strlen line 0 = some n) :
    ∃ s, Holds line 0 s ∧ s.length = n := by
  obtain ⟨e, he, rfl⟩ := Option.map_eq_some_iff.mp h
  obtain ⟨s, hs, rfl⟩ := exists_spells he
  exact ⟨s, hs, by omega⟩

/-- `fgets` over the last character of a string, or at the beginning of an empty one. -/
theorem Holds.fgetsAt {line : LineBuf} {s : CString} (h : Holds line 0 s) (text : List Char) :
    (fgets (maxConfigLine - s.length) text = none →
      fgetsAt line (s.length - 1) (maxConfigLine - s.length) text = some none) ∧
    ∀ more left, fgets (maxConfigLine - s.length) text = some (more, left) → ∃ line',
      fgetsAt line (s.length - 1) (maxConfigLine - s.length) text = some (some (line', left)) ∧
        Holds line' 0 (s.dropLast ++ more) := by
  have hlt := h.lt
  rw [← List.length_dropLast]
  refine fgetsAt_spec (fun i c hi => ?_) (fun hmem => h.nul_not_mem (List.dropLast_subset s hmem))
    (by omega) (by rw [List.length_dropLast]; omega) text
  have hc : s[i]? = some c := by
    obtain ⟨hlen, hget⟩ := List.getElem?_eq_some_iff.mp hi
    rw [List.prefix_iff_getElem?.mp (List.dropLast_prefix s) i hlen, hget]
  simpa using h.cell i c hc

/-- The `fgets` that begins a line, over any cells. -/
theorem fgetsAt_start (line : LineBuf) (text : List Char) :
    (fgets maxConfigLine text = none → fgetsAt line 0 maxConfigLine text = some none) ∧
    ∀ more left, fgets maxConfigLine text = some (more, left) → ∃ line',
      fgetsAt line 0 maxConfigLine text = some (some (line', left)) ∧ Holds line' 0 more :=
  @fgetsAt_spec line [] (by simp) (by simp) maxConfigLine (by decide) (by simp) text

/-- `fgets` takes what it writes from the text. -/
theorem fgetsAt_le {line line' : LineBuf} {p k : Nat} {text left : List Char}
    (h : fgetsAt line p k text = some (some (line', left))) :
    left.length ≤ text.length ∧ (1 < k → left.length < text.length) := by
  unfold fgetsAt at h
  split at h
  next hone =>
    obtain ⟨_, -, heq⟩ := Option.map_eq_some_iff.mp h
    cases heq
    exact ⟨Nat.le_refl _, fun hk => by omega⟩
  next hone =>
    split at h
    next => cases h
    next htext =>
      obtain ⟨_, -, heq⟩ := Option.map_eq_some_iff.mp h
      cases heq
      have hlen := length_lineUpTo '\n' (k - 1) text
      exact ⟨by omega, fun hk => length_lineUpTo_lt '\n' (by omega) htext⟩

/-- A continuation takes text, or the backslash. -/
theorem continueAt_lt {line line' line'' : LineBuf} {text left : List Char} {n : Nat} {c : Char}
    (hlen : strlen line 0 = some n) (hcell : readCell maxConfigLine line ((n : Int) - 1) = some c)
    (hread : fgetsAt line (n - 1) (maxConfigLine - n) text = some (some (line', left)))
    (hstrip : stripNewlinesAt line' = some line'') :
    left.length + (strlen line'' 0).getD 0 < text.length + (strlen line 0).getD 0 := by
  obtain ⟨s, hs, rfl⟩ := exists_holds hlen
  have hpos : 0 < s.length := by
    unfold readCell at hcell
    split at hcell
    next hin => omega
    next => cases hcell
  obtain ⟨hnone, hsome⟩ := hs.fgetsAt text
  cases hfgets : fgets (maxConfigLine - s.length) text with
  | none =>
    rw [hnone hfgets] at hread
    cases hread
  | some read =>
    obtain ⟨more, left'⟩ := read
    obtain ⟨line₁, hrun, hline₁⟩ := hsome more left' hfgets
    rw [hrun] at hread
    cases hread
    obtain ⟨line₂, hstrip', hline₂⟩ := hline₁.stripNewlinesAt
    cases hstrip.symm.trans hstrip'
    have hle := length_stripNewlines_le (s.dropLast ++ more)
    have hfile := length_fgets hfgets
    rw [List.length_append, List.length_dropLast] at hle
    rw [hline₂.strlen, hlen, Option.getD_some, Option.getD_some]
    omega

/-- The loop over continuation lines. -/
def continueAt (line : LineBuf) (text : List Char) : Option (LineBuf × List Char) :=
  match _ : strlen line 0 with
  | none => none
  | some n =>
    match _ : readCell maxConfigLine line ((n : Int) - 1) with
    | none => none
    | some c =>
      if c = '\\' then
        match _ : fgetsAt line (n - 1) (maxConfigLine - n) text with
        | none => none
        | some none => some (line, text)
        | some (some (line', left)) =>
          match _ : stripNewlinesAt line' with
          | none => none
          | some line'' => continueAt line'' left
      else some (line, text)
termination_by text.length + (strlen line 0).getD 0
decreasing_by exact continueAt_lt ‹_› ‹_› ‹_› ‹_›

theorem continueAt_eq (line : LineBuf) (text : List Char) : continueAt line text = (do
    let n ← strlen line 0
    let c ← readCell maxConfigLine line ((n : Int) - 1)
    if c = '\\' then
      match ← fgetsAt line (n - 1) (maxConfigLine - n) text with
      | none => some (line, text)
      | some (line', left) =>
        let line'' ← stripNewlinesAt line'
        continueAt line'' left
    else some (line, text)) := by
  rw [continueAt]
  split
  next hlen => rw [hlen]; rfl
  next n hlen =>
    rw [hlen, Option.bind_eq_bind, Option.bind_some]
    split
    next hcell => rw [hcell]; rfl
    next c hcell =>
      rw [hcell, Option.bind_eq_bind, Option.bind_some]
      split
      next =>
        split
        next hread => rw [hread]; rfl
        next hread => rw [hread]; rfl
        next line' left hread =>
          rw [hread, Option.bind_eq_bind, Option.bind_some]
          dsimp only
          split
          next hstrip => rw [hstrip]; rfl
          next hstrip => rw [hstrip]; rfl
      next => rfl

section Loop

variable {line : LineBuf} {s : CString}

/-- The test for a backslash, of a line that is not empty. -/
theorem Holds.read_last (h : Holds line 0 s) {c : Char} (hc : s.getLast? = some c) :
    readCell maxConfigLine line ((s.length : Int) - 1) = some c := by
  have hpos : s ≠ [] := fun hnil => by simp [hnil] at hc
  have hlen := List.length_pos_iff.mpr hpos
  rw [List.getLast?_eq_getElem?] at hc
  have hread := h.read hc
  rwa [Nat.zero_add, Int.natCast_sub hlen] at hread

/-- **The cell in front of the line** is read where the line is empty. -/
theorem Holds.continueAt_nil (h : Holds line 0 []) (text : List Char) :
    continueAt line text = none := by
  rw [continueAt_eq, h.strlen]
  rfl

theorem Holds.continueAt_stop (h : Holds line 0 s) (hne : s ≠ []) (hlast : s.getLast? ≠ some '\\')
    (text : List Char) : continueAt line text = some (line, text) := by
  have hc := List.getLast?_eq_some_getLast hne
  have hcne : s.getLast hne ≠ '\\' := fun heq => hlast (heq ▸ hc)
  rw [continueAt_eq, h.strlen, Option.bind_eq_bind, Option.bind_some, h.read_last hc,
    Option.bind_eq_bind, Option.bind_some, if_neg hcne]

theorem Holds.continueAt_end (h : Holds line 0 s) (hlast : s.getLast? = some '\\')
    {text : List Char} (hread : fgets (maxConfigLine - s.length) text = none) :
    continueAt line text = some (line, text) := by
  rw [continueAt_eq, h.strlen, Option.bind_eq_bind, Option.bind_some, h.read_last hlast,
    Option.bind_eq_bind, Option.bind_some, if_pos rfl, (h.fgetsAt text).1 hread]
  rfl

theorem Holds.continueAt_read (h : Holds line 0 s) (hlast : s.getLast? = some '\\')
    {text more left : List Char}
    (hread : fgets (maxConfigLine - s.length) text = some (more, left)) : ∃ line',
      Holds line' 0 (stripNewlines (s.dropLast ++ more)) ∧
      continueAt line text = continueAt line' left := by
  obtain ⟨line₁, hrun, h₁⟩ := (h.fgetsAt text).2 more left hread
  obtain ⟨line₂, hstrip, h₂⟩ := h₁.stripNewlinesAt
  refine ⟨line₂, h₂, ?_⟩
  rw [continueAt_eq, h.strlen, Option.bind_eq_bind, Option.bind_some, h.read_last hlast,
    Option.bind_eq_bind, Option.bind_some, if_pos rfl, hrun, Option.bind_eq_bind, Option.bind_some]
  dsimp only
  rw [hstrip]
  rfl

theorem continueAt_le (line : LineBuf) (text : List Char) {line' : LineBuf} {left : List Char}
    (h : continueAt line text = some (line', left)) : left.length ≤ text.length := by
  fun_induction continueAt line text with
  | case1 => cases h
  | case2 => cases h
  | case3 => cases h
  | case4 => cases h; exact Nat.le_refl _
  | case5 => cases h
  | case6 line text n hlen line₁ left hread line₂ hstrip hcell ih =>
    have hle := ih h
    have hfile := (fgetsAt_le hread).1
    omega
  | case7 => cases h; exact Nat.le_refl _

end Loop

/-- The reading loop; `memset` leaves NULs in all cells. -/
def readLinesAt (f : CString) (i : Nat) (line : LineBuf) (text : List Char) (r : Reading) :
    Option Reading :=
  match _ : fgetsAt line 0 maxConfigLine text with
  | none => none
  | some none => some r
  | some (some (line, left)) =>
    match stripNewlinesAt line with
    | none => none
    | some line =>
      match _ : continueAt line left with
      | none => none
      | some (line, left) =>
        match storeLineAt f i r line with
        | none => none
        | some r => readLinesAt f (i + 1) (fun _ => '\x00') left r
termination_by text.length
decreasing_by
  exact Nat.lt_of_le_of_lt (continueAt_le _ _ ‹_›) ((fgetsAt_le ‹_›).2 (by decide))

/-- `read_config_file`; `line` is what `xmalloc` returns. -/
def readConfigFileAt (f : CString) (whinge : Bool) (file : Except CString (List Char))
    (line : LineBuf) (config : StringMap) : Option (Int × Reading) :=
  match file with
  | .error strerror =>
    some (0, { config, stderr := if whinge then [f ++ ": ".toList ++ strerror] else [] })
  | .ok text => (readLinesAt f 1 line text { config, stderr := [] }).map fun r => (1, r)

/-! ## Reads over a line -/

/-- A read over the last character of a line: the line afterwards, and the text left. -/
def readOver (line : CString) (text : List Char) : Option (CString × List Char) :=
  (fgets (maxConfigLine - line.length) text).map fun read =>
    (stripNewlines (line.dropLast ++ read.1), read.2)

/-- The line that the next `fgets` reads over: one that ends in a backslash, or none. -/
def resume (line : CString) (text : List Char) : CString × List Char :=
  if line.getLast? = some '\\' then (line, text) else ([], text)

/-- From one call of `fgets` to the next: the line it reads over, and the text. -/
inductive NextRead : CString × List Char → CString × List Char → Prop
  | read {line line' : CString} {text left : List Char} :
      readOver line text = some (line', left) → NextRead (line, text) (resume line' left)
  | last {line : CString} {text : List Char} :
      line ≠ [] → readOver line text = none → NextRead (line, text) ([], text)

/-- `fgets` writes to the first cell, and the next character is a NUL. -/
def NulFirst (s : CString × List Char) : Prop := s.1.length ≤ 1 ∧ s.2.head? = some '\x00'

/-- No call of `fgets` from here on writes a NUL to the first cell. -/
def Clean (s : CString × List Char) : Prop :=
  ∀ s', Relation.ReflTransGen NextRead s s' → ¬ NulFirst s'

theorem clean_iff {s : CString × List Char} :
    Clean s ↔ ¬ NulFirst s ∧ ∀ s', NextRead s s' → Clean s' := by
  constructor
  · intro h
    exact ⟨h s .refl, fun s' hs' s'' hs'' => h s'' (.head hs' hs'')⟩
  · intro ⟨hs, hnext⟩ s' hs'
    rcases Relation.ReflTransGen.cases_head hs' with rfl | ⟨s₁, h₁, h'⟩
    · exact hs
    · exact hnext s₁ h₁ s' h'

theorem clean_read_iff {line line' : CString} {text left : List Char}
    (h : readOver line text = some (line', left)) :
    Clean (line, text) ↔ ¬ NulFirst (line, text) ∧ Clean (resume line' left) := by
  rw [clean_iff]
  refine and_congr_right fun _ => ⟨fun hnext => hnext _ (.read h), ?_⟩
  rintro hc s' (h' | ⟨-, h'⟩)
  · cases h.symm.trans h'
    exact hc
  · cases h.symm.trans h'

theorem eq_nil_of_fgets {size : Nat} {text : List Char} (h : fgets size text = none) :
    text = [] := by
  unfold fgets at h
  split at h
  next => cases h
  next =>
    split at h
    next htext => exact htext
    next => cases h

/-- At the end of the file there is no NUL. -/
theorem clean_end : Clean ([], []) := by
  refine clean_iff.mpr ⟨fun hnul => (by cases hnul.2), ?_⟩
  rintro s' (h | ⟨hne, -⟩)
  · simp [readOver, fgets, maxConfigLine] at h
  · exact absurd rfl hne

theorem clean_of_readOver_none {line : CString} (h : readOver line [] = none) :
    Clean (line, []) := by
  refine clean_iff.mpr ⟨fun hnul => (by cases hnul.2), ?_⟩
  rintro s' (h' | -)
  · cases h.symm.trans h'
  · exact clean_end

theorem stripNewlines_eq_nil_iff {line : CString} : stripNewlines line = [] ↔ line = [] := by
  cases line <;> simp [stripNewlines, trimRight]

/-- Nothing is read into a string if the first character is a NUL. -/
theorem fgets_eq_nil_iff {size : Nat} (hsize : 1 < size) {text left : List Char} {more : CString}
    (h : fgets size text = some (more, left)) : more = [] ↔ text.head? = some '\x00' := by
  unfold fgets at h
  rw [if_neg (by omega)] at h
  split at h
  next => cases h
  next htext =>
    cases h
    obtain ⟨a, text, rfl⟩ := List.exists_cons_of_ne_nil htext
    obtain ⟨n, hn⟩ : ∃ n, size - 1 = n + 1 := ⟨size - 2, by omega⟩
    rw [hn, lineUpTo]
    split <;> simp [cString, List.takeWhile_cons]

/-- **The line is empty** after a read that begins with a NUL in the first cell. -/
theorem readOver_eq_nil_iff {line line' : CString} {text left : List Char}
    (h : readOver line text = some (line', left)) : line' = [] ↔ NulFirst (line, text) := by
  obtain ⟨⟨more, left'⟩, hread, heq⟩ := Option.map_eq_some_iff.mp h
  cases heq
  have hdrop : line.dropLast = [] ↔ line.length ≤ 1 := by
    rw [← List.length_eq_zero_iff, List.length_dropLast]
    omega
  rw [stripNewlines_eq_nil_iff, List.append_eq_nil_iff, hdrop]
  refine and_congr_right fun hlen => ?_
  exact fgets_eq_nil_iff (by rw [maxConfigLine]; omega) hread

/-! ## The whole file -/

/-- **The continuation loop** is the one on the string if the reads are clean, and else
reads in front of the line or leaves a later read to. -/
theorem Holds.continueAt {line : LineBuf} {s : CString} (h : Holds line 0 s) (hne : s ≠ [])
    (text : List Char) :
    (Clean (resume s text) → ∃ line', continueAt line text = some (line', (continueLine s text).2) ∧
      Holds line' 0 (continueLine s text).1 ∧ Clean ([], (continueLine s text).2)) ∧
    (¬ Clean (resume s text) → Config.continueAt line text = none ∨
      ∃ line', Config.continueAt line text = some (line', (continueLine s text).2) ∧
        Holds line' 0 (continueLine s text).1 ∧ ¬ Clean ([], (continueLine s text).2)) := by
  fun_induction continueLine s text generalizing line with
  | case1 s text hlast hread =>
    have hrun := h.continueAt_end hlast hread
    have htext := eq_nil_of_fgets hread
    subst htext
    have hclean : Clean (s, []) := clean_of_readOver_none (by rw [readOver, hread]; rfl)
    rw [resume, if_pos hlast]
    exact ⟨fun _ => ⟨line, hrun, h, clean_end⟩, fun hc => absurd hclean hc⟩
  | case2 s text hlast more left hread ih =>
    have hover : readOver s text = some (stripNewlines (s.dropLast ++ more), left) := by
      rw [readOver, hread]
      rfl
    obtain ⟨line', h', hrun⟩ := h.continueAt_read hlast hread
    rw [resume, if_pos hlast, clean_read_iff hover, ← readOver_eq_nil_iff hover, hrun]
    by_cases hempty : stripNewlines (s.dropLast ++ more) = []
    · refine ⟨fun hc => absurd hempty hc.1, fun _ => Or.inl ?_⟩
      rw [hempty] at h'
      exact h'.continueAt_nil left
    · obtain ⟨hclean, hdirty⟩ := ih h' hempty
      exact ⟨fun hc => hclean hc.2, fun hc => hdirty fun hc' => hc ⟨hempty, hc'⟩⟩
  | case3 s text hlast =>
    have hrun := h.continueAt_stop hne hlast text
    rw [resume, if_neg hlast]
    exact ⟨fun hc => ⟨line, hrun, h, hc⟩, fun hc => Or.inr ⟨line, hrun, h, hc⟩⟩

theorem readLinesAt_eq (f : CString) (i : Nat) (line : LineBuf) (text : List Char) (r : Reading) :
    readLinesAt f i line text r = (do
      match ← fgetsAt line 0 maxConfigLine text with
      | none => some r
      | some (line, left) =>
        let line ← stripNewlinesAt line
        let (line, left) ← Config.continueAt line left
        let r ← storeLineAt f i r line
        readLinesAt f (i + 1) (fun _ => '\x00') left r) := by
  rw [readLinesAt]
  split
  next hread => rw [hread]; rfl
  next hread => rw [hread]; rfl
  next line left hread =>
    rw [hread, Option.bind_eq_bind, Option.bind_some]
    dsimp only
    split
    next hstrip => rw [hstrip]; rfl
    next line hstrip =>
      rw [hstrip, Option.bind_eq_bind, Option.bind_some]
      split
      next hcont => rw [hcont]; rfl
      next line left hcont =>
        rw [hcont, Option.bind_eq_bind, Option.bind_some]
        dsimp only
        split
        next hstore => rw [hstore]; rfl
        next hstore => rw [hstore]; rfl

/-- **The reading loop** is the one on strings if the reads are clean, and else reads in
front of the line. -/
theorem readLinesAt_spec (f : CString) (i : Nat) (line : LineBuf) (text : List Char) (r : Reading) :
    (Clean ([], text) → readLinesAt f i line text r = some (readLines f i text r)) ∧
    (¬ Clean ([], text) → readLinesAt f i line text r = none) := by
  fun_induction readLines f i text r generalizing line with
  | case1 i text r hline =>
    rw [readLine, Option.map_eq_none_iff] at hline
    have hrun : readLinesAt f i line text r = some r := by
      rw [readLinesAt_eq, (fgetsAt_start line text).1 hline]
      rfl
    have htext := eq_nil_of_fgets hline
    subst htext
    exact ⟨fun _ => hrun, fun hc => absurd clean_end hc⟩
  | case2 i text r s left hline ih =>
    obtain ⟨⟨first, behind⟩, hread, hcont⟩ := Option.map_eq_some_iff.mp hline
    obtain ⟨line₁, hrun, h₁⟩ := (fgetsAt_start line text).2 first behind hread
    obtain ⟨line₂, hstrip, h₂⟩ := h₁.stripNewlinesAt
    have hover : readOver [] text = some (stripNewlines first, behind) := by
      rw [readOver, List.length_nil, Nat.sub_zero, hread]
      rfl
    rw [readLinesAt_eq, hrun, Option.bind_eq_bind, Option.bind_some]
    dsimp only at hcont ⊢
    rw [hstrip, Option.bind_eq_bind, Option.bind_some, clean_read_iff hover,
      ← readOver_eq_nil_iff hover]
    by_cases hempty : stripNewlines first = []
    · rw [hempty] at h₂
      rw [h₂.continueAt_nil]
      exact ⟨fun hc => absurd hempty hc.1, fun _ => rfl⟩
    · obtain ⟨hclean, hdirty⟩ := h₂.continueAt hempty behind
      rw [hcont] at hclean hdirty
      refine ⟨fun hc => ?_, fun hc => ?_⟩
      · obtain ⟨line₃, hrun₃, h₃, hc₃⟩ := hclean hc.2
        rw [hrun₃, Option.bind_eq_bind, Option.bind_some]
        dsimp only
        rw [h₃.storeLineAt, Option.bind_eq_bind, Option.bind_some]
        exact (ih _).1 hc₃
      · rcases hdirty fun hc' => hc ⟨hempty, hc'⟩ with hnone | ⟨line₃, hrun₃, h₃, hc₃⟩
        · rw [hnone]
          rfl
        · rw [hrun₃, Option.bind_eq_bind, Option.bind_some]
          dsimp only
          rw [h₃.storeLineAt, Option.bind_eq_bind, Option.bind_some]
          exact (ih _).2 hc₃

/-- **The cells refine the strings**: where no access is outside, the file is read as
`readConfigFile` reads it. -/
theorem readConfigFileAt_eq (f : CString) (whinge : Bool) {text : List Char} (line : LineBuf)
    (config : StringMap) (h : Clean ([], text)) :
    readConfigFileAt f whinge (.ok text) line config
      = some (readConfigFile f whinge (.ok text) config) := by
  rw [readConfigFileAt, (readLinesAt_spec f 1 line text _).1 h]
  rfl

theorem fgets_subset {size : Nat} {text left : List Char} {more : CString}
    (h : fgets size text = some (more, left)) : left ⊆ text := by
  unfold fgets at h
  split at h
  next => cases h; exact List.Subset.refl _
  next =>
    split at h
    next => cases h
    next =>
      cases h
      intro c hc
      rw [← lineUpTo_append '\n' (size - 1) text]
      exact List.mem_append_right _ hc

/-- A file without a NUL is read inside the buffer. -/
theorem clean_of_not_mem {text : List Char} (h : '\x00' ∉ text) (line : CString) :
    Clean (line, text) := by
  intro s' hs'
  have hmem : '\x00' ∉ s'.2 := by
    induction hs' with
    | refl => exact h
    | tail _ hnext ih =>
      cases hnext with
      | read hread =>
        obtain ⟨⟨more, left⟩, hfgets, heq⟩ := Option.map_eq_some_iff.mp hread
        cases heq
        intro hin
        refine ih (fgets_subset hfgets ?_)
        unfold resume at hin
        split at hin <;> exact hin
      | last => exact ih
  exact fun hnul => hmem (List.mem_of_mem_head? hnul.2)

/-- **The reader ends and stays in its buffer** exactly if no `fgets` that writes to the
first cell, at the beginning of a line or over a line that is one backslash, has a NUL
before it. -/
theorem staysInLine_iff (f : CString) (whinge : Bool) (text : List Char) (line : LineBuf)
    (config : StringMap) :
    (readConfigFileAt f whinge (.ok text) line config).isSome ↔
      ∀ s rest, Relation.ReflTransGen NextRead ([], text) (s, rest) → s.length ≤ 1 →
        rest.head? ≠ some '\x00' := by
  have hclean : Clean ([], text) ↔ ∀ s rest, Relation.ReflTransGen NextRead ([], text) (s, rest) →
      s.length ≤ 1 → rest.head? ≠ some '\x00' :=
    ⟨fun h s rest hs hlen hnul => h (s, rest) hs ⟨hlen, hnul⟩,
      fun h s' hs' hnul => h s'.1 s'.2 hs' hnul.1 hnul.2⟩
  rw [← hclean]
  by_cases hc : Clean ([], text)
  · simp [readConfigFileAt_eq f whinge line config hc, hc]
  · rw [readConfigFileAt, (readLinesAt_spec f 1 line text _).2 hc]
    simp [hc]

/-- A file that begins with a NUL. -/
theorem nul_outside :
    ¬ ∀ text, (readConfigFileAt "c".toList false (.ok text) (fun _ => 'x') .leaf).isSome := by
  intro h
  have hdirty : ¬ Clean ([], ['\x00']) := fun hc => hc _ .refl ⟨Nat.zero_le 1, rfl⟩
  have hin := h ['\x00']
  rw [readConfigFileAt, (readLinesAt_spec _ _ _ _ _).2 hdirty] at hin
  cases hin

end Dotqoo.Config
