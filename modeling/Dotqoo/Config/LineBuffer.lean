import Dotqoo.Lib.Cells
import Dotqoo.Config.CfgFile

/-!
# The configuration file, index by index

`Dotqoo.Config.CfgFile` models `read_config_file` on strings. Here `line` is an array
of `MAX_CONFIG_LINE` cells, the pointers into it are indices, and every access is
checked: `none` is a read or a write outside. Each function of the C library, and each
loop of `read_config_file`, has one lemma that says what it does to the string in the
cells, and leads on to the definition of the same name there.

Mirroring notes:
- `xmalloc` leaves any characters in the cells.
- A pointer that is only formed, as `r` is for an empty line, is not an access.
-/

namespace Dotqoo.Config

open Dotqoo.Lib

/-- `line`. -/
abbrev LineBuf := Nat → Char

/-- A C string in the cells from an index on. -/
abbrev Holds (line : LineBuf) (p : Nat) (s : CString) : Prop :=
  Spells '\x00' maxConfigLine line p s

/-! ## The C library -/

/-- `strlen`. -/
def strlen (line : LineBuf) (p : Nat) : Option Nat :=
  (scanCells maxConfigLine (fun c => c = '\x00') line p).map (· - p)

/-- `strspn`, with a set of characters that has no NUL. -/
def strspn (line : LineBuf) (p : Nat) (accept : Char → Bool) : Option Nat :=
  (scanCells maxConfigLine (fun c => !accept c) line p).map (· - p)

/-- `strcspn`. -/
def strcspn (line : LineBuf) (p : Nat) (reject : Char → Bool) : Option Nat :=
  (scanCells maxConfigLine (fun c => reject c || c = '\x00') line p).map (· - p)

/-- `strpbrk`, and `strchr` with a set of one: an index, or NULL. -/
def strpbrk (line : LineBuf) (p : Nat) (accept : Char → Bool) : Option (Option Nat) := do
  let e ← scanCells maxConfigLine (fun c => accept c || c = '\x00') line p
  let c ← readCell maxConfigLine line e
  some (if c = '\x00' then none else some e)

/-- The string that a function reads from an index on. -/
def stringAt (line : LineBuf) (p : Nat) : Option CString := do
  let n ← strlen line p
  some ((List.range n).map fun i => line (p + i))

/-- `fgets(line + p, k, fp)`: the cells and the text behind what was read, or NULL. -/
def fgetsAt (line : LineBuf) (p k : Nat) (text : List Char) :
    Option (Option (LineBuf × List Char)) :=
  if k = 1 then (writeCell maxConfigLine line p '\x00').map fun line => some (line, text)
  else if text = [] then some none
  else (writeCells maxConfigLine line p ((lineUpTo '\n' (k - 1) text).1 ++ ['\x00'])).map
    fun line => some (line, (lineUpTo '\n' (k - 1) text).2)

section Library

variable {line : LineBuf} {p : Nat} {s : CString}

theorem Holds.strlen (h : Holds line p s) : strlen line p = some s.length := by
  have hall : (s.takeWhile fun c => !decide (c = '\x00')) = s := by
    refine List.takeWhile_eq_self_iff.mpr fun c hc => ?_
    have hne : c ≠ '\x00' := fun heq => h.nul_not_mem (heq ▸ hc)
    simp [hne]
  rw [Config.strlen, h.scan (by simp), hall, Option.map_some, Nat.add_sub_cancel_left]

theorem Holds.strspn (h : Holds line p s) {accept : Char → Bool} (hnul : accept '\x00' = false) :
    strspn line p accept = some (s.takeWhile accept).length := by
  rw [Config.strspn, h.scan (by simp [hnul]), Option.map_some, Nat.add_sub_cancel_left]
  simp

theorem Holds.strcspn (h : Holds line p s) (reject : Char → Bool) :
    strcspn line p reject = some (s.takeWhile fun c => !reject c).length := by
  rw [Config.strcspn, h.scan_or, Option.map_some, Nat.add_sub_cancel_left]

theorem Holds.strpbrk_none (h : Holds line p s) {accept : Char → Bool}
    (hall : ∀ c ∈ s, accept c = false) : strpbrk line p accept = some none := by
  have hs : (s.takeWhile fun c => !accept c) = s :=
    List.takeWhile_eq_self_iff.mpr fun c hc => by simp [hall c hc]
  rw [strpbrk, h.scan_or, hs, Option.bind_eq_bind, Option.bind_some, h.read_end]
  rfl

theorem Holds.strpbrk_some {t : CString} {c : Char} (h : Holds line p (s ++ c :: t))
    {accept : Char → Bool} (hbefore : ∀ c ∈ s, accept c = false) (hc : accept c = true) :
    strpbrk line p accept = some (some (p + s.length)) := by
  have hs : ((s ++ c :: t).takeWhile fun c => !accept c) = s := by
    rw [List.takeWhile_append_of_pos fun c hc => by simp [hbefore c hc],
      List.takeWhile_cons_of_neg (by simp [hc]), List.append_nil]
  have hread : readCell maxConfigLine line ((p + s.length : Nat) : Int) = some c :=
    h.read (by rw [List.getElem?_append_right (Nat.le_refl _), Nat.sub_self]; rfl)
  have hne : c ≠ '\x00' := fun heq => h.nul_not_mem (by simp [heq])
  rw [strpbrk, h.scan_or, hs, Option.bind_eq_bind, Option.bind_some, hread]
  simp [hne]

theorem Holds.stringAt (h : Holds line p s) : stringAt line p = some s := by
  rw [Config.stringAt, h.strlen, Option.bind_eq_bind, Option.bind_some, Option.some_inj]
  exact h.cellList_eq

/-- A NUL is what the characters end with, or one of them. -/
theorem getElem?_cString : ∀ chars : List Char,
    (chars ++ ['\x00'])[(cString chars).length]? = some '\x00'
  | [] => rfl
  | c :: chars => by
    by_cases hc : c = '\x00'
    · simp [cString, hc]
    · have ih := getElem?_cString chars
      simpa [cString, hc] using ih

/-- **`fgets`** behind a prefix of the string in the cells. -/
theorem fgetsAt_spec {front : CString} (hcell : ∀ i c, front[i]? = some c → line i = c)
    (hnul : '\x00' ∉ front) {k : Nat} (hk : 0 < k) (hroom : front.length + k ≤ maxConfigLine)
    (text : List Char) :
    (fgets k text = none → fgetsAt line front.length k text = some none) ∧
    ∀ more left, fgets k text = some (more, left) → ∃ line',
      fgetsAt line front.length k text = some (some (line', left)) ∧
        Holds line' 0 (front ++ more) := by
  have hholds : ∀ chars : List Char, chars.length < k → ∃ line',
      writeCells maxConfigLine line front.length (chars ++ ['\x00']) = some line' ∧
        Holds line' 0 (front ++ cString chars) := by
    intro chars hchars
    have hcut : (cString chars).length ≤ chars.length := (List.takeWhile_prefix _).length_le
    refine ⟨_, writeCells_of_le (by rw [List.length_append, List.length_singleton]; omega), ?_⟩
    refine ⟨fun i c hi => ?_, ?_, ?_, by rw [List.length_append]; omega⟩
    · rw [Nat.zero_add]
      by_cases hlt : i < front.length
      · rw [List.getElem?_append_left hlt] at hi
        rw [if_neg (by omega), hcell i c hi]
      · rw [List.getElem?_append_right (by omega)] at hi
        have hpre : (chars ++ ['\x00'])[i - front.length]? = some c := by
          have hlen := (List.getElem?_eq_some_iff.mp hi).1
          have hpre := List.prefix_iff_getElem?.mp (List.takeWhile_prefix _) _ hlen
          rw [List.getElem?_append_left (by omega), hpre, ← hi]
          exact (List.getElem?_eq_getElem hlen).symm
        rw [if_pos (by omega), hpre, Option.getD_some]
    · rw [List.length_append, Nat.zero_add, if_pos (by omega), Nat.add_sub_cancel_left,
        getElem?_cString, Option.getD_some]
    · rw [List.mem_append]
      rintro (hmem | hmem)
      · exact hnul hmem
      · simpa using List.mem_takeWhile_imp hmem
  unfold fgets fgetsAt
  by_cases hone : k = 1
  · simp only [if_pos hone]
    refine ⟨fun h => by (cases h), fun more left h => ?_⟩
    cases h
    obtain ⟨line', hwrite, hline'⟩ := hholds [] hk
    refine ⟨line', ?_, hline'⟩
    have hput : writeCell maxConfigLine line front.length '\x00' = some line' := by
      simpa [writeCells] using hwrite
    rw [hput]
    rfl
  · simp only [if_neg hone]
    by_cases htext : text = []
    · simp [htext]
    · simp only [if_neg htext]
      refine ⟨fun h => by (cases h), fun more left h => ?_⟩
      cases h
      obtain ⟨line', hwrite, hline'⟩ := hholds (lineUpTo '\n' (k - 1) text).1 (by
        have := length_lineUpTo_le '\n' (k - 1) text
        omega)
      exact ⟨line', by rw [hwrite]; rfl, hline'⟩

end Library

/-! ## Lines -/

/-- The loop `r > line && *r == '\n'`, from an index on. -/
def stripFrom (line : LineBuf) : Nat → Option LineBuf
  | 0 => some line
  | r + 1 => do
    let c ← readCell maxConfigLine line (r + 1 : Nat)
    if c = '\n' then
      let line ← writeCell maxConfigLine line (r + 1 : Nat) '\x00'
      stripFrom line r
    else some line

/-- The same with its start, `line + strlen(line) - 1`; an index in front of the line
ends it as index 0 does. -/
def stripNewlinesAt (line : LineBuf) : Option LineBuf := do
  let n ← strlen line 0
  stripFrom line (n - 1)

theorem Holds.stripFrom {line : LineBuf} {a : Char} {s : CString} (h : Holds line 0 (a :: s)) :
    ∃ line', stripFrom line s.length = some line' ∧ Holds line' 0 (stripNewlines (a :: s)) := by
  induction s using List.reverseRecOn generalizing line with
  | nil => exact ⟨line, rfl, h⟩
  | append_singleton s c ih =>
    have hlt := h.lt
    rw [List.length_cons, List.length_append, List.length_singleton] at hlt
    have hread : readCell maxConfigLine line ((s.length + 1 : Nat) : Int) = some c := by
      have hc : (a :: (s ++ [c]))[s.length + 1]? = some c := by simp
      simpa using h.read hc
    rw [List.length_append, List.length_singleton, Config.stripFrom, hread, Option.bind_eq_bind,
      Option.bind_some]
    by_cases hc : c = '\n'
    · have hcut : Holds (Function.update line (s.length + 1) '\x00') 0 (a :: s) := by
        have := Spells.cut (s := a :: s) (t := [c]) h
        simpa using this
      obtain ⟨line', hrun, hline'⟩ := ih hcut
      refine ⟨line', ?_, ?_⟩
      · rw [if_pos hc, writeCell_of_lt (by omega)]
        exact hrun
      · rwa [stripNewlines, trimRight, List.rdropWhile_concat_pos _ _ _ (by simp [hc])]
    · refine ⟨line, if_neg hc, ?_⟩
      rwa [stripNewlines, trimRight, List.rdropWhile_concat_neg _ _ _ (by simp [hc])]

theorem Holds.stripNewlinesAt {line : LineBuf} {s : CString} (h : Holds line 0 s) :
    ∃ line', stripNewlinesAt line = some line' ∧ Holds line' 0 (stripNewlines s) := by
  rw [Config.stripNewlinesAt, h.strlen, Option.bind_eq_bind, Option.bind_some]
  cases s with
  | nil => exact ⟨line, rfl, h⟩
  | cons a s => exact h.stripFrom

/-! ## What a line says -/

/-- The loop `strchr(" \t", *r) && r > value`, from an index on: `strchr` also finds the
NUL. -/
def trimFrom (line : LineBuf) (value : Nat) : Nat → Option Nat
  | 0 => do
    let _ ← readCell maxConfigLine line (0 : Nat)
    some 0
  | r + 1 => do
    let c ← readCell maxConfigLine line (r + 1 : Nat)
    if (isBlank c ∨ c = '\x00') ∧ value < r + 1 then trimFrom line value r else some (r + 1)

/-- A NUL at `strpbrk(line, "#\n")`. -/
def cutCommentAt (line : LineBuf) : Option LineBuf := do
  match ← strpbrk line 0 (fun c => c = '#' || c = '\n') with
  | some key => writeCell maxConfigLine line key '\x00'
  | none => some line

/-- The body of the reading loop, from the comment on. -/
def storeLineAt (f : CString) (i : Nat) (reading : Reading) (line : LineBuf) : Option Reading := do
  let line ← cutCommentAt line
  let key ← strspn line 0 isBlank
  match ← strpbrk line 0 (fun c => c = ':') with
  | none => some reading
  | some colon =>
    let value := colon + 1
    let n ← strcspn line key (fun c => isBlank c || c = ':')
    if n = 0 then some reading
    else
      let line ← writeCell maxConfigLine line (key + n : Nat) '\x00'
      let blanks ← strspn line value isBlank
      let value := value + blanks
      let len ← strlen line value
      -- `value` is behind the colon, so there is an index in front of it
      let r ← trimFrom line value (value + len - 1)
      let line ← writeCell maxConfigLine line (r + 1 : Nat) '\x00'
      let key ← stringAt line key
      let value ← stringAt line value
      some (storeItem f i reading key value)

theorem trimFrom_eq {line : LineBuf} {r : Nat} (hr : r < maxConfigLine) (value : Nat) :
    trimFrom line value r =
      if (isBlank (line r) ∨ line r = '\x00') ∧ value < r then trimFrom line value (r - 1)
      else some r := by
  cases r with
  | zero =>
    rw [trimFrom, readCell_of_lt hr, if_neg (by omega)]
    rfl
  | succ r =>
    rw [trimFrom, readCell_of_lt hr]
    rfl

/-- The blanks at the end of a value, but not its first character. -/
theorem trimFrom_cons {line : LineBuf} {value : Nat} {a : Char} {s : CString}
    (hcell : ∀ i c, (a :: s)[i]? = some c → line (value + i) = c) (hnul : '\x00' ∉ s)
    (hlt : value + s.length < maxConfigLine) :
    trimFrom line value (value + s.length) = some (value + (s.rdropWhile isBlank).length) := by
  induction s using List.reverseRecOn with
  | nil =>
    rw [trimFrom_eq hlt, if_neg (by simp)]
    rfl
  | append_singleton s c ih =>
    rw [List.length_append, List.length_singleton] at hlt
    have hread : line (value + (s.length + 1)) = c := hcell (s.length + 1) c (by simp)
    have hne : c ≠ '\x00' := fun heq => hnul (by simp [heq])
    rw [List.length_append, List.length_singleton, trimFrom_eq hlt, hread]
    by_cases hc : isBlank c = true
    · rw [if_pos ⟨Or.inl hc, by omega⟩, List.rdropWhile_concat_pos _ _ _ hc]
      refine ih (fun i c' hi => hcell i c' ?_) (fun hmem => hnul (by simp [hmem])) (by omega)
      have hlen := (List.getElem?_eq_some_iff.mp hi).1
      rw [← List.cons_append, List.getElem?_append_left hlen, hi]
    · rw [if_neg (by simp [hc, hne]), List.rdropWhile_concat_neg _ _ _ hc, List.length_append]
      rfl

theorem Holds.trimFrom {line : LineBuf} {value : Nat} {s : CString} (h : Holds line value s)
    (hvalue : 0 < value) : ∃ r, trimFrom line value (value + s.length - 1) = some r ∧
      r + 1 = value + (trimRight isBlank s).length := by
  have hlt := h.lt
  cases s with
  | nil =>
    rw [List.length_nil] at hlt
    refine ⟨value - 1, ?_, by rw [trimRight, List.length_nil]; omega⟩
    rw [List.length_nil, Nat.add_zero, trimFrom_eq (by omega), if_neg (by omega)]
  | cons a s =>
    rw [List.length_cons] at hlt
    have hnul : '\x00' ∉ s := fun hmem => h.nul_not_mem (List.mem_cons_of_mem a hmem)
    exact ⟨_, trimFrom_cons h.cell hnul (by omega), rfl⟩

/-- The first word of a line is in front of its first colon. -/
theorem length_firstWord_le (s : CString) :
    (s.takeWhile isBlank).length + (firstWord s).length ≤
      (s.takeWhile fun c => c ≠ ':').length := by
  have hpre : s.takeWhile isBlank ++ firstWord s <+: s := by
    conv_rhs => rw [← List.takeWhile_append_dropWhile (p := isBlank) (l := s)]
    exact List.prefix_append_right_inj _ |>.mpr (List.takeWhile_prefix _)
  obtain ⟨t, ht⟩ := hpre
  have hnone : ∀ c ∈ s.takeWhile isBlank ++ firstWord s, decide (c ≠ ':') = true := by
    intro c hc
    rcases List.mem_append.mp hc with hc | hc
    · have hblank := List.mem_takeWhile_imp hc
      have hne : c ≠ ':' := by
        rintro rfl
        simp [isBlank] at hblank
      simp [hne]
    · have hword := List.mem_takeWhile_imp hc
      simp only [Bool.and_eq_true] at hword
      simpa using hword.2
  rw [← List.length_append]
  conv_rhs => rw [← ht, List.takeWhile_append_of_pos hnone]
  exact (List.prefix_append _ _).length_le

theorem Holds.cutCommentAt {line : LineBuf} {s : CString} (h : Holds line 0 s) :
    ∃ line', cutCommentAt line = some line' ∧ Holds line' 0 (cutComment s) := by
  have hsplit := List.takeWhile_append_dropWhile (p := fun c => c ≠ '#' && c ≠ '\n') (l := s)
  have hbefore : ∀ c ∈ cutComment s, (decide (c = '#') || decide (c = '\n')) = false := by
    intro c hc
    simpa using List.mem_takeWhile_imp hc
  rw [Config.cutCommentAt]
  cases hrest : s.dropWhile fun c => c ≠ '#' && c ≠ '\n' with
  | nil =>
    rw [hrest, List.append_nil] at hsplit
    have hs : cutComment s = s := hsplit
    rw [hs] at hbefore ⊢
    exact ⟨line, by rw [h.strpbrk_none hbefore]; rfl, h⟩
  | cons c rest =>
    rw [hrest] at hsplit
    have hc : (decide (c = '#') || decide (c = '\n')) = true := by
      have := List.head?_dropWhile_not (fun c => c ≠ '#' && c ≠ '\n') s
      rw [hrest] at this
      simpa [Decidable.imp_iff_not_or, or_comm] using this
    have hline : Holds line 0 (cutComment s ++ c :: rest) := by
      rw [show cutComment s ++ c :: rest = s from hsplit]
      exact h
    have hlt := hline.lt
    rw [List.length_append] at hlt
    refine ⟨Function.update line (0 + (cutComment s).length) '\x00', ?_, hline.cut⟩
    rw [hline.strpbrk_some hbefore hc, Option.bind_eq_bind, Option.bind_some]
    exact writeCell_of_lt (by omega) _

/-- **The body** does what it does on the string. -/
theorem Holds.storeLineAt {line : LineBuf} {s : CString} (h : Holds line 0 s) (f : CString)
    (i : Nat) (reading : Reading) :
    storeLineAt f i reading line = some (storeLine f i reading s) := by
  obtain ⟨line₁, hcut, h₁⟩ := h.cutCommentAt
  generalize hs : cutComment s = cut at h₁
  have hsplit := List.takeWhile_append_dropWhile (p := fun c => c ≠ ':') (l := cut)
  have hbefore : ∀ c ∈ cut.takeWhile fun c => c ≠ ':', decide (c = ':') = false := by
    intro c hc
    simpa using List.mem_takeWhile_imp hc
  rw [Config.storeLineAt, hcut, Option.bind_eq_bind, Option.bind_some, h₁.strspn (by decide),
    Option.bind_eq_bind, Option.bind_some, storeLine, splitLine, hs]
  cases hrest : cut.dropWhile fun c => c ≠ ':' with
  | nil =>
    rw [hrest, List.append_nil] at hsplit
    rw [hsplit] at hbefore
    rw [h₁.strpbrk_none hbefore]
    rfl
  | cons c v =>
    have hc : c = ':' := by
      have := List.head?_dropWhile_not (fun c => c ≠ ':') cut
      rw [hrest] at this
      simpa using this
    subst hc
    rw [hrest] at hsplit
    have hcolon : Holds line₁ 0 ((cut.takeWhile fun c => c ≠ ':') ++ ':' :: v) := by
      rw [hsplit]
      exact h₁
    have hfirst := length_firstWord_le cut
    -- the key is in front of the colon, and the value behind it
    have hkey : Holds line₁ (cut.takeWhile isBlank).length (cut.dropWhile isBlank) := by
      have hblank : Holds line₁ 0 (cut.takeWhile isBlank ++ cut.dropWhile isBlank) := by
        rwa [List.takeWhile_append_dropWhile]
      simpa using hblank.right
    have hvalue : Holds line₁ ((cut.takeWhile fun c => c ≠ ':').length + 1) v := by
      have hv : Holds line₁ 0 (((cut.takeWhile fun c => c ≠ ':') ++ [':']) ++ v) := by
        simpa using hcolon
      simpa using hv.right
    have hword : ((cut.dropWhile isBlank).takeWhile fun c => !(isBlank c || decide (c = ':')))
        = firstWord cut := by
      rw [firstWord]
      refine takeWhile_congr_of_mem fun c _ => ?_
      simp
    rw [hcolon.strpbrk_some hbefore (by simp), Option.bind_eq_bind, Option.bind_some, Nat.zero_add]
    dsimp only
    rw [hkey.strcspn, hword, Option.bind_eq_bind, Option.bind_some]
    by_cases hempty : firstWord cut = []
    · rw [if_pos (by rw [hempty]; rfl), if_pos hempty]
    · rw [if_neg (by simpa using hempty), if_neg hempty]
      have hword' : Holds line₁ (cut.takeWhile isBlank).length (firstWord cut ++
          (cut.dropWhile isBlank).dropWhile fun c => !isBlank c && c ≠ ':') := by
        rwa [firstWord, List.takeWhile_append_dropWhile]
      have hvalue' : Holds line₁ ((cut.takeWhile fun c => c ≠ ':').length + 1)
          (v.takeWhile isBlank ++ v.dropWhile isBlank) := by
        rwa [List.takeWhile_append_dropWhile]
      obtain ⟨blanks, htrim⟩ := isPrefix_trimRight isBlank (v.dropWhile isBlank)
      have hltk := hword'.lt
      rw [List.length_append] at hltk
      generalize hK : (cut.takeWhile isBlank).length = K at *
      generalize hC : (cut.takeWhile fun c => c ≠ ':').length = C at *
      -- the NUL behind the key
      rw [writeCell_of_lt (by omega), Option.bind_some]
      have hkey₂ : Holds _ K (firstWord cut) := hword'.cut
      have hvalue₂ : Holds _ (C + 1) _ := hvalue'.update_of_lt (Nat.lt_succ_of_le hfirst) '\x00'
      have hbody₂ : Holds _ _ (v.dropWhile isBlank) := hvalue₂.right
      generalize Function.update line₁ (K + (firstWord cut).length) '\x00' = line₂ at *
      -- the value without its blanks, and the NUL behind it
      obtain ⟨r, hrun, hr⟩ := hbody₂.trimFrom (by omega)
      have hbody₃ : Holds _ _ (trimRight isBlank (v.dropWhile isBlank)) :=
        Spells.cut (htrim.symm ▸ hbody₂)
      have hblank : (v.takeWhile isBlank ++ v.dropWhile isBlank).takeWhile isBlank
          = v.takeWhile isBlank := by rw [List.takeWhile_append_dropWhile]
      rw [hvalue₂.strspn (by decide), hblank, Option.bind_some,
        hbody₂.strlen, Option.bind_some, hrun, Option.bind_some, hr]
      have hltb := hbody₂.lt
      have hlet := (isPrefix_trimRight isBlank (v.dropWhile isBlank)).length_le
      rw [writeCell_of_lt (by omega), Option.bind_some]
      have hbehind : K + (firstWord cut).length < C + 1 + (v.takeWhile isBlank).length +
          (trimRight isBlank (v.dropWhile isBlank)).length := by omega
      have hkey₃ : Holds _ K _ := hkey₂.update_of_gt hbehind '\x00'
      rw [hkey₃.stringAt, Option.bind_some, hbody₃.stringAt]
      rfl

end Dotqoo.Config
