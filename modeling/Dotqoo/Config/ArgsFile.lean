import Dotqoo.Config.Args
import Dotqoo.Config.CfgFile
import Dotqoo.Lib.Sentinel

/-!
# The argument file

`read_args_from_file`. The lines of `options_args.txt` that are no comments are
copied behind each other into `args`, a blank after each; `strtok` takes the
result apart at the blanks.

Mirroring notes:
- The file is the list of its characters, and a last line without a newline is a
  line. The words are what `fargv` holds from index 1 on, which is `none` when
  the function leaves one of its arrays.
- `args` and `buff` have 255 characters, so `fgets` takes 254 of a line at a time.
  What the source calls a line is such a part of one: each is tested for a `#` of
  its own.
- `args` is not initialised. `Stack` is what it holds on entry, and what `strtok`
  is given when no part of the file was copied.
-/

namespace Dotqoo.Config

open Dotqoo.Lib

/-! ## The code -/

/-- The size of `buff` and of `args`. -/
def argsSize : Nat := 255

/-- The number of entries of `fargv`. -/
def fargvLen : Nat := 32

/-- The size a token copy is allocated with. -/
def tokenSize : Nat := 64

/-- What `args` holds on entry. -/
structure Stack where
  chars : List Char
  length_eq : chars.length = argsSize

/-- `strcpy(dest + pos, src)`; `none` when it leaves `dest`. -/
def strcpyAt (dest : List Char) (pos : Nat) (src : CString) : Option (List Char) :=
  if pos + src.length < dest.length then
    some (dest.take pos ++ src ++ '\x00' :: dest.drop (pos + src.length + 1))
  else none

/-- The locals `args` and `i`. -/
structure ArgsBuffer where
  args : List Char
  i : Nat

/-- A string and a blank are copied behind what is there. -/
def ArgsBuffer.append (b : ArgsBuffer) (line : CString) : Option ArgsBuffer := do
  let args ← strcpyAt b.args b.i line
  let args ← strcpyAt args (b.i + line.length) [' ']
  some ⟨args, b.i + line.length + 1⟩

/-- The body of the reading loop. -/
def ArgsBuffer.readLine (b : ArgsBuffer) (buff : CString) : Option ArgsBuffer :=
  if buff.head? = some '#' ∨ buff.head? = some '\n' then some b
  -- the newline is removed
  else b.append (buff.takeWhile fun c => c ≠ '\n')

theorem length_fgets_lt {size : Nat} (hsize : 2 ≤ size) {text left : List Char} {buff : CString}
    (h : fgets size text = some (buff, left)) : left.length < text.length := by
  unfold fgets at h
  rw [if_neg (by omega)] at h
  split at h
  next => cases h
  next hne =>
    cases h
    exact length_lineUpTo_lt '\n' (by omega) hne

/-- The reading loop. -/
def ArgsBuffer.readLines (b : ArgsBuffer) (text : List Char) : Option ArgsBuffer :=
  match _h : fgets argsSize text with
  | none => some b
  | some (buff, left) =>
    match b.readLine buff with
    | none => none
    | some b => b.readLines left
  termination_by text.length
  decreasing_by exact length_fgets_lt (by decide) _h

/-- The loop that copies the tokens, `fargc` being the next index. -/
def storeArgs : Nat → List CString → Option (List CString)
  | _, [] => some []
  | fargc, arg :: args =>
    if fargc < fargvLen ∧ arg.length < tokenSize then
      (storeArgs (fargc + 1) args).map fun fargv => arg :: fargv
    else none

/-- `read_args_from_file`. -/
def readArgsFromFile (stack : Stack) (text : List Char) : Option (List CString) :=
  match ArgsBuffer.readLines ⟨stack.chars, 0⟩ text with
  | none => none
  | some b =>
    -- without a NUL `strtok` reads on behind the array
    if '\x00' ∈ b.args then storeArgs 1 (strtok ' ' (cString b.args)) else none

/-! ## Tokens -/

theorem strtok_append (delim : Char) (s rest : CString) :
    strtok delim (s ++ delim :: rest) = strtok delim s ++ strtok delim rest := by
  rw [strtok, List.splitOn_append_cons_self, List.filter_append, strtok, strtok]

theorem strtok_cons_delim (delim : Char) (s : CString) :
    strtok delim (delim :: s) = strtok delim s :=
  strtok_append delim [] s

/-- A token and what is left of the string behind it. -/
theorem strtok_cons {delim c : Char} (hc : c ≠ delim) (s : CString) :
    ∃ token rest, strtok delim (c :: s) = (c :: token) :: rest := by
  obtain ⟨first, others, hsplit⟩ := List.exists_cons_of_ne_nil (List.splitOn_ne_nil delim s)
  refine ⟨first, others.filter fun token => token ≠ [], ?_⟩
  rw [strtok, List.splitOn_cons_eq_if_modifyHead, if_neg (by simpa using hc), hsplit]
  simp

theorem strtok_eq_nil_iff {delim : Char} : ∀ {s : CString},
    strtok delim s = [] ↔ ∀ c ∈ s, c = delim
  | [] => by simp [strtok]
  | c :: s => by
    by_cases hc : c = delim
    · rw [hc, strtok_cons_delim, strtok_eq_nil_iff, List.forall_mem_cons]
      simp
    · obtain ⟨token, rest, h⟩ := strtok_cons hc s
      rw [h]
      simp [hc]

/-- Every character of a string but the delimiter is in one of its tokens, and
nothing else is. -/
theorem mem_strtok {delim c : Char} (hc : c ≠ delim) (s : CString) :
    (∃ token ∈ strtok delim s, c ∈ token) ↔ c ∈ s := by
  have hsplit : (∃ token ∈ strtok delim s, c ∈ token) ↔ ∃ part ∈ s.splitOn delim, c ∈ part := by
    unfold strtok
    constructor
    · rintro ⟨token, ht, hct⟩
      exact ⟨token, (List.mem_filter.mp ht).1, hct⟩
    · rintro ⟨part, hp, hcp⟩
      exact ⟨part, List.mem_filter.mpr ⟨hp, by simpa using List.ne_nil_of_mem hcp⟩, hcp⟩
  rw [hsplit]
  have hjoin : ∀ parts : List CString,
      c ∈ [delim].intercalate parts ↔ ∃ part ∈ parts, c ∈ part := by
    intro parts
    induction parts with
    | nil => simp
    | cons part parts ih =>
      cases parts with
      | nil => simp
      | cons next parts =>
        rw [List.intercalate_cons_cons, List.mem_append, List.mem_append, ih]
        simp [hc]
  rw [← hjoin, List.intercalate_splitOn]

/-- What is copied out are the tokens, if there is room for each and all. -/
theorem storeArgs_eq : ∀ (fargc : Nat) (args : List CString), fargc ≤ fargvLen →
    storeArgs fargc args = if fargc + args.length ≤ fargvLen
        ∧ ∀ arg ∈ args, arg.length < tokenSize then some args else none
  | fargc, [], h => by simp [storeArgs, h]
  | fargc, arg :: args, h => by
    rw [storeArgs]
    by_cases hroom : fargc < fargvLen ∧ arg.length < tokenSize
    · rw [if_pos hroom, storeArgs_eq (fargc + 1) args hroom.1]
      have hcount : fargc + 1 + args.length = fargc + (arg :: args).length := by
        rw [List.length_cons]
        omega
      rw [hcount]
      by_cases hrest : fargc + (arg :: args).length ≤ fargvLen ∧ ∀ a ∈ args, a.length < tokenSize
      · rw [if_pos hrest, if_pos ⟨hrest.1, List.forall_mem_cons.mpr ⟨hroom.2, hrest.2⟩⟩]
        rfl
      · rw [if_neg hrest, if_neg fun hall =>
          hrest ⟨hall.1, (List.forall_mem_cons.mp hall.2).2⟩]
        rfl
    · rw [if_neg hroom, if_neg fun hall => hroom ⟨by
        have := hall.1
        rw [List.length_cons] at this
        omega, hall.2 arg List.mem_cons_self⟩]

end Dotqoo.Config
